import AcceleratorScheduler.LittleEndian
import AcceleratorScheduler.Refusal

/-! The fixed-size record that rings carry, and the number fields inside it. -/
namespace AcceleratorScheduler

def slotSize : Nat := 32

abbrev Slot := Vector UInt8 slotSize

namespace Slot

def ofBytes (bytes : List UInt8) (full : bytes.length = slotSize) : Slot :=
  ⟨bytes.toArray, by simpa using full⟩

def padded (bytes : List UInt8) : Slot :=
  ofBytes ((bytes ++ List.replicate slotSize 0).take slotSize) (by simp)

def field (slot : Slot) (start width : Nat) : Nat :=
  LittleEndian.decode ((slot.toList.drop start).take width)

inductive Defect where
  | malformed
  | unsupported
  deriving DecidableEq, Repr

/-- Every defect is reported to the agent as one refusal. -/
def Defect.refusal : Defect → Refusal
  | malformed => .invalidArgument
  | unsupported => .invalidArgument

end Slot

end AcceleratorScheduler
