import AcceleratorScheduler.Slot.Basic

/-! Requests that an agent posts, and their slots: opcode, four zero bytes, sequence number,
argument, eight zero bytes. -/
namespace AcceleratorScheduler

inductive Request where
  | switchDomain (seq domain : UInt64)
  | ping (seq : UInt64)
  deriving DecidableEq, Repr

namespace Request

def switchOpcode : UInt32 := 1

def pingOpcode : UInt32 := 2

def seq : Request → UInt64
  | switchDomain seq _ => seq
  | ping seq => seq

def opcode : Request → UInt32
  | switchDomain .. => switchOpcode
  | ping _ => pingOpcode

/-- The domain of a switch; a ping has none and sends zero. -/
def argument : Request → UInt64
  | switchDomain _ domain => domain
  | ping _ => 0

def encode (r : Request) : Slot :=
  .ofBytes
    (LittleEndian.encode 4 r.opcode.toNat ++ LittleEndian.encode 4 0
      ++ LittleEndian.encode 8 r.seq.toNat ++ LittleEndian.encode 8 r.argument.toNat
      ++ LittleEndian.encode 8 0)
    (by simp [slotSize])

/-- Opcode and sequence number of a slot, whether or not it holds a request: an answer needs
both. -/
def envelope (slot : Slot) : UInt32 × UInt64 :=
  (.ofNat (slot.field 0 4), .ofNat (slot.field 8 8))

/-- Reads a request. Nonzero reserved bytes are malformed under every opcode. -/
def decode (slot : Slot) : Except Slot.Defect Request :=
  let (opcode, seq) := envelope slot
  let argument := UInt64.ofNat (slot.field 16 8)
  if slot.field 4 4 ≠ 0 ∨ slot.field 24 8 ≠ 0 then .error .malformed
  else if opcode = switchOpcode then
    if argument = 0 then .error .malformed else .ok (.switchDomain seq argument)
  else if opcode = pingOpcode then
    if argument = 0 then .ok (.ping seq) else .error .malformed
  else .error .unsupported

end Request

end AcceleratorScheduler
