import AcceleratorScheduler.Cells
import AcceleratorScheduler.Refusal

/-! Byte-addressed storage: the interface through which a ring reaches its bytes, and plain memory,
which refuses every access that leaves it. A store changes the bytes of its range and no others
(`get_overwrite`). -/
namespace AcceleratorScheduler

/-- Storage in which each access names an offset and may be refused. -/
class ByteStore (σ : Type) where
  size : σ → Nat
  load (s : σ) (offset length : Nat) : Except Refusal (Vector UInt8 length)
  /-- What stands against a store of so many bytes. -/
  objection (s : σ) (offset length : Nat) : Option Refusal
  /-- Replaces bytes, where nothing stands against it. -/
  overwrite (s : σ) (offset : Nat) (bytes : List UInt8) : σ

/-- Stores bytes. A refused store leaves all as it was. -/
def ByteStore.store {σ : Type} [ByteStore σ] (offset : Nat) (bytes : List UInt8) :
    EStateM Refusal σ Unit := fun s =>
  match objection s offset bytes.length with
  | none => .ok () (overwrite s offset bytes)
  | some refusal => .error refusal s

structure Memory where
  size : Nat
  cells : Cells (0 : UInt8) := .untouched
  deriving Repr

namespace Memory

def zeroed (size : Nat) : Memory := { size }

def get (memory : Memory) (offset : Nat) : UInt8 := memory.cells.get offset

def toList (memory : Memory) : List UInt8 := (List.range memory.size).map memory.get

def isZero (memory : Memory) : Bool := memory.cells.all (· == 0)

/-- Replaces one byte, unless the block ends before it. -/
def set (memory : Memory) (offset : Nat) (byte : UInt8) : Memory :=
  if offset < memory.size then { memory with cells := memory.cells.set offset byte } else memory

def overwrite : Memory → Nat → List UInt8 → Memory
  | memory, _, [] => memory
  | memory, offset, b :: bs => overwrite (memory.set offset b) (offset + 1) bs

def ofList (bytes : List UInt8) : Memory := (zeroed bytes.length).overwrite 0 bytes

@[simp] theorem size_set (memory : Memory) (offset : Nat) (byte : UInt8) :
    (memory.set offset byte).size = memory.size := by
  unfold set
  split <;> rfl

@[simp] theorem size_overwrite (memory : Memory) (offset : Nat) (bytes : List UInt8) :
    (overwrite memory offset bytes).size = memory.size := by
  induction bytes generalizing memory offset with
  | nil => rfl
  | cons b bs ih => simp [overwrite, ih]

@[simp] theorem get_zeroed (size i : Nat) : (zeroed size).get i = 0 := Cells.get_untouched i

@[simp] theorem length_toList (memory : Memory) : memory.toList.length = memory.size := by
  simp [toList]

theorem getElem?_toList (memory : Memory) (i : Nat) :
    memory.toList[i]? = if i < memory.size then some (memory.get i) else none := by
  by_cases inside : i < memory.size <;> simp [toList, inside]

theorem isZero_iff (memory : Memory) : memory.isZero = true ↔ ∀ i, memory.get i = 0 := by
  simp only [isZero, Cells.all_iff, beq_iff_eq, get]

theorem get_set (memory : Memory) (offset : Nat) (byte : UInt8) (i : Nat)
    (fits : offset < memory.size) :
    (memory.set offset byte).get i = if i = offset then byte else memory.get i := by
  rw [set, if_pos fits]
  exact memory.cells.get_set offset byte i

/-- A byte of the overwritten range is the new one, every other byte the old one. -/
theorem get_overwrite (memory : Memory) (offset : Nat) (bytes : List UInt8) (i : Nat)
    (fits : offset + bytes.length ≤ memory.size) :
    (overwrite memory offset bytes).get i =
      if offset ≤ i ∧ i < offset + bytes.length then bytes.getD (i - offset) 0
      else memory.get i := by
  induction bytes generalizing memory offset with
  | nil =>
    have nothing : ¬(offset ≤ i ∧ i < offset + ([] : List UInt8).length) := by
      simp only [List.length_nil]
      omega
    rw [overwrite, if_neg nothing]
  | cons b bs ih =>
    simp only [List.length_cons] at fits
    rw [overwrite, ih _ _ (by simpa using (by omega : offset + 1 + bs.length ≤ memory.size)),
      get_set _ _ _ _ (by omega)]
    simp only [List.length_cons]
    by_cases first : i = offset
    · subst first
      rw [if_neg (by omega), if_pos rfl, if_pos (by omega), Nat.sub_self]
      rfl
    · by_cases later : offset + 1 ≤ i ∧ i < offset + 1 + bs.length
      · have shifted : i - offset = (i - (offset + 1)) + 1 := by omega
        rw [if_pos later, if_pos (by omega), shifted]
        rfl
      · rw [if_neg later, if_neg first, if_neg (by omega)]

@[simp] theorem size_ofList (bytes : List UInt8) : (ofList bytes).size = bytes.length :=
  size_overwrite _ _ _

theorem get_ofList (bytes : List UInt8) (i : Nat) : (ofList bytes).get i = bytes.getD i 0 := by
  rw [ofList, get_overwrite _ _ _ _ (by simp [zeroed]), get_zeroed]
  split
  · rfl
  next outside => rw [List.getD_eq_getElem?_getD, List.getElem?_eq_none (by omega)]; rfl

def load (memory : Memory) (offset length : Nat) : Except Refusal (Vector UInt8 length) :=
  if offset + length ≤ memory.size then .ok (Vector.ofFn fun i => memory.get (offset + i))
  else .error .invalidArgument

def objection (memory : Memory) (offset length : Nat) : Option Refusal :=
  if offset + length ≤ memory.size then none else some .invalidArgument

instance : ByteStore Memory where
  size := size
  load := load
  objection := objection
  overwrite := overwrite

end Memory

/-- Gives out zeroed blocks. A block of a wrong length is the caller's to reject. -/
abbrev Allocator := Nat → Except Refusal Memory

def Allocator.bounded (bound : Nat) : Allocator := fun size =>
  if size < bound then .ok (Memory.zeroed size) else .error .outOfMemory

/-- A stand-in for the memory of a process, with which the program runs. How much there really is
hangs on the machine, so no general statement uses the bound. -/
def Allocator.process : Allocator := .bounded (32 <<< 30)

end AcceleratorScheduler
