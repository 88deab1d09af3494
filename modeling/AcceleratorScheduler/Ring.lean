import AcceleratorScheduler.LittleEndian
import AcceleratorScheduler.Memory
import AcceleratorScheduler.Slot.Basic

/-! A bounded first-in first-out queue of slots, kept inside byte storage that others may write to.
A header of four words (magic, put, get, slot count) stands before the slots; every operation checks
it first. One slot stays free, so the queue is empty exactly when put and get agree. -/
namespace AcceleratorScheduler.Ring

def magic : UInt32 := 0x4E565351

def headerSize : Nat := 16

def magicOffset : Nat := 0

def putOffset : Nat := 4

def getOffset : Nat := 8

def slotsOffset : Nat := 12

/-- Slots that storage of this size can hold behind the header. -/
def room (size : Nat) : Nat := (size - headerSize) / slotSize

structure Header where
  put : UInt32
  get : UInt32
  slots : UInt32
  deriving DecidableEq, Repr

namespace Header

/-- Number of waiting slots, in wrapping arithmetic: exact while put and slots add up below 2^32. -/
def length (h : Header) : UInt32 := (h.put + h.slots - h.get) % h.slots

def next (h : Header) (index : UInt32) : UInt32 := (index + 1) % h.slots

def isEmpty (h : Header) : Bool := h.put == h.get

def isFull (h : Header) : Bool := h.next h.put == h.get

/-- Whether the slots fit into the storage and both indices name one of them. -/
def Sound (h : Header) (size : Nat) : Prop :=
  2 ≤ h.slots ∧ h.slots.toNat ≤ room size ∧ h.put < h.slots ∧ h.get < h.slots

instance (h : Header) (size : Nat) : Decidable (h.Sound size) := by
  unfold Sound; infer_instance

end Header

def slotOffset (index : UInt32) : Nat := headerSize + index.toNat * slotSize

variable {σ : Type} [ByteStore σ]

def loadWord (s : σ) (offset : Nat) : Except Refusal UInt32 := do
  let bytes ← ByteStore.load s offset 4
  return .ofNat (LittleEndian.decode bytes.toList)

def storeWord (offset : Nat) (word : UInt32) : EStateM Refusal σ Unit :=
  ByteStore.store offset (LittleEndian.encode 4 word.toNat)

def storeSlot (index : UInt32) (slot : Slot) : EStateM Refusal σ Unit :=
  ByteStore.store (slotOffset index) slot.toList

/-- Lays out an empty ring over the whole storage and returns its slot count. -/
def format : EStateM Refusal σ UInt32 := do
  let slots := room (ByteStore.size (← get))
  if slots < 2 ∨ UInt32.size ≤ slots then throw .invalidArgument
  storeWord putOffset 0
  storeWord getOffset 0
  storeWord slotsOffset (.ofNat slots)
  storeWord magicOffset magic
  return .ofNat slots

def header (s : σ) : Except Refusal Header := do
  if (← loadWord s magicOffset) ≠ magic then throw .invalidArgument
  let put ← loadWord s putOffset
  let get ← loadWord s getOffset
  let slots ← loadWord s slotsOffset
  let h : Header := { put, get, slots }
  if h.Sound (ByteStore.size s) then return h else throw .invalidArgument

/-- Appends a slot; a full ring is busy. -/
def push (slot : Slot) : EStateM Refusal σ Unit := do
  let h ← reading header
  if h.isFull then throw .busy
  storeSlot h.put slot
  storeWord putOffset (h.next h.put)

/-- Appends a slot; a full ring first loses its oldest. -/
def pushOverwrite (slot : Slot) : EStateM Refusal σ Unit := do
  let h ← reading header
  if h.isFull then storeWord getOffset (h.next h.get)
  storeSlot h.put slot
  storeWord putOffset (h.next h.put)

def pop : EStateM Refusal σ (Option Slot) := do
  let h ← reading header
  if h.isEmpty then return none
  let slot ← reading fun s => ByteStore.load s (slotOffset h.get) slotSize
  storeWord getOffset (h.next h.get)
  return some slot

/-- The slots from an index up to put, at most as many as the fuel says. -/
def collect (s : σ) (h : Header) : (fuel : Nat) → UInt32 → Except Refusal (List Slot)
  | 0, _ => .ok []
  | fuel + 1, index =>
    if index = h.put then .ok []
    else do
      let slot ← ByteStore.load s (slotOffset index) slotSize
      return slot :: (← collect s h fuel (h.next index))

def snapshot (s : σ) : Except Refusal (List Slot) := do
  let h ← header s
  collect s h h.slots.toNat h.get

end AcceleratorScheduler.Ring
