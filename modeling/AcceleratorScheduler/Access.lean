/-! Queues of the control channel, sets of them, and the access that a buffer grants. -/
namespace AcceleratorScheduler

inductive QueueRole where
  /-- Requests from an agent. -/
  | send
  /-- Responses to the agent. -/
  | receive
  /-- Notices to every agent. -/
  | event
  deriving DecidableEq, Repr, Inhabited

structure AccessMask where
  exclusiveWrite : Bool := false
  exclusiveRead : Bool := false
  sharedRead : Bool := false
  deriving DecidableEq, Repr

namespace AccessMask

/-- The three low bits; the others mean nothing. -/
def ofBits (bits : Nat) : AccessMask where
  exclusiveWrite := bits.testBit 0
  exclusiveRead := bits.testBit 1
  sharedRead := bits.testBit 2

def bits (mask : AccessMask) : Nat :=
  mask.exclusiveWrite.toNat + 2 * mask.exclusiveRead.toNat + 4 * mask.sharedRead.toNat

def isEmpty (mask : AccessMask) : Bool :=
  !(mask.exclusiveWrite || mask.exclusiveRead || mask.sharedRead)

/-- A buffer that grants nothing exclusive is shared for reading only. -/
def isReadOnly (mask : AccessMask) : Bool := !(mask.exclusiveWrite || mask.exclusiveRead)

/-- The grants by name, joined by bars; a mask without grants reads as its zero bits. -/
def text (mask : AccessMask) : String :=
  let names := (if mask.exclusiveWrite then ["EXCLUSIVE_CLIENT_WRITE"] else [])
    ++ (if mask.exclusiveRead then ["EXCLUSIVE_CLIENT_READ"] else [])
    ++ (if mask.sharedRead then ["NON_EXCLUSIVE_CLIENT_READ"] else [])
  "QueueMask(" ++ (if names.isEmpty then "0x0" else " | ".intercalate names) ++ ")"

@[simp] theorem ofBits_bits (mask : AccessMask) : ofBits mask.bits = mask := by
  rcases mask with ⟨_ | _, _ | _, _ | _⟩ <;> rfl

end AccessMask

namespace QueueRole

def all : List QueueRole := [send, receive, event]

def index : QueueRole → Nat
  | send => 0
  | receive => 1
  | event => 2

def name : QueueRole → String
  | send => "Send"
  | receive => "Receive"
  | event => "Event"

def mask : QueueRole → AccessMask
  | send => { exclusiveWrite := true }
  | receive => { exclusiveRead := true }
  | event => { sharedRead := true }

theorem isEmpty_mask (role : QueueRole) : role.mask.isEmpty = false := by cases role <;> rfl

def isExclusive : QueueRole → Bool
  | send => true
  | receive => true
  | event => false

end QueueRole

structure QueueSet where
  send : Bool := false
  receive : Bool := false
  event : Bool := false
  deriving DecidableEq, Repr

namespace QueueSet

def empty : QueueSet := {}

def full : QueueSet := ⟨true, true, true⟩

def exclusive : QueueSet := ⟨true, true, false⟩

def contains (set : QueueSet) : QueueRole → Bool
  | .send => set.send
  | .receive => set.receive
  | .event => set.event

def put (set : QueueSet) (present : Bool) : QueueRole → QueueSet
  | .send => { set with send := present }
  | .receive => { set with receive := present }
  | .event => { set with event := present }

def insert (set : QueueSet) (role : QueueRole) : QueueSet := set.put true role

def erase (set : QueueSet) (role : QueueRole) : QueueSet := set.put false role

def isEmpty (set : QueueSet) : Bool := !(set.send || set.receive || set.event)

def meets (a b : QueueSet) : Bool :=
  (a.send && b.send) || (a.receive && b.receive) || (a.event && b.event)

def bits (set : QueueSet) : Nat :=
  set.send.toNat + 2 * set.receive.toNat + 4 * set.event.toNat

@[simp] theorem contains_insert (set : QueueSet) (role other : QueueRole) :
    (set.insert role).contains other = (decide (other = role) || set.contains other) := by
  cases role <;> cases other <;> rfl

@[simp] theorem contains_erase (set : QueueSet) (role other : QueueRole) :
    (set.erase role).contains other = (!decide (other = role) && set.contains other) := by
  cases role <;> cases other <;> simp [erase, put, contains]

end QueueSet

def QueueRole.bit (role : QueueRole) : QueueSet := QueueSet.empty.insert role

end AcceleratorScheduler
