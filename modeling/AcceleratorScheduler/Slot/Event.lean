import AcceleratorScheduler.Slot.Basic

/-! Scheduling events, and their slots: kind, data, time, sixteen zero bytes. -/
namespace AcceleratorScheduler

inductive EventKind where
  | noEvent
  | createScheduler
  | createDomain
  | removeDomain
  | domainSwitch
  /-- One past the last kind in use. -/
  | limit
  deriving DecidableEq, Repr, Inhabited

namespace EventKind

def number : EventKind → UInt32
  | noEvent => 0
  | createScheduler => 1
  | createDomain => 2
  | removeDomain => 3
  | domainSwitch => 4
  | limit => 5

def ofNumber? (n : UInt32) : Option EventKind :=
  [noEvent, createScheduler, createDomain, removeDomain, domainSwitch, limit].find? (·.number == n)

def name : EventKind → String
  | noEvent => "No event"
  | createScheduler => "Create scheduler"
  | createDomain => "Create domain"
  | removeDomain => "Remove domain"
  | domainSwitch => "Domain switch"
  | limit => "Invalid MAX event"

def nameOf (n : UInt32) : String :=
  match ofNumber? n with
  | some kind => kind.name
  | none => "Undefined event"

@[simp] theorem ofNumber?_number (kind : EventKind) : ofNumber? kind.number = some kind := by
  cases kind <;> rfl

end EventKind

structure Event where
  kind : EventKind
  data : UInt32
  /-- Nanoseconds since the log was set up. -/
  timestamp : Int64
  deriving DecidableEq, Repr, Inhabited

namespace Event

def blank : Event := ⟨.noEvent, 0, 0⟩

def encode (e : Event) : Slot :=
  .ofBytes
    (LittleEndian.encode 4 e.kind.number.toNat ++ LittleEndian.encode 4 e.data.toNat
      ++ LittleEndian.encode 8 e.timestamp.toUInt64.toNat ++ LittleEndian.encode 8 0
      ++ LittleEndian.encode 8 0)
    (by simp [slotSize])

def decode (slot : Slot) : Except Slot.Defect Event :=
  match EventKind.ofNumber? (.ofNat (slot.field 0 4)) with
  | some kind => .ok
      { kind
        data := .ofNat (slot.field 4 4)
        timestamp := (UInt64.ofNat (slot.field 8 8)).toInt64 }
  | none => .error .unsupported

end Event

end AcceleratorScheduler
