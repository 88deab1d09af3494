import AcceleratorScheduler.Hexadecimal

/-! Scheduling domains, their share of the hardware, and the two slots of the switch. -/
namespace AcceleratorScheduler

/-- Identifies a domain for ever. Zero is never given out. -/
abbrev DomainId := Nat

/-- A domain's share of one runlist. The handle means something to the hardware only. -/
structure SubDomain where
  runlist : Nat
  handle : UInt64
  deriving DecidableEq, Repr

structure Domain where
  id : DomainId
  name : String
  timesliceNs : Nat
  preemptGraceNs : Nat
  /-- References held to the domain; being registered counts as one. There have to be fewer than
  2^32, where the word that counts them goes round. -/
  refs : Nat
  /-- One for each runlist, in order. -/
  subDomains : List SubDomain
  deriving DecidableEq, Repr

namespace Domain

def nameLimit : Nat := 32

def subscheduler : String := "HostRoundRobin"

def text (d : Domain) : String :=
  s!"domain {d.id} '{d.name}' timeslice={d.timesliceNs}ns preempt_grace={d.preemptGraceNs}ns "
    ++ s!"subsched={subscheduler} refs={d.refs}"

def referenceText (d : Domain) : String :=
  s!"DomainRef \x7b id: DomainId({d.id}), refs: {d.refs} \x7d"

def report (d : Domain) : List String :=
  d.text :: d.subDomains.map fun sub =>
    let handle := Hexadecimal.ofNat sub.handle.toNat
    s!"  runlist {sub.runlist} handle={handle}"

end Domain

/-- The domain in hardware, and the one to be switched to next. The slots name domains without
holding them. -/
structure DomainSlots where
  active : Option DomainId := none
  shadow : Option DomainId := none
  deriving DecidableEq, Repr

namespace DomainSlots

def references (s : DomainSlots) (id : DomainId) : Bool :=
  s.active == some id || s.shadow == some id

def discardShadow (s : DomainSlots) (id : DomainId) : Bool × DomainSlots :=
  if s.shadow = some id then (true, { s with shadow := none }) else (false, s)

end DomainSlots

structure SlotSwap where
  active : DomainId
  previous : Option DomainId
  deriving DecidableEq, Repr

end AcceleratorScheduler
