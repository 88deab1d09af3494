import AcceleratorScheduler.Proofs.Controller.Systems

/-! What requests bring about, deed by deed, as their answers tell, and the events that tell of it.
Replaying the events gives back what the deeds amount to. -/
namespace AcceleratorScheduler

inductive Deed where
  | added (id : DomainId)
  | removed (id : DomainId)
  | switched (id : DomainId)
  deriving DecidableEq

namespace Deed

def entry : Deed → EventKind × UInt32
  | added id => (.createDomain, Controller.eventData id)
  | removed id => (.removeDomain, Controller.eventData id)
  | switched id => (.domainSwitch, Controller.eventData id)

def id : Deed → DomainId
  | added id | removed id | switched id => id

def target? : Deed → Option DomainId
  | switched id => some id
  | _ => none

def ofAnswer {α : Type} (deed : α → Deed) : Except Refusal α → List Deed
  | .ok a => [deed a]
  | .error _ => []

end Deed

/-- Which domains are registered, in the order of their ids, and which one is active. -/
structure Replica where
  domains : List DomainId := []
  active : Option DomainId := none
  deriving DecidableEq

namespace Replica

def after (s : Replica) : Deed → Replica
  | .added id => { s with domains := s.domains ++ [id] }
  | .removed id => { s with domains := s.domains.erase id }
  | .switched id => { s with active := some id }

def observe (s : Replica) : EventKind × UInt32 → Replica
  | (.createDomain, data) => { s with domains := s.domains ++ [data.toNat] }
  | (.removeDomain, data) => { s with domains := s.domains.erase data.toNat }
  | (.domainSwitch, data) => { s with active := some data.toNat }
  | _ => s

/-- Events replayed from an empty registry and empty slots. -/
def replay (entries : List (EventKind × UInt32)) : Replica := entries.foldl observe {}

end Replica

def switchedTo? : EventKind × UInt32 → Option DomainId
  | (.domainSwitch, data) => some data.toNat
  | _ => none

/-- Ids below 2^32 are told in full. -/
theorem toNat_eventData {id : DomainId} (h : id < UInt32.size) :
    (Controller.eventData id).toNat = id := by
  rw [Controller.eventData, Nat.min_eq_left (Nat.le_sub_one_of_lt h)]
  exact UInt32.toNat_ofNat_of_lt h

namespace Deed

variable {deed : Deed} {deeds : List Deed}

theorem observe_entry (h : deed.id < UInt32.size) (s : Replica) :
    s.observe deed.entry = s.after deed := by
  cases deed with
  | added id | removed id | switched id =>
    have hid : (Controller.eventData id).toNat = id := toNat_eventData h
    simp [entry, Replica.observe, Replica.after, hid]

theorem switchedTo?_entry (h : deed.id < UInt32.size) : switchedTo? deed.entry = deed.target? := by
  cases deed with
  | switched id => exact congrArg some (toNat_eventData h)
  | added | removed => rfl

/-- Events replayed in order tell what the deeds amounted to. -/
theorem foldl_observe_entries (h : ∀ deed ∈ deeds, deed.id < UInt32.size) (s : Replica) :
    (deeds.map entry).foldl Replica.observe s = deeds.foldl Replica.after s := by
  induction deeds generalizing s with
  | nil => rfl
  | cons deed deeds ih =>
    rw [List.map_cons, List.foldl_cons, List.foldl_cons, observe_entry (h deed List.mem_cons_self)]
    exact ih (fun d hd => h d (List.mem_cons_of_mem _ hd)) _

theorem filterMap_switchedTo_entries (h : ∀ deed ∈ deeds, deed.id < UInt32.size) :
    (deeds.map entry).filterMap switchedTo? = deeds.filterMap target? := by
  rw [List.filterMap_map]
  exact List.filterMap_congr fun deed hd => switchedTo?_entry (h deed hd)

end Deed

namespace Controller

variable {H : Type} [Hardware H]

def switchDeeds (target : Option DomainId) (c : Controller H) : List Deed :=
  Deed.ofAnswer .switched (answer (switchTo target) c).1

def slotDeeds (slot : Slot) (c : Controller H) : List Deed :=
  match Request.decode slot with
  | .ok (.switchDomain _ id) => c.switchDeeds (some id.toNat)
  | _ => []

def drainDeeds : (fuel : Nat) → Controller H → List Deed
  | 0, _ => []
  | fuel + 1, c =>
    match c.onBuffer .send Ring.pop with
    | (some (.ok (some slot)), c) =>
      let handled := c.handleRequest slot
      c.slotDeeds slot ++ drainDeeds fuel (handled.2.postResponse handled.1)
    | _ => []

def workDeeds (switch : Bool) (c : Controller H) : List Deed :=
  c.drainDeeds c.sendSlots ++ if switch then c.drainRequests.switchDeeds none else []

def settleDeeds (c : Controller H) : List Deed :=
  if c.state = .running ∧ c.wake.signalled ∧ !c.wake.shutdown ∧ !c.gone then
    workDeeds c.wake.switchPending { c with wake := {} }
  else []

end Controller

namespace System

variable {H : Type} [Hardware H]

def deeds (w : System H) : Request → List Deed
  | .addDomain name timesliceNs preemptGraceNs room => Deed.ofAnswer .added
      (answer (Controller.addDomain name timesliceNs preemptGraceNs room) w.controller).1
  | .removeDomain id => Deed.ofAnswer (fun _ => .removed id)
      (answer (Controller.removeDomain id) w.controller).1
  | .settle => w.controller.settleDeeds
  | .elapse =>
    if w.controller.state = .running ∧ !w.controller.gone then
      w.controller.drainDeeds w.controller.sendSlots
    else []
  | .serve rounds =>
    if w.controller.state = .running ∧ !w.controller.gone then w.controller.drainDeeds rounds
    else []
  | _ => []

/-- The request neither tears down nor records an event of its own. -/
def Request.Plain : Request → Prop
  | .logEvent _ _ | .tearDown => False
  | _ => True

end System

end AcceleratorScheduler
