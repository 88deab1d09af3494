import AcceleratorScheduler.Device
import AcceleratorScheduler.Proofs.Arbiter.Mappings
import AcceleratorScheduler.Proofs.Controller.Draining
import AcceleratorScheduler.Proofs.Domain.Requests

/-! A controller in use: what its clients hold, every request that reaches it, and what has to hold
in between. -/
namespace AcceleratorScheduler

inductive Session.Request where
  | reserve
  | release
  | createQueue (allocator : Allocator) (role : QueueRole)
  | mapQueue (allocator : Allocator) (role : QueueRole) (room : FiniteRoom := .widest)
  | eraseQueue (role : QueueRole)
  | ringDoorbell
  | close

namespace Session

variable {H : Type} {allocator : Allocator} {s : Session} {role : QueueRole} {c c' : Controller H}
  {handle : ExportHandle}

theorem createQueue_present (hg : c.gone = false) : s.createQueue allocator role c =
    Controller.onArbiter
      (Arbiter.openQueue allocator s.user role (c.settings.queueBytes role)) c :=
  (bind_ok (Controller.ensurePresent_present hg)).trans (bind_ok (get_apply c))

theorem createQueue_eq_ok (h : s.createQueue allocator role c = .ok handle c') :
    ∃ a, Arbiter.openQueue allocator s.user role (c.settings.queueBytes role) c.arbiter =
      .ok handle a ∧ c' = { c with arbiter := a } ∧
        handle = ⟨role, s.user, role.mask.isReadOnly⟩ := by
  rcases Bool.eq_false_or_eq_true c.gone with hg | hg
  · cases (bind_error (Controller.ensurePresent_gone hg)).symm.trans h
  · rw [createQueue_present hg, Controller.onArbiter] at h
    rcases Arbiter.openQueue_cases allocator s.user role (c.settings.queueBytes role) c.arbiter with
      ⟨e, he⟩ | ⟨u, a, -, -, -, -, hx⟩
    · rw [he] at h
      cases h
    · rw [hx] at h
      cases h
      exact ⟨_, hx, rfl, rfl⟩

/-- Mapping a queue is opening it and mapping it by the handle. -/
theorem mapQueue_of_created (h : s.createQueue allocator role c = .ok handle c')
    (room : RecordRoom) : s.mapQueue allocator role room c = Controller.onArbiter
      (Arbiter.mapHandle handle 0 (c'.settings.queueBytes role) room) c' :=
  (bind_ok h).trans (bind_ok (get_apply c'))

end Session

/-- A controller, the views that were handed out, the references to domains, and the events that
were given out of the log. -/
structure System (H : Type) where
  controller : Controller H
  grants : List Grant := []
  held : List DomainId := []
  received : List LogRecord := []

namespace System

open Arbiter (Ledger)

/-- A request, or a step of the worker: it serves its signals, wakes by its clock, or has got
through some rounds of the queue so far. -/
inductive Request where
  | addDomain (name : String) (timesliceNs preemptGraceNs : Nat) (room : Registry.Room := {})
  | removeDomain (id : DomainId)
  | lookupId (id : DomainId)
  | lookupName (name : String)
  | copy (id : DomainId)
  | giveBack (id : DomainId)
  | postSwitch (id : DomainId)
  | ringDoorbell
  | session (s : Session) (request : Session.Request)
  | arbiter (op : Arbiter.Operation)
  | logEvent (kind : EventKind) (data : UInt32)
  | takeEvent
  | drainEvents
  | start (thread : Bool := true)
  | stop
  | settle
  | elapse
  | serve (rounds : Nat)
  | tearDown

variable {H : Type}

def after {α : Type} (w : System H) (task : Controller.Task H α) : System H :=
  { w with controller := (answer task w.controller).2 }

def refer (w : System H) (task : Registry.Task H DomainId) : System H :=
  match Controller.onRegistry task w.controller with
  | .ok id controller => { w with controller, held := id :: w.held }
  | .error _ controller => { w with controller }

def lend (w : System H) (owner : UserId) (task : Controller.Task H MappedView) : System H :=
  match task w.controller with
  | .ok v controller => { w with controller, grants := w.grants ++ [⟨v, owner⟩] }
  | .error _ controller => { w with controller }

variable [Hardware H]

def performSession (w : System H) (s : Session) : Session.Request → System H
  | .reserve => w.after s.reserve
  | .release => w.after s.release
  | .createQueue allocator role => w.after (s.createQueue allocator role)
  | .mapQueue allocator role room => w.lend s.user (s.mapQueue allocator role room.grants)
  | .eraseQueue role => w.after (s.eraseQueue role)
  | .ringDoorbell => w.after s.ringDoorbell
  | .close => { w with controller := s.close w.controller }

/-- What a request leaves. A reference can be copied and given back only while it is held. -/
def perform (w : System H) : Request → System H
  | .addDomain name timesliceNs preemptGraceNs room =>
    w.after (Controller.addDomain name timesliceNs preemptGraceNs room)
  | .removeDomain id => w.after (Controller.removeDomain id)
  | .lookupId id => w.refer (Registry.lookupId id)
  | .lookupName name => w.refer (Registry.lookupName name)
  | .copy id =>
    if id ∈ w.held then
      { w with
        controller := { w.controller with registry := w.controller.registry.hold id }
        held := id :: w.held }
    else w
  | .giveBack id =>
    if id ∈ w.held then
      { w with
        controller := { w.controller with registry := w.controller.registry.drop id }
        held := w.held.erase id }
    else w
  | .postSwitch id => w.after (Controller.postSwitch id)
  | .ringDoorbell => w.after Controller.ringDoorbell
  | .session s request => w.performSession s request
  | .arbiter op =>
    let l := Ledger.perform ⟨w.controller.arbiter, w.grants⟩ op
    { w with controller := { w.controller with arbiter := l.arbiter }, grants := l.grants }
  | .logEvent kind data => { w with controller := w.controller.record kind data }
  | .takeEvent => { w with
      controller := w.controller.takeEvent.2
      received := w.received ++ w.controller.takeEvent.1.toList.map LogRecord.ofEvent }
  | .drainEvents => { w with
      controller := w.controller.drainEvents.2
      received := w.received ++ w.controller.drainEvents.1.map LogRecord.ofEvent }
  | .start thread => w.after (Controller.start thread)
  | .stop => { w with controller := w.controller.stop }
  | .settle => { w with controller := w.controller.settle }
  | .elapse => { w with controller := w.controller.elapse }
  | .serve rounds =>
    if w.controller.state = .running ∧ !w.controller.gone then
      { w with controller := w.controller.drainUpTo rounds }
    else w
  | .tearDown => { w with controller := w.controller.tearDown }

def run (w : System H) (requests : List Request) : System H := requests.foldl perform w

theorem run_append (w : System H) (requests later : List Request) :
    w.run (requests ++ later) = (w.run requests).run later := List.foldl_append

def standing {H : Type} (w : System H) : WorkerState × Bool × Bool × Bool :=
  (w.controller.state, w.controller.hasWorker, w.controller.gone, w.controller.wake.shutdown)

/-- What every request keeps, `resident` being a way to tell the resident domain. -/
structure Sound {H : Type} (resident : H → Option DomainId → Prop) (w : System H) : Prop where
  balanced : w.controller.arbiter.Balanced w.grants
  accounts : w.controller.registry.Accounts w.held
  named {id : DomainId} :
    w.controller.slots.references id = true → w.controller.registry.isIndexed id = true
  worker : w.controller.state = .running →
    w.controller.hasWorker = true ∧ w.controller.gone = false ∧ w.controller.wake.shutdown = false
  agrees : w.controller.gone = false →
    resident w.controller.registry.hardware w.controller.slots.active

variable {resident : H → Option DomainId → Prop} {w w' : System H}

omit [Hardware H] in
theorem Sound.consistent (h : w.Sound resident) : w.controller.Consistent where
  backed := h.accounts.backed
  named := h.named
  apart := h.balanced.apart
  worker := h.worker

/-- A step that leaves the slots, the ids that they name and the worker alone. -/
theorem Sound.of_quiet (h : w.Sound resident) (ht : Hardware.Tells resident)
    (hb : w'.controller.arbiter.Balanced w'.grants)
    (ha : w'.controller.registry.Accounts w'.held)
    (hs : w'.controller.slots = w.controller.slots) (hw : w'.standing = w.standing)
    (hi : ∀ id, w.controller.slots.references id = true →
      w.controller.registry.isIndexed id = true → w'.controller.registry.isIndexed id = true)
    (hq : Hardware.Quiet w.controller.registry.hardware w'.controller.registry.hardware) :
    w'.Sound resident := by
  obtain ⟨hst, hhw, hg, hsd⟩ : _ ∧ _ ∧ _ ∧ _ := by simpa only [standing, Prod.mk.injEq] using hw
  refine ⟨hb, ha, fun {id} hr => ?_, ?_, ?_⟩
  · rw [hs] at hr
    exact hi id hr (h.named hr)
  · rw [hst, hhw, hg, hsd]
    exact h.worker
  · rw [hg, hs]
    exact fun hgone => ht.quiet (h.agrees hgone) hq

/-- A step of the arbiter alone; signals other than for the end may be sent along. -/
theorem Sound.of_arbiter (h : w.Sound resident) (ht : Hardware.Tells resident)
    (hb : w'.controller.arbiter.Balanced w'.grants) (hh : w'.held = w.held)
    (hr : w'.controller.registry = w.controller.registry)
    (hs : w'.controller.slots = w.controller.slots) (hw : w'.standing = w.standing) :
    w'.Sound resident :=
  h.of_quiet ht hb (by rw [hr, hh]; exact h.accounts) hs hw (fun _ _ hi => by rwa [hr])
    (by rw [hr]; exact .refl)

theorem Sound.record (h : w.Sound resident) (ht : Hardware.Tells resident) (kind : EventKind)
    (data : UInt32) : Sound resident { w with controller := w.controller.record kind data } :=
  h.of_quiet ht (h.balanced.onBuffer .event _).balanced (h.accounts.of_eq rfl rfl rfl) rfl rfl
    (fun _ _ hi => hi) Hardware.Quiet.refl.uptime

omit [Hardware H] in
/-- A request to a controller that is gone is refused. -/
theorem after_guarded {α : Type} (w : System H) (task : Controller.Task H α) :
    w.after (Controller.ensurePresent >>= fun _ => task) = w ∨
      (w.controller.gone = false ∧
        w.after (Controller.ensurePresent >>= fun _ => task) = w.after task) := by
  rcases Bool.eq_false_or_eq_true w.controller.gone with hg | hg
  · left
    rw [after, answer_of_error (bind_error (Controller.ensurePresent_gone hg))]
  · right
    refine ⟨hg, ?_⟩
    rw [after, after, answer, bind_ok (Controller.ensurePresent_present hg), answer]

omit [Hardware H] in
theorem Sound.guarded {α : Type} {task : Controller.Task H α} (h : w.Sound resident)
    (ht : w.controller.gone = false → (w.after task).Sound resident) :
    (w.after (Controller.ensurePresent >>= fun _ => task)).Sound resident := by
  obtain hw | ⟨hg, hw⟩ := w.after_guarded task
  · rwa [hw]
  · rw [hw]
    exact ht hg

omit [Hardware H] in
theorem after_onArbiter {α : Type} (w : System H) (task : Arbiter.Task α) :
    w.after (Controller.onArbiter task) = { w with controller := { w.controller with
      arbiter := (answer task w.controller.arbiter).2 } } := by
  rw [after, answer, answer, Controller.onArbiter]
  cases task w.controller.arbiter <;> rfl

theorem Sound.onArbiter {α : Type} {task : Arbiter.Task α} (h : w.Sound resident)
    (ht : Hardware.Tells resident)
    (hb : (answer task w.controller.arbiter).2.Balanced w.grants) :
    (w.after (Controller.onArbiter task)).Sound resident := by
  rw [after_onArbiter]
  exact h.of_arbiter ht hb rfl rfl rfl rfl

/-- A session's doorbell is refused, or it is the controller's. -/
theorem after_ringDoorbell (w : System H) (s : Session) :
    w.after s.ringDoorbell = w ∨ w.after s.ringDoorbell = w.after Controller.ringDoorbell := by
  cases he : s.isExclusive w.controller with
  | false =>
    have hr : s.ringDoorbell w.controller = .error .permissionDenied w.controller := by
      refine (bind_ok (get_apply w.controller)).trans ?_
      rw [he]
      rfl
    left
    rw [after, answer_of_error hr]
  | true =>
    have hr : s.ringDoorbell w.controller = Controller.ringDoorbell w.controller := by
      refine (bind_ok (get_apply w.controller)).trans ?_
      rw [he]
      rfl
    right
    rw [after, after, answer, answer, hr]

omit [Hardware H] in
/-- A queue is opened first; then what the handle allows is lent. -/
theorem lend_mapQueue (w : System H) (allocator : Allocator) (s : Session) (role : QueueRole)
    (room : RecordRoom) :
    w.lend s.user (s.mapQueue allocator role room) = w.after (s.createQueue allocator role) ∨
      ∃ handle c, s.createQueue allocator role w.controller = .ok handle c ∧
        w.lend s.user (s.mapQueue allocator role room) = { w with
          controller := { c with arbiter := (Arbiter.grant handle.user
            (Arbiter.mapHandle handle 0 (c.settings.queueBytes role) room) c.arbiter).2 }
          grants := w.grants ++ (Arbiter.grant handle.user
            (Arbiter.mapHandle handle 0 (c.settings.queueBytes role) room) c.arbiter).1.toList } := by
  cases hq : s.createQueue allocator role w.controller with
  | error e c =>
    have hm : s.mapQueue allocator role room w.controller = .error e c := bind_error hq
    left
    rw [lend, hm, after, answer_of_error hq]
  | ok handle c =>
    have hm := Session.mapQueue_of_created hq room
    have huser : handle.user = s.user := by
      obtain ⟨-, -, -, rfl⟩ := Session.createQueue_eq_ok hq
      rfl
    refine .inr ⟨handle, c, rfl, ?_⟩
    rw [lend, hm, Controller.onArbiter, Arbiter.grant, huser]
    cases Arbiter.mapHandle handle 0 (c.settings.queueBytes role) room c.arbiter with
    | ok v a => rfl
    | error e a => exact congrArg (fun grants => { w with
        controller := { c with arbiter := a }, grants }) (List.append_nil _).symm

def Aside {H : Type} (w w' : System H) : Prop :=
  w'.held = w.held ∧ w'.received = w.received ∧
    ∃ arbiter wake, w'.controller = { w.controller with arbiter, wake }

section Sessions

variable (s : Session)

omit [Hardware H]

theorem aside_guarded {α : Type} {task : Controller.Task H α} (h : w.Aside (w.after task)) :
    w.Aside (w.after (Controller.ensurePresent >>= fun _ => task)) := by
  obtain hw | ⟨-, hw⟩ := w.after_guarded task
  · rw [hw]
    exact ⟨rfl, rfl, _, _, rfl⟩
  · rwa [hw]

theorem aside_onArbiter {α : Type} (task : Arbiter.Task α) :
    w.Aside (w.after (Controller.onArbiter task)) := by
  rw [after_onArbiter]
  exact ⟨rfl, rfl, _, _, rfl⟩

theorem aside_createQueue (allocator : Allocator) (role : QueueRole) :
    w.Aside (w.after (s.createQueue allocator role)) :=
  aside_guarded (aside_onArbiter
    (Arbiter.openQueue allocator s.user role (w.controller.settings.queueBytes role)))

theorem aside_mapQueue (allocator : Allocator) (role : QueueRole) (room : RecordRoom) :
    w.Aside (w.lend s.user (s.mapQueue allocator role room)) := by
  have hc := aside_createQueue (w := w) s allocator role
  obtain hl | ⟨handle, c, hq, hl⟩ := w.lend_mapQueue allocator s role room
  · rwa [hl]
  · rw [after, answer_of_ok hq] at hc
    obtain ⟨-, -, arbiter, wake, hc⟩ := hc
    change c = _ at hc
    subst hc
    rw [hl]
    exact ⟨rfl, rfl, _, wake, rfl⟩

theorem aside_ringDoorbell [Hardware H] : w.Aside (w.after s.ringDoorbell) := by
  rcases w.after_ringDoorbell s with hr | hr
  · rw [hr]
    exact ⟨rfl, rfl, _, _, rfl⟩
  · rw [hr]
    exact aside_guarded ⟨rfl, rfl, _, _, rfl⟩

/-- What a session asks for is between it and the arbiter. -/
theorem aside_performSession [Hardware H] (request : Session.Request) :
    w.Aside (w.performSession s request) := by
  cases request with
  | reserve => exact aside_guarded (aside_onArbiter (Arbiter.reserve s.user))
  | release => exact aside_guarded (aside_onArbiter (Arbiter.release s.user))
  | createQueue allocator role => exact aside_createQueue s allocator role
  | mapQueue allocator role room => exact aside_mapQueue s allocator role room.grants
  | eraseQueue role => exact aside_guarded (aside_onArbiter (Arbiter.closeQueue s.user role))
  | ringDoorbell => exact aside_ringDoorbell s
  | close => exact ⟨rfl, rfl, _, _, rfl⟩

end Sessions

end System

end AcceleratorScheduler
