import AcceleratorScheduler.Proofs.Controller.Systems
import AcceleratorScheduler.Proofs.EventLog.Records

/-! What a system does, act by act: it asks its arbiter for something, or it records an event. Every
request, and every step of the worker, is to the arbiter and the views a run of operations, and to
the event log it adds the events among its acts; so what holds of all such runs holds of the system.
Main statement: `does_run`. -/
namespace AcceleratorScheduler

namespace Arbiter

def Operation.serving {α : Type} (role : QueueRole) (operation : EStateM Refusal Memory α) :
    Operation :=
  .schedule role (operation >>= fun _ => pure ())

theorem Operation.perform_serving {α : Type} (role : QueueRole)
    (operation : EStateM Refusal Memory α) (a : Arbiter) :
    (Operation.serving role operation).perform a = (none, (a.onBuffer role operation).2) := by
  rw [serving, perform, onBuffer, onBuffer]
  cases a.queues.get role with
  | none => rfl
  | some b => simp only [answer_bind_pure]

end Arbiter

open Arbiter (Operation Ledger)

/-- A controller that was set up had the memory that its log asked for. -/
theorem Controller.new_of_room {H : Type} [Hardware H] {settings : Settings} {hardware : H}
    {room : Bool} {c : Controller H} (hc : new settings hardware room = .ok c) :
    new settings hardware = .ok c := by
  cases room with
  | true => exact hc
  | false =>
    obtain ⟨_, -, hc⟩ := of_bind_eq_ok hc
    obtain ⟨log, hlog, -⟩ := of_bind_eq_ok hc
    rw [EventLog.init] at hlog
    split at hlog <;> cases hlog

/-- What a session's request asks of the arbiter. -/
def Session.Request.Asks (s : Session) : Session.Request → Operation → Prop
  | .reserve, op => op = .reserve s.user
  | .release, op => op = .release s.user
  | .createQueue allocator role, op => ∃ size, op = .openQueue allocator s.user role size
  | .mapQueue allocator role _, op => (∃ size, op = .openQueue allocator s.user role size) ∨
      ∃ handle offset length room, op = .mapHandle handle offset length room
  | .eraseQueue role, op => op = .closeQueue s.user role
  | .ringDoorbell, _ => False
  | .close, op => op = .reset s.user ∨ op = .removeUser s.user

namespace System

inductive Act where
  | ask (op : Operation)
  | record (event : Event)

namespace Act

/-- What the act is to the arbiter. An event that is recorded goes into the event queue as well. -/
def operation : Act → Operation
  | ask op => op
  | record event => .serving .event (Ring.pushOverwrite event.encode)

def event? : Act → Option Event
  | ask _ => none
  | record event => some event

end Act

/-- What the worker does, and others who record what they did: the queues of requests and of
responses are served, and of events only the creation of the scheduler is not theirs to tell. -/
inductive Serving : Act → Prop
  | queue {role : QueueRole} {operation : EStateM Refusal Memory Unit} (hr : role ≠ .event) :
      Serving (.ask (.schedule role operation))
  | notice {event : Event} (hk : event.kind ≠ .createScheduler) : Serving (.record event)

/-- What a request does: beside what sessions and others ask for, queues are served, events are
recorded, and all is taken back in the end. -/
def Request.Asks : Request → Act → Prop
  | .session s request, act => ∃ op, request.Asks s op ∧ act = .ask op
  | .arbiter op, act => act = .ask op
  | .logEvent kind data, act => ∃ timestamp, act = .record ⟨kind, data, timestamp⟩
  | .tearDown, act => act = .ask .revokeAll
  | _, act => Serving act

variable {H : Type} {w w' w'' : System H} {P Q : Act → Prop}

def ledger (w : System H) : Ledger := ⟨w.controller.arbiter, w.grants⟩

/-- These are the events ever recorded, as the log and those who received some of them can tell. -/
def Journal (w : System H) (recorded : List Event) : Prop :=
  ∃ taken, w.controller.log.Journal w.controller.settings.logCapacity.toNat recorded taken ∧
    taken.map LogRecord.ofEvent = w.received

def logbook (w : System H) : EventLog × List LogRecord := (w.controller.log, w.received)

/-- The step is a run of such acts, and it keeps the settings. -/
structure Does (P : Act → Prop) (w w' : System H) : Prop where
  settings : w'.controller.settings = w.controller.settings
  run : ∃ acts : List Act, (∀ act ∈ acts, P act) ∧
    w'.ledger = w.ledger.run (acts.map Act.operation) ∧
    ∀ recorded, w.Journal recorded → w'.Journal (recorded ++ acts.filterMap Act.event?)

/-- As long as nobody received any of them and there is room, the log keeps all of them. -/
theorem Journal.recorded_eq {recorded : List Event} (h : w.Journal recorded)
    (hreceived : w.received = [])
    (hroom : w.controller.log.kept.length < w.controller.settings.logCapacity.toNat) :
    recorded = w.controller.log.kept := by
  obtain ⟨taken, hj, htaken⟩ := h
  obtain rfl := List.map_eq_nil_iff.mp (htaken.trans hreceived)
  exact hj.recorded_eq hroom

theorem journal_new [Hardware H] {settings : Settings} {hardware : H} {c : Controller H}
    (hc : Controller.new settings hardware = .ok c) : Journal { controller := c } [] := by
  obtain ⟨_, -, hc⟩ := of_bind_eq_ok hc
  obtain ⟨log, hlog, hc⟩ := of_bind_eq_ok hc
  cases hc
  exact ⟨[], EventLog.journal_init hlog, rfl⟩

theorem Journal.of_logbook {recorded : List Event} (h : w.Journal recorded)
    (hs : w'.controller.settings = w.controller.settings) (hb : w'.logbook = w.logbook) :
    w'.Journal recorded := by
  obtain ⟨hlog, hreceived⟩ := Prod.mk.inj hb
  rwa [Journal, hlog, hreceived, hs]

namespace Does

theorem idle (hs : w'.controller.settings = w.controller.settings)
    (hl : w'.ledger = w.ledger) (hb : w'.logbook = w.logbook) : Does P w w' := by
  refine ⟨hs, [], nofun, hl, fun recorded h => ?_⟩
  rw [List.filterMap_nil, List.append_nil]
  exact h.of_logbook hs hb

theorem refl (w : System H) : Does P w w := idle rfl rfl rfl

theorem trans (h : Does P w w') (h' : Does P w' w'') : Does P w w'' := by
  obtain ⟨hs, acts, hacts, hl, hj⟩ := h
  obtain ⟨hs', acts', hacts', hl', hj'⟩ := h'
  refine ⟨hs'.trans hs, acts ++ acts', fun act hm => ?_, ?_, fun recorded h => ?_⟩
  · exact (List.mem_append.mp hm).elim (hacts act) (hacts' act)
  · rw [hl', hl, List.map_append, Ledger.run, Ledger.run, Ledger.run, List.foldl_append]
  · rw [List.filterMap_append, ← List.append_assoc]
    exact hj' _ (hj recorded h)

theorem mono (h : Does P w w') (hpq : ∀ act, P act → Q act) : Does Q w w' := by
  obtain ⟨hs, acts, hacts, hrun⟩ := h
  exact ⟨hs, acts, fun act hm => hpq act (hacts act hm), hrun⟩

theorem one (op : Operation) (hop : P (.ask op))
    (hs : w'.controller.settings = w.controller.settings) (hl : w'.ledger = w.ledger.perform op)
    (hb : w'.logbook = w.logbook) : Does P w w' := by
  refine ⟨hs, [.ask op], fun _ hm => List.mem_singleton.mp hm ▸ hop, hl, fun recorded h => ?_⟩
  rw [List.filterMap_cons_none rfl, List.filterMap_nil, List.append_nil]
  exact h.of_logbook hs hb

/-- The grants match the records as long as they are only asked for. -/
theorem balanced (h : Does P w w') (hb : w.controller.arbiter.Balanced w.grants) :
    w'.controller.arbiter.Balanced w'.grants := by
  obtain ⟨-, acts, -, hl, -⟩ := h
  have hc := (Ledger.carries_run (l := w.ledger) hb (acts.map Act.operation)).1.balanced
  rwa [← hl] at hc

end Does

/-- A step of the arbiter that grants nothing and goes through no view. -/
theorem does_quietly (op : Operation) (hop : P (.ask op)) (hv : op.view? = none)
    (hg : (op.perform w.controller.arbiter).1 = none) :
    Does P w { w with controller :=
      { w.controller with arbiter := (op.perform w.controller.arbiter).2 } } :=
  .one op hop rfl (Ledger.perform_of_quiet (l := w.ledger) op hv hg).symm rfl

theorem does_onArbiter {α : Type} {task : Arbiter.Task α} (op : Operation) (hop : P (.ask op))
    (hv : op.view? = none)
    (hp : op.perform w.controller.arbiter = (none, (answer task w.controller.arbiter).2)) :
    Does P w (w.after (Controller.onArbiter task)) := by
  have h := does_quietly op hop hv (congrArg Prod.fst hp)
  rw [hp] at h
  rw [after_onArbiter]
  exact h

/-- A request to a controller that is gone changes nothing. -/
theorem does_guarded {α : Type} {task : Controller.Task H α} (h : Does P w (w.after task)) :
    Does P w (w.after (Controller.ensurePresent >>= fun _ => task)) := by
  obtain hw | ⟨-, hw⟩ := w.after_guarded task
  · rw [hw]
    exact .refl w
  · rwa [hw]

theorem does_onBuffer {α : Type} {role : QueueRole} (operation : EStateM Refusal Memory α)
    (hr : role ≠ .event) :
    Does Serving w { w with controller := (w.controller.onBuffer role operation).2 } := by
  have hp := Operation.perform_serving role operation w.controller.arbiter
  have h := does_quietly (P := Serving) (w := w) (.serving role operation) (.queue hr) rfl
    (congrArg Prod.fst hp)
  rw [hp] at h
  exact h

section

variable (s : Session)

theorem does_createQueue (allocator : Allocator) (role : QueueRole) :
    Does (Request.Asks (.session s (.createQueue allocator role))) w
      (w.after (s.createQueue allocator role)) :=
  does_guarded (does_onArbiter
    (.openQueue allocator s.user role (w.controller.settings.queueBytes role))
    ⟨_, ⟨_, rfl⟩, rfl⟩ rfl rfl)

theorem does_mapQueue (allocator : Allocator) (role : QueueRole) (room : FiniteRoom) :
    Does (Request.Asks (.session s (.mapQueue allocator role room))) w
      (w.lend s.user (s.mapQueue allocator role room.grants)) := by
  have hc := (does_createQueue (w := w) s allocator role).mono (Q := Request.Asks
    (.session s (.mapQueue allocator role room))) fun _ ⟨op, h, ha⟩ => ⟨op, .inl h, ha⟩
  obtain hl | ⟨handle, c, hq, hl⟩ := w.lend_mapQueue allocator s role room.grants
  · rwa [hl]
  · rw [after, answer_of_ok hq] at hc
    rw [hl]
    exact hc.trans (.one (.mapHandle handle 0 (c.settings.queueBytes role) room)
      ⟨_, .inr ⟨_, _, _, _, rfl⟩, rfl⟩ rfl rfl rfl)

theorem does_ringDoorbell [Hardware H] : Does P w (w.after s.ringDoorbell) := by
  rcases w.after_ringDoorbell s with hr | hr
  · rw [hr]
    exact .refl w
  · rw [hr]
    exact does_guarded (.idle rfl rfl rfl)

theorem does_close : Does (Request.Asks (.session s .close)) w
    { w with controller := s.close w.controller } :=
  (does_quietly (.reset s.user) ⟨_, .inl rfl, rfl⟩ rfl rfl).trans
    (does_quietly (.removeUser s.user) ⟨_, .inr rfl, rfl⟩ rfl rfl)

theorem does_performSession [Hardware H] (request : Session.Request) :
    Does (Request.Asks (.session s request)) w (w.performSession s request) := by
  cases request with
  | reserve => exact does_guarded (does_onArbiter (.reserve s.user) ⟨_, rfl, rfl⟩ rfl rfl)
  | release => exact does_guarded (does_onArbiter (.release s.user) ⟨_, rfl, rfl⟩ rfl rfl)
  | createQueue allocator role => exact does_createQueue s allocator role
  | mapQueue allocator role room => exact does_mapQueue s allocator role room
  | eraseQueue role =>
    exact does_guarded (does_onArbiter (.closeQueue s.user role) ⟨_, rfl, rfl⟩ rfl rfl)
  | ringDoorbell => exact does_ringDoorbell s
  | close => exact does_close s

end

section

variable [Hardware H]

theorem does_record {kind : EventKind} {data : UInt32}
    (hp : ∀ timestamp, P (.record ⟨kind, data, timestamp⟩)) :
    Does P w { w with controller := w.controller.record kind data } := by
  let event := (w.controller.log.record (Hardware.uptime w.controller.registry.hardware).1
    kind data).1
  have hpush := Operation.perform_serving .event (Ring.pushOverwrite event.encode)
    w.controller.arbiter
  refine ⟨rfl, [.record event], fun _ hm => List.mem_singleton.mp hm ▸ hp _, ?_, ?_⟩
  · exact ((Ledger.perform_of_quiet (l := w.ledger) (Act.operation (.record event)) rfl
      (congrArg Prod.fst hpush)).trans (congrArg (fun a => Ledger.mk a w.grants)
        (congrArg Prod.snd hpush))).symm
  · rintro recorded ⟨taken, hj, hreceived⟩
    exact ⟨taken, hj.record _ kind data, hreceived⟩

theorem does_notice {kind : EventKind} {data : UInt32} (hk : kind ≠ .createScheduler) :
    Does Serving w { w with controller := w.controller.record kind data } :=
  does_record fun _ => .notice hk

/-- A switch changes hardware and slots, and may be recorded. -/
theorem does_switchTo (target : Option DomainId) :
    Does Serving w (w.after (Controller.switchTo target)) := by
  have h := Controller.switchTo_outcome target w.controller
  rw [after, answer]
  generalize Controller.switchTo target w.controller = result at h ⊢
  cases h with
  | unknown => exact .refl w
  | missing => exact .idle rfl rfl rfl
  | rejected => exact .idle rfl rfl rfl
  | @accepted id d hw =>
    let switched : System H := { w with
      controller := w.controller.placed hw ⟨some id, w.controller.slots.active⟩ }
    exact (Does.idle rfl rfl rfl : Does Serving w switched).trans (does_notice (by decide))

theorem does_handleRequest (slot : Slot) :
    Does Serving w { w with controller := (w.controller.handleRequest slot).2 } := by
  rw [Controller.handleRequest]
  cases Request.decode slot with
  | error => exact .idle rfl rfl rfl
  | ok request =>
    cases request with
    | ping => exact .idle rfl rfl rfl
    | switchDomain _ id => exact (does_switchTo (some id.toNat)).trans (.idle rfl rfl rfl)

theorem does_drainUpTo (fuel : Nat) :
    Does Serving w { w with controller := w.controller.drainUpTo fuel } :=
  Controller.drainUpTo_induction (P := fun c => Does Serving w { w with controller := c })
    (fun _ operation hr h => h.trans (does_onBuffer operation hr))
    (fun slot h => h.trans (does_handleRequest slot)) fuel (.refl w)

theorem does_work (switch : Bool) :
    Does Serving w { w with controller := w.controller.work switch } := by
  rw [Controller.work]
  split
  · exact (does_drainUpTo _).trans (does_switchTo none)
  · exact does_drainUpTo _

theorem does_settle : Does Serving w { w with controller := w.controller.settle } := by
  rw [Controller.settle]
  split
  next =>
    let awake : System H := { w with controller := { w.controller with wake := {} } }
    exact (Does.idle rfl rfl rfl : Does Serving w awake).trans (does_work _)
  next => exact .refl w

theorem does_announce {kind : EventKind} (hk : kind ≠ .createScheduler) (id : DomainId) :
    Does Serving w { w with controller := w.controller.announce kind id } :=
  (does_notice hk).trans (.idle rfl rfl rfl)

theorem does_addDomain (name : String) (timesliceNs preemptGraceNs : Nat) (room : Registry.Room) :
    Does Serving w (w.after (Controller.addDomain name timesliceNs preemptGraceNs room)) := by
  rcases Controller.addDomain_cases name timesliceNs preemptGraceNs room w.controller with
    ⟨e, hw, -, ha⟩ | ⟨subs, hw, -, -, ha⟩
  · rw [after, answer_of_error ha]
    exact .idle rfl rfl rfl
  · rw [after, answer_of_ok ha]
    let d : Domain :=
      ⟨w.controller.registry.lastId + 1, name, timesliceNs, preemptGraceNs, 1, subs⟩
    let extended : System H := { w with controller := { w.controller with
      registry := w.controller.registry.extended hw d } }
    exact (Does.idle rfl rfl rfl : Does Serving w extended).trans (does_announce (by decide) _)

theorem does_removeDomain (id : DomainId) :
    Does Serving w (w.after (Controller.removeDomain id)) := by
  rcases Controller.removeDomain_cases id w.controller with ⟨e, hr⟩ | ⟨d, -, -, -, -, hr⟩
  · rw [after, answer_of_error hr]
    exact .refl w
  · rw [after, answer_of_ok hr]
    let smaller : System H := { w with controller := { w.controller with
      registry := w.controller.registry.unregistered d } }
    exact (Does.idle rfl rfl rfl : Does Serving w smaller).trans (does_announce (by decide) _)

omit [Hardware H] in
theorem does_refer (task : Registry.Task H DomainId) : Does P w (w.refer task) := by
  rw [refer, Controller.onRegistry]
  cases task w.controller.registry <;> exact .idle rfl rfl rfl

theorem does_start (thread : Bool) : Does P w (w.after (Controller.start thread)) := by
  rw [after]
  rcases Controller.start_cases thread w.controller with hr |
    ⟨-, -, -, ⟨-, hr⟩ | ⟨-, outcome, hw, -, hr⟩⟩
  · rw [hr]
    exact .refl w
  · rw [hr]
    exact .idle rfl rfl rfl
  · rw [hr]
    cases outcome <;> exact .idle rfl rfl rfl

omit [Hardware H] in
/-- What is taken out of the log is received. -/
theorem does_receive {events : List Event} {log : EventLog}
    (h : ∀ capacity recorded taken, w.controller.log.Journal capacity recorded taken →
      log.Journal capacity recorded (taken ++ events)) :
    Does P w { w with
      controller := { w.controller with log }
      received := w.received ++ events.map LogRecord.ofEvent } := by
  refine ⟨rfl, [], nofun, rfl, ?_⟩
  rintro recorded ⟨taken, hj, hreceived⟩
  rw [List.filterMap_nil, List.append_nil]
  refine ⟨taken ++ events, h _ _ _ hj, ?_⟩
  rw [List.map_append, hreceived]

omit [Hardware H] in
theorem does_postSwitch (id : DomainId) : Does P w (w.after (Controller.postSwitch id)) := by
  rcases Controller.postSwitch_cases id w.controller with ⟨e, hr⟩ | ⟨-, -, -, hr⟩
  · rw [after, answer_of_error hr]
    exact .refl w
  · rw [after, answer_of_ok hr]
    exact .idle rfl rfl rfl

omit [Hardware H] in
theorem does_stop : Does P w { w with controller := w.controller.stop } := by
  rw [Controller.stop]
  split
  next => exact .idle rfl rfl rfl
  next => exact .refl w

theorem does_tearDown : Does (Request.Asks .tearDown) w
    { w with controller := w.controller.tearDown } := by
  rw [Controller.tearDown]
  split
  next => exact .refl w
  next =>
    let stopped : System H := { w with
      controller := Controller.stop { w.controller with gone := true } }
    have hs : Does (Request.Asks .tearDown) w stopped :=
      (Does.idle rfl rfl rfl : Does _ w { w with controller :=
        { w.controller with gone := true } }).trans does_stop
    exact hs.trans (.one .revokeAll rfl rfl
      (Ledger.perform_of_quiet (l := stopped.ledger) .revokeAll rfl rfl).symm rfl)

/-- One request, or one step of the worker. -/
theorem does_perform (w : System H) (r : Request) : Does r.Asks w (w.perform r) := by
  cases r with
  | addDomain name timesliceNs preemptGraceNs room =>
    exact does_addDomain name timesliceNs preemptGraceNs room
  | removeDomain id => exact does_removeDomain id
  | lookupId id => exact does_refer _
  | lookupName name => exact does_refer _
  | copy id =>
    rw [perform]
    split <;> exact .idle rfl rfl rfl
  | giveBack id =>
    rw [perform]
    split <;> exact .idle rfl rfl rfl
  | postSwitch id => exact does_postSwitch id
  | ringDoorbell => exact does_guarded (.idle rfl rfl rfl)
  | session s request => exact does_performSession s request
  | arbiter op => exact .one op rfl rfl rfl rfl
  | logEvent kind data => exact does_record fun timestamp => ⟨timestamp, rfl⟩
  | takeEvent => exact does_receive fun _ _ _ h => h.take
  | drainEvents => exact does_receive fun _ _ _ h => h.drain
  | start thread => exact does_start thread
  | stop => exact does_stop
  | settle => exact does_settle
  | elapse =>
    rw [perform, Controller.elapse]
    split
    next => exact does_drainUpTo _
    next => exact .refl w
  | serve rounds =>
    rw [perform]
    split
    next => exact does_drainUpTo rounds
    next => exact .refl w
  | tearDown => exact does_tearDown

/-- A run of requests is a run of what they do. -/
theorem does_run (w : System H) (requests : List Request) :
    Does (fun act => ∃ r ∈ requests, r.Asks act) w (w.run requests) := by
  induction requests generalizing w with
  | nil => exact .refl w
  | cons r requests ih =>
    refine ((does_perform w r).mono fun act ha => ?_).trans ((ih (w.perform r)).mono ?_)
    · exact ⟨r, List.mem_cons_self, ha⟩
    · rintro act ⟨r', hr', ha⟩
      exact ⟨r', List.mem_cons_of_mem _ hr', ha⟩

end

end System

end AcceleratorScheduler
