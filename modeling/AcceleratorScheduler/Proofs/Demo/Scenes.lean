import AcceleratorScheduler.Demo
import AcceleratorScheduler.Proofs.Controller.Isolation
import AcceleratorScheduler.Proofs.Device.Deployments
import AcceleratorScheduler.Proofs.EventLog.Recall

/-! What a script finds on its device. A scene says everything of a controller with a running worker
but what its clock shows and when its events were recorded; each request leads from one scene to the
next. -/
namespace AcceleratorScheduler.Demo

/-- What is in the way of a scheduler, if anything is. -/
def Provision.obstacle? (p : Provision) : Option Refusal :=
  if !p.log || !p.thread then some .outOfMemory
  else if !p.prompt then some .initTimeout
  else none

theorem Provision.obstacle?_eq_none {p : Provision} :
    p.obstacle? = none ↔ p.log = true ∧ p.thread = true ∧ p.prompt = true := by
  rw [obstacle?]
  cases p.log <;> cases p.thread <;> cases p.prompt <;> simp

/-- A controller whose worker runs, apart from clock and log. -/
structure Scene where
  settings : Settings
  /-- The events recorded so far. -/
  told : List (EventKind × UInt32)
  registry : Registry HostSimulation
  slots : DomainSlots := {}
  arbiter : Arbiter := {}
  wake : Wake := {}

def atTime (r : Registry HostSimulation) (clock : Int64) : Registry HostSimulation :=
  { r with hardware := { r.hardware with clock } }

namespace Scene

def controller (s : Scene) (clock : Int64) (log : EventLog) : Controller HostSimulation :=
  { settings := s.settings, registry := atTime s.registry clock, slots := s.slots, log
    arbiter := s.arbiter, wake := s.wake, state := .running, hasWorker := true }

/-- The controller is as the scene says, and its log recalls what it was told. -/
inductive Fits (s : Scene) : Controller HostSimulation → Prop
  | intro (clock : Int64) (log : EventLog) :
      log.Recalls s.settings.logCapacity.toNat s.told → s.Fits (s.controller clock log)

def Shows (s : Scene) (d : Device HostSimulation) : Prop :=
  ∃ c, s.Fits c ∧ d = { settings := s.settings, stage := .created c }

variable {s s' : Scene} {α : Type} {a : α} {c : Controller HostSimulation}

theorem Fits.registered? (h : s.Fits c) (id : DomainId) :
    c.registry.registered? id = s.registry.registered? id := by
  cases h
  rfl

theorem fits_record (h : s.Fits c) (he : s.arbiter.queues.get .event = none) (kind : EventKind)
    (data : UInt32) : Fits { s with told := s.told ++ [(kind, data)] } (c.record kind data) := by
  obtain ⟨clock, log, hlog⟩ := h
  simp only [Controller.record, controller, Arbiter.onBuffer_of_none .event _ he]
  exact ⟨_, _, hlog.record clock kind data⟩

theorem fits_stamp (h : s.Fits c) : s.Fits c.stamp.2 := by
  obtain ⟨clock, log, hlog⟩ := h
  exact ⟨_, log, hlog⟩

/-- As long as there is no send queue the worker has its turn for nothing. -/
theorem fits_settle (h : s.Fits c) (hq : s.arbiter.queues.get .send = none) (reconfigure : Bool)
    (hw : s.wake = { reconfigure }) : Fits { s with wake := {} } c.settle := by
  obtain ⟨clock, log, hlog⟩ := h
  let c := s.controller clock log
  have habsent : c.contents .send = none := by
    simp only [Controller.contents, Arbiter.contents, c, controller, hq, Option.map_none]
  rw [Controller.settle_of_absent (c := c) rfl rfl habsent hw]
  exact ⟨clock, log, hlog⟩

def switched (s : Scene) (id : DomainId) : Scene :=
  { s with
    told := s.told ++ [(.domainSwitch, Controller.eventData id)]
    registry := { s.registry with hardware :=
      { s.registry.hardware with
        resident := some id, switches := s.registry.hardware.switches + 1 } }
    slots := ⟨some id, s.slots.active⟩ }

/-- The hardware takes every domain. -/
theorem fits_switched {id : DomainId} {d : Domain} (h : s.Fits c)
    (he : s.arbiter.queues.get .event = none) (hd : s.registry.registered? id = some d) :
    ∃ hw, Hardware.apply c.registry.hardware d = (.ok (), hw) ∧ (s.switched id).Fits
      (Controller.record .domainSwitch (Controller.eventData id)
        (c.placed hw ⟨some id, c.slots.active⟩)) := by
  obtain rfl := Registry.id_of_registered? hd
  refine ⟨_, rfl, fits_record (s := { s.switched d.id with told := s.told }) ?_ he _ _⟩
  obtain ⟨clock, log, hlog⟩ := h
  exact ⟨clock, log, hlog⟩

section Requests

theorem leads_ensurePresent : Leads s.Fits Controller.ensurePresent () s.Fits := by
  rintro _ ⟨clock, log, hlog⟩
  exact ⟨_, Controller.ensurePresent_present rfl, clock, log, hlog⟩

theorem leads_record (he : s.arbiter.queues.get .event = none) (kind : EventKind) (data : UInt32) :
    Leads s.Fits (modify (Controller.record kind data)) ⟨⟩
      (Fits { s with told := s.told ++ [(kind, data)] }) :=
  fun _ hc => ⟨_, rfl, fits_record hc he kind data⟩

theorem leads_signal (f : Wake → Wake) :
    Leads s.Fits (modify (Controller.signal f)) ⟨⟩ (Fits { s with wake := f s.wake }) := by
  rintro _ ⟨clock, log, hlog⟩
  exact ⟨_, rfl, clock, log, hlog⟩

theorem leads_onRegistry {task : Registry.Task HostSimulation α} {registry : Registry HostSimulation}
    (h : ∀ clock, task (atTime s.registry clock) = .ok a (atTime registry clock)) :
    Leads s.Fits (Controller.onRegistry task) a (Fits { s with registry }) := by
  rintro _ ⟨clock, log, hlog⟩
  refine ⟨_, ?_, clock, log, hlog⟩
  simp only [Controller.onRegistry, controller, h]

theorem leads_onArbiter {task : Arbiter.Task α} {arbiter : Arbiter}
    (h : task s.arbiter = .ok a arbiter) :
    Leads s.Fits (Controller.onArbiter task) a (Fits { s with arbiter }) := by
  rintro _ ⟨clock, log, hlog⟩
  refine ⟨_, ?_, clock, log, hlog⟩
  simp only [Controller.onArbiter, controller, h]

theorem leads_onController {task : Controller.Task HostSimulation α}
    (h : Leads s.Fits task a s'.Fits) (hs : s'.settings = s.settings) :
    Leads s.Shows (Device.onController task) a s'.Shows := by
  rintro _ ⟨c, hc, rfl⟩
  obtain ⟨c', ht, hc'⟩ := h c hc
  refine ⟨_, ?_, c', hc', rfl⟩
  rw [Device.onController]
  simp only [ht, hs]

theorem leads_serve {task : Controller.Task HostSimulation α}
    (h : Leads s.Fits task a s'.Fits) (hs : s'.settings = s.settings) :
    Leads s.Shows (Device.serve task) a s'.Shows := by
  rintro _ ⟨c, hc, rfl⟩
  exact leads_onController h hs _ ⟨c, hc, rfl⟩

theorem declines_onController {task : Controller.Task HostSimulation α} {e : Refusal}
    (h : Declines s.Fits task e) : Declines s.Shows (Device.onController task) e := by
  rintro _ ⟨c, hc, rfl⟩
  obtain ⟨c', ht⟩ := h c hc
  refine ⟨{ settings := s.settings, stage := .created c' }, ?_⟩
  rw [Device.onController]
  simp only [ht]

theorem declines_serve {task : Controller.Task HostSimulation α} {e : Refusal}
    (h : Declines s.Fits task e) : Declines s.Shows (Device.serve task) e := by
  rintro _ ⟨c, hc, rfl⟩
  exact declines_onController h _ ⟨c, hc, rfl⟩

theorem declines_onRegistry {task : Registry.Task HostSimulation α} {e : Refusal}
    (h : ∀ clock, ∃ registry, task (atTime s.registry clock) = .error e registry) :
    Declines s.Fits (Controller.onRegistry task) e := by
  rintro _ ⟨clock, log, hlog⟩
  obtain ⟨registry, hr⟩ := h clock
  refine ⟨{ s.controller clock log with registry }, ?_⟩
  simp only [Controller.onRegistry, controller, hr]

/-- The worker has its turn after the request. -/
theorem leads_settled {before : Device HostSimulation → Prop} {task : Task α}
    (h : Leads before task a s.Shows) (hw : ∀ c, s.Fits c → s'.Fits c.settle)
    (hs : s'.settings = s.settings) : Leads before (settled task) a s'.Shows := by
  refine h.bind ?_
  rintro _ ⟨c, hc, rfl⟩
  refine ⟨_, rfl, c.settle, hw c hc, ?_⟩
  rw [hs]
  rfl

/-- A domain is added before any queue is opened. -/
theorem leads_addDomain {name : String} {timesliceNs preemptGraceNs : Nat} {room : Registry.Room}
    {id : DomainId} {registry : Registry HostSimulation}
    (hadd : ∀ clock, Registry.add name timesliceNs preemptGraceNs room (atTime s.registry clock) =
      .ok id (atTime registry clock))
    (hq : s.arbiter = {}) (hw : s.wake = {}) :
    Leads s.Shows (settled (Device.addDomain name timesliceNs preemptGraceNs room)) id
      (Shows { s with
        registry, told := s.told ++ [(.createDomain, Controller.eventData id)], wake := {} }) := by
  have hqueues (role : QueueRole) : s.arbiter.queues.get role = none := by
    rw [hq]
    cases role <;> rfl
  let added : Scene :=
    { s with
      registry, told := s.told ++ [(.createDomain, Controller.eventData id)]
      wake := { s.wake with reconfigure := true } }
  have hrequest : Leads s.Fits (Controller.addDomain name timesliceNs preemptGraceNs room) id
      added.Fits := by
    refine leads_ensurePresent.bind ?_
    refine (leads_onRegistry hadd).bind ?_
    refine (leads_record (s := { s with registry }) (hqueues .event) _ _).bind ?_
    exact (leads_signal _).bind .pure
  refine leads_settled (leads_serve hrequest rfl) (fun c hc => ?_) rfl
  exact fits_settle hc (hqueues .send) true
    (congrArg (fun w : Wake => { w with reconfigure := true }) hw)

/-- A domain that the registry refuses is not added. -/
theorem declines_addDomain {name : String} {timesliceNs preemptGraceNs : Nat}
    {room : Registry.Room} {e : Refusal}
    (hadd : ∀ clock, ∃ registry,
      Registry.add name timesliceNs preemptGraceNs room (atTime s.registry clock) =
        .error e registry) :
    Declines s.Shows (settled (Device.addDomain name timesliceNs preemptGraceNs room)) e := by
  exact (declines_serve (leads_ensurePresent.declines (declines_onRegistry hadd).bind)).bind

/-- Opening a queue and mapping all of it, as the arbiter does both. -/
theorem leads_mapQueue {allocator : Allocator} {session : Session} {role : QueueRole}
    {room : RecordRoom} {handle : ExportHandle} {v : MappedView} {opened arbiter : Arbiter}
    (ho : Arbiter.openQueue allocator session.user role (s.settings.queueBytes role) s.arbiter =
      .ok handle opened)
    (hm : Arbiter.mapHandle handle 0 (s.settings.queueBytes role) room opened = .ok v arbiter) :
    Leads s.Fits (session.mapQueue allocator role room) v (Fits { s with arbiter }) := by
  rintro _ ⟨clock, log, hlog⟩
  let c := s.controller clock log
  have hcreate : session.createQueue allocator role c = .ok handle { c with arbiter := opened } := by
    rw [Session.createQueue_present rfl]
    simp only [Controller.onArbiter, c, controller, ho]
  refine ⟨_, ?_, clock, log, hlog⟩
  rw [Session.mapQueue_of_created hcreate]
  simp only [Controller.onArbiter, c, controller, hm]

/-- Either of the two may be refused. -/
inductive Unmapped (s : Scene) (allocator : Allocator) (session : Session) (role : QueueRole)
    (room : RecordRoom) (e : Refusal) : Prop
  | unopened {arbiter : Arbiter}
      (ho : Arbiter.openQueue allocator session.user role (s.settings.queueBytes role) s.arbiter =
        .error e arbiter)
  | opened {handle : ExportHandle} {opened arbiter : Arbiter}
      (ho : Arbiter.openQueue allocator session.user role (s.settings.queueBytes role) s.arbiter =
        .ok handle opened)
      (hm : Arbiter.mapHandle handle 0 (s.settings.queueBytes role) room opened =
        .error e arbiter)

theorem declines_mapQueue {allocator : Allocator} {session : Session} {role : QueueRole}
    {room : RecordRoom} {e : Refusal} (h : s.Unmapped allocator session role room e) :
    Declines s.Fits (session.mapQueue allocator role room) e := by
  rintro _ ⟨clock, log, hlog⟩
  let c := s.controller clock log
  cases h with
  | @unopened arbiter ho =>
    have hcreate : session.createQueue allocator role c = .error e { c with arbiter } := by
      rw [Session.createQueue_present rfl]
      simp only [Controller.onArbiter, c, controller, ho]
    exact ⟨_, bind_error hcreate⟩
  | @opened handle opened arbiter ho hm =>
    have hcreate : session.createQueue allocator role c =
        .ok handle { c with arbiter := opened } := by
      rw [Session.createQueue_present rfl]
      simp only [Controller.onArbiter, c, controller, ho]
    refine ⟨{ c with arbiter }, ?_⟩
    rw [Session.mapQueue_of_created hcreate]
    simp only [Controller.onArbiter, c, controller, hm]

theorem leads_status : Leads s.Shows Device.status
    ⟨.running, s.slots.active, s.slots.shadow, s.registry.index.length⟩ s.Shows := by
  refine leads_serve ?_ rfl
  rintro _ ⟨clock, log, hlog⟩
  exact ⟨_, rfl, clock, log, hlog⟩

theorem Shows.switches {d : Device HostSimulation} (hd : s.Shows d) :
    d.hardware.switches = s.registry.hardware.switches := by
  obtain ⟨c, ⟨clock, log, hlog⟩, rfl⟩ := hd
  rfl

/-- Draining the log gives what it recalls. -/
theorem drainLog_eq_ok {d : Device HostSimulation} (hd : s.Shows d) :
    ∃ events : List Event, ∃ d', Device.drainLog d = .ok (events.map LogRecord.ofEvent) d' ∧
      events.map Event.entry = s.told.drop (s.told.length - s.settings.logCapacity.toNat) := by
  obtain ⟨c, ⟨clock, log, hlog⟩, rfl⟩ := hd
  exact ⟨log.drain.1, _, rfl, hlog.drain⟩

end Requests

def opening (settings : Settings) : Scene where
  settings := settings
  told := [(.createScheduler, 0)]
  registry := { hardware := {} }

section Creation

variable {settings : Settings} {provision : Provision}

def Closed (settings : Settings) (provision : Provision) (d : Device HostSimulation) : Prop :=
  ∃ clock, d = { settings, stage := .waiting (provision.hardware clock) }

theorem leads_create (hv : settings.Valid) (hp : provision.obstacle? = none) :
    Leads (Closed settings provision)
      (settled (Device.create provision.log provision.thread)) () (opening settings).Shows := by
  obtain ⟨hlog, hthread, hprompt⟩ := Provision.obstacle?_eq_none.mp hp
  refine leads_settled (s := opening settings) ?_ (fun c hc => fits_settle hc rfl false rfl) rfl
  rintro _ ⟨clock, rfl⟩
  have hhardware : provision.hardware clock = { clock } := by rw [Provision.hardware, hprompt]; rfl
  obtain ⟨log, hinit, hnew⟩ := System.new_of_valid hv ({ clock } : HostSimulation)
  let made : Controller HostSimulation := Controller.record .createScheduler 0
    { settings, registry := { hardware := (Hardware.uptime ({ clock } : HostSimulation)).2 }, log }
  have hstart : answer Controller.start made =
      (.ok (), made.launched made.registry.hardware .ready) := Controller.answer_start true made
  have hcreate : answer Device.create { settings, stage := .waiting { clock } } =
      (.ok (), { settings, stage := .created (made.launched made.registry.hardware .ready) }) := by
    rw [Device.answer_create_waiting rfl rfl, hnew]
    exact congrArg (fun r : Except Refusal Unit × Controller HostSimulation =>
      (r.1, ({ settings, stage := .created r.2 } : Device HostSimulation))) hstart
  rw [hlog, hthread, hhardware]
  refine ⟨_, eq_ok_of_answer hcreate, _, ?_, rfl⟩
  exact ⟨_, _, (EventLog.recalls_init hinit).record _ .createScheduler 0⟩

theorem declines_create (hv : settings.Valid) {e : Refusal} (hp : provision.obstacle? = some e) :
    Declines (Closed settings provision)
      (settled (Device.create provision.log provision.thread)) e := by
  refine Declines.bind ?_
  rintro _ ⟨clock, rfl⟩
  suffices h : (answer (Device.create provision.log provision.thread)
      { settings, stage := .waiting (provision.hardware clock) }).1 = .error e from
    ⟨_, eq_error_of_answer (Prod.ext h rfl)⟩
  rw [Device.answer_create_waiting rfl rfl]
  obtain ⟨log, thread, prompt, first, second, records⟩ := provision
  cases log with
  | false =>
    cases hp
    rw [System.new_unroomed hv]
  | true =>
    obtain ⟨log, -, hnew⟩ := System.new_of_valid hv
      (Provision.hardware ⟨true, thread, prompt, first, second, records⟩ clock)
    rw [hnew]
    cases thread with
    | false =>
      cases hp
      rfl
    | true =>
      cases prompt with
      | false =>
        cases hp
        rfl
      | true => cases hp

end Creation

end Scene

end AcceleratorScheduler.Demo
