import AcceleratorScheduler.Proofs.Controller.Operations
import AcceleratorScheduler.Proofs.Device.Deployments

/-! A device as a way to its controller. Requests to the device are requests to the controller that
was created, as long as the device is there; before that, nothing but the creation counts. So what
holds of every run of a controller holds of every run of a device (`run_installed`). -/
namespace AcceleratorScheduler.Deployment

variable {H : Type} {p : Deployment H} {w : System H} {c : Controller H} {hw : H}

def system? (p : Deployment H) : Option (System H) := p.device.controller?.map p.system

def Request.relayed : Request → System.Request
  | .create _ thread => .start thread
  | .addDomain name timesliceNs preemptGraceNs room =>
    .addDomain name timesliceNs preemptGraceNs room
  | .removeDomain id => .removeDomain id
  | .openSession pid writable => .arbiter (.addUser pid writable)
  | .getLog => .takeEvent
  | .drainLog => .drainEvents
  | .shutdown => .tearDown
  | .close => .stop
  | .controller request => request

def Request.viaDevice : Request → Bool
  | .controller _ => false
  | _ => true

theorem system?_eq_some : p.system? = some w ↔
    ∃ c, p.device.stage = .created c ∧ p.system c = w := by
  rw [system?, Device.controller?]
  cases p.device.stage with
  | waiting => simp
  | created c => simp

/-- What a request gives out is received. -/
theorem system?_receive {α : Type} {task : Controller.Task H α} (read : α → List LogRecord)
    (h : p.system? = some w) : (p.receive (Device.serve task) read).system? =
      some (if p.device.gone then w else
        { w.after task with received := w.received ++
          match (answer task w.controller).1 with
          | .ok x => read x
          | .error _ => [] }) := by
  obtain ⟨c, hs, rfl⟩ := system?_eq_some.mp h
  rw [receive]
  rcases Bool.eq_false_or_eq_true p.device.gone with hg | hg
  · rw [answer_of_error (Device.serve_gone hg), hg]
    simpa using h
  · rw [Device.answer_serve_present hg, Device.answer_onController hs, hg]
    rfl

theorem system?_serve {α : Type} {task : Controller.Task H α} (h : p.system? = some w) :
    (p.after (Device.serve task)).system? =
      some (if p.device.gone then w else w.after task) := by
  obtain ⟨c, hs, rfl⟩ := system?_eq_some.mp h
  rw [after]
  rcases Bool.eq_false_or_eq_true p.device.gone with hg | hg
  · rw [answer_of_error (Device.serve_gone hg), hg]
    exact h
  · rw [Device.answer_serve_present hg, Device.answer_onController hs, hg]
    rfl

variable [Hardware H]

theorem after_openSession (w : System H) (pid : Nat) (writable : Bool) :
    w.after (do
      let user ← Controller.onArbiter (Arbiter.addUser pid writable)
      return ({ user, pid } : Session)) = w.perform (.arbiter (.addUser pid writable)) := by
  have hp := Arbiter.Ledger.perform_of_quiet (l := ⟨w.controller.arbiter, w.grants⟩)
    (.addUser pid writable) rfl rfl
  rw [System.perform, hp, System.after, answer_bind_pure]
  exact System.after_onArbiter w (Arbiter.addUser pid writable)

/-- A device passes requests on until it is gone. -/
theorem system?_perform (h : p.system? = some w) (r : Request) : (p.perform r).system? =
    some (if p.device.gone && r.viaDevice then w else w.perform r.relayed) := by
  obtain ⟨c, hs, rfl⟩ := system?_eq_some.mp h
  have hvia {α : Type} {task : Controller.Task H α} {request : System.Request}
      (ht : (p.system c).after task = (p.system c).perform request) :
      (p.after (Device.serve task)).system? =
        some (if p.device.gone && true then p.system c else (p.system c).perform request) := by
    rw [system?_serve h, ht, Bool.and_true]
  have hupdate (f : Controller H → Controller H) (gone : Bool) :
      ({ p with device := { p.device.updateController f with gone } } : Deployment H).system? =
        some { p.system c with controller := f c } := by
    rw [Device.updateController, hs]
    rfl
  cases r with
  | create room thread =>
    rw [perform, after]
    rcases Bool.eq_false_or_eq_true p.device.gone with hg | hg
    · rw [answer_of_error (Device.create_gone hg room thread), hg]
      exact h
    · rw [Device.answer_create_created hg hs, hg]
      rfl
  | addDomain | removeDomain => exact hvia rfl
  | getLog =>
    refine (system?_receive Option.toList h).trans ?_
    rw [show Request.getLog.viaDevice = true from rfl, Bool.and_true, Request.relayed,
      System.perform, ← Option.toList_map]
    rfl
  | drainLog =>
    refine (system?_receive id h).trans ?_
    rw [show Request.drainLog.viaDevice = true from rfl, Bool.and_true]
    rfl
  | openSession pid writable => exact hvia (after_openSession _ pid writable)
  | shutdown =>
    rw [perform, Device.shutdown]
    split
    next hg => rw [hg]; exact h
    next hg =>
      rw [Bool.not_eq_true] at hg
      rw [hg]
      exact hupdate Controller.tearDown true
  | close =>
    rw [perform, Device.close]
    split
    next hg => rw [hg]; exact h
    next hg =>
      rw [Bool.not_eq_true] at hg
      rw [hg]
      exact hupdate Controller.stop _
  | controller request =>
    simp only [perform, hs, Request.viaDevice, Bool.and_false]
    rfl

/-- A device is gone once it was shut down. -/
theorem gone_perform (p : Deployment H) (r : Request) :
    (p.perform r).device.gone = true ↔ p.device.gone = true ∨ r = .shutdown := by
  have hsame (hr : r ≠ .shutdown) (h : (p.perform r).device.gone = p.device.gone) :
      (p.perform r).device.gone = true ↔ p.device.gone = true ∨ r = .shutdown := by
    rw [h, or_iff_left hr]
  cases r with
  | create room thread =>
    refine hsame nofun ?_
    rw [perform, after]
    rcases Bool.eq_false_or_eq_true p.device.gone with hg | hg
    · rw [answer_of_error (Device.create_gone hg room thread)]
    · cases hs : p.device.stage with
      | waiting hw =>
        rw [Device.answer_create_waiting hg hs]
        cases Controller.new p.device.settings hw room <;> rfl
      | created c => rw [Device.answer_create_created hg hs]
  | addDomain | removeDomain | openSession | getLog | drainLog =>
    exact hsame nofun (Device.gone_serve _ _)
  | shutdown =>
    rw [perform, Device.shutdown]
    split
    next hg => exact iff_of_true hg (.inl hg)
    next => exact iff_of_true rfl (.inr rfl)
  | close =>
    refine hsame nofun ?_
    rw [perform, Device.close]
    split
    · rfl
    · exact Device.gone_updateController _ _
  | controller request =>
    refine hsame nofun ?_
    rw [perform]
    split <;> rfl

theorem gone_run (hg : p.device.gone = true) (requests : List Request) :
    (p.run requests).device.gone = true := by
  induction requests generalizing p with
  | nil => exact hg
  | cons r requests ih => exact ih ((gone_perform p r).mpr (.inl hg))

inductive Awaiting (p : Deployment H) (hw : H) : Request → Deployment H → Prop
  | turnedAway {r : Request} : Awaiting p hw r p
  | shutDown : Awaiting p hw .shutdown { p with device := { p.device with gone := true } }
  | created {room thread : Bool} {c : Controller H} (hg : p.device.gone = false)
      (hc : Controller.new p.device.settings hw room = .ok c) :
      Awaiting p hw (.create room thread) { p with
        device := { p.device with
          stage := .created (answer (Controller.start thread) (c.record .createScheduler 0)).2 } }

theorem perform_awaiting (hs : p.device.stage = .waiting hw) (r : Request) :
    Awaiting p hw r (p.perform r) := by
  have hserve {α : Type} {task : Controller.Task H α} : p.after (Device.serve task) = p := by
    obtain ⟨e, he⟩ : ∃ e, answer (Device.serve task) p.device = (.error e, p.device) :=
      Device.answer_serve_waiting hs
    rw [after, he]
  have hreceive {α : Type} {task : Controller.Task H α} (read : α → List LogRecord) :
      p.receive (Device.serve task) read = p := by
    obtain ⟨e, he⟩ : ∃ e, answer (Device.serve task) p.device = (.error e, p.device) :=
      Device.answer_serve_waiting hs
    rw [receive, he]
    simp only [List.append_nil]
  have hkeep (hp : p.perform r = p) : Awaiting p hw r (p.perform r) := by
    rw [hp]
    exact .turnedAway
  cases r with
  | create room thread =>
    rw [perform, after]
    rcases Bool.eq_false_or_eq_true p.device.gone with hg | hg
    · rw [answer_of_error (Device.create_gone hg room thread)]
      exact .turnedAway
    · rw [Device.answer_create_waiting hg hs]
      cases hc : Controller.new p.device.settings hw room with
      | error e => exact .turnedAway
      | ok c => exact .created hg hc
  | addDomain | removeDomain | openSession => exact hkeep hserve
  | getLog => exact hkeep (hreceive _)
  | drainLog => exact hkeep (hreceive _)
  | shutdown =>
    rw [perform, Device.shutdown, Device.updateController, hs]
    split
    · exact .turnedAway
    · exact .shutDown
  | close =>
    refine hkeep ?_
    rw [perform, Device.close, Device.updateController, hs]
    exact congrArg (fun d => { p with device := d }) (ite_self _)
  | controller request =>
    refine hkeep ?_
    simp only [perform, hs]

omit [Hardware H] in
theorem relayed_cons {request : Request} {requests : List Request} {relayed : List System.Request}
    (h : ∀ r ∈ relayed, ∃ q ∈ requests, r = q.relayed) :
    ∀ r ∈ relayed, ∃ q ∈ request :: requests, r = q.relayed := fun r hr =>
  (h r hr).imp fun _ hq => ⟨List.mem_cons_of_mem _ hq.1, hq.2⟩

/-- What was asked of the device while it was there was asked of the controller, the end of both
included. -/
theorem system?_run (h : p.system? = some w) (requests : List Request) :
    ∃ relayed : List System.Request, (p.run requests).system? = some (w.run relayed) ∧
      (∀ r ∈ relayed, ∃ request ∈ requests, r = request.relayed) ∧
      (p.device.gone = false → (p.run requests).device.gone = true → .tearDown ∈ relayed) := by
  induction requests generalizing p w with
  | nil => exact ⟨[], h, nofun, fun hg hg' => by cases hg.symm.trans hg'⟩
  | cons request requests ih =>
    obtain ⟨relayed, hrun, hall, hend⟩ := ih (system?_perform h request)
    split at hrun
    next hturned =>
      refine ⟨relayed, hrun, relayed_cons hall, fun hg => ?_⟩
      rw [hg] at hturned
      cases hturned
    next =>
      refine ⟨request.relayed :: relayed, hrun, fun r hr => ?_, fun hg hg' => ?_⟩
      · rcases List.mem_cons.mp hr with rfl | hr
        · exact ⟨request, List.mem_cons_self, rfl⟩
        · exact relayed_cons hall r hr
      · cases hnext : (p.perform request).device.gone with
        | false => exact List.mem_cons_of_mem _ (hend hnext hg')
        | true =>
          obtain rfl := ((gone_perform p request).mp hnext).resolve_left (by rw [hg]; nofun)
          exact List.mem_cons_self

def logged (c : Controller H) : System H :=
  System.perform { controller := c } (.logEvent .createScheduler 0)

/-- The creation is the first event. -/
theorem journal_logged {settings : Settings} (hc : Controller.new settings hw = .ok c) :
    ∃ event : Event, event.entry = (.createScheduler, 0) ∧ (logged c).Journal [event] := by
  obtain ⟨taken, hj, hreceived⟩ := System.journal_new hc
  exact ⟨_, rfl, taken, hj.record _ .createScheduler 0, hreceived⟩

/-- The controller right after its creation, which is recorded and followed by a start. -/
def born (c : Controller H) (thread : Bool) : System H :=
  System.run { controller := c } [.logEvent .createScheduler 0, .start thread]

theorem run_born (c : Controller H) (thread : Bool) (requests : List System.Request) :
    (born c thread).run requests = System.run { controller := c }
      ([.logEvent .createScheduler 0, .start thread] ++ requests) :=
  (System.run_append { controller := c } _ requests).symm

structure Waiting (settings : Settings) (hw : H) (p : Deployment H) : Prop where
  stage : p.device.stage = .waiting hw
  settings : p.device.settings = settings
  grants : p.grants = []
  held : p.held = []
  received : p.received = []

omit [Hardware H] in
theorem waiting_installed (settings : Settings) (hw : H) :
    Waiting settings hw (installed settings hw) :=
  ⟨rfl, rfl, rfl, rfl, rfl⟩

variable {settings : Settings}

omit [Hardware H] in
theorem Waiting.system? (h : Waiting settings hw p) : p.system? = none := by
  rw [Deployment.system?, Device.controller?, h.stage]
  rfl

theorem Waiting.perform (h : Waiting settings hw p) (r : Request) :
    Waiting settings hw (p.perform r) ∨ ∃ thread c, p.device.gone = false ∧
      (p.perform r).device.gone = false ∧ Controller.new settings hw = .ok c ∧
        (p.perform r).system? = some (born c thread) := by
  have hp := perform_awaiting h.stage r
  generalize p.perform r = p' at hp ⊢
  cases hp with
  | turnedAway => exact .inl h
  | shutDown => exact .inl ⟨h.stage, h.settings, h.grants, h.held, h.received⟩
  | @created room thread c hg hc =>
    refine .inr ⟨thread, c, hg, hg, h.settings ▸ Controller.new_of_room hc, ?_⟩
    refine system?_eq_some.mpr ⟨_, rfl, ?_⟩
    rw [system, h.grants, h.held, h.received]
    rfl

/-- Whatever is asked of a device, either the scheduler is still to be created, or the controller
went through a run of its own. -/
theorem Waiting.run (h : Waiting settings hw p) (requests : List Request) :
    Waiting settings hw (p.run requests) ∨ ∃ thread c relayed,
      Controller.new settings hw = .ok c ∧
      (p.run requests).system? = some ((born c thread).run relayed) ∧
      (∀ r ∈ relayed, ∃ request ∈ requests, r = request.relayed) ∧
      ((p.run requests).device.gone = true → .tearDown ∈ relayed) := by
  induction requests generalizing p with
  | nil => exact .inl h
  | cons r requests ih =>
    rcases h.perform r with hw | ⟨thread, c, -, hg, hc, hs⟩
    · rcases ih hw with hwait | ⟨thread, c, relayed, hc, hrun, hall, hend⟩
      · exact .inl hwait
      · exact .inr ⟨thread, c, relayed, hc, hrun, relayed_cons hall, hend⟩
    · obtain ⟨relayed, hrun, hall, hend⟩ := system?_run hs requests
      exact .inr ⟨thread, c, relayed, hc, hrun, relayed_cons hall, hend hg⟩

end AcceleratorScheduler.Deployment
