import AcceleratorScheduler.Proofs.Controller.Systems

/-! A device in use: what its clients hold, every request that reaches it, and how a request to the
device is one to the controller that was created. -/
namespace AcceleratorScheduler

namespace Device

variable {H : Type} {d : Device H} {c : Controller H} {hw : H}

theorem serve_gone {α : Type} {task : Controller.Task H α} (hg : d.gone = true) :
    serve task d = .error .deviceGone d := by
  refine (bind_ok (get_apply d)).trans ?_
  rw [hg]
  rfl

theorem answer_onController {α : Type} {task : Controller.Task H α} (hs : d.stage = .created c) :
    answer (onController task) d =
      ((answer task c).1, { d with stage := .created (answer task c).2 }) := by
  rw [answer, onController, hs, answer]
  cases ht : task c <;> simp only [ht]

/-- Before it is created there is nothing to serve a request. -/
theorem answer_serve_waiting {α : Type} {task : Controller.Task H α} (hs : d.stage = .waiting hw) :
    ∃ e, answer (serve task) d = (.error e, d) := by
  rcases Bool.eq_false_or_eq_true d.gone with hg | hg
  · exact ⟨_, answer_of_error (serve_gone hg)⟩
  · refine ⟨.invalidArgument, answer_of_error ((bind_ok (get_apply d)).trans ?_)⟩
    rw [hg]
    change onController task d = _
    rw [onController, hs]

/-- A device that is there passes the request on. -/
theorem answer_serve_present {α : Type} {task : Controller.Task H α} (hg : d.gone = false) :
    answer (serve task) d = answer (onController task) d := by
  have hserve : serve task d = onController task d := by
    refine (bind_ok (get_apply d)).trans ?_
    rw [hg]
    rfl
  rw [answer, answer, hserve]

theorem gone_onController {α : Type} (task : Controller.Task H α) (d : Device H) :
    (answer (onController task) d).2.gone = d.gone := by
  rw [answer, onController]
  cases d.stage with
  | waiting => rfl
  | created c => cases h : task c <;> simp only [h]

theorem gone_serve {α : Type} (task : Controller.Task H α) (d : Device H) :
    (answer (serve task) d).2.gone = d.gone := by
  rcases Bool.eq_false_or_eq_true d.gone with hg | hg
  · rw [answer_of_error (serve_gone hg)]
  · rw [answer_serve_present hg, gone_onController]

theorem gone_updateController (f : Controller H → Controller H) (d : Device H) :
    (d.updateController f).gone = d.gone := by
  rw [updateController]
  split <;> rfl

variable [Hardware H]

theorem create_gone (hg : d.gone = true) (room thread : Bool) :
    create room thread d = .error .deviceGone d := by
  refine (bind_ok (get_apply d)).trans ?_
  rw [hg]
  rfl

/-- Creating a scheduler that is there is starting it. -/
theorem answer_create_created (hg : d.gone = false) (hs : d.stage = .created c)
    (room thread : Bool) :
    answer (create room thread) d = ((answer (Controller.start thread) c).1,
      { d with stage := .created (answer (Controller.start thread) c).2 }) := by
  have hcreate : create room thread d = onController (Controller.start thread) d := by
    refine (bind_ok (get_apply d)).trans ?_
    rw [hg, hs]
    rfl
  rw [answer, hcreate, ← answer, answer_onController hs]

/-- A scheduler that comes into being is recorded, and started. -/
theorem answer_create_waiting (hg : d.gone = false) (hs : d.stage = .waiting hw)
    (room thread : Bool) :
    answer (create room thread) d = match Controller.new d.settings hw room with
      | .error e => (.error e, d)
      | .ok c => ((answer (Controller.start thread) (c.record .createScheduler 0)).1,
        { d with stage :=
          .created (answer (Controller.start thread) (c.record .createScheduler 0)).2 }) := by
  have hcreate : create room thread d =
      (reading (fun _ => Controller.new d.settings hw room) >>= fun c => do
        set { d with stage := .created (c.record .createScheduler 0) }
        onController (Controller.start thread)) d := by
    refine (bind_ok (get_apply d)).trans ?_
    rw [hg, hs]
    rfl
  cases hn : Controller.new d.settings hw room with
  | error e =>
    rw [answer, hcreate, bind_error (outcome_of_error hn)]
  | ok c =>
    let made : Device H := { d with stage := .created (c.record .createScheduler 0) }
    have hstart : create room thread d = onController (Controller.start thread) made :=
      hcreate.trans (bind_ok (outcome_of_ok hn))
    rw [answer, hstart, ← answer, answer_onController (d := made) rfl]

end Device

/-- A device, the views that were handed out, the references to domains, and the events that were
given out of the log. -/
structure Deployment (H : Type) where
  device : Device H
  grants : List Grant := []
  held : List DomainId := []
  received : List LogRecord := []

namespace Deployment

/-- A request to the device, or to the controller that was created, which is also reached after the
device is gone. -/
inductive Request where
  | create (room : Bool := true) (thread : Bool := true)
  | addDomain (name : String) (timesliceNs preemptGraceNs : Nat) (room : Registry.Room := {})
  | removeDomain (id : DomainId)
  | openSession (pid : Nat) (writable : Bool)
  | getLog
  | drainLog
  | shutdown
  | close
  | controller (request : System.Request)

variable {H : Type}

def after {α : Type} (p : Deployment H) (task : Device.Task H α) : Deployment H :=
  { p with device := (answer task p.device).2 }

def receive {α : Type} (p : Deployment H) (task : Device.Task H α) (read : α → List LogRecord) :
    Deployment H :=
  let (result, device) := answer task p.device
  let given := match result with
    | .ok x => read x
    | .error _ => []
  { p with device, received := p.received ++ given }

def system (p : Deployment H) (c : Controller H) : System H := ⟨c, p.grants, p.held, p.received⟩

variable [Hardware H]

def perform (p : Deployment H) : Request → Deployment H
  | .create room thread => p.after (Device.create room thread)
  | .addDomain name timesliceNs preemptGraceNs room =>
    p.after (Device.addDomain name timesliceNs preemptGraceNs room)
  | .removeDomain id => p.after (Device.removeDomain id)
  | .openSession pid writable => p.after (Device.openSession pid writable)
  | .getLog => p.receive Device.getLog Option.toList
  | .drainLog => p.receive Device.drainLog id
  | .shutdown => { p with device := p.device.shutdown }
  | .close => { p with device := p.device.close }
  | .controller request =>
    match p.device.stage with
    | .waiting _ => p
    | .created c =>
      let w := (p.system c).perform request
      ⟨{ p.device with stage := .created w.controller }, w.grants, w.held, w.received⟩

def run (p : Deployment H) (requests : List Request) : Deployment H := requests.foldl perform p

theorem run_append (p : Deployment H) (requests later : List Request) :
    p.run (requests ++ later) = (p.run requests).run later := List.foldl_append

def installed {H : Type} (settings : Settings) (hw : H) : Deployment H where
  device := { settings, stage := .waiting hw }

end Deployment

end AcceleratorScheduler
