import AcceleratorScheduler.Proofs.Controller.Systems

/-! How far the worker has come: its state, whether it was joined, whether a start timed out, and
whether the controller is gone. Only starting, stopping and tearing down change any of it, and the
state follows from the rest (`regular_run`). -/
namespace AcceleratorScheduler

namespace Controller

variable {H : Type} {c c' : Controller H}

/-- What decides over starts and stops, and what they decide. -/
structure Vitals where
  state : WorkerState
  hasWorker : Bool
  initFailed : Bool
  gone : Bool
  deriving DecidableEq

def vitals (c : Controller H) : Vitals := ⟨c.state, c.hasWorker, c.initFailed, c.gone⟩

theorem vitals_of_fixed (h : c'.fixed = c.fixed) : c'.vitals = c.vitals :=
  congrArg (vitals (H := Unit)) h

/-- The worker runs if there is one, unless it never became ready. -/
def Regular (c : Controller H) : Prop :=
  c.state = if c.hasWorker && !c.initFailed then .running else .stopped

theorem Regular.of_vitals (h : c.Regular) (hv : c'.vitals = c.vitals) : c'.Regular := by
  obtain ⟨hs, hw, hf, -⟩ : c'.state = c.state ∧ c'.hasWorker = c.hasWorker ∧
      c'.initFailed = c.initFailed ∧ c'.gone = c.gone := by
    simpa only [vitals, Vitals.mk.injEq] using hv
  rw [Regular, hs, hw, hf]
  exact h

theorem Regular.state_ne (h : c.Regular) : c.state ≠ .initializing := by
  rw [h]
  split <;> nofun

theorem Regular.stopped (h : c.Regular) (hw : c.hasWorker = false) : c.state = .stopped := by
  rw [h, hw]
  rfl

/-- After a start that failed or hung, or a stop, no worker runs. -/
theorem Regular.launched (hf : c.initFailed = false) (hw : c.hasWorker = false) (hardware : H)
    (outcome : StartOutcome) : (c.launched hardware outcome).Regular := by
  cases outcome with
  | ready =>
    rw [Regular, Controller.launched, hf]
    rfl
  | failed =>
    rw [Regular, Controller.launched, hw]
    rfl
  | hung => rfl

theorem Regular.unspawned (hw : c.hasWorker = false) : c.unspawned.Regular := by
  rw [Regular, Controller.unspawned, hw]
  rfl

theorem Regular.stop (h : c.Regular) : c.stop.Regular := by
  rw [Controller.stop]
  split
  · rfl
  · exact h

theorem state_stop (h : c.Regular) : c.stop.state = .stopped := by
  rw [Controller.stop]
  split
  · rfl
  next hw => exact h.stopped (Bool.not_eq_true _ ▸ hw)

variable [Hardware H]

theorem Regular.tearDown (h : c.Regular) : c.tearDown.Regular := by
  rw [Controller.tearDown]
  split
  · exact h
  · exact Regular.stop (c := { c with gone := true }) h

theorem regular_new {settings : Settings} {hardware : H}
    (hc : new settings hardware = .ok c) : c.Regular := by
  obtain ⟨_, -, hc⟩ := of_bind_eq_ok hc
  obtain ⟨log, -, hc⟩ := of_bind_eq_ok hc
  cases hc
  rfl

theorem fixed_switchTo (target : Option DomainId) (c : Controller H) :
    (answer (switchTo target) c).2.fixed = c.fixed := by
  have ho := switchTo_outcome target c
  rw [answer]
  generalize switchTo target c = result at ho ⊢
  cases ho with
  | unknown | missing | rejected => rfl
  | accepted => exact fixed_record _ _

theorem fixed_handleRequest (slot : Slot) (c : Controller H) :
    (c.handleRequest slot).2.fixed = c.fixed := by
  rw [handleRequest]
  cases Request.decode slot with
  | error => rfl
  | ok request =>
    cases request with
    | ping => rfl
    | switchDomain _ id => exact fixed_switchTo (some id.toNat) c

theorem fixed_drainUpTo (fuel : Nat) (c : Controller H) : (c.drainUpTo fuel).fixed = c.fixed :=
  drainUpTo_induction (P := fun c' => c'.fixed = c.fixed)
    (fun role operation _ h => (fixed_onBuffer role operation).trans h)
    (fun slot h => (fixed_handleRequest slot _).trans h) fuel rfl

/-- A worker that wakes forgets what it was woken for, and leaves the rest as it is. -/
theorem fixed_settle (c : Controller H) :
    c.settle.fixed = c.fixed ∨ c.settle.fixed = { c.fixed with wake := {} } := by
  rw [settle]
  split
  next =>
    have hd : ({ c with wake := {} } : Controller H).drainRequests.fixed =
        { c.fixed with wake := {} } := fixed_drainUpTo _ _
    rw [work]
    split
    · exact .inr ((fixed_switchTo none _).trans hd)
    · exact .inr hd
  next => exact .inl rfl

theorem vitals_settle (c : Controller H) : c.settle.vitals = c.vitals := by
  rcases fixed_settle c with h | h
  · exact vitals_of_fixed h
  · exact congrArg (vitals (H := Unit)) h

end Controller

namespace System

variable {H : Type} [Hardware H] {w w' : System H} {r : Request}

def Request.governs : Request → Bool
  | .start _ | .stop | .tearDown => true
  | _ => false

theorem vitals_perform (w : System H) (hr : r.governs = false) :
    (w.perform r).controller.vitals = w.controller.vitals := by
  cases r with
  | addDomain name timesliceNs preemptGraceNs room =>
    rw [perform, after]
    rcases Controller.addDomain_add name timesliceNs preemptGraceNs room w.controller with
      ⟨e, he⟩ | ⟨e, r, -, he⟩ | ⟨id, r, -, -, he⟩
    · rw [answer_of_error he]
    · rw [answer_of_error he]
      rfl
    · rw [answer_of_ok he]
      rfl
  | removeDomain id =>
    rw [perform, after]
    rcases Controller.removeDomain_cases id w.controller with ⟨e, he⟩ | ⟨d, -, -, -, -, he⟩
    · rw [answer_of_error he]
    · rw [answer_of_ok he]
      rfl
  | lookupId id =>
    rw [perform, refer, Controller.onRegistry]
    cases Registry.lookupId id w.controller.registry <;> rfl
  | lookupName name =>
    rw [perform, refer, Controller.onRegistry]
    cases Registry.lookupName name w.controller.registry <;> rfl
  | copy id | giveBack id =>
    rw [perform]
    split <;> rfl
  | postSwitch id =>
    rw [perform, after]
    rcases Controller.postSwitch_cases id w.controller with ⟨e, he⟩ | ⟨-, -, -, he⟩
    · rw [answer_of_error he]
    · rw [answer_of_ok he]
      rfl
  | ringDoorbell =>
    obtain ⟨-, -, _, _, hc⟩ : w.Aside (w.after Controller.ringDoorbell) :=
      aside_guarded ⟨rfl, rfl, _, _, rfl⟩
    rw [perform, hc]
    rfl
  | session s request =>
    obtain ⟨-, -, _, _, hc⟩ := aside_performSession (w := w) s request
    rw [perform, hc]
    rfl
  | arbiter | logEvent | takeEvent | drainEvents => rfl
  | start | stop | tearDown => cases hr
  | settle => exact Controller.vitals_settle w.controller
  | elapse =>
    rw [perform, Controller.elapse]
    split
    · exact Controller.vitals_of_fixed (Controller.fixed_drainUpTo _ _)
    · rfl
  | serve rounds =>
    rw [perform]
    split
    · exact Controller.vitals_of_fixed (Controller.fixed_drainUpTo _ _)
    · rfl

theorem regular_start (h : w.controller.Regular) (thread : Bool) :
    (w.after (Controller.start thread)).controller.Regular := by
  rw [after]
  rcases Controller.start_cases thread w.controller with hr |
    ⟨-, hf, hw, ⟨-, hr⟩ | ⟨-, outcome, hardware, -, hr⟩⟩
  · rw [hr]
    exact h
  · rw [hr]
    exact .unspawned hw
  · rw [hr]
    exact .launched hf hw hardware outcome

theorem regular_perform (h : w.controller.Regular) (r : Request) :
    (w.perform r).controller.Regular := by
  cases hr : r.governs with
  | false => exact h.of_vitals (vitals_perform w hr)
  | true =>
    cases r with
    | start thread => exact regular_start h thread
    | stop => exact h.stop
    | tearDown => exact h.tearDown
    | _ => cases hr

theorem regular_run (h : w.controller.Regular) (requests : List Request) :
    (w.run requests).controller.Regular := by
  induction requests generalizing w with
  | nil => exact h
  | cons r requests ih => exact ih (regular_perform h r)

end System

end AcceleratorScheduler
