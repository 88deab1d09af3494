import AcceleratorScheduler.Proofs.Controller.Switching
import AcceleratorScheduler.Proofs.Domain.Requests

/-! Requests to the controller, each with what it leaves. -/
namespace AcceleratorScheduler.Controller

open Hardware (Quiet)

variable {H : Type} {c : Controller H} {id : DomainId}

theorem ensurePresent_gone (hg : c.gone = true) : ensurePresent c = .error .deviceGone c := by
  refine (bind_ok (get_apply c)).trans ?_
  rw [hg]
  rfl

theorem ensurePresent_present (hg : c.gone = false) : ensurePresent c = .ok () c := by
  refine (bind_ok (get_apply c)).trans ?_
  rw [hg]
  rfl

theorem ringDoorbell_present (hg : c.gone = false) :
    ringDoorbell c = .ok () (c.signal fun w => { w with doorbell := true }) :=
  (bind_ok (ensurePresent_present hg)).trans rfl

theorem ringDoorbell_eq_ok {c' : Controller H} (h : ringDoorbell c = .ok () c') :
    c' = c.signal fun w => { w with doorbell := true } := by
  rcases Bool.eq_false_or_eq_true c.gone with hg | hg
  · cases (bind_error (ensurePresent_gone hg)).symm.trans h
  · cases (ringDoorbell_present hg).symm.trans h
    rfl

def posted (c : Controller H) (id : DomainId) : Controller H :=
  { c with
    slots := { c.slots with shadow := some id }
    wake := { c.wake with switchPending := true } }

theorem postSwitch_running (hr : c.state = .running) (hg : c.gone = false)
    (hi : c.registry.isIndexed id = true) : postSwitch id c = .ok () (c.posted id) := by
  refine (bind_ok (ensurePresent_present hg)).trans ?_
  refine (bind_ok (get_apply c)).trans ?_
  rw [if_neg (fun h => h hr)]
  refine (bind_ok (stage_known hi)).trans ?_
  rfl

theorem postSwitch_cases (id : DomainId) (c : Controller H) :
    (∃ e, postSwitch id c = .error e c) ∨
      (c.state = .running ∧ c.gone = false ∧ c.registry.isIndexed id = true ∧
        postSwitch id c = .ok () (c.posted id)) := by
  rcases Bool.eq_false_or_eq_true c.gone with hg | hg
  · exact .inl ⟨_, bind_error (ensurePresent_gone hg)⟩
  by_cases hr : c.state = .running
  · cases hi : c.registry.isIndexed id with
    | true => exact .inr ⟨hr, hg, rfl, postSwitch_running hr hg hi⟩
    | false =>
      refine .inl ⟨.notFound, (bind_ok (ensurePresent_present hg)).trans ?_⟩
      refine (bind_ok (get_apply c)).trans ?_
      rw [if_neg (fun h => h hr)]
      exact bind_error (stage_unknown hi)
  · refine .inl ⟨.invalidArgument, (bind_ok (ensurePresent_present hg)).trans ?_⟩
    refine (bind_ok (get_apply c)).trans ?_
    rw [if_pos hr]
    rfl

variable [Hardware H]

def announce (kind : EventKind) (id : DomainId) (c : Controller H) : Controller H :=
  (c.record kind (eventData id)).signal fun w => { w with reconfigure := true }

/-- A domain is added by the registry; if it is, that is recorded. -/
theorem addDomain_add (name : String) (timesliceNs preemptGraceNs : Nat) (room : Registry.Room)
    (c : Controller H) :
    (∃ e, addDomain name timesliceNs preemptGraceNs room c = .error e c) ∨
    (∃ e r, Registry.add name timesliceNs preemptGraceNs room c.registry = .error e r ∧
      addDomain name timesliceNs preemptGraceNs room c = .error e { c with registry := r }) ∨
    ∃ id r, c.gone = false ∧
      Registry.add name timesliceNs preemptGraceNs room c.registry = .ok id r ∧
      addDomain name timesliceNs preemptGraceNs room c =
        .ok id (announce .createDomain id { c with registry := r }) := by
  rcases Bool.eq_false_or_eq_true c.gone with hg | hg
  · exact .inl ⟨.deviceGone, bind_error (ensurePresent_gone hg)⟩
  have hp := ensurePresent_present hg
  cases ha : Registry.add name timesliceNs preemptGraceNs room c.registry with
  | error e r =>
    exact .inr (.inl ⟨e, r, rfl, (bind_ok hp).trans (bind_error (onRegistry_error ha))⟩)
  | ok id r =>
    refine .inr (.inr ⟨id, r, hg, rfl, (bind_ok hp).trans ?_⟩)
    exact (bind_ok (onRegistry_ok ha)).trans rfl

theorem addDomain_cases (name : String) (timesliceNs preemptGraceNs : Nat) (room : Registry.Room)
    (c : Controller H) :
    (∃ e hw, Quiet c.registry.hardware hw ∧ addDomain name timesliceNs preemptGraceNs room c =
      .error e { c with registry := { c.registry with hardware := hw } }) ∨
    ∃ subs hw, c.gone = false ∧ Quiet c.registry.hardware hw ∧
      addDomain name timesliceNs preemptGraceNs room c =
        .ok (c.registry.lastId + 1) (announce .createDomain (c.registry.lastId + 1)
          { c with
            registry := c.registry.extended hw
              ⟨c.registry.lastId + 1, name, timesliceNs, preemptGraceNs, 1, subs⟩ }) := by
  have hadd := Registry.add_cases name timesliceNs preemptGraceNs room c.registry
  rcases addDomain_add name timesliceNs preemptGraceNs room c with
    ⟨e, he⟩ | ⟨e, r, ha, he⟩ | ⟨id, r, hg, ha, he⟩
  · exact .inl ⟨e, _, .refl, he⟩
  · obtain ⟨_, hw, hq, hr⟩ | ⟨_, _, -, -, -, hr⟩ := hadd
    · cases ha.symm.trans hr
      exact .inl ⟨e, hw, hq, he⟩
    · cases ha.symm.trans hr
  · obtain ⟨_, _, -, hr⟩ | ⟨subs, hw, hq, -, -, hr⟩ := hadd
    · cases ha.symm.trans hr
    · cases ha.symm.trans hr
      exact .inr ⟨subs, hw, hg, hq, he⟩

theorem removeDomain_cases (id : DomainId) (c : Controller H) :
    (∃ e, removeDomain id c = .error e c) ∨
      ∃ d, c.gone = false ∧ c.registry.registered? id = some d ∧ c.slots.references id = false ∧
        d.refs ≤ 1 ∧ removeDomain id c = .ok () (announce .removeDomain id
          { c with registry := c.registry.unregistered d }) := by
  rcases Bool.eq_false_or_eq_true c.gone with hg | hg
  · exact .inl ⟨.deviceGone, bind_error (ensurePresent_gone hg)⟩
  have hp := ensurePresent_present hg
  rcases Registry.remove_cases id c.slots c.registry with ⟨e, hr⟩ | ⟨d, hd, hs, hle, hr⟩
  · refine .inl ⟨e, (bind_ok hp).trans ((bind_ok (get_apply c)).trans ?_)⟩
    exact bind_error (onRegistry_error hr)
  · refine .inr ⟨d, hg, hd, hs, hle, (bind_ok hp).trans ((bind_ok (get_apply c)).trans ?_)⟩
    exact (bind_ok (onRegistry_ok hr)).trans rfl

omit [Hardware H] in
theorem report_awaited (h : c.state = .initializing) :
    c.report (.ok ()) = { c with state := .running } :=
  if_pos h

omit [Hardware H] in
/-- A report that nobody waits for any more. -/
theorem report_late (h : c.state ≠ .initializing) (result : Except Refusal Unit) :
    c.report result = c := by
  cases result with
  | ok => exact if_neg h
  | error => rfl

def launched (c : Controller H) (hw : H) : StartOutcome → Controller H
  | .ready => { c with
      registry := { c.registry with hardware := hw }, wake := {}
      state := .running, hasWorker := true }
  | .failed _ => { c with
      registry := { c.registry with hardware := hw }, wake := {}, state := .stopped }
  | .hung => { c with
      registry := { c.registry with hardware := hw }, wake := {}
      state := .stopped, hasWorker := true, initFailed := true }

omit [Hardware H] in
theorem registry_launched (c : Controller H) (hw : H) (outcome : StartOutcome) :
    (c.launched hw outcome).registry = { c.registry with hardware := hw } := by
  cases outcome <;> rfl

def unspawned (c : Controller H) : Controller H := { c with wake := {}, state := .stopped }

def startAnswer : StartOutcome → Except Refusal Unit
  | .ready => .ok ()
  | .failed refusal => .error refusal
  | .hung => .error .initTimeout

/-- How a start is answered: whether the controller is gone is asked first, then whether a start
timed out before, then whether there is a worker. If there is none a thread is asked for, and then
the start hook decides. -/
theorem answer_start (thread : Bool) (c : Controller H) : answer (start thread) c =
    if c.gone then (.error .deviceGone, c)
    else if c.initFailed then (.error .initTimeout, c)
    else if c.hasWorker then (.ok (), c)
    else if thread then (startAnswer (Hardware.startWorker c.registry.hardware).1,
      c.launched (Hardware.startWorker c.registry.hardware).2
        (Hardware.startWorker c.registry.hardware).1)
    else (.error .outOfMemory, c.unspawned) := by
  rcases Bool.eq_false_or_eq_true c.gone with hg | hg
  · rw [if_pos hg]
    exact answer_of_error (bind_error (ensurePresent_gone hg))
  rw [hg, if_neg Bool.false_ne_true, answer, start, bind_ok (ensurePresent_present hg),
    bind_ok (get_apply c)]
  rcases Bool.eq_false_or_eq_true c.initFailed with hf | hf
  · rw [hf]
    rfl
  rcases Bool.eq_false_or_eq_true c.hasWorker with hw | hw
  · rw [hf, hw]
    rfl
  have hf' : ¬ c.initFailed = true := by rw [hf]; exact Bool.false_ne_true
  have hw' : ¬ c.hasWorker = true := by rw [hw]; exact Bool.false_ne_true
  cases thread with
  | false =>
    rw [if_neg hf', if_neg hw', if_neg hf', if_neg hw']
    rfl
  | true =>
    rw [if_neg hf', if_neg hw', if_neg hf', if_neg hw', if_pos rfl, Bool.not_true,
      if_neg Bool.false_ne_true]
    simp only [runStartHook]
    cases (Hardware.startWorker c.registry.hardware).1 with
    | ready =>
      let waiting : Controller H := { c with
        registry := { c.registry with hardware := (Hardware.startWorker c.registry.hardware).2 }
        wake := {}, state := .initializing }
      have hr : waiting.report (.ok ()) = { waiting with state := .running } := report_awaited rfl
      exact congrArg (fun c : Controller H => (Except.ok (), { c with hasWorker := true })) hr
    | failed => rfl
    | hung => rfl

/-- A start changes nothing, finds no thread, or runs the start hook. -/
theorem start_cases (thread : Bool) (c : Controller H) : (answer (start thread) c).2 = c ∨
    (c.gone = false ∧ c.initFailed = false ∧ c.hasWorker = false ∧
      (thread = false ∧ (answer (start thread) c).2 = c.unspawned ∨
        thread = true ∧ ∃ outcome hw, Hardware.startWorker c.registry.hardware = (outcome, hw) ∧
          (answer (start thread) c).2 = c.launched hw outcome)) := by
  rw [answer_start]
  split
  next => exact .inl rfl
  next hg =>
    split
    next => exact .inl rfl
    next hf =>
      split
      next => exact .inl rfl
      next hw =>
        rw [Bool.not_eq_true] at hg hf hw
        refine .inr ⟨hg, hf, hw, ?_⟩
        cases thread with
        | true => exact .inr ⟨rfl, _, _, rfl, rfl⟩
        | false => exact .inl ⟨rfl, rfl⟩

theorem quiet_start {outcome : StartOutcome} {hw : H}
    (hs : Hardware.startWorker c.registry.hardware = (outcome, hw)) :
    Quiet c.registry.hardware hw := by
  have hq : Quiet c.registry.hardware (Hardware.startWorker c.registry.hardware).2 :=
    Quiet.refl.startWorker
  rwa [hs] at hq

end AcceleratorScheduler.Controller
