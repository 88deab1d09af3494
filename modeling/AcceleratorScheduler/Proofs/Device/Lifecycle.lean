import AcceleratorScheduler.Hardware.Simulation
import AcceleratorScheduler.Proofs.Controller.Turns
import AcceleratorScheduler.Proofs.Device.Relays

/-! The life of the worker of a device, whatever its starts come to. Workers that come up after
their start was given up report late, and nothing comes of it (`play_eq_run`). Main statement:
`worker_lifecycle`. -/
namespace AcceleratorScheduler

/-- What the turns of a worker say of its state, and of the start to come. -/
structure Controller.Lifecycle {H : Type} [Hardware H] (turns : List Turn) (c : Controller H) :
    Prop where
  /-- A worker runs just if the last one that was spawned came up and nothing has ended it since. -/
  state : c.state = if turns.getLast? = some (.spawned .ready) then .running else .stopped
  /-- After a start that timed out no worker runs any more. -/
  hung : .spawned .hung ∈ turns → c.state = .stopped
  /-- A worker that runs is left alone. Otherwise one is spawned, and the start is answered as its
  hook went, unless a start timed out before or the controller was torn down. A hook that fails in
  time has not timed out, whatever error it gives, and where there is no thread nothing was
  started. -/
  start (thread : Bool) : answer (Controller.start thread) c =
    if .tornDown ∈ turns then (.error .deviceGone, c)
    else if .spawned .hung ∈ turns then (.error .initTimeout, c)
    else if c.state = .running then (.ok (), c)
    else if thread then (startAnswer (Hardware.startWorker c.registry.hardware).1,
      c.launched (Hardware.startWorker c.registry.hardware).2
        (Hardware.startWorker c.registry.hardware).1)
    else (.error .outOfMemory, c.unspawned)

/-- How a device answers whoever creates its scheduler. -/
structure Device.Creates {H : Type} [Hardware H] (d : Device H) (room thread : Bool) : Prop where
  gone : d.gone = true → answer (create room thread) d = (.error .deviceGone, d)
  /-- Nothing comes of settings that are not valid, or of a log for which there is no memory. -/
  refused (hw : H) (e : Refusal) : d.gone = false → d.stage = .waiting hw →
    Controller.new d.settings hw room = .error e → answer (create room thread) d = (.error e, d)
  /-- The start decides, and so its hook does if there is a thread. -/
  first (hw : H) (c : Controller H) : d.gone = false → d.stage = .waiting hw →
    Controller.new d.settings hw room = .ok c → (answer (create room thread) d).1 =
      if thread then Controller.startAnswer
        (Hardware.startWorker (c.record .createScheduler 0).registry.hardware).1
      else .error .outOfMemory
  /-- A scheduler that is there is started once more. -/
  again (c : Controller H) : d.gone = false → d.controller? = some c →
    answer (create room thread) d = ((answer (Controller.start thread) c).1,
      { d with stage := .created (answer (Controller.start thread) c).2 })

namespace System

variable {H : Type} {w : System H} {r : Request} {requests : List Request}

/-- Whether the request leaves it to the device to tell of the creation of the scheduler. -/
def Request.Truthful : Request → Prop
  | .logEvent kind _ => kind ≠ .createScheduler
  | _ => True

theorem Request.Truthful.kind_ne (hr : r.Truthful) {act : Act} (ha : r.Asks act) {event : Event}
    (he : act.event? = some event) : event.kind ≠ .createScheduler := by
  have hserving (h : Serving act) : event.kind ≠ .createScheduler := by
    cases h with
    | queue => cases he
    | notice hk =>
      cases he
      exact hk
  cases r with
  | session s request =>
    obtain ⟨op, -, rfl⟩ := ha
    cases he
  | arbiter | tearDown =>
    cases ha
    cases he
  | logEvent kind data =>
    obtain ⟨timestamp, rfl⟩ := ha
    cases he
    exact hr
  | _ => exact hserving ha

/-- The creation of the scheduler was recorded once, before everything else. -/
def CreatedOnce (w : System H) : Prop :=
  ∃ first rest, w.Journal (first :: rest) ∧ first.entry = (.createScheduler, 0) ∧
    ∀ event ∈ rest, event.kind ≠ .createScheduler

theorem CreatedOnce.run [Hardware H] (h : w.CreatedOnce) (hr : ∀ r ∈ requests, r.Truthful) :
    (w.run requests).CreatedOnce := by
  obtain ⟨first, rest, hj, hfirst, hrest⟩ := h
  obtain ⟨-, acts, hacts, -, hnext⟩ := does_run w requests
  refine ⟨first, rest ++ acts.filterMap Act.event?, hnext _ hj, hfirst, fun event he => ?_⟩
  rcases List.mem_append.mp he with he | he
  · exact hrest event he
  · obtain ⟨act, hact, he⟩ := List.mem_filterMap.mp he
    obtain ⟨r, hm, ha⟩ := hacts act hact
    exact (hr r hm).kind_ne ha he

end System

namespace Deployment

variable {H : Type} [Hardware H]

/-- What happens to a device: a request, or a worker that reports how its start hook went, however
late that is. -/
inductive Move where
  | request (r : Request)
  | report (result : Except Refusal Unit)

def Move.request? : Move → Option Request
  | request r => some r
  | report _ => none

def Move.Truthful : Move → Prop
  | request r => r.relayed.Truthful
  | report _ => True

def move (p : Deployment H) : Move → Deployment H
  | .request r => p.perform r
  | .report result => { p with device := p.device.updateController (Controller.report result) }

def play (p : Deployment H) (moves : List Move) : Deployment H := moves.foldl move p

def calls (p : Deployment (Recorded H)) : List HardwareCall := p.device.hardware.calls

def turns (p : Deployment (Recorded H)) : Move → List Turn
  | .request r => Turn.spawns p.calls (p.perform r).calls ++
      if p.system?.isSome then r.relayed.ending else []
  | .report _ => []

def history (p : Deployment (Recorded H)) : List Move → List Turn
  | [] => []
  | m :: moves => p.turns m ++ (p.move m).history moves

variable {p : Deployment (Recorded H)} {w : System (Recorded H)} {c : Controller (Recorded H)}
  {settings : Settings} {hw : Recorded H} {past : List Turn}

omit [Hardware H] in
theorem calls_of_system? (h : p.system? = some w) : p.calls = w.calls := by
  obtain ⟨c, hs, rfl⟩ := system?_eq_some.mp h
  rw [calls, Device.hardware, hs]
  rfl

inductive Followed (settings : Settings) (hw : Recorded H) :
    List Turn → Deployment (Recorded H) → Prop
  | waiting {p : Deployment (Recorded H)} (h : Waiting settings hw p) : Followed settings hw [] p
  | created {p : Deployment (Recorded H)} {past : List Turn} {w : System (Recorded H)}
      (hs : p.system? = some w) (ht : w.controller.Told past)
      (hg : p.device.gone = true → .tornDown ∈ past) : Followed settings hw past p

theorem told_logged (hc : Controller.new settings hw = .ok c) :
    (logged c).controller.Told [] := by
  let fresh : System (Recorded H) := { controller := c }
  have h := System.told_perform (w := fresh) (Controller.Told.new hc) (.logEvent .createScheduler 0)
  rwa [System.turns_of_ne_start fresh (.logEvent .createScheduler 0) nofun] at h

theorem told_born (hc : Controller.new settings hw = .ok c) (thread : Bool) :
    (born c thread).controller.Told (Turn.spawns hw.calls (born c thread).calls) := by
  have hcalls : starts hw.calls = starts (logged c).calls := by
    obtain ⟨_, -, hc⟩ := of_bind_eq_ok hc
    obtain ⟨log, -, hc⟩ := of_bind_eq_ok hc
    cases hc
    rfl
  have hturns : (logged c).turns (.start thread) = Turn.spawns hw.calls (born c thread).calls :=
    (List.append_nil _).trans (Turn.spawns_congr hcalls.symm _)
  have hstart := System.told_perform (told_logged hc) (.start thread)
  rwa [hturns] at hstart

theorem Followed.request (h : Followed settings hw past p) (r : Request) :
    Followed settings hw (past ++ p.turns (.request r)) (p.perform r) := by
  cases h with
  | waiting h =>
    rw [turns, h.system?]
    have hbefore : p.calls = hw.calls := by
      rw [calls, Device.hardware, h.stage]
    rcases h.perform r with hwait | ⟨thread, c, -, hg, hc, hs⟩
    · have hafter : (p.perform r).calls = hw.calls := by
        rw [calls, Device.hardware, hwait.stage]
      rw [hbefore, hafter, Turn.spawns_same rfl]
      exact .waiting hwait
    · rw [hbefore, calls_of_system? hs]
      refine .created hs ?_ fun hgone => by cases hgone.symm.trans hg
      simpa using told_born hc thread
  | @created _ _ w hs ht hg =>
    have hs' := system?_perform hs r
    have hgone : (p.perform r).device.gone = true → .tornDown ∈ past ++ p.turns (.request r) := by
      intro h
      rcases (gone_perform p r).mp h with h | rfl
      · exact List.mem_append_left _ (hg h)
      · simp [turns, hs, Request.relayed, System.Request.ending]
    refine .created hs' ?_ hgone
    rw [turns, hs, calls_of_system? hs, calls_of_system? hs']
    split
    next hturned =>
      rw [Turn.spawns_same rfl]
      rw [Bool.and_eq_true] at hturned
      exact ht.ending_gone (ht.gone.mpr (hg hturned.1)) r.relayed
    next => exact System.told_perform ht r.relayed

/-- A report comes too late: whoever waited for it has given up. -/
theorem Followed.report (h : Followed settings hw past p) (result : Except Refusal Unit) :
    p.move (.report result) = p := by
  have hkeep (hd : p.device.updateController (Controller.report result) = p.device) :
      p.move (.report result) = p := by rw [move, hd]
  refine hkeep ?_
  cases h with
  | waiting h => rw [Device.updateController, h.stage]
  | created hs ht hg =>
    obtain ⟨c, hstage, rfl⟩ := system?_eq_some.mp hs
    have hlate : c.report result = c := Controller.report_late ht.regular.state_ne result
    rw [Device.updateController, hstage]
    simp only [hlate, ← hstage]

theorem Followed.move (h : Followed settings hw past p) (m : Move) :
    Followed settings hw (past ++ p.turns m) (p.move m) := by
  cases m with
  | request r => exact h.request r
  | report result =>
    rw [h.report result, turns, List.append_nil]
    exact h

theorem Followed.play (h : Followed settings hw past p) (moves : List Move) :
    Followed settings hw (past ++ p.history moves) (p.play moves) := by
  induction moves generalizing p past with
  | nil => rwa [history, List.append_nil]
  | cons m moves ih =>
    rw [history, ← List.append_assoc]
    exact ih (h.move m)

/-- Late reports make no difference. -/
theorem Followed.play_eq_run (h : Followed settings hw past p) (moves : List Move) :
    p.play moves = p.run (moves.filterMap Move.request?) := by
  induction moves generalizing p past with
  | nil => rfl
  | cons m moves ih =>
    have hrest : (p.move m).play moves = (p.move m).run (moves.filterMap Move.request?) :=
      ih (h.move m)
    cases m with
    | request r => exact hrest
    | report result =>
      rw [h.report result] at hrest
      rw [Deployment.play, List.foldl_cons, h.report result]
      exact hrest

/-- The creation of the scheduler is the first event, and as long as nobody else claims it the only
one of its kind. -/
theorem createdOnce_born (hc : Controller.new settings hw = .ok c) (thread : Bool)
    {relayed : List System.Request} (hr : ∀ r ∈ relayed, r.Truthful) :
    ((born c thread).run relayed).CreatedOnce := by
  obtain ⟨event, hevent, hj⟩ := journal_logged hc
  have hlogged : (logged c).CreatedOnce := ⟨event, [], hj, hevent, nofun⟩
  have hstart : ∀ r ∈ .start thread :: relayed, r.Truthful :=
    List.forall_mem_cons.mpr ⟨trivial, hr⟩
  exact hlogged.run hstart

theorem Followed.lifecycle (h : Followed settings hw past p) (hs : p.system? = some w) :
    w.controller.Lifecycle past := by
  cases h with
  | waiting h => cases h.system?.symm.trans hs
  | created hs' ht hg =>
    cases hs'.symm.trans hs
    exact ⟨ht.state, ht.stopped_of_hung, ht.answer_start⟩

theorem creates (d : Device (Recorded H)) (room thread : Bool) : d.Creates room thread where
  gone hg := answer_of_error (Device.create_gone hg room thread)
  refused hardware e hg hs he := by rw [Device.answer_create_waiting hg hs, he]
  first hardware c hg hs hc := by
    have hlogged := told_logged (Controller.new_of_room hc)
    have hstart := hlogged.answer_start thread
    rw [if_neg List.not_mem_nil, if_neg List.not_mem_nil,
      if_neg (by rw [hlogged.state]; nofun)] at hstart
    rw [Device.answer_create_waiting hg hs, hc]
    refine (congrArg Prod.fst hstart).trans ?_
    cases thread <;> rfl
  again c hg hc := by
    cases hs : d.stage with
    | waiting =>
      rw [Device.controller?, hs] at hc
      cases hc
    | created =>
      rw [Device.controller?, hs] at hc
      cases hc
      exact Device.answer_create_created hg hs room thread

/-- Whatever is asked of a device, however its starts come out, and whenever workers report that
were given up: whether the worker runs, and how a start is answered, follows from the turns of the
run. A scheduler is created by starting it, as often as that is tried, and its creation is recorded
in the event log once. -/
theorem worker_lifecycle (settings : Settings) (hw : H) (moves : List Move) :
    let start := installed settings ({ hardware := hw } : Recorded H)
    let p := start.play moves
    (∀ room thread, p.device.Creates room thread) ∧
      ∀ w, p.system? = some w → w.controller.Lifecycle (start.history moves) ∧
        ((∀ m ∈ moves, m.Truthful) → w.CreatedOnce) := by
  intro start p
  have hstart : Waiting settings { hardware := hw } start := waiting_installed _ _
  have hp : Followed settings { hardware := hw } (start.history moves) p := by
    simpa using (Followed.waiting hstart).play moves
  refine ⟨creates p.device, fun w hw' => ⟨hp.lifecycle hw', fun hm => ?_⟩⟩
  have hrun := (Followed.waiting hstart).play_eq_run moves
  rcases hstart.run (moves.filterMap Move.request?) with
    h | ⟨thread, made, relayed, hnew, hp, hall, -⟩
  · rw [← hrun] at h
    cases h.system?.symm.trans hw'
  · have htruthful : ∀ r ∈ relayed, r.Truthful := fun r hr => by
      obtain ⟨request, hrequest, rfl⟩ := hall r hr
      obtain ⟨m, hmem, hmove⟩ := List.mem_filterMap.mp hrequest
      cases m with
      | request r =>
        cases hmove
        exact hm _ hmem
      | report => cases hmove
    rw [← hrun] at hp
    cases hp.symm.trans hw'
    exact createdOnce_born hnew thread htruthful

/-- There is no thread for the first start, the second one fails, and the third one goes well. The
worker is stopped, and the next one hangs and reports when nobody waits any more. -/
private def faltering : List Move :=
  [.request (.create true false), .request .create, .request .create, .request .create,
    .request .close, .request .create, .report (.ok ()), .request .close, .request .create]

theorem worker_lifecycle_faltering :
    let start := installed {} ({ hardware :=
      { starts := [.failed .outOfMemory, .ready, .hung] } } : Recorded Bench)
    start.history faltering = [.spawned (.failed .outOfMemory), .spawned .ready, .stopped,
      .spawned .hung, .stopped] ∧
    ∃ w, (start.play faltering).system? = some w ∧ w.controller.state = .stopped ∧
      answer Controller.start w.controller = (.error .initTimeout, w.controller) ∧
      w.controller.log.kept.map Event.entry = [(.createScheduler, 0)] ∧ w.CreatedOnce := by
  intro start
  have hturns : start.history faltering = [.spawned (.failed .outOfMemory), .spawned .ready,
      .stopped, .spawned .hung, .stopped] := by decide +kernel
  have hmade : ((start.play faltering).system?.map fun w => w.controller.log.kept.map Event.entry) =
      some [(.createScheduler, 0)] := by decide +kernel
  obtain ⟨w, hw, hkept⟩ := Option.map_eq_some_iff.mp hmade
  obtain ⟨hlife, honce⟩ := (worker_lifecycle {}
    ({ starts := [.failed .outOfMemory, .ready, .hung] } : Bench) faltering).2 w hw
  have hanswer := hlife.start true
  rw [hturns] at hanswer
  refine ⟨hturns, w, hw, hlife.hung ?_, hanswer, hkept, honce ?_⟩
  · rw [hturns]
    decide
  · simp [faltering, Move.Truthful, Request.relayed, System.Request.Truthful]

end Deployment

end AcceleratorScheduler
