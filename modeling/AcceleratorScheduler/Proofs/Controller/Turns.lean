import AcceleratorScheduler.Proofs.Controller.Ending
import AcceleratorScheduler.Proofs.Controller.Upkeep

/-! What the life of the worker turns on: the starts that spawned one, as the hardware saw them, the
stops, and the teardown. The state of the controller follows from them, and so does what a start is
answered; main statements: `told_perform`, `Told.answer_start`. -/
namespace AcceleratorScheduler

inductive Turn where
  /-- A worker was spawned, and its start hook went this way. -/
  | spawned (outcome : StartOutcome)
  | stopped
  | tornDown
  deriving DecidableEq

/-- The starts that the hardware saw between two records of its calls. -/
def Turn.spawns (before after : List HardwareCall) : List Turn :=
  ((starts after).drop (starts before).length).map .spawned

theorem Turn.spawns_same {before after : List HardwareCall} (h : starts after = starts before) :
    spawns before after = [] := by
  rw [spawns, h, List.drop_length]
  rfl

theorem Turn.spawns_congr {before before' : List HardwareCall} (h : starts before = starts before')
    (after : List HardwareCall) : spawns before after = spawns before' after := by
  rw [spawns, h, spawns]

theorem Turn.spawns_concat (calls : List HardwareCall) (outcome : StartOutcome) :
    spawns calls (calls ++ [.startWorker outcome]) = [.spawned outcome] := by
  rw [spawns, starts_append, List.drop_left]
  rfl

namespace Controller

variable {H : Type} {c c' : Controller H} {turns : List Turn}

/-- The worker is where its last turn left it. A start that timed out is never forgotten, and
neither is the teardown. -/
structure Told (turns : List Turn) (c : Controller H) : Prop where
  regular : c.Regular
  state : c.state = if turns.getLast? = some (.spawned .ready) then .running else .stopped
  failed : c.initFailed = true ↔ .spawned .hung ∈ turns
  gone : c.gone = true ↔ .tornDown ∈ turns
  ended : c.gone = true → c.state = .stopped

namespace Told

theorem of_vitals (h : c.Told turns) (hv : c'.vitals = c.vitals) : c'.Told turns := by
  obtain ⟨hs, -, hf, hg⟩ : c'.state = c.state ∧ c'.hasWorker = c.hasWorker ∧
      c'.initFailed = c.initFailed ∧ c'.gone = c.gone := by
    simpa only [vitals, Vitals.mk.injEq] using hv
  exact
    { regular := h.regular.of_vitals hv
      state := hs.trans h.state
      failed := hf ▸ h.failed
      gone := hg ▸ h.gone
      ended := by
        rw [hs, hg]
        exact h.ended }

theorem launched (h : c.Told turns) (hg : c.gone = false) (hf : c.initFailed = false)
    (hw : c.hasWorker = false) (hardware : H) (outcome : StartOutcome) :
    (c.launched hardware outcome).Told (turns ++ [.spawned outcome]) := by
  have hnotHung : .spawned .hung ∉ turns := fun hm => by cases (h.failed.mpr hm).symm.trans hf
  have hnotGone : .tornDown ∉ turns := fun hm => by cases (h.gone.mpr hm).symm.trans hg
  have hregular := Regular.launched hf hw hardware outcome
  cases outcome <;>
    exact
      { regular := hregular
        state := by simp [Controller.launched]
        failed := by simp [Controller.launched, hf, hnotHung]
        gone := by simp [Controller.launched, hg, hnotGone]
        ended := fun hgone => by cases hgone.symm.trans hg }

/-- Where there was no thread, no worker ran before either. -/
theorem unspawned (h : c.Told turns) (hw : c.hasWorker = false) : c.unspawned.Told turns := by
  refine h.of_vitals ?_
  rw [vitals, vitals, h.regular.stopped hw]
  rfl

/-- A turn after which no worker runs. -/
theorem ending (h : c.Told turns) {turn : Turn} (ht : ∀ outcome, turn ≠ .spawned outcome)
    (hregular : c'.Regular) (hs : c'.state = .stopped) (hf : c'.initFailed = c.initFailed)
    (hg : c'.gone = true ↔ c.gone = true ∨ turn = .tornDown) : c'.Told (turns ++ [turn]) where
  regular := hregular
  state := by
    rw [hs, List.getLast?_concat, if_neg]
    simpa using ht .ready
  failed := by
    rw [hf, h.failed, List.mem_append, List.mem_singleton, or_iff_left (ht .hung).symm]
  gone := by rw [hg, h.gone, List.mem_append, List.mem_singleton, eq_comm]
  ended _ := hs

theorem stop (h : c.Told turns) : c.stop.Told (turns ++ [.stopped]) := by
  refine h.ending nofun h.regular.stop (state_stop h.regular) ?_ ?_
  · rw [Controller.stop]
    split <;> rfl
  · rw [gone_stop]
    simp

variable [Hardware H]

theorem tearDown (h : c.Told turns) : c.tearDown.Told (turns ++ [.tornDown]) := by
  rcases Bool.eq_false_or_eq_true c.gone with hg | hg
  · rw [tearDown_gone hg]
    exact h.ending nofun h.regular (h.ended hg) rfl (iff_of_true hg (.inr rfl))
  · have he := ended_tearDown h.regular hg
    refine h.ending nofun h.regular.tearDown he.stopped ?_ (iff_of_true he.gone (.inr rfl))
    rw [Controller.tearDown, hg, if_neg Bool.false_ne_true, Controller.stop]
    split <;> rfl

omit [Hardware H] in
theorem stopped_of_hung (h : c.Told turns) (hm : .spawned .hung ∈ turns) : c.state = .stopped := by
  rw [h.regular, h.failed.mpr hm, Bool.not_true, Bool.and_false, if_neg Bool.false_ne_true]

/-- How a start is answered: that the controller is torn down comes first, then that a start timed
out, and a worker that runs is left alone. -/
theorem answer_start (h : c.Told turns) (thread : Bool) : answer (Controller.start thread) c =
    if .tornDown ∈ turns then (.error .deviceGone, c)
    else if .spawned .hung ∈ turns then (.error .initTimeout, c)
    else if c.state = .running then (.ok (), c)
    else if thread then (startAnswer (Hardware.startWorker c.registry.hardware).1,
      c.launched (Hardware.startWorker c.registry.hardware).2
        (Hardware.startWorker c.registry.hardware).1)
    else (.error .outOfMemory, c.unspawned) := by
  have hruns (hf : c.initFailed = false) : c.state = .running ↔ c.hasWorker = true := by
    rw [h.regular, hf, Bool.not_false, Bool.and_true]
    cases c.hasWorker <;> simp
  rw [Controller.answer_start]
  simp only [h.gone, h.failed]
  split
  · rfl
  · split
    · rfl
    next hf =>
      rw [← h.failed, Bool.not_eq_true] at hf
      simp only [hruns hf]

theorem new {settings : Settings} {hardware : H}
    (hc : Controller.new settings hardware = .ok c) : c.Told [] := by
  obtain ⟨_, -, hc⟩ := of_bind_eq_ok hc
  obtain ⟨log, -, hc⟩ := of_bind_eq_ok hc
  cases hc
  exact ⟨rfl, rfl, by simp, by simp, nofun⟩

end Told

end Controller

def System.Request.ending : System.Request → List Turn
  | .stop => [.stopped]
  | .tearDown => [.tornDown]
  | _ => []

/-- A controller that is gone has ended already, whoever asks for it again. -/
theorem Controller.Told.ending_gone {H : Type} {c : Controller H} {turns : List Turn}
    (h : c.Told turns) (hg : c.gone = true) (r : System.Request) : c.Told (turns ++ r.ending) := by
  cases r with
  | stop => exact h.ending nofun h.regular (h.ended hg) rfl (by simp)
  | tearDown => exact h.ending nofun h.regular (h.ended hg) rfl (by simp [hg])
  | _ => simpa [System.Request.ending] using h

namespace System

variable {H : Type}

def calls (w : System (Recorded H)) : List HardwareCall := w.controller.registry.hardware.calls

variable [Hardware H] {w : System (Recorded H)} {past : List Turn}

def turns (w : System (Recorded H)) (r : Request) : List Turn :=
  Turn.spawns w.calls (w.perform r).calls ++ r.ending

theorem turns_of_ne_start (w : System (Recorded H)) (r : Request) (hr : r ≠ .start true) :
    w.turns r = r.ending := by
  have hs : starts (w.perform r).calls = starts w.calls :=
    Registry.Upkeep.starts_eq (upkeep_perform w r) hr
  rw [turns, Turn.spawns_same hs, List.nil_append]

/-- One request. What governs the worker is told as a turn, and nothing else touches it. -/
theorem told_perform (h : w.controller.Told past) (r : Request) :
    (w.perform r).controller.Told (past ++ w.turns r) := by
  cases hr : r.governs with
  | false =>
    have hnone : w.turns r = [] := by
      cases r with
      | start | stop | tearDown => cases hr
      | _ => exact turns_of_ne_start w _ nofun
    rw [hnone, List.append_nil]
    exact h.of_vitals (vitals_perform w hr)
  | true =>
    cases r with
    | start thread =>
      rw [System.turns, perform, after]
      rcases Controller.start_cases thread w.controller with hs |
        ⟨hg, hf, hw, ⟨-, hs⟩ | ⟨-, outcome, hardware, hk, hs⟩⟩
      · rw [hs, calls, Turn.spawns_same rfl]
        simpa [Request.ending] using h
      · have hcalls : calls { w with controller := w.controller.unspawned } = w.calls := rfl
        rw [hs, hcalls, Turn.spawns_same rfl]
        simpa [Request.ending] using h.unspawned hw
      · have hcalls : hardware.calls = w.calls ++ [.startWorker outcome] := by
          cases hk
          rfl
        rw [hs, calls, calls, Controller.registry_launched, hcalls, calls, Turn.spawns_concat]
        exact h.launched hg hf hw hardware outcome
    | stop =>
      rw [turns_of_ne_start w .stop (by simp)]
      exact h.stop
    | tearDown =>
      rw [turns_of_ne_start w .tearDown (by simp)]
      exact h.tearDown
    | _ => cases hr

end System

end AcceleratorScheduler
