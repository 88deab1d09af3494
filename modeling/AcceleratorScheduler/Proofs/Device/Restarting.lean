import AcceleratorScheduler.Proofs.Controller.Draining
import AcceleratorScheduler.Proofs.Controller.Soundness
import AcceleratorScheduler.Proofs.Controller.Vitals
import AcceleratorScheduler.Proofs.Device.Deployments

/-! Starting the worker once more. A worker that comes up has been sent no signal, whatever was
accepted before: a doorbell that was rung in between is forgotten, and what waits in the send queue
waits on until another one is rung or the worker wakes by its clock; main statement:
`doorbell_forgotten_by_start`. -/
namespace AcceleratorScheduler

namespace Controller

variable {H : Type} [Hardware H] {c c' : Controller H}

/-- A start that goes through, asked for as such or by creating the scheduler of a device that has
one already. -/
inductive Starts (c c' : Controller H) : Prop
  | start {thread : Bool} (h : Controller.start thread c = .ok () c')
  | create {room thread : Bool} {d d' : Device H} (hd : d.stage = .created c)
      (h : Device.create room thread d = .ok () d') (hd' : d'.stage = .created c')

theorem Starts.answer_eq (h : c.Starts c') :
    ∃ thread, answer (Controller.start thread) c = (.ok (), c') := by
  cases h with
  | @start thread h => exact ⟨thread, answer_of_ok h⟩
  | @create room thread d d' hd h hd' =>
    rcases Bool.eq_false_or_eq_true d.gone with hg | hg
    · cases (Device.create_gone hg room thread).symm.trans h
    · have hcreate := Device.answer_create_created hg hd room thread
      rw [answer_of_ok h, Prod.mk.injEq] at hcreate
      obtain ⟨hok, rfl⟩ := hcreate
      cases hd'
      exact ⟨thread, Prod.ext hok.symm rfl⟩

/-- A start that goes through while no worker runs brings one up. -/
theorem Starts.launched_eq (h : c.Starts c') (hr : c.Regular) (hs : c.state ≠ .running) :
    c' = c.launched (Hardware.startWorker c.registry.hardware).2 .ready := by
  obtain ⟨thread, ha⟩ := h.answer_eq
  rw [answer_start] at ha
  split at ha
  · cases ha
  split at ha
  next => cases ha
  next hf =>
    split at ha
    next hw =>
      rw [Bool.not_eq_true] at hf
      rw [hr, hw, hf] at hs
      exact absurd rfl hs
    next =>
      split at ha
      case isFalse => cases ha
      rw [Prod.mk.injEq] at ha
      obtain ⟨hok, rfl⟩ := ha
      cases ho : (Hardware.startWorker c.registry.hardware).1 with
      | ready => rfl
      | failed | hung =>
        rw [ho] at hok
        cases hok

theorem Starts.idle (h : c.Starts c') (hr : c.Regular) (hs : c.state ≠ .running) : c'.Idle := by
  rw [h.launched_eq hr hs]
  exact ⟨rfl, rfl⟩

theorem Idle.settle_eq (hi : c.Idle) : c.settle = c := by
  rw [settle, if_neg]
  rw [hi.quiet]
  simp

end Controller

open Controller (Drained Idle ringDoorbell)

variable {H : Type} [Hardware H] {settings : Settings} {hardware : H} {c rung started : Controller H}
  {w : System H} {requests : List System.Request} {m : Memory} {h : Ring.Header}

/-- Ringing and starting are requests as any other, so what follows them is consistent too. -/
theorem consistent_of_starts (hc : Controller.new settings hardware = .ok c)
    (hw : w = System.run { controller := c } requests)
    (hr : ringDoorbell w.controller = .ok () rung) (hs : rung.Starts started) :
    started.Consistent := by
  obtain ⟨thread, ha⟩ := hs.answer_eq
  have hafter : (System.run w [.ringDoorbell, .start thread]).controller = started := by
    change (answer (Controller.start thread) (answer ringDoorbell w.controller).2).2 = started
    rw [answer_of_ok hr, ha]
  have hrun := System.consistent_run hc (requests ++ [.ringDoorbell, .start thread])
  rwa [System.run_append, ← hw, hafter] at hrun

/-- A doorbell that is accepted while no worker runs does not outlive the start that follows. The
worker comes up without a signal and has nothing to do, and the send queue has in it what it had: it
is empty just if nothing waited. Requests that waited are served once another doorbell is rung, or
once the worker wakes by its clock. -/
theorem doorbell_forgotten_by_start (hc : Controller.new settings hardware = .ok c)
    (hw : w = System.run { controller := c } requests) (hstate : w.controller.state ≠ .running)
    (hm : w.controller.contents .send = some m) (hh : Ring.header m = .ok h)
    (hr : ringDoorbell w.controller = .ok () rung) (hs : rung.Starts started) :
    started.Idle ∧ started.settle = started ∧
      started.arbiter = w.controller.arbiter ∧ started.slots = w.controller.slots ∧
      ((∃ m', started.settle.contents .send = some m' ∧ Ring.Queued m' h []) ↔
        Ring.waiting m h = []) ∧
      ∃ responses, started.Drained h (Ring.waiting m h) responses started.elapse ∧
        ∃ again, ringDoorbell started = .ok () again ∧
          started.Drained h (Ring.waiting m h) responses again.settle := by
  have hregular : w.controller.Regular := hw ▸ System.regular_run (Controller.regular_new hc) requests
  have hrung := Controller.ringDoorbell_eq_ok hr
  have hup := hs.launched_eq (hrung ▸ hregular) (hrung ▸ hstate)
  have hidle := hs.idle (hrung ▸ hregular) (hrung ▸ hstate)
  have hsettle := hidle.settle_eq
  have harbiter : started.arbiter = w.controller.arbiter := by rw [hup, hrung]; rfl
  have hslots : started.slots = w.controller.slots := by rw [hup, hrung]; rfl
  have hcontents : started.contents .send = some m := by
    rw [Controller.contents, harbiter]
    exact hm
  have hconsistent := consistent_of_starts hc hw hr hs
  have hg := (hconsistent.worker hidle.running).2.1
  obtain ⟨responses, hdrained, -⟩ := Controller.drainRequests_drained hconsistent hcontents hh
  refine ⟨hidle, hsettle, harbiter, hslots, ?_, responses, ?_, _,
    Controller.ringDoorbell_present hg, ?_⟩
  · rw [hsettle, hcontents]
    constructor
    · rintro ⟨m', hm', hq⟩
      cases hm'
      exact hq.waiting_eq
    · intro hnil
      exact ⟨m, rfl, hnil ▸ Ring.queued_of_header hh⟩
  · rw [Controller.elapse, if_pos ⟨hidle.running, by rw [hg]; rfl⟩]
    exact hdrained
  · rw [Controller.settle_doorbell hidle hg]
    exact hdrained

/-- A session maps the send queue, the worker is stopped, and a ping is put into the queue. -/
private def unheard : List System.Request :=
  [.start, .arbiter (.addUser 1 true), .session ⟨1, 1⟩ .reserve,
    .session ⟨1, 1⟩ (.mapQueue .process .send), .stop,
    .arbiter (.access ⟨0, .send, 1, 4096, true⟩ (Ring.push (Request.ping 7).encode))]

private def installed : Controller HostSimulation where
  settings := {}
  registry := { hardware := { clock := 1000 } }
  log := { capacity := 128, get := 0, put := 0, origin := 0, dropped := 0 }

private def silent : System HostSimulation := System.run { controller := installed } unheard

theorem ping_unanswered_after_start :
    Controller.new {} ({} : HostSimulation) = .ok installed ∧
      silent.controller.state = .stopped ∧
      (answer ringDoorbell silent.controller).1 = .ok () ∧
      (answer Controller.start (silent.run [.ringDoorbell]).controller).1 = .ok () ∧
      (silent.run [.ringDoorbell, .start, .settle]).controller.state = .running ∧
      ((silent.run [.ringDoorbell, .start, .settle]).controller.contents .send).map Ring.snapshot =
        some (.ok [(Request.ping 7).encode]) := by
  refine ⟨rfl, ?_⟩
  decide +kernel

theorem doorbell_forgotten_by_start_silent :
    silent.controller.state ≠ .running ∧ ∃ rung started m h,
      silent.controller.contents .send = some m ∧ Ring.header m = .ok h ∧
      ringDoorbell silent.controller = .ok () rung ∧ rung.Starts started ∧
      Ring.waiting m h = [(Request.ping 7).encode] ∧ started.settle = started ∧
      ¬ ∃ m', started.settle.contents .send = some m' ∧ Ring.Queued m' h [] := by
  have hnew : Controller.new {} ({} : HostSimulation) = .ok installed := rfl
  have hstate : silent.controller.state ≠ .running := by decide +kernel
  have hg : silent.controller.gone = false := by decide +kernel
  have hheader : (silent.controller.contents .send).map Ring.header = some (.ok ⟨1, 0, 127⟩) := by
    decide +kernel
  have hwaiting : (silent.controller.contents .send).map (Ring.waiting · ⟨1, 0, 127⟩) =
      some [(Request.ping 7).encode] := by decide +kernel
  obtain ⟨m, hm, hh⟩ := Option.map_eq_some_iff.mp hheader
  rw [hm, Option.map_some, Option.some.injEq] at hwaiting
  have hr := Controller.ringDoorbell_present hg
  generalize hrung : silent.controller.signal (fun wake => { wake with doorbell := true }) = rung
    at hr
  have hup : (answer Controller.start rung).1 = .ok () := by
    rw [← hrung]
    decide +kernel
  obtain ⟨started, hs⟩ : ∃ started, Controller.start true rung = .ok () started := by
    cases hs : Controller.start true rung with
    | ok x started => exact ⟨started, rfl⟩
    | error e after =>
      rw [answer_of_error hs] at hup
      cases hup
  obtain ⟨-, hsettle, -, -, hempty, -⟩ :=
    doorbell_forgotten_by_start hnew rfl hstate hm hh hr (.start hs)
  refine ⟨hstate, rung, started, m, _, hm, hh, hr, .start hs, hwaiting, hsettle, fun he => ?_⟩
  cases hwaiting.symm.trans (hempty.mp he)

end AcceleratorScheduler
