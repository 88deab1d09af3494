import AcceleratorScheduler.Hardware.Simulation
import AcceleratorScheduler.Proofs.Controller.Ending
import AcceleratorScheduler.Proofs.Device.Relays

/-! What is answered after shutdown. The device, the controller, the sessions and the handles that
are left all say that the device is gone, with one exception: a session's doorbell asks for
exclusive access first, and no session has that any more. Main statement:
`answers_after_shutdown`. -/
namespace AcceleratorScheduler

def RefusedAsGone {σ α : Type} (task : EStateM Refusal σ α) (s : σ) : Prop :=
  task s = .error .deviceGone s

variable {H : Type} [Hardware H]

structure Device.TurnsAway (d : Device H) : Prop where
  create (room thread : Bool) : RefusedAsGone (Device.create room thread) d
  addDomain (name : String) (timesliceNs preemptGraceNs : Nat) (room : Registry.Room) :
    RefusedAsGone (Device.addDomain name timesliceNs preemptGraceNs room) d
  removeDomain (id : DomainId) : RefusedAsGone (Device.removeDomain id) d
  getLog : RefusedAsGone Device.getLog d
  drainLog : RefusedAsGone Device.drainLog d
  domainCount : RefusedAsGone Device.domainCount d
  status : RefusedAsGone Device.status d
  scheduler : RefusedAsGone Device.scheduler d
  openSession (pid : Nat) (writable : Bool) : RefusedAsGone (Device.openSession pid writable) d

theorem Device.turnsAway {d : Device H} (hg : d.gone = true) : d.TurnsAway where
  create := create_gone hg
  addDomain _ _ _ _ := serve_gone hg
  removeDomain _ := serve_gone hg
  getLog := serve_gone hg
  drainLog := serve_gone hg
  domainCount := serve_gone hg
  status := serve_gone hg
  scheduler := serve_gone hg
  openSession _ _ := serve_gone hg

/-- Whatever is asked of the controller, of a session or of a handle, the device is gone; only a
session's doorbell is refused for want of exclusive access. -/
structure Controller.TurnsAway (c : Controller H) : Prop where
  start (thread : Bool) : RefusedAsGone (Controller.start thread) c
  addDomain (name : String) (timesliceNs preemptGraceNs : Nat) (room : Registry.Room) :
    RefusedAsGone (addDomain name timesliceNs preemptGraceNs room) c
  removeDomain (id : DomainId) : RefusedAsGone (removeDomain id) c
  postSwitch (id : DomainId) : RefusedAsGone (postSwitch id) c
  ringDoorbell : RefusedAsGone ringDoorbell c
  hardwareStatus : RefusedAsGone hardwareStatus c
  reserve (s : Session) : RefusedAsGone s.reserve c
  release (s : Session) : RefusedAsGone s.release c
  createQueue (s : Session) (allocator : Allocator) (role : QueueRole) :
    RefusedAsGone (s.createQueue allocator role) c
  mapQueue (s : Session) (allocator : Allocator) (role : QueueRole) (room : RecordRoom) :
    RefusedAsGone (s.mapQueue allocator role room) c
  eraseQueue (s : Session) (role : QueueRole) : RefusedAsGone (s.eraseQueue role) c
  mapHandle (handle : ExportHandle) (offset length : Nat) (room : RecordRoom) :
    RefusedAsGone (onArbiter (Arbiter.mapHandle handle offset length room)) c
  sessionDoorbell (s : Session) : s.ringDoorbell c = .error .permissionDenied c

theorem Controller.Ended.turnsAway {c : Controller H} (h : c.Ended) : c.TurnsAway := by
  have hguarded {α : Type} {task : Task H α} :
      RefusedAsGone (ensurePresent >>= fun _ => task) c :=
    bind_error (ensurePresent_gone h.gone)
  exact
    { start := fun _ => hguarded
      addDomain := fun _ _ _ _ => hguarded
      removeDomain := fun _ => hguarded
      postSwitch := fun _ => hguarded
      ringDoorbell := hguarded
      hardwareStatus := hguarded
      reserve := fun _ => hguarded
      release := fun _ => hguarded
      createQueue := fun _ _ _ => hguarded
      mapQueue := fun _ _ _ _ => bind_error hguarded
      eraseQueue := fun _ _ => hguarded
      mapHandle := fun handle offset length room => by
        rw [RefusedAsGone, onArbiter, h.closed.mapHandle]
      sessionDoorbell := fun s => by
        refine (bind_ok (get_apply c)).trans ?_
        rw [Session.isExclusive, h.closed.isExclusiveUser]
        rfl }

namespace Deployment

/-- Whatever a device went through before it was shut down, and whatever is asked for afterwards,
every request to it, to its controller, to a session and to a handle is refused because the device
is gone. Only a session's doorbell is refused for want of exclusive access, whether or not the
session ever had it. -/
theorem answers_after_shutdown (settings : Settings) (hw : H) (before later : List Request) :
    let d := ((installed settings hw).run (before ++ .shutdown :: later)).device
    d.TurnsAway ∧ ∀ c, d.controller? = some c → c.TurnsAway := by
  let start : Deployment H := installed settings hw
  have hgone : (start.run (before ++ .shutdown :: later)).device.gone = true := by
    rw [run_append]
    exact gone_run ((gone_perform _ .shutdown).mpr (.inr rfl)) later
  refine ⟨Device.turnsAway hgone, fun c hc => ?_⟩
  rcases (waiting_installed settings hw).run (before ++ .shutdown :: later) with
    h | ⟨thread, made, relayed, hnew, hp, -, hend⟩
  · rw [Device.controller?, h.stage] at hc
    cases hc
  · rw [system?, hc, Option.map_some, run_born] at hp
    have hmem : .tearDown ∈
        [System.Request.logEvent .createScheduler 0, .start thread] ++ relayed :=
      List.mem_append_right _ (hend hgone)
    have hended := System.ended_of_mem hnew hmem
    rw [← Option.some.inj hp] at hended
    exact hended.turnsAway

private def bereft : List Request :=
  [.create, .openSession 7 true, .controller (.session ⟨1, 7⟩ .reserve), .shutdown]

theorem answers_after_shutdown_bereft :
    ∃ c : Controller HostSimulation, ((installed {} {}).run bereft).device.controller? = some c ∧
      RefusedAsGone (Session.release ⟨1, 7⟩) c ∧
      Session.ringDoorbell ⟨1, 7⟩ c = .error .permissionDenied c := by
  have hs : ((installed {} ({} : HostSimulation)).run bereft).device.controller?.isSome = true := by
    decide +kernel
  obtain ⟨c, hc⟩ := Option.isSome_iff_exists.mp hs
  obtain ⟨-, hcontroller⟩ := answers_after_shutdown {} ({} : HostSimulation)
    [.create, .openSession 7 true, .controller (.session ⟨1, 7⟩ .reserve)] []
  exact ⟨c, hc, (hcontroller c hc).release _, (hcontroller c hc).sessionDoorbell _⟩

/-- The doorbell of a session that had exclusive access does not tell that the device is gone. -/
theorem doorbell_conceals_shutdown :
    ∃ c : Controller HostSimulation, ((installed {} {}).run bereft).device.controller? = some c ∧
      ¬ RefusedAsGone (Session.ringDoorbell ⟨1, 7⟩) c := by
  have hanswer : ((installed {} ({} : HostSimulation)).run bereft).device.controller?.map
      (fun c => (answer (Session.ringDoorbell ⟨1, 7⟩) c).1) =
        some (.error .permissionDenied) := by decide +kernel
  obtain ⟨c, hc, ha⟩ := Option.map_eq_some_iff.mp hanswer
  refine ⟨c, hc, fun hr => ?_⟩
  rw [answer_of_error hr] at ha
  cases ha

end Deployment

end AcceleratorScheduler
