import AcceleratorScheduler.Hardware.Simulation
import AcceleratorScheduler.Proofs.Controller.Ending
import AcceleratorScheduler.Proofs.Controller.Soundness
import AcceleratorScheduler.Proofs.Controller.Upkeep
import AcceleratorScheduler.Proofs.Device.Relays

/-! Teardown is final. Once the device is shut down, or its controller torn down, nothing is left
but sessions that hold nothing, views that reach nothing, and the domains that somebody still refers
to; and nothing that is asked for later brings anything back. Main statement:
`teardown_is_final`. -/
namespace AcceleratorScheduler

variable {H : Type} [Hardware H]

namespace System

omit [Hardware H] in
/-- The calls that giving the domain back once more leads to. -/
def partingCalls (w : System (Recorded H)) (d : Domain) : List HardwareCall :=
  if w.held.count d.id = 1 then d.subDomains.map .release else []

/-- What is left of a controller that has ended. -/
structure Bare (w : System (Recorded H)) : Prop where
  ended : w.controller.Ended
  /-- No view that was ever handed out is valid. -/
  unmapped : ∀ g ∈ w.grants, w.controller.arbiter.memory.isLive g.view.view = false
  /-- No session has exclusive access or uses a queue. -/
  idle (s : Session) : s.isExclusive w.controller = false ∧ s.isActive w.controller = false
  /-- The hardware has got back all but the sub-domains of the domains that are kept. -/
  out : outstanding w.controller.registry.hardware.calls = w.controller.registry.subDomains
  /-- Just those domains are kept that a reference is out to, and each is kept once. -/
  kept (id : DomainId) : (∃ d ∈ w.controller.registry.domains, d.id = id) ↔ id ∈ w.held
  once : (w.controller.registry.domains.map Domain.id).Nodup
  /-- With its last reference a domain gives its sub-domains back, and not before. -/
  freed : ∀ d ∈ w.controller.registry.domains,
    (w.perform (.giveBack d.id)).controller.registry.hardware.calls =
      w.controller.registry.hardware.calls ++ w.partingCalls d

theorem bare_of_ended {settings : Settings} {hw : H} {c : Controller (Recorded H)}
    (hc : Controller.new settings { hardware := hw } = .ok c) {requests : List Request}
    (h : (run { controller := c } requests).controller.Ended) :
    (run { controller := c } requests).Bare := by
  have hsound := sound_run (sound_new Recorded.tells_lastAccepted rfl hc)
    Recorded.tells_lastAccepted requests
  obtain ⟨ha, hs⟩ := settled_run hc requests
  generalize run { controller := c } requests = w at h hsound ha hs ⊢
  have hkept (id : DomainId) :
      (∃ d ∈ w.controller.registry.domains, d.id = id) ↔ id ∈ w.held := by
    rw [ha.kept_iff, Registry.isIndexed, h.index]
    simp
  refine
    { ended := h
      unmapped := fun g hg => h.closed.stale hsound.balanced hg
      idle := fun s => ⟨h.closed.isExclusiveUser s.user, h.closed.userIsActive s.user⟩
      out := hs.outstanding_eq
      kept := hkept
      once := ha.ids
      freed := fun d hd => ?_ }
  have hheld : d.id ∈ w.held := (hkept d.id).mp ⟨d, hd, rfl⟩
  have hrefs : d.refs ≤ 1 ↔ w.held.count d.id = 1 := by
    have hcount := ha.counted d hd
    rw [h.index, List.count_nil, Nat.add_zero] at hcount
    have hpos := List.count_pos_iff.mpr hheld
    omega
  rw [perform, if_pos hheld]
  refine (ha.calls_drop hd).trans ?_
  simp only [partingCalls, hrefs]

end System

namespace Deployment

/-- What is left of a device once it is torn down. If there was no controller, nothing was ever
asked of the hardware, and there will be none. -/
def Bare (p : Deployment (Recorded H)) : Prop :=
  match p.system? with
  | some w => w.Bare
  | none => p.device.gone = true ∧ p.grants = [] ∧ p.held = [] ∧ p.device.hardware.calls = []

def Request.TearsDown (p : Deployment H) : Request → Prop
  | .shutdown => True
  | .controller .tearDown => p.system? ≠ none
  | _ => False

theorem bare_of_relayed {settings : Settings} {hw : H} {p : Deployment (Recorded H)}
    {c : Controller (Recorded H)} {thread : Bool}
    (hc : Controller.new settings { hardware := hw } = .ok c)
    {relayed : List System.Request} (hp : p.system? = some ((born c thread).run relayed))
    (h : .tearDown ∈ relayed) : p.Bare := by
  rw [run_born] at hp
  rw [Bare, hp]
  exact System.bare_of_ended hc (System.ended_of_mem hc (List.mem_append_right _ h))

/-- Whatever state a device is in when it is shut down, or its controller torn down, and whatever is
asked for afterwards: there is no buffer, no valid view, no session with exclusive access or with a
queue in use, no domain in a slot or in the index, and no worker that runs. What the hardware has
not got back belongs to the domains that references are still out to, and goes back with the last of
them. -/
theorem teardown_is_final {settings : Settings} {hw : H} {before later : List Request}
    {ends : Request}
    (he : ends.TearsDown ((installed settings ({ hardware := hw } : Recorded H)).run before)) :
    ((installed settings ({ hardware := hw } : Recorded H)).run
      (before ++ ends :: later)).Bare := by
  let start : Deployment (Recorded H) := installed settings { hardware := hw }
  have hstart : Waiting settings { hardware := hw } start := waiting_installed _ _
  have hsplit : start.run (before ++ ends :: later) =
      ((start.run before).perform ends).run later := run_append start before (ends :: later)
  cases ends with
  | shutdown =>
    have hgone : (start.run (before ++ .shutdown :: later)).device.gone = true := by
      rw [hsplit]
      exact gone_run ((gone_perform _ .shutdown).mpr (.inr rfl)) later
    rcases hstart.run (before ++ .shutdown :: later) with h | ⟨thread, c, relayed, hc, hp, -, hend⟩
    · rw [Bare, h.system?]
      refine ⟨hgone, h.grants, h.held, ?_⟩
      rw [Device.hardware, h.stage]
    · exact bare_of_relayed hc hp (hend hgone)
  | controller request =>
    cases request with
    | tearDown =>
      obtain h | ⟨thread, c, relayed, hc, hp, -⟩ := hstart.run before
      · exact absurd h.system? he
      · have hend := system?_perform hp (.controller .tearDown)
        rw [Request.viaDevice, Bool.and_false, if_neg Bool.false_ne_true] at hend
        obtain ⟨relayed', hrun, -⟩ := system?_run hend later
        rw [← hsplit] at hrun
        have hall : (((born c thread).run relayed).perform .tearDown).run relayed' =
            (born c thread).run (relayed ++ .tearDown :: relayed') :=
          (System.run_append _ relayed (.tearDown :: relayed')).symm
        exact bare_of_relayed hc (hrun.trans (congrArg some hall)) (by simp)
    | _ => exact he.elim
  | _ => exact he.elim

/-- A session maps a queue, the device switches to one domain, and another one is referred to twice
when the device is shut down. -/
private def busy : List Request :=
  [.create, .addDomain "a" 1000000 50000, .addDomain "b" 1000000 50000, .openSession 7 true,
    .controller (.session ⟨1, 7⟩ .reserve),
    .controller (.session ⟨1, 7⟩ (.mapQueue .process .send)), .controller (.lookupId 1),
    .controller (.copy 1), .controller (.postSwitch 2), .controller .settle]

/-- What the session tries afterwards is refused; one of the two references is given back, and then
the other one. -/
private def aftermath : List Request :=
  [.create, .openSession 8 true, .controller (.session ⟨1, 7⟩ (.mapQueue .process .send)),
    .controller (.giveBack 1)]

theorem teardown_is_final_busy :
    let p := (installed {} ({ hardware := {} } : Recorded HostSimulation)).run
      (busy ++ .shutdown :: aftermath)
    p.Bare ∧ p.grants = [⟨⟨0, .send, 1, 4096, true⟩, 1⟩] ∧ p.held = [1] ∧
      p.device.controller?.map (fun c => c.registry.domains.map Domain.subDomains) =
        some [[⟨0, 1⟩, ⟨1, 2⟩]] ∧
      (p.perform (.controller (.giveBack 1))).device.controller?.map
        (fun c => c.registry.domains.length) = some 0 :=
  ⟨teardown_is_final trivial, by decide +kernel, by decide +kernel, by decide +kernel,
    by decide +kernel⟩

end Deployment

end AcceleratorScheduler
