import AcceleratorScheduler.Hardware.Simulation
import AcceleratorScheduler.Proofs.Controller.Soundness
import AcceleratorScheduler.Proofs.Controller.Trace

/-! Slots, registry and hardware never disagree: the active slot names what the hardware accepted
last, and what a slot names is registered. Main statement: `agreement_run`. -/
namespace AcceleratorScheduler

variable {H : Type} [Hardware H]

namespace Controller

/-- A switch failed before the hardware was called, for want of a domain, or by its refusal. -/
def Declined (c : Controller (Recorded H)) (refusal : Refusal) (c' : Controller (Recorded H)) :
    Prop :=
  (refusal = .notFound ∧ c' = c) ∨
    ∃ d, c'.calls = c.calls ++ [.apply d (.error refusal)] ∧ c'.slots.active = c.slots.active

/-- A domain went that is not the resident one. Its own sub-domains were freed, and no other domain
changed. -/
def Removed (c : Controller (Recorded H)) (id : DomainId) (c' : Controller (Recorded H)) : Prop :=
  lastAccepted c.calls ≠ some id ∧ ∃ d, c.registry.registered? id = some d ∧
    c'.calls = c.calls ++ d.subDomains.map .release ∧ lastAccepted c'.calls = c.slots.active ∧
    ∀ k, k ≠ id → c'.registry.registered? k = c.registry.registered? k

/-- What slots, registry and record of calls say of each other, and why no switch and no removal
can upset that. -/
structure Agreement (c : Controller (Recorded H)) : Prop where
  /-- A slot is empty or names a registered domain. -/
  named (id : DomainId) : c.slots.references id = true → ∃ d, c.registry.registered? id = some d
  /-- The active slot is what the hardware accepted last. -/
  resident : lastAccepted c.calls = c.slots.active
  /-- What is in the shadow slot, or was staged there, is still registered when it is promoted,
  whatever the hardware did meanwhile. -/
  promotes (slots : DomainSlots) (hw : Recorded H) (next : DomainId) :
    slots = c.slots ∨ (∃ id, c.registry.stage c.slots id = .ok slots) →
      slots.shadow = some next →
        ({ c.registry with hardware := hw }.promote slots).1 = some ⟨next, slots.active⟩
  /-- No switch fails after the hardware accepted it. -/
  failed (target : Option DomainId) (refusal : Refusal) (c' : Controller (Recorded H)) :
    switchTo target c = .error refusal c' → c.Declined refusal c'
  removed (id : DomainId) (c' : Controller (Recorded H)) :
    removeDomain id c = .ok () c' → c.Removed id c'
  /-- A removal that is refused frees nothing. -/
  busy (id : DomainId) (refusal : Refusal) (c' : Controller (Recorded H)) :
    removeDomain id c = .error refusal c' → c' = c

variable {c c' : Controller (Recorded H)} {id : DomainId} {refusal : Refusal}

private theorem declined_switch (h : c.Consistent) {target : Option DomainId}
    (hs : switchTo target c = .error refusal c') : c.Declined refusal c' := by
  have ho := switchTo_outcome target c
  rw [hs] at ho
  cases ho with
  | unknown => exact .inl ⟨rfl, rfl⟩
  | missing hi hd =>
    obtain ⟨d, hd'⟩ := h.backed _ hi
    cases hd.symm.trans hd'
  | @rejected _ d _ _ _ _ ha => exact .inr ⟨d, Recorded.calls_apply ha, rfl⟩

omit [Hardware H] in
private theorem promotes_of_consistent (h : c.Consistent) {slots : DomainSlots}
    (hs : slots = c.slots ∨ ∃ id, c.registry.stage c.slots id = .ok slots) (hw : Recorded H)
    {next : DomainId} (hn : slots.shadow = some next) :
    ({ c.registry with hardware := hw }.promote slots).1 = some ⟨next, slots.active⟩ := by
  have hi : Registry.isIndexed { c.registry with hardware := hw } next = true := by
    obtain rfl | ⟨id, hs⟩ := hs
    · exact h.named (by simp [DomainSlots.references, hn])
    · rw [Registry.stage] at hs
      split at hs
      next hi =>
        cases hs
        cases hn
        exact hi
      next => cases hs
  rw [Registry.promote, hn]
  simp only [if_pos hi]

private theorem removed_of_resident (hr : lastAccepted c.calls = c.slots.active)
    (hs : removeDomain id c = .ok () c') : c.Removed id c' := by
  obtain ⟨e, he⟩ | ⟨d, -, hd, hf, hle, ho⟩ := removeDomain_cases id c
  · cases he.symm.trans hs
  · cases ho.symm.trans hs
    have hc : (announce .removeDomain id { c with registry := c.registry.unregistered d }).calls =
        c.calls ++ d.subDomains.map .release := by
      change (c.registry.unregistered d).hardware.calls = _
      rw [Registry.unregistered_eq hd hle]
      exact Registry.calls_releaseAll _ _
    refine ⟨fun hl => ?_, d, hd, hc, ?_, fun k hk => ?_⟩
    · rw [hr] at hl
      simp [DomainSlots.references, hl] at hf
    · rw [hc, lastAccepted_append_quiet _ (by simp [HardwareCall.accepted?]), hr]
    · exact Registry.registered?_unregistered hd hle hk

private theorem eq_of_refused (hs : removeDomain id c = .error refusal c') : c' = c := by
  obtain ⟨e, he⟩ | ⟨d, -, -, -, -, ho⟩ := removeDomain_cases id c
  · cases he.symm.trans hs
    rfl
  · cases ho.symm.trans hs

theorem Agreement.of_consistent (h : c.Consistent) (hr : lastAccepted c.calls = c.slots.active) :
    c.Agreement where
  named id hs := by
    obtain ⟨d, hd⟩ := h.backed id (h.named hs)
    exact ⟨d, by simp [Registry.registered?, h.named hs, hd]⟩
  resident := hr
  promotes _ hw _ hs hn := promotes_of_consistent h hs hw hn
  failed _ _ _ hs := declined_switch h hs
  removed _ _ hs := removed_of_resident hr hs
  busy _ _ _ hs := eq_of_refused hs

end Controller

namespace System

/-- Until it is torn down, a controller agrees with its hardware after every request and between any
two steps of its worker, whatever the hardware answers. -/
theorem agreement_run {settings : Settings} {hw : H} {c : Controller (Recorded H)}
    (hc : Controller.new settings { hardware := hw } = .ok c) (requests : List Request)
    (hg : (run { controller := c } requests).controller.gone = false) :
    (run { controller := c } requests).controller.Agreement := by
  have hs := sound_run (sound_new Recorded.tells_lastAccepted rfl hc)
    Recorded.tells_lastAccepted requests
  exact .of_consistent hs.consistent (hs.agrees hg)

/-- Two domains are resident one after the other; then the first is removed, and the second one
cannot be. -/
private def succession : List Request :=
  [.addDomain "a" 1000000 50000, .addDomain "b" 1000000 50000, .start, .postSwitch 1, .settle,
    .postSwitch 2, .settle, .postSwitch 2, .settle, .removeDomain 1, .removeDomain 2]

theorem agreement_run_succession :
    ∃ c : Controller (Recorded HostSimulation), Controller.new {} { hardware := {} } = .ok c ∧
      (run { controller := c } succession).controller.gone = false ∧
      (run { controller := c } succession).controller.slots = ⟨some 2, some 2⟩ ∧
      lastAccepted (run { controller := c } succession).controller.calls = some 2 ∧
      ∃ d, (run { controller := c } succession).controller.registry.registered? 2 = some d := by
  let c : Controller (Recorded HostSimulation) :=
    { settings := {}
      registry := { hardware := { hardware := { clock := 1000 } } }
      log := { capacity := 128, get := 0, put := 0, origin := 0, dropped := 0 } }
  have hc : Controller.new {} { hardware := {} } = .ok c := rfl
  have hg : (run { controller := c } succession).controller.gone = false := by decide +kernel
  have hs : (run { controller := c } succession).controller.slots = ⟨some 2, some 2⟩ := by
    decide +kernel
  have h := agreement_run hc succession hg
  refine ⟨c, hc, hg, hs, h.resident.trans (by rw [hs]), h.named 2 ?_⟩
  rw [hs]
  rfl

end System

end AcceleratorScheduler
