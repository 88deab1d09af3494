import AcceleratorScheduler.Hardware.Simulation
import AcceleratorScheduler.Proofs.Controller.Draining
import AcceleratorScheduler.Proofs.Controller.Trace

/-! What becomes of a posted switch. The worker serves waiting requests first, and each switch among
them overwrites the shadow slot; main statement: `posted_switch_kept_iff`. -/
namespace AcceleratorScheduler

theorem DomainSlots.active_switched {s : DomainSlots} {targets : List DomainId} {id : DomainId}
    (hn : targets ≠ []) (h : (s.switched targets).active = some id) : id ∈ targets := by
  induction targets generalizing s with
  | nil => exact absurd rfl hn
  | cons target targets ih =>
    cases targets with
    | nil =>
      cases h
      exact List.mem_cons_self
    | cons => exact List.mem_cons_of_mem _ (ih (List.cons_ne_nil _ _) h)

namespace Controller

variable {H : Type} [Hardware H] {c : Controller (Recorded H)} {id : DomainId}

omit [Hardware H] in
private theorem named_registered (hc : c.Consistent) (hi : c.registry.isIndexed id = true)
    {k : DomainId} (hk : DomainSlots.references ⟨c.slots.active, some id⟩ k = true) :
    c.registry.registered? k ≠ none := by
  rw [Registry.registered?_ne_none hc.backed]
  simp only [DomainSlots.references, Bool.or_eq_true, beq_iff_eq] at hk
  rcases hk with hk | hk
  · exact hc.named (by simp [DomainSlots.references, hk])
  · cases hk
    exact hi

def targets (c : Controller (Recorded H)) : List DomainId :=
  c.waitingSlots.filterMap (target? c.registry.registered?)

/-- The wake has two parts: the waiting requests, then the switch to what the shadow slot names. -/
theorem posted_wake (hc : c.Consistent) (hr : c.state = .running)
    (hi : c.registry.isIndexed id = true) :
    ∃ served new, (c.posted id).settle = (answer (switchTo none) served).2 ∧
      served.registry.Backed ∧
      (∀ k, served.slots.shadow = some k → served.registry.isIndexed k = true) ∧
      served.calls = c.calls ++ new ∧
      (∀ d result, .apply d result ∈ new → d.id ∈ c.targets) ∧
      ((∀ d e, .apply d (.error e) ∉ new) →
        served.slots = DomainSlots.switched ⟨c.slots.active, some id⟩ c.targets ∧
        ∀ id ∈ c.targets, ∃ d, d.id = id ∧ .apply d (.ok ()) ∈ new) := by
  obtain ⟨-, hg, hx⟩ := hc.worker hr
  let p : Controller (Recorded H) := { c with slots := ⟨c.slots.active, some id⟩, wake := {} }
  obtain ⟨responses, hserve, hfix⟩ := drainRequests_serves (c := p) hc.apart hc.backed
  have hb := backed_of_fixed hfix hc.backed
  obtain ⟨new, hnew, honly, hall⟩ := hserve.switched fun _ _ => Registry.id_of_registered?
  refine ⟨p.drainRequests, new, ?_, hb, ?_, hnew, honly, hall⟩
  · rw [settle, if_pos]
    · rfl
    · simp [posted, hr, hg, hx, Wake.signalled]
  · intro k hk
    rw [← Registry.registered?_ne_none hb, registered?_of_fixed hfix]
    refine hserve.named (fun _ => named_registered hc hi) k ?_
    simp [residence, DomainSlots.references, hk]

/-- The wake after a posted switch. If neither the domain nor any target of a waiting request is
refused, the switch is kept exactly if the slots that serving leaves still name the domain: in the
shadow slot, or in the active one while the shadow slot cannot be switched to. -/
theorem posted_switch_kept_iff (hc : c.Consistent) (hr : c.state = .running)
    (hi : c.registry.isIndexed id = true) {s : DomainSlots}
    (hs : s = DomainSlots.switched ⟨c.slots.active, some id⟩ c.targets) :
    postSwitch id c = .ok () (c.posted id) ∧
    ∃ during, (c.posted id).settle.calls = c.calls ++ during ∧
      ((∀ d e, .apply d (.error e) ∈ during → d.id ≠ id ∧ d.id ∉ c.targets) →
        ((∃ d, d.id = id ∧ .apply d (.ok ()) ∈ during) ∧
            (c.posted id).settle.slots.active = some id ↔
          s.shadow = some id ∨ s.active = some id ∧
            (s.shadow = none ∨ ∃ d e, s.shadow = some d.id ∧ .apply d (.error e) ∈ during))) := by
  refine ⟨postSwitch_running hr (hc.worker hr).2.1 hi, ?_⟩
  obtain ⟨served, new, hsettle, hb, hn, hnew, honly, hall⟩ := posted_wake hc hr hi
  -- what is refused is no target, so serving has run through all of them
  have hrun {during : List HardwareCall} (hsub : ∀ call ∈ new, call ∈ during)
      (hok : ∀ d e, .apply d (.error e) ∈ during → d.id ≠ id ∧ d.id ∉ c.targets) :
      served.slots = s ∧ (s.active = some id → s.shadow ≠ some id →
        ∃ d, d.id = id ∧ .apply d (.ok ()) ∈ during) := by
    obtain ⟨hslots, happ⟩ := hall fun d e hm => (hok d e (hsub _ hm)).2 (honly d _ hm)
    refine ⟨hslots.trans hs.symm, fun ha hsh => ?_⟩
    have hne : c.targets ≠ [] := by
      intro he
      rw [hs, he] at hsh
      exact hsh rfl
    rw [hs] at ha
    obtain ⟨d, hd, hm⟩ := happ id (DomainSlots.active_switched hne ha)
    exact ⟨d, hd, hsub _ hm⟩
  rcases pending_switch hb hn with ⟨hsh, hlast⟩ | ⟨d, result, hsh, -, hcalls, hres⟩
  · refine ⟨new, ?_, ?_⟩
    · rw [hsettle, hlast]
      exact hnew
    · intro hok
      obtain ⟨hslots, happ⟩ := hrun (fun _ h => h) hok
      rw [hslots] at hsh
      rw [hsettle, hlast, hslots]
      constructor
      · exact fun h => .inr ⟨h.2, .inl hsh⟩
      · rintro (h | ⟨h, -⟩)
        · rw [hsh] at h
          cases h
        · exact ⟨happ h (by simp [hsh]), h⟩
  · refine ⟨new ++ [.apply d result], ?_, ?_⟩
    · rw [hsettle, hcalls, hnew, List.append_assoc]
    · intro hok
      obtain ⟨hslots, happ⟩ := hrun (fun _ h => List.mem_append_left _ h) hok
      have hlast : HardwareCall.apply d result ∈ new ++ [.apply d result] :=
        List.mem_append_right _ List.mem_cons_self
      rw [hslots] at hsh
      rw [hsettle]
      obtain ⟨rfl, hsl⟩ | ⟨⟨e, rfl⟩, hsl⟩ := hres
      · rw [hsl]
        constructor
        · exact fun h => .inl (hsh.trans h.2)
        · rintro (h | ⟨-, h | ⟨d', e, h, hm⟩⟩)
          · cases hsh.symm.trans h
            exact ⟨⟨d, rfl, hlast⟩, rfl⟩
          · cases hsh.symm.trans h
          · rcases List.mem_append.mp hm with hm' | hm'
            · exact absurd (honly d' _ hm') (hok d' e hm).2
            · cases List.mem_singleton.mp hm'
      · have hne := (hok d e hlast).1
        rw [hsl, hslots]
        constructor
        · exact fun h => .inr ⟨h.2, .inr ⟨d, e, hsh, hlast⟩⟩
        · rintro (h | ⟨h, -⟩)
          · cases hsh.symm.trans h
            exact absurd rfl hne
          · refine ⟨happ h ?_, h⟩
            rw [hsh]
            exact fun he => hne (Option.some.inj he)

/-- A request to switch to one domain waits while another is to be posted. -/
private def contested : Controller (Recorded HostSimulation) where
  settings := {}
  registry :=
    { hardware := { hardware := {} }, lastId := 2
      domains := [⟨1, "a", 1000000, 50000, 1, []⟩, ⟨2, "b", 1000000, 50000, 1, []⟩]
      index := [1, 2], names := [("a", 1), ("b", 2)] }
  log := { capacity := 128, get := 0, put := 0, origin := 0, dropped := 0 }
  arbiter :=
    { queues := { send := some { size := 112, mask := QueueRole.send.mask, region := 0 } }
      memory := { regions := #[ringOf [(Request.switchDomain 1 2).encode]] } }
  state := .running
  hasWorker := true

private theorem contested_consistent : contested.Consistent where
  backed := by
    intro id h
    rcases List.mem_cons.mp (List.contains_iff_mem.mp h) with rfl | h
    · exact ⟨_, rfl⟩
    · cases List.mem_singleton.mp h
      exact ⟨_, rfl⟩
  named h := by cases h
  apart := by
    constructor
    · intro role b h
      cases role <;> cases h
      decide
    · intro role other b b' h h' _
      cases role <;> cases other <;> cases h <;> cases h'
      rfl
  worker _ := ⟨rfl, rfl, rfl⟩

private theorem contested_targets : contested.targets = [2] := by decide +kernel

/-- The posted domain is never applied: the domain of the request is active in its place. -/
theorem posted_switch_lost :
    postSwitch 1 contested = .ok () (contested.posted 1) ∧
      (contested.posted 1).settle.slots = ⟨some 2, none⟩ ∧
      ∀ d result, .apply d result ∈ (contested.posted 1).settle.calls →
        d.id = 2 ∧ result = .ok () := by
  refine ⟨postSwitch_running rfl rfl rfl, by decide +kernel, fun d result hm => ?_⟩
  have hall : ∀ call ∈ (contested.posted 1).settle.calls, call.accepted? = some 2 := by
    decide +kernel
  have hd := hall _ hm
  cases result with
  | ok => exact ⟨Option.some.inj hd, rfl⟩
  | error => cases hd

theorem posted_switch_kept_iff_contested :
    contested.Consistent ∧ contested.state = .running ∧ contested.registry.isIndexed 1 = true ∧
      postSwitch 1 contested = .ok () (contested.posted 1) ∧
      ∃ during, (contested.posted 1).settle.calls = contested.calls ++ during ∧
        ((∀ d e, .apply d (.error e) ∈ during → d.id ≠ 1 ∧ d.id ∉ contested.targets) →
          ¬((∃ d, d.id = 1 ∧ .apply d (.ok ()) ∈ during) ∧
            (contested.posted 1).settle.slots.active = some 1)) := by
  have hs : (⟨some 2, none⟩ : DomainSlots) =
      DomainSlots.switched ⟨contested.slots.active, some 1⟩ contested.targets := by
    rw [contested_targets]
    rfl
  obtain ⟨hp, during, hc, hk⟩ := posted_switch_kept_iff contested_consistent rfl rfl hs
  refine ⟨contested_consistent, rfl, rfl, hp, during, hc, fun hok h => ?_⟩
  rcases (hk hok).mp h with h | ⟨h, -⟩ <;> cases h

end Controller

end AcceleratorScheduler
