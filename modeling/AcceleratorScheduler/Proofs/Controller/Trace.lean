import AcceleratorScheduler.Proofs.Controller.Service
import AcceleratorScheduler.Proofs.Hardware.Residency

/-! What serving slots leaves in the record of hardware calls: one call for each switch to a
registered domain, and the slots follow the answers. -/
namespace AcceleratorScheduler

def target? (find : DomainId → Option Domain) (slot : Slot) : Option DomainId :=
  match Request.decode slot with
  | .ok (.switchDomain _ id) => (find id.toNat).map Domain.id
  | _ => none

def DomainSlots.switched (s : DomainSlots) (targets : List DomainId) : DomainSlots :=
  targets.foldl (fun s id => ⟨some id, s.active⟩) s

variable {H : Type} [Hardware H] {find : DomainId → Option Domain}

/-- The slots go on naming registered domains. -/
theorem Serves.named {slot : Slot} {r r' : Residence H} {status : Int32}
    (h : Serves find slot r status r')
    (hn : ∀ id, r.slots.references id = true → find id ≠ none) :
    ∀ id, r'.slots.references id = true → find id ≠ none := by
  cases h with
  | ping | undecodable | unknown => exact hn
  | rejected =>
    intro id hr
    refine hn id ?_
    simp only [DomainSlots.references, Bool.or_eq_true] at hr ⊢
    exact .inl (hr.resolve_right (by simp))
  | switched _ hf =>
    intro id hr
    simp only [DomainSlots.references, Bool.or_eq_true, beq_iff_eq] at hr
    rcases hr with hr | hr
    · cases hr
      simp [hf]
    · exact hn id (by simp [DomainSlots.references, hr])

theorem ServesAll.named {q : List Slot} {r r' : Residence H} {responses : List Response}
    (h : ServesAll find q r responses r')
    (hn : ∀ id, r.slots.references id = true → find id ≠ none) :
    ∀ id, r'.slots.references id = true → find id ≠ none := by
  induction h with
  | nil => exact hn
  | cons hs _ ih => exact ih (hs.named hn)

/-- A slot without a target leaves slots and record; one with a target adds a single call. -/
theorem Serves.calls {slot : Slot} {r r' : Residence (Recorded H)} {status : Int32}
    (h : Serves find slot r status r') (hf : ∀ id d, find id = some d → d.id = id) :
    (target? find slot = none ∧ r'.hardware.calls = r.hardware.calls ∧ r'.slots = r.slots) ∨
    ∃ d result, target? find slot = some d.id ∧ find d.id = some d ∧
      r'.hardware.calls = r.hardware.calls ++ [.apply d result] ∧
      ((result = .ok () ∧ r'.slots = ⟨some d.id, r.slots.active⟩) ∨
        ((∃ e, result = .error e) ∧ r'.slots = { r.slots with shadow := none })) := by
  cases h with
  | ping hd => exact .inl ⟨by rw [target?, hd], rfl, rfl⟩
  | undecodable hd => exact .inl ⟨by rw [target?, hd], rfl, rfl⟩
  | unknown hd hn => exact .inl ⟨by simp [target?, hd, hn], rfl, rfl⟩
  | rejected hd hn ha =>
    have hid := hf _ _ hn
    refine .inr ⟨_, _, by simp [target?, hd, hn], by rwa [hid], Recorded.calls_apply ha, ?_⟩
    exact .inr ⟨⟨_, rfl⟩, rfl⟩
  | @switched _ _ d hw hd hn ha =>
    have hid := hf _ _ hn
    have hc : hw.calls = _ := Recorded.calls_apply ha
    exact .inr ⟨d, _, by simp [target?, hd, hn], by rwa [hid], hc, .inl ⟨rfl, by rw [hid]⟩⟩

/-- Only targets are applied, and as long as none is refused the slots run through them. -/
theorem ServesAll.switched {q : List Slot} {r r' : Residence (Recorded H)}
    {responses : List Response} (h : ServesAll find q r responses r')
    (hf : ∀ id d, find id = some d → d.id = id) :
    ∃ new, r'.hardware.calls = r.hardware.calls ++ new ∧
      (∀ d result, .apply d result ∈ new → d.id ∈ q.filterMap (target? find)) ∧
      ((∀ d e, .apply d (.error e) ∉ new) →
        r'.slots = r.slots.switched (q.filterMap (target? find)) ∧
        ∀ id ∈ q.filterMap (target? find), ∃ d, d.id = id ∧ .apply d (.ok ()) ∈ new) := by
  induction h with
  | nil => exact ⟨[], by simp, by simp, fun _ => ⟨rfl, by simp⟩⟩
  | @cons slot q before after last status responses hs _ ih =>
    obtain ⟨new, hcalls, honly, hall⟩ := ih
    rcases hs.calls hf with ⟨ht, hc, hsl⟩ | ⟨d, result, ht, -, hc, hr⟩
    · have hq : (slot :: q).filterMap (target? find) = q.filterMap (target? find) :=
        List.filterMap_cons_none ht
      refine ⟨new, hcalls.trans (congrArg (· ++ new) hc), ?_⟩
      rw [hq, ← hsl]
      exact ⟨honly, hall⟩
    · have hq : (slot :: q).filterMap (target? find) = d.id :: q.filterMap (target? find) :=
        List.filterMap_cons_some ht
      rw [hq]
      refine ⟨.apply d result :: new, ?_, ?_, ?_⟩
      · rw [hcalls]
        change after.hardware.calls ++ new = _
        rw [hc, List.append_assoc]
        rfl
      · intro d' result' hm
        rcases List.mem_cons.mp hm with he | hm
        · cases he
          exact List.mem_cons_self
        · exact List.mem_cons_of_mem _ (honly d' result' hm)
      · intro hok
        obtain ⟨rfl, hsl⟩ | ⟨⟨e, rfl⟩, -⟩ := hr
        · obtain ⟨hlast, happ⟩ := hall fun d' e hm => hok d' e (List.mem_cons_of_mem _ hm)
          refine ⟨?_, ?_⟩
          · rw [hlast]
            change after.slots.switched _ = _
            rw [hsl]
            rfl
          · intro id hid
            rcases List.mem_cons.mp hid with rfl | hid
            · exact ⟨d, rfl, List.mem_cons_self⟩
            · obtain ⟨d', hd', hm⟩ := happ id hid
              exact ⟨d', hd', List.mem_cons_of_mem _ hm⟩
        · exact absurd List.mem_cons_self (hok d e)

namespace Controller

variable {c : Controller (Recorded H)} {id : DomainId}

def calls (c : Controller (Recorded H)) : List HardwareCall := c.registry.hardware.calls

/-- The switch that was pending: the shadow slot names what it applies. -/
theorem pending_switch (hb : c.registry.Backed)
    (hn : ∀ id, c.slots.shadow = some id → c.registry.isIndexed id = true) :
    (c.slots.shadow = none ∧ answer (switchTo none) c = (.error .notFound, c)) ∨
    ∃ d result, c.slots.shadow = some d.id ∧ c.registry.registered? d.id = some d ∧
      (answer (switchTo none) c).2.calls = c.calls ++ [.apply d result] ∧
      ((result = .ok () ∧ (answer (switchTo none) c).2.slots = ⟨some d.id, c.slots.active⟩) ∨
        ((∃ e, result = .error e) ∧
          (answer (switchTo none) c).2.slots = { c.slots with shadow := none })) := by
  have hs := switchTo_none (c := c)
  cases hsh : c.slots.shadow with
  | none =>
    rw [hsh] at hs
    exact .inl ⟨rfl, answer_of_error hs⟩
  | some next =>
    rw [hsh] at hs
    have hi := hn next hsh
    obtain ⟨d, hd⟩ := hb next hi
    have hr : c.registry.registered? next = some d := by simp [Registry.registered?, hi, hd]
    have hid := Registry.id_of_registered? hr
    subst hid
    rcases ha : Hardware.apply c.registry.hardware d with ⟨result, hw⟩
    have hc := Recorded.calls_apply ha
    refine .inr ⟨d, result, rfl, hr, ?_⟩
    cases result with
    | ok =>
      rw [answer_of_ok (hs.trans (switchTo_accepted hi hd ha))]
      exact ⟨hc, .inl ⟨rfl, rfl⟩⟩
    | error e =>
      rw [answer_of_error (hs.trans (switchTo_rejected hi hd ha))]
      exact ⟨hc, .inr ⟨⟨e, rfl⟩, rfl⟩⟩

end Controller

end AcceleratorScheduler
