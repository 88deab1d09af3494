import Mathlib.Data.List.Nodup
import AcceleratorScheduler.Domain.Registry
import AcceleratorScheduler.Proofs.Answers

/-! The registry's counts. A domain is kept exactly as long as something refers to it: being
registered, or a reference that was given out; each registry request keeps that. -/
namespace AcceleratorScheduler.Registry

variable {H : Type} {r : Registry H} {id : DomainId} {d : Domain} {held : List DomainId}

def Backed (r : Registry H) : Prop := ∀ id, r.isIndexed id = true → ∃ d, r.domain? id = some d

def registered? (r : Registry H) (id : DomainId) : Option Domain :=
  if r.isIndexed id then r.domain? id else none

/-- What each domain's count says, given the references that are out, fewer than 2^32 to a
domain. -/
structure Accounts (r : Registry H) (held : List DomainId) : Prop where
  ids : (r.domains.map Domain.id).Nodup
  given : ∀ d ∈ r.domains, d.id ≤ r.lastId
  once : r.index.Nodup
  alive : ∀ d ∈ r.domains, 0 < d.refs
  counted : ∀ d ∈ r.domains, d.refs = held.count d.id + r.index.count d.id
  kept : ∀ id, id ∈ held ∨ id ∈ r.index → ∃ d ∈ r.domains, d.id = id

theorem id_of_domain? (h : r.domain? id = some d) : d.id = id :=
  beq_iff_eq.mp (List.find?_some (p := fun d : Domain => d.id == id) h)

theorem id_of_registered? (h : r.registered? id = some d) : d.id = id := by
  rw [registered?] at h
  split at h
  · exact id_of_domain? h
  · cases h

theorem mem_of_registered? (h : r.registered? id = some d) : id ∈ r.index ∧ d ∈ r.domains := by
  rw [registered?] at h
  split at h
  next hi => exact ⟨List.contains_iff_mem.mp hi, List.mem_of_find?_eq_some h⟩
  next => cases h

theorem registered?_ne_none (hb : r.Backed) : r.registered? id ≠ none ↔ r.isIndexed id = true := by
  cases hi : r.isIndexed id with
  | false => simp [registered?, hi]
  | true =>
    obtain ⟨d, hd⟩ := hb id hi
    simp [registered?, hi, hd]

theorem requireDomain_none (h : r.registered? id = none) :
    requireDomain id r = .error .notFound r := by
  refine (bind_ok (get_apply r)).trans ?_
  rw [registered?] at h
  rw [h]
  rfl

theorem requireDomain_some (h : r.registered? id = some d) : requireDomain id r = .ok d r := by
  refine (bind_ok (get_apply r)).trans ?_
  rw [registered?] at h
  rw [h]
  rfl

/-- Draining empties the indexes and gives back, one after another, the references that they were.
The induction is on the ids that still have to go. -/
theorem drain_induction [Hardware H] {P : Registry H → List DomainId → Prop}
    (hempty : P { r with index := [], names := [] } (r.index ++ held))
    (hdrop : ∀ {r : Registry H} (id : DomainId) (held : List DomainId),
      P r (id :: held) → P (r.drop id) held) : P r.drain.2 held := by
  have hfold (l : List DomainId) {r : Registry H} (h : P r (l ++ held)) :
      P (l.foldl (fun r id => r.drop id) r) held := by
    induction l generalizing r with
    | nil => exact h
    | cons id l ih => exact ih (hdrop id _ h)
  exact hfold r.index hempty

def extended (r : Registry H) (hw : H) (d : Domain) : Registry H where
  hardware := hw
  lastId := d.id
  domains := r.domains ++ [d]
  index := r.index ++ [d.id]
  names := r.names ++ [(d.name, d.id)]

namespace Accounts

theorem domain?_of_mem (h : r.Accounts held) (hd : d ∈ r.domains) : r.domain? d.id = some d := by
  cases hf : r.domain? d.id with
  | none =>
    have hn := List.find?_eq_none.mp hf d hd
    simp at hn
  | some d' =>
    have hm : d' ∈ r.domains := List.mem_of_find?_eq_some hf
    rw [List.inj_on_of_nodup_map h.ids hm hd (id_of_domain? hf)]

theorem backed (h : r.Accounts held) : r.Backed := by
  intro id hi
  obtain ⟨d, hd, rfl⟩ := h.kept id (.inr (List.contains_iff_mem.mp hi))
  exact ⟨d, h.domain?_of_mem hd⟩

theorem empty (hw : H) : Accounts ({ hardware := hw } : Registry H) [] where
  ids := List.nodup_nil
  given := nofun
  once := List.nodup_nil
  alive := nofun
  counted := nofun
  kept _ hr := by rcases hr with hr | hr <;> cases hr

/-- The counts do not depend on the hardware. -/
theorem of_eq {H' : Type} {r' : Registry H'} (h : r.Accounts held) (hd : r'.domains = r.domains)
    (hi : r'.index = r.index) (hl : r'.lastId = r.lastId) : r'.Accounts held := by
  obtain ⟨h1, h2, h3, h4, h5, h6⟩ := h
  exact ⟨hd ▸ h1, hd ▸ hl ▸ h2, hi ▸ h3, hd ▸ h4, hd ▸ hi ▸ h5, hd ▸ hi ▸ h6⟩

theorem le_lastId (h : r.Accounts held) (hr : id ∈ held ∨ id ∈ r.index) : id ≤ r.lastId := by
  obtain ⟨d, hd, rfl⟩ := h.kept id hr
  exact h.given d hd

theorem eq_of_id (h : r.Accounts held) {d d' : Domain} (hd : d ∈ r.domains) (hd' : d' ∈ r.domains)
    (he : d.id = d'.id) : d = d' :=
  List.inj_on_of_nodup_map h.ids hd hd' he

/-- A count is the references that are out, and one more for being registered. -/
theorem refCount_eq (h : r.Accounts held) (id : DomainId) :
    r.refCount id = held.count id + if r.isIndexed id then 1 else 0 := by
  have hindex : r.index.count id = if r.isIndexed id then 1 else 0 := by
    rw [h.once.count]
    exact if_congr List.contains_iff_mem.symm rfl rfl
  rw [refCount, ← hindex]
  cases hd : r.domain? id with
  | none =>
    have hn : ¬ (id ∈ held ∨ id ∈ r.index) := fun hr => by
      obtain ⟨d, hm, rfl⟩ := h.kept id hr
      rw [h.domain?_of_mem hm] at hd
      cases hd
    rw [not_or] at hn
    rw [List.count_eq_zero.mpr hn.1, List.count_eq_zero.mpr hn.2]
    rfl
  | some d =>
    obtain rfl := id_of_domain? hd
    exact h.counted d (List.mem_of_find?_eq_some hd)

/-- A count that changes by as much as the references do. -/
private theorem updateDomain {held' : List DomainId} {f : Domain → Domain} (h : r.Accounts held)
    (hid : ∀ d, (f d).id = d.id) (hk : ∀ k, k ∈ held' → k ∈ held ∨ k ∈ r.index)
    (hc : ∀ d ∈ r.domains, d.id ≠ id → held'.count d.id = held.count d.id)
    (hf : ∀ d ∈ r.domains, d.id = id →
      0 < (f d).refs ∧ (f d).refs = held'.count d.id + r.index.count d.id) :
    (r.updateDomain id f).Accounts held' := by
  have hmap : (r.updateDomain id f).domains.map Domain.id = r.domains.map Domain.id := by
    rw [Registry.updateDomain, List.map_map]
    refine List.map_congr_left fun d _ => ?_
    rw [Function.comp_apply]
    split
    · exact hid d
    · rfl
  have hmem {d' : Domain} (hd' : d' ∈ (r.updateDomain id f).domains) :
      (d' ∈ r.domains ∧ d'.id ≠ id) ∨ ∃ d ∈ r.domains, d.id = id ∧ d' = f d := by
    obtain ⟨d, hd, he⟩ := List.mem_map.mp hd'
    split at he
    next hi => exact .inr ⟨d, hd, hi, he.symm⟩
    next hi => exact .inl (he ▸ ⟨hd, hi⟩)
  refine ⟨hmap ▸ h.ids, ?_, h.once, ?_, ?_, ?_⟩
  · intro d' hd'
    obtain ⟨hd, -⟩ | ⟨d, hd, -, rfl⟩ := hmem hd'
    · exact h.given d' hd
    · rw [hid]
      exact h.given d hd
  · intro d' hd'
    obtain ⟨hd, -⟩ | ⟨d, hd, hi, rfl⟩ := hmem hd'
    · exact h.alive d' hd
    · exact (hf d hd hi).1
  · intro d' hd'
    obtain ⟨hd, hi⟩ | ⟨d, hd, hi, rfl⟩ := hmem hd'
    · rw [hc d' hd hi]
      exact h.counted d' hd
    · rw [hid]
      exact (hf d hd hi).2
  · intro k hr
    obtain ⟨d, hd, rfl⟩ := h.kept k (hr.elim (hk k) .inr)
    have hin : d.id ∈ (r.updateDomain id f).domains.map Domain.id := by
      rw [hmap]
      exact List.mem_map_of_mem hd
    exact List.mem_map.mp hin

/-- One more reference is out, and counted. -/
theorem hold (h : r.Accounts held) (hr : id ∈ held ∨ id ∈ r.index) :
    (r.hold id).Accounts (id :: held) := by
  refine h.updateDomain (fun _ => rfl) ?_ ?_ ?_
  · intro k hk
    rcases List.mem_cons.mp hk with rfl | hk
    · exact hr
    · exact .inl hk
  · exact fun d _ hi => List.count_cons_of_ne (Ne.symm hi)
  · rintro d hd rfl
    refine ⟨Nat.succ_pos _, ?_⟩
    change d.refs + 1 = _
    rw [List.count_cons_self, h.counted d hd]
    omega

theorem of_remove_last (h : r.Accounts (id :: held)) {hw : H} (hm : d ∈ r.domains)
    (hid : d.id = id) (hd : d.refs ≤ 1) :
    Accounts { r with hardware := hw, domains := r.domains.filter (·.id != id) } held := by
  subst hid
  have hcount := h.counted d hm
  rw [List.count_cons_self] at hcount
  have hh : d.id ∉ held := List.count_eq_zero.mp (by omega)
  have hi : d.id ∉ r.index := List.count_eq_zero.mp (by omega)
  have hsub := List.filter_sublist (p := fun d' : Domain => d'.id != d.id) (l := r.domains)
  refine ⟨h.ids.sublist (hsub.map _), fun d' hd' => h.given d' (hsub.subset hd'), h.once,
    fun d' hd' => h.alive d' (hsub.subset hd'), ?_, ?_⟩
  · intro d' hd'
    obtain ⟨hd', hne⟩ := List.mem_filter.mp hd'
    rw [h.counted d' hd', List.count_cons_of_ne (Ne.symm (bne_iff_ne.mp hne))]
  · intro k hk
    obtain ⟨d', hd', rfl⟩ := h.kept k (hk.imp_left (List.mem_cons_of_mem _))
    refine ⟨d', List.mem_filter.mpr ⟨hd', bne_iff_ne.mpr fun he => ?_⟩, rfl⟩
    rw [he] at hk
    exact hk.elim hh hi

/-- One reference less is out; the last one takes the domain with it. -/
theorem drop [Hardware H] (h : r.Accounts (id :: held)) : (r.drop id).Accounts held := by
  obtain ⟨d, hd, rfl⟩ := h.kept id (.inl List.mem_cons_self)
  rw [Registry.drop, h.domain?_of_mem hd]
  simp only
  split
  next hr => exact h.of_remove_last hd rfl hr
  next hr =>
    refine h.updateDomain (fun _ => rfl) (fun k hk => .inl (List.mem_cons_of_mem _ hk)) ?_ ?_
    · exact fun d' _ hi => (List.count_cons_of_ne (Ne.symm hi)).symm
    · intro d' hd' he
      cases h.eq_of_id hd' hd he
      have hcount := h.counted d hd
      rw [List.count_cons_self] at hcount
      simp only
      omega

theorem unindex (h : r.Accounts held) (hi : id ∈ r.index) (names : List (String × DomainId)) :
    Accounts { r with index := r.index.erase id, names } (id :: held) := by
  refine ⟨h.ids, h.given, h.once.erase id, h.alive, fun d hd => ?_, fun k hk => ?_⟩
  · have hcount := h.counted d hd
    have hpos : 0 < r.index.count id := List.count_pos_iff.mpr hi
    by_cases he : id = d.id
    · subst he
      rw [List.count_cons_self, List.count_erase_self]
      omega
    · rw [List.count_cons_of_ne he, List.count_erase_of_ne (Ne.symm he)]
      exact hcount
  · refine h.kept k ?_
    rcases hk with hk | hk
    · rcases List.mem_cons.mp hk with rfl | hk
      · exact .inr hi
      · exact .inl hk
    · exact .inr (List.mem_of_mem_erase hk)

/-- Without the indexes, each registration is a reference that nobody has. -/
theorem unindexAll (h : r.Accounts held) (names : List (String × DomainId)) :
    Accounts { r with index := [], names } (r.index ++ held) := by
  refine ⟨h.ids, h.given, List.nodup_nil, h.alive, fun d hd => ?_, fun k hk => ?_⟩
  · rw [List.count_append, List.count_nil, h.counted d hd]
    omega
  · refine h.kept k ?_
    rcases hk with hk | hk
    · exact (List.mem_append.mp hk).symm
    · cases hk

theorem drain [Hardware H] (h : r.Accounts held) : r.drain.2.Accounts held :=
  drain_induction (h.unindexAll []) fun _ _ => drop

theorem add (h : r.Accounts held) (hw : H) (hid : d.id = r.lastId + 1) (hr : d.refs = 1) :
    (r.extended hw d).Accounts held := by
  have hold {k : DomainId} (hk : k ≤ r.lastId) : k ≠ d.id :=
    hid ▸ Nat.ne_of_lt (Nat.lt_succ_of_le hk)
  have hdom {d' : Domain} (hd' : d' ∈ (r.extended hw d).domains) : d' ∈ r.domains ∨ d' = d :=
    (List.mem_append.mp hd').imp_right List.mem_singleton.mp
  refine ⟨?_, ?_, ?_, ?_, ?_, ?_⟩
  · rw [extended, List.map_append]
    refine h.ids.append (List.nodup_singleton _) (List.disjoint_singleton.mpr fun hm => ?_)
    obtain ⟨d', hd', he⟩ := List.mem_map.mp hm
    exact hold (h.given d' hd') he
  · intro d' hd'
    rcases hdom hd' with hd' | rfl
    · exact Nat.le_trans (h.given d' hd') (Nat.le_of_lt (Nat.lt_of_succ_le (Nat.le_of_eq hid.symm)))
    · exact Nat.le_refl _
  · refine h.once.append (List.nodup_singleton _) (List.disjoint_singleton.mpr fun hm => ?_)
    exact hold (h.le_lastId (.inr hm)) rfl
  · intro d' hd'
    rcases hdom hd' with hd' | rfl
    · exact h.alive d' hd'
    · rw [hr]
      exact Nat.one_pos
  · intro d' hd'
    simp only [extended, List.count_append]
    rcases hdom hd' with hd' | rfl
    · rw [h.counted d' hd', List.count_cons_of_ne (Ne.symm (hold (h.given d' hd')))]
      rfl
    · rw [List.count_eq_zero.mpr fun hk => hold (h.le_lastId (.inl hk)) rfl,
        List.count_eq_zero.mpr fun hk => hold (h.le_lastId (.inr hk)) rfl, hr]
      simp
  · intro k hk
    rcases hk with hk | hk
    · obtain ⟨d', hd', he⟩ := h.kept k (.inl hk)
      exact ⟨d', List.mem_append_left _ hd', he⟩
    · rcases List.mem_append.mp hk with hk | hk
      · obtain ⟨d', hd', he⟩ := h.kept k (.inr hk)
        exact ⟨d', List.mem_append_left _ hd', he⟩
      · exact ⟨d, List.mem_append_right _ List.mem_cons_self, (List.mem_singleton.mp hk).symm⟩

/-- Domains are kept for the ids that something refers to. -/
theorem kept_iff (h : r.Accounts held) (id : DomainId) :
    (∃ d ∈ r.domains, d.id = id) ↔ id ∈ held ∨ r.isIndexed id = true := by
  rw [isIndexed, List.contains_iff_mem]
  refine ⟨?_, h.kept id⟩
  rintro ⟨d, hd, rfl⟩
  have halive := h.alive d hd
  rw [h.counted d hd] at halive
  rw [← List.count_pos_iff, ← List.count_pos_iff (a := d.id) (l := r.index)]
  omega

theorem perm {held' : List DomainId} (h : r.Accounts held) (hp : held.Perm held') :
    r.Accounts held' where
  ids := h.ids
  given := h.given
  once := h.once
  alive := h.alive
  counted d hd := by rw [← hp.count_eq, h.counted d hd]
  kept id hr := h.kept id (hr.imp_left hp.mem_iff.mpr)

end Accounts

end AcceleratorScheduler.Registry
