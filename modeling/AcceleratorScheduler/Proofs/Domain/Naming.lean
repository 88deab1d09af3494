import AcceleratorScheduler.Proofs.Domain.Requests

/-! The registry's two indexes. A name is registered for an id exactly when that id is registered
and its domain bears the name, and no name is registered twice; adding, removing and draining keep
it so, and so does giving references out and taking them back. -/
namespace AcceleratorScheduler.Registry

variable {H : Type} {r r' : Registry H} {id k : DomainId} {d : Domain} {held : List DomainId}
  {name : String}

def Bears (r : Registry H) (id : DomainId) (name : String) : Prop :=
  ∃ d ∈ r.domains, d.id = id ∧ d.name = name

structure Named (r : Registry H) : Prop where
  once : (r.names.map Prod.fst).Nodup
  nameable : ∀ p ∈ r.names, Nameable p.1
  stands : ∀ name id, (name, id) ∈ r.names ↔ id ∈ r.index ∧ r.Bears id name

theorem bears_updateDomain {f : Domain → Domain} (hid : ∀ d, (f d).id = d.id)
    (hname : ∀ d, (f d).name = d.name) :
    (r.updateDomain id f).Bears k name ↔ r.Bears k name := by
  have hkept (d : Domain) : (if d.id = id then f d else d).id = d.id ∧
      (if d.id = id then f d else d).name = d.name := by
    split
    · exact ⟨hid d, hname d⟩
    · exact ⟨rfl, rfl⟩
  simp only [Bears, updateDomain, List.mem_map, exists_exists_and_eq_and, hkept]

theorem bears_of_ended (hk : k ≠ id)
    (hd : r'.domains = r.domains.filter (·.id != id)) : r'.Bears k name ↔ r.Bears k name := by
  rw [Bears, hd]
  refine ⟨fun ⟨d, hm, hd⟩ => ⟨d, List.mem_of_mem_filter hm, hd⟩, fun ⟨d, hm, hd⟩ => ⟨d, ?_, hd⟩⟩
  exact List.mem_filter.mpr ⟨hm, bne_iff_ne.mpr (hd.1 ▸ hk)⟩

/-- An entry is found under its key when every key stands in the table once. -/
theorem lookup_eq_some_iff_mem {names : List (String × DomainId)}
    (h : (names.map Prod.fst).Nodup) : names.lookup name = some id ↔ (name, id) ∈ names := by
  refine ⟨fun hl => ?_, fun hm => ?_⟩
  · obtain ⟨before, after, rfl, -⟩ := List.lookup_eq_some_iff.mp hl
    exact List.mem_append_right _ List.mem_cons_self
  · obtain ⟨before, after, rfl⟩ := List.append_of_mem hm
    rw [List.map_append, List.nodup_append] at h
    refine List.lookup_eq_some_iff.mpr ⟨before, after, rfl, fun p hp => bne_iff_ne.mpr ?_⟩
    exact (h.2.2 p.1 (List.mem_map_of_mem hp) name List.mem_cons_self).symm

theorem bears_extended (hw : H) :
    (r.extended hw d).Bears k name ↔ r.Bears k name ∨ d.id = k ∧ d.name = name := by
  simp only [Bears, extended, List.mem_append, List.mem_singleton, or_and_right, exists_or,
    exists_eq_left]

/-- The domain that is kept for an id has the one name that the id bears. -/
theorem Accounts.name_of_bears (h : r.Accounts held) (hd : d ∈ r.domains)
    (hb : r.Bears d.id name) : d.name = name := by
  obtain ⟨d', hd', hid, rfl⟩ := hb
  rw [h.eq_of_id hd hd' hid.symm]

namespace Named

theorem of_empty (hn : r.names = []) (hi : r.index = []) : r.Named where
  once := hn ▸ List.nodup_nil
  nameable := hn ▸ nofun
  stands name id := by
    rw [hn, hi]
    exact ⟨nofun, fun h => nomatch h.1⟩

/-- Only registered ids have names to keep. -/
theorem of_bears (h : r.Named) (hn : r'.names = r.names) (hi : r'.index = r.index)
    (hb : ∀ id ∈ r.index, ∀ name, r'.Bears id name ↔ r.Bears id name) : r'.Named where
  once := hn ▸ h.once
  nameable := hn ▸ h.nameable
  stands name id := by
    rw [hn, hi, h.stands]
    exact and_congr_right fun hm => (hb id hm name).symm

theorem hold (h : r.Named) (id : DomainId) : (r.hold id).Named :=
  h.of_bears rfl rfl fun _ _ _ => bears_updateDomain (fun _ => rfl) fun _ => rfl

/-- A domain that goes with a reference was registered no more. -/
theorem drop [Hardware H] (ha : r.Accounts (id :: held)) (h : r.Named) : (r.drop id).Named := by
  obtain ⟨d, hd, rfl⟩ := ha.kept id (.inl List.mem_cons_self)
  rw [Registry.drop, ha.domain?_of_mem hd]
  simp only
  split
  next hr =>
    have hi : d.id ∉ r.index := by
      have hcount := ha.counted d hd
      rw [List.count_cons_self] at hcount
      exact List.count_eq_zero.mp (by omega)
    exact h.of_bears rfl rfl fun k hk _ => bears_of_ended (ne_of_mem_of_not_mem hk hi) rfl
  next => exact h.of_bears rfl rfl fun _ _ _ => bears_updateDomain (fun _ => rfl) fun _ => rfl

theorem add (ha : r.Accounts held) (h : r.Named) (hw : H) (hid : d.id = r.lastId + 1)
    (hn : Nameable d.name) (hl : r.names.lookup d.name = none) : (r.extended hw d).Named := by
  have hfresh {k : DomainId} (hk : k ≤ r.lastId) : k ≠ d.id :=
    hid ▸ Nat.ne_of_lt (Nat.lt_succ_of_le hk)
  refine ⟨?_, ?_, fun name k => ?_⟩
  · rw [extended, List.map_append]
    refine h.once.append (List.nodup_singleton _) (List.disjoint_singleton.mpr fun hm => ?_)
    obtain ⟨p, hp, he⟩ := List.mem_map.mp hm
    exact bne_iff_ne.mp (List.lookup_eq_none_iff.mp hl p hp) he.symm
  · intro p hp
    rcases List.mem_append.mp hp with hp | hp
    · exact h.nameable p hp
    · exact List.mem_singleton.mp hp ▸ hn
  · rw [bears_extended]
    simp only [extended, List.mem_append, List.mem_singleton, Prod.mk.injEq, h.stands]
    by_cases hk : k = d.id
    · subst hk
      have hi : d.id ∉ r.index := fun hm => hfresh (ha.le_lastId (.inr hm)) rfl
      have hb : ¬ r.Bears d.id name := by
        rintro ⟨d', hd', he, -⟩
        exact hfresh (ha.given d' hd') he
      simp [hi, hb, eq_comm]
    · simp [hk, Ne.symm hk]

/-- The entry that goes with an id is the one that stands for it. -/
theorem unindex (ha : r.Accounts held) (h : r.Named) (hd : d ∈ r.domains) (hi : d.id ∈ r.index) :
    Named { r with index := r.index.erase d.id, names := r.names.filter (·.1 != d.name) } := by
  refine ⟨h.once.sublist (List.filter_sublist.map _),
    fun p hp => h.nameable p (List.mem_of_mem_filter hp), fun name k => ?_⟩
  have hown : (d.name, d.id) ∈ r.names := (h.stands _ _).mpr ⟨hi, d, hd, rfl, rfl⟩
  have hsame (hk : (name, k) ∈ r.names) : name = d.name ↔ k = d.id := by
    refine ⟨fun he => ?_, fun he => ?_⟩
    · exact congrArg Prod.snd (List.inj_on_of_nodup_map h.once hk hown he)
    · exact (ha.name_of_bears hd (he ▸ ((h.stands _ _).mp hk).2)).symm
  change (name, k) ∈ r.names.filter _ ↔ k ∈ r.index.erase d.id ∧ r.Bears k name
  rw [List.mem_filter, ha.once.mem_erase_iff, bne_iff_ne, and_assoc, ← h.stands, and_comm]
  exact and_congr_left fun hk => not_congr (hsame hk)

theorem unregister [Hardware H] (ha : r.Accounts held) (h : r.Named)
    (hd : r.registered? id = some d) : (r.unregistered d).Named := by
  obtain rfl := id_of_registered? hd
  obtain ⟨hi, hm⟩ := mem_of_registered? hd
  exact (h.unindex ha hm hi).drop (ha.unindex hi _)

theorem drain [Hardware H] (ha : r.Accounts held) : r.drain.2.Named := by
  have hdrained : r.drain.2.Accounts held ∧ r.drain.2.Named :=
    drain_induction (P := fun r held => r.Accounts held ∧ r.Named)
      ⟨ha.unindexAll [], .of_empty rfl rfl⟩ fun _ _ ⟨ha, h⟩ => ⟨ha.drop, h.drop ha⟩
  exact hdrained.2

end Named

/-- The indexes are inverse to each other, and a domain is found by its id and by its name. -/
structure IndexesAgree (r : Registry H) : Prop where
  once : (r.names.map Prod.fst).Nodup
  registered (id : DomainId) : r.isIndexed id = true → ∃ d, r.registered? id = some d ∧
    Nameable d.name ∧ (∀ name, r.names.lookup name = some id ↔ name = d.name) ∧
    lookupId id r = .ok id (r.hold id) ∧ lookupName d.name r = .ok id (r.hold id)
  missing (id : DomainId) : r.isIndexed id = false →
    lookupId id r = .error .notFound r ∧ ∀ name, r.names.lookup name ≠ some id
  unnamed (name : String) : r.names.lookup name = none → lookupName name r = .error .notFound r

theorem Named.indexesAgree (ha : r.Accounts held) (h : r.Named) : r.IndexesAgree := by
  have hstands (name : String) (id : DomainId) :
      r.names.lookup name = some id ↔ r.isIndexed id = true ∧ r.Bears id name := by
    rw [lookup_eq_some_iff_mem h.once, h.stands, isIndexed, List.contains_iff_mem]
  refine ⟨h.once, fun id hi => ?_, fun id hi => ⟨?_, fun name hn => ?_⟩,
    fun name => lookupName_missing⟩
  · obtain ⟨d, hd⟩ := Option.ne_none_iff_exists'.mp ((registered?_ne_none ha.backed).mpr hi)
    obtain rfl := id_of_registered? hd
    have hm := (mem_of_registered? hd).2
    have hown : r.names.lookup d.name = some d.id := (hstands _ _).mpr ⟨hi, d, hm, rfl, rfl⟩
    refine ⟨d, hd, ?_, fun name => ⟨fun hn => ?_, fun he => he ▸ hown⟩, lookupId_registered hd,
      (lookupName_named hown).trans (lookupId_registered hd)⟩
    · exact h.nameable _ ((lookup_eq_some_iff_mem h.once).mp hown)
    · exact (ha.name_of_bears hm ((hstands _ _).mp hn).2).symm
  · exact lookupId_missing (by simp [registered?, hi])
  · exact absurd ((hstands _ _).mp hn).1 (by simp [hi])

end AcceleratorScheduler.Registry
