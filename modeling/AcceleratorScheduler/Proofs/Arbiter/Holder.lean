import AcceleratorScheduler.Proofs.Arbiter.Roster

/-! Who holds exclusive access. Nobody but its holder gives it up, and whoever loses it otherwise
loses the records on the exclusive queues with it (`Balanced.record_perform`). -/
namespace AcceleratorScheduler.Arbiter

variable {a a' : Arbiter} {grants : List Grant} {role : QueueRole} {id : UserId}

def HeldBy (a : Arbiter) (id : UserId) : Prop := ∃ u ∈ a.users, u.id = id ∧ u.exclusive = true

theorem HeldBy.map (h : a.HeldBy id) {f : User → User} (hu : a'.users = a.users.map f)
    (hf : ∀ u, u.id = id → u.exclusive = true → (f u).id = id ∧ (f u).exclusive = true) :
    a'.HeldBy id := by
  obtain ⟨u, hm, hid, hx⟩ := h
  refine ⟨f u, ?_, hf u hid hx⟩
  rw [hu]
  exact List.mem_map_of_mem hm

theorem HeldBy.of_users (h : a.HeldBy id) (hu : a'.users = a.users) : a'.HeldBy id := by
  rwa [HeldBy, hu]

theorem Orderly.heldBy_unique (h : a.Orderly) {other : UserId} (hid : a.HeldBy id)
    (ho : a.HeldBy other) : id = other := by
  obtain ⟨u, hu, rfl, hx⟩ := hid
  obtain ⟨v, hv, rfl, hx'⟩ := ho
  rw [h.sole u hu v hv hx hx']

/-- Once the arbiter is torn down nobody holds exclusive access. -/
theorem Orderly.live_of_heldBy (h : a.Orderly) (hid : a.HeldBy id) : a.revoked = false := by
  obtain ⟨u, hu, -, hx⟩ := hid
  refine Bool.eq_false_iff.mpr fun hr => ?_
  rw [h.torn hr u hu] at hx
  cases hx

/-- Only the holder can use an exclusive queue. -/
theorem Orderly.heldBy_of_uses (h : a.Orderly) (hx : role.isExclusive = true)
    (hu : a.uses role = true) :
    ∃ u ∈ a.users, u.queues.contains role = true ∧ a.HeldBy u.id := by
  obtain ⟨u, hm, hq⟩ := List.any_eq_true.mp hu
  exact ⟨u, hm, hq, u, hm, rfl, h.reserved u hm role hx hq⟩

/-- A queue that nobody may use is unused. -/
theorem Orderly.uses_of_holder?_none (h : a.Orderly) (hx : role.isExclusive = true)
    (hn : a.holder? = none) : a.uses role = false := by
  refine Bool.eq_false_iff.mpr fun hu => ?_
  obtain ⟨u, -, -, hheld⟩ := h.heldBy_of_uses hx hu
  rw [h.holder?_eq_some_iff.mpr hheld] at hn
  cases hn

theorem holder?_of_reserve (hr : (answer (Arbiter.reserve id) a).1 = .ok ()) :
    a.holder? = some id ∨ a.holder? = none := by
  obtain ⟨e, he⟩ | ⟨u, -, -, -, ⟨hh, -⟩ | ⟨hh, -⟩⟩ := reserve_cases id a
  · rw [answer_of_error he] at hr
    cases hr
  · exact .inl hh
  · exact .inr hh

/-- A record that there is after a step was there before, or the step granted it. -/
theorem Carries.record_cases (h : a.Balanced grants) {new : Option Grant}
    (hc : Carries a (grants ++ new.toList) a') {r : Mapping} (hr : r ∈ a'.records role) :
    r ∈ a.records role ∨ ∃ g, new = some g ∧ g.record = r ∧ g.view.queue = role := by
  obtain ⟨g, hg, hh, rfl⟩ := hc.balanced.grant_of_record hr
  simp only [holds, Bool.and_eq_true, beq_iff_eq] at hh
  obtain ⟨rfl, hl⟩ := hh
  rcases List.mem_append.mp hg with hg | hg
  · refine .inl (h.record_of_grant hg ?_)
    by_contra hdead
    rw [hc.stale (h.known g hg) (by simpa using hdead)] at hl
    cases hl
  · exact .inr ⟨g, by simpa using hg, rfl, rfl⟩

def Operation.relieves : Operation → UserId → Bool
  | removeUser user, id | release user, id | reset user, id => user == id
  | revokeAll, _ | destroy, _ => true
  | _, _ => false

theorem Outcome.heldBy {op : Operation} {new : Option Grant} (ho : Outcome a op new a')
    (h : a.HeldBy id) (hop : op.relieves id = false) : a'.HeldBy id := by
  by_cases hs : op.sparesUsers = true
  · exact h.of_users (ho.sameUsers hs).users
  cases ho with
  | unchanged => exact h
  | joined =>
    obtain ⟨u, hm, hu⟩ := h
    exact ⟨u, List.mem_append_left _ hm, hu⟩
  | departed hu =>
    obtain ⟨w, hm, hw, hx⟩ := h
    refine ⟨w, ?_, hw, hx⟩
    rw [users_removeUser hu, List.mem_filter]
    refine ⟨hm, bne_iff_ne.mpr ?_⟩
    rw [hw]
    exact Ne.symm (beq_eq_false_iff_ne.mp hop)
  | reserved =>
    refine h.map rfl fun u hid hx => ?_
    split <;> exact ⟨hid, by first | rfl | exact hx⟩
  | released =>
    refine h.map rfl fun u hid hx => ?_
    rw [if_neg fun he => beq_eq_false_iff_ne.mp hop (he.symm.trans hid)]
    exact ⟨hid, hx⟩
  | relieved hu =>
    refine h.map (users_reset hu) fun u hid hx => ?_
    rw [if_neg fun he => beq_eq_false_iff_ne.mp hop (he.symm.trans hid)]
    exact ⟨hid, hx⟩
  | opened _ _ _ ha =>
    refine (h.of_users ha.sameUsers.users).map rfl fun u hid hx => ?_
    split <;> exact ⟨hid, hx⟩
  | @closed user role _ a' _ _ _ ha =>
    have hclosed : a'.HeldBy id := by
      rw [ha]
      refine h.map rfl fun u hid hx => ?_
      split <;> exact ⟨hid, hx⟩
    exact hclosed.of_users (sameUsers_discard a' role).users
  | lent hmaps => exact absurd (Operation.sparesUsers_of_maps hmaps) hs
  | revokedAll => cases hop
  | destroyed => cases hop
  | _ => exact absurd rfl hs

/-- A mapping of an exclusive queue is granted to the holder. -/
theorem Outcome.heldBy_of_grant {op : Operation} {g : Grant} (ho : Outcome a op (some g) a')
    (hx : g.view.queue.isExclusive = true) : a'.HeldBy g.owner := by
  cases ho with
  | lent _ hl =>
    obtain ⟨-, ⟨u, hu, hux⟩, ⟨_, _, -, -, rfl⟩, hv⟩ := hl
    obtain ⟨hm, hid⟩ := mem_of_user? hu
    rw [hv] at hx
    exact ⟨u, hm, hid, hux hx⟩

/-- Whoever loses exclusive access loses the records too, unless it gave that access up itself. -/
theorem Outcome.relieved_cases {op : Operation} {new : Option Grant} (ho : Outcome a op new a')
    (h : a.Balanced grants) {r : Mapping} (hop : op.relieves r.owner = true)
    (hr : r ∈ a'.records role) (hx : role.isExclusive = true) (hh : a.HeldBy r.owner) :
    a'.HeldBy r.owner ∨
      op = .release r.owner ∧ (answer (Arbiter.release r.owner) a).1 = .ok () := by
  cases ho with
  | unchanged => exact .inl hh
  | departed hu =>
    obtain rfl := beq_iff_eq.mp hop
    rw [h.records_removeUser hu] at hr
    simp at hr
  | released hu hx hq =>
    obtain rfl := beq_iff_eq.mp hop
    exact .inr ⟨rfl, by rw [answer_of_ok (release_granted hu hx hq)]⟩
  | relieved hu =>
    obtain rfl := beq_iff_eq.mp hop
    rw [h.records_reset hu, if_pos hx] at hr
    simp at hr
  | lent hmaps => cases op <;> first | (cases hmaps; done) | cases hop
  | revokedAll => cases role <;> cases hr
  | destroyed => cases role <;> cases hr
  | _ => cases hop

theorem HeldBy.perform (h : a.HeldBy id) (op : Operation) (hop : op.relieves id = false) :
    (op.perform a).2.HeldBy id :=
  (op.outcome a).heldBy h hop

/-- How a record of an exclusive queue can come to be somebody else's than the holder's. -/
theorem Balanced.record_perform (h : a.Balanced grants) (op : Operation)
    (hv : ∀ v, op.view? = some v → ∃ g ∈ grants, g.view = v) {r : Mapping}
    (hr : r ∈ (op.perform a).2.records role) (hx : role.isExclusive = true) :
    (op.perform a).2.HeldBy r.owner ∨ r ∈ a.records role ∧ (a.HeldBy r.owner →
      op = .release r.owner ∧ (answer (Arbiter.release r.owner) a).1 = .ok ()) := by
  rcases Carries.record_cases h (h.perform op hv) hr with hold | ⟨g, hg, rfl, rfl⟩
  · by_cases hh : a.HeldBy r.owner
    · cases hop : op.relieves r.owner with
      | false => exact .inl (hh.perform op hop)
      | true =>
        exact ((op.outcome a).relieved_cases h hop hr hx hh).imp_right
          fun hrel => ⟨hold, fun _ => hrel⟩
    · exact .inr ⟨hold, fun hh' => absurd hh' hh⟩
  · exact .inl ((hg ▸ op.outcome a).heldBy_of_grant hx)

/-- Exclusive access cannot be given up as long as an exclusive queue is in use. -/
theorem Orderly.uses_of_release (h : a.Orderly) (hr : (answer (Arbiter.release id) a).1 = .ok ())
    (hx : role.isExclusive = true) : a.uses role = false := by
  obtain ⟨e, he⟩ | ⟨w, hw, hwx, hmeets, -⟩ := release_cases id a
  · rw [answer_of_error he] at hr
    cases hr
  · by_contra hu
    obtain ⟨u, hm, hq⟩ := List.any_eq_true.mp (Bool.not_eq_false _ ▸ hu)
    have hux := h.reserved u hm role hx hq
    rw [h.sole u hm w (mem_of_user? hw).1 hux hwx] at hq
    rw [QueueSet.meets_exclusive hx hq] at hmeets
    cases hmeets

theorem holder?_of_release (h : a.Orderly) (hr : (answer (Arbiter.release id) a).1 = .ok ()) :
    (answer (Arbiter.release id) a).2.holder? = none := by
  obtain ⟨e, he⟩ | ⟨w, hw, hwx, -, ht⟩ := release_cases id a
  · rw [answer_of_error he] at hr
    cases hr
  · rw [answer_of_ok ht, holder?_eq_none_iff]
    intro u hu
    obtain ⟨v, hv, rfl⟩ := List.mem_map.mp hu
    obtain ⟨hm, rfl⟩ := mem_of_user? hw
    split
    next => rfl
    next hne =>
      refine Bool.eq_false_iff.mpr fun hvx => hne ?_
      rw [h.sole v hv w hm hvx hwx]

end AcceleratorScheduler.Arbiter
