import AcceleratorScheduler.Proofs.Arbiter.Regions

/-! An arbiter that was torn down. It has no buffers, no session of it uses a queue or holds
exclusive access, none of its views is valid, and no operation brings any of that back
(`Closed.perform`). -/
namespace AcceleratorScheduler.Arbiter

variable {a a' : Arbiter} {grants : List Grant} {op : Operation} {new : Option Grant}

structure Idle (u : User) : Prop where
  shared : u.exclusive = false
  unused : u.queues = .empty

structure Closed (a : Arbiter) : Prop where
  revoked : a.revoked = true
  empty (role : QueueRole) : a.queues.get role = none
  idle : ∀ u ∈ a.users, Idle u

theorem closed_revokeAll (a : Arbiter) : a.revokeAll.2.Closed where
  revoked := rfl
  empty role := by cases role <;> rfl
  idle u hu := by
    obtain ⟨v, -, rfl⟩ := List.mem_map.mp hu
    exact ⟨rfl, rfl⟩

namespace Closed

/-- A valid view has a record, for which there is no buffer. -/
theorem stale (h : a.Closed) (hb : a.Balanced grants) {g : Grant} (hg : g ∈ grants) :
    a.memory.isLive g.view.view = false := by
  refine Bool.eq_false_iff.mpr fun hl => ?_
  have hr := hb.record_of_grant hg hl
  rw [records_none (h.empty _)] at hr
  cases hr

theorem isExclusiveUser (h : a.Closed) (id : UserId) : a.isExclusiveUser id = false := by
  rw [Arbiter.isExclusiveUser]
  cases hu : a.user? id with
  | none => rfl
  | some u => exact (h.idle u (mem_of_user? hu).1).shared

theorem userIsActive (h : a.Closed) (id : UserId) : a.userIsActive id = false := by
  rw [Arbiter.userIsActive]
  cases hu : a.user? id with
  | none => rfl
  | some u => rw [Option.any_some, (h.idle u (mem_of_user? hu).1).unused]; rfl

theorem mapHandle (h : a.Closed) (handle : ExportHandle) (offset length : Nat)
    (room : RecordRoom) : mapHandle handle offset length room a = .error .deviceGone a := by
  refine (bind_ok (get_apply a)).trans ?_
  cases a.dissolved with
  | true => rfl
  | false => exact bind_error (ensureLive_revoked h.revoked)

end Closed

/-- What asks for a buffer, for exclusive access or for a session asks whether the arbiter is still
there; what remains can only take away. -/
theorem Outcome.closed_of_closed (ho : Outcome a op new a') (h : a.Closed) : a'.Closed := by
  have hempty (role : QueueRole) : a'.queues.get role = none := by
    cases ho.tenure role with
    | vacated hnone => exact hnone
    | kept hb => cases (h.empty role).symm.trans hb
    | founded hl => cases h.revoked.symm.trans hl
  suffices hrest : a'.revoked = true ∧ ∀ u ∈ a'.users, Idle u from ⟨hrest.1, hempty, hrest.2⟩
  by_cases hs : op.sparesUsers = true
  · rw [(ho.sameUsers hs).revoked, (ho.sameUsers hs).users]
    exact ⟨h.revoked, h.idle⟩
  cases ho with
  | unchanged => exact ⟨h.revoked, h.idle⟩
  | joined hl => cases h.revoked.symm.trans hl
  | departed hu =>
    refine ⟨?_, fun u hm => ?_⟩
    · rw [removeUser_of_user hu]
      exact (counters_revokeUser a _ .full).2.trans h.revoked
    · rw [users_removeUser hu] at hm
      exact h.idle u (List.mem_of_mem_filter hm)
  | reserved hl => cases h.revoked.symm.trans hl
  | released hu hx => cases (h.idle _ (mem_of_user? hu).1).shared.symm.trans hx
  | @relieved id _ hu =>
    refine ⟨?_, fun u hm => ?_⟩
    · rw [reset_of_user hu]
      exact (counters_revokeUser (a.updateUser id _) id .exclusive).2.trans h.revoked
    · rw [users_reset hu] at hm
      obtain ⟨v, hv, rfl⟩ := List.mem_map.mp hm
      split
      · refine ⟨rfl, ?_⟩
        change v.queues.without .exclusive = .empty
        rw [(h.idle v hv).unused]
        rfl
      · exact h.idle v hv
  | opened hl => cases h.revoked.symm.trans hl
  | @closed _ role _ _ hu hq =>
    rw [(h.idle _ (mem_of_user? hu).1).unused] at hq
    cases role <;> cases hq
  | lent hmaps => exact absurd (Operation.sparesUsers_of_maps hmaps) hs
  | revokedAll => exact ⟨rfl, (closed_revokeAll a).idle⟩
  | destroyed => exact ⟨rfl, nofun⟩
  | _ => exact absurd rfl hs

theorem Closed.perform (h : a.Closed) (op : Operation) : (op.perform a).2.Closed :=
  (op.outcome a).closed_of_closed h

namespace Ledger

variable {l : Ledger}

theorem closed_perform (h : l.arbiter.Closed) (op : Operation) : (l.perform op).arbiter.Closed := by
  rw [perform]
  split
  · exact h.perform op
  · exact h

theorem closed_run (h : l.arbiter.Closed) (ops : List Operation) : (l.run ops).arbiter.Closed := by
  induction ops generalizing l with
  | nil => exact h
  | cons op ops ih => exact ih (closed_perform h op)

end Ledger

end AcceleratorScheduler.Arbiter
