import AcceleratorScheduler.Proofs.Arbiter.Mappings

/-! A session's views on some queues end together with its use of them. Other sessions keep what
they have, and a buffer stays as long as another session uses it or maps it. -/
namespace AcceleratorScheduler

namespace QueueSet

def without (set roles : QueueSet) : QueueSet where
  send := set.send && !roles.send
  receive := set.receive && !roles.receive
  event := set.event && !roles.event

@[simp] theorem contains_without (set roles : QueueSet) (role : QueueRole) :
    (set.without roles).contains role = (set.contains role && !roles.contains role) := by
  cases role <;> rfl

theorem foldl_erase (set roles : QueueSet) :
    (QueueRole.all.filter roles.contains).foldl erase set = set.without roles := by
  rcases set with ⟨_ | _, _ | _, _ | _⟩ <;> rcases roles with ⟨_ | _, _ | _, _ | _⟩ <;> rfl

@[simp] theorem contains_exclusive (role : QueueRole) :
    exclusive.contains role = role.isExclusive := by
  cases role <;> rfl

theorem meets_exclusive {set : QueueSet} {role : QueueRole} (hx : role.isExclusive = true)
    (h : set.contains role = true) : set.meets exclusive = true := by
  cases role with
  | send =>
    have hs : set.send = true := h
    simp [meets, exclusive, hs]
  | receive =>
    have hr : set.receive = true := h
    simp [meets, exclusive, hr]
  | event => cases hx

@[simp] theorem contains_full (role : QueueRole) : full.contains role = true := by
  cases role <;> rfl

end QueueSet

theorem QueueRole.mem_all (role : QueueRole) : role ∈ QueueRole.all := by
  cases role <;> decide

namespace Arbiter

variable {a : Arbiter} {grants : List Grant}

def usesBeside (a : Arbiter) (id : UserId) (role : QueueRole) : Bool :=
  a.users.any fun u => u.id != id && u.queues.contains role

/-- A queue's buffer without the session's records. It goes if nobody else uses or maps it. -/
def remainder (a : Arbiter) (id : UserId) (role : QueueRole) : Option SharedBuffer :=
  ((a.queues.get role).map fun b => (b.revokeOwner id).2).filter fun b =>
    a.usesBeside id role || b.isMapped

theorem uses_updateUser_erase (a : Arbiter) (id : UserId) (role : QueueRole) :
    (a.updateUser id fun u => { u with queues := u.queues.erase role }).uses role =
      a.usesBeside id role := by
  rw [uses, updateUser, List.any_map, usesBeside]
  congr 1
  funext u
  by_cases h : u.id = id <;> simp [h]

theorem usesBeside_updateUser (a : Arbiter) (id : UserId) {f : User → User}
    (hf : ∀ u, (f u).id = u.id) (role : QueueRole) :
    (a.updateUser id f).usesBeside id role = a.usesBeside id role := by
  rw [usesBeside, updateUser, List.any_map, usesBeside]
  congr 1
  funext u
  by_cases h : u.id = id <;> simp [h, hf]

theorem users_releaseUnused (a : Arbiter) (role : QueueRole) :
    (a.releaseUnused role).users = a.users := by
  rw [releaseUnused]
  split <;> rfl

theorem users_revokeQueue (a : Arbiter) (id : UserId) (role : QueueRole) :
    (a.revokeQueue id role).users =
      (a.updateUser id fun u => { u with queues := u.queues.erase role }).users := by
  rw [revokeQueue, users_releaseUnused]
  cases a.queues.get role <;> rfl

theorem usesBeside_of_users {a' : Arbiter} (h : a'.users = a.users) (id : UserId)
    (role : QueueRole) : a'.usesBeside id role = a.usesBeside id role := by
  rw [usesBeside, h, usesBeside]

theorem usesBeside_revokeQueue (a : Arbiter) (id : UserId) (role other : QueueRole) :
    (a.revokeQueue id role).usesBeside id other = a.usesBeside id other :=
  (usesBeside_of_users (users_revokeQueue a id role) id other).trans
    (usesBeside_updateUser a id (f := fun u => { u with queues := u.queues.erase role })
      (fun _ => rfl) other)

theorem get_revokeQueue (a : Arbiter) (id : UserId) (role other : QueueRole) :
    (a.revokeQueue id role).queues.get other =
      if other = role then a.remainder id role else a.queues.get other := by
  cases hb : a.queues.get role with
  | none =>
    have hr : a.remainder id role = none := by rw [remainder, hb]; rfl
    have hu : ((a.updateUser id fun u => { u with queues := u.queues.erase role }).queues.get
        role).any (!·.isMapped) = false := by
      change (a.queues.get role).any _ = false
      rw [hb]
      rfl
    simp only [revokeQueue, hb, releaseUnused, hu, Bool.and_false, Bool.false_eq_true, if_false, hr]
    split
    next he => rw [he]; exact hb
    next => rfl
  | some b =>
    let cut : Arbiter := { a.putBuffer role (some (b.revokeOwner id).2) with
      memory := a.memory.unlinkAll (b.revokeOwner id).1 }
    have hcut : a.revokeQueue id role = (cut.updateUser id fun u =>
        { u with queues := u.queues.erase role }).releaseUnused role := by
      simp only [revokeQueue, hb]
      rfl
    have hget (k : QueueRole) : (cut.updateUser id fun u =>
        { u with queues := u.queues.erase role }).queues.get k =
          if k = role then some (b.revokeOwner id).2 else a.queues.get k :=
      QueueTable.get_put _ _ _ _
    have huses : (cut.updateUser id fun u => { u with queues := u.queues.erase role }).uses role =
        a.usesBeside id role :=
      (uses_updateUser_erase cut id role).trans (usesBeside_of_users rfl id role)
    rw [hcut, releaseUnused, huses, hget role, if_pos rfl, Option.any_some, remainder, hb,
      Option.map_some]
    cases hk : a.usesBeside id role || (b.revokeOwner id).2.isMapped with
    | true =>
      have hno : (!a.usesBeside id role && !(b.revokeOwner id).2.isMapped) = false := by
        rw [← Bool.not_or, hk, Bool.not_true]
      rw [hno, if_neg Bool.false_ne_true, hget, Option.filter_some, hk]
      rfl
    | false =>
      have hyes : (!a.usesBeside id role && !(b.revokeOwner id).2.isMapped) = true := by
        rw [← Bool.not_or, hk, Bool.not_false]
      rw [hyes, if_pos rfl, putBuffer, QueueTable.get_put, hget, Option.filter_some, hk]
      split <;> rfl

private theorem remainder_revokeQueue (a : Arbiter) (id : UserId) {role other : QueueRole}
    (h : other ≠ role) : (a.revokeQueue id role).remainder id other = a.remainder id other := by
  rw [remainder, get_revokeQueue, if_neg h, usesBeside_revokeQueue, remainder]

/-- What is left of a queue depends on that queue alone, so the order does not matter. -/
private theorem get_foldl_revokeQueue (id : UserId) {l : List QueueRole} (hl : l.Nodup)
    (a : Arbiter) (role : QueueRole) :
    (l.foldl (fun a role => a.revokeQueue id role) a).queues.get role =
      if role ∈ l then a.remainder id role else a.queues.get role := by
  induction l generalizing a with
  | nil => rfl
  | cons first l ih =>
    obtain ⟨hfirst, hl⟩ := List.nodup_cons.mp hl
    rw [List.foldl_cons, ih hl]
    by_cases he : role = first
    · subst he
      rw [if_neg hfirst, if_pos List.mem_cons_self, get_revokeQueue, if_pos rfl]
    · rw [remainder_revokeQueue a id he, get_revokeQueue, if_neg he]
      simp only [List.mem_cons, he, false_or]

theorem get_revokeUser (a : Arbiter) (id : UserId) (roles : QueueSet) (role : QueueRole) :
    (a.revokeUser id roles).queues.get role =
      if roles.contains role then a.remainder id role else a.queues.get role := by
  have hl : (QueueRole.all.filter roles.contains).Nodup := List.Nodup.filter _ (by decide)
  rw [revokeUser, get_foldl_revokeQueue id hl]
  simp only [List.mem_filter, QueueRole.mem_all, true_and]

private theorem users_foldl_revokeQueue (id : UserId) (l : List QueueRole) (a : Arbiter) :
    (l.foldl (fun a role => a.revokeQueue id role) a).users =
      (a.updateUser id fun u => { u with queues := l.foldl QueueSet.erase u.queues }).users := by
  induction l generalizing a with
  | nil =>
    refine (List.map_id a.users).symm.trans (List.map_congr_left fun u _ => ?_)
    exact (ite_self u).symm
  | cons role l ih =>
    rw [List.foldl_cons, ih, updateUser, users_revokeQueue, updateUser, List.map_map, updateUser]
    refine List.map_congr_left fun u _ => ?_
    by_cases h : u.id = id <;> simp [h]

theorem users_revokeUser (a : Arbiter) (id : UserId) (roles : QueueSet) :
    (a.revokeUser id roles).users =
      (a.updateUser id fun u => { u with queues := u.queues.without roles }).users := by
  rw [revokeUser, users_foldl_revokeQueue]
  simp only [QueueSet.foldl_erase]

/-- The records of others stay, also where the buffer goes: then there are none. -/
theorem Balanced.records_revokeUser (h : a.Balanced grants) (id : UserId) (roles : QueueSet)
    (role : QueueRole) : (a.revokeUser id roles).records role =
      if roles.contains role then (a.records role).filter (fun r => !(r.owner == id))
      else a.records role := by
  rw [records, get_revokeUser]
  split
  next =>
    cases hb : a.queues.get role with
    | none => rw [remainder, hb, records_none hb]; rfl
    | some b =>
      have hm : (b.revokeOwner id).2.mappings = b.mappings.filter fun r => !(r.owner == id) := by
        rw [SharedBuffer.revokeOwner_eq]
      rw [remainder, hb, Option.map_some, Option.filter_some, records_some hb]
      cases hk : a.usesBeside id role || (b.revokeOwner id).2.isMapped with
      | true => exact hm
      | false =>
        have hcount := (Ledger.counts_exactly (h.counted hb)).2 id
        have hlen := b.mappings.length_eq_length_filter_add fun r => r.owner == id
        have hgone : (b.revokeOwner id).1.length =
            (b.mappings.filter fun r => r.owner == id).length := by
          rw [SharedBuffer.revokeOwner_eq, List.length_map]
        simp only [SharedBuffer.isMapped_eq, Bool.or_eq_false_iff, bne_eq_false_iff_eq] at hk
        have hzero : (b.mappings.filter fun r => !(r.owner == id)).length = 0 := by
          have := h.counted hb
          omega
        rw [List.length_eq_zero_iff.mp hzero]
        rfl
  next => rfl

theorem counters_revokeUser (a : Arbiter) (id : UserId) (roles : QueueSet) :
    (a.revokeUser id roles).nextUser = a.nextUser ∧ (a.revokeUser id roles).revoked = a.revoked := by
  have hunused (a : Arbiter) (role : QueueRole) : (a.releaseUnused role).nextUser = a.nextUser ∧
      (a.releaseUnused role).revoked = a.revoked := by
    rw [releaseUnused]
    split <;> exact ⟨rfl, rfl⟩
  have hqueue (a : Arbiter) (role : QueueRole) : (a.revokeQueue id role).nextUser = a.nextUser ∧
      (a.revokeQueue id role).revoked = a.revoked := by
    rw [revokeQueue, (hunused _ _).1, (hunused _ _).2]
    cases a.queues.get role <;> exact ⟨rfl, rfl⟩
  have hfold (l : List QueueRole) (a : Arbiter) :
      (l.foldl (fun a role => a.revokeQueue id role) a).nextUser = a.nextUser ∧
        (l.foldl (fun a role => a.revokeQueue id role) a).revoked = a.revoked := by
    induction l generalizing a with
    | nil => exact ⟨rfl, rfl⟩
    | cons role l ih =>
      exact ⟨(ih _).1.trans (hqueue a role).1, (ih _).2.trans (hqueue a role).2⟩
  exact hfold _ a

section

variable {id : UserId} {u : User}

theorem reset_of_user (h : a.user? id = some u) : a.reset id =
    (a.updateUser id fun u => { u with exclusive := false }).revokeUser id .exclusive := by
  rw [reset, h]

theorem removeUser_of_user (h : a.user? id = some u) : (a.removeUser id).2 =
    { a.revokeUser id .full with
      users := (a.revokeUser id .full).users.filter (·.id != id) } := by
  rw [removeUser, h]

theorem users_reset (h : a.user? id = some u) : (a.reset id).users = (a.updateUser id fun u =>
    { u with exclusive := false, queues := u.queues.without .exclusive }).users := by
  rw [reset_of_user h, users_revokeUser, updateUser, updateUser, updateUser, List.map_map]
  refine List.map_congr_left fun u _ => ?_
  by_cases he : u.id = id <;> simp [he]

theorem users_removeUser (h : a.user? id = some u) :
    (a.removeUser id).2.users = a.users.filter (·.id != id) := by
  rw [removeUser_of_user h, users_revokeUser, updateUser, List.filter_map]
  refine (List.map_congr_left fun u hu => ?_).trans (List.map_id _ |>.trans ?_)
  · have hne := (List.mem_filter.mp hu).2
    simp only [Function.comp_apply] at hne
    split at hne
    next he => simp [he] at hne
    next he => exact if_neg he
  · refine List.filter_congr fun u _ => ?_
    simp only [Function.comp_apply]
    split
    next he => simp [he]
    next => rfl

theorem uses_reset (h : a.user? id = some u) {role : QueueRole} (hx : role.isExclusive = true) :
    (a.reset id).uses role = a.usesBeside id role := by
  rw [uses, users_reset h, updateUser, List.any_map, usesBeside]
  congr 1
  funext u
  by_cases he : u.id = id <;> simp [he, hx]

theorem uses_removeUser (h : a.user? id = some u) (role : QueueRole) :
    (a.removeUser id).2.uses role = a.usesBeside id role := by
  rw [uses, users_removeUser h, List.any_filter, usesBeside]

theorem get_reset (h : a.user? id = some u) (role : QueueRole) : (a.reset id).queues.get role =
    if role.isExclusive then a.remainder id role else a.queues.get role := by
  have hr : (a.updateUser id fun u => { u with exclusive := false }).remainder id role =
      a.remainder id role := by
    rw [remainder, usesBeside_updateUser a id (f := fun u => { u with exclusive := false })
      (fun _ => rfl)]
    rfl
  rw [reset_of_user h, get_revokeUser, QueueSet.contains_exclusive, hr]
  rfl

theorem get_removeUser (h : a.user? id = some u) (role : QueueRole) :
    (a.removeUser id).2.queues.get role = a.remainder id role := by
  rw [removeUser_of_user h]
  exact (get_revokeUser a id .full role).trans (if_pos (QueueSet.contains_full role))

theorem Balanced.records_reset (h : a.Balanced grants) (hu : a.user? id = some u)
    (role : QueueRole) : (a.reset id).records role =
      if role.isExclusive then (a.records role).filter (fun r => !(r.owner == id))
      else a.records role := by
  rw [reset_of_user hu, (h.updateUser id _).balanced.records_revokeUser,
    QueueSet.contains_exclusive]
  rfl

theorem Balanced.records_removeUser (h : a.Balanced grants) (hu : a.user? id = some u)
    (role : QueueRole) : (a.removeUser id).2.records role =
      (a.records role).filter fun r => !(r.owner == id) := by
  rw [removeUser_of_user hu]
  exact (h.records_revokeUser id .full role).trans (if_pos (QueueSet.contains_full role))

end

end Arbiter

end AcceleratorScheduler
