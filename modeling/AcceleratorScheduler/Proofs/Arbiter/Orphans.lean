import AcceleratorScheduler.Proofs.Arbiter.Occupancy

/-! Buffers that stay behind: no session uses the queue and nothing maps it any more. Ending a use
or a session frees such a buffer; closing a view does not, so exactly the last view on an unused
queue leaves one behind (`Ledger.orphaned_perform`, `Ledger.orphaned_of_last_view`). -/
namespace AcceleratorScheduler.Arbiter

variable {a a' : Arbiter} {grants : List Grant} {role : QueueRole} {id : UserId} {u : User}
  {op : Operation} {new : Option Grant}

/-- The queue has a buffer that no session uses and nothing maps. -/
structure Orphaned (a : Arbiter) (role : QueueRole) : Prop where
  present : (a.queues.get role).isSome = true
  unused : a.uses role = false
  unmapped : a.records role = []

theorem Orphaned.of_same (h : a'.Orphaned role) (hs : SameUse a a' role)
    (hr : a'.records role = a.records role) : a.Orphaned role :=
  ⟨hs.present ▸ h.present, hs.uses ▸ h.unused, hr ▸ h.unmapped⟩

theorem records_of_get (h : a'.queues.get role = a.queues.get role) :
    a'.records role = a.records role := by
  rw [records, h, records]

/-- What a session leaves is used by another one, or mapped. -/
theorem not_orphaned_of_remainder (hb : a'.Balanced grants)
    (hu : a'.uses role = a.usesBeside id role)
    (hg : a'.queues.get role = a.remainder id role) : ¬ a'.Orphaned role := by
  intro h
  obtain ⟨b, hget⟩ := Option.isSome_iff_exists.mp h.present
  obtain ⟨-, hkeep⟩ := Option.filter_eq_some_iff.mp (hg ▸ hget)
  rw [← hu, h.unused, Bool.false_or, SharedBuffer.isMapped_eq, hb.counted hget,
    ← records_some hget, h.unmapped] at hkeep
  cases hkeep

/-- A buffer is left behind when a view is closed and by nothing else. -/
theorem Outcome.orphaned_cases (ho : Outcome a op new a') (hb : a'.Balanced grants)
    (hop : op.supplies role = false) (h : a'.Orphaned role) :
    a.Orphaned role ∨ ∃ v, op = .closeView v := by
  have hquiet (hs : SameUse a a' role) (hg : a'.queues.get role = a.queues.get role) :
      a.Orphaned role ∨ ∃ v, op = .closeView v :=
    .inl (h.of_same hs (records_of_get hg))
  have hpresent : a'.queues.get role ≠ none := fun hnone => by
    have hsome := h.present
    rw [hnone] at hsome
    cases hsome
  cases ho with
  | unchanged => exact .inl h
  | joined => exact hquiet (sameUse_joined a role _ _) rfl
  | departed hu =>
    exact absurd h
      (not_orphaned_of_remainder hb (uses_removeUser hu role) (get_removeUser hu role))
  | reserved | released => exact hquiet (.updateUser a _ fun _ => rfl) rfl
  | relieved hu =>
    have hget := get_reset hu role
    cases hx : role.isExclusive with
    | true =>
      rw [hx, if_pos rfl] at hget
      exact absurd h (not_orphaned_of_remainder hb (uses_reset hu hx) hget)
    | false =>
      rw [hx, if_neg Bool.false_ne_true] at hget
      refine hquiet ⟨?_, congrArg Option.isSome hget⟩ hget
      rw [Arbiter.uses, users_reset hu, ← Arbiter.uses]
      exact (SameUse.updateUser a _ fun u => by simp [hx]).uses
  | @allocated _ other =>
    by_cases he : role = other
    · rw [Operation.supplies, he, beq_self_eq_true] at hop
      cases hop
    · exact hquiet (.put rfl rfl fun h => absurd h he) ((QueueTable.get_put ..).trans (if_neg he))
  | @freed other =>
    by_cases he : role = other
    · exact absurd ((QueueTable.get_put ..).trans (if_pos he)) hpresent
    · exact hquiet (.put rfl rfl fun h => absurd h he) ((QueueTable.get_put ..).trans (if_neg he))
  | @opened _ user other _ u b _ hu _ hs =>
    by_cases he : role = other
    · subst he
      have hu' : b.user? user = some u := by rw [user?, hs.sameUsers.users, ← user?, hu]
      cases h.unused.symm.trans (uses_updateUser_insert hu' role)
    · refine hquiet (hs.sameUse_insert he user) ?_
      cases hs with
      | present => rfl
      | installed => exact (QueueTable.get_put ..).trans (if_neg he)
  | @closed user other _ b _ _ _ ha =>
    by_cases he : role = other
    · subst he
      split at h
      next hu => cases h.unused.symm.trans hu
      next hu =>
        rw [if_neg hu] at hpresent
        exact absurd ((QueueTable.get_put ..).trans (if_pos rfl)) hpresent
    · have hsame : SameUse a b role := ha ▸ sameUse_erase he a user
      have hget : b.queues.get role = a.queues.get role := by rw [ha]; rfl
      split at h
      · exact .inl (h.of_same hsame (records_of_get hget))
      · have hput : (b.putBuffer other none).queues.get role = b.queues.get role :=
          (QueueTable.get_put ..).trans (if_neg he)
        exact .inl (h.of_same (hsame.trans (.put rfl rfl fun h => absurd h he))
          (records_of_get (hput.trans hget)))
  | @lent _ other _ _ _ _ _ _ _ _ hl =>
    have hsame : SameUse a a' role := hl.sameUse
    obtain ⟨-, -, ⟨b, b', hget, hatt, rfl⟩, -⟩ := hl
    obtain ⟨-, -, -, -, -, -, rfl⟩ := SharedBuffer.attach_eq_ok hatt
    by_cases he : role = other
    · have hrecords := h.unmapped
      rw [records_some ((QueueTable.get_put ..).trans (if_pos he))] at hrecords
      simp at hrecords
    · exact hquiet hsame ((QueueTable.get_put ..).trans (if_neg he))
  | viewClosed v => exact .inr ⟨v, rfl⟩
  | accessed v operation =>
    rw [onView_snd] at hquiet
    exact hquiet ⟨rfl, rfl⟩ rfl
  | scheduled other operation =>
    rw [onBuffer_snd] at hquiet
    exact hquiet ⟨rfl, rfl⟩ rfl
  | revokedAll | destroyed => exact absurd (by cases role <;> rfl) hpresent

namespace Ledger

variable {l : Ledger} {g : Grant}

/-- The queue has a buffer that no session uses and no valid view maps. -/
def Orphaned (l : Ledger) (role : QueueRole) : Prop :=
  (l.arbiter.queues.get role).isSome = true ∧ l.arbiter.uses role = false ∧ l.live role = []

theorem orphaned_iff (hb : l.arbiter.Balanced l.grants) :
    l.Orphaned role ↔ l.arbiter.Orphaned role := by
  have hlive : l.live role = [] ↔ l.arbiter.records role = [] := by
    rw [← hb.matched role, List.map_eq_nil_iff, live]
  rw [Orphaned, hlive]
  constructor
  · rintro ⟨hp, hu, hm⟩
    exact ⟨hp, hu, hm⟩
  · intro h
    exact ⟨h.present, h.unused, h.unmapped⟩

theorem perform_closeView (hg : g ∈ l.grants) :
    l.perform (.closeView g.view) = { l with arbiter := l.arbiter.closeView g.view } := by
  have hall : (Operation.closeView g.view).view?.all (fun v => l.grants.any (·.view == v)) =
      true := List.any_eq_true.mpr ⟨g, hg, beq_self_eq_true _⟩
  rw [(perform_of_granted hall).2, Operation.perform, Option.toList_none, List.append_nil]

/-- Closing a view ends that view. -/
theorem live_closeView (hb : l.arbiter.Balanced l.grants) (hg : g ∈ l.grants) (role : QueueRole) :
    (l.perform (.closeView g.view)).live role =
      (l.live role).filter fun x => x.view.view != g.view.view := by
  rw [perform_closeView hg, live, live, List.filter_filter]
  refine List.filter_congr fun x _ => ?_
  rw [holds, hb.isLive_closeView hg, holds, ← Bool.and_assoc, Bool.and_comm]

/-- A step leaves a buffer behind only by closing the last view on an unused queue. -/
theorem orphaned_perform (hb : l.arbiter.Balanced l.grants) (hop : op.supplies role = false)
    (h : (l.perform op).Orphaned role) : l.Orphaned role ∨
      ∃ g, op = .closeView g.view ∧ l.arbiter.uses role = false ∧ l.live role = [g] := by
  have hb' := (carries_perform hb op).1.balanced
  cases hv : op.view?.all fun v => l.grants.any (·.view == v) with
  | false =>
    rw [perform_of_refused hv] at h
    exact .inl h
  | true =>
    obtain ⟨hview, hp⟩ := perform_of_granted hv
    have horphan := (orphaned_iff hb').mp h
    rw [hp] at horphan hb'
    obtain hold | ⟨v, rfl⟩ := (op.outcome l.arbiter).orphaned_cases hb' hop horphan
    · exact .inl ((orphaned_iff hb).mpr hold)
    · obtain ⟨g, hg, rfl⟩ := hview v rfl
      have hsame := sameUse_closeView l.arbiter g.view role
      obtain ⟨-, -, hlive⟩ := h
      rw [live_closeView hb hg, List.filter_eq_nil_iff] at hlive
      by_cases hnil : l.live role = []
      · exact .inl ⟨hsame.present ▸ horphan.present, hsame.uses ▸ horphan.unused, hnil⟩
      · refine .inr ⟨g, rfl, hsame.uses ▸ horphan.unused, ?_⟩
        -- All views on the queue are this one, and each is there once.
        have hall : ∀ x ∈ l.live role, x = g := fun x hx =>
          List.inj_on_of_nodup_map hb.views (mem_live.mp hx).1 hg (by simpa using hlive x hx)
        have hnodup : (l.live role).Nodup := (List.Nodup.of_map _ hb.views).filter _
        rw [List.eq_replicate_of_mem hall, List.nodup_replicate] at hnodup
        have hpos := List.length_pos_iff.mpr hnil
        rw [List.eq_replicate_of_mem hall, show (l.live role).length = 1 by omega]
        rfl

/-- The last view on an unused queue leaves the buffer behind. -/
theorem orphaned_of_last_view (hb : l.arbiter.Balanced l.grants)
    (hu : l.arbiter.uses role = false) (hl : l.live role = [g]) :
    (l.perform (.closeView g.view)).Orphaned role := by
  obtain ⟨hg, rfl, hlive⟩ := mem_live.mp (show g ∈ l.live role by rw [hl]; exact List.mem_cons_self)
  have hsome := isSome_of_record (hb.record_of_grant hg hlive)
  have hsame := sameUse_closeView l.arbiter g.view g.view.queue
  refine ⟨?_, ?_, ?_⟩
  · rw [perform_closeView hg, hsame.present, hsome]
  · rw [perform_closeView hg, hsame.uses, hu]
  · rw [live_closeView hb hg, hl]
    simp

/-- As long as no view is closed, no buffer is left behind. -/
theorem orphaned_of_run (hb : l.arbiter.Balanced l.grants) {ops : List Operation}
    (hops : ∀ op ∈ ops, op.supplies role = false ∧ ∀ v, op ≠ .closeView v)
    (h : (l.run ops).Orphaned role) : l.Orphaned role := by
  induction ops generalizing l with
  | nil => exact h
  | cons op ops ih =>
    rw [List.forall_mem_cons] at hops
    obtain ⟨⟨hsup, hno⟩, hops⟩ := hops
    have hstep := ih (carries_perform hb op).1.balanced hops h
    obtain hold | ⟨g, he, -⟩ := orphaned_perform hb hsup hstep
    · exact hold
    · exact absurd he (hno g.view)

end Ledger

/-- A session that leaves leaves no such buffer. -/
theorem not_orphaned_removeUser (hb : a.Balanced grants) (hu : a.user? id = some u)
    (role : QueueRole) : ¬ (a.removeUser id).2.Orphaned role :=
  not_orphaned_of_remainder (hb.removeUser id).balanced (uses_removeUser hu role)
    (get_removeUser hu role)

/-- On a buffer that is there, opening the queue changes neither buffers nor bytes. -/
theorem openQueue_of_present {allocator : Allocator} {size : Nat} {handle : ExportHandle}
    (hp : (a.queues.get role).isSome = true)
    (ho : openQueue allocator id role size a = .ok handle a') :
    a'.queues = a.queues ∧ a'.memory = a.memory := by
  obtain ⟨e, he⟩ | ⟨u, k, -, -, -, hk, hopen⟩ := openQueue_cases allocator id role size a
  · cases he.symm.trans ho
  · cases hopen.symm.trans ho
    cases hk with
    | present => exact ⟨rfl, rfl⟩
    | installed hnone =>
      rw [hnone] at hp
      cases hp

end AcceleratorScheduler.Arbiter
