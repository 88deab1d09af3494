import Mathlib.Data.List.Induction
import AcceleratorScheduler.Proofs.Arbiter.Atomicity
import AcceleratorScheduler.Proofs.Arbiter.Holder

/-! Whose views there are on the exclusive queues. They are the holder's as long as a queue gets its
buffer by being opened. A queue that is given a buffer beside that can be mapped without being used,
and giving exclusive access up only waits for the use to end; main statement:
`exclusive_views_and_release`. -/
namespace AcceleratorScheduler.Arbiter

variable {a a' : Arbiter} {grants : List Grant} {role : QueueRole} {id : UserId}

/-- The queue is in use, and has a buffer, in both or in neither. -/
structure SameUse (a a' : Arbiter) (role : QueueRole) : Prop where
  uses : a'.uses role = a.uses role
  present : (a'.queues.get role).isSome = (a.queues.get role).isSome

theorem SameUse.refl (a : Arbiter) (role : QueueRole) : SameUse a a role := ⟨rfl, rfl⟩

theorem SameUse.trans {a'' : Arbiter} (h : SameUse a a' role) (h' : SameUse a' a'' role) :
    SameUse a a'' role :=
  ⟨h'.uses.trans h.uses, h'.present.trans h.present⟩

theorem SameUse.updateUser (a : Arbiter) (id : UserId) {f : User → User}
    (hf : ∀ u, (f u).queues.contains role = u.queues.contains role) :
    SameUse a (a.updateUser id f) role := by
  refine ⟨?_, rfl⟩
  rw [Arbiter.uses, Arbiter.updateUser, List.any_map, Arbiter.uses]
  congr 1
  funext u
  by_cases h : u.id = id <;> simp [h, hf]

/-- Another queue gets or loses its buffer, or the buffer stays there changed. -/
theorem SameUse.put (hu : a'.users = a.users) {other : QueueRole} {buffer : Option SharedBuffer}
    (hq : a'.queues = a.queues.put buffer other)
    (hs : role = other → buffer.isSome = (a.queues.get role).isSome) : SameUse a a' role := by
  refine ⟨by rw [Arbiter.uses, hu, Arbiter.uses], ?_⟩
  rw [hq, QueueTable.get_put]
  split
  next he => exact hs he
  next => rfl

/-- Whether the operation gives the queue a buffer that nobody uses yet. -/
def Operation.supplies : Operation → QueueRole → Bool
  | allocateBuffer _ other _ _, role => other == role
  | _, _ => false

/-- Whether the operation takes the queue's buffer away whoever uses it. -/
def Operation.withdraws : Operation → QueueRole → Bool
  | freeBuffer other, role => other == role
  | _, _ => false

theorem Lends.sameUse {other : QueueRole} {user : UserId} {offset length : Nat} {readOnly : Bool}
    {room : RecordRoom} {v : MappedView}
    (hl : Lends other user offset length readOnly room a v a') : SameUse a a' role := by
  obtain ⟨-, -, ⟨b, b', hb, -, rfl⟩, -⟩ := hl
  refine .put rfl rfl ?_
  rintro rfl
  rw [hb]
  rfl

theorem sameUse_closeView (a : Arbiter) (v : MappedView) (role : QueueRole) :
    SameUse a (a.closeView v) role := by
  rw [closeView]
  split
  · exact ⟨rfl, rfl⟩
  · split
    next => exact ⟨rfl, rfl⟩
    next hd =>
      obtain ⟨b, hb, -⟩ := Option.bind_eq_some_iff.mp hd
      refine .put rfl rfl ?_
      rintro rfl
      rw [hb]
      rfl

theorem isSome_install (role : QueueRole) (size : Nat) (mask : AccessMask) (bytes : Memory)
    (a : Arbiter) : ((a.install role size mask bytes).queues.get role).isSome = true :=
  congrArg Option.isSome ((QueueTable.get_put _ _ role role).trans (if_pos rfl))

section

variable {allocator : Allocator} {size : Nat}

theorem Stocked.isSome (hs : Stocked allocator role size a a') :
    (a'.queues.get role).isSome = true := by
  cases hs with
  | present hb =>
    rw [hb]
    rfl
  | installed => exact isSome_install role size _ _ a

theorem Stocked.sameUse {other : QueueRole} (hs : Stocked allocator other size a a')
    (hne : role ≠ other) : SameUse a a' role := by
  cases hs with
  | present => exact .refl a role
  | installed => exact .put rfl rfl fun he => absurd he hne

/-- Opening a queue touches no other. -/
theorem Stocked.sameUse_insert {other : QueueRole} (hs : Stocked allocator other size a a')
    (hne : role ≠ other) (user : UserId) : SameUse a
      (a'.updateUser user fun u => { u with queues := u.queues.insert other }) role := by
  refine (hs.sameUse hne).trans (.updateUser a' user fun u => ?_)
  rw [QueueSet.contains_insert, decide_eq_false hne, Bool.false_or]

end

/-- A session that has just been opened uses no queue. -/
theorem sameUse_joined (a : Arbiter) (role : QueueRole) (pid : Nat) (writable : Bool) :
    SameUse a { a with
      users := a.users ++ [{ id := a.nextUser, pid, writable }]
      nextUser := a.nextUser + 1 } role := by
  refine ⟨?_, rfl⟩
  rw [Arbiter.uses, List.any_append, Arbiter.uses]
  cases role <;> exact Bool.or_false _

theorem sameUse_erase {other : QueueRole} (hne : role ≠ other) (a : Arbiter) (user : UserId) :
    SameUse a (a.updateUser user fun u => { u with queues := u.queues.erase other }) role := by
  refine .updateUser a user fun u => ?_
  rw [QueueSet.contains_erase, decide_eq_false hne, Bool.not_false, Bool.true_and]

theorem isSome_remainder (h : a.usesBeside id role = true) :
    (a.remainder id role).isSome = (a.queues.get role).isSome := by
  rw [remainder, h]
  cases a.queues.get role <;> rfl

theorem uses_updateUser_insert {u : User} (hu : a.user? id = some u) (role : QueueRole) :
    (a.updateUser id fun u => { u with queues := u.queues.insert role }).uses role = true := by
  obtain ⟨hm, hid⟩ := mem_of_user? hu
  refine List.any_eq_true.mpr ⟨_, List.mem_map_of_mem hm, ?_⟩
  rw [if_pos hid, QueueSet.contains_insert, decide_eq_true rfl, Bool.true_or]

/-- How an operation changes whether an exclusive queue is in use and whether it has a buffer. -/
inductive Turnover (op : Operation) (role : QueueRole) (a a' : Arbiter) : Prop
  | same (h : SameUse a a' role)
  | started (hu : a'.uses role = true) (hp : (a'.queues.get role).isSome = true)
  | ended (hu : a'.uses role = false) (hp : a'.queues.get role = none)
  | quit (id : UserId) (hu : a'.uses role = a.usesBeside id role)
      (hp : (a'.queues.get role).isSome = (a.remainder id role).isSome)
  | supplied (hop : op.supplies role = true) (hp : (a'.queues.get role).isSome = true)
  | withdrawn (hop : op.withdraws role = true) (hp : a'.queues.get role = none)

/-- One session stops using the queue. The last one takes the buffer with it. -/
theorem turnover_closeQueue {op : Operation}
    (ha : a' = a.updateUser id fun u => { u with queues := u.queues.erase role }) :
    Turnover op role a (if a'.uses role then a' else a'.putBuffer role none) := by
  have hbeside : a'.uses role = a.usesBeside id role := by rw [ha, uses_updateUser_erase]
  split
  next hu =>
    refine .quit id hbeside ?_
    rw [isSome_remainder (hbeside ▸ hu), ha]
    rfl
  next hu => exact .ended (Bool.eq_false_iff.mpr hu) ((QueueTable.get_put ..).trans (if_pos rfl))

theorem Outcome.turnover {op : Operation} {new : Option Grant} (ho : Outcome a op new a')
    (hx : role.isExclusive = true) : Turnover op role a a' := by
  cases ho with
  | unchanged => exact .same (.refl a role)
  | joined => exact .same (sameUse_joined a role _ _)
  | departed hu =>
    exact .quit _ (uses_removeUser hu role) (congrArg Option.isSome (get_removeUser hu role))
  | reserved => exact .same (.updateUser a _ fun _ => rfl)
  | released => exact .same (.updateUser a _ fun _ => rfl)
  | relieved hu =>
    refine .quit _ (uses_reset hu hx) ?_
    rw [get_reset hu, if_pos hx]
  | @allocated _ other =>
    by_cases he : role = other
    · exact .supplied (beq_iff_eq.mpr he.symm) (he ▸ isSome_install ..)
    · exact .same (.put rfl rfl fun h => absurd h he)
  | @freed other =>
    by_cases he : role = other
    · exact .withdrawn (beq_iff_eq.mpr he.symm) ((QueueTable.get_put ..).trans (if_pos he))
    · exact .same (.put rfl rfl fun h => absurd h he)
  | @opened _ user other _ u b _ hu _ hs =>
    by_cases he : role = other
    · subst he
      have hu' : b.user? user = some u := by rw [user?, hs.sameUsers.users, ← user?, hu]
      exact .started (uses_updateUser_insert hu' role) hs.isSome
    · exact .same (hs.sameUse_insert he user)
  | @closed user other _ b _ _ _ ha =>
    by_cases he : role = other
    · subst he
      exact turnover_closeQueue ha
    · have hsame : SameUse a b role := ha ▸ sameUse_erase he a user
      split
      · exact .same hsame
      · exact .same (hsame.trans (.put rfl rfl fun h => absurd h he))
  | lent _ hl => exact .same hl.sameUse
  | viewClosed v => exact .same (sameUse_closeView a v role)
  | accessed v operation =>
    rw [onView_snd]
    exact .same ⟨rfl, rfl⟩
  | scheduled other operation =>
    rw [onBuffer_snd]
    exact .same ⟨rfl, rfl⟩
  | revokedAll =>
    refine .ended ?_ (by cases role <;> rfl)
    refine List.any_eq_false.mpr fun u hu => ?_
    obtain ⟨v, -, rfl⟩ := List.mem_map.mp hu
    cases role <;> exact Bool.false_ne_true
  | destroyed => exact .ended rfl (by cases role <;> rfl)

/-- Every view on the queue is the holder's, and there is a buffer only while the queue is in
use. -/
structure Custody (a : Arbiter) (role : QueueRole) : Prop where
  owned : ∀ r ∈ a.records role, a.HeldBy r.owner
  covered : (a.queues.get role).isSome = true → a.uses role = true

theorem isSome_of_record {r : Mapping} (hr : r ∈ a.records role) :
    (a.queues.get role).isSome = true := by
  cases hb : a.queues.get role with
  | none =>
    rw [records_none hb] at hr
    cases hr
  | some b => rfl

/-- A buffer that a session leaves behind is one that another session uses. -/
theorem Custody.usesBeside (h : a.Custody role) (hb : a.Balanced grants) (ho : a.Orderly)
    (hx : role.isExclusive = true) (hs : (a.remainder id role).isSome = true) :
    a.usesBeside id role = true := by
  by_contra hbeside
  rw [Bool.not_eq_true] at hbeside
  obtain ⟨b', hb'⟩ := Option.isSome_iff_exists.mp hs
  obtain ⟨hmap, hkeep⟩ := Option.filter_eq_some_iff.mp hb'
  obtain ⟨b, hget, rfl⟩ := Option.map_eq_some_iff.mp hmap
  rw [hbeside, Bool.false_or, SharedBuffer.isMapped_eq, bne_iff_ne] at hkeep
  -- A record is left, and it is the holder's, who therefore is another session that uses the queue.
  obtain ⟨r, hr, hne⟩ : ∃ r ∈ b.mappings, r.owner ≠ id := by
    by_contra hnone
    push Not at hnone
    have hall : b.mappings.filter (fun r => r.owner == id) = b.mappings :=
      List.filter_eq_self.mpr fun r hr => beq_iff_eq.mpr (hnone r hr)
    have hcount := (Ledger.counts_exactly (hb.counted hget)).2 id
    have hgone : (b.revokeOwner id).1.length = b.mappings.length := by
      rw [SharedBuffer.revokeOwner_eq, hall, List.length_map]
    rw [hgone, hb.counted hget] at hcount
    exact hkeep (Nat.add_eq_right.mp hcount)
  have howner := h.owned r (records_some hget ▸ hr)
  obtain ⟨u, hm, hq, hheld⟩ := ho.heldBy_of_uses hx (h.covered (by rw [hget]; rfl))
  refine List.any_eq_false.mp hbeside u hm ?_
  rw [hq, Bool.and_true, bne_iff_ne, ho.heldBy_unique hheld howner]
  exact hne

theorem Turnover.keeps_covered {op : Operation} (ht : Turnover op role a a') (h : a.Custody role)
    (hb : a.Balanced grants) (ho : a.Orderly) (hx : role.isExclusive = true)
    (hop : op.supplies role = false) :
    (a'.queues.get role).isSome = true → a'.uses role = true := by
  cases ht with
  | same hs =>
    rw [hs.uses, hs.present]
    exact h.covered
  | started hu => exact fun _ => hu
  | ended _ hp => rw [hp]; exact nofun
  | quit id hu hp =>
    rw [hu, hp]
    exact h.usesBeside hb ho hx
  | supplied hs =>
    rw [hop] at hs
    cases hs
  | withdrawn _ hp => rw [hp]; exact nofun

theorem Custody.perform (h : a.Custody role) (hb : a.Balanced grants) (ho : a.Orderly)
    (hx : role.isExclusive = true) {op : Operation} (hop : op.supplies role = false)
    (hv : ∀ v, op.view? = some v → ∃ g ∈ grants, g.view = v) : (op.perform a).2.Custody role where
  covered := ((op.outcome a).turnover hx).keeps_covered h hb ho hx hop
  owned r hr := by
    obtain hh | ⟨hold, hrel⟩ := hb.record_perform op hv hr hx
    · exact hh
    · obtain ⟨-, hgranted⟩ := hrel (h.owned r hold)
      have hunused := ho.uses_of_release hgranted hx
      rw [h.covered (isSome_of_record hold)] at hunused
      cases hunused

namespace Ledger

variable {l : Ledger}

theorem custody_empty (role : QueueRole) : ({} : Arbiter).Custody role where
  owned _ hr := by cases role <;> cases hr
  covered h := by cases role <;> cases h

/-- What every operation of a run keeps of an arbiter, the run keeps. -/
theorem keeps_run {P : Arbiter → Prop} (hb : l.arbiter.Balanced l.grants) (ho : l.arbiter.Orderly)
    (h : P l.arbiter) {ops : List Operation}
    (hops : ∀ op ∈ ops, ∀ {a : Arbiter} {grants : List Grant}, a.Balanced grants → a.Orderly →
      P a → (∀ v, op.view? = some v → ∃ g ∈ grants, g.view = v) → P (op.perform a).2) :
    P (l.run ops).arbiter := by
  induction ops generalizing l with
  | nil => exact h
  | cons op ops ih =>
    rw [List.forall_mem_cons] at hops
    obtain ⟨hop, hops⟩ := hops
    refine ih (carries_perform hb op).1.balanced (succeeds_perform ho op).orderly ?_ hops
    cases hv : op.view?.all fun v => l.grants.any (·.view == v) with
    | false => rwa [perform_of_refused hv]
    | true =>
      obtain ⟨hview, hp⟩ := perform_of_granted hv
      rw [hp]
      exact hop hb ho h hview

theorem custody_run (hx : role.isExclusive = true) {ops : List Operation}
    (hops : ∀ op ∈ ops, op.supplies role = false) : (run {} ops).arbiter.Custody role :=
  keeps_run (l := ⟨{}, []⟩) (P := fun a => a.Custody role) balanced_empty orderly_empty
    (custody_empty role)
    fun op hm _ _ hb ho h hv => h.perform hb ho hx (hops op hm) hv

theorem custody_of_granted (hx : role.isExclusive = true) {ops : List Operation}
    (hops : ∀ op ∈ granted {} ops, op.supplies role = false) :
    (run {} ops).arbiter.Custody role := by
  rw [← run_granted]
  exact custody_run hx hops

/-- Where a queue is not in use, there is nothing for a holder to leave behind. -/
theorem live_eq_nil (hb : l.arbiter.Balanced l.grants) (h : l.arbiter.Custody role)
    (hu : l.arbiter.uses role = false) : l.live role = [] := by
  rw [List.eq_nil_iff_forall_not_mem]
  intro g hg
  obtain ⟨hmem, rfl, hl⟩ := mem_live.mp hg
  have hused := h.covered (isSome_of_record (hb.record_of_grant hmem hl))
  rw [hu] at hused
  cases hused

/-- A view on an exclusive queue is the holder's, or its session gave exclusive access up. -/
theorem held_or_released (ops : List Operation) (hx : role.isExclusive = true) :
    ∀ g ∈ (run {} ops).live role, (run {} ops).arbiter.HeldBy g.owner ∨
      ∃ before after, ops = before ++ .release g.owner :: after ∧ g ∈ (run {} before).live role ∧
        (answer (release g.owner) (run {} before).arbiter).1 = .ok () := by
  induction ops using List.reverseRecOn with
  | nil => exact nofun
  | append_singleton ops op ih =>
    intro g hg
    have hb := balanced_run ops
    have hb' := (carries_perform hb op).1.balanced
    -- What has been given up before has been given up.
    have hearlier (hold : g ∈ (run {} ops).live role)
        (hno : ¬ (run {} ops).arbiter.HeldBy g.owner) :
        ∃ before after, ops ++ [op] = before ++ .release g.owner :: after ∧
          g ∈ (run {} before).live role ∧
          (answer (release g.owner) (run {} before).arbiter).1 = .ok () := by
      obtain ⟨before, after, he, hrest⟩ := (ih g hold).resolve_left hno
      exact ⟨before, after ++ [op], by simp [he], hrest⟩
    rw [run_concat] at hg ⊢
    cases hv : op.view?.all fun v => (run {} ops).grants.any (·.view == v) with
    | false =>
      rw [perform_of_refused hv] at hg ⊢
      exact or_iff_not_imp_left.mpr (hearlier hg)
    | true =>
      obtain ⟨hview, hp⟩ := perform_of_granted hv
      rw [hp] at hg hb' ⊢
      obtain ⟨hmem, rfl, hl⟩ := mem_live.mp hg
      obtain hh | ⟨hrec, hrel⟩ := hb.record_perform op hview (hb'.record_of_grant hmem hl) hx
      · exact .inl hh
      · have hold : g ∈ (run {} ops).live g.view.queue := by
          obtain ⟨g', hg', hh, he⟩ := hb.grant_of_record hrec
          have hsame : g' = g := List.inj_on_of_nodup_map hb'.views
            (List.mem_append_left _ hg') hmem (congrArg Mapping.view he)
          subst hsame
          exact List.mem_filter.mpr ⟨hg', hh⟩
        by_cases hh : (run {} ops).arbiter.HeldBy g.owner
        · obtain ⟨rfl, hgranted⟩ := hrel hh
          exact .inr ⟨ops, [], rfl, hold, hgranted⟩
        · exact .inr (hearlier hold hh)

/-- Giving exclusive access up ends no view. -/
theorem live_release (id : UserId) (role : QueueRole) :
    (l.perform (.release id)).live role = l.live role := by
  have hmemory : (answer (Arbiter.release id) l.arbiter).2.memory = l.arbiter.memory :=
    answer_cases (P := fun a : Arbiter => a.memory = l.arbiter.memory) rfl
      ((release_cases id l.arbiter).imp_right fun ⟨_, _, _, _, hx⟩ => ⟨_, _, hx, rfl⟩)
  have hp : l.perform (.release id) = _ := (perform_of_granted rfl).2
  rw [hp, Operation.perform, Option.toList_none, List.append_nil, live, live]
  refine List.filter_congr fun g _ => ?_
  rw [holds, hmemory, holds]

/-- Exclusive access can be given up once no exclusive queue is in use, whatever is mapped, and
every view stays as it was. So a live view on an exclusive queue is the holder's, or its session
gave exclusive access up under it, after the queue had been given a buffer that nobody used. Queues
that only get buffers by being opened are left without views. -/
theorem exclusive_views_and_release (ops : List Operation) {l : Ledger} (hl : l = run {} ops)
    {role : QueueRole} (hx : role.isExclusive = true) :
    (∀ id, (answer (release id) l.arbiter).1 = .ok () →
      l.arbiter.uses role = false ∧ (l.perform (.release id)).live role = l.live role ∧
        (l.perform (.release id)).arbiter.holder? = none) ∧
    (∀ g ∈ l.live role, l.arbiter.holder? = some g.owner ∨
      ∃ before after, ops = before ++ .release g.owner :: after ∧ g ∈ (run {} before).live role ∧
        (answer (release g.owner) (run {} before).arbiter).1 = .ok () ∧
        ∃ op ∈ granted {} before, op.supplies role = true) ∧
    ((∀ op ∈ granted {} ops, op.supplies role = false) →
      (∀ g ∈ l.live role, l.arbiter.holder? = some g.owner) ∧
        ∀ id, (answer (release id) l.arbiter).1 = .ok () → l.live role = []) := by
  have hunused {ops : List Operation} (hops : ∀ op ∈ granted {} ops, op.supplies role = false)
      (id : UserId) (hr : (answer (release id) (run {} ops).arbiter).1 = .ok ()) :
      (run {} ops).live role = [] :=
    live_eq_nil (balanced_run ops) (custody_of_granted hx hops)
      ((orderly_run ops).uses_of_release hr hx)
  subst hl
  have ho := orderly_run ops
  refine ⟨fun id hr => ⟨ho.uses_of_release hr hx, ?_, holder?_of_release ho hr⟩, fun g hg => ?_,
    fun hops => ⟨fun g hg => ?_, hunused hops⟩⟩
  · exact live_release id role
  · refine (held_or_released ops hx g hg).imp ho.holder?_eq_some_iff.mpr ?_
    rintro ⟨before, after, he, hlive, hr⟩
    refine ⟨before, after, he, hlive, hr, ?_⟩
    by_contra hnone
    simp only [not_exists, not_and, Bool.not_eq_true] at hnone
    rw [hunused hnone g.owner hr] at hlive
    cases hlive
  · obtain ⟨hmem, rfl, hlive⟩ := mem_live.mp hg
    exact ho.holder?_eq_some_iff.mpr
      ((custody_of_granted hx hops).owned g.record ((balanced_run ops).record_of_grant hmem hlive))

private def unopened : List Operation :=
  [.addUser 1 true, .reserve 1, .allocateBuffer .process .send 112 QueueRole.send.mask,
    .mapWhole .send 1 false]

theorem view_outlives_release :
    (answer (release 1) (run {} unopened).arbiter).1 = .ok () ∧
      (run {} (unopened ++ [.release 1])).arbiter.holder? = none ∧
      (run {} (unopened ++ [.release 1])).live .send = [⟨⟨0, .send, 1, 112, true⟩, 1⟩] := by
  decide +kernel

private def inherited : List Operation :=
  unopened ++ [.release 1, .addUser 2 true, .reserve 2]

theorem exclusive_views_and_release_inherited :
    (run {} inherited).arbiter.holder? = some 2 ∧
      (run {} inherited).live .send = [⟨⟨0, .send, 1, 112, true⟩, 1⟩] ∧
      ∃ before after, inherited = before ++ .release 1 :: after ∧
        ∃ op ∈ granted {} before, op.supplies .send = true := by
  have hh : (run {} inherited).arbiter.holder? = some 2 := by decide +kernel
  have hl : (run {} inherited).live .send = [⟨⟨0, .send, 1, 112, true⟩, 1⟩] := by decide +kernel
  refine ⟨hh, hl, ?_⟩
  obtain ⟨-, howner, -⟩ := exclusive_views_and_release inherited rfl
    (show QueueRole.send.isExclusive = true from rfl)
  obtain hheld | ⟨before, after, he, -, -, hs⟩ :=
    howner ⟨⟨0, .send, 1, 112, true⟩, 1⟩ (by rw [hl]; exact List.mem_cons_self)
  · rw [hh] at hheld
    cases hheld
  · exact ⟨before, after, he, hs⟩

end Ledger

end AcceleratorScheduler.Arbiter
