import AcceleratorScheduler.Proofs.Arbiter.Outcomes

/-! Arbiters in use, from the first request on. Whatever is asked for in whatever order, the live
views of a queue are those that its buffer has a record of; main statement:
`live_views_match_records`. -/
namespace AcceleratorScheduler

theorem SharedBuffer.revokeOwner_eq (b : SharedBuffer) (owner : UserId) :
    b.revokeOwner owner =
      ((b.mappings.filter fun r => r.owner == owner).map Mapping.view,
        { b with
          mappings := b.mappings.filter fun r => !(r.owner == owner)
          count := b.count - .ofNat (b.mappings.filter fun r => r.owner == owner).length }) := by
  rw [revokeOwner, List.partition_eq_filter_filter]
  rfl

/-- No more is taken off the count than there are records. -/
theorem SharedBuffer.toNat_count_sub {b : SharedBuffer} {mappings : List Mapping} {n : Nat}
    (hc : b.refCount = b.mappings.length) (hl : b.mappings.length = n + mappings.length) :
    (b.count - .ofNat n).toNat = mappings.length := by
  have hcount : b.count.toNat = n + mappings.length := hc.trans hl
  have hn : (UInt32.ofNat n).toNat = n :=
    UInt32.toNat_ofNat_of_lt' (Nat.lt_of_le_of_lt (by omega) b.count.toNat_lt)
  have hle : UInt32.ofNat n ≤ b.count := by
    rw [UInt32.le_iff_toNat_le, hn, hcount]
    exact Nat.le_add_right ..
  rw [UInt32.toNat_sub_of_le _ _ hle, hn, hcount, Nat.add_sub_cancel_left]

/-- Ids being distinct, one id singles out one record. -/
private theorem record_of_id {l : List Mapping} (hd : (l.map Mapping.id).Nodup) {r : Mapping}
    (hr : r ∈ l) : l.find? (·.id == r.id) = some r ∧
      l.eraseP (·.id == r.id) = l.filter (fun x => !(x.id == r.id)) ∧
      l.filter (·.id == r.id) = [r] := by
  induction l with
  | nil => cases hr
  | cons x l ih =>
    rw [List.map_cons, List.nodup_cons] at hd
    obtain ⟨hx, hd⟩ := hd
    rcases List.mem_cons.mp hr with rfl | hr
    · have hne (y : Mapping) (hy : y ∈ l) : (y.id == r.id) = false :=
        beq_eq_false_iff_ne.mpr fun he => hx (he ▸ List.mem_map_of_mem hy)
      refine ⟨by simp, ?_, ?_⟩
      · rw [List.eraseP_cons_of_pos (by simp), List.filter_cons_of_neg (by simp)]
        exact (List.filter_eq_self.mpr fun y hy => by rw [hne y hy]; rfl).symm
      · rw [List.filter_cons_of_pos (by simp)]
        exact congrArg (r :: ·) (List.filter_eq_nil_iff.mpr fun y hy => by simp [hne y hy])
    · have hne : (x.id == r.id) = false :=
        beq_eq_false_iff_ne.mpr fun he => hx (he ▸ List.mem_map_of_mem hr)
      obtain ⟨hf, he, ho⟩ := ih hd hr
      refine ⟨?_, ?_, ?_⟩
      · rw [List.find?_cons_of_neg (by simp [hne]), hf]
      · rw [List.eraseP_cons_of_neg (by simp [hne]), List.filter_cons_of_pos (by simp [hne]), he]
      · rw [List.filter_cons_of_neg (by simp [hne]), ho]

namespace Arbiter

variable {a a' : Arbiter} {grants : List Grant} {role : QueueRole}

theorem Balanced.updateUser (h : a.Balanced grants) (id : UserId) (f : User → User) :
    Carries a grants (a.updateUser id f) :=
  h.of_eq rfl rfl rfl rfl

theorem Balanced.releaseUnused (h : a.Balanced grants) (role : QueueRole) :
    Carries a grants (a.releaseUnused role) := by
  rw [Arbiter.releaseUnused]
  split
  next hu =>
    refine h.discard ?_
    simp only [Bool.and_eq_true] at hu
    cases hb : a.queues.get role with
    | none => rfl
    | some b =>
      have hm := hu.2
      rw [hb] at hm
      simpa using hm
  next => exact h.refl

/-- A session's records on a queue go together with their views. -/
theorem Balanced.revokeQueue (h : a.Balanced grants) (id : UserId) (role : QueueRole) :
    Carries a grants (a.revokeQueue id role) := by
  have hrest {a' : Arbiter} (hc : Carries a grants a') :
      Carries a grants ((a'.updateUser id fun u =>
        { u with queues := u.queues.erase role }).releaseUnused role) := by
    have hu := hc.balanced.updateUser id fun u => { u with queues := u.queues.erase role }
    exact hc.trans (hu.trans (hu.balanced.releaseUnused role))
  cases hb : a.queues.get role with
  | none =>
    simp only [Arbiter.revokeQueue, hb]
    exact hrest h.refl
  | some b =>
    simp only [Arbiter.revokeQueue, hb, SharedBuffer.revokeOwner_eq]
    refine hrest ?_
    have hc := h.counted hb
    have hlen := b.mappings.length_eq_length_filter_add fun r => r.owner == id
    have hw := h.withdraw (fun r => !(r.owner == id))
      { b with
        mappings := b.mappings.filter fun r => !(r.owner == id)
        count := b.count - .ofNat (b.mappings.filter fun r => r.owner == id).length }
      hb rfl rfl rfl (SharedBuffer.toNat_count_sub hc hlen)
    simpa only [Bool.not_not] using hw

theorem Balanced.revokeUser (h : a.Balanced grants) (id : UserId) (roles : QueueSet) :
    Carries a grants (a.revokeUser id roles) := by
  have hfold (l : List QueueRole) : ∀ {a : Arbiter}, a.Balanced grants →
      Carries a grants (l.foldl (fun a role => a.revokeQueue id role) a) := by
    induction l with
    | nil => exact fun h => h.refl
    | cons role l ih =>
      intro a h
      have hq := h.revokeQueue id role
      exact hq.trans (ih hq.balanced)
  exact hfold _ h

theorem Balanced.removeUser (h : a.Balanced grants) (id : UserId) :
    Carries a grants (a.removeUser id).2 := by
  rw [Arbiter.removeUser]
  split
  next => exact h.refl
  next =>
    have hr := h.revokeUser id .full
    exact hr.trans (hr.balanced.of_eq rfl rfl rfl rfl)

theorem Balanced.reset (h : a.Balanced grants) (id : UserId) :
    Carries a grants (a.reset id) := by
  rw [Arbiter.reset]
  split
  next => exact h.refl
  next =>
    have hu := h.updateUser id fun u => { u with exclusive := false }
    exact hu.trans (hu.balanced.revokeUser id .exclusive)

/-- A view that is cut off closes without effect, whatever its number stands for by now. -/
theorem closeView_of_not_isLive {v : MappedView} (h : a.memory.isLive v.view = false) :
    a.closeView v = a := by
  simp [closeView, h, SharedMemory.unlink_of_not_isLive _ h]

/-- A valid view closes by losing its record and its link. -/
theorem Balanced.closeView_of_isLive (h : a.Balanced grants) {g : Grant} (hg : g ∈ grants)
    (hl : a.memory.isLive g.view.view = true) :
    ∃ b, a.queues.get g.view.queue = some b ∧
      b.mappings.filter (·.id == g.record.id) = [g.record] ∧
      a.closeView g.view = { a.putBuffer g.view.queue (some { b with
          mappings := b.mappings.filter fun r => !(r.id == g.record.id)
          count := b.count - 1 }) with
        memory := a.memory.unlink g.view.view } := by
  have hr := h.record_of_grant hg hl
  cases hb : a.queues.get g.view.queue with
  | none =>
    rw [records_none hb] at hr
    cases hr
  | some b =>
    rw [records_some hb] at hr
    obtain ⟨hf, he, ho⟩ := record_of_id (h.numbered hb).1 hr
    have hd : b.detach g.view.mapping = some (g.view.view, { b with
        mappings := b.mappings.filter fun r => !(r.id == g.record.id)
        count := b.count - 1 }) := by
      have hfind : b.mappings.find? (·.id == g.view.mapping) = some g.record := hf
      have herase : b.mappings.eraseP (·.id == g.view.mapping) =
          b.mappings.filter fun r => !(r.id == g.record.id) := he
      rw [SharedBuffer.detach, hfind, herase]
      rfl
    have hdead : (a.memory.unlink g.view.view).isLive g.view.view = false := by
      rw [SharedMemory.isLive_unlink, bne_self_eq_false, Bool.and_false]
    refine ⟨b, rfl, ho, ?_⟩
    simp only [Arbiter.closeView, h.present, hl, Bool.not_true, Bool.or_false,
      Bool.false_eq_true, if_false, hb, Option.bind_some, hd]
    rw [SharedMemory.unlink_of_not_isLive _ hdead]

theorem Balanced.isLive_closeView (h : a.Balanced grants) {g : Grant} (hg : g ∈ grants)
    (view : ViewId) : (a.closeView g.view).memory.isLive view =
      (a.memory.isLive view && view != g.view.view) := by
  cases hl : a.memory.isLive g.view.view with
  | true =>
    obtain ⟨b, -, -, he⟩ := h.closeView_of_isLive hg hl
    rw [he]
    exact SharedMemory.isLive_unlink _ _ _
  | false =>
    rw [closeView_of_not_isLive hl]
    by_cases he : view = g.view.view
    · rw [he, hl, Bool.false_and]
    · rw [bne_iff_ne.mpr he, Bool.and_true]

theorem Balanced.closeView (h : a.Balanced grants) {g : Grant} (hg : g ∈ grants) :
    Carries a grants (a.closeView g.view) := by
  cases hl : a.memory.isLive g.view.view with
  | false =>
    rw [closeView_of_not_isLive hl]
    exact h.refl
  | true =>
    obtain ⟨b, hb, ho, he⟩ := h.closeView_of_isLive hg hl
    have hc := h.counted hb
    have hlen := b.mappings.length_eq_length_filter_add fun r => r.id == g.record.id
    rw [ho, List.length_singleton] at hlen
    have hw := h.withdraw (fun r => !(r.id == g.record.id))
      { b with
        mappings := b.mappings.filter fun r => !(r.id == g.record.id)
        count := b.count - 1 }
      hb rfl rfl rfl (SharedBuffer.toNat_count_sub (n := 1) hc hlen)
    simp only [Bool.not_not, ho, List.map_cons, List.map_nil] at hw
    rw [he]
    exact hw

/-- Through a view bytes can change, and nothing else. -/
theorem Balanced.onView {α : Type} (h : a.Balanced grants) (v : MappedView)
    (operation : EStateM Refusal Window α) :
    Carries a grants (answer (Arbiter.onView v operation) a).2 := by
  rw [onView_snd]
  exact h.of_eq rfl rfl (SharedMemory.links_through ..) (SharedMemory.size_through ..)

theorem Balanced.onBuffer {α : Type} (h : a.Balanced grants) (role : QueueRole)
    (operation : EStateM Refusal Memory α) :
    Carries a grants (a.onBuffer role operation).2 := by
  have hd : (a.onBuffer role operation).2.dissolved = a.dissolved := by rw [onBuffer_snd]
  have hl : (a.onBuffer role operation).2.memory.links = a.memory.links := by rw [onBuffer_snd]
  exact h.of_eq hd (queues_onBuffer role operation) hl (size_regions_onBuffer role operation)

theorem Balanced.revokeAll (h : a.Balanced grants) : Carries a grants a.revokeAll.2 := by
  refine h.cuts ((QueueRole.all.filterMap a.queues.get).flatMap fun b : SharedBuffer =>
      b.mappings.map Mapping.view)
    { present := rfl
      live := fun v => SharedMemory.isLive_unlinkAll _ _ v
      links := SharedMemory.size_links_unlinkAll _ _
      regions := by simp [Arbiter.revokeAll]
      records := ?_
      kept := fun {role _} hb => by cases role <;> cases hb }
  intro role
  have hnone : (a.revokeAll.2).records role = [] := by cases role <;> rfl
  rw [hnone]
  refine (List.filter_eq_nil_iff.mpr fun r hr => ?_).symm
  cases hb : a.queues.get role with
  | none =>
    rw [records_none hb] at hr
    cases hr
  | some b =>
    rw [records_some hb] at hr
    have hall : b ∈ QueueRole.all.filterMap a.queues.get :=
      List.mem_filterMap.mpr ⟨role, by cases role <;> decide, hb⟩
    have hmem : r.view ∈ (QueueRole.all.filterMap a.queues.get).flatMap fun b =>
        b.mappings.map Mapping.view :=
      List.mem_flatMap.mpr ⟨b, hall, List.mem_map_of_mem hr⟩
    simp [hmem]

/-- Nothing maps a buffer of an idle arbiter, so all of them can go at once. -/
theorem Balanced.destroyed (h : a.Balanced grants) (hb : a.isBusy = false) :
    Carries a grants { a with users := [], queues := {}, revoked := true } := by
  refine h.cuts []
    { present := rfl
      live := fun v => by simp
      links := rfl
      regions := rfl
      records := fun role => ?_
      kept := fun {role _} hk => by cases role <;> cases hk }
  have hm : (a.queues.get role).any SharedBuffer.isMapped = false := by
    have hall := List.any_eq_false.mp hb role (by cases role <;> decide)
    simpa using hall
  rw [h.records_of_unmapped hm]
  cases role <;> rfl

theorem Stocked.carries {allocator : Allocator} {size : Nat}
    (hs : Stocked allocator role size a a') (h : a.Balanced grants) : Carries a grants a' := by
  cases hs with
  | present => exact h.refl
  | installed hb => exact h.install hb _ _ _

theorem Outcome.carries {op : Operation} {new : Option Grant} (ho : Outcome a op new a')
    (h : a.Balanced grants) (hv : ∀ v, op.view? = some v → ∃ g ∈ grants, g.view = v) :
    Carries a (grants ++ new.toList) a' := by
  have hquiet {a' : Arbiter} (hc : Carries a grants a') :
      Carries a (grants ++ (none : Option Grant).toList) a' := by
    rwa [Option.toList_none, List.append_nil]
  cases ho with
  | unchanged => exact hquiet h.refl
  | joined => exact hquiet (h.of_eq rfl rfl rfl rfl)
  | departed => exact hquiet (h.removeUser _)
  | reserved => exact hquiet (h.updateUser _ _)
  | released => exact hquiet (h.updateUser _ _)
  | relieved => exact hquiet (h.reset _)
  | allocated _ hb => exact hquiet (h.install hb _ _ _)
  | freed hb hm => exact hquiet (h.discard (by rw [hb]; exact hm))
  | opened _ _ _ hs =>
    have hc := hs.carries h
    exact hquiet (hc.trans (hc.balanced.updateUser _ _))
  | @closed user role _ _ _ _ hm ha =>
    subst ha
    have hu := h.updateUser user fun u => { u with queues := u.queues.erase role }
    split
    · exact hquiet hu
    · exact hquiet (hu.trans (hu.balanced.discard hm))
  | viewClosed v =>
    obtain ⟨g, hg, rfl⟩ := hv v rfl
    exact hquiet (h.closeView hg)
  | accessed v operation => exact hquiet (h.onView v operation)
  | lent _ hl => exact h.lend hl
  | scheduled role operation => exact hquiet (h.onBuffer role operation)
  | revokedAll => exact hquiet h.revokeAll
  | destroyed hb => exact hquiet (h.destroyed hb)

/-- One operation, through no other views than those granted so far. -/
theorem Balanced.perform (h : a.Balanced grants) (op : Operation)
    (hv : ∀ v, op.view? = some v → ∃ g ∈ grants, g.view = v) :
    Carries a (grants ++ (op.perform a).1.toList) (op.perform a).2 :=
  (op.outcome a).carries h hv

/-- An arbiter and all that it has granted, from the first grant on. -/
structure Ledger where
  arbiter : Arbiter := {}
  grants : List Grant := []

namespace Ledger

variable {l : Ledger}

/-- Performs an operation. There are no other views to go through than those granted. -/
def perform (l : Ledger) (op : Operation) : Ledger :=
  if op.view?.all fun v => l.grants.any (·.view == v) then
    { arbiter := (op.perform l.arbiter).2
      grants := l.grants ++ (op.perform l.arbiter).1.toList }
  else l

def run (l : Ledger) (ops : List Operation) : Ledger := ops.foldl perform l

theorem run_concat (ops : List Operation) (op : Operation) :
    l.run (ops ++ [op]) = (l.run ops).perform op := List.foldl_append

theorem perform_of_refused {op : Operation}
    (h : op.view?.all (fun v => l.grants.any (·.view == v)) = false) : l.perform op = l := by
  rw [perform, h, if_neg Bool.false_ne_true]

/-- What an operation that is not turned away goes through, and what it leaves. -/
theorem perform_of_granted {op : Operation}
    (h : op.view?.all (fun v => l.grants.any (·.view == v)) = true) :
    (∀ v, op.view? = some v → ∃ g ∈ l.grants, g.view = v) ∧
      l.perform op = ⟨(op.perform l.arbiter).2, l.grants ++ (op.perform l.arbiter).1.toList⟩ := by
  refine ⟨fun v hv => ?_, by rw [perform, h, if_pos rfl]⟩
  rw [hv, Option.all_some, List.any_eq_true] at h
  obtain ⟨g, hg, hgv⟩ := h
  exact ⟨g, hg, beq_iff_eq.mp hgv⟩

theorem perform_of_quiet (op : Operation) (hv : op.view? = none)
    (hg : (op.perform l.arbiter).1 = none) :
    l.perform op = { l with arbiter := (op.perform l.arbiter).2 } := by
  have hall : op.view?.all (fun v => l.grants.any (·.view == v)) = true := by rw [hv]; rfl
  rw [(perform_of_granted hall).2, hg, Option.toList_none, List.append_nil]

def live (l : Ledger) (role : QueueRole) : List Grant := l.grants.filter (l.arbiter.holds role)

theorem mem_live {g : Grant} : g ∈ l.live role ↔
    g ∈ l.grants ∧ g.view.queue = role ∧ l.arbiter.memory.isLive g.view.view = true := by
  rw [live, List.mem_filter, holds, Bool.and_eq_true, beq_iff_eq]

theorem balanced_empty : ({} : Arbiter).Balanced [] where
  present := rfl
  apart :=
    { inside := fun {role _} h => by cases role <;> cases h
      apart := fun {role _ _ _} h => by cases role <;> cases h }
  matched role := by cases role <;> rfl
  counted {role _} h := by cases role <;> cases h
  numbered {role _} h := by cases role <;> cases h
  views := List.nodup_nil
  known _ h := by cases h

theorem carries_perform {l : Ledger} (h : l.arbiter.Balanced l.grants) (op : Operation) :
    Carries l.arbiter (l.perform op).grants (l.perform op).arbiter ∧
      l.grants ⊆ (l.perform op).grants := by
  cases hv : op.view?.all fun v => l.grants.any (·.view == v) with
  | true =>
    obtain ⟨hview, hp⟩ := perform_of_granted hv
    rw [hp]
    exact ⟨h.perform op hview, List.subset_append_left _ _⟩
  | false =>
    rw [perform_of_refused hv]
    exact ⟨h.refl, List.Subset.refl _⟩

theorem carries_run {l : Ledger} (h : l.arbiter.Balanced l.grants) (ops : List Operation) :
    Carries l.arbiter (l.run ops).grants (l.run ops).arbiter ∧ l.grants ⊆ (l.run ops).grants := by
  induction ops generalizing l with
  | nil => exact ⟨h.refl, List.Subset.refl _⟩
  | cons op ops ih =>
    obtain ⟨hc, hs⟩ := carries_perform h op
    obtain ⟨hc', hs'⟩ := ih hc.balanced
    exact ⟨hc.trans hc', List.Subset.trans hs hs'⟩

theorem balanced_run (ops : List Operation) :
    (run {} ops).arbiter.Balanced (run {} ops).grants :=
  (carries_run (l := ⟨{}, []⟩) balanced_empty ops).1.balanced

/-- Taking records out of a buffer takes as much off its count, never more than there is. -/
theorem counts_exactly {b : SharedBuffer} (hc : b.refCount = b.mappings.length) :
    (∀ id view b', b.detach id = some (view, b') → b'.refCount + 1 = b.refCount) ∧
      ∀ owner, (b.revokeOwner owner).2.refCount + (b.revokeOwner owner).1.length = b.refCount := by
  refine ⟨fun id view b' h => ?_, fun owner => ?_⟩
  · rw [SharedBuffer.detach] at h
    split at h
    next => cases h
    next r hf =>
      cases h
      obtain ⟨hin, hid⟩ := And.intro (List.mem_of_find?_eq_some hf) (List.find?_some hf)
      have hpos := List.length_pos_of_mem hin
      have hlen : b.mappings.length = 1 + (b.mappings.eraseP (·.id == id)).length := by
        rw [List.length_eraseP_of_mem hin hid]
        omega
      have hcount := SharedBuffer.toNat_count_sub (n := 1) hc hlen
      rw [hc, hlen, Nat.add_comm]
      exact congrArg (1 + ·) hcount
  · have hlen := b.mappings.length_eq_length_filter_add fun r => r.owner == owner
    have hcount := SharedBuffer.toNat_count_sub hc hlen
    rw [SharedBuffer.revokeOwner_eq, List.length_map, hc, hlen, Nat.add_comm]
    exact congrArg _ hcount

end Ledger

end Arbiter

end AcceleratorScheduler
