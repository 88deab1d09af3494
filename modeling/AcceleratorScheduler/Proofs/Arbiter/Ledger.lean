import Mathlib.Data.List.Nodup
import AcceleratorScheduler.Proofs.Arbiter.Contents
import AcceleratorScheduler.Proofs.Arbiter.Requests

/-! The mappings ever granted, beside the records that buffers keep. Steps come in three kinds:
views are cut off together with their records, a queue gets a new buffer, or a view is lent. -/
namespace AcceleratorScheduler

namespace SharedMemory

theorem isLive_unlink (m : SharedMemory) (view v : ViewId) :
    (m.unlink view).isLive v = (m.isLive v && v != view) := by
  simp only [isLive, region?, unlink, Array.getD_eq_getD_getElem?, Array.getElem?_setIfInBounds]
  by_cases he : view = v
  · subst he
    rw [if_pos rfl, bne_self_eq_false, Bool.and_false]
    split <;> rfl
  · rw [if_neg he, bne_iff_ne.mpr (Ne.symm he), Bool.and_true]

theorem isLive_unlinkAll (m : SharedMemory) (views : List ViewId) (v : ViewId) :
    (m.unlinkAll views).isLive v = (m.isLive v && !views.contains v) := by
  induction views generalizing m with
  | nil => simp [unlinkAll]
  | cons view views ih =>
    rw [unlinkAll, List.foldl_cons, ← unlinkAll, ih, isLive_unlink, List.contains_cons,
      Bool.not_or, Bool.and_assoc]
    rfl

@[simp] theorem size_links_unlink (m : SharedMemory) (view : ViewId) :
    (m.unlink view).links.size = m.links.size :=
  Array.size_setIfInBounds

@[simp] theorem size_links_unlinkAll (m : SharedMemory) (views : List ViewId) :
    (m.unlinkAll views).links.size = m.links.size := by
  induction views generalizing m with
  | nil => rfl
  | cons view views ih => exact (ih _).trans (size_links_unlink m view)

@[simp] theorem regions_unlinkAll (m : SharedMemory) (views : List ViewId) :
    (m.unlinkAll views).regions = m.regions := by
  induction views generalizing m with
  | nil => rfl
  | cons view views ih => exact ih _

/-- Cutting a link that is cut already changes nothing. -/
theorem unlink_of_not_isLive (m : SharedMemory) {view : ViewId} (h : m.isLive view = false) :
    m.unlink view = m := by
  have hl : m.links.setIfInBounds view none = m.links := by
    apply Array.ext_getElem?
    intro i
    rw [Array.getElem?_setIfInBounds]
    split
    next he =>
      subst he
      simp only [isLive, region?, Array.getD_eq_getD_getElem?, Option.isSome_eq_false_iff,
        Option.isNone_iff_eq_none] at h
      split
      next hs =>
        rw [Array.getElem?_eq_getElem hs, Option.getD_some] at h
        rw [Array.getElem?_eq_getElem hs, h]
      next hs => rw [Array.getElem?_eq_none (by omega)]
    next => rfl
  rw [unlink, hl]

theorem isLive_link (m : SharedMemory) (region : RegionId) (v : ViewId) :
    (m.link region).2.isLive v = (v == m.links.size || m.isLive v) := by
  simp only [isLive, region?, link, Array.getD_eq_getD_getElem?, Array.getElem?_push]
  by_cases he : v = m.links.size
  · simp [he]
  · simp [he]

end SharedMemory

structure Grant where
  view : MappedView
  owner : UserId
  deriving DecidableEq, Repr

def Grant.record (g : Grant) : Mapping := ⟨g.view.mapping, g.owner, g.view.view⟩

namespace Arbiter

def records (a : Arbiter) (role : QueueRole) : List Mapping :=
  ((a.queues.get role).map SharedBuffer.mappings).getD []

def holds (a : Arbiter) (role : QueueRole) (g : Grant) : Bool :=
  g.view.queue == role && a.memory.isLive g.view.view

/-- Live views and records agree, record for record and in the same order. -/
structure Balanced (a : Arbiter) (grants : List Grant) : Prop where
  present : a.dissolved = false
  apart : a.Apart
  matched (role : QueueRole) : (grants.filter (a.holds role)).map Grant.record = a.records role
  counted {role : QueueRole} {b : SharedBuffer} :
    a.queues.get role = some b → b.refCount = b.mappings.length
  numbered {role : QueueRole} {b : SharedBuffer} : a.queues.get role = some b →
    (b.mappings.map Mapping.id).Nodup ∧ ∀ r ∈ b.mappings, r.id < b.nextMapping
  views : (grants.map fun g => g.view.view).Nodup
  known : ∀ g ∈ grants, g.view.view < a.memory.links.size

/-- A balanced state is left for another, and no view that is cut off comes back. -/
structure Carries (a : Arbiter) (grants : List Grant) (a' : Arbiter) : Prop where
  balanced : a'.Balanced grants
  grown : a.memory.links.size ≤ a'.memory.links.size
  stale {v : ViewId} : v < a.memory.links.size → a.memory.isLive v = false →
    a'.memory.isLive v = false

/-- Views are cut off, and the records of just these views go. -/
structure Cuts (views : List ViewId) (a a' : Arbiter) : Prop where
  present : a'.dissolved = a.dissolved
  live (v : ViewId) : a'.memory.isLive v = (a.memory.isLive v && !views.contains v)
  links : a'.memory.links.size = a.memory.links.size
  regions : a'.memory.regions.size = a.memory.regions.size
  records (role : QueueRole) :
    a'.records role = (a.records role).filter fun r => !views.contains r.view
  kept {role : QueueRole} {b' : SharedBuffer} : a'.queues.get role = some b' →
    ∃ b, a.queues.get role = some b ∧ b'.region = b.region ∧ b'.nextMapping = b.nextMapping ∧
      b'.refCount = b'.mappings.length

variable {a a' a'' : Arbiter} {grants grants' : List Grant} {role : QueueRole} {b : SharedBuffer}

theorem records_none (h : a.queues.get role = none) : a.records role = [] := by
  rw [records, h]
  rfl

theorem records_some (h : a.queues.get role = some b) : a.records role = b.mappings := by
  rw [records, h]
  rfl

theorem records_put (role : QueueRole) {buffer : Option SharedBuffer}
    (hq : a'.queues = a.queues.put buffer role) (other : QueueRole) : a'.records other =
      if other = role then (buffer.map SharedBuffer.mappings).getD [] else a.records other := by
  rw [records, hq, QueueTable.get_put]
  split <;> rfl

theorem of_get_put {t : QueueTable} {other : QueueRole} {k : SharedBuffer}
    (h : (t.put (some b) role).get other = some k) :
    (other = role ∧ k = b) ∨ (other ≠ role ∧ t.get other = some k) := by
  rw [QueueTable.get_put] at h
  split at h
  next he => exact .inl ⟨he, (Option.some.inj h).symm⟩
  next he => exact .inr ⟨he, h⟩

theorem Carries.trans (h : Carries a grants a') (h' : Carries a' grants' a'') :
    Carries a grants' a'' where
  balanced := h'.balanced
  grown := Nat.le_trans h.grown h'.grown
  stale hv hs := h'.stale (Nat.lt_of_lt_of_le hv h.grown) (h.stale hv hs)

theorem Balanced.refl (h : a.Balanced grants) : Carries a grants a :=
  ⟨h, Nat.le_refl _, fun _ hs => hs⟩

/-- Views and records go together, so what is left agrees. -/
theorem Balanced.cuts (h : a.Balanced grants) (views : List ViewId) (hc : Cuts views a a') :
    Carries a grants a' where
  grown := Nat.le_of_eq hc.links.symm
  stale _ hs := by rw [hc.live, hs, Bool.false_and]
  balanced :=
    { present := hc.present.trans h.present
      apart :=
        { inside := by
            intro role b' hb'
            obtain ⟨b, hb, hr, -⟩ := hc.kept hb'
            rw [hr, hc.regions]
            exact h.apart.inside hb
          apart := by
            intro role other b' k' hb' hk' he
            obtain ⟨b, hb, hr, -⟩ := hc.kept hb'
            obtain ⟨k, hk, hr', -⟩ := hc.kept hk'
            exact h.apart.apart hb hk (hr.symm.trans (he.trans hr')) }
      matched := by
        intro role
        have hf : grants.filter (a'.holds role) =
            (grants.filter (a.holds role)).filter fun g => !views.contains g.view.view := by
          rw [List.filter_filter]
          refine List.filter_congr fun g _ => ?_
          rw [holds, holds, hc.live, ← Bool.and_assoc, Bool.and_comm]
        rw [hf, hc.records, ← h.matched, List.filter_map]
        rfl
      counted := fun hb' => (hc.kept hb').elim fun _ hb => hb.2.2.2
      numbered := by
        intro role b' hb'
        obtain ⟨b, hb, -, hn, -⟩ := hc.kept hb'
        obtain ⟨hd, hlt⟩ := h.numbered hb
        have hm : b'.mappings = b.mappings.filter fun r => !views.contains r.view := by
          rw [← records_some hb', hc.records, records_some hb]
        rw [hm, hn]
        exact ⟨hd.sublist (List.filter_sublist.map _),
          fun r hr => hlt r (List.mem_filter.mp hr).1⟩
      views := h.views
      known := fun g hg => by
        rw [hc.links]
        exact h.known g hg }

/-- A step that touches neither buffers nor links. -/
theorem Balanced.of_eq (h : a.Balanced grants) (hd : a'.dissolved = a.dissolved)
    (hq : a'.queues = a.queues) (hl : a'.memory.links = a.memory.links)
    (hr : a'.memory.regions.size = a.memory.regions.size) : Carries a grants a' := by
  have hc : Cuts [] a a' :=
    { present := hd
      live := fun v => by simp [SharedMemory.isLive, SharedMemory.region?, hl]
      links := by rw [hl]
      regions := hr
      records := fun role => by
        rw [records, hq]
        exact (List.filter_eq_self.mpr fun _ _ => rfl).symm
      kept := fun {role b'} hb => ⟨b', by rwa [← hq], rfl, rfl, h.counted (by rwa [← hq])⟩ }
  exact h.cuts [] hc

theorem Balanced.records_of_unmapped (h : a.Balanced grants)
    (hm : (a.queues.get role).any SharedBuffer.isMapped = false) : a.records role = [] := by
  cases hb : a.queues.get role with
  | none => exact records_none hb
  | some b =>
    rw [hb] at hm
    simp only [Option.any_some, SharedBuffer.isMapped_eq, bne_eq_false_iff_eq] at hm
    rw [records_some hb, ← List.length_eq_zero_iff, ← h.counted hb, hm]

/-- A buffer that nothing maps can go. -/
theorem Balanced.discard (h : a.Balanced grants)
    (hm : (a.queues.get role).any SharedBuffer.isMapped = false) :
    Carries a grants (a.putBuffer role none) := by
  have hc : Cuts [] a (a.putBuffer role none) :=
    { present := rfl
      live := fun v => by simp [putBuffer]
      links := rfl
      regions := rfl
      records := by
        intro other
        rw [records_put role rfl]
        split
        next he =>
          subst he
          rw [h.records_of_unmapped hm]
          rfl
        next => exact (List.filter_eq_self.mpr fun _ _ => rfl).symm
      kept := by
        intro other b' hb
        rw [putBuffer, QueueTable.get_put] at hb
        split at hb
        next => cases hb
        next => exact ⟨b', hb, rfl, rfl, h.counted hb⟩ }
  exact h.cuts [] hc

/-- Each record stands for the view of one grant. -/
theorem Balanced.grant_of_record (h : a.Balanced grants) {r : Mapping} (hr : r ∈ a.records role) :
    ∃ g ∈ grants, a.holds role g = true ∧ g.record = r := by
  rw [← h.matched, List.mem_map] at hr
  obtain ⟨g, hg, rfl⟩ := hr
  obtain ⟨hm, hh⟩ := List.mem_filter.mp hg
  exact ⟨g, hm, hh, rfl⟩

theorem Balanced.record_of_grant (h : a.Balanced grants) {g : Grant} (hg : g ∈ grants)
    (hl : a.memory.isLive g.view.view = true) : g.record ∈ a.records g.view.queue := by
  rw [← h.matched, List.mem_map]
  exact ⟨g, List.mem_filter.mpr ⟨hg, by simp [holds, hl]⟩, rfl⟩

theorem Balanced.view_inj (h : a.Balanced grants) {other : QueueRole} {r r' : Mapping}
    (hr : r ∈ a.records role) (hr' : r' ∈ a.records other) (he : r.view = r'.view) :
    role = other ∧ r = r' := by
  obtain ⟨g, hg, hh, rfl⟩ := h.grant_of_record hr
  obtain ⟨g', hg', hh', rfl⟩ := h.grant_of_record hr'
  cases List.inj_on_of_nodup_map h.views hg hg' he
  simp only [holds, Bool.and_eq_true, beq_iff_eq] at hh hh'
  exact ⟨hh.1.symm.trans hh'.1, rfl⟩

/-- Some records of one buffer go, and the views that they are for are cut off. -/
theorem Balanced.withdraw (h : a.Balanced grants) (p : Mapping → Bool) (b' : SharedBuffer)
    (hb : a.queues.get role = some b) (hr : b'.region = b.region)
    (hn : b'.nextMapping = b.nextMapping) (hm : b'.mappings = b.mappings.filter p)
    (hc : b'.refCount = b'.mappings.length) :
    Carries a grants { a.putBuffer role (some b') with
      memory := a.memory.unlinkAll ((b.mappings.filter fun r => !p r).map Mapping.view) } := by
  have hrec := records_some hb
  have hcut {other : QueueRole} {r : Mapping} (hro : r ∈ a.records other) :
      ((b.mappings.filter fun r => !p r).map Mapping.view).contains r.view = true ↔
        other = role ∧ p r = false := by
    rw [List.contains_iff_mem, List.mem_map]
    constructor
    · rintro ⟨r', hr', he⟩
      obtain ⟨hmem, hp⟩ := List.mem_filter.mp hr'
      obtain ⟨rfl, rfl⟩ := h.view_inj (hrec ▸ hmem) hro he
      exact ⟨rfl, by simpa using hp⟩
    · rintro ⟨rfl, hp⟩
      exact ⟨r, List.mem_filter.mpr ⟨hrec ▸ hro, by simp [hp]⟩, rfl⟩
  refine h.cuts ((b.mappings.filter fun r => !p r).map Mapping.view)
    { present := rfl
      live := fun v => SharedMemory.isLive_unlinkAll _ _ v
      links := SharedMemory.size_links_unlinkAll _ _
      regions := by simp
      records := ?_
      kept := ?_ }
  · intro other
    refine (records_put role rfl other).trans ?_
    split
    next he =>
      subst he
      rw [Option.map_some, Option.getD_some, hm, ← hrec]
      refine List.filter_congr fun r hro => ?_
      have hiff := hcut hro
      cases hp : p r <;> simp_all
    next he =>
      refine (List.filter_eq_self.mpr fun r hro => ?_).symm
      have hiff := hcut hro
      simp_all
  · intro other k hk
    obtain ⟨rfl, rfl⟩ | ⟨-, hk⟩ := of_get_put hk
    · exact ⟨b, hb, hr, hn, hc⟩
    · exact ⟨k, hk, rfl, rfl, h.counted hk⟩

/-- A queue without a buffer gets one. -/
theorem Balanced.install (h : a.Balanced grants) (hb : a.queues.get role = none) (size : Nat)
    (mask : AccessMask) (bytes : Memory) :
    Carries a grants (a.install role size mask bytes) := by
  have hsize : (a.install role size mask bytes).memory.regions.size = a.memory.regions.size + 1 :=
    Array.size_push ..
  have hrec (other : QueueRole) :
      (a.install role size mask bytes).records other = a.records other := by
    refine (records_put role rfl other).trans ?_
    split
    next he => rw [he, records_none hb]; rfl
    next => rfl
  refine ⟨⟨h.present, ⟨?_, ?_⟩, fun other => ?_, ?_, ?_, h.views, h.known⟩, Nat.le_refl _,
    fun _ hs => hs⟩
  · intro other k hk
    rw [hsize]
    obtain ⟨-, rfl⟩ | ⟨-, hold⟩ := of_get_put hk
    · exact Nat.lt_succ_self _
    · exact Nat.lt_succ_of_lt (h.apart.inside hold)
  · intro other third k k' hk hk' he
    obtain ⟨rfl, rfl⟩ | ⟨-, hold⟩ := of_get_put hk <;>
      obtain ⟨rfl, rfl⟩ | ⟨-, hold'⟩ := of_get_put hk'
    · rfl
    · exact absurd (h.apart.inside hold') (by rw [← he]; exact Nat.lt_irrefl _)
    · exact absurd (h.apart.inside hold) (by rw [he]; exact Nat.lt_irrefl _)
    · exact h.apart.apart hold hold' he
  · rw [hrec, ← h.matched]
    rfl
  · intro other k hk
    obtain ⟨-, rfl⟩ | ⟨-, hold⟩ := of_get_put hk
    · rfl
    · exact h.counted hold
  · intro other k hk
    obtain ⟨-, rfl⟩ | ⟨-, hold⟩ := of_get_put hk
    · exact ⟨List.nodup_nil, by simp⟩
    · exact h.numbered hold

/-- A queue's buffer can change as long as its bytes stay where they are. -/
theorem Apart.put (h : a.Apart) {b' : SharedBuffer} (hb : a.queues.get role = some b)
    (hr : b'.region = b.region) (hq : a'.queues = a.queues.put (some b') role)
    (hs : a'.memory.regions.size = a.memory.regions.size) : a'.Apart := by
  have hregion {other : QueueRole} {k : SharedBuffer} (hk : a'.queues.get other = some k) :
      ∃ k', a.queues.get other = some k' ∧ k.region = k'.region := by
    obtain ⟨rfl, rfl⟩ | ⟨-, hold⟩ := of_get_put (hq ▸ hk)
    · exact ⟨b, hb, hr⟩
    · exact ⟨k, hold, rfl⟩
  constructor
  · intro other k hk
    obtain ⟨k', hk', he⟩ := hregion hk
    rw [he, hs]
    exact h.inside hk'
  · intro other third k j hk hj he
    obtain ⟨k', hk', hek⟩ := hregion hk
    obtain ⟨j', hj', hej⟩ := hregion hj
    exact h.apart hk' hj' (hek.symm.trans (he.trans hej))

/-- The newest mapping gets a number above all others. -/
theorem numbered_append {mappings : List Mapping} {r : Mapping}
    (h : (mappings.map Mapping.id).Nodup ∧ ∀ r' ∈ mappings, r'.id < r.id) :
    ((mappings ++ [r]).map Mapping.id).Nodup ∧ ∀ r' ∈ mappings ++ [r], r'.id < r.id + 1 := by
  obtain ⟨hd, hlt⟩ := h
  constructor
  · rw [List.map_append]
    refine hd.append (List.nodup_singleton _) (List.disjoint_singleton.mpr fun hm => ?_)
    obtain ⟨r', hr', he⟩ := List.mem_map.mp hm
    exact Nat.ne_of_lt (hlt r' hr') he
  · intro r' hr'
    rcases List.mem_append.mp hr' with hr' | hr'
    · exact Nat.lt_succ_of_lt (hlt r' hr')
    · cases List.mem_singleton.mp hr'
      exact Nat.lt_succ_self _

/-- The newest view is not among those granted before. -/
theorem Balanced.views_append (h : a.Balanced grants) {g : Grant}
    (hg : g.view.view = a.memory.links.size) :
    ((grants ++ [g]).map fun g => g.view.view).Nodup := by
  rw [List.map_append]
  refine h.views.append (List.nodup_singleton _) (List.disjoint_singleton.mpr fun hm => ?_)
  obtain ⟨g', hg', he⟩ := List.mem_map.mp hm
  exact Nat.ne_of_lt (h.known g' hg') (he.trans hg)

/-- Grants of before hold as they did, once the newest view is linked. -/
theorem Balanced.filter_holds (h : a.Balanced grants)
    (hl : ∀ w, a'.memory.isLive w = (w == a.memory.links.size || a.memory.isLive w))
    (role : QueueRole) : grants.filter (a'.holds role) = grants.filter (a.holds role) := by
  refine List.filter_congr fun g hg => ?_
  have hne : (g.view.view == a.memory.links.size) = false :=
    beq_eq_false_iff_ne.mpr (Nat.ne_of_lt (h.known g hg))
  rw [holds, holds, hl, hne, Bool.false_or]

/-- A mapping is granted: the buffer's newest record is that of the newest view. -/
theorem Balanced.lend (h : a.Balanced grants) {user : UserId} {offset length : Nat}
    {readOnly : Bool} {room : FiniteRoom} {v : MappedView}
    (hl : Lends role user offset length readOnly room.grants a v a') :
    Carries a (grants ++ [⟨v, user⟩]) a' := by
  obtain ⟨-, -, ⟨b, b', hb, hatt, ha⟩, hv⟩ := hl
  obtain ⟨-, -, -, -, hroom, hid, hb'⟩ := SharedBuffer.attach_eq_ok hatt
  have hview : v.view = a.memory.links.size := by rw [hv]
  have hqueue : v.queue = role := by rw [hv]
  have hput : a'.queues = a.queues.put (some b') role := by rw [ha]; rfl
  have hlive (w : ViewId) :
      a'.memory.isLive w = (w == a.memory.links.size || a.memory.isLive w) := by
    rw [ha]
    exact a.memory.isLive_link b.region w
  have hsize : a'.memory.links.size = a.memory.links.size + 1 := by
    rw [ha]
    exact Array.size_push ..
  have hregions : a'.memory.regions = a.memory.regions := by rw [ha]; rfl
  have hapart : a'.Apart := h.apart.put hb (by rw [hb']) hput (by rw [hregions])
  refine ⟨⟨by rw [ha]; exact h.present, hapart, fun other => ?_, ?_, ?_,
    h.views_append hview, ?_⟩, ?_, ?_⟩
  · rw [List.filter_append, List.map_append, h.filter_holds hlive, h.matched,
      records_put role hput]
    by_cases he : other = role
    · subst he
      simp [holds, hlive, hview, hqueue, Grant.record, hid, records_some hb, hb']
    · simp [holds, hqueue, he, Ne.symm he]
  · intro other k hk
    obtain ⟨-, rfl⟩ | ⟨-, hold⟩ := of_get_put (hput ▸ hk)
    · have hcount : b.count.toNat = b.mappings.length := h.counted hb
      have hfew := room.few hroom
      rw [hb', SharedBuffer.refCount, UInt32.toNat_add, hcount, List.length_append]
      exact Nat.mod_eq_of_lt hfew
    · exact h.counted hold
  · intro other k hk
    obtain ⟨-, rfl⟩ | ⟨-, hold⟩ := of_get_put (hput ▸ hk)
    · rw [hb']
      exact numbered_append (h.numbered hb)
    · exact h.numbered hold
  · intro g hg
    rw [hsize]
    rcases List.mem_append.mp hg with hg | hg
    · exact Nat.lt_succ_of_lt (h.known g hg)
    · cases List.mem_singleton.mp hg
      exact hview ▸ Nat.lt_succ_self _
  · rw [hsize]
    exact Nat.le_succ _
  · intro w hw hs
    rw [hlive, hs, Bool.or_false, beq_eq_false_iff_ne]
    exact Nat.ne_of_lt hw

end Arbiter

end AcceleratorScheduler
