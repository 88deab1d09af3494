import AcceleratorScheduler.Proofs.Arbiter.Regions

/-! What a departure ends. A session that is removed loses its views on every queue, and one that
exclusive access is taken from loses those on the exclusive queues. No other view, no byte and no
other session is affected, and a buffer goes only where nobody is left to use or map it. A session
that has gone is never granted a view again; main statement: `departure_ends_own_views_alone`. -/
namespace AcceleratorScheduler

namespace SharedMemory

variable {m : SharedMemory} {view : ViewId} {views : List ViewId}

/-- A link that is not cut leads where it did. -/
theorem region?_unlinkAll_of_isLive
    (h : (m.unlinkAll views).isLive view = m.isLive view) :
    (m.unlinkAll views).region? view = m.region? view := by
  cases hr : (m.unlinkAll views).region? view with
  | some region => exact (region?_of_unlinkAll hr).symm
  | none =>
    rw [isLive, hr] at h
    exact (Option.isSome_eq_false_iff.mp h.symm |> Option.isNone_iff_eq_none.mp).symm

/-- What a view reaches depends on its link and on the bytes there are. -/
theorem window_congr {m' : SharedMemory} {v : MappedView}
    (hl : m'.region? v.view = m.region? v.view) (hr : m'.regions = m.regions) :
    m'.window v = m.window v := by
  have hbytes : m'.bytes = m.bytes := by
    funext region
    rw [SharedMemory.bytes, hr, SharedMemory.bytes]
  rw [window, hl, hbytes, window]

end SharedMemory

namespace Arbiter

variable {a a' : Arbiter} {grants : List Grant} {id : UserId} {roles : QueueSet}

/-- A view is valid as long as its record is there. -/
theorem Balanced.isLive_iff_record (h : a.Balanced grants) {g : Grant} (hg : g ∈ grants) :
    a.memory.isLive g.view.view = true ↔ g.record ∈ a.records g.view.queue := by
  refine ⟨h.record_of_grant hg, fun hr => ?_⟩
  obtain ⟨other, hother, hh, he⟩ := h.grant_of_record hr
  obtain rfl := List.inj_on_of_nodup_map h.views hother hg (congrArg Mapping.view he)
  simp only [holds, Bool.and_eq_true] at hh
  exact hh.2

namespace Ledger

/-- A session's views on some queues have ended. Every other view reaches what it reached, no byte
has changed, and a buffer that has gone is neither used nor mapped by anyone. -/
structure Severs (id : UserId) (roles : QueueSet) (l l' : Ledger) : Prop where
  grants : l'.grants = l.grants
  ended : ∀ g ∈ l.grants, roles.contains g.view.queue = true → g.owner = id →
    l'.arbiter.memory.isLive g.view.view = false
  spared : ∀ g ∈ l.grants, (roles.contains g.view.queue = true → g.owner ≠ id) →
    l'.arbiter.memory.region? g.view.view = l.arbiter.memory.region? g.view.view ∧
      l'.arbiter.memory.window g.view = l.arbiter.memory.window g.view
  bytes : l'.arbiter.memory.regions = l.arbiter.memory.regions
  others : l'.arbiter.users.filter (·.id != id) = l.arbiter.users.filter (·.id != id)
  surviving : ∀ role b', l'.arbiter.queues.get role = some b' →
    ∃ b, l.arbiter.queues.get role = some b ∧ b'.size = b.size ∧ b'.mask = b.mask ∧
      l'.arbiter.contents role = l.arbiter.contents role
  freed : ∀ role, (l.arbiter.queues.get role).isSome = true →
    l'.arbiter.queues.get role = none → l'.arbiter.uses role = false ∧ l'.live role = []

end Ledger

/-- What revoking a session on some queues leaves. -/
structure Parts (id : UserId) (roles : QueueSet) (a a' : Arbiter) : Prop where
  cut : ∃ views, a'.memory = a.memory.unlinkAll views
  records (role : QueueRole) : a'.records role =
    if roles.contains role then (a.records role).filter (fun r => !(r.owner == id))
    else a.records role
  queues (role : QueueRole) : a'.queues.get role =
    if roles.contains role then a.remainder id role else a.queues.get role
  uses (role : QueueRole) : roles.contains role = true → a'.uses role = a.usesBeside id role
  others : a'.users.filter (·.id != id) = a.users.filter (·.id != id)

namespace Parts

theorem regions (h : Parts id roles a a') : a'.memory.regions = a.memory.regions := by
  obtain ⟨views, hv⟩ := h.cut
  rw [hv, SharedMemory.regions_unlinkAll]

theorem mem_records (h : Parts id roles a a') (role : QueueRole) (r : Mapping) :
    r ∈ a'.records role ↔
      r ∈ a.records role ∧ (roles.contains role = true → r.owner ≠ id) := by
  rw [h.records]
  cases roles.contains role <;> simp

/-- The session's views on these queues end, and no other one. -/
theorem isLive_iff (h : Parts id roles a a') (hb : a.Balanced grants) (hb' : a'.Balanced grants)
    {g : Grant} (hg : g ∈ grants) : a'.memory.isLive g.view.view = true ↔
      a.memory.isLive g.view.view = true ∧
        (roles.contains g.view.queue = true → g.owner ≠ id) := by
  rw [hb'.isLive_iff_record hg, h.mem_records, hb.isLive_iff_record hg]
  rfl

theorem region?_eq (h : Parts id roles a a') {view : ViewId}
    (hl : a'.memory.isLive view = a.memory.isLive view) :
    a'.memory.region? view = a.memory.region? view := by
  obtain ⟨views, hv⟩ := h.cut
  rw [hv] at hl ⊢
  exact SharedMemory.region?_unlinkAll_of_isLive hl

/-- A buffer that stays loses records and nothing else. -/
theorem surviving (h : Parts id roles a a') {role : QueueRole} {b' : SharedBuffer}
    (hb' : a'.queues.get role = some b') :
    ∃ b, a.queues.get role = some b ∧ b'.size = b.size ∧ b'.mask = b.mask ∧
      b'.region = b.region := by
  have hget := h.queues role
  rw [hb'] at hget
  split at hget
  · obtain ⟨hmap, -⟩ := Option.filter_eq_some_iff.mp hget.symm
    obtain ⟨b, hb, rfl⟩ := Option.map_eq_some_iff.mp hmap
    rw [SharedBuffer.revokeOwner_eq]
    exact ⟨b, hb, rfl, rfl, rfl⟩
  · exact ⟨b', hget.symm, rfl, rfl, rfl⟩

/-- A buffer that goes is one that nobody else uses. -/
theorem unused (h : Parts id roles a a') {role : QueueRole}
    (hs : (a.queues.get role).isSome = true) (hn : a'.queues.get role = none) :
    a'.uses role = false := by
  obtain ⟨b, hb⟩ := Option.isSome_iff_exists.mp hs
  have hget := h.queues role
  rw [hn] at hget
  split at hget
  next hr =>
    rw [h.uses role hr]
    rw [remainder, hb, Option.map_some, Option.filter_some] at hget
    split at hget
    next => cases hget
    next hno => exact (Bool.or_eq_false_iff.mp (Bool.eq_false_iff.mpr hno)).1
  next => cases hget.trans hb

theorem severs (h : Parts id roles a a') (hb : a.Balanced grants) (hb' : a'.Balanced grants) :
    Ledger.Severs id roles ⟨a, grants⟩ ⟨a', grants⟩ where
  grants := rfl
  ended g hg hr ho := by
    refine Bool.eq_false_iff.mpr fun hl => ?_
    exact ((h.isLive_iff hb hb' hg).mp hl).2 hr ho
  spared g hg hno := by
    have hlive : a'.memory.isLive g.view.view = a.memory.isLive g.view.view := by
      rw [Bool.eq_iff_iff, h.isLive_iff hb hb' hg]
      exact and_iff_left hno
    have hregion := h.region?_eq hlive
    exact ⟨hregion, SharedMemory.window_congr hregion h.regions⟩
  bytes := h.regions
  others := h.others
  surviving role b' hget' := by
    obtain ⟨b, hget, hs, hm, hr⟩ := h.surviving hget'
    refine ⟨b, hget, hs, hm, ?_⟩
    change a'.contents role = a.contents role
    rw [contents, hget', contents, hget, Option.map_some, Option.map_some, hr,
      SharedMemory.bytes, h.regions, SharedMemory.bytes]
  freed role hs hn := by
    refine ⟨h.unused hs hn, ?_⟩
    have hmatched := hb'.matched role
    rw [records_none hn] at hmatched
    exact List.map_eq_nil_iff.mp hmatched

end Parts

theorem filter_updateUser (a : Arbiter) (id : UserId) {f : User → User} (hf : ∀ u, (f u).id = u.id) :
    (a.updateUser id f).users.filter (·.id != id) = a.users.filter (·.id != id) := by
  rw [updateUser, List.filter_map]
  have hsame : a.users.filter ((fun u : User => u.id != id) ∘
      fun u => if u.id = id then f u else u) = a.users.filter (·.id != id) := by
    refine List.filter_congr fun u _ => ?_
    by_cases he : u.id = id <;> simp [he, hf]
  rw [hsame]
  refine (List.map_congr_left fun u hu => ?_).trans (List.map_id _)
  have hne := (List.mem_filter.mp hu).2
  rw [if_neg (bne_iff_ne.mp hne)]
  rfl

section

variable {u : User}

theorem parts_removeUser (hb : a.Balanced grants) (hu : a.user? id = some u) :
    Parts id .full a (a.removeUser id).2 where
  cut := by
    rw [removeUser_of_user hu]
    exact memory_revokeUser a id .full
  records role := by
    rw [hb.records_removeUser hu, if_pos (QueueSet.contains_full role)]
  queues role := by
    rw [get_removeUser hu, if_pos (QueueSet.contains_full role)]
  uses role _ := uses_removeUser hu role
  others := by
    rw [users_removeUser hu, List.filter_filter]
    simp only [Bool.and_self]

theorem parts_reset (hb : a.Balanced grants) (hu : a.user? id = some u) :
    Parts id .exclusive a (a.reset id) where
  cut := by
    rw [reset_of_user hu]
    exact memory_revokeUser (a.updateUser id _) id .exclusive
  records role := by
    rw [hb.records_reset hu, QueueSet.contains_exclusive]
  queues role := by
    rw [get_reset hu, QueueSet.contains_exclusive]
  uses role hr := uses_reset hu (QueueSet.contains_exclusive role ▸ hr)
  others := by
    rw [users_reset hu]
    exact a.filter_updateUser id fun _ => rfl

/-- A session that is reset stays, with its use of the event queue. -/
theorem user?_reset (hu : a.user? id = some u) : (a.reset id).user? id =
    some { u with
      exclusive := false
      queues := { send := false, receive := false, event := u.queues.event } } := by
  have hqueues : u.queues.without .exclusive =
      { send := false, receive := false, event := u.queues.event } := by
    simp [QueueSet.without, QueueSet.exclusive]
  rw [user?, users_reset hu, ← user?, user?_updateUser hu (f := fun u =>
    { u with exclusive := false, queues := u.queues.without .exclusive }) fun _ => rfl, hqueues]

end

namespace Ledger

variable {l : Ledger} {u : User}

theorem severs_removeUser (hb : l.arbiter.Balanced l.grants) (hu : l.arbiter.user? id = some u) :
    Severs id .full l (l.perform (.removeUser id)) := by
  rw [perform_of_quiet (.removeUser id) rfl rfl]
  exact (parts_removeUser hb hu).severs hb (hb.removeUser id).balanced

theorem severs_reset (hb : l.arbiter.Balanced l.grants) (hu : l.arbiter.user? id = some u) :
    Severs id .exclusive l (l.perform (.reset id)) := by
  rw [perform_of_quiet (.reset id) rfl rfl]
  exact (parts_reset hb hu).severs hb (hb.reset id).balanced

structure Departed (id : UserId) (l : Ledger) : Prop where
  past : id < l.arbiter.nextUser
  gone : l.arbiter.user? id = none
  spent : ∀ g ∈ l.grants, g.owner = id → l.arbiter.memory.isLive g.view.view = false

namespace Departed

/-- Views are granted to sessions that are there. -/
theorem not_granted (h : l.Departed id) {op : Operation} {g : Grant}
    (hg : (op.perform l.arbiter).1 = some g) : g.owner ≠ id := by
  have ho := op.outcome l.arbiter
  rw [hg] at ho
  cases ho with
  | lent _ hl =>
    obtain ⟨u, hu, -⟩ := hl.entitled
    rintro rfl
    cases h.gone.symm.trans hu

theorem perform (h : l.Departed id) (hb : l.arbiter.Balanced l.grants)
    (ho : l.arbiter.Orderly) (op : Operation) : (l.perform op).Departed id where
  past := Nat.lt_of_lt_of_le h.past (succeeds_perform ho op).grown
  gone := (succeeds_perform ho op).user?_eq_none h.past h.gone
  spent g hg hown := by
    have hc := (carries_perform hb op).1
    cases hv : op.view?.all fun v => l.grants.any (·.view == v) with
    | false =>
      rw [perform_of_refused hv] at hg ⊢
      exact h.spent g hg hown
    | true =>
      obtain ⟨-, hp⟩ := perform_of_granted hv
      rw [hp] at hg hc ⊢
      rcases List.mem_append.mp hg with hold | hnew
      · exact hc.stale (hb.known g hold) (h.spent g hold hown)
      · exact absurd hown (h.not_granted (Option.mem_toList.mp hnew))

theorem run (h : l.Departed id) (hb : l.arbiter.Balanced l.grants) (ho : l.arbiter.Orderly)
    (ops : List Operation) : (l.run ops).Departed id := by
  induction ops generalizing l with
  | nil => exact h
  | cons op ops ih =>
    exact ih (h.perform hb ho op) (carries_perform hb op).1.balanced
      (succeeds_perform ho op).orderly

end Departed

theorem departed_removeUser (hb : l.arbiter.Balanced l.grants) (ho : l.arbiter.Orderly)
    (hu : l.arbiter.user? id = some u) : (l.perform (.removeUser id)).Departed id where
  past := by
    obtain ⟨hm, rfl⟩ := mem_of_user? hu
    exact Nat.lt_of_lt_of_le (ho.given u hm) (succeeds_perform ho (.removeUser u.id)).grown
  gone := by
    rw [perform_of_quiet (.removeUser id) rfl rfl, user?_eq_none_iff]
    intro v hv
    change v ∈ (l.arbiter.removeUser id).2.users at hv
    rw [users_removeUser hu] at hv
    exact bne_iff_ne.mp (List.mem_filter.mp hv).2
  spent g hg hown := by
    have hs := severs_removeUser hb hu
    exact hs.ended g (hs.grants ▸ hg) (QueueSet.contains_full _) hown

/-- Removing a session ends its views on every queue. Taking exclusive access away from it ends
those on the exclusive queues, and leaves the session with its use of the event queue. Either way
every other view reaches the same bytes as before, the other sessions and the bytes, sizes and masks
of the buffers stay as they are, and a buffer goes only if no session uses its queue and no view on
it is left. Once a session was removed, no request in any later state, by a handle or otherwise,
grants it a view, and it has no valid one. -/
theorem departure_ends_own_views_alone (ops : List Operation) {l : Ledger} (hl : l = run {} ops)
    {u : User} (hu : u ∈ l.arbiter.users) :
    (Severs u.id .full l (l.perform (.removeUser u.id)) ∧
      (l.perform (.removeUser u.id)).arbiter.user? u.id = none) ∧
    (Severs u.id .exclusive l (l.perform (.reset u.id)) ∧
      (l.perform (.reset u.id)).arbiter.user? u.id = some { u with
        exclusive := false
        queues := { send := false, receive := false, event := u.queues.event } }) ∧
    ∀ later : List Operation,
      (∀ (op : Operation) (g : Grant),
        (op.perform ((l.perform (.removeUser u.id)).run later).arbiter).1 = some g →
          g.owner ≠ u.id) ∧
      ∀ role, ∀ g ∈ ((l.perform (.removeUser u.id)).run later).live role, g.owner ≠ u.id := by
  have hb : l.arbiter.Balanced l.grants := hl ▸ balanced_run ops
  have ho : l.arbiter.Orderly := hl ▸ orderly_run ops
  have huser := ho.user?_of_mem hu
  have hgone := departed_removeUser hb ho huser
  refine ⟨⟨severs_removeUser hb huser, hgone.gone⟩, ⟨severs_reset hb huser, ?_⟩, fun later => ?_⟩
  · rw [perform_of_quiet (.reset u.id) rfl rfl]
    exact user?_reset huser
  · have hlater := hgone.run (carries_perform hb _).1.balanced (succeeds_perform ho _).orderly later
    refine ⟨fun op g hg => hlater.not_granted hg, fun role g hg hown => ?_⟩
    obtain ⟨hm, -, hlive⟩ := mem_live.mp hg
    rw [hlater.spent g hm hown] at hlive
    cases hlive

/-- The holder has views on the exclusive send queue and on the event queue, where another session
has one too. -/
private def shared : List Operation :=
  [.addUser 1 true, .addUser 2 false, .reserve 1, .openQueue .process 1 .send 112,
    .openQueue .process 1 .event 112, .openQueue .process 2 .event 112,
    .mapWhole .send 1 false, .mapWhole .event 1 true, .mapWhole .event 2 true]

theorem departure_ends_own_views_alone_shared :
    (∃ u ∈ (run {} shared).arbiter.users, u.id = 1 ∧ u.exclusive = true) ∧
      ((run {} shared).perform (.removeUser 1)).arbiter.memory.isLive 1 = false ∧
      ((run {} shared).perform (.removeUser 1)).arbiter.memory.region? 2 = some 1 ∧
      ((run {} shared).perform (.reset 1)).arbiter.memory.isLive 0 = false ∧
      ((run {} shared).perform (.reset 1)).arbiter.memory.region? 1 = some 1 ∧
      ∀ later offset length room, ((Operation.mapHandle ⟨.event, 1, true⟩ offset length room).perform
        (((run {} shared).perform (.removeUser 1)).run later).arbiter).1.all
          (fun g => g.owner != 1) = true := by
  have hg : (run {} shared).grants =
      [⟨⟨0, .send, 1, 112, true⟩, 1⟩, ⟨⟨1, .event, 1, 112, false⟩, 1⟩,
        ⟨⟨2, .event, 2, 112, false⟩, 2⟩] := by decide +kernel
  have hr : (run {} shared).arbiter.memory.region? 1 = some 1 ∧
      (run {} shared).arbiter.memory.region? 2 = some 1 := by decide +kernel
  obtain ⟨u, hu, hid, hx⟩ : ∃ u ∈ (run {} shared).arbiter.users, u.id = 1 ∧ u.exclusive = true := by
    decide +kernel
  obtain ⟨⟨hleft, -⟩, ⟨hreset, -⟩, hlater⟩ := departure_ends_own_views_alone shared rfl hu
  rw [hid] at hleft hreset hlater
  refine ⟨⟨u, hu, hid, hx⟩, ?_, ?_, ?_, ?_, fun later offset length room => ?_⟩
  · exact hleft.ended ⟨⟨1, .event, 1, 112, false⟩, 1⟩ (by simp [hg]) rfl rfl
  · exact (hleft.spared ⟨⟨2, .event, 2, 112, false⟩, 2⟩ (by simp [hg]) (by simp)).1.trans hr.2
  · exact hreset.ended ⟨⟨0, .send, 1, 112, true⟩, 1⟩ (by simp [hg]) rfl rfl
  · exact (hreset.spared ⟨⟨1, .event, 1, 112, false⟩, 1⟩ (by simp [hg]) nofun).1.trans hr.1
  · rw [Option.all_eq_true]
    intro g hgrant
    exact bne_iff_ne.mpr ((hlater later).1 (.mapHandle ⟨.event, 1, true⟩ offset length room) g hgrant)

end Ledger

end Arbiter

end AcceleratorScheduler
