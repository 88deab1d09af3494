import AcceleratorScheduler.Proofs.Arbiter.Custody
import AcceleratorScheduler.Proofs.Ring.Format

/-! Where the bytes of a queue are. Bytes are written by operations on a view or on a buffer and by
nothing else; a buffer keeps its region as long as it is there, and every valid view reaches the
region of its queue's buffer (`Anchored.perform`). -/
namespace AcceleratorScheduler

namespace SharedMemory

variable {m m' : SharedMemory} {region : RegionId} {view : ViewId}

/-- Links were cut, or a region or a link was added, and no byte was written. -/
inductive Rearranged (m : SharedMemory) : SharedMemory → Prop
  | cut (views : List ViewId) : Rearranged m (m.unlinkAll views)
  | grown (bytes : Memory) : Rearranged m (m.addRegion bytes).2
  | linked (region : RegionId) : Rearranged m (m.link region).2

theorem Rearranged.refl (m : SharedMemory) : m.Rearranged m := .cut []

theorem Rearranged.bytes (h : m.Rearranged m') (hr : region < m.regions.size) :
    m'.bytes region = m.bytes region := by
  cases h with
  | cut views => rw [SharedMemory.bytes, regions_unlinkAll, SharedMemory.bytes]
  | grown bytes =>
    simp only [SharedMemory.bytes, addRegion, Array.getD_eq_getD_getElem?, Array.getElem?_push]
    rw [if_neg (Nat.ne_of_lt hr)]
  | linked => rfl

theorem region?_of_unlink {v : ViewId} (h : (m.unlink v).region? view = some region) :
    m.region? view = some region := by
  simp only [region?, unlink, Array.getD_eq_getD_getElem?, Array.getElem?_setIfInBounds] at h ⊢
  split at h
  · split at h <;> cases h
  · exact h

theorem region?_of_unlinkAll {views : List ViewId}
    (h : (m.unlinkAll views).region? view = some region) : m.region? view = some region := by
  induction views generalizing m with
  | nil => exact h
  | cons v views ih => exact region?_of_unlink (ih h)

theorem region?_link (m : SharedMemory) (region : RegionId) (view : ViewId) :
    (m.link region).2.region? view =
      if view = m.links.size then some region else m.region? view := by
  simp only [region?, link, Array.getD_eq_getD_getElem?, Array.getElem?_push]
  split <;> rfl

/-- What a view reaches that was there before, it reached before. -/
theorem Rearranged.region? (h : m.Rearranged m') (hv : view < m.links.size)
    (hr : m'.region? view = some region) : m.region? view = some region := by
  cases h with
  | cut => exact region?_of_unlinkAll hr
  | grown => exact hr
  | linked other => rwa [region?_link, if_neg (Nat.ne_of_lt hv)] at hr

theorem isLive_of_region? (h : m.region? view = some region) : m.isLive view = true := by
  rw [isLive, h]
  rfl

theorem Rearranged.size_regions (h : m.Rearranged m') : m.regions.size ≤ m'.regions.size := by
  cases h with
  | cut views => exact Nat.le_of_eq (congrArg Array.size (regions_unlinkAll m views)).symm
  | grown bytes =>
    rw [addRegion, Array.size_push]
    exact Nat.le_succ _
  | linked => exact Nat.le_refl _

end SharedMemory

namespace Arbiter

variable {a a' : Arbiter} {op : Operation} {role other : QueueRole} {b b' : SharedBuffer}
  {new : Option Grant}

def Operation.writes : Operation → Bool
  | access .. | schedule .. => true
  | _ => false

/-- Revoking cuts links. -/
theorem memory_revokeUser (a : Arbiter) (id : UserId) (roles : QueueSet) :
    ∃ views, (a.revokeUser id roles).memory = a.memory.unlinkAll views := by
  have hunused (a : Arbiter) (role : QueueRole) : (a.releaseUnused role).memory = a.memory := by
    rw [releaseUnused]
    split <;> rfl
  have hqueue (a : Arbiter) (role : QueueRole) :
      ∃ views, (a.revokeQueue id role).memory = a.memory.unlinkAll views := by
    rw [revokeQueue, hunused]
    cases a.queues.get role with
    | none => exact ⟨[], rfl⟩
    | some b => exact ⟨_, rfl⟩
  have hfold (l : List QueueRole) (a : Arbiter) : ∃ views,
      (l.foldl (fun a role => a.revokeQueue id role) a).memory = a.memory.unlinkAll views := by
    induction l generalizing a with
    | nil => exact ⟨[], rfl⟩
    | cons role l ih =>
      obtain ⟨views, hv⟩ := hqueue a role
      obtain ⟨views', hv'⟩ := ih (a.revokeQueue id role)
      refine ⟨views ++ views', hv'.trans ?_⟩
      rw [hv, SharedMemory.unlinkAll, SharedMemory.unlinkAll, SharedMemory.unlinkAll,
        List.foldl_append]
  exact hfold (QueueRole.all.filter roles.contains) a

theorem rearranged_revokeUser (a : Arbiter) (id : UserId) (roles : QueueSet) :
    a.memory.Rearranged (a.revokeUser id roles).memory := by
  obtain ⟨views, hv⟩ := memory_revokeUser a id roles
  rw [hv]
  exact .cut views

theorem rearranged_closeView (a : Arbiter) (v : MappedView) :
    a.memory.Rearranged (a.closeView v).memory := by
  rw [closeView]
  split
  · exact .cut [v.view]
  · split
    next => exact .cut [v.view]
    next view _ _ => exact .cut [view, v.view]

/-- Bytes are written by operations that are there to write them. -/
theorem Outcome.rearranged (ho : Outcome a op new a') (hop : op.writes = false) :
    a.memory.Rearranged a'.memory := by
  cases ho with
  | departed hu =>
    rw [removeUser_of_user hu]
    exact rearranged_revokeUser a _ .full
  | relieved hu =>
    rw [reset_of_user hu]
    exact rearranged_revokeUser (a.updateUser _ _) _ .exclusive
  | allocated => exact .grown _
  | opened _ _ _ hs =>
    cases hs with
    | present => exact .refl _
    | installed => exact .grown _
  | closed _ _ _ ha =>
    subst ha
    split <;> exact .refl _
  | lent _ hl =>
    obtain ⟨-, -, ⟨b, _, -, -, rfl⟩, -⟩ := hl
    exact .linked b.region
  | viewClosed v => exact rearranged_closeView a v
  | accessed | scheduled => cases hop
  | revokedAll => exact .cut _
  | _ => exact .refl _

/-- What writes bytes leaves the links and the number of regions alone. -/
theorem Outcome.written (ho : Outcome a op new a') (hop : op.writes = true) :
    a'.memory.links = a.memory.links ∧ a'.memory.regions.size = a.memory.regions.size := by
  cases ho with
  | unchanged => exact ⟨rfl, rfl⟩
  | accessed v operation =>
    rw [onView_snd]
    exact ⟨SharedMemory.links_through .., SharedMemory.size_through ..⟩
  | scheduled role operation =>
    refine ⟨?_, size_regions_onBuffer role operation⟩
    rw [onBuffer_snd]
  | lent hmaps => cases op <;> cases hmaps <;> cases hop
  | _ => cases hop

theorem Outcome.region? (ho : Outcome a op new a') {view : ViewId} {region : RegionId}
    (hv : view < a.memory.links.size) (hr : a'.memory.region? view = some region) :
    a.memory.region? view = some region := by
  cases hop : op.writes with
  | false => exact (ho.rearranged hop).region? hv hr
  | true => rwa [SharedMemory.region?, (ho.written hop).1] at hr

/-- No region is ever given up. -/
theorem Outcome.size_regions (ho : Outcome a op new a') :
    a.memory.regions.size ≤ a'.memory.regions.size := by
  cases hop : op.writes with
  | false => exact (ho.rearranged hop).size_regions
  | true => exact Nat.le_of_eq (ho.written hop).2.symm

/-- A view that is lent reaches the bytes of its queue's buffer, for writing only if the buffer lets
it. -/
theorem Lends.reaches {user : UserId} {offset length : Nat} {readOnly : Bool} {room : RecordRoom}
    {v : MappedView} (hl : Lends role user offset length readOnly room a v a') :
    ∃ b b', a.queues.get role = some b ∧ a'.queues.get role = some b' ∧ v.queue = role ∧
      b'.region = b.region ∧ a'.memory.region? v.view = some b.region ∧
      (v.writable = true → b.mask.isReadOnly = false) := by
  obtain ⟨-, -, ⟨b, b', hb, hatt, rfl⟩, hv⟩ := hl
  obtain ⟨-, -, -, hw, -, -, rfl⟩ := SharedBuffer.attach_eq_ok hatt
  rw [hv]
  refine ⟨b, _, hb, (QueueTable.get_put ..).trans (if_pos rfl), rfl, rfl, ?_, hw⟩
  exact (SharedMemory.region?_link ..).trans (if_pos rfl)

/-- What becomes of a queue's buffer: it goes, it stays, with its bytes where they are, or there was
none and the queue gets one, on as many new bytes as it says. A queue that is opened gets an empty
ring. -/
inductive Tenure (op : Operation) (role : QueueRole) (a a' : Arbiter) : Prop
  | vacated (hb' : a'.queues.get role = none)
  | kept {b b' : SharedBuffer} (hb : a.queues.get role = some b)
      (hb' : a'.queues.get role = some b') (hr : b'.region = b.region) (hs : b'.size = b.size)
      (hm : b'.mask = b.mask)
  | founded {b' : SharedBuffer} (hl : a.revoked = false) (hb : a.queues.get role = none)
      (hb' : a'.queues.get role = some b') (hr : b'.region = a.memory.regions.size)
      (hf : op.supplies role = false → b'.mask = role.mask ∧
        ∃ h, Ring.Queued (a'.memory.bytes b'.region) h [] ∧ h.slots.toNat = Ring.room b'.size)
      (hs : (a'.memory.bytes b'.region).size = b'.size)

namespace Tenure

theorem of_get (h : a'.queues.get role = a.queues.get role) : Tenure op role a a' := by
  cases hb : a.queues.get role with
  | none => exact .vacated (h.trans hb)
  | some b => exact .kept hb (h.trans hb) rfl rfl rfl

theorem of_put (hb : a.queues.get other = some b) (hq : a'.queues = a.queues.put (some b') other)
    (hr : b'.region = b.region) (hs : b'.size = b.size) (hm : b'.mask = b.mask) :
    Tenure op role a a' := by
  have hget := congrArg (fun t => t.get role) hq
  simp only [QueueTable.get_put] at hget
  split at hget
  next he => exact .kept (he ▸ hb) hget hr hs hm
  next => exact .of_get hget

theorem of_discard (hq : a'.queues = a.queues.put none other) : Tenure op role a a' := by
  have hget := congrArg (fun t => t.get role) hq
  simp only [QueueTable.get_put] at hget
  split at hget
  next => exact .vacated hget
  next => exact .of_get hget

theorem of_remainder {id : UserId} (h : a'.queues.get role = a.remainder id role) :
    Tenure op role a a' := by
  cases hk : a.remainder id role with
  | none => exact .vacated (h.trans hk)
  | some b' =>
    obtain ⟨hmap, -⟩ := Option.filter_eq_some_iff.mp hk
    obtain ⟨b, hb, rfl⟩ := Option.map_eq_some_iff.mp hmap
    rw [SharedBuffer.revokeOwner_eq] at hk
    exact .kept hb (h.trans hk) rfl rfl rfl

theorem of_install {size : Nat} {mask : AccessMask} {bytes : Memory} (hl : a.revoked = false)
    (hb : a.queues.get other = none) (hq : a'.queues = (a.install other size mask bytes).queues)
    (hm : a'.memory = (a.install other size mask bytes).memory)
    (hf : op.supplies other = false → mask = other.mask ∧
      ∃ h, Ring.Queued bytes h [] ∧ h.slots.toNat = Ring.room size)
    (hs : bytes.size = size) : Tenure op role a a' := by
  have hget := congrArg (fun t => t.get role) hq
  simp only [install, putBuffer, QueueTable.get_put] at hget
  split at hget
  next he =>
    subst he
    have hbytes : a'.memory.bytes a.memory.regions.size = bytes := by
      rw [hm]
      exact a.memory.bytes_addRegion bytes
    exact .founded hl hb hget rfl (hbytes.symm ▸ hf) (hbytes.symm ▸ hs)
  next => exact .of_get hget

end Tenure

theorem tenure_closeView (a : Arbiter) (v : MappedView) : Tenure op role a (a.closeView v) := by
  rw [closeView]
  split
  · exact .of_get rfl
  · split
    next => exact .of_get rfl
    next hd =>
      obtain ⟨b, hb, hd⟩ := Option.bind_eq_some_iff.mp hd
      rw [SharedBuffer.detach] at hd
      split at hd
      · cases hd
      · cases hd
        exact .of_put hb rfl rfl rfl rfl

theorem Outcome.tenure (ho : Outcome a op new a') (role : QueueRole) : Tenure op role a a' := by
  cases ho with
  | departed hu => exact .of_remainder (get_removeUser hu role)
  | relieved hu =>
    have hget := get_reset hu role
    split at hget
    · exact .of_remainder hget
    · exact .of_get hget
  | @allocated _ other _ _ _ hl hb hm =>
    refine .of_install hl hb rfl rfl (fun hs => ?_) (SharedBuffer.allocate_eq_ok_iff.mp hm).2.2.2
    rw [Operation.supplies, beq_self_eq_true] at hs
    cases hs
  | freed => exact .of_discard rfl
  | opened hl _ _ hs =>
    cases hs with
    | present => exact .of_get rfl
    | installed hb hm hf =>
      obtain ⟨-, -, -, hsize⟩ := SharedBuffer.allocate_eq_ok_iff.mp hm
      obtain ⟨-, -, hformatted⟩ := Ring.format_eq_ok hf
      exact .of_install hl hb rfl rfl (fun _ => ⟨rfl, hsize ▸ Ring.queued_of_format hf⟩)
        (hformatted ▸ (Ring.size_formatted _).trans hsize)
  | closed _ _ _ ha =>
    subst ha
    split
    · exact .of_get rfl
    · exact .of_discard rfl
  | lent _ hl =>
    obtain ⟨-, -, ⟨b, b', hb, hatt, rfl⟩, -⟩ := hl
    obtain ⟨-, -, -, -, -, -, rfl⟩ := SharedBuffer.attach_eq_ok hatt
    exact .of_put hb rfl rfl rfl rfl
  | viewClosed v => exact tenure_closeView a v
  | accessed v operation =>
    rw [onView_snd]
    exact .of_get rfl
  | scheduled other operation => exact .of_get (by rw [queues_onBuffer])
  | revokedAll | destroyed => exact .vacated (by cases role <;> rfl)
  | _ => exact .of_get rfl

def Anchored (a : Arbiter) (grants : List Grant) : Prop :=
  ∀ g ∈ grants, ∀ region, a.memory.region? g.view.view = some region →
    ∃ b, a.queues.get g.view.queue = some b ∧ b.region = region

variable {grants : List Grant}

/-- A buffer that a valid view is on was there before, and so were its bytes. -/
theorem Anchored.perform (h : a.Anchored grants) (hb : a.Balanced grants)
    (hv : ∀ v, op.view? = some v → ∃ g ∈ grants, g.view = v) :
    (op.perform a).2.Anchored (grants ++ (op.perform a).1.toList) := by
  have ho := op.outcome a
  have hafter := (hb.perform op hv).balanced
  intro g hg region hr
  rcases List.mem_append.mp hg with hold | hnew
  · obtain ⟨b, hget, hregion⟩ := h g hold region (ho.region? (hb.known g hold) hr)
    have hrecord := hafter.record_of_grant hg (SharedMemory.isLive_of_region? hr)
    obtain ⟨b', hget'⟩ := Option.isSome_iff_exists.mp (isSome_of_record hrecord)
    refine ⟨b', hget', ?_⟩
    cases ho.tenure g.view.queue with
    | vacated hnone => cases hnone.symm.trans hget'
    | kept hbefore hbehind hsame =>
      cases hget.symm.trans hbefore
      cases hget'.symm.trans hbehind
      exact hsame.trans hregion
    | founded _ hnone => cases hnone.symm.trans hget
  · generalize (op.perform a).1 = new, (op.perform a).2 = a' at ho hnew hr ⊢
    cases ho with
    | lent _ hl =>
      cases List.mem_singleton.mp hnew
      obtain ⟨b, b', -, hget, hqueue, hsame, hreach, -⟩ := hl.reaches
      rw [hqueue]
      exact ⟨b', hget, hsame.trans (Option.some.inj (hreach.symm.trans hr))⟩
    | _ => cases hnew

end Arbiter

end AcceleratorScheduler
