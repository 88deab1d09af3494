import AcceleratorScheduler.Proofs.Arbiter.Custody
import AcceleratorScheduler.Proofs.Ring.Format

/-! The use of an exclusive queue and its buffer. As long as buffers come and go with the opening
and closing of queues, there is a buffer exactly while the holder uses the queue
(`Tended.present_iff`), and a holder that opens it first finds an empty ring on new bytes
(`Tended.renewed`). -/
namespace AcceleratorScheduler

def Allocator.Zeroing (allocator : Allocator) : Prop :=
  ∀ size bytes, allocator size = .ok bytes → ∀ i, bytes.get i = 0

theorem Allocator.zeroing_bounded (bound : Nat) : (bounded bound).Zeroing := by
  intro size bytes h
  rw [bounded] at h
  split at h
  · cases h
    exact Memory.get_zeroed size
  · cases h

namespace Arbiter

variable {a a' : Arbiter} {grants : List Grant} {role : QueueRole} {id : UserId}

theorem uses_of_usesBeside (h : a.usesBeside id role = true) : a.uses role = true := by
  obtain ⟨u, hu, hq⟩ := List.any_eq_true.mp h
  exact List.any_eq_true.mpr ⟨u, hu, (Bool.and_eq_true_iff.mp hq).2⟩

def Supplied (a : Arbiter) (role : QueueRole) : Prop :=
  a.uses role = true → (a.queues.get role).isSome = true

theorem Turnover.keeps_supplied {op : Operation} (ht : Turnover op role a a') (h : a.Supplied role)
    (hop : op.withdraws role = false) : a'.Supplied role := by
  cases ht with
  | same hs =>
    rw [Supplied, hs.uses, hs.present]
    exact h
  | started _ hp => exact fun _ => hp
  | ended hu =>
    rw [Supplied, hu]
    exact nofun
  | quit id hu hp =>
    rw [Supplied, hu, hp]
    intro hbeside
    rw [isSome_remainder hbeside]
    exact h (uses_of_usesBeside hbeside)
  | supplied _ hp => exact fun _ => hp
  | withdrawn hw =>
    rw [hop] at hw
    cases hw

theorem Supplied.perform (h : a.Supplied role) (hx : role.isExclusive = true) {op : Operation}
    (hop : op.withdraws role = false) : (op.perform a).2.Supplied role :=
  ((op.outcome a).turnover hx).keeps_supplied h hop

def Unused (a : Arbiter) (id : UserId) (role : QueueRole) : Prop :=
  ∀ u ∈ a.users, u.id = id → u.queues.contains role = false

def Operation.opens : Operation → UserId → QueueRole → Bool
  | openQueue _ user other _, id, role => user == id && other == role
  | _, _, _ => false

theorem Unused.map (h : a.Unused id role) {f : User → User} (hu : a'.users = a.users.map f)
    (hf : ∀ u, (f u).id = u.id ∧ (u.id = id → (f u).queues.contains role = true →
      u.queues.contains role = true)) : a'.Unused id role := by
  intro u hm he
  rw [hu] at hm
  obtain ⟨v, hv, rfl⟩ := List.mem_map.mp hm
  rw [(hf v).1] at he
  have hno := h v hv he
  refine Bool.eq_false_iff.mpr fun hq => ?_
  rw [(hf v).2 he hq] at hno
  cases hno

/-- No session comes to use a queue without opening it. -/
theorem Outcome.unused {op : Operation} {new : Option Grant} (ho : Outcome a op new a')
    (h : a.Unused id role) (hop : op.opens id role = false) : a'.Unused id role := by
  by_cases hs : op.sparesUsers = true
  · rw [Unused, (ho.sameUsers hs).users]
    exact h
  cases ho with
  | unchanged => exact h
  | joined =>
    intro u hm he
    rcases List.mem_append.mp hm with hm | hm
    · exact h u hm he
    · cases List.mem_singleton.mp hm
      cases role <;> rfl
  | departed hu =>
    rw [Unused, users_removeUser hu]
    exact fun u hm => h u (List.mem_of_mem_filter hm)
  | reserved =>
    refine h.map rfl fun u => ?_
    split <;> exact ⟨rfl, fun _ hq => hq⟩
  | released =>
    refine h.map rfl fun u => ?_
    split <;> exact ⟨rfl, fun _ hq => hq⟩
  | relieved hu =>
    refine h.map (users_reset hu) fun u => ?_
    split
    · refine ⟨rfl, fun _ hq => ?_⟩
      rw [QueueSet.contains_without, Bool.and_eq_true] at hq
      exact hq.1
    · exact ⟨rfl, fun _ hq => hq⟩
  | @opened _ user other _ _ b _ _ _ ha =>
    refine h.map (by rw [updateUser, ha.sameUsers.users]) fun u => ?_
    split
    next hi =>
      refine ⟨rfl, fun he hq => ?_⟩
      rw [QueueSet.contains_insert, Bool.or_eq_true, decide_eq_true_eq] at hq
      refine hq.resolve_left ?_
      rintro rfl
      simp [Operation.opens, ← hi, he] at hop
    next => exact ⟨rfl, fun _ hq => hq⟩
  | @closed user other _ b _ _ _ ha =>
    have hclosed : b.Unused id role := by
      rw [ha]
      refine h.map rfl fun u => ?_
      split
      · refine ⟨rfl, fun _ hq => ?_⟩
        rw [QueueSet.contains_erase, Bool.and_eq_true] at hq
        exact hq.2
      · exact ⟨rfl, fun _ hq => hq⟩
    rwa [Unused, (sameUsers_discard b other).users]
  | lent hmaps => exact absurd (Operation.sparesUsers_of_maps hmaps) hs
  | revokedAll =>
    refine h.map rfl fun u => ⟨rfl, fun _ hq => ?_⟩
    cases role <;> cases hq
  | destroyed => exact fun _ hm => absurd hm List.not_mem_nil
  | _ => exact absurd rfl hs

theorem Unused.perform (h : a.Unused id role) {op : Operation} (hop : op.opens id role = false) :
    (op.perform a).2.Unused id role :=
  (op.outcome a).unused h hop

/-- What holds of an exclusive queue whose buffer only comes and goes with its use. -/
structure Tended (a : Arbiter) (grants : List Grant) (role : QueueRole) : Prop where
  balanced : a.Balanced grants
  orderly : a.Orderly
  custody : a.Custody role
  supplied : a.Supplied role

/-- The queue had no buffer, and has one on new bytes now: an empty ring and nothing else. -/
structure Renewed (a a' : Arbiter) (role : QueueRole) (size : Nat) : Prop where
  absent : a.queues.get role = none
  fresh : ∃ b, a'.queues.get role = some b ∧ b.region = a.memory.regions.size ∧ b.size = size ∧
    b.mask = role.mask ∧ Ring.Pristine (a'.memory.bytes b.region) size

/-- A queue without a buffer is opened on new bytes, on which there is an empty ring and nothing
else. -/
theorem renewed_of_absent {allocator : Allocator} (hz : allocator.Zeroing) {size : Nat}
    {handle : ExportHandle} (habsent : a.queues.get role = none)
    (ho : openQueue allocator id role size a = .ok handle a') : Renewed a a' role size := by
  obtain ⟨e, he⟩ | ⟨u, k, -, -, -, hk, hopen⟩ := openQueue_cases allocator id role size a
  · rw [he] at ho
    cases ho
  · rcases hk with hb | @⟨blank, bytes, n, -, hblank, hf⟩
    · rw [habsent] at hb
      cases hb
    · obtain ⟨-, -, hblank, hsize⟩ := SharedBuffer.allocate_eq_ok_iff.mp hblank
      cases hopen.symm.trans ho
      have hp := Ring.pristine_of_format (hz size blank hblank) hf
      rw [hsize] at hp
      refine ⟨habsent, _, (QueueTable.get_put _ _ role role).trans (if_pos rfl), rfl, rfl, rfl, ?_⟩
      change Ring.Pristine ((a.memory.addRegion bytes).2.bytes a.memory.regions.size) size
      rwa [SharedMemory.bytes_addRegion]

namespace Tended

variable (h : a.Tended grants role) (hx : role.isExclusive = true)

include h hx

/-- There is a buffer exactly while the holder uses the queue. -/
theorem present_iff : (a.queues.get role).isSome = true ↔
    ∃ u ∈ a.users, a.holder? = some u.id ∧ u.queues.contains role = true := by
  constructor
  · intro hs
    obtain ⟨u, hu, hq, hheld⟩ := h.orderly.heldBy_of_uses hx (h.custody.covered hs)
    exact ⟨u, hu, h.orderly.holder?_eq_some_iff.mpr hheld, hq⟩
  · rintro ⟨u, hu, -, hq⟩
    exact h.supplied (List.any_eq_true.mpr ⟨u, hu, hq⟩)

/-- A holder that has not opened the queue finds no buffer there. -/
theorem absent_of_unused (hid : a.HeldBy id) (hun : a.Unused id role) :
    a.queues.get role = none := by
  cases hb : a.queues.get role with
  | none => rfl
  | some b =>
    obtain ⟨u, hu, hholder, hq⟩ := (h.present_iff hx).mp (by rw [hb]; rfl)
    have heq := h.orderly.heldBy_unique hid (h.orderly.holder?_eq_some_iff.mp hholder)
    rw [hun u hu heq.symm] at hq
    cases hq

omit hx in
theorem holder_of_live {g : Grant} (hg : g ∈ grants) (hq : g.view.queue = role)
    (hl : a.memory.isLive g.view.view = true) : a.holder? = some g.owner := by
  subst hq
  exact h.orderly.holder?_eq_some_iff.mpr
    (h.custody.owned g.record (h.balanced.record_of_grant hg hl))

/-- The first to open the queue gets new bytes, on which there is an empty ring and nothing else. -/
theorem renewed {allocator : Allocator} (hz : allocator.Zeroing) {size : Nat}
    {handle : ExportHandle} (hun : a.Unused id role)
    (ho : openQueue allocator id role size a = .ok handle a') : Renewed a a' role size := by
  refine renewed_of_absent hz ?_ ho
  obtain ⟨e, he⟩ | ⟨u, -, -, hu, hux, -⟩ := openQueue_cases allocator id role size a
  · rw [he] at ho
    cases ho
  · obtain ⟨hm, hid⟩ := mem_of_user? hu
    exact h.absent_of_unused hx ⟨u, hm, hid, hux hx⟩ hun

/-- The holder is not refused, if the bytes are there and no more than a ring can count. Nothing
maps the buffer yet. -/
theorem open_granted {allocator : Allocator} {size : Nat} {blank : Memory} (hid : a.HeldBy id)
    (hun : a.Unused id role) (ha : allocator size = .ok blank) (hs : blank.size = size)
    (hroom : 2 ≤ Ring.room size) (hword : Ring.room size < UInt32.size) :
    ∃ a' b, openQueue allocator id role size a = .ok ⟨role, id, role.mask.isReadOnly⟩ a' ∧
      a'.queues.get role = some b ∧ b.mappings = [] := by
  have habsent := h.absent_of_unused hx hid hun
  have hlive := h.orderly.live_of_heldBy hid
  obtain ⟨u, hm, rfl, hux⟩ := hid
  have hpos : size ≠ 0 := by
    rintro rfl
    exact absurd hroom (by decide)
  have hblank := SharedBuffer.allocate_delivered role hpos ha hs
  subst hs
  exact ⟨_, _, openQueue_first hlive (h.orderly.user?_of_mem hm) (fun _ => hux) habsent hblank
    (answer_of_ok (Ring.format_granted hroom hword)),
    (QueueTable.get_put _ _ role role).trans (if_pos rfl), rfl⟩

omit hx in
/-- The holder can map the whole of a buffer that is there, if there is room for the record. -/
theorem map_granted {b : SharedBuffer} (hid : a.HeldBy id) (hb : a.queues.get role = some b)
    (hm : b.mask = role.mask) (hs : b.size ≠ 0) {room : RecordRoom}
    (hroom : room b.mappings.length = true) :
    ∃ v a', mapHandle ⟨role, id, role.mask.isReadOnly⟩ 0 b.size room a = .ok v a' := by
  have hlive := h.orderly.live_of_heldBy hid
  obtain ⟨u, hmem, rfl, hux⟩ := hid
  have hmask : (!role.mask.isReadOnly) = true → b.mask.isReadOnly = false := fun hw => by
    rw [hm]
    simpa using hw
  have hatt := SharedBuffer.attach_granted hs (Nat.le_refl _) hmask hroom u.id a.memory.links.size
  rw [mapHandle_present h.balanced.present]
  exact ⟨_, _, mapRange_granted hlive (h.orderly.user?_of_mem hmem) (fun _ => hux) hb hatt⟩

theorem perform {op : Operation} (hs : op.supplies role = false) (hw : op.withdraws role = false)
    (hv : op.view? = none) :
    (op.perform a).2.Tended (grants ++ (op.perform a).1.toList) role where
  balanced := (h.balanced.perform op fun v he => by rw [hv] at he; cases he).balanced
  orderly := (h.orderly.perform op).orderly
  custody := h.custody.perform h.balanced h.orderly hx hs fun v he => by rw [hv] at he; cases he
  supplied := h.supplied.perform hx hw

end Tended

/-- A mapping of the new buffer reaches the new bytes and leaves them as they are. -/
theorem Renewed.lend {a'' : Arbiter} {size length : Nat} {readOnly : Bool} {room : RecordRoom}
    {v : MappedView} (h : Renewed a a' role size)
    (hl : Lends role id 0 length readOnly room a' v a'') :
    Renewed a a'' role size ∧ a''.memory.region? v.view = some a.memory.regions.size := by
  obtain ⟨habsent, b, hb, hr, hs, hm, hp⟩ := h
  obtain ⟨-, -, ⟨k, b', hk, hatt, rfl⟩, hv⟩ := hl
  cases hb.symm.trans hk
  obtain ⟨-, -, -, -, -, -, rfl⟩ := SharedBuffer.attach_eq_ok hatt
  refine ⟨⟨habsent, _, (QueueTable.get_put _ _ role role).trans (if_pos rfl), hr, hs, hm, hp⟩,
    ?_⟩
  rw [hv, ← hr]
  simp [SharedMemory.region?, SharedMemory.link]

namespace Ledger

theorem supplied_run (hx : role.isExclusive = true) {ops : List Operation}
    (hops : ∀ op ∈ ops, op.withdraws role = false) : (run {} ops).arbiter.Supplied role :=
  keeps_run (l := ⟨{}, []⟩) (P := fun a => a.Supplied role) balanced_empty orderly_empty nofun
    fun op hm _ _ _ _ h _ => h.perform hx (hops op hm)

theorem unused_run {l : Ledger} (hb : l.arbiter.Balanced l.grants) (ho : l.arbiter.Orderly)
    (h : l.arbiter.Unused id role) {ops : List Operation}
    (hops : ∀ op ∈ ops, op.opens id role = false) : (l.run ops).arbiter.Unused id role :=
  keeps_run (P := fun a => a.Unused id role) hb ho h fun op hm _ _ _ _ h _ => h.perform (hops op hm)

end Ledger

end Arbiter

end AcceleratorScheduler
