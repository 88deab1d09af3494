import AcceleratorScheduler.Arbiter.Queues
import AcceleratorScheduler.Proofs.Answers

/-! Requests to the arbiter, each with what it leaves. A request that is refused leaves the arbiter
as it was. -/
namespace AcceleratorScheduler

/-- Memory that gives out before a buffer has as many records as its count can tell apart. A record
takes 24 bytes, so 2^32 of them would take 96 GiB; the count relies on that. -/
structure FiniteRoom where
  grants : RecordRoom
  ends : ∀ records, UInt32.size ≤ records + 1 → grants records = false

def FiniteRoom.widest : FiniteRoom where
  grants records := decide (records + 1 < UInt32.size)
  ends _ h := decide_eq_false (Nat.not_lt.mpr h)

theorem FiniteRoom.few (room : FiniteRoom) {records : Nat} (h : room.grants records = true) :
    records + 1 < UInt32.size :=
  Nat.not_le.mp fun hmany => Bool.false_ne_true ((room.ends records hmany).symm.trans h)

namespace SharedBuffer

theorem isMapped_eq (b : SharedBuffer) : b.isMapped = (b.refCount != 0) := by
  have hiff : b.count = 0 ↔ b.refCount = 0 := by rw [refCount, ← UInt32.toNat_inj]; rfl
  rw [isMapped, Bool.eq_iff_iff, bne_iff_ne, bne_iff_ne, ne_eq, ne_eq, hiff]

section

variable {b b' : SharedBuffer} {offset length : Nat} {writable : Bool} {owner : UserId}
  {view : ViewId} {room : RecordRoom} {id : MappingId}

/-- The guards of a mapping, and the record that it adds. -/
theorem attach_eq_ok (h : b.attach offset length writable owner view room = .ok (id, b')) :
    offset = 0 ∧ length ≠ 0 ∧ length ≤ b.size ∧ (writable = true → b.mask.isReadOnly = false) ∧
      room b.mappings.length = true ∧ id = b.nextMapping ∧ b' = { b with
        mappings := b.mappings ++ [⟨b.nextMapping, owner, view⟩]
        count := b.count + 1
        nextMapping := b.nextMapping + 1 } := by
  rw [attach] at h
  by_cases hr : offset ≠ 0 ∨ length = 0 ∨ b.size < length
  · rw [if_pos hr] at h
    cases h
  · rw [if_neg hr] at h
    obtain ⟨ho, hl, hs⟩ : offset = 0 ∧ length ≠ 0 ∧ length ≤ b.size := by omega
    cases hw : writable && b.mask.isReadOnly with
    | true => simp [hw, bind, Except.bind, throw, throwThe, MonadExceptOf.throw] at h
    | false =>
      cases hg : room b.mappings.length with
      | false =>
        simp [hw, hg, bind, Except.bind, throw, throwThe, MonadExceptOf.throw] at h
      | true =>
        rw [hw, hg] at h
        cases h
        refine ⟨ho, hl, hs, fun ht => ?_, rfl, rfl, rfl⟩
        simpa [ht] using hw

theorem attach_granted (hl : length ≠ 0) (hs : length ≤ b.size)
    (hw : writable = true → b.mask.isReadOnly = false) (hg : room b.mappings.length = true)
    (owner : UserId) (view : ViewId) :
    b.attach 0 length writable owner view room = .ok (b.nextMapping, { b with
      mappings := b.mappings ++ [⟨b.nextMapping, owner, view⟩]
      count := b.count + 1
      nextMapping := b.nextMapping + 1 }) := by
  have hr : ¬(0 ≠ 0 ∨ length = 0 ∨ b.size < length) := by omega
  have hm : (writable && b.mask.isReadOnly) = false := by
    cases writable with
    | false => rfl
    | true => rw [hw rfl]; rfl
  rw [attach, if_neg hr, hm, hg]
  rfl

/-- A mapping needs room for its record. -/
theorem attach_unroomed (hl : length ≠ 0) (hs : length ≤ b.size)
    (hw : writable = true → b.mask.isReadOnly = false) (hg : room b.mappings.length = false)
    (owner : UserId) (view : ViewId) :
    b.attach 0 length writable owner view room = .error .outOfMemory := by
  have hr : ¬(0 ≠ 0 ∨ length = 0 ∨ b.size < length) := by omega
  have hm : (writable && b.mask.isReadOnly) = false := by
    cases writable with
    | false => rfl
    | true => rw [hw rfl]; rfl
  rw [attach, if_neg hr, hm, hg]
  rfl

/-- A mapping has to lie inside the buffer. -/
theorem attach_outside (h : length = 0 ∨ b.size < length) (writable : Bool) (owner : UserId)
    (view : ViewId) (room : RecordRoom) :
    b.attach 0 length writable owner view room = .error .invalidArgument := by
  rw [attach, if_pos (.inr h)]
  rfl

end

end SharedBuffer

/-- A block is only taken if it is as long as was asked for. -/
theorem SharedBuffer.allocate_eq_ok_iff {allocator : Allocator} {size : Nat} {mask : AccessMask}
    {bytes : Memory} : allocate allocator size mask = .ok bytes ↔
      size ≠ 0 ∧ mask.isEmpty = false ∧ allocator size = .ok bytes ∧ bytes.size = size := by
  rw [allocate]
  by_cases hr : size = 0 ∨ mask.isEmpty = true
  · rw [if_pos hr]
    refine ⟨nofun, fun ⟨hs, hm, _⟩ => ?_⟩
    rw [hm] at hr
    exact absurd (hr.resolve_right Bool.false_ne_true) hs
  · rw [if_neg hr]
    obtain ⟨hs, hm⟩ := not_or.mp hr
    rw [Bool.not_eq_true] at hm
    constructor
    · intro h
      obtain ⟨blank, ha, h⟩ := of_bind_eq_ok h
      by_cases hl : blank.size = size
      · cases (if_pos hl).symm.trans h
        exact ⟨hs, hm, ha, hl⟩
      · cases (if_neg hl).symm.trans h
    · rintro ⟨-, -, ha, hl⟩
      change (allocator size >>= _) = _
      rw [ha]
      exact if_pos hl

/-- A queue's buffer gets the block that was delivered for it. -/
theorem SharedBuffer.allocate_delivered {allocator : Allocator} {size : Nat} {block : Memory}
    (role : QueueRole) (hs : size ≠ 0) (h : allocator size = .ok block) (hl : block.size = size) :
    allocate allocator size role.mask = .ok block :=
  allocate_eq_ok_iff.mpr ⟨hs, role.isEmpty_mask, h, hl⟩

namespace Arbiter

variable {a : Arbiter} {role : QueueRole} {user : UserId} {u : User} {b : SharedBuffer}

theorem ensureLive_revoked (h : a.revoked = true) : ensureLive a = .error .deviceGone a := by
  refine (bind_ok (get_apply a)).trans ?_
  rw [h]
  rfl

theorem ensureLive_live (h : a.revoked = false) : ensureLive a = .ok ⟨⟩ a := by
  refine (bind_ok (get_apply a)).trans ?_
  rw [h]
  rfl

theorem requireUser_none (h : a.user? user = none) : requireUser user a = .error .notFound a := by
  refine (bind_ok (get_apply a)).trans ?_
  rw [h]
  rfl

theorem requireUser_some (h : a.user? user = some u) : requireUser user a = .ok u a := by
  refine (bind_ok (get_apply a)).trans ?_
  rw [h]
  rfl

theorem requireBuffer_none (h : a.queues.get role = none) :
    requireBuffer role a = .error .notFound a := by
  refine (bind_ok (get_apply a)).trans ?_
  rw [h]
  rfl

theorem requireBuffer_some (h : a.queues.get role = some b) : requireBuffer role a = .ok b a := by
  refine (bind_ok (get_apply a)).trans ?_
  rw [h]
  rfl

theorem addUser_cases (pid : Nat) (writable : Bool) (a : Arbiter) :
    (∃ e, addUser pid writable a = .error e a) ∨
      (a.revoked = false ∧ (writable = true → a.userExists pid true = false) ∧
        addUser pid writable a = .ok a.nextUser { a with
          users := a.users ++ [{ id := a.nextUser, pid, writable }]
          nextUser := a.nextUser + 1 }) := by
  rcases Bool.eq_false_or_eq_true a.revoked with hl | hl
  · exact .inl ⟨_, bind_error (ensureLive_revoked hl)⟩
  · cases hw : writable && a.userExists pid true with
    | true =>
      refine .inl ⟨.busy, (bind_ok (ensureLive_live hl)).trans ?_⟩
      refine (bind_ok (get_apply a)).trans ?_
      rw [hw]
      rfl
    | false =>
      refine .inr ⟨hl, fun ht => by simpa [ht] using hw, ?_⟩
      refine (bind_ok (ensureLive_live hl)).trans ?_
      refine (bind_ok (get_apply a)).trans ?_
      rw [hw]
      rfl

/-- How a reservation is answered: the arbiter is asked first, then the session, then the holder. -/
theorem reserve_eq (user : UserId) (a : Arbiter) : reserve user a =
    if a.revoked then .error .deviceGone a
    else match a.user? user with
      | none => .error .notFound a
      | some u =>
        if u.writable then
          match a.holder? with
          | none => .ok ⟨⟩ (a.updateUser user fun u => { u with exclusive := true })
          | some holder => if holder = user then .ok ⟨⟩ a else .error .alreadyReserved a
        else .error .permissionDenied a := by
  rcases Bool.eq_false_or_eq_true a.revoked with hl | hl
  · rw [if_pos hl]
    exact bind_error (ensureLive_revoked hl)
  · have hlive := ensureLive_live hl
    rw [hl, if_neg Bool.false_ne_true]
    cases hu : a.user? user with
    | none => exact (bind_ok hlive).trans (bind_error (requireUser_none hu))
    | some u =>
      refine (bind_ok hlive).trans ((bind_ok (requireUser_some hu)).trans ?_)
      simp only
      cases u.writable with
      | false => rfl
      | true =>
        refine (bind_ok (get_apply a)).trans ?_
        cases a.holder? with
        | none => rfl
        | some holder =>
          by_cases hs : holder = user
          · simp only [hs, if_true, ne_eq, not_true_eq_false, if_false]
            rfl
          · simp only [hs, ne_eq, not_false_eq_true, if_true, if_false]
            rfl

theorem reserve_cases (user : UserId) (a : Arbiter) :
    (∃ e, reserve user a = .error e a) ∨
      ∃ u, a.revoked = false ∧ a.user? user = some u ∧ u.writable = true ∧
        ((a.holder? = some user ∧ reserve user a = .ok ⟨⟩ a) ∨
          (a.holder? = none ∧ reserve user a =
            .ok ⟨⟩ (a.updateUser user fun u => { u with exclusive := true }))) := by
  rw [reserve_eq]
  split
  next => exact .inl ⟨_, rfl⟩
  next hl =>
    split
    next => exact .inl ⟨_, rfl⟩
    next u hu =>
      split
      next hw =>
        split
        next hh => exact .inr ⟨u, by simpa using hl, hu, hw, .inr ⟨hh, rfl⟩⟩
        next holder hh =>
          split
          next hs => exact .inr ⟨u, by simpa using hl, hu, hw, .inl ⟨hs ▸ hh, rfl⟩⟩
          next => exact .inl ⟨_, rfl⟩
      next => exact .inl ⟨_, rfl⟩

theorem release_granted (hu : a.user? user = some u) (hx : u.exclusive = true)
    (hq : u.queues.meets .exclusive = false) : release user a =
      .ok ⟨⟩ (a.updateUser user fun u => { u with exclusive := false }) := by
  refine (bind_ok (requireUser_some hu)).trans ?_
  rw [hx, hq]
  rfl

theorem release_cases (user : UserId) (a : Arbiter) :
    (∃ e, release user a = .error e a) ∨
      ∃ u, a.user? user = some u ∧ u.exclusive = true ∧ u.queues.meets .exclusive = false ∧
        release user a = .ok ⟨⟩ (a.updateUser user fun u => { u with exclusive := false }) := by
  cases hu : a.user? user with
  | none => exact .inl ⟨_, bind_error (requireUser_none hu)⟩
  | some u =>
    have huser := requireUser_some hu
    cases he : u.exclusive with
    | false =>
      refine .inl ⟨.invalidArgument, (bind_ok huser).trans ?_⟩
      rw [he]
      rfl
    | true =>
      cases hq : u.queues.meets .exclusive with
      | true =>
        refine .inl ⟨.busy, (bind_ok huser).trans ?_⟩
        rw [he, hq]
        rfl
      | false => exact .inr ⟨u, rfl, he, hq, release_granted hu he hq⟩

theorem allocateBuffer_cases (allocator : Allocator) (role : QueueRole) (size : Nat)
    (mask : AccessMask) (a : Arbiter) :
    (∃ e, allocateBuffer allocator role size mask a = .error e a) ∨
      ∃ bytes, a.revoked = false ∧ a.queues.get role = none ∧
        SharedBuffer.allocate allocator size mask = .ok bytes ∧
        allocateBuffer allocator role size mask a = .ok ⟨⟩ (a.install role size mask bytes) := by
  rcases Bool.eq_false_or_eq_true a.revoked with hl | hl
  · exact .inl ⟨_, bind_error (ensureLive_revoked hl)⟩
  · have hlive := ensureLive_live hl
    cases hb : a.queues.get role with
    | some b =>
      refine .inl ⟨.busy, (bind_ok hlive).trans ((bind_ok (get_apply a)).trans ?_)⟩
      rw [hb]
      rfl
    | none =>
      cases hm : SharedBuffer.allocate allocator size mask with
      | error e =>
        refine .inl ⟨e, (bind_ok hlive).trans ((bind_ok (get_apply a)).trans ?_)⟩
        rw [hb]
        exact bind_error (outcome_of_error hm)
      | ok bytes =>
        refine .inr ⟨bytes, hl, rfl, rfl, ?_⟩
        refine (bind_ok hlive).trans ((bind_ok (get_apply a)).trans ?_)
        rw [hb, Option.isSome_none, if_neg Bool.false_ne_true]
        exact (bind_ok (outcome_of_ok hm)).trans rfl

theorem freeBuffer_cases (role : QueueRole) (a : Arbiter) :
    (∃ e, freeBuffer role a = .error e a) ∨
      ∃ b, a.queues.get role = some b ∧ b.isMapped = false ∧
        freeBuffer role a = .ok ⟨⟩ (a.putBuffer role none) := by
  cases hb : a.queues.get role with
  | none => exact .inl ⟨_, bind_error (requireBuffer_none hb)⟩
  | some b =>
    cases hm : b.isMapped with
    | true =>
      refine .inl ⟨.busy, (bind_ok (requireBuffer_some hb)).trans ?_⟩
      rw [hm]
      rfl
    | false =>
      refine .inr ⟨b, rfl, hm, (bind_ok (requireBuffer_some hb)).trans ?_⟩
      rw [hm]
      rfl

structure Lends (role : QueueRole) (user : UserId) (offset length : Nat) (readOnly : Bool)
    (room : RecordRoom) (a : Arbiter) (v : MappedView) (a' : Arbiter) : Prop where
  live : a.revoked = false
  entitled : ∃ u, a.user? user = some u ∧ (role.isExclusive = true → u.exclusive = true)
  lent : ∃ b b', a.queues.get role = some b ∧
    b.attach offset length (!readOnly) user a.memory.links.size room = .ok (v.mapping, b') ∧
    a' = { a.putBuffer role (some b') with memory := (a.memory.link b.region).2 }
  view_eq : v = ⟨a.memory.links.size, role, v.mapping, length, !readOnly⟩

/-- The guard of an exclusive queue lets its holder pass, and the other queue lets everyone pass. -/
theorem not_barred (hx : role.isExclusive = true → u.exclusive = true) :
    (role.isExclusive && !u.exclusive) = false := by
  cases hr : role.isExclusive with
  | false => rfl
  | true => rw [hx hr]; rfl

section

variable {offset length : Nat} {readOnly : Bool} {room : RecordRoom} {id : MappingId}
  {b' : SharedBuffer} {e : Refusal} (hl : a.revoked = false) (hu : a.user? user = some u)
  (hx : role.isExclusive = true → u.exclusive = true) (hb : a.queues.get role = some b)

include hl hu hx hb

/-- A mapping that nothing stands against. -/
theorem mapRange_granted
    (hm : b.attach offset length (!readOnly) user a.memory.links.size room = .ok (id, b')) :
    mapRange role user offset length readOnly room a =
      .ok ⟨a.memory.links.size, role, id, length, !readOnly⟩
        { a.putBuffer role (some b') with memory := (a.memory.link b.region).2 } := by
  refine (bind_ok (ensureLive_live hl)).trans ((bind_ok (requireUser_some hu)).trans ?_)
  rw [not_barred hx, if_neg Bool.false_ne_true]
  refine (bind_ok (requireBuffer_some hb)).trans ((bind_ok (get_apply a)).trans ?_)
  exact (bind_ok (outcome_of_ok hm)).trans rfl

/-- A mapping that only the buffer stands against. -/
theorem mapRange_refused
    (hm : b.attach offset length (!readOnly) user a.memory.links.size room = .error e) :
    mapRange role user offset length readOnly room a = .error e a := by
  refine (bind_ok (ensureLive_live hl)).trans ((bind_ok (requireUser_some hu)).trans ?_)
  rw [not_barred hx, if_neg Bool.false_ne_true]
  refine (bind_ok (requireBuffer_some hb)).trans ((bind_ok (get_apply a)).trans ?_)
  exact bind_error (outcome_of_error hm)

end

theorem mapRange_cases (role : QueueRole) (user : UserId) (offset length : Nat) (readOnly : Bool)
    (room : RecordRoom) (a : Arbiter) :
    (∃ e, mapRange role user offset length readOnly room a = .error e a) ∨
      ∃ v a', mapRange role user offset length readOnly room a = .ok v a' ∧
        Lends role user offset length readOnly room a v a' := by
  rcases Bool.eq_false_or_eq_true a.revoked with hl | hl
  · exact .inl ⟨_, bind_error (ensureLive_revoked hl)⟩
  · have hlive := ensureLive_live hl
    cases hu : a.user? user with
    | none => exact .inl ⟨_, (bind_ok hlive).trans (bind_error (requireUser_none hu))⟩
    | some u =>
      have huser := requireUser_some hu
      cases he : role.isExclusive && !u.exclusive with
      | true =>
        refine .inl ⟨.permissionDenied, (bind_ok hlive).trans ((bind_ok huser).trans ?_)⟩
        rw [he]
        rfl
      | false =>
        have hx : role.isExclusive = true → u.exclusive = true := fun hx => by
          simpa [hx] using he
        cases hb : a.queues.get role with
        | none =>
          refine .inl ⟨.notFound, (bind_ok hlive).trans ((bind_ok huser).trans ?_)⟩
          rw [he, if_neg Bool.false_ne_true]
          exact bind_error (requireBuffer_none hb)
        | some b =>
          cases hm : b.attach offset length (!readOnly) user a.memory.links.size room with
          | error e => exact .inl ⟨e, mapRange_refused hl hu hx hb hm⟩
          | ok result =>
            obtain ⟨id, b'⟩ := result
            exact .inr ⟨⟨a.memory.links.size, role, id, length, !readOnly⟩, _,
              mapRange_granted hl hu hx hb hm, hl, ⟨u, hu, hx⟩, ⟨b, b', hb, hm, rfl⟩, rfl⟩

theorem mapWhole_cases (role : QueueRole) (user : UserId) (readOnly : Bool) (room : RecordRoom)
    (a : Arbiter) :
    (∃ e, mapWhole role user readOnly room a = .error e a) ∨
      ∃ size v a', mapWhole role user readOnly room a = .ok v a' ∧
        Lends role user 0 size readOnly room a v a' := by
  cases hb : a.queues.get role with
  | none => exact .inl ⟨_, bind_error (bind_error (requireBuffer_none hb))⟩
  | some b =>
    have hsize : bufferSize role a = .ok b.size a := (bind_ok (requireBuffer_some hb)).trans rfl
    rcases mapRange_cases role user 0 b.size readOnly room a with ⟨e, h⟩ | ⟨v, a', h, hv⟩
    · exact .inl ⟨e, (bind_ok hsize).trans h⟩
    · exact .inr ⟨b.size, v, a', (bind_ok hsize).trans h, hv⟩

/-- As long as the arbiter is there, a handle stands for its queue and its session. -/
theorem mapHandle_present (hd : a.dissolved = false) (handle : ExportHandle)
    (offset length : Nat) (room : RecordRoom) : mapHandle handle offset length room a =
      mapRange handle.role handle.user offset length handle.readOnly room a := by
  refine (bind_ok (get_apply a)).trans ?_
  rw [hd]
  rfl

theorem mapHandle_cases (handle : ExportHandle) (offset length : Nat) (room : RecordRoom)
    (a : Arbiter) :
    (∃ e, mapHandle handle offset length room a = .error e a) ∨
      ∃ v a', a.dissolved = false ∧ mapHandle handle offset length room a = .ok v a' ∧
        Lends handle.role handle.user offset length handle.readOnly room a v a' := by
  rcases Bool.eq_false_or_eq_true a.dissolved with hd | hd
  · refine .inl ⟨.deviceGone, (bind_ok (get_apply a)).trans ?_⟩
    rw [hd]
    rfl
  · rw [mapHandle_present hd]
    rcases mapRange_cases handle.role handle.user offset length handle.readOnly room a with
      h | ⟨v, a', h, hv⟩
    · exact .inl h
    · exact .inr ⟨v, a', hd, h, hv⟩

/-- The bytes of a new queue: a block of memory with a ring laid out on it. -/
def supply (allocator : Allocator) (size : Nat) (mask : AccessMask) : Except Refusal Memory := do
  let blank ← SharedBuffer.allocate allocator size mask
  (answer Ring.format blank).1.map fun _ => (answer Ring.format blank).2

section Vacant

variable {allocator : Allocator} {size : Nat} {blank bytes : Memory} {n : UInt32} {e : Refusal}

theorem supply_of_error {mask : AccessMask}
    (hm : SharedBuffer.allocate allocator size mask = .error e) :
    supply allocator size mask = .error e := by
  rw [supply, hm]
  rfl

theorem supply_of_format {mask : AccessMask} {formatted : Except Refusal UInt32}
    (hm : SharedBuffer.allocate allocator size mask = .ok blank)
    (hf : answer Ring.format blank = (formatted, bytes)) :
    supply allocator size mask = formatted.map fun _ => bytes := by
  rw [supply, hm]
  change (answer Ring.format blank).1.map (fun _ => (answer Ring.format blank).2) = _
  rw [hf]

theorem supply_eq_ok {mask : AccessMask} (h : supply allocator size mask = .ok bytes) :
    ∃ blank n, SharedBuffer.allocate allocator size mask = .ok blank ∧
      answer Ring.format blank = (.ok n, bytes) := by
  obtain ⟨blank, hm, hf⟩ := of_bind_eq_ok h
  rcases hformat : answer Ring.format blank with ⟨formatted, left⟩
  rw [hformat] at hf
  cases formatted with
  | error e => cases hf
  | ok n =>
    cases hf
    exact ⟨blank, n, hm, hformat⟩

variable (hl : a.revoked = false) (hu : a.user? user = some u)
  (hx : role.isExclusive = true → u.exclusive = true) (hb : a.queues.get role = none)

include hl hu hx hb

/-- A queue without a buffer is opened just if bytes can be supplied for it. -/
theorem openQueue_vacant : openQueue allocator user role size a =
    match supply allocator size role.mask with
    | .error e => .error e a
    | .ok bytes => .ok ⟨role, user, role.mask.isReadOnly⟩
        ((a.install role size role.mask bytes).updateUser user fun u =>
          { u with queues := u.queues.insert role }) := by
  refine (bind_ok (ensureLive_live hl)).trans ((bind_ok (requireUser_some hu)).trans ?_)
  rw [not_barred hx, if_neg Bool.false_ne_true]
  refine (bind_ok (get_apply a)).trans ?_
  rw [hb, Option.isNone_none, if_pos rfl]
  cases hm : SharedBuffer.allocate allocator size role.mask with
  | error e =>
    rw [supply_of_error hm]
    exact bind_error (outcome_of_error rfl)
  | ok blank =>
    refine (bind_ok (outcome_of_ok rfl)).trans ?_
    rcases hf : answer Ring.format blank with ⟨formatted, bytes⟩
    rw [supply_of_format hm hf]
    cases formatted with
    | error e => exact bind_error (outcome_of_error rfl)
    | ok n => exact (bind_ok (outcome_of_ok rfl)).trans rfl

theorem openQueue_unsupplied (hs : supply allocator size role.mask = .error e) :
    openQueue allocator user role size a = .error e a := by
  rw [openQueue_vacant hl hu hx hb, hs]

/-- The first use of a queue obtains its buffer and lays out the ring. -/
theorem openQueue_first (hm : SharedBuffer.allocate allocator size role.mask = .ok blank)
    (hf : answer Ring.format blank = (.ok n, bytes)) :
    openQueue allocator user role size a = .ok ⟨role, user, role.mask.isReadOnly⟩
      ((a.install role size role.mask bytes).updateUser user fun u =>
        { u with queues := u.queues.insert role }) := by
  rw [openQueue_vacant hl hu hx hb, supply_of_format hm hf]
  rfl

end Vacant

/-- A queue in use: its buffer was there, or it is new and has a formatted ring. -/
inductive Stocked (allocator : Allocator) (role : QueueRole) (size : Nat) (a : Arbiter) :
    Arbiter → Prop
  | present {b : SharedBuffer} (hb : a.queues.get role = some b) : Stocked allocator role size a a
  | installed {blank bytes : Memory} {n : UInt32} (hb : a.queues.get role = none)
      (hm : SharedBuffer.allocate allocator size role.mask = .ok blank)
      (hf : answer Ring.format blank = (.ok n, bytes)) :
      Stocked allocator role size a (a.install role size role.mask bytes)

theorem openQueue_cases (allocator : Allocator) (user : UserId) (role : QueueRole) (size : Nat)
    (a : Arbiter) :
    (∃ e, openQueue allocator user role size a = .error e a) ∨
      ∃ u a', a.revoked = false ∧ a.user? user = some u ∧
        (role.isExclusive = true → u.exclusive = true) ∧ Stocked allocator role size a a' ∧
        openQueue allocator user role size a = .ok ⟨role, user, role.mask.isReadOnly⟩
          (a'.updateUser user fun u => { u with queues := u.queues.insert role }) := by
  rcases Bool.eq_false_or_eq_true a.revoked with hl | hl
  · exact .inl ⟨_, bind_error (ensureLive_revoked hl)⟩
  have hlive := ensureLive_live hl
  cases hu : a.user? user with
  | none => exact .inl ⟨_, (bind_ok hlive).trans (bind_error (requireUser_none hu))⟩
  | some u =>
    have huser := requireUser_some hu
    cases he : role.isExclusive && !u.exclusive with
    | true =>
      refine .inl ⟨.permissionDenied, (bind_ok hlive).trans ((bind_ok huser).trans ?_)⟩
      rw [he]
      rfl
    | false =>
      have hx : role.isExclusive = true → u.exclusive = true := fun hx => by simpa [hx] using he
      cases hb : a.queues.get role with
      | some b =>
        refine .inr ⟨u, a, hl, rfl, hx, .present hb, ?_⟩
        refine (bind_ok hlive).trans ((bind_ok huser).trans ?_)
        rw [he, if_neg Bool.false_ne_true]
        refine (bind_ok (get_apply a)).trans ?_
        rw [hb]
        rfl
      | none =>
        cases hm : SharedBuffer.allocate allocator size role.mask with
        | error e => exact .inl ⟨e, openQueue_unsupplied hl hu hx hb (supply_of_error hm)⟩
        | ok blank =>
          rcases hf : answer Ring.format blank with ⟨formatted, bytes⟩
          cases formatted with
          | error e => exact .inl ⟨e, openQueue_unsupplied hl hu hx hb (supply_of_format hm hf)⟩
          | ok n =>
            exact .inr ⟨u, _, hl, rfl, hx, .installed hb hm hf,
              openQueue_first hl hu hx hb hm hf⟩

theorem closeQueue_cases (user : UserId) (role : QueueRole) (a : Arbiter) :
    (∃ e, closeQueue user role a = .error e a) ∨
      ∃ u a', a.user? user = some u ∧ u.queues.contains role = true ∧
        (a.queues.get role).any SharedBuffer.isMapped = false ∧
        a' = a.updateUser user (fun u => { u with queues := u.queues.erase role }) ∧
        closeQueue user role a =
          .ok ⟨⟩ (if a'.uses role then a' else a'.putBuffer role none) := by
  cases hu : a.user? user with
  | none => exact .inl ⟨_, bind_error (requireUser_none hu)⟩
  | some u =>
    have huser := requireUser_some hu
    cases hq : u.queues.contains role with
    | false =>
      refine .inl ⟨.invalidArgument, (bind_ok huser).trans ?_⟩
      rw [hq]
      rfl
    | true =>
      cases hm : (a.queues.get role).any SharedBuffer.isMapped with
      | true =>
        refine .inl ⟨.busy, (bind_ok huser).trans ?_⟩
        rw [hq]
        refine (bind_ok (get_apply a)).trans ?_
        rw [hm]
        rfl
      | false =>
        refine .inr ⟨u, _, rfl, hq, rfl, rfl, (bind_ok huser).trans ?_⟩
        rw [hq]
        refine (bind_ok (get_apply a)).trans ?_
        rw [hm]
        rfl

theorem destroy_cases (a : Arbiter) :
    (∃ e, destroy a = .error e a) ∨
      (a.isBusy = false ∧
        destroy a = .ok ⟨⟩ { a with users := [], queues := {}, revoked := true }) := by
  cases hb : a.isBusy with
  | true =>
    refine .inl ⟨.busy, (bind_ok (get_apply a)).trans ?_⟩
    rw [hb]
    rfl
  | false =>
    refine .inr ⟨rfl, (bind_ok (get_apply a)).trans ?_⟩
    rw [hb]
    rfl

end Arbiter

end AcceleratorScheduler
