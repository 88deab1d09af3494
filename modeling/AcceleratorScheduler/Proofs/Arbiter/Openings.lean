import AcceleratorScheduler.Proofs.Arbiter.Atomicity
import AcceleratorScheduler.Proofs.Arbiter.Shielding

/-! What a session gets that opens a queue. The first one to open it gets a buffer of the size that
it asks for, with an empty ring on it. Later ones use the same buffer, whatever size they ask for.
The handle maps as much of the buffer as there is, and no more; main statement:
`opened_queue_maps_its_buffer`. -/
namespace AcceleratorScheduler.Arbiter

variable {a a' : Arbiter} {op : Operation} {role : QueueRole} {b : SharedBuffer} {user : UserId}
  {u : User} {handle : ExportHandle}

def KeepsMask (a : Arbiter) (role : QueueRole) : Prop :=
  ∀ b, a.queues.get role = some b → b.mask = role.mask

/-- Whatever buffer the queue has carries an empty ring that fills it. -/
def KeepsRing (a : Arbiter) (role : QueueRole) : Prop :=
  ∀ b, a.queues.get role = some b → ∃ header, Ring.Queued (a.memory.bytes b.region) header [] ∧
    header.slots.toNat = Ring.room b.size

theorem Tenure.keepsMask (ht : Tenure op role a a') (h : a.KeepsMask role)
    (hs : op.supplies role = false) : a'.KeepsMask role := by
  intro b' hb'
  cases ht with
  | vacated hnone => cases hnone.symm.trans hb'
  | kept hb hbehind _ _ hm =>
    cases hbehind.symm.trans hb'
    exact hm.trans (h _ hb)
  | founded _ _ hbehind _ hf =>
    cases hbehind.symm.trans hb'
    exact (hf hs).1

theorem Tenure.keepsRing (ht : Tenure op role a a') (h : a.KeepsRing role)
    (hs : op.supplies role = false)
    (hbytes : ∀ b b', a.queues.get role = some b → a'.queues.get role = some b' →
      b'.region = b.region → a'.memory.bytes b'.region = a.memory.bytes b.region) :
    a'.KeepsRing role := by
  intro b' hb'
  cases ht with
  | vacated hnone => cases hnone.symm.trans hb'
  | kept hb hbehind hr hsize =>
    cases hbehind.symm.trans hb'
    rw [hbytes _ _ hb hbehind hr, hsize]
    exact h _ hb
  | founded _ _ hbehind _ hf =>
    cases hbehind.symm.trans hb'
    exact (hf hs).2

namespace Ledger

variable {l : Ledger}

/-- Nothing that writes, on a view or from the scheduler's side, changes the queue's bytes. -/
def Untouched (role : QueueRole) : Ledger → List Operation → Prop
  | _, [] => True
  | l, op :: ops =>
    (op.writes = true → (l.perform op).arbiter.contents role = l.arbiter.contents role) ∧
      Untouched role (l.perform op) ops

theorem Untouched.granted {ops : List Operation} (h : l.Untouched role ops) :
    l.Untouched role (l.granted ops) := by
  induction ops generalizing l with
  | nil => exact h
  | cons op ops ih =>
    rw [Ledger.granted]
    cases hop : op.refusal? l.arbiter with
    | some refused =>
      have hrest := h.2
      rw [perform_of_refusal? hop] at hrest
      exact ih hrest
    | none => exact ⟨h.1, ih h.2⟩

/-- Where nothing writes to a buffer that stays, its bytes stay. -/
theorem bytes_of_untouched (hb : l.arbiter.Balanced l.grants)
    (hu : op.writes = true → (l.perform op).arbiter.contents role = l.arbiter.contents role)
    {b' : SharedBuffer} (hget : l.arbiter.queues.get role = some b)
    (hget' : (l.perform op).arbiter.queues.get role = some b') (hr : b'.region = b.region) :
    (l.perform op).arbiter.memory.bytes b'.region = l.arbiter.memory.bytes b.region := by
  cases hop : op.writes with
  | true =>
    have hsame := hu hop
    rw [contents, hget', contents, hget] at hsame
    exact Option.some.inj hsame
  | false =>
    rw [hr, perform]
    split
    · exact ((op.outcome l.arbiter).rearranged hop).bytes (hb.apart.inside hget)
    · rfl

theorem keepsMask_run (h : l.arbiter.KeepsMask role) {ops : List Operation}
    (hops : ∀ op ∈ ops, op.supplies role = false) : (l.run ops).arbiter.KeepsMask role := by
  induction ops generalizing l with
  | nil => exact h
  | cons op ops ih =>
    rw [List.forall_mem_cons] at hops
    exact ih ((l.tenure_perform op role).keepsMask h hops.1) hops.2

theorem keepsRing_perform (hb : l.arbiter.Balanced l.grants) (h : l.arbiter.KeepsRing role)
    (hs : op.supplies role = false)
    (hu : op.writes = true → (l.perform op).arbiter.contents role = l.arbiter.contents role) :
    (l.perform op).arbiter.KeepsRing role := by
  apply (l.tenure_perform op role).keepsRing h hs
  intro b b' hget hget' hr
  exact bytes_of_untouched hb hu hget hget' hr

theorem keepsRing_run (hb : l.arbiter.Balanced l.grants) (h : l.arbiter.KeepsRing role)
    {ops : List Operation} (hops : ∀ op ∈ ops, op.supplies role = false)
    (hu : l.Untouched role ops) : (l.run ops).arbiter.KeepsRing role := by
  induction ops generalizing l with
  | nil => exact h
  | cons op ops ih =>
    rw [List.forall_mem_cons] at hops
    exact ih (carries_perform hb op).1.balanced (keepsRing_perform hb h hops.1 hu.1) hops.2 hu.2

end Ledger

section Mapping

variable (hd : a.dissolved = false) (hl : a.revoked = false) (hu : a.user? handle.user = some u)
  (hx : handle.role.isExclusive = true → u.exclusive = true)
  (hb : a.queues.get handle.role = some b)

include hd hl hu hx hb

/-- A handle of an entitled session maps any part of the buffer from its start. -/
theorem mapHandle_inside (hw : handle.readOnly = false → b.mask.isReadOnly = false) {length : Nat}
    (hpos : 0 < length) (hle : length ≤ b.size) {room : RecordRoom}
    (hroom : room b.mappings.length = true) :
    ∃ v a', mapHandle handle 0 length room a = .ok v a' ∧ v.queue = handle.role ∧
      v.length = length ∧ v.writable = !handle.readOnly := by
  have hmask : (!handle.readOnly) = true → b.mask.isReadOnly = false := by
    intro hwrite
    exact hw ((Bool.not_eq_true' _).mp hwrite)
  have hatt := SharedBuffer.attach_granted (Nat.ne_of_gt hpos) hle hmask hroom handle.user
    a.memory.links.size
  exact ⟨_, _, (mapHandle_present hd handle 0 length room).trans
    (mapRange_granted hl hu hx hb hatt), rfl, rfl, rfl⟩

theorem mapHandle_outside {length : Nat} (h : length = 0 ∨ b.size < length) (room : RecordRoom) :
    mapHandle handle 0 length room a = .error .invalidArgument a := by
  have hatt := SharedBuffer.attach_outside h (!handle.readOnly) handle.user
    a.memory.links.size room
  exact (mapHandle_present hd handle 0 length room).trans (mapRange_refused hl hu hx hb hatt)

end Mapping

/-- What a session leaves that is the first to open a queue, whose ring gets these bytes, and maps
the whole of it. -/
def lentWhole (a : Arbiter) (user : UserId) (role : QueueRole) (size : Nat) (bytes : Memory) :
    Arbiter :=
  { a.updateUser user fun u => { u with queues := u.queues.insert role } with
    queues := a.queues.put (some
      { size, mask := role.mask, region := a.memory.regions.size
        mappings := [⟨1, user, a.memory.links.size⟩], count := 1, nextMapping := 2 }) role
    memory :=
      { regions := a.memory.regions.push bytes
        links := a.memory.links.push (some a.memory.regions.size) } }

/-- Nothing but the room for a record stands against mapping all of a queue that was opened
first. -/
theorem mapHandle_first {allocator : Allocator} {size : Nat} {bytes : Memory}
    (hl : a.revoked = false) (hd : a.dissolved = false) (hu : a.user? user = some u)
    (hx : role.isExclusive = true → u.exclusive = true) (hb : a.queues.get role = none)
    (hs : supply allocator size role.mask = .ok bytes) (room : RecordRoom) :
    ∃ a', openQueue allocator user role size a = .ok ⟨role, user, role.mask.isReadOnly⟩ a' ∧
      mapHandle ⟨role, user, role.mask.isReadOnly⟩ 0 size room a' =
        if room 0 then .ok ⟨a.memory.links.size, role, 1, size, !role.mask.isReadOnly⟩
          (a.lentWhole user role size bytes)
        else .error .outOfMemory a' := by
  obtain ⟨blank, n, hm, hf⟩ := supply_eq_ok hs
  refine ⟨_, openQueue_first hl hu hx hb hm hf, ?_⟩
  let a' := (a.install role size role.mask bytes).updateUser user fun u =>
    { u with queues := u.queues.insert role }
  let b : SharedBuffer := { size, mask := role.mask, region := a.memory.regions.size }
  have hopener : a'.user? user = some { u with queues := u.queues.insert role } :=
    user?_updateUser (a := a.install role size role.mask bytes) hu fun _ => rfl
  have hbuffer : a'.queues.get role = some b := (QueueTable.get_put ..).trans (if_pos rfl)
  have hpos : size ≠ 0 := (SharedBuffer.allocate_eq_ok_iff.mp hm).1
  have hmask : (!role.mask.isReadOnly) = true → b.mask.isReadOnly = false :=
    (Bool.not_eq_true' _).mp
  refine (mapHandle_present (a := a') hd _ 0 size room).trans ?_
  cases hroom : room 0 with
  | true =>
    have hattach := SharedBuffer.attach_granted (b := b) hpos (Nat.le_refl size) hmask hroom user
      a'.memory.links.size
    rw [mapRange_granted (a := a') hl hopener hx hbuffer hattach]
    refine congrArg (EStateM.Result.ok _) ?_
    cases role <;> rfl
  | false =>
    have hattach := SharedBuffer.attach_unroomed (b := b) hpos (Nat.le_refl size) hmask hroom user
      a'.memory.links.size
    exact mapRange_refused (a := a') hl hopener hx hbuffer hattach

/-- A session that has opened a queue may use it, and the queue has a buffer: the one that it had
before, just as it was, or a new one of the size that was asked for. -/
theorem openQueue_leaves {allocator : Allocator} {size : Nat}
    (h : openQueue allocator user role size a = .ok handle a') :
    handle = ⟨role, user, role.mask.isReadOnly⟩ ∧ a'.revoked = false ∧
      (∃ u, a'.user? user = some u ∧ (role.isExclusive = true → u.exclusive = true)) ∧
      ∃ b, a'.queues.get role = some b ∧
        (∀ k, a.queues.get role = some k → b = k ∧ a'.memory = a.memory) ∧
        (a.queues.get role = none → b.size = size) := by
  obtain ⟨e, he⟩ | ⟨u, m, hl, hu, hx, hs, ho⟩ := openQueue_cases allocator user role size a
  · cases he.symm.trans h
  · cases ho.symm.trans h
    have hsame := hs.sameUsers
    have hum : m.user? user = some u := by rw [user?, hsame.users, ← user?, hu]
    refine ⟨rfl, hsame.revoked.trans hl, ⟨_, user?_updateUser hum (f := fun u =>
      { u with queues := u.queues.insert role }) fun _ => rfl, hx⟩, ?_⟩
    cases hs with
    | @present b hb =>
      refine ⟨b, hb, fun k hk => ⟨Option.some.inj (hb.symm.trans hk), rfl⟩, fun hnone => ?_⟩
      cases hnone.symm.trans hb
    | installed hb =>
      refine ⟨_, (QueueTable.get_put _ _ role role).trans (if_pos rfl), fun k hk => ?_, fun _ => rfl⟩
      cases hb.symm.trans hk

namespace Ledger

variable {l : Ledger} {allocator : Allocator} {size : Nat}

theorem perform_openQueue (h : openQueue allocator user role size l.arbiter = .ok handle a') :
    l.perform (.openQueue allocator user role size) = { l with arbiter := a' } := by
  rw [perform_of_quiet (.openQueue allocator user role size) rfl rfl, Operation.perform,
    answer_of_ok h]

/-- A queue that had no buffer, and was given none except by being opened, keeps its own mask. -/
theorem keepsMask_of_openQueue (hnone : l.arbiter.queues.get role = none) {ops : List Operation}
    (hops : ∀ op ∈ ops, op.supplies role = false)
    (h : openQueue allocator user role size (l.run ops).arbiter = .ok handle a') :
    a'.KeepsMask role := by
  have hstart : l.arbiter.KeepsMask role := by
    intro b hb
    cases hnone.symm.trans hb
  have hopened := ((l.run ops).tenure_perform (.openQueue allocator user role size) role).keepsMask
    (keepsMask_run hstart hops) rfl
  rw [perform_openQueue h] at hopened
  exact hopened

theorem keepsRing_of_openQueue (hb : l.arbiter.Balanced l.grants)
    (hnone : l.arbiter.queues.get role = none) {ops : List Operation}
    (hops : ∀ op ∈ ops, op.supplies role = false) (hu : l.Untouched role ops)
    (h : openQueue allocator user role size (l.run ops).arbiter = .ok handle a') :
    a'.KeepsRing role := by
  have hstart : l.arbiter.KeepsRing role := by
    intro b hb
    cases hnone.symm.trans hb
  have hopened : ((l.run ops).perform (.openQueue allocator user role size)).arbiter.KeepsRing
      role := by
    apply keepsRing_perform (carries_run hb ops).1.balanced (keepsRing_run hb hstart hops hu) rfl
    exact nofun
  rw [perform_openQueue h] at hopened
  exact hopened

/-- A session that has opened a queue finds the buffer there that the queue had before, of whatever
size and mask and with whatever bytes, or else a new one of the size that it asks for. Its handle
maps any part of that buffer from the start, as long as memory takes the record, unless it is for
writing and the buffer for reading only, and nothing beyond the buffer's end. As long as the queue
is granted its buffers by being opened only, a buffer has the queue's own mask, so the handle is
never for writing in vain; and if nothing has written to the buffer, the header on it is that of an
empty ring that fills it. -/
theorem opened_queue_maps_its_buffer (ops : List Operation) (hl : l = run {} ops)
    (h : openQueue allocator user role size l.arbiter = .ok handle a') :
    handle = ⟨role, user, role.mask.isReadOnly⟩ ∧
    ∃ b, a'.queues.get role = some b ∧
      (∀ k, l.arbiter.queues.get role = some k → b = k ∧ a'.memory = l.arbiter.memory) ∧
      (l.arbiter.queues.get role = none → b.size = size) ∧
      ((handle.readOnly = false → b.mask.isReadOnly = false) → ∀ length room,
        0 < length → length ≤ b.size → room b.mappings.length = true →
        ∃ v a'', mapHandle handle 0 length room a' = .ok v a'' ∧
          v.queue = role ∧ v.length = length ∧ v.writable = !handle.readOnly) ∧
      (∀ length room, length = 0 ∨ b.size < length →
        mapHandle handle 0 length room a' = .error .invalidArgument a') ∧
      ∀ before after, ops = before ++ after → (run {} before).arbiter.queues.get role = none →
        (∀ op ∈ (run {} before).granted after, op.supplies role = false) →
        b.mask = role.mask ∧
          ((run {} before).Untouched role after → ∃ header,
            Ring.header (a'.memory.bytes b.region) = .ok header ∧ header.isEmpty = true ∧
              header.slots.toNat = Ring.room b.size) := by
  have hb : l.arbiter.Balanced l.grants := hl ▸ balanced_run ops
  obtain ⟨rfl, hlive, ⟨u, hu, hx⟩, b, hget, hold, hnew⟩ := openQueue_leaves h
  have hd : a'.dissolved = false := by
    have hafter := (carries_perform hb (.openQueue allocator user role size)).1.balanced
    rw [perform_openQueue h] at hafter
    exact hafter.present
  refine ⟨rfl, b, hget, hold, hnew, fun hw length room hpos hle hroom => ?_,
    fun length room hlength => ?_, fun before after hsplit hnone hops => ?_⟩
  · exact mapHandle_inside hd hlive hu hx hget hw hpos hle hroom
  · exact mapHandle_outside hd hlive hu hx hget hlength room
  · -- what was refused left no trace, so the granted operations alone lead here
    have hrun : l = (run {} before).run ((run {} before).granted after) := by
      rw [hl, hsplit, run_granted]
      exact List.foldl_append
    rw [hrun] at h
    refine ⟨keepsMask_of_openQueue hnone hops h b hget, fun hu => ?_⟩
    obtain ⟨header, hq, hslots⟩ :=
      keepsRing_of_openQueue (balanced_run before) hnone hops hu.granted h b hget
    refine ⟨header, hq.header_eq, ?_, hslots⟩
    rw [Ring.Header.isEmpty_iff hq.circular, hq.count_eq]
    rfl

/-- A buffer with the mask of the send queue, before the holder opens the queue with that size. -/
private def preallocated : List Operation :=
  [.addUser 1 true, .reserve 1, .allocateBuffer .process .send 4096 QueueRole.send.mask]

/-- Nothing lays out a ring on a buffer that is there already. -/
theorem opened_queue_left_unformatted :
    (∀ op ∈ preallocated, op.writes = false) ∧
      (answer (openQueue .process 1 .send 4096) (run {} preallocated).arbiter).1 =
        .ok ⟨.send, 1, false⟩ ∧
      ((run {} (preallocated ++ [.openQueue .process 1 .send 4096])).arbiter.contents .send).map
        Ring.header = some (.error .invalidArgument) := by
  decide +kernel

/-- A session opens the event queue for as small a ring as there is, before another session does. An
allocation of that queue is refused meanwhile. -/
private def narrow : List Operation :=
  [.addUser 1 false, .addUser 2 false, .openQueue .process 1 .event 112,
    .allocateBuffer .process .event 4096 { exclusiveWrite := true }]

theorem opened_queue_maps_its_buffer_narrow :
    ∃ a', openQueue .process 2 .event 4096 (run {} narrow).arbiter = .ok ⟨.event, 2, true⟩ a' ∧
      (∃ v a'', mapHandle ⟨.event, 2, true⟩ 0 112 .ample a' = .ok v a'' ∧ v.writable = false) ∧
      mapHandle ⟨.event, 2, true⟩ 0 4096 .ample a' = .error .invalidArgument a' ∧
      ∃ b header, a'.queues.get .event = some b ∧
        Ring.header (a'.memory.bytes b.region) = .ok header := by
  have hopens : (answer (openQueue .process 2 .event 4096) (run {} narrow).arbiter).1 =
      .ok ⟨.event, 2, true⟩ := by decide +kernel
  have hget : (run {} narrow).arbiter.queues.get .event =
      some { size := 112, mask := QueueRole.event.mask, region := 0 } := by decide +kernel
  cases h : openQueue .process 2 .event 4096 (run {} narrow).arbiter with
  | error e a' =>
    rw [answer_of_error h] at hopens
    cases hopens
  | ok handle a' =>
    rw [answer_of_ok h] at hopens
    cases hopens
    obtain ⟨-, b, hb, hold, -, hinside, houtside, hring⟩ :=
      opened_queue_maps_its_buffer narrow rfl h
    obtain ⟨rfl, -⟩ := hold _ hget
    obtain ⟨v, a'', hmap, -, -, hv⟩ := hinside nofun 112 .ample (by decide) (by decide) rfl
    have hquiet : Untouched .event {} narrow := ⟨nofun, nofun, nofun, nofun, trivial⟩
    obtain ⟨-, hheader⟩ := hring [] narrow rfl rfl (by decide +kernel)
    obtain ⟨header, hh, -⟩ := hheader hquiet
    exact ⟨a', rfl, ⟨v, a'', hmap, hv⟩, houtside 4096 .ample (by decide), _, header, hb, hh⟩

end Ledger

end AcceleratorScheduler.Arbiter
