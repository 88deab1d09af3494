import AcceleratorScheduler.Proofs.Arbiter.Contents
import AcceleratorScheduler.Proofs.Arbiter.Requests
import AcceleratorScheduler.Proofs.Controller.Isolation
import AcceleratorScheduler.Proofs.Ring.Fifo
import AcceleratorScheduler.Proofs.Ring.Format

/-! How large a queue may be. Valid settings bound no size from above, but a ring counts its slots
in one word, and the number of waiting slots is computed from a sum that must fit into one. The
first holds up to 128 GiB, the second up to half of that; main statement:
`accepted_sizes_usable_iff`. -/
namespace AcceleratorScheduler

namespace Ring

variable {m : Memory} {h : Header} {size : Nat}

/-- Whole pages hold no more slots than a word counts just up to 2^37 bytes. -/
theorem room_lt_iff (hp : size % Settings.queueAlign = 0) :
    room size < UInt32.size ↔ size ≤ 2 ^ 37 := by
  simp only [Settings.queueAlign, room, headerSize, slotSize, UInt32.size] at hp ⊢
  omega

/-- They hold no more than half as many just up to 2^36 bytes. -/
theorem room_le_iff (hp : size % Settings.queueAlign = 0) : room size ≤ 2 ^ 31 ↔ size ≤ 2 ^ 36 := by
  simp only [Settings.queueAlign, room, headerSize, slotSize] at hp ⊢
  omega

/-- What is set aside for the waiting slots is less than the storage. -/
theorem reserved_lt (hs : h.Sound size) : h.length.toNat * slotSize < size :=
  Nat.lt_of_lt_of_le (by simp only [headerSize, slotSize]; omega)
    (slot_inside hs (Header.toNat_length_lt hs.circular))

/-- A full ring with the fewest slots for which the sum can pass a word. -/
def Header.overfull : Header := ⟨0x80000000, 0, 0x80000001⟩

theorem Header.sound_overfull (hr : 2 ^ 31 < room size) : overfull.Sound size :=
  ⟨by decide, hr, by decide, by decide⟩

/-- The sum fits for every header that is accepted just as long as the storage has no more slots
than half of what a word counts. -/
theorem sums_fit_iff : (∀ (m : Memory) (h : Header), m.size = size → header m = .ok h →
    h.put.toNat + h.slots.toNat < 2 ^ 32) ↔ room size ≤ 2 ^ 31 := by
  constructor
  · intro hall
    refine Nat.le_of_not_lt fun hr => ?_
    let m := withHeader (Memory.zeroed size) .overfull
    have hsize : m.size = size := size_withHeader _ _
    have hfit := hall m _ hsize (header_withHeader (Header.sound_overfull hr))
    exact absurd hfit (by decide)
  · rintro hr m h rfl hh
    have hs := (queued_of_header hh).sound
    have hput := hs.circular.put_lt
    have hslots := hs.2.1
    omega

end Ring

namespace Arbiter

/-- Nothing but the size and the memory stands against a session's opening a queue that has no
buffer yet. -/
structure MayOpen (a : Arbiter) (user : UserId) (role : QueueRole) : Prop where
  live : a.revoked = false
  entitled : ∃ u, a.user? user = some u ∧ (role.isExclusive = true → u.exclusive = true)
  vacant : a.queues.get role = none

/-- A new buffer holds the bytes that it was given. -/
theorem contents_install (a : Arbiter) (role : QueueRole) (size : Nat) (mask : AccessMask)
    (bytes : Memory) : (a.install role size mask bytes).contents role = some bytes := by
  have hget : (a.install role size mask bytes).queues.get role =
      some { size, mask, region := a.memory.regions.size } :=
    (QueueTable.get_put ..).trans (if_pos rfl)
  rw [contents, hget]
  exact congrArg some (SharedMemory.bytes_addRegion a.memory bytes)

section Opening

variable {a : Arbiter} {user : UserId} {role : QueueRole} {allocator : Allocator} {size : Nat}
  {block : Memory}

/-- With a block that can be laid out, the queue is opened on an empty ring over all of it. -/
theorem MayOpen.opens (ha : a.MayOpen user role) (hpos : size ≠ 0)
    (hblock : allocator size = .ok block) (hlength : block.size = size)
    (hroom : 2 ≤ Ring.room size) (hword : Ring.room size < UInt32.size) :
    ∃ a' bytes, openQueue allocator user role size a = .ok ⟨role, user, role.mask.isReadOnly⟩ a' ∧
      a'.contents role = some bytes ∧ bytes.size = size ∧ Ring.Queued bytes (.blank size) [] := by
  obtain ⟨u, hu, hx⟩ := ha.entitled
  have halloc := SharedBuffer.allocate_delivered role hpos hblock hlength
  subst hlength
  exact ⟨_, Ring.formatted block, openQueue_first ha.live hu hx ha.vacant halloc
    (answer_of_ok (Ring.format_granted hroom hword)), contents_install .., Ring.size_formatted block,
    Ring.queued_formatted hroom hword⟩

theorem MayOpen.refused (ha : a.MayOpen user role) (hpos : size ≠ 0)
    (hblock : allocator size = .ok block) (hlength : block.size = size)
    (hword : UInt32.size ≤ Ring.room size) :
    openQueue allocator user role size a = .error .invalidArgument a := by
  obtain ⟨u, hu, hx⟩ := ha.entitled
  have halloc := SharedBuffer.allocate_delivered role hpos hblock hlength
  subst hlength
  exact openQueue_unsupplied ha.live hu hx ha.vacant
    (supply_of_format halloc (answer_of_error (Ring.format_refused (.inr hword))))

end Opening

/-- Settings that are accepted ask for queues of whole pages, however large. When the memory is
there and nothing else stands against it, a queue of up to 2^37 bytes is opened on an empty ring
over all of it; the ring of a larger one is refused, and nothing changes. On any storage the length
that a header tells is right just as long as the sum of put and slots, less get, fits into a word;
what is set aside for it is less than the storage, and the slots that wait are listed whether or not
it is right. The sum fits for every header that is accepted just up to 2^36 bytes. -/
theorem accepted_sizes_usable_iff {settings : Settings} (hv : settings.validate = .ok ())
    (role : QueueRole) :
    (∀ (a : Arbiter) (user : UserId) (allocator : Allocator) (block : Memory),
      a.MayOpen user role → allocator (settings.queueBytes role) = .ok block →
      block.size = settings.queueBytes role →
      (settings.queueBytes role ≤ 2 ^ 37 → ∃ a' bytes,
        openQueue allocator user role (settings.queueBytes role) a =
          .ok ⟨role, user, role.mask.isReadOnly⟩ a' ∧
        a'.contents role = some bytes ∧ bytes.size = settings.queueBytes role ∧
        Ring.Queued bytes (.blank bytes.size) []) ∧
      (2 ^ 37 < settings.queueBytes role →
        openQueue allocator user role (settings.queueBytes role) a = .error .invalidArgument a)) ∧
    (∀ (m : Memory) (h : Ring.Header), m.size = settings.queueBytes role → Ring.header m = .ok h →
      (h.length.toNat = h.count ↔ h.put.toNat + h.slots.toNat < 2 ^ 32 + h.get.toNat) ∧
      h.length.toNat * slotSize < m.size ∧
      ∃ q, Ring.snapshot m = .ok q ∧ q.length = h.count) ∧
    ((∀ (m : Memory) (h : Ring.Header), m.size = settings.queueBytes role →
      Ring.header m = .ok h → h.put.toNat + h.slots.toNat < 2 ^ 32) ↔
        settings.queueBytes role ≤ 2 ^ 36) := by
  have hvalid := Settings.validate_eq_ok_iff.mp hv
  obtain ⟨hpos, hpages⟩ := hvalid.pages role
  refine ⟨fun a user allocator block ha hblock hlength => ⟨fun hle => ?_, fun hlt => ?_⟩,
    fun m h hsize hh => ?_, Ring.sums_fit_iff.trans (Ring.room_le_iff hpages)⟩
  · obtain ⟨a', bytes, hopen, hbytes, hsize, hq⟩ :=
      ha.opens hpos hblock hlength (hvalid.room role) ((Ring.room_lt_iff hpages).mpr hle)
    exact ⟨a', bytes, hopen, hbytes, hsize, hsize ▸ hq⟩
  · refine ha.refused hpos hblock hlength (Nat.le_of_not_lt fun hword => ?_)
    exact absurd ((Ring.room_lt_iff hpages).mp hword) (Nat.not_le.mpr hlt)
  · have hq := Ring.queued_of_header hh
    exact ⟨Ring.Header.toNat_length_iff hq.circular, Ring.reserved_lt hq.sound, _,
      Ring.snapshot_eq hq, hq.count_eq.symm⟩

def exclusiveSession : Arbiter where
  users := [{ id := 1, pid := 7, writable := true, exclusive := true }]
  nextUser := 2

/-- One page more than a ring can count is accepted for the queue of requests, and refused when it
is to be opened; the queue of responses is as large as is safe. -/
theorem accepted_sizes_usable_iff_huge :
    let settings : Settings :=
      { requestQueueBytes := 0x2000001000, responseQueueBytes := 0x1000000000 }
    let allocator : Allocator := fun size => .ok (.zeroed size)
    settings.validate = .ok () ∧
      openQueue allocator 1 .send (2 ^ 37 + 4096) exclusiveSession =
        .error .invalidArgument exclusiveSession ∧
      (∃ handle a', openQueue allocator 1 .receive (2 ^ 36) exclusiveSession = .ok handle a') ∧
      ∀ (m : Memory) (h : Ring.Header), m.size = 2 ^ 36 → Ring.header m = .ok h →
        h.put.toNat + h.slots.toNat < 2 ^ 32 := by
  intro settings allocator
  have hv : settings.validate = .ok () := by decide
  have hopens (role : QueueRole) : exclusiveSession.MayOpen 1 role :=
    ⟨rfl, ⟨_, rfl, fun _ => rfl⟩, by cases role <;> rfl⟩
  obtain ⟨hsend, -⟩ := accepted_sizes_usable_iff hv .send
  obtain ⟨hreceive, -, hsums⟩ := accepted_sizes_usable_iff hv .receive
  obtain ⟨a', -, hopen, -⟩ := (hreceive _ 1 allocator _ (hopens .receive) rfl rfl).1 (by decide)
  exact ⟨hv, (hsend _ 1 allocator _ (hopens .send) rfl rfl).2 (by decide), ⟨_, a', hopen⟩,
    hsums.mpr (by decide)⟩

/-- These settings are accepted. The block that the first asks for is delivered and no ring can be
laid out on it. The block of the second may carry a header whose sum does not fit into a word; it is
accepted, and of 2^31 slots that wait the length tells one. -/
theorem accepted_size_refused_by_ring :
    let settings : Settings :=
      { requestQueueBytes := 0x2000001000, responseQueueBytes := 0x1000001000 }
    let bytes := Ring.withHeader (.zeroed (2 ^ 36 + 4096)) .overfull
    settings.validate = .ok () ∧
      (answer Ring.format (Memory.zeroed (settings.queueBytes .send))).1 =
        .error .invalidArgument ∧
      bytes.size = settings.queueBytes .receive ∧ Ring.header bytes = .ok .overfull ∧
      Ring.Header.overfull.put.toNat + Ring.Header.overfull.slots.toNat = 2 ^ 32 + 1 ∧
      Ring.Header.overfull.count = 2 ^ 31 ∧ Ring.Header.overfull.length = 1 := by
  intro settings bytes
  exact ⟨by decide, by decide +kernel, rfl, by decide +kernel, by decide, by decide, by decide⟩

end Arbiter

end AcceleratorScheduler
