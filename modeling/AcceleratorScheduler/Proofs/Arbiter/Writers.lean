import AcceleratorScheduler.Proofs.Arbiter.Regions

/-! Who is lent a view for writing. On the exclusive queues that is the holder. On the event queue
it is every session, as soon as the queue has a buffer whose mask grants something exclusive, and
such a buffer comes from an allocation that asked for that mask; main statement:
`writable_views_of_holder_or_exposed`. -/
namespace AcceleratorScheduler.Arbiter

variable {a a' : Arbiter} {op : Operation} {role : QueueRole} {b : SharedBuffer} {user : UserId}
  {new : Option Grant}

def Exposed (a : Arbiter) : Prop := ∃ b, a.queues.get .event = some b ∧ b.mask.isReadOnly = false

/-- A buffer is never empty, and its mask is the queue's own unless one of the operations allocated
it with that mask. -/
def Endowed (a : Arbiter) (role : QueueRole) (ops : List Operation) : Prop :=
  ∀ b, a.queues.get role = some b → b.size ≠ 0 ∧ (b.mask = role.mask ∨
    ∃ allocator, .allocateBuffer allocator role b.size b.mask ∈ ops)

theorem Endowed.perform {ops : List Operation} (h : a.Endowed role ops) (hop : op ∈ ops) :
    (op.perform a).2.Endowed role ops := by
  have ho := op.outcome a
  generalize (op.perform a).1 = new, (op.perform a).2 = a' at ho ⊢
  intro b' hb'
  cases ho.tenure role with
  | vacated hnone => cases hnone.symm.trans hb'
  | kept hb hbehind _ hs hm =>
    cases hbehind.symm.trans hb'
    rw [hs, hm]
    exact h _ hb
  | founded _ hnone hbehind _ hf =>
    cases hbehind.symm.trans hb'
    cases hsup : op.supplies role with
    | false =>
      obtain ⟨hm, header, hq, hslots⟩ := hf hsup
      have hroom : Ring.room b'.size ≠ 0 := by
        rw [← hslots]
        exact Nat.ne_of_gt hq.length_lt
      have hhead : 0 < Ring.headerSize := by decide
      exact ⟨Nat.ne_of_gt (Nat.lt_of_lt_of_le hhead (Ring.headerSize_le_of_room hroom)), .inl hm⟩
    | true =>
      cases ho with
      | unchanged => cases hnone.symm.trans hb'
      | @allocated allocator other size mask _ _ _ hm =>
        cases beq_iff_eq.mp hsup
        cases ((QueueTable.get_put _ _ role role).trans (if_pos rfl)).symm.trans hb'
        exact ⟨(SharedBuffer.allocate_eq_ok_iff.mp hm).1, .inr ⟨allocator, hop⟩⟩
      | lent hmaps => cases op <;> cases hmaps <;> cases hsup
      | _ => cases hsup

/-- A view is lent for writing to the holder, or on an exposed event queue. -/
theorem Lends.of_writable {offset length : Nat} {readOnly : Bool} {room : RecordRoom}
    {v : MappedView} (hl : Lends role user offset length readOnly room a v a')
    (hw : v.writable = true) :
    a.isExclusiveUser user = true ∨ v.queue = .event ∧ a.Exposed := by
  obtain ⟨b, _, hb, -, rfl, -, -, hmask⟩ := hl.reaches
  obtain ⟨-, ⟨u, hu, hx⟩, -, -⟩ := hl
  cases hrole : v.queue with
  | event => exact .inr ⟨rfl, b, hrole ▸ hb, hmask hw⟩
  | send | receive =>
    left
    rw [isExclusiveUser, hu]
    exact hx (by rw [hrole]; rfl)

/-- A view for writing that is not lent to the holder is on the exposed event queue. -/
theorem Lends.of_bystander {offset length : Nat} {readOnly : Bool} {room : RecordRoom}
    {v : MappedView} (hl : Lends role user offset length readOnly room a v a')
    (hno : a.isExclusiveUser user = false) (hw : v.writable = true) :
    a.revoked = false ∧ (a.user? user).isSome = true ∧ a.Exposed := by
  obtain ⟨u, hu, -⟩ := hl.entitled
  obtain hx | ⟨-, hexposed⟩ := hl.of_writable hw
  · rw [hno] at hx
    cases hx
  · exact ⟨hl.live, by rw [hu]; rfl, hexposed⟩

/-- A session of a live arbiter is lent the whole of an exposed event queue for writing, if there is
room for the record. -/
theorem Exposed.lends (h : a.Exposed) {ops : List Operation} (he : a.Endowed .event ops)
    (hl : a.revoked = false) {u : User} (hu : a.user? user = some u)
    (hb : a.queues.get .event = some b) {room : RecordRoom}
    (hroom : room b.mappings.length = true) :
    ∃ v a', mapWhole .event user false room a = .ok v a' ∧ v.writable = true := by
  obtain ⟨k, hk, hmask⟩ := h
  cases hb.symm.trans hk
  have hsize : bufferSize .event a = .ok b.size a := (bind_ok (requireBuffer_some hb)).trans rfl
  have hatt := SharedBuffer.attach_granted (he b hb).1 (Nat.le_refl _)
    (fun _ : true = true => hmask) hroom user a.memory.links.size
  exact ⟨_, _, (bind_ok hsize).trans (mapRange_granted hl hu nofun hb hatt), rfl⟩

/-- The handle of a queue asks for what the queue's own mask grants. -/
theorem handle_of_openQueue {allocator : Allocator} {size : Nat} {handle : ExportHandle}
    (h : openQueue allocator user role size a = .ok handle a') :
    handle = ⟨role, user, role.mask.isReadOnly⟩ := by
  obtain ⟨e, he⟩ | ⟨_, _, -, -, -, -, he⟩ := openQueue_cases allocator user role size a
  · cases he.symm.trans h
  · cases he.symm.trans h
    rfl

namespace Ledger

theorem endowed_run (role : QueueRole) (ops : List Operation) :
    (run {} ops).arbiter.Endowed role ops :=
  keeps_run (l := ⟨{}, []⟩) (P := fun a => a.Endowed role ops) balanced_empty orderly_empty
    (fun _ hb => by cases role <;> cases hb) fun _ hop _ _ _ _ h _ => h.perform hop

/-- A view for writing is granted to the holder of exclusive access, whatever request asks for it,
unless it is on an event queue whose buffer is not for reading only. There any session is granted
one by asking for the whole queue, as long as memory takes its record. Such a buffer always comes
from an allocation with that mask, never from opening the queue; and the handles that opening gives
out ask the event queue for reading only, whatever its buffer grants. -/
theorem writable_views_of_holder_or_exposed (ops : List Operation) {l : Ledger}
    (hl : l = run {} ops) :
    (∀ (op : Operation) (g : Grant), (op.perform l.arbiter).1 = some g → g.view.writable = true →
      l.arbiter.isExclusiveUser g.owner = true ∨ g.view.queue = .event ∧ l.arbiter.Exposed) ∧
    (∀ user, l.arbiter.isExclusiveUser user = false →
      ((∃ (op : Operation) (g : Grant), (op.perform l.arbiter).1 = some g ∧ g.owner = user ∧
          g.view.writable = true) →
        l.arbiter.revoked = false ∧ (l.arbiter.user? user).isSome = true ∧ l.arbiter.Exposed) ∧
      ∀ room : RecordRoom,
        ((∃ v a', mapWhole .event user false room l.arbiter = .ok v a' ∧ v.writable = true) ↔
          l.arbiter.revoked = false ∧ (l.arbiter.user? user).isSome = true ∧ l.arbiter.Exposed ∧
            ∃ b, l.arbiter.queues.get .event = some b ∧ room b.mappings.length = true)) ∧
    (l.arbiter.Exposed → ∃ allocator size mask,
      .allocateBuffer allocator .event size mask ∈ ops ∧ mask.isReadOnly = false) ∧
    ∀ allocator size earlier after (handle : ExportHandle) offset length room v a',
      openQueue allocator handle.user handle.role size earlier = .ok handle after →
      mapHandle handle offset length room l.arbiter = .ok v a' → v.writable = true →
      l.arbiter.isExclusiveUser handle.user = true := by
  subst hl
  have hlends (op : Operation) (g : Grant) (hg : (op.perform (run {} ops).arbiter).1 = some g) :
      ∃ role offset length readOnly room a',
        Lends role g.owner offset length readOnly room (run {} ops).arbiter g.view a' := by
    have ho := op.outcome (run {} ops).arbiter
    rw [hg] at ho
    cases ho with
    | lent _ hl => exact ⟨_, _, _, _, _, _, hl⟩
  refine ⟨fun op g hg hw => ?_, fun user hno => ⟨?_, fun room => ⟨?_, ?_⟩⟩, ?_, ?_⟩
  · obtain ⟨_, _, _, _, _, _, hl⟩ := hlends op g hg
    exact hl.of_writable hw
  · rintro ⟨op, g, hg, rfl, hw⟩
    obtain ⟨_, _, _, _, _, _, hl⟩ := hlends op g hg
    exact hl.of_bystander hno hw
  · rintro ⟨v, a', hmap, hw⟩
    obtain ⟨e, he⟩ | ⟨size, w, k, he, hl⟩ :=
      mapWhole_cases .event user false room (run {} ops).arbiter
    · cases he.symm.trans hmap
    · cases he.symm.trans hmap
      obtain ⟨hlive, hsome, hexposed⟩ := hl.of_bystander hno hw
      obtain ⟨b, _, hb, hatt, -⟩ := hl.lent
      obtain ⟨-, -, -, -, hroom, -⟩ := SharedBuffer.attach_eq_ok hatt
      exact ⟨hlive, hsome, hexposed, b, hb, hroom⟩
  · rintro ⟨hlive, hsome, hexposed, b, hb, hroom⟩
    obtain ⟨u, hu⟩ := Option.isSome_iff_exists.mp hsome
    exact hexposed.lends (endowed_run .event ops) hlive hu hb hroom
  · rintro ⟨b, hb, hmask⟩
    obtain hown | ⟨allocator, hop⟩ := (endowed_run .event ops b hb).2
    · rw [hown] at hmask
      cases hmask
    · exact ⟨allocator, b.size, b.mask, hop, hmask⟩
  · intro allocator size earlier after handle offset length room v a' hopen hmap hw
    have hread := congrArg ExportHandle.readOnly (handle_of_openQueue hopen)
    obtain ⟨e, he⟩ | ⟨w, k, -, hx, hl⟩ :=
      mapHandle_cases handle offset length room (run {} ops).arbiter
    · cases he.symm.trans hmap
    · cases hx.symm.trans hmap
      obtain hheld | ⟨hq, -⟩ := hl.of_writable hw
      · exact hheld
      · rw [hl.view_eq] at hq hw
        change handle.role = .event at hq
        rw [hread, hq] at hw
        cases hw

/-- A session that may not even write, beside the holder, and an event queue whose buffer grants
what only the holder is meant to have. -/
private def bystander : List Operation :=
  [.addUser 1 false, .addUser 2 true, .reserve 2,
    .allocateBuffer .process .event 112 { exclusiveWrite := true }]

theorem event_view_lent_to_bystander :
    (Operation.perform (.mapWhole .event 1 false) (run {} bystander).arbiter).1 =
        some ⟨⟨0, .event, 1, 112, true⟩, 1⟩ ∧
      (run {} bystander).arbiter.isExclusiveUser 1 = false ∧
      (run {} bystander).arbiter.holder? = some 2 := by
  decide +kernel

theorem writable_views_of_holder_or_exposed_bystander :
    (run {} bystander).arbiter.isExclusiveUser 1 = false ∧
      ∃ allocator size mask,
        .allocateBuffer allocator .event size mask ∈ bystander ∧ mask.isReadOnly = false := by
  obtain ⟨-, hiff, hsource, -⟩ := writable_views_of_holder_or_exposed bystander rfl
  have hno : (run {} bystander).arbiter.isExclusiveUser 1 = false := by decide +kernel
  have hlent : (Operation.perform (.mapWhole .event 1 false) (run {} bystander).arbiter).1 =
      some ⟨⟨0, .event, 1, 112, true⟩, 1⟩ := by decide +kernel
  exact ⟨hno, hsource ((hiff 1 hno).1 ⟨_, _, hlent, rfl, rfl⟩).2.2⟩

end Ledger

end AcceleratorScheduler.Arbiter
