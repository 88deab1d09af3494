import AcceleratorScheduler.Proofs.Arbiter.Mappings

/-! Requests that are refused. A request asks several things in turn, some of them after bytes were
obtained for a buffer and a ring was laid out on them. Whichever of them stands against it, and
whatever the allocator does, it leaves the arbiter as it was, so a history can be told without its
refused requests; main statement: `refused_requests_leave_no_trace`. -/
namespace AcceleratorScheduler.Arbiter

variable {α : Type} {a a' : Arbiter} {e : Refusal} {t : Task α} {op : Operation}

/-- What stands against a request, and what it leaves then. -/
def refusal? (request : Task α) (a : Arbiter) : Option (Refusal × Arbiter) :=
  match request a with
  | .ok _ _ => none
  | .error e a' => some (e, a')

def Operation.refusal? : Operation → Arbiter → Option (Refusal × Arbiter)
  | addUser pid writable => Arbiter.refusal? (Arbiter.addUser pid writable)
  | reserve user => Arbiter.refusal? (Arbiter.reserve user)
  | release user => Arbiter.refusal? (Arbiter.release user)
  | allocateBuffer allocator role size mask =>
    Arbiter.refusal? (Arbiter.allocateBuffer allocator role size mask)
  | freeBuffer role => Arbiter.refusal? (Arbiter.freeBuffer role)
  | openQueue allocator user role size =>
    Arbiter.refusal? (Arbiter.openQueue allocator user role size)
  | closeQueue user role => Arbiter.refusal? (Arbiter.closeQueue user role)
  | mapWhole role user readOnly room =>
    Arbiter.refusal? (Arbiter.mapWhole role user readOnly room.grants)
  | mapRange role user offset length readOnly room =>
    Arbiter.refusal? (Arbiter.mapRange role user offset length readOnly room.grants)
  | mapHandle handle offset length room =>
    Arbiter.refusal? (Arbiter.mapHandle handle offset length room.grants)
  | destroy => Arbiter.refusal? Arbiter.destroy
  -- Departures and teardown are not refused, and bytes are no matter of the arbiter.
  | removeUser _ | reset _ | closeView _ | access .. | schedule .. | revokeAll => fun _ => none

theorem refusal?_eq_some : refusal? t a = some (e, a') ↔ t a = .error e a' := by
  rw [refusal?]
  cases t a <;> simp

def Atomic (t : Task α) : Prop := ∀ (a : Arbiter) (e : Refusal) (a' : Arbiter),
  t a = .error e a' → a' = a

theorem Atomic.eq (ht : Atomic t) (h : refusal? t a = some (e, a')) : a' = a :=
  ht a e a' (refusal?_eq_some.mp h)

theorem Atomic.of_cases {P : Arbiter → Prop}
    (h : ∀ a, (∃ e, t a = .error e a) ∨ P a) (hok : ∀ a, P a → ∃ x a', t a = .ok x a') :
    Atomic t := by
  intro a e a' he
  obtain ⟨e', he'⟩ | hp := h a
  · cases he'.symm.trans he
    rfl
  · obtain ⟨x, b, hx⟩ := hok a hp
    cases hx.symm.trans he

section

variable (role : QueueRole) (user : UserId)

theorem atomic_addUser (pid : Nat) (writable : Bool) : Atomic (addUser pid writable) :=
  .of_cases (addUser_cases pid writable) fun _ ⟨_, _, hx⟩ => ⟨_, _, hx⟩

theorem atomic_reserve : Atomic (reserve user) := by
  refine .of_cases (reserve_cases user) ?_
  rintro a ⟨u, -, -, -, ⟨-, hx⟩ | ⟨-, hx⟩⟩
  · exact ⟨_, _, hx⟩
  · exact ⟨_, _, hx⟩

theorem atomic_release : Atomic (release user) :=
  .of_cases (release_cases user) fun _ ⟨_, _, _, _, hx⟩ => ⟨_, _, hx⟩

theorem atomic_allocateBuffer (allocator : Allocator) (size : Nat) (mask : AccessMask) :
    Atomic (allocateBuffer allocator role size mask) :=
  .of_cases (allocateBuffer_cases allocator role size mask) fun _ ⟨_, _, _, _, hx⟩ => ⟨_, _, hx⟩

theorem atomic_freeBuffer : Atomic (freeBuffer role) :=
  .of_cases (freeBuffer_cases role) fun _ ⟨_, _, _, hx⟩ => ⟨_, _, hx⟩

theorem atomic_openQueue (allocator : Allocator) (size : Nat) :
    Atomic (openQueue allocator user role size) :=
  .of_cases (openQueue_cases allocator user role size)
    fun _ ⟨_, _, _, _, _, _, hx⟩ => ⟨_, _, hx⟩

theorem atomic_closeQueue : Atomic (closeQueue user role) :=
  .of_cases (closeQueue_cases user role) fun _ ⟨_, _, _, _, _, _, hx⟩ => ⟨_, _, hx⟩

theorem atomic_mapWhole (readOnly : Bool) (room : RecordRoom) :
    Atomic (mapWhole role user readOnly room) :=
  .of_cases (mapWhole_cases role user readOnly room) fun _ ⟨_, _, _, hx, _⟩ => ⟨_, _, hx⟩

theorem atomic_mapRange (offset length : Nat) (readOnly : Bool) (room : RecordRoom) :
    Atomic (mapRange role user offset length readOnly room) :=
  .of_cases (mapRange_cases role user offset length readOnly room)
    fun _ ⟨_, _, hx, _⟩ => ⟨_, _, hx⟩

theorem atomic_mapHandle (handle : ExportHandle) (offset length : Nat) (room : RecordRoom) :
    Atomic (mapHandle handle offset length room) :=
  .of_cases (mapHandle_cases handle offset length room) fun _ ⟨_, _, _, hx, _⟩ => ⟨_, _, hx⟩

theorem atomic_destroy : Atomic destroy :=
  .of_cases destroy_cases fun _ ⟨_, hx⟩ => ⟨_, _, hx⟩

end

/-- A refused operation grants nothing and leaves what its request leaves. -/
theorem Operation.perform_of_refusal? (h : op.refusal? a = some (e, a')) :
    op.perform a = (none, a') := by
  cases op with
  | removeUser | reset | closeView | access | schedule | revokeAll => cases h
  | mapWhole | mapRange | mapHandle =>
    rw [Operation.perform, grant, refusal?_eq_some.mp h]
  | _ => rw [Operation.perform, answer_of_error (refusal?_eq_some.mp h)]

theorem Operation.eq_of_refusal? (h : op.refusal? a = some (e, a')) : a' = a := by
  cases op with
  | addUser pid writable => exact (atomic_addUser pid writable).eq h
  | reserve user => exact (atomic_reserve user).eq h
  | release user => exact (atomic_release user).eq h
  | allocateBuffer allocator role size mask =>
    exact (atomic_allocateBuffer role allocator size mask).eq h
  | freeBuffer role => exact (atomic_freeBuffer role).eq h
  | openQueue allocator user role size =>
    exact (atomic_openQueue role user allocator size).eq h
  | closeQueue user role => exact (atomic_closeQueue role user).eq h
  | mapWhole role user readOnly room =>
    exact (atomic_mapWhole role user readOnly room.grants).eq h
  | mapRange role user offset length readOnly room =>
    exact (atomic_mapRange role user offset length readOnly room.grants).eq h
  | mapHandle handle offset length room =>
    exact (atomic_mapHandle handle offset length room.grants).eq h
  | destroy => exact atomic_destroy.eq h
  | removeUser | reset | closeView | access | schedule | revokeAll => cases h

namespace Ledger

/-- The operations of a history that were not refused. -/
def granted : Ledger → List Operation → List Operation
  | _, [] => []
  | l, op :: ops =>
    if (op.refusal? l.arbiter).isSome then granted l ops else op :: granted (l.perform op) ops

theorem perform_of_refusal? {l : Ledger} (h : op.refusal? l.arbiter = some (e, a')) :
    l.perform op = l := by
  have hperform := Operation.perform_of_refusal? h
  rw [Operation.eq_of_refusal? h] at hperform
  rw [perform, hperform, Option.toList_none, List.append_nil, ite_self]

theorem run_granted (l : Ledger) (ops : List Operation) : l.run (l.granted ops) = l.run ops := by
  induction ops generalizing l with
  | nil => rfl
  | cons op ops ih =>
    rw [granted]
    cases hop : op.refusal? l.arbiter with
    | some refused =>
      have hsame : l.run (op :: ops) = l.run ops :=
        congrArg (fun l : Ledger => l.run ops) (perform_of_refusal? hop)
      rw [Option.isSome_some, if_pos rfl, hsame, ih]
    | none =>
      rw [Option.isSome_none, if_neg Bool.false_ne_true]
      exact ih (l.perform op)

/-- A request that is refused leaves the whole arbiter as it was: sessions, buffers, records, bytes
and the validity of every view, and the ids to come. It grants nothing, and a history leads to the
same arbiter and the same grants without the requests that were refused in it. -/
theorem refused_requests_leave_no_trace (l : Ledger) :
    (∀ (op : Operation) (e : Refusal) (a' : Arbiter), op.refusal? l.arbiter = some (e, a') →
      a' = l.arbiter ∧ op.perform l.arbiter = (none, l.arbiter) ∧ l.perform op = l) ∧
    ∀ ops, l.run (l.granted ops) = l.run ops := by
  refine ⟨fun op e a' h => ?_, l.run_granted⟩
  have hsame := Operation.eq_of_refusal? h
  have hperform := Operation.perform_of_refusal? h
  rw [hsame] at hperform
  exact ⟨hsame, hperform, perform_of_refusal? h⟩

/-- A session that asks for queues with allocators that have no memory, give too little of it, or
give enough for a buffer but not for a ring. -/
private def starved : List Operation :=
  [.addUser 1 false, .openQueue (fun _ => .error .outOfMemory) 1 .event 112,
    .openQueue (fun _ => .ok (.zeroed 7)) 1 .event 112, .openQueue .process 1 .event 7]

private def noRoom : FiniteRoom where
  grants _ := false
  ends _ _ := rfl

theorem refused_requests_leave_no_trace_starved :
    (run {} starved).arbiter.queues = {} ∧ (run {} starved).arbiter.memory.regions.size = 0 ∧
      (run {} starved).perform (.openQueue .process 1 .event 7) = run {} starved ∧
      run {} (granted {} starved) = run {} starved ∧
      let l := run {} (starved ++ [.openQueue .process 1 .event 112])
      ((Operation.mapWhole .event 1 true noRoom).refusal? l.arbiter).map Prod.fst =
          some .outOfMemory ∧
        l.perform (.mapWhole .event 1 true noRoom) = l := by
  have hrefused : ((Operation.openQueue .process 1 .event 7).refusal?
      (run {} starved).arbiter).map Prod.fst = some .invalidArgument := by decide +kernel
  obtain ⟨⟨e, a'⟩, hop, -⟩ := Option.map_eq_some_iff.mp hrefused
  obtain ⟨hkeep, hrun⟩ := refused_requests_leave_no_trace (run {} starved)
  refine ⟨by decide +kernel, by decide +kernel, (hkeep _ e a' hop).2.2,
    (refused_requests_leave_no_trace {}).2 starved, ?_⟩
  intro l
  have hcramped : ((Operation.mapWhole .event 1 true noRoom).refusal? l.arbiter).map Prod.fst =
      some .outOfMemory := by decide +kernel
  obtain ⟨⟨e, a'⟩, hop, -⟩ := Option.map_eq_some_iff.mp hcramped
  exact ⟨hcramped, ((refused_requests_leave_no_trace l).1 _ e a' hop).2.2⟩

end Ledger

end AcceleratorScheduler.Arbiter
