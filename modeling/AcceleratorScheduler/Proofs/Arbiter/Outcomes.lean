import AcceleratorScheduler.Proofs.Arbiter.Ledger

/-! What can be done with an arbiter, and what it leaves. An operation that is refused leaves the
arbiter as it was; one that is granted leaves what its guards let through (`Operation.outcome`). -/
namespace AcceleratorScheduler.Arbiter

/-- What can be asked of an arbiter, or done with a view that it granted. -/
inductive Operation where
  | addUser (pid : Nat) (writable : Bool)
  | removeUser (user : UserId)
  | reserve (user : UserId)
  | release (user : UserId)
  | reset (user : UserId)
  | allocateBuffer (allocator : Allocator) (role : QueueRole) (size : Nat) (mask : AccessMask)
  | freeBuffer (role : QueueRole)
  | openQueue (allocator : Allocator) (user : UserId) (role : QueueRole) (size : Nat)
  | closeQueue (user : UserId) (role : QueueRole)
  | mapWhole (role : QueueRole) (user : UserId) (readOnly : Bool) (room : FiniteRoom := .widest)
  | mapRange (role : QueueRole) (user : UserId) (offset length : Nat) (readOnly : Bool)
    (room : FiniteRoom := .widest)
  | mapHandle (handle : ExportHandle) (offset length : Nat) (room : FiniteRoom := .widest)
  | closeView (v : MappedView)
  | access (v : MappedView) (operation : EStateM Refusal Window Unit)
  | schedule (role : QueueRole) (operation : EStateM Refusal Memory Unit)
  | revokeAll
  | destroy

def Operation.view? : Operation → Option MappedView
  | closeView v => some v
  | access v _ => some v
  | _ => none

def grant (owner : UserId) (request : Task MappedView) (a : Arbiter) : Option Grant × Arbiter :=
  match request a with
  | .ok v a => (some ⟨v, owner⟩, a)
  | .error _ a => (none, a)

def Operation.perform : Operation → Arbiter → Option Grant × Arbiter
  | addUser pid writable, a => (none, (answer (Arbiter.addUser pid writable) a).2)
  | removeUser user, a => (none, (a.removeUser user).2)
  | reserve user, a => (none, (answer (Arbiter.reserve user) a).2)
  | release user, a => (none, (answer (Arbiter.release user) a).2)
  | reset user, a => (none, a.reset user)
  | allocateBuffer allocator role size mask, a =>
    (none, (answer (Arbiter.allocateBuffer allocator role size mask) a).2)
  | freeBuffer role, a => (none, (answer (Arbiter.freeBuffer role) a).2)
  | openQueue allocator user role size, a =>
    (none, (answer (Arbiter.openQueue allocator user role size) a).2)
  | closeQueue user role, a => (none, (answer (Arbiter.closeQueue user role) a).2)
  | mapWhole role user readOnly room, a =>
    grant user (Arbiter.mapWhole role user readOnly room.grants) a
  | mapRange role user offset length readOnly room, a =>
    grant user (Arbiter.mapRange role user offset length readOnly room.grants) a
  | mapHandle handle offset length room, a =>
    grant handle.user (Arbiter.mapHandle handle offset length room.grants) a
  | closeView v, a => (none, a.closeView v)
  | access v operation, a => (none, (answer (onView v operation) a).2)
  | schedule role operation, a => (none, (a.onBuffer role operation).2)
  | revokeAll, a => (none, a.revokeAll.2)
  | destroy, a => (none, (answer Arbiter.destroy a).2)

def Operation.maps : Operation → Bool
  | mapWhole .. | mapRange .. | mapHandle .. => true
  | _ => false

/-- What an operation grants and leaves, with what its guards let through. -/
inductive Outcome (a : Arbiter) : Operation → Option Grant → Arbiter → Prop
  | unchanged {op : Operation} : Outcome a op none a
  | joined {pid : Nat} {writable : Bool} (hl : a.revoked = false)
      (hfree : writable = true → a.userExists pid true = false) :
      Outcome a (.addUser pid writable) none { a with
        users := a.users ++ [{ id := a.nextUser, pid, writable }]
        nextUser := a.nextUser + 1 }
  | departed {user : UserId} {u : User} (hu : a.user? user = some u) :
      Outcome a (.removeUser user) none (a.removeUser user).2
  | reserved {user : UserId} {u : User} (hl : a.revoked = false) (hu : a.user? user = some u)
      (hw : u.writable = true) (hh : a.holder? = none) :
      Outcome a (.reserve user) none (a.updateUser user fun u => { u with exclusive := true })
  | released {user : UserId} {u : User} (hu : a.user? user = some u) (hx : u.exclusive = true)
      (hq : u.queues.meets .exclusive = false) :
      Outcome a (.release user) none (a.updateUser user fun u => { u with exclusive := false })
  | relieved {user : UserId} {u : User} (hu : a.user? user = some u) :
      Outcome a (.reset user) none (a.reset user)
  | allocated {allocator : Allocator} {role : QueueRole} {size : Nat} {mask : AccessMask}
      {bytes : Memory} (hl : a.revoked = false) (hb : a.queues.get role = none)
      (hm : SharedBuffer.allocate allocator size mask = .ok bytes) :
      Outcome a (.allocateBuffer allocator role size mask) none (a.install role size mask bytes)
  | freed {role : QueueRole} {b : SharedBuffer} (hb : a.queues.get role = some b)
      (hm : b.isMapped = false) : Outcome a (.freeBuffer role) none (a.putBuffer role none)
  | opened {allocator : Allocator} {user : UserId} {role : QueueRole} {size : Nat} {u : User}
      {a' : Arbiter} (hl : a.revoked = false) (hu : a.user? user = some u)
      (hx : role.isExclusive = true → u.exclusive = true) (hs : Stocked allocator role size a a') :
      Outcome a (.openQueue allocator user role size) none
        (a'.updateUser user fun u => { u with queues := u.queues.insert role })
  | closed {user : UserId} {role : QueueRole} {u : User} {a' : Arbiter}
      (hu : a.user? user = some u) (hq : u.queues.contains role = true)
      (hm : (a.queues.get role).any SharedBuffer.isMapped = false)
      (ha : a' = a.updateUser user fun u => { u with queues := u.queues.erase role }) :
      Outcome a (.closeQueue user role) none
        (if a'.uses role then a' else a'.putBuffer role none)
  | lent {op : Operation} {role : QueueRole} {user : UserId} {offset length : Nat}
      {readOnly : Bool} {room : FiniteRoom} {v : MappedView} {a' : Arbiter}
      (hop : op.maps = true)
      (hl : Lends role user offset length readOnly room.grants a v a') :
      Outcome a op (some ⟨v, user⟩) a'
  | viewClosed (v : MappedView) : Outcome a (.closeView v) none (a.closeView v)
  | accessed (v : MappedView) (operation : EStateM Refusal Window Unit) :
      Outcome a (.access v operation) none (answer (onView v operation) a).2
  | scheduled (role : QueueRole) (operation : EStateM Refusal Memory Unit) :
      Outcome a (.schedule role operation) none (a.onBuffer role operation).2
  | revokedAll : Outcome a .revokeAll none a.revokeAll.2
  | destroyed (hb : a.isBusy = false) :
      Outcome a .destroy none { a with users := [], queues := {}, revoked := true }

variable {a : Arbiter}

private theorem outcome_answer {α : Type} {t : Task α} {op : Operation}
    (ht : (∃ e, t a = .error e a) ∨ ∃ x a', t a = .ok x a' ∧ Outcome a op none a') :
    Outcome a op none (answer t a).2 :=
  answer_cases (P := Outcome a op none) .unchanged ht

private theorem outcome_grant {t : Task MappedView} {owner : UserId} {op : Operation}
    (room : FiniteRoom) (hop : op.maps = true)
    (ht : (∃ e, t a = .error e a) ∨ ∃ role offset length readOnly v a', t a = .ok v a' ∧
      Lends role owner offset length readOnly room.grants a v a') :
    Outcome a op (grant owner t a).1 (grant owner t a).2 := by
  rcases ht with ⟨e, he⟩ | ⟨_, _, _, _, v, a', hx, hl⟩
  · rw [grant, he]
    exact .unchanged
  · rw [grant, hx]
    exact .lent hop hl

theorem Operation.outcome (op : Operation) (a : Arbiter) :
    Outcome a op (op.perform a).1 (op.perform a).2 := by
  cases op with
  | addUser pid writable =>
    refine outcome_answer ((addUser_cases pid writable a).imp_right ?_)
    exact fun ⟨hl, hfree, hx⟩ => ⟨_, _, hx, .joined hl hfree⟩
  | removeUser user =>
    cases hu : a.user? user with
    | none =>
      rw [perform, Arbiter.removeUser, hu]
      exact .unchanged
    | some _ => exact .departed hu
  | reserve user =>
    refine outcome_answer ((reserve_cases user a).imp_right ?_)
    rintro ⟨u, hl, hu, hw, ⟨-, hx⟩ | ⟨hh, hx⟩⟩
    · exact ⟨_, _, hx, .unchanged⟩
    · exact ⟨_, _, hx, .reserved hl hu hw hh⟩
  | release user =>
    refine outcome_answer ((release_cases user a).imp_right ?_)
    exact fun ⟨u, hu, hx, hq, ht⟩ => ⟨_, _, ht, .released hu hx hq⟩
  | reset user =>
    cases hu : a.user? user with
    | none =>
      rw [perform, Arbiter.reset, hu]
      exact .unchanged
    | some _ => exact .relieved hu
  | allocateBuffer allocator role size mask =>
    refine outcome_answer ((allocateBuffer_cases allocator role size mask a).imp_right ?_)
    exact fun ⟨bytes, hl, hb, hm, hx⟩ => ⟨_, _, hx, .allocated hl hb hm⟩
  | freeBuffer role =>
    refine outcome_answer ((freeBuffer_cases role a).imp_right ?_)
    exact fun ⟨b, hb, hm, hx⟩ => ⟨_, _, hx, .freed hb hm⟩
  | openQueue allocator user role size =>
    refine outcome_answer ((openQueue_cases allocator user role size a).imp_right ?_)
    exact fun ⟨u, a', hl, hu, hx, hs, ht⟩ => ⟨_, _, ht, .opened hl hu hx hs⟩
  | closeQueue user role =>
    refine outcome_answer ((closeQueue_cases user role a).imp_right ?_)
    exact fun ⟨u, a', hu, hq, hm, ha, hx⟩ => ⟨_, _, hx, .closed hu hq hm ha⟩
  | mapWhole role user readOnly room =>
    refine outcome_grant room rfl
      ((mapWhole_cases role user readOnly room.grants a).imp_right ?_)
    exact fun ⟨size, v, a', hx, hl⟩ => ⟨_, _, _, _, v, a', hx, hl⟩
  | mapRange role user offset length readOnly room =>
    refine outcome_grant room rfl
      ((mapRange_cases role user offset length readOnly room.grants a).imp_right ?_)
    exact fun ⟨v, a', hx, hl⟩ => ⟨_, _, _, _, v, a', hx, hl⟩
  | mapHandle handle offset length room =>
    refine outcome_grant room rfl
      ((mapHandle_cases handle offset length room.grants a).imp_right ?_)
    exact fun ⟨v, a', _, hx, hl⟩ => ⟨_, _, _, _, v, a', hx, hl⟩
  | closeView v => exact .viewClosed v
  | access v operation => exact .accessed v operation
  | schedule role operation => exact .scheduled role operation
  | revokeAll => exact .revokedAll
  | destroy =>
    refine outcome_answer ((destroy_cases a).imp_right ?_)
    exact fun ⟨hb, hx⟩ => ⟨_, _, hx, .destroyed hb⟩

end AcceleratorScheduler.Arbiter
