import AcceleratorScheduler.Proofs.Arbiter.Departure

/-! The session list. One session at most holds exclusive access, only it may use an exclusive
queue, and the id of a session that has left is never given out again; main statement:
`sessions_stay_orderly`. -/
namespace AcceleratorScheduler.Arbiter

variable {a a' a'' : Arbiter} {grants : List Grant} {id : UserId} {u v : User}

/-- What holds of the session list at any time. -/
structure Orderly (a : Arbiter) : Prop where
  ascending : (a.users.map User.id).Pairwise (· < ·)
  given : ∀ u ∈ a.users, u.id < a.nextUser
  sole : ∀ u ∈ a.users, ∀ v ∈ a.users, u.exclusive = true → v.exclusive = true → u = v
  entitled : ∀ u ∈ a.users, u.exclusive = true → u.writable = true
  reserved : ∀ u ∈ a.users, ∀ role : QueueRole, role.isExclusive = true →
    u.queues.contains role = true → u.exclusive = true
  oneWriter : ∀ u ∈ a.users, ∀ v ∈ a.users, u.writable = true → v.writable = true →
    u.pid = v.pid → u = v
  torn : a.revoked = true → ∀ u ∈ a.users, u.exclusive = false

/-- An orderly session list is left for another, and no session that had ended comes back. -/
structure Succeeds (a a' : Arbiter) : Prop where
  orderly : a'.Orderly
  grown : a.nextUser ≤ a'.nextUser
  known : ∀ u' ∈ a'.users, u'.id < a.nextUser → ∃ u ∈ a.users, u.id = u'.id

theorem Succeeds.trans (h : a.Succeeds a') (h' : a'.Succeeds a'') : a.Succeeds a'' where
  orderly := h'.orderly
  grown := Nat.le_trans h.grown h'.grown
  known u hu hlt := by
    obtain ⟨v, hv, he⟩ := h'.known u hu (Nat.lt_of_lt_of_le hlt h.grown)
    obtain ⟨w, hw, he'⟩ := h.known v hv (he ▸ hlt)
    exact ⟨w, hw, he'.trans he⟩

namespace Orderly

theorem refl (h : a.Orderly) : a.Succeeds a := ⟨h, Nat.le_refl _, fun u hu _ => ⟨u, hu, rfl⟩⟩

theorem eq_of_id (h : a.Orderly) (hu : u ∈ a.users) (hv : v ∈ a.users) (he : u.id = v.id) :
    u = v :=
  List.inj_on_of_nodup_map (h.ascending.imp Nat.ne_of_lt) hu hv he

theorem user?_of_mem (h : a.Orderly) (hu : u ∈ a.users) : a.user? u.id = some u := by
  cases hf : a.user? u.id with
  | none =>
    have hn := List.find?_eq_none.mp hf u hu
    simp at hn
  | some v =>
    have hid : v.id = u.id := beq_iff_eq.mp (List.find?_some (p := fun v : User => v.id == u.id) hf)
    rw [h.eq_of_id (List.mem_of_find?_eq_some hf) hu hid]

/-- Sessions leave, or nothing changes. -/
theorem sublist (h : a.Orderly) (hu : a'.users.Sublist a.users) (hn : a'.nextUser = a.nextUser)
    (hr : a'.revoked = a.revoked ∨ a'.users = []) : a.Succeeds a' where
  grown := Nat.le_of_eq hn.symm
  known u hm _ := ⟨u, hu.subset hm, rfl⟩
  orderly :=
    { ascending := h.ascending.sublist (hu.map _)
      given := fun u hm => hn ▸ h.given u (hu.subset hm)
      sole := fun u hm v hm' => h.sole u (hu.subset hm) v (hu.subset hm')
      entitled := fun u hm => h.entitled u (hu.subset hm)
      reserved := fun u hm => h.reserved u (hu.subset hm)
      oneWriter := fun u hm v hm' => h.oneWriter u (hu.subset hm) v (hu.subset hm')
      torn := fun ht u hm => by
        rcases hr with hr | hr
        · exact h.torn (hr ▸ ht) u (hu.subset hm)
        · rw [hr] at hm
          cases hm }

/-- Sessions stay who they are, but what they hold and use may change. -/
theorem map (h : a.Orderly) {f : User → User} (hu : a'.users = a.users.map f)
    (hn : a'.nextUser = a.nextUser)
    (hf : ∀ u, (f u).id = u.id ∧ (f u).pid = u.pid ∧ (f u).writable = u.writable)
    (hsole : ∀ u ∈ a.users, ∀ v ∈ a.users,
      (f u).exclusive = true → (f v).exclusive = true → u = v)
    (hent : ∀ u ∈ a.users, (f u).exclusive = true → u.writable = true)
    (hres : ∀ u ∈ a.users, ∀ role : QueueRole, role.isExclusive = true →
      (f u).queues.contains role = true → (f u).exclusive = true)
    (hover : a'.revoked = true → ∀ u ∈ a.users, (f u).exclusive = false) : a.Succeeds a' := by
  have hids : a'.users.map User.id = a.users.map User.id := by
    rw [hu, List.map_map]
    exact List.map_congr_left fun u _ => (hf u).1
  refine ⟨⟨hids ▸ h.ascending, ?_, ?_, ?_, ?_, ?_, ?_⟩, Nat.le_of_eq hn.symm, ?_⟩ <;>
    simp only [hu, List.forall_mem_map]
  · intro u hm
    rw [(hf u).1, hn]
    exact h.given u hm
  · intro u hm v hm' hx hx'
    rw [hsole u hm v hm' hx hx']
  · intro u hm hx
    rw [(hf u).2.2]
    exact hent u hm hx
  · exact hres
  · intro u hm v hm' hw hw' hp
    rw [(hf u).2.2] at hw
    rw [(hf v).2.2] at hw'
    rw [(hf u).2.1, (hf v).2.1] at hp
    rw [h.oneWriter u hm v hm' hw hw' hp]
  · exact hover
  · exact fun u hm _ => ⟨u, hm, (hf u).1.symm⟩

/-- Sessions give up what they hold, and with it what only its holder may use. -/
theorem cede (h : a.Orderly) {f : User → User} (hu : a'.users = a.users.map f)
    (hn : a'.nextUser = a.nextUser)
    (hf : ∀ u, (f u).id = u.id ∧ (f u).pid = u.pid ∧ (f u).writable = u.writable)
    (hx : ∀ u, (f u).exclusive = true → u.exclusive = true)
    (hres : ∀ u ∈ a.users, ∀ role : QueueRole, role.isExclusive = true →
      (f u).queues.contains role = true → (f u).exclusive = true)
    (hr : a'.revoked = a.revoked ∨ ∀ u, (f u).exclusive = false) : a.Succeeds a' := by
  refine h.map hu hn hf (fun u hm v hm' he he' => h.sole u hm v hm' (hx u he) (hx v he'))
    (fun u hm he => h.entitled u hm (hx u he)) hres fun ht u hm => ?_
  rcases hr with hr | hr
  · have hno := h.torn (hr ▸ ht) u hm
    exact Bool.eq_false_iff.mpr fun he => by rw [hx u he] at hno; cases hno
  · exact hr u

/-- One session more, which holds nothing yet. -/
theorem arrive (h : a.Orderly) {pid : Nat} {writable : Bool}
    (hfree : writable = true → a.userExists pid true = false) :
    a.Succeeds { a with
      users := a.users ++ [{ id := a.nextUser, pid, writable }]
      nextUser := a.nextUser + 1 } := by
  have hold {u : User} (hu : u ∈ a.users ++ [{ id := a.nextUser, pid, writable }]) :
      u ∈ a.users ∨ u = { id := a.nextUser, pid, writable } :=
    (List.mem_append.mp hu).imp_right List.mem_singleton.mp
  have hother {v : User} (hv : v ∈ a.users) (hw : v.writable = true) (ht : writable = true) :
      v.pid ≠ pid := by
    have hno := List.any_eq_false.mp (hfree ht) v hv
    simpa [hw] using hno
  refine ⟨⟨?_, ?_, ?_, ?_, ?_, ?_, ?_⟩, Nat.le_succ _, ?_⟩
  · rw [List.map_append, List.pairwise_append]
    refine ⟨h.ascending, List.pairwise_singleton _ _, fun i hi j hj => ?_⟩
    obtain ⟨u, hu, rfl⟩ := List.mem_map.mp hi
    rw [List.mem_singleton.mp hj]
    exact h.given u hu
  · intro u hu
    rcases hold hu with hu | rfl
    · exact Nat.lt_succ_of_lt (h.given u hu)
    · exact Nat.lt_succ_self _
  · intro u hu v hv hx hx'
    rcases hold hu with hu | rfl
    · rcases hold hv with hv | rfl
      · exact h.sole u hu v hv hx hx'
      · cases hx'
    · cases hx
  · intro u hu hx
    rcases hold hu with hu | rfl
    · exact h.entitled u hu hx
    · cases hx
  · intro u hu role hr hq
    rcases hold hu with hu | rfl
    · exact h.reserved u hu role hr hq
    · cases role <;> cases hq
  · intro u hu v hv hw hw' hp
    rcases hold hu with hu | rfl <;> rcases hold hv with hv | rfl
    · exact h.oneWriter u hu v hv hw hw' hp
    · exact absurd hp (hother hu hw hw')
    · exact absurd hp.symm (hother hv hw' hw)
    · rfl
  · intro hr u hu
    rcases hold hu with hu | rfl
    · exact h.torn hr u hu
    · rfl
  · intro u hu hlt
    rcases hold hu with hu | rfl
    · exact ⟨u, hu, rfl⟩
    · exact absurd hlt (Nat.lt_irrefl _)

end Orderly

/-- Nobody holds exclusive access. -/
theorem holder?_eq_none_iff : a.holder? = none ↔ ∀ u ∈ a.users, u.exclusive = false := by
  simp only [holder?, Option.map_eq_none_iff, List.find?_eq_none, Bool.not_eq_true]

theorem Orderly.holder?_eq_some_iff (h : a.Orderly) :
    a.holder? = some id ↔ ∃ u ∈ a.users, u.id = id ∧ u.exclusive = true := by
  rw [holder?, Option.map_eq_some_iff]
  constructor
  · rintro ⟨u, hf, rfl⟩
    exact ⟨u, List.mem_of_find?_eq_some hf, rfl, List.find?_some hf⟩
  · rintro ⟨u, hu, rfl, hx⟩
    cases hf : a.users.find? User.exclusive with
    | none =>
      have hn := List.find?_eq_none.mp hf u hu
      exact absurd hx hn
    | some v =>
      rw [h.sole v (List.mem_of_find?_eq_some hf) u hu (List.find?_some hf) hx]
      exact ⟨u, rfl, rfl⟩

theorem mem_of_user? (h : a.user? id = some u) : u ∈ a.users ∧ u.id = id :=
  ⟨List.mem_of_find?_eq_some h,
    beq_iff_eq.mp (List.find?_some (p := fun u : User => u.id == id) h)⟩

/-- A session that is changed is found as it is after the change. -/
theorem user?_updateUser (hu : a.user? id = some u) {f : User → User}
    (hf : ∀ u, (f u).id = u.id) : (a.updateUser id f).user? id = some (f u) := by
  have hsame : ((fun v : User => v.id == id) ∘ fun v => if v.id = id then f v else v) =
      fun v : User => v.id == id := by
    funext v
    by_cases he : v.id = id <;> simp [he, hf]
  rw [user?, updateUser, List.find?_map, hsame, ← user?, hu, Option.map_some,
    if_pos (mem_of_user? hu).2]

structure SameUsers (a a' : Arbiter) : Prop where
  users : a'.users = a.users
  nextUser : a'.nextUser = a.nextUser
  revoked : a'.revoked = a.revoked

def Operation.sparesUsers : Operation → Bool
  | allocateBuffer .. | freeBuffer .. | mapWhole .. | mapRange .. | mapHandle .. => true
  | closeView .. | access .. | schedule .. => true
  | _ => false

theorem Operation.sparesUsers_of_maps {op : Operation} (h : op.maps = true) :
    op.sparesUsers = true := by
  cases op <;> first | rfl | cases h

theorem Stocked.sameUsers {allocator : Allocator} {role : QueueRole} {size : Nat}
    (hs : Stocked allocator role size a a') : a.SameUsers a' := by
  cases hs <;> exact ⟨rfl, rfl, rfl⟩

/-- The last use of a queue frees its buffer. -/
theorem sameUsers_discard (a : Arbiter) (role : QueueRole) :
    a.SameUsers (if a.uses role then a else a.putBuffer role none) := by
  split <;> exact ⟨rfl, rfl, rfl⟩

theorem Outcome.sameUsers {op : Operation} {new : Option Grant} (ho : Outcome a op new a')
    (hop : op.sparesUsers = true) : a.SameUsers a' := by
  cases ho with
  | unchanged => exact ⟨rfl, rfl, rfl⟩
  | allocated => exact ⟨rfl, rfl, rfl⟩
  | freed => exact ⟨rfl, rfl, rfl⟩
  | lent _ hl =>
    obtain ⟨-, -, ⟨_, _, -, -, rfl⟩, -⟩ := hl
    exact ⟨rfl, rfl, rfl⟩
  | viewClosed v =>
    rw [closeView]
    split
    · exact ⟨rfl, rfl, rfl⟩
    · split <;> exact ⟨rfl, rfl, rfl⟩
  | accessed v operation =>
    rw [onView_snd]
    exact ⟨rfl, rfl, rfl⟩
  | scheduled role operation =>
    rw [onBuffer_snd]
    exact ⟨rfl, rfl, rfl⟩
  | _ => cases hop

theorem Orderly.of_users (h : a.Orderly) (hs : a.SameUsers a') : a.Succeeds a' :=
  h.sublist (hs.users ▸ List.Sublist.refl _) hs.nextUser (.inl hs.revoked)

namespace Orderly

theorem reserve (h : a.Orderly) (hl : a.revoked = false) (hu : a.user? id = some v)
    (hw : v.writable = true) (hnone : a.holder? = none) :
    a.Succeeds (a.updateUser id fun u => { u with exclusive := true }) := by
  have hfree := holder?_eq_none_iff.mp hnone
  obtain ⟨hmem, hid⟩ := mem_of_user? hu
  -- Only the session that reserves is exclusive afterwards.
  have honly {u : User} (hm : u ∈ a.users)
      (he : (if u.id = id then { u with exclusive := true } else u).exclusive = true) : u = v := by
    split at he
    next hi => exact h.eq_of_id hm hmem (hi.trans hid.symm)
    next => rw [hfree u hm] at he; cases he
  refine h.map rfl rfl (fun u => ?_) (fun u hm v hm' he he' => ?_) (fun u hm he => ?_)
    (fun u hm role hr hq => ?_) (fun ht => ?_)
  · split <;> exact ⟨rfl, rfl, rfl⟩
  · rw [honly hm he, honly hm' he']
  · rw [honly hm he]
    exact hw
  · split at hq
    next hi => rw [if_pos hi]
    next =>
      have hx := h.reserved u hm role hr hq
      rw [hfree u hm] at hx
      cases hx
  · rw [show a.revoked = true from ht] at hl
    cases hl

theorem release (h : a.Orderly) (hu : a.user? id = some v)
    (hq : v.queues.meets .exclusive = false) :
    a.Succeeds (a.updateUser id fun u => { u with exclusive := false }) := by
  obtain ⟨hmem, hid⟩ := mem_of_user? hu
  refine h.cede rfl rfl (fun u => ?_) (fun u he => ?_) (fun u hm role hr hc => ?_) (.inl rfl)
  · split <;> exact ⟨rfl, rfl, rfl⟩
  · split at he
    · cases he
    · exact he
  · split at hc
    next hi =>
      rw [h.eq_of_id hm hmem (hi.trans hid.symm)] at hc
      exact absurd (QueueSet.meets_exclusive hr hc) (by rw [hq]; exact Bool.false_ne_true)
    next hi =>
      rw [if_neg hi]
      exact h.reserved u hm role hr hc

theorem reset (h : a.Orderly) (hu : a.user? id = some v) : a.Succeeds (a.reset id) := by
  obtain ⟨hn, hr⟩ :=
    counters_revokeUser (a.updateUser id fun u => { u with exclusive := false }) id .exclusive
  rw [← reset_of_user hu] at hn hr
  refine h.cede (users_reset hu) hn (fun u => ?_) (fun u he => ?_) (fun u hm role hr hc => ?_)
    (.inl hr)
  · split <;> exact ⟨rfl, rfl, rfl⟩
  · split at he
    · cases he
    · exact he
  · split at hc
    next => simp [hr] at hc
    next hi =>
      rw [if_neg hi]
      exact h.reserved u hm role hr hc

theorem removeUser (h : a.Orderly) (hu : a.user? id = some v) :
    a.Succeeds (a.removeUser id).2 := by
  obtain ⟨hn, hr⟩ := counters_revokeUser a id .full
  rw [removeUser_of_user hu]
  refine h.sublist ?_ hn (.inl hr)
  rw [← removeUser_of_user hu, users_removeUser hu]
  exact List.filter_sublist

/-- A session comes to use another queue, or no longer uses one. -/
theorem use (h : a.Orderly) {f : QueueSet → QueueSet}
    (hf : ∀ u ∈ a.users, u.id = id → ∀ role : QueueRole, role.isExclusive = true →
      (f u.queues).contains role = true → u.exclusive = true) :
    a.Succeeds (a.updateUser id fun u => { u with queues := f u.queues }) := by
  refine h.cede rfl rfl (fun u => ?_) (fun u he => ?_) (fun u hm role hr hc => ?_) (.inl rfl)
  · split <;> exact ⟨rfl, rfl, rfl⟩
  · split at he <;> exact he
  · split at hc
    next hi =>
      rw [if_pos hi]
      exact hf u hm hi role hr hc
    next hi =>
      rw [if_neg hi]
      exact h.reserved u hm role hr hc

theorem openQueue (h : a.Orderly) {allocator : Allocator} {role : QueueRole} {size : Nat}
    (hu : a.user? id = some v) (hx : role.isExclusive = true → v.exclusive = true)
    (hs : Stocked allocator role size a a') :
    a.Succeeds (a'.updateUser id fun u => { u with queues := u.queues.insert role }) := by
  obtain ⟨hmem, hid⟩ := mem_of_user? hu
  have hstocked := h.of_users hs.sameUsers
  refine hstocked.trans (hstocked.orderly.use (f := (·.insert role)) fun u hm hi other hr hc => ?_)
  rw [hs.sameUsers.users] at hm
  rw [QueueSet.contains_insert, Bool.or_eq_true, decide_eq_true_eq] at hc
  rcases hc with rfl | hc
  · rw [h.eq_of_id hm hmem (hi.trans hid.symm)]
    exact hx hr
  · exact h.reserved u hm other hr hc

theorem closeQueue (h : a.Orderly) {role : QueueRole}
    (ha : a' = a.updateUser id fun u => { u with queues := u.queues.erase role }) :
    a.Succeeds (if a'.uses role then a' else a'.putBuffer role none) := by
  have hclosed : a.Succeeds a' := ha ▸ h.use (f := (·.erase role)) fun u hm _ other hr hc => by
    rw [QueueSet.contains_erase, Bool.and_eq_true] at hc
    exact h.reserved u hm other hr hc.2
  exact hclosed.trans (hclosed.orderly.of_users (sameUsers_discard a' role))

theorem revokeAll (h : a.Orderly) : a.Succeeds a.revokeAll.2 :=
  h.cede (f := fun u => { u with exclusive := false, queues := .empty }) rfl rfl
    (fun _ => ⟨rfl, rfl, rfl⟩) nofun (fun _ _ role _ hq => by cases role <;> cases hq)
    (.inr fun _ => rfl)

end Orderly

theorem Outcome.succeeds {op : Operation} {new : Option Grant} (ho : Outcome a op new a')
    (h : a.Orderly) : a.Succeeds a' := by
  by_cases hop : op.sparesUsers = true
  · exact h.of_users (ho.sameUsers hop)
  cases ho with
  | unchanged => exact h.refl
  | joined _ hfree => exact h.arrive hfree
  | departed hu => exact h.removeUser hu
  | reserved hl hu hw hh => exact h.reserve hl hu hw hh
  | released hu _ hq => exact h.release hu hq
  | relieved hu => exact h.reset hu
  | opened _ hu hx hs => exact h.openQueue hu hx hs
  | closed _ _ _ ha => exact h.closeQueue ha
  | lent hmaps => exact absurd (Operation.sparesUsers_of_maps hmaps) hop
  | revokedAll => exact h.revokeAll
  | destroyed => exact h.sublist (List.nil_sublist _) rfl (.inr rfl)
  | _ => exact absurd rfl hop

/-- One operation on the session list. -/
theorem Orderly.perform (h : a.Orderly) (op : Operation) : a.Succeeds (op.perform a).2 :=
  (op.outcome a).succeeds h

def Operation.arrival? : Operation → Arbiter → Option UserId
  | addUser pid writable, a =>
    match Arbiter.addUser pid writable a with
    | .ok id _ => some id
    | .error _ _ => none
  | _, _ => none

namespace Ledger

theorem orderly_empty : ({} : Arbiter).Orderly where
  ascending := List.Pairwise.nil
  given := nofun
  sole := nofun
  entitled := nofun
  reserved := nofun
  oneWriter := nofun
  torn := nofun

theorem succeeds_perform {l : Ledger} (h : l.arbiter.Orderly) (op : Operation) :
    l.arbiter.Succeeds (l.perform op).arbiter := by
  rw [perform]
  split
  · exact h.perform op
  · exact h.refl

theorem succeeds_run {l : Ledger} (h : l.arbiter.Orderly) (ops : List Operation) :
    l.arbiter.Succeeds (l.run ops).arbiter := by
  induction ops generalizing l with
  | nil => exact h.refl
  | cons op ops ih =>
    have hs := succeeds_perform h op
    exact hs.trans (ih hs.orderly)

theorem orderly_run (ops : List Operation) : (run {} ops).arbiter.Orderly :=
  (succeeds_run (l := ⟨{}, []⟩) orderly_empty ops).orderly

def arrivals : Ledger → List Operation → List UserId
  | _, [] => []
  | l, op :: ops => (op.arrival? l.arbiter).toList ++ arrivals (l.perform op) ops

/-- An arriving session gets the next id. -/
theorem arrival?_eq_some {op : Operation} {a : Arbiter} (h : op.arrival? a = some id) :
    id = a.nextUser ∧ (op.perform a).2.nextUser = a.nextUser + 1 := by
  cases op <;> try cases h
  case addUser pid writable =>
    rw [Operation.arrival?] at h
    obtain ⟨e, he⟩ | ⟨-, -, hx⟩ := addUser_cases pid writable a
    · rw [he] at h
      cases h
    · rw [hx] at h
      cases h
      rw [Operation.perform, answer_of_ok hx]
      exact ⟨rfl, rfl⟩

/-- Ids are given out in ascending order, each of them once. -/
theorem arrivals_ascending {l : Ledger} (h : l.arbiter.Orderly) (ops : List Operation) :
    (l.arrivals ops).Pairwise (· < ·) ∧ ∀ id ∈ l.arrivals ops,
      l.arbiter.nextUser ≤ id ∧ id < (l.run ops).arbiter.nextUser := by
  induction ops generalizing l with
  | nil => exact ⟨List.Pairwise.nil, nofun⟩
  | cons op ops ih =>
    have hs := succeeds_perform h op
    obtain ⟨hasc, hrange⟩ := ih hs.orderly
    have hrest := (succeeds_run hs.orderly ops).grown
    rw [arrivals]
    cases hop : op.arrival? l.arbiter with
    | none =>
      refine ⟨hasc, fun id hid => ?_⟩
      obtain ⟨hle, hlt⟩ := hrange id hid
      exact ⟨Nat.le_trans hs.grown hle, hlt⟩
    | some first =>
      have hview : op.view? = none := by cases op <;> first | rfl | cases hop
      obtain ⟨rfl, hnext⟩ := arrival?_eq_some hop
      have hnext' : (l.perform op).arbiter.nextUser = l.arbiter.nextUser + 1 := by
        rw [perform, hview]
        exact hnext
      rw [hnext'] at hrest hrange
      refine ⟨List.pairwise_cons.mpr ⟨fun id hid => (hrange id hid).1, hasc⟩, fun id hid => ?_⟩
      rcases List.mem_cons.mp hid with rfl | hid
      · exact ⟨Nat.le_refl _, hrest⟩
      · obtain ⟨hle, hlt⟩ := hrange id hid
        exact ⟨Nat.le_of_succ_le hle, hlt⟩

end Ledger

theorem user?_eq_none_iff : a.user? id = none ↔ ∀ u ∈ a.users, u.id ≠ id := by
  simp only [user?, List.find?_eq_none, beq_iff_eq, ne_eq]

/-- An id that was given out and names no session any more never names one again. -/
theorem Succeeds.user?_eq_none (h : a.Succeeds a') (hlt : id < a.nextUser)
    (hn : a.user? id = none) : a'.user? id = none := by
  rw [user?_eq_none_iff] at hn ⊢
  rintro u hu rfl
  obtain ⟨v, hv, he⟩ := h.known u hu hlt
  exact hn v hv he

/-- Who may reserve, and whom another holder keeps from it. -/
theorem Orderly.reserve_answer (h : a.Orderly) (hl : a.revoked = false) (id : UserId) :
    ((answer (Arbiter.reserve id) a).1 = .ok () ↔
      (∃ u, a.user? id = some u ∧ u.writable = true) ∧
        ∀ v ∈ a.users, v.exclusive = true → v.id = id) ∧
    ((answer (Arbiter.reserve id) a).1 = .error .alreadyReserved ↔
      (∃ u, a.user? id = some u ∧ u.writable = true) ∧
        ∃ v ∈ a.users, v.exclusive = true ∧ v.id ≠ id) := by
  rw [answer, reserve_eq, hl, if_neg Bool.false_ne_true]
  cases hu : a.user? id with
  | none => simp
  | some u =>
    cases hw : u.writable with
    | false => simp [hw]
    | true =>
      cases hh : a.holder? with
      | none =>
        have hfree := holder?_eq_none_iff.mp hh
        simp only [if_true, Option.some.injEq, exists_eq_left', hw, true_and, reduceCtorEq,
          false_iff, true_iff]
        refine ⟨fun v hv hx => ?_, ?_⟩
        · rw [hfree v hv] at hx
          cases hx
        · rintro ⟨v, hv, hx, -⟩
          rw [hfree v hv] at hx
          cases hx
      | some holder =>
        obtain ⟨w, hw', rfl, hx⟩ := h.holder?_eq_some_iff.mp hh
        have honly {v : User} (hv : v ∈ a.users) (hx' : v.exclusive = true) : v = w :=
          h.sole v hv w hw' hx' hx
        by_cases hs : w.id = id
        · simp only [hs, if_true, Option.some.injEq, exists_eq_left', hw, true_and, reduceCtorEq,
            false_iff, true_iff]
          refine ⟨fun v hv hx' => by rw [honly hv hx', hs], ?_⟩
          rintro ⟨v, hv, hx', hne⟩
          exact hne (by rw [honly hv hx', hs])
        · simp only [hs, if_true, if_false, Option.some.injEq, exists_eq_left', hw, true_and,
            reduceCtorEq, false_iff, true_iff]
          exact ⟨fun hall => hs (hall w hw' hx), w, hw', hx, hs⟩

namespace Ledger

/-- Whatever is asked of an arbiter, at most one session holds exclusive access. That session was
opened for writing, no other one uses an exclusive queue, and no two sessions write for one process.
Ids are given out in ascending order, so one that has gone never names a session again. As long as
the arbiter is not torn down, a reservation is granted to a session that may write unless another
session holds exclusive access. -/
theorem sessions_stay_orderly (ops : List Operation) {l : Ledger} (hl : l = Ledger.run {} ops) :
    (∀ u ∈ l.arbiter.users, ∀ v ∈ l.arbiter.users,
      u.exclusive = true → v.exclusive = true → u = v) ∧
    (∀ u ∈ l.arbiter.users, u.exclusive = true → u.writable = true) ∧
    (∀ u ∈ l.arbiter.users, ∀ role : QueueRole, role.isExclusive = true →
      u.queues.contains role = true → u.exclusive = true) ∧
    (∀ u ∈ l.arbiter.users, ∀ v ∈ l.arbiter.users, u.writable = true → v.writable = true →
      u.pid = v.pid → u = v) ∧
    ((l.arbiter.users.map User.id).Pairwise (· < ·) ∧
      (Ledger.arrivals {} ops).Pairwise (· < ·)) ∧
    (∀ id ∈ Ledger.arrivals {} ops, l.arbiter.user? id = none → ∀ later,
      (l.run later).arbiter.user? id = none ∧ id ∉ l.arrivals later) ∧
    (l.arbiter.revoked = false → ∀ id,
      ((answer (reserve id) l.arbiter).1 = .ok () ↔
        (∃ u, l.arbiter.user? id = some u ∧ u.writable = true) ∧
          ∀ v ∈ l.arbiter.users, v.exclusive = true → v.id = id) ∧
      ((answer (reserve id) l.arbiter).1 = .error .alreadyReserved ↔
        (∃ u, l.arbiter.user? id = some u ∧ u.writable = true) ∧
          ∃ v ∈ l.arbiter.users, v.exclusive = true ∧ v.id ≠ id)) := by
  have h : l.arbiter.Orderly := hl ▸ orderly_run ops
  obtain ⟨hasc, hrange⟩ := arrivals_ascending (l := ⟨{}, []⟩) orderly_empty ops
  refine ⟨h.sole, h.entitled, h.reserved, h.oneWriter, ⟨h.ascending, hasc⟩,
    fun id hid hn later => ?_, fun hlive id => h.reserve_answer hlive id⟩
  have hlt : id < l.arbiter.nextUser := hl ▸ (hrange id hid).2
  refine ⟨(succeeds_run h later).user?_eq_none hlt hn, fun hin => ?_⟩
  exact absurd ((arrivals_ascending h later).2 id hin).1 (Nat.not_le_of_lt hlt)

/-- Two sessions that may write, of which the second one reserves and leaves; its process comes back
as a third one, which reserves and uses a queue. -/
private def relieved : List Operation :=
  [.addUser 1 true, .addUser 2 true, .addUser 1 true, .reserve 2, .openQueue .process 2 .send 112,
    .removeUser 2, .addUser 2 true, .reserve 3, .reserve 1, .openQueue .process 3 .send 112]

theorem sessions_stay_orderly_relieved :
    (Ledger.run {} relieved).arbiter.users =
        [{ id := 1, pid := 1, writable := true },
          { id := 3, pid := 2, writable := true, exclusive := true
            queues := QueueSet.empty.insert .send }] ∧
      Ledger.arrivals {} relieved = [1, 2, 3] ∧
      (∀ later, ((Ledger.run {} relieved).run later).arbiter.user? 2 = none) ∧
      (answer (reserve 3) (Ledger.run {} relieved).arbiter).1 = .ok () ∧
      (answer (reserve 1) (Ledger.run {} relieved).arbiter).1 = .error .alreadyReserved := by
  have hu : (Ledger.run {} relieved).arbiter.users =
      [{ id := 1, pid := 1, writable := true },
        { id := 3, pid := 2, writable := true, exclusive := true
          queues := QueueSet.empty.insert .send }] := by decide +kernel
  have ha : Ledger.arrivals {} relieved = [1, 2, 3] := by decide +kernel
  have hr : (Ledger.run {} relieved).arbiter.revoked = false := by decide +kernel
  obtain ⟨-, -, -, -, -, hgone, hreserve⟩ := sessions_stay_orderly relieved rfl
  refine ⟨hu, ha, fun later => (hgone 2 (by simp [ha]) ?_ later).1, (hreserve hr 3).1.mpr ?_,
    (hreserve hr 1).2.mpr ?_⟩
  · rw [user?_eq_none_iff, hu]
    simp
  · rw [user?, hu]
    simp
  · rw [user?, hu]
    simp

end Ledger

end AcceleratorScheduler.Arbiter
