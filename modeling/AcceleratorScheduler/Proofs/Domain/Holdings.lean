import AcceleratorScheduler.Hardware.Simulation
import AcceleratorScheduler.Proofs.Domain.Naming

/-! A registry in use, with the references to its domains that are out and slots that name them.
Whatever is done, each count is the number of references to the domain, the indexes agree, removing
waits for exactly the slots and the references, and an id that was removed is never found again;
main statement: `counts_and_indexes_exact`. -/
namespace AcceleratorScheduler.Registry

variable {H : Type} [Hardware H] {r r' : Registry H} {id : DomainId} {held held' : List DomainId}

inductive Change (r : Registry H) (held : List DomainId) : Registry H → List DomainId → Prop
  | same : Change r held r held
  | refused {name : String} {timesliceNs preemptGraceNs : Nat} {room : Room} {e : Refusal} {hw : H}
      (ha : add name timesliceNs preemptGraceNs room r = .error e { r with hardware := hw }) :
      Change r held { r with hardware := hw } held
  | added {name : String} {timesliceNs preemptGraceNs : Nat} {room : Room} {subs : List SubDomain}
      {hw : H} (hn : Nameable name) (hl : r.names.lookup name = none)
      (ha : add name timesliceNs preemptGraceNs room r = .ok (r.lastId + 1)
        (r.extended hw ⟨r.lastId + 1, name, timesliceNs, preemptGraceNs, 1, subs⟩)) :
      Change r held
        (r.extended hw ⟨r.lastId + 1, name, timesliceNs, preemptGraceNs, 1, subs⟩) held
  | removed {d : Domain} (hd : r.registered? d.id = some d) (hr : d.refs ≤ 1) :
      Change r held (r.unregistered d) held
  | taken {id : DomainId} (hi : id ∈ held ∨ id ∈ r.index) : Change r held (r.hold id) (id :: held)
  | givenBack {id : DomainId} (hi : id ∈ held) : Change r held (r.drop id) (held.erase id)
  | drained : Change r held r.drain.2 held

theorem change_add (name : String) (timesliceNs preemptGraceNs : Nat) (room : Room) :
    Change r held (answer (add name timesliceNs preemptGraceNs room) r).2 held := by
  rcases add_cases name timesliceNs preemptGraceNs room r with
    ⟨e, hw, -, ha⟩ | ⟨subs, hw, -, hn, hl, ha⟩
  · rw [answer_of_error ha]
    exact .refused ha
  · rw [answer_of_ok ha]
    exact .added hn hl ha

theorem change_remove (id : DomainId) (slots : DomainSlots) :
    Change r held (answer (remove id slots) r).2 held := by
  rcases remove_cases id slots r with ⟨e, he⟩ | ⟨d, hd, -, hr, hx⟩
  · rw [answer_of_error he]
    exact .same
  · rw [answer_of_ok hx]
    exact .removed ((id_of_registered? hd).symm ▸ hd) hr

theorem Change.accounts (hc : Change r held r' held') (h : r.Accounts held) :
    r'.Accounts held' := by
  cases hc with
  | same => exact h
  | refused ha => exact h.of_eq rfl rfl rfl
  | added hn hl ha => exact h.add _ rfl rfl
  | removed hd hr => exact (h.unindex (mem_of_registered? hd).1 _).drop
  | taken hi => exact h.hold hi
  | givenBack hi => exact (h.perm (List.perm_cons_erase hi)).drop
  | drained => exact h.drain

theorem Change.named (hc : Change r held r' held') (ha : r.Accounts held) (h : r.Named) :
    r'.Named := by
  cases hc with
  | same => exact h
  | refused => exact h.of_bears rfl rfl fun _ _ _ => Iff.rfl
  | added hn hl => exact h.add ha _ rfl hn hl
  | removed hd hr => exact h.unregister ha hd
  | taken hi => exact h.hold _
  | givenBack hi => exact h.drop (ha.perm (List.perm_cons_erase hi))
  | drained => exact Named.drain ha

/-- Ids go up, and only ids that were not given out yet are registered. -/
structure Succeeds (r r' : Registry H) : Prop where
  lastId : r.lastId ≤ r'.lastId
  fresh : ∀ id ∈ r'.index, id ∈ r.index ∨ r.lastId < id

theorem Change.succeeds (hc : Change r held r' held') : r.Succeeds r' := by
  have hold {r' : Registry H} (hl : r'.lastId = r.lastId) (hi : ∀ id ∈ r'.index, id ∈ r.index) :
      r.Succeeds r' := ⟨Nat.le_of_eq hl.symm, fun id hm => .inl (hi id hm)⟩
  cases hc with
  | same => exact hold rfl fun _ hm => hm
  | refused => exact hold rfl fun _ hm => hm
  | added =>
    refine ⟨Nat.le_succ _, fun id hm => (List.mem_append.mp hm).imp_right fun hm => ?_⟩
    rw [List.mem_singleton.mp hm]
    exact Nat.lt_succ_self _
  | @removed d =>
    refine hold (lastId_unregistered r d) fun id hm => ?_
    rw [index_unregistered] at hm
    exact List.mem_of_mem_erase hm
  | taken => exact hold rfl fun _ hm => hm
  | @givenBack k =>
    refine hold (lastId_drop k r) fun id hm => ?_
    rwa [index_drop] at hm
  | drained =>
    refine hold (lastId_drain r) fun id hm => ?_
    rw [index_drain] at hm
    cases hm

def Retired (r : Registry H) (id : DomainId) : Prop := id ≤ r.lastId ∧ id ∉ r.index

omit [Hardware H] in
theorem Retired.succeeds (h : r.Retired id) (hs : r.Succeeds r') : r'.Retired id := by
  refine ⟨Nat.le_trans h.1 hs.lastId, fun hm => ?_⟩
  rcases hs.fresh id hm with hm | hl
  · exact h.2 hm
  · exact Nat.not_le_of_lt hl h.1

theorem Accounts.retired_of_remove (h : r.Accounts held) {slots : DomainSlots}
    (hr : (answer (remove id slots) r).1 = .ok ()) :
    (answer (remove id slots) r).2.Retired id := by
  rcases remove_cases id slots r with ⟨e, he⟩ | ⟨d, hd, -, -, hx⟩
  · rw [answer_of_error he] at hr
    cases hr
  · obtain rfl := id_of_registered? hd
    rw [answer_of_ok hx]
    refine ⟨?_, ?_⟩
    · rw [lastId_unregistered]
      exact h.le_lastId (.inr (mem_of_registered? hd).1)
    · rw [index_unregistered]
      exact h.once.not_mem_erase

omit [Hardware H] in
theorem Retired.lookupId (h : r.Retired id) : lookupId id r = .error .notFound r := by
  refine lookupId_missing ?_
  rw [registered?, isIndexed, if_neg (mt List.contains_iff_mem.mp h.2)]

/-- Requests to the registry, and uses of the slots that stand under a number. -/
inductive Operation where
  | add (name : String) (timesliceNs preemptGraceNs : Nat) (room : Room := {})
  | remove (id : DomainId) (slot : Nat)
  | lookupId (id : DomainId)
  | lookupName (name : String)
  | copy (id : DomainId)
  | giveBack (id : DomainId)
  | stage (slot : Nat) (id : DomainId)
  | promote (slot : Nat)
  | discardShadow (slot : Nat) (id : DomainId)
  | clear (slot : Nat)
  | drain

/-- A registry, the references to its domains that are out, and numbered slots beside it. -/
structure Holdings (H : Type) where
  registry : Registry H
  held : List DomainId := []
  slots : Nat → DomainSlots

namespace Holdings

variable {s s' : Holdings H}

omit [Hardware H] in
def refer (s : Holdings H) (task : Task H DomainId) : Holdings H :=
  match task s.registry with
  | .ok id registry => { s with registry, held := id :: s.held }
  | .error _ registry => { s with registry }

def setSlots (s : Holdings H) (slot : Nat) (slots : DomainSlots) : Holdings H :=
  { s with slots := fun i => if i = slot then slots else s.slots i }

/-- What an operation leaves. A reference can be copied and given back only while it is held. -/
def perform (s : Holdings H) : Operation → Holdings H
  | .add name timesliceNs preemptGraceNs room =>
    { s with registry := (answer (add name timesliceNs preemptGraceNs room) s.registry).2 }
  | .remove id slot => { s with registry := (answer (remove id (s.slots slot)) s.registry).2 }
  | .lookupId id => s.refer (Registry.lookupId id)
  | .lookupName name => s.refer (Registry.lookupName name)
  | .copy id =>
    if id ∈ s.held then { s with registry := s.registry.hold id, held := id :: s.held } else s
  | .giveBack id =>
    if id ∈ s.held then { s with registry := s.registry.drop id, held := s.held.erase id } else s
  | .stage slot id =>
    match s.registry.stage (s.slots slot) id with
    | .ok slots => s.setSlots slot slots
    | .error _ => s
  | .promote slot => s.setSlots slot (s.registry.promote (s.slots slot)).2
  | .discardShadow slot id => s.setSlots slot ((s.slots slot).discardShadow id).2
  | .clear slot => s.setSlots slot {}
  | .drain => { s with registry := s.registry.drain.2 }

def run (s : Holdings H) (ops : List Operation) : Holdings H := ops.foldl perform s

theorem change_refer {task : Task H DomainId}
    (hc : (∃ e, task s.registry = .error e s.registry) ∨
      ∃ id d, s.registry.registered? id = some d ∧
        task s.registry = .ok id (s.registry.hold id)) :
    Change s.registry s.held (s.refer task).registry (s.refer task).held := by
  rcases hc with ⟨e, he⟩ | ⟨id, d, hd, hx⟩
  · rw [refer, he]
    exact .same
  · rw [refer, hx]
    exact .taken (.inr (mem_of_registered? hd).1)

theorem change_perform (s : Holdings H) (op : Operation) :
    Change s.registry s.held (s.perform op).registry (s.perform op).held := by
  cases op with
  | add name timesliceNs preemptGraceNs room =>
    exact change_add name timesliceNs preemptGraceNs room
  | remove id slot => exact change_remove id _
  | lookupId id =>
    refine change_refer ((lookupId_cases id _).imp_right ?_)
    exact fun ⟨d, hd, hx⟩ => ⟨id, d, hd, hx⟩
  | lookupName name =>
    refine change_refer ((lookupName_cases name _).imp_right ?_)
    exact fun ⟨id, d, _, hd, hx⟩ => ⟨id, d, hd, hx⟩
  | copy id =>
    rw [perform]
    split
    next hi => exact .taken (.inl hi)
    next => exact .same
  | giveBack id =>
    rw [perform]
    split
    next hi => exact .givenBack hi
    next => exact .same
  | stage slot id =>
    rw [perform]
    split <;> exact .same
  | promote slot => exact .same
  | discardShadow slot id => exact .same
  | clear slot => exact .same
  | drain => exact .drained

structure Tracked (s : Holdings H) : Prop where
  accounts : s.registry.Accounts s.held
  named : s.registry.Named

theorem Tracked.change (h : s.Tracked) (hc : Change s.registry s.held s'.registry s'.held) :
    s'.Tracked :=
  ⟨hc.accounts h.accounts, hc.named h.accounts h.named⟩

theorem tracked_run (hs : s.Tracked) (ops : List Operation) : (s.run ops).Tracked := by
  induction ops generalizing s with
  | nil => exact hs
  | cons op ops ih => exact ih (hs.change (change_perform s op))

theorem retired_run (hr : s.registry.Retired id) (ops : List Operation) :
    (s.run ops).registry.Retired id := by
  induction ops generalizing s with
  | nil => exact hr
  | cons op ops ih => exact ih (hr.succeeds (change_perform s op).succeeds)

def opened (hw : H) (slots : Nat → DomainSlots) : Holdings H where
  registry := { hardware := hw }
  slots := slots

omit [Hardware H] in
theorem tracked_opened (hw : H) (slots : Nat → DomainSlots) : (opened hw slots).Tracked :=
  ⟨.empty hw, .of_empty rfl rfl⟩

/-- Throughout, a count is the number of references to the domain that are out, and one more while
it is registered; ids and names stand for the same domains; a domain can be removed once neither
slot names it and no reference to it is out; and a removed id is never found again, though its name
may be. -/
theorem counts_and_indexes_exact (hw : H) (initial : Nat → DomainSlots) (ops : List Operation)
    {s : Holdings H} (hs : s = (opened hw initial).run ops) :
    (∀ id, s.registry.refCount id = s.held.count id + if s.registry.isIndexed id then 1 else 0) ∧
    s.registry.IndexesAgree ∧
    (∀ id slots, (answer (remove id slots) s.registry).1 =
      if s.registry.isIndexed id then
        if slots.references id = true ∨ id ∈ s.held then .error .busy else .ok ()
      else .error .notFound) ∧
    ∀ id slots, (answer (remove id slots) s.registry).1 = .ok () → ∀ later,
      let r := (run { s with registry := (answer (remove id slots) s.registry).2 } later).registry
      Registry.lookupId id r = .error .notFound r := by
  have ht : s.Tracked := hs ▸ tracked_run (tracked_opened hw initial) ops
  refine ⟨ht.accounts.refCount_eq, ht.named.indexesAgree ht.accounts, ht.accounts.answer_remove,
    fun id slots hr later => ?_⟩
  exact (retired_run (ht.accounts.retired_of_remove hr) later).lookupId

/-- A domain that is held twice, and given back both times. -/
private def used : Holdings HostSimulation :=
  (opened {} fun _ => {}).run [.add "first" 1000 0, .lookupName "first", .copy 1, .stage 0 1,
    .remove 1 1, .giveBack 1, .giveBack 1, .remove 1 0]

/-- The domain goes, and another one gets its name. -/
theorem counts_and_indexes_exact_renewed :
    (answer (remove 1 (used.slots 0)) used.registry).1 = .error .busy ∧
      (answer (remove 1 {}) used.registry).1 = .ok () ∧
      let r := (run { used with registry := (answer (remove 1 {}) used.registry).2 }
        [.add "first" 1000 0]).registry
      r.names.lookup "first" = some 2 ∧ Registry.lookupId 1 r = .error .notFound r := by
  have hr : (answer (remove 1 {}) used.registry).1 = .ok () := by decide +kernel
  obtain ⟨-, -, -, hlater⟩ := counts_and_indexes_exact {} (fun _ => {}) _ (show used = _ from rfl)
  exact ⟨by decide +kernel, hr, by decide +kernel, hlater 1 {} hr [.add "first" 1000 0]⟩

end Holdings

end AcceleratorScheduler.Registry
