import AcceleratorScheduler.Proofs.Domain.SubDomains

/-! Domains that are added, or are not. A refused addition leaves the registry as it was and the
hardware with nothing more handed out than before; ids go to the additions that succeed, one after
the other, whatever happens in between. Main statement: `additions_whole_and_numbered`. -/
namespace AcceleratorScheduler.Registry

variable {H : Type} [Hardware H]

/-- The hardware handed out sub-domains on the first few of its runlists and refused the next one,
and those that it had handed out went back in the same order. -/
def Unwound (id : DomainId) (name : String) (runlists : Nat) (e : Refusal)
    (calls calls' : List HardwareCall) : Prop :=
  ∃ subs : List SubDomain, subs.length < runlists ∧
    calls' = calls ++ grants id name (List.range subs.length) subs ++
      .allocate subs.length id name (.error e) :: subs.map .release

/-- The hardware handed out the domain's sub-domains, one for each runlist in order. -/
def Furnished (d : Domain) (runlists : Nat) (calls calls' : List HardwareCall) : Prop :=
  d.subDomains.length = runlists ∧
    calls' = calls ++ grants d.id d.name (List.range runlists) d.subDomains

/-- A beginning of the runlists is the first few of them. -/
theorem range_of_append {n k : Nat} {first rest : List Nat}
    (h : List.range n = first ++ k :: rest) : first.length < n ∧ k = first.length ∧
      first = List.range first.length := by
  have hlen := congrArg List.length h
  rw [List.length_range, List.length_append, List.length_cons] at hlen
  have hlt : first.length < n := by omega
  refine ⟨hlt, ?_, ?_⟩
  · have hget := congrArg (fun l => l[first.length]?) h
    simp only [List.getElem?_range hlt, List.getElem?_append_right (Nat.le_refl _), Nat.sub_self,
      List.getElem?_cons_zero, Option.some.injEq] at hget
    exact hget.symm
  · have htake := congrArg (List.take first.length) h
    rw [List.take_left, List.take_range, Nat.min_eq_left (Nat.le_of_lt hlt)] at htake
    exact htake.symm

section

variable {r : Registry (Recorded H)} {name : String} {timesliceNs preemptGraceNs : Nat}
  {room : Room}

/-- What the hardware is asked for a new domain, and what comes of it. -/
theorem claimed_calls {answer : Except Refusal (List SubDomain)} {hw : Recorded H}
    (h : r.claimed name = (answer, hw)) :
    (∃ subs, answer = .ok subs ∧ subs.length = Hardware.runlistCount r.hardware ∧
      hw.calls = r.hardware.calls ++
        grants (r.lastId + 1) name (List.range (Hardware.runlistCount r.hardware)) subs) ∨
    ∃ e, answer = .error e ∧ Unwound (r.lastId + 1) name (Hardware.runlistCount r.hardware) e
      r.hardware.calls hw.calls := by
  obtain ⟨subs, rfl, hl, hc⟩ | ⟨subs, first, runlist, rest, e, rfl, hr, hl, hc⟩ :=
    calls_allocateAll h
  · rw [List.length_range] at hl
    exact .inl ⟨subs, rfl, hl, hc⟩
  · obtain ⟨hlt, rfl, hfirst⟩ := range_of_append hr
    rw [hfirst, ← hl] at hc
    rw [List.length_range] at hc
    exact .inr ⟨e, rfl, subs, hl ▸ hlt, hc⟩

/-- A refusal is that of the name, or memory's that has no room for the domain, before the hardware
is asked, or the hardware's own. -/
theorem add_refused {e : Refusal} {r' : Registry (Recorded H)}
    (h : add name timesliceNs preemptGraceNs room r = .error e r') :
    r' = { r with hardware := r'.hardware } ∧
      ((e = .invalidArgument ∧ ¬ Nameable name ∨
          e = .duplicateName ∧ (r.names.lookup name).isSome = true ∨
          e = .outOfMemory ∧ (room.name && room.subDomains) = false) ∧
          r'.hardware = r.hardware ∨
        Unwound (r.lastId + 1) name (Hardware.runlistCount r.hardware) e r.hardware.calls
          r'.hardware.calls) := by
  by_cases hn : Nameable name
  · cases hl : r.names.lookup name with
    | some id =>
      cases (add_duplicate timesliceNs preemptGraceNs room hn hl).symm.trans h
      exact ⟨rfl, .inl ⟨.inr (.inl ⟨rfl, rfl⟩), rfl⟩⟩
    | none =>
      cases hr : room.name && room.subDomains with
      | false =>
        cases (add_crowded timesliceNs preemptGraceNs hn hl hr).symm.trans h
        exact ⟨rfl, .inl ⟨.inr (.inr ⟨rfl, rfl⟩), rfl⟩⟩
      | true =>
        obtain ⟨e', hw, hc, he⟩ | ⟨subs, hw, -, ho⟩ :=
          add_new timesliceNs preemptGraceNs hn hl hr
        · cases he.symm.trans h
          obtain ⟨subs, hno, -⟩ | ⟨e, he, hu⟩ := claimed_calls hc
          · cases hno
          · cases he
            exact ⟨rfl, .inr hu⟩
        · cases ho.symm.trans h
  · cases (add_unnameable timesliceNs preemptGraceNs room hn).symm.trans h
    exact ⟨rfl, .inl ⟨.inl ⟨rfl, hn⟩, rfl⟩⟩

/-- A domain that is added gets the next id and a sub-domain for each runlist. -/
theorem add_granted {id : DomainId} {r' : Registry (Recorded H)}
    (h : add name timesliceNs preemptGraceNs room r = .ok id r') :
    id = r.lastId + 1 ∧ ∃ subs,
      r' = r.extended r'.hardware ⟨id, name, timesliceNs, preemptGraceNs, 1, subs⟩ ∧
      Furnished ⟨id, name, timesliceNs, preemptGraceNs, 1, subs⟩
        (Hardware.runlistCount r.hardware) r.hardware.calls r'.hardware.calls ∧
      (Hardware.Echoes H →
        subs.map SubDomain.runlist = List.range (Hardware.runlistCount r.hardware)) := by
  obtain ⟨e, he⟩ | ⟨e, hw, -, he⟩ | ⟨subs, hw, hc, -, -, ho⟩ :=
    add_claims name timesliceNs preemptGraceNs room r
  · cases he.symm.trans h
  · cases he.symm.trans h
  · cases ho.symm.trans h
    refine ⟨rfl, subs, rfl, ?_, fun hecho => runlists_allocateAll (Recorded.echoes hecho) hc⟩
    obtain ⟨_, hk, hl, hcalls⟩ | ⟨e, hno, -⟩ := claimed_calls hc
    · cases hk
      exact ⟨hl, hcalls⟩
    · cases hno

end

def Operation.addition? : Operation → Registry H → Option DomainId
  | add name timesliceNs preemptGraceNs room, r =>
    match Registry.add name timesliceNs preemptGraceNs room r with
    | .ok id _ => some id
    | .error _ _ => none
  | _, _ => none

namespace Holdings

def added : Holdings H → List Operation → List DomainId
  | _, [] => []
  | s, op :: ops => (op.addition? s.registry).toList ++ added (s.perform op) ops

variable {s : Holdings H} {op : Operation}

omit [Hardware H] in
theorem lastId_refer {task : Task H DomainId}
    (hc : (∃ e, task s.registry = .error e s.registry) ∨
      ∃ id, task s.registry = .ok id (s.registry.hold id)) :
    (s.refer task).registry.lastId = s.registry.lastId := by
  rcases hc with ⟨e, he⟩ | ⟨id, hx⟩
  · rw [refer, he]
  · rw [refer, hx]
    rfl

/-- An id that is given out is the next one. -/
theorem lastId_of_addition {id : DomainId} (h : op.addition? s.registry = some id) :
    id = s.registry.lastId + 1 ∧ (s.perform op).registry.lastId = s.registry.lastId + 1 := by
  cases op <;> try cases h
  case add name timesliceNs preemptGraceNs room =>
    rw [Operation.addition?] at h
    obtain ⟨e, he⟩ | ⟨e, hw, -, he⟩ | ⟨subs, hw, -, -, -, ho⟩ :=
      add_claims name timesliceNs preemptGraceNs room s.registry
    · rw [he] at h
      cases h
    · rw [he] at h
      cases h
    · rw [ho] at h
      cases h
      rw [perform, answer_of_ok ho]
      exact ⟨rfl, rfl⟩

/-- No other operation uses an id up, and no addition that fails does. -/
theorem lastId_of_no_addition (h : op.addition? s.registry = none) :
    (s.perform op).registry.lastId = s.registry.lastId := by
  cases op with
  | add name timesliceNs preemptGraceNs room =>
    rw [Operation.addition?] at h
    obtain ⟨e, he⟩ | ⟨e, hw, -, he⟩ | ⟨subs, hw, -, -, -, ho⟩ :=
      add_claims name timesliceNs preemptGraceNs room s.registry
    · rw [perform, answer_of_error he]
    · rw [perform, answer_of_error he]
    · rw [ho] at h
      cases h
  | remove id slot =>
    obtain ⟨e, he⟩ | ⟨d, -, -, -, hx⟩ := remove_cases id (s.slots slot) s.registry
    · rw [perform, answer_of_error he]
    · rw [perform, answer_of_ok hx]
      exact lastId_unregistered s.registry d
  | lookupId id =>
    refine lastId_refer ((lookupId_cases id _).imp_right ?_)
    rintro ⟨d, -, hx⟩
    exact ⟨id, hx⟩
  | lookupName name =>
    refine lastId_refer ((lookupName_cases name _).imp_right ?_)
    rintro ⟨id, d, -, -, hx⟩
    exact ⟨id, hx⟩
  | copy id =>
    rw [perform]
    split <;> rfl
  | giveBack id =>
    rw [perform]
    split
    · exact lastId_drop id s.registry
    · rfl
  | stage slot id =>
    rw [perform]
    split <;> rfl
  | promote | discardShadow | clear => rfl
  | drain => exact lastId_drain s.registry

/-- The ids of a run follow the last one of before, without a gap. -/
theorem added_eq_range (s : Holdings H) (ops : List Operation) :
    s.added ops = List.range' (s.registry.lastId + 1) (s.added ops).length ∧
      (s.run ops).registry.lastId = s.registry.lastId + (s.added ops).length := by
  induction ops generalizing s with
  | nil => exact ⟨rfl, rfl⟩
  | cons op ops ih =>
    obtain ⟨hids, hlast⟩ := ih (s.perform op)
    have hrun : s.run (op :: ops) = (s.perform op).run ops := rfl
    rw [added, hrun]
    cases hop : op.addition? s.registry with
    | none =>
      rw [lastId_of_no_addition hop] at hids hlast
      exact ⟨hids, hlast⟩
    | some id =>
      obtain ⟨rfl, hnext⟩ := lastId_of_addition hop
      rw [hnext] at hids hlast
      rw [Option.toList_some, List.singleton_append, List.length_cons]
      refine ⟨?_, hlast.trans (Nat.add_right_comm _ _ _)⟩
      rw [List.range'_succ, ← hids]

/-- An addition that fails leaves ids, names, counts, references and slots as they were. Either the
hardware was not asked, since the name was refused or memory had no room for the domain, or the
hardware refused a sub-domain, and then it has got back each of those that it had handed out, in the
same order. An addition that succeeds brings a domain with a sub-domain for every runlist in order,
and on that runlist if the hardware names what it was asked for. The ids of a run are 1, 2, 3 and so
on, whatever failed or was removed or drained in between. -/
theorem additions_whole_and_numbered (hw : H) (initial : Nat → DomainSlots)
    (ops : List Operation) {s : Holdings (Recorded H)}
    (hs : s = (opened ({ hardware := hw } : Recorded H) initial).run ops) :
    (∀ name timesliceNs preemptGraceNs room e r',
      add name timesliceNs preemptGraceNs room s.registry = .error e r' →
        s.perform (.add name timesliceNs preemptGraceNs room) =
          { s with registry := { s.registry with hardware := r'.hardware } } ∧
        ((e = .invalidArgument ∧ ¬ Nameable name ∨
            e = .duplicateName ∧ (s.registry.names.lookup name).isSome = true ∨
            e = .outOfMemory ∧ (room.name && room.subDomains) = false) ∧
            r'.hardware = s.registry.hardware ∨
          Unwound (s.registry.lastId + 1) name (Hardware.runlistCount s.registry.hardware) e
            s.registry.hardware.calls r'.hardware.calls)) ∧
    (∀ name timesliceNs preemptGraceNs room id r',
      add name timesliceNs preemptGraceNs room s.registry = .ok id r' →
        id = s.registry.lastId + 1 ∧ ∃ subs,
          r' = s.registry.extended r'.hardware ⟨id, name, timesliceNs, preemptGraceNs, 1, subs⟩ ∧
          Furnished ⟨id, name, timesliceNs, preemptGraceNs, 1, subs⟩
            (Hardware.runlistCount s.registry.hardware) s.registry.hardware.calls
            r'.hardware.calls ∧
          (Hardware.Echoes H → subs.map SubDomain.runlist =
            List.range (Hardware.runlistCount s.registry.hardware))) ∧
    let ids := (opened ({ hardware := hw } : Recorded H) initial).added ops
    ids = List.range' 1 ids.length ∧ s.registry.lastId = ids.length := by
  refine ⟨fun name timesliceNs preemptGraceNs room e r' h => ?_,
    fun name timesliceNs preemptGraceNs room id r' h => add_granted h, ?_⟩
  · obtain ⟨hsame, hwhy⟩ := add_refused h
    refine ⟨?_, hwhy⟩
    rw [perform, answer_of_error h]
    exact congrArg (fun registry => ({ s with registry } : Holdings (Recorded H))) hsame
  · obtain ⟨hids, hlast⟩ := added_eq_range (opened ({ hardware := hw } : Recorded H) initial) ops
    refine ⟨hids, ?_⟩
    rw [hs, hlast]
    exact Nat.zero_add _

private def scarce : Bench := { runlists := 3, failingRunlist := some (2, .outOfMemory) }

private def faltering : Holdings (Recorded Bench) :=
  (opened { hardware := scarce } fun _ => {}).run [.add "first" 1000 0]

private def plentiful : Holdings (Recorded HostSimulation) :=
  opened { hardware := {} } fun _ => {}

/-- Names that are refused or find no room, a domain that is removed and a registry that is
drained. -/
private def interrupted : List Operation :=
  [.add "first" 1000 0, .add "first" 1000 0, .remove 1 0, .add "" 1000 0,
    .add "second" 1000 0 { subDomains := false }, .add "second" 1000 0, .lookupName "second",
    .drain, .add "second" 1000 0]

theorem echoes_hostSimulation : Hardware.Echoes HostSimulation := by
  intro hw hw' runlist id name sub h
  cases h
  rfl

theorem additions_whole_and_numbered_faltering :
    (∃ r', add "second" 1000 0 {} faltering.registry = .error .outOfMemory r' ∧
      Unwound 1 "second" 3 .outOfMemory faltering.registry.hardware.calls r'.hardware.calls) ∧
    (∃ r' subs, add "third" 1000 0 {} plentiful.registry = .ok 1 r' ∧
      r' = plentiful.registry.extended r'.hardware ⟨1, "third", 1000, 0, 1, subs⟩ ∧
      subs.map SubDomain.runlist = [0, 1]) ∧
    plentiful.added interrupted = [1, 2, 3] := by
  have hfails : (answer (add "second" 1000 0) faltering.registry).1 = .error .outOfMemory := by
    decide +kernel
  have hgrants : (answer (add "third" 1000 0) plentiful.registry).1 = .ok 1 := by decide +kernel
  have hlast : faltering.registry.lastId = 0 := by decide +kernel
  have hrunlists : Hardware.runlistCount faltering.registry.hardware = 3 := by decide +kernel
  have hcount : (plentiful.added interrupted).length = 3 := by decide +kernel
  obtain ⟨hrefused, -, -⟩ := additions_whole_and_numbered scarce (fun _ => {})
    [.add "first" 1000 0] (s := faltering) rfl
  obtain ⟨-, hgranted, -⟩ := additions_whole_and_numbered ({} : HostSimulation) (fun _ => {})
    [] (s := plentiful) rfl
  obtain ⟨-, -, hids, -⟩ := additions_whole_and_numbered ({} : HostSimulation) (fun _ => {})
    interrupted (s := plentiful.run interrupted) rfl
  refine ⟨?_, ?_, hids.trans (congrArg (List.range' 1) hcount)⟩
  · cases h : add "second" 1000 0 {} faltering.registry with
    | ok id r' =>
      rw [answer_of_ok h] at hfails
      cases hfails
    | error e r' =>
      rw [answer_of_error h] at hfails
      cases hfails
      obtain ⟨-, ⟨⟨hno, -⟩ | ⟨hno, -⟩ | ⟨-, hno⟩, -⟩ | hunwound⟩ := hrefused _ _ _ _ _ _ h
      · cases hno
      · cases hno
      · cases hno
      · rw [hlast, hrunlists] at hunwound
        exact ⟨r', rfl, hunwound⟩
  · cases h : add "third" 1000 0 {} plentiful.registry with
    | ok id r' =>
      rw [answer_of_ok h] at hgrants
      cases hgrants
      obtain ⟨-, subs, hadded, -, hnamed⟩ := hgranted _ _ _ _ _ _ h
      exact ⟨r', subs, rfl, hadded, hnamed echoes_hostSimulation⟩
    | error e r' =>
      rw [answer_of_error h] at hgrants
      cases hgrants

/-- A bench with as many runlists as can be numbered, which is busy from the first one on. -/
private def sprawling : Holdings (Recorded Bench) :=
  opened { hardware := { runlists := UInt32.size - 1, failingRunlist := some (0, .busy) } }
    fun _ => {}

/-- A name that may be had is refused, and not by the hardware, which is never asked: memory has no
room for the list of the sub-domains. -/
theorem addition_without_room :
    add "compute" 1000000 50000 { subDomains := false } sprawling.registry =
        .error .outOfMemory sprawling.registry ∧
      Nameable "compute" ∧ sprawling.registry.names.lookup "compute" = none ∧
      ¬ Unwound 1 "compute" (UInt32.size - 1) .outOfMemory sprawling.registry.hardware.calls
        sprawling.registry.hardware.calls := by
  have hname : Nameable "compute" := ⟨by decide, by decide⟩
  refine ⟨add_crowded 1000000 50000 hname rfl rfl, hname, rfl, ?_⟩
  rintro ⟨subs, -, hcalls⟩
  simp [sprawling, opened] at hcalls

end Holdings

end AcceleratorScheduler.Registry
