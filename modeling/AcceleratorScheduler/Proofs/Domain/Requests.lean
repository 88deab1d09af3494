import AcceleratorScheduler.Proofs.Domain.Accounts
import AcceleratorScheduler.Proofs.Hardware.Residency

/-! Requests to the registry, each with what it leaves: the counts stay right, and no request
applies a domain to the hardware. -/
namespace AcceleratorScheduler.Registry

open Hardware (Quiet)

variable {H : Type} [Hardware H] {r : Registry H} {id : DomainId} {d : Domain}
  {held : List DomainId}

theorem calls_releaseAll (subs : List SubDomain) (hw : Recorded H) :
    (releaseAll subs hw).calls = hw.calls ++ subs.map .release := by
  induction subs generalizing hw with
  | nil => exact (List.append_nil _).symm
  | cons sub subs ih =>
    refine (ih _).trans ?_
    change (hw.calls ++ [HardwareCall.release sub]) ++ _ = _
    rw [List.append_assoc]
    rfl

/-- The calls in which the hardware, asked on these runlists, hands sub-domains out to a domain. -/
def grants (id : DomainId) (name : String) (runlists : List Nat) (subs : List SubDomain) :
    List HardwareCall :=
  List.zipWith (fun runlist sub => .allocate runlist id name (.ok sub)) runlists subs

/-- Sub-domains are asked for runlist by runlist, up to the first one that is refused. Then those
obtained so far go back in the same order. The induction is on the runlists to come. -/
theorem calls_allocateAll {name : String} {runlists : List Nat} {held : List SubDomain}
    {answer : Except Refusal (List SubDomain)} {hw hw' : Recorded H}
    (ha : allocateAll id name runlists held hw = (answer, hw')) :
    (∃ subs, answer = .ok (held ++ subs) ∧ subs.length = runlists.length ∧
      hw'.calls = hw.calls ++ grants id name runlists subs) ∨
    ∃ subs first runlist rest e, answer = .error e ∧
      runlists = first ++ runlist :: rest ∧ subs.length = first.length ∧
      hw'.calls = hw.calls ++ grants id name first subs ++
        .allocate runlist id name (.error e) :: (held ++ subs).map .release := by
  induction runlists generalizing held hw with
  | nil =>
    cases ha
    exact .inl ⟨[], by rw [List.append_nil], rfl, (List.append_nil _).symm⟩
  | cons runlist runlists ih =>
    rw [allocateAll] at ha
    rcases hanswer : Hardware.allocate hw.hardware runlist id name with ⟨e | sub, raw⟩
    · have hasked : Hardware.allocate hw runlist id name =
          (.error e, hw.note raw (.allocate runlist id name (.error e))) := by
        simp only [Hardware.allocate, hanswer]
      rw [hasked] at ha
      cases ha
      refine .inr ⟨[], [], runlist, runlists, e, rfl, rfl, rfl, ?_⟩
      rw [calls_releaseAll]
      simp [Recorded.note, grants]
    · have hasked : Hardware.allocate hw runlist id name =
          (.ok sub, hw.note raw (.allocate runlist id name (.ok sub))) := by
        simp only [Hardware.allocate, hanswer]
      rw [hasked] at ha
      obtain ⟨subs, rfl, hl, hc⟩ | ⟨subs, first, other, rest, e, rfl, rfl, hl, hc⟩ := ih ha
      · refine .inl ⟨sub :: subs, by simp, by simp [hl], ?_⟩
        simp [hc, Recorded.note, grants]
      · refine .inr ⟨sub :: subs, runlist :: first, other, rest, e, rfl, rfl, by simp [hl], ?_⟩
        simp [hc, Recorded.note, grants]

/-- Hardware that names the runlists it was asked for gives one sub-domain on each, in order. -/
theorem runlists_allocateAll (hecho : Hardware.Echoes H) {name : String} {runlists : List Nat}
    {held subs : List SubDomain} {hw hw' : H}
    (ha : allocateAll id name runlists held hw = (.ok subs, hw')) :
    subs.map SubDomain.runlist = held.map SubDomain.runlist ++ runlists := by
  induction runlists generalizing held hw with
  | nil =>
    cases ha
    exact (List.append_nil _).symm
  | cons runlist runlists ih =>
    rw [allocateAll] at ha
    rcases hanswer : Hardware.allocate hw runlist id name with ⟨e | sub, next⟩
    · rw [hanswer] at ha
      cases ha
    · rw [hanswer] at ha
      rw [ih ha, List.map_append, List.append_assoc, ← hecho hw next runlist id name sub hanswer]
      rfl

section

variable {P : H → Prop}
  (hrelease : ∀ {hw : H} (sub : SubDomain), P hw → P (Hardware.release hw sub))

include hrelease

/-- What the hardware keeps whenever a sub-domain is given back, it keeps when several are. -/
theorem keeps_releaseAll (subs : List SubDomain) {hw : H} (h : P hw) : P (releaseAll subs hw) := by
  induction subs generalizing hw with
  | nil => exact h
  | cons sub subs ih => exact ih (hrelease sub h)

theorem keeps_allocateAll
    (hallocate : ∀ {hw : H} (runlist : Nat) (id : DomainId) (name : String), P hw →
      P (Hardware.allocate hw runlist id name).2)
    (id : DomainId) (name : String) (runlists : List Nat) (subs : List SubDomain) {hw : H}
    (h : P hw) : P (allocateAll id name runlists subs hw).2 := by
  induction runlists generalizing subs hw with
  | nil => exact h
  | cons runlist runlists ih =>
    have hnext := hallocate runlist id name h
    rcases ha : Hardware.allocate hw runlist id name with ⟨_ | sub, hw'⟩
    · rw [ha] at hnext
      simp only [allocateAll, ha]
      exact keeps_releaseAll hrelease _ hnext
    · rw [ha] at hnext
      simp only [allocateAll, ha]
      exact ih _ hnext

theorem keeps_drop (id : DomainId) (h : P r.hardware) : P (r.drop id).hardware := by
  rw [drop]
  split
  · exact h
  · split
    · exact keeps_releaseAll hrelease _ h
    · exact h

end

theorem quiet_drop (id : DomainId) (r : Registry H) : Quiet r.hardware (r.drop id).hardware :=
  keeps_drop (P := Quiet r.hardware) .release id .refl

theorem index_drop (id : DomainId) (r : Registry H) : (r.drop id).index = r.index := by
  rw [drop]
  split
  · rfl
  · split <;> rfl

theorem lastId_drop (id : DomainId) (r : Registry H) : (r.drop id).lastId = r.lastId := by
  rw [drop]
  split
  · rfl
  · split <;> rfl

/-- What no reference given back changes, draining changes with the indexes only. -/
theorem drain_eq_of_drop {α : Type} {f : Registry H → α} (hf : ∀ id r, f (drop id r) = f r)
    (r : Registry H) : f r.drain.2 = f { r with index := [], names := [] } :=
  @drain_induction _ r [] _ (fun r' _ => f r' = f { r with index := [], names := [] }) rfl
    fun id _ h => (hf id _).trans h

theorem index_drain (r : Registry H) : r.drain.2.index = [] := drain_eq_of_drop index_drop r

theorem lastId_drain (r : Registry H) : r.drain.2.lastId = r.lastId :=
  drain_eq_of_drop lastId_drop r

def Nameable (name : String) : Prop := 0 < name.utf8ByteSize ∧ name.utf8ByteSize ≤ Domain.nameLimit

omit [Hardware H] in
theorem nameable_iff {name : String} :
    Nameable name ↔ ¬ (name.isEmpty = true ∨ Domain.nameLimit < name.utf8ByteSize) := by
  have hempty : name.isEmpty = true ↔ name.utf8ByteSize = 0 := by
    rw [String.isEmpty, beq_iff_eq]
  rw [hempty, not_or, Nat.not_lt, ← ne_eq, ← Nat.pos_iff_ne_zero, Nameable]

def claimed (r : Registry H) (name : String) : Except Refusal (List SubDomain) × H :=
  allocateAll (r.lastId + 1) name (List.range (Hardware.runlistCount r.hardware)) [] r.hardware

theorem quiet_claimed (r : Registry H) (name : String) :
    Quiet r.hardware (r.claimed name).2 :=
  keeps_allocateAll (P := Quiet r.hardware) .release .allocate _ _ _ _ .refl

section

variable {name : String} (timesliceNs preemptGraceNs : Nat)

theorem add_unnameable (room : Room) (h : ¬ Nameable name) :
    add name timesliceNs preemptGraceNs room r = .error .invalidArgument r := by
  rw [nameable_iff, not_not] at h
  rw [add, if_pos h]
  rfl

theorem add_duplicate (room : Room) (hn : Nameable name) (hl : r.names.lookup name = some id) :
    add name timesliceNs preemptGraceNs room r = .error .duplicateName r := by
  rw [add, if_neg (nameable_iff.mp hn)]
  refine (bind_ok (get_apply r)).trans ?_
  rw [hl]
  rfl

/-- Without room for the name, or for a list of sub-domains, the hardware is not asked. -/
theorem add_crowded {room : Room} (hn : Nameable name) (hl : r.names.lookup name = none)
    (hr : (room.name && room.subDomains) = false) :
    add name timesliceNs preemptGraceNs room r = .error .outOfMemory r := by
  rw [add, if_neg (nameable_iff.mp hn)]
  refine (bind_ok (get_apply r)).trans ?_
  rw [hl]
  cases hname : room.name with
  | false => rfl
  | true =>
    rw [hname, Bool.true_and] at hr
    rw [hr]
    rfl

/-- A new name for which there is room makes the hardware be asked, whose answer decides. -/
theorem add_new {room : Room} (hn : Nameable name) (hl : r.names.lookup name = none)
    (hr : (room.name && room.subDomains) = true) :
    (∃ e hw, r.claimed name = (.error e, hw) ∧
      add name timesliceNs preemptGraceNs room r = .error e { r with hardware := hw }) ∨
    ∃ subs hw, r.claimed name = (.ok subs, hw) ∧
      add name timesliceNs preemptGraceNs room r = .ok (r.lastId + 1)
        (r.extended hw ⟨r.lastId + 1, name, timesliceNs, preemptGraceNs, 1, subs⟩) := by
  obtain ⟨hname, hsubs⟩ := Bool.and_eq_true_iff.mp hr
  have hask : add name timesliceNs preemptGraceNs room r = (do
      let subs ← claimRunlists (r.lastId + 1) name
      modify fun s => s.extended s.hardware
        ⟨r.lastId + 1, name, timesliceNs, preemptGraceNs, 1, subs⟩
      return r.lastId + 1 : Task H DomainId) r := by
    rw [add, if_neg (nameable_iff.mp hn)]
    refine (bind_ok (get_apply r)).trans ?_
    rw [hl, hname]
    refine (bind_ok (get_apply r)).trans ?_
    rw [hsubs]
    rfl
  rw [hask]
  rcases ha : r.claimed name with ⟨e | subs, hw⟩
  · have hc : claimRunlists (r.lastId + 1) name r = .error e { r with hardware := hw } := by
      rw [claimed] at ha
      simp only [claimRunlists, ha]
    exact .inl ⟨e, hw, rfl, bind_error hc⟩
  · have hc : claimRunlists (r.lastId + 1) name r = .ok subs { r with hardware := hw } := by
      rw [claimed] at ha
      simp only [claimRunlists, ha]
    exact .inr ⟨subs, hw, rfl, (bind_ok hc).trans rfl⟩

end

section

variable (name : String) (timesliceNs preemptGraceNs : Nat) (room : Room)

/-- A name is refused, or found no room for, before the hardware is asked; else its answer
decides. -/
theorem add_claims (r : Registry H) :
    (∃ e, add name timesliceNs preemptGraceNs room r = .error e r) ∨
    (∃ e hw, r.claimed name = (.error e, hw) ∧
      add name timesliceNs preemptGraceNs room r = .error e { r with hardware := hw }) ∨
    ∃ subs hw, r.claimed name = (.ok subs, hw) ∧ Nameable name ∧ r.names.lookup name = none ∧
      add name timesliceNs preemptGraceNs room r = .ok (r.lastId + 1)
        (r.extended hw ⟨r.lastId + 1, name, timesliceNs, preemptGraceNs, 1, subs⟩) := by
  by_cases hn : Nameable name
  · cases hl : r.names.lookup name with
    | some k => exact .inl ⟨_, add_duplicate timesliceNs preemptGraceNs room hn hl⟩
    | none =>
      cases hr : room.name && room.subDomains with
      | false => exact .inl ⟨_, add_crowded timesliceNs preemptGraceNs hn hl hr⟩
      | true =>
        refine .inr ((add_new timesliceNs preemptGraceNs hn hl hr).imp_right ?_)
        exact fun ⟨subs, hw, hc, ho⟩ => ⟨subs, hw, hc, hn, rfl, ho⟩
  · exact .inl ⟨_, add_unnameable timesliceNs preemptGraceNs room hn⟩

/-- Adding a domain asks the hardware for sub-domains, and for nothing else. -/
theorem keeps_add {P : H → Prop}
    (hrelease : ∀ {hw : H} (sub : SubDomain), P hw → P (Hardware.release hw sub))
    (hallocate : ∀ {hw : H} (runlist : Nat) (id : DomainId) (name : String), P hw →
      P (Hardware.allocate hw runlist id name).2)
    (h : P r.hardware) :
    P (answer (add name timesliceNs preemptGraceNs room) r).2.hardware := by
  have hclaimed : P (r.claimed name).2 := keeps_allocateAll hrelease hallocate _ _ _ _ h
  obtain ⟨e, he⟩ | ⟨e, hw, hc, he⟩ | ⟨subs, hw, hc, -, -, ho⟩ :=
    add_claims name timesliceNs preemptGraceNs room r
  · rwa [answer_of_error he]
  · rw [hc] at hclaimed
    rwa [answer_of_error he]
  · rw [hc] at hclaimed
    rwa [answer_of_ok ho]

theorem add_cases (r : Registry H) :
    (∃ e hw, Quiet r.hardware hw ∧
      add name timesliceNs preemptGraceNs room r = .error e { r with hardware := hw }) ∨
    ∃ subs hw, Quiet r.hardware hw ∧ Nameable name ∧ r.names.lookup name = none ∧
      add name timesliceNs preemptGraceNs room r = .ok (r.lastId + 1)
        (r.extended hw ⟨r.lastId + 1, name, timesliceNs, preemptGraceNs, 1, subs⟩) := by
  have hq := quiet_claimed r name
  obtain ⟨e, he⟩ | ⟨e, hw, hc, he⟩ | ⟨subs, hw, hc, hrest⟩ :=
    add_claims name timesliceNs preemptGraceNs room r
  · exact .inl ⟨e, r.hardware, .refl, he⟩
  · rw [hc] at hq
    exact .inl ⟨e, hw, hq, he⟩
  · rw [hc] at hq
    exact .inr ⟨subs, hw, hq, hrest⟩

end

def unregistered (r : Registry H) (d : Domain) : Registry H :=
  drop d.id { r with index := r.index.erase d.id, names := r.names.filter (·.1 != d.name) }

theorem index_unregistered (r : Registry H) (d : Domain) :
    (r.unregistered d).index = r.index.erase d.id :=
  index_drop ..

theorem lastId_unregistered (r : Registry H) (d : Domain) : (r.unregistered d).lastId = r.lastId :=
  lastId_drop ..

theorem quiet_unregistered (r : Registry H) (d : Domain) :
    Quiet r.hardware (r.unregistered d).hardware :=
  quiet_drop d.id { r with
    index := r.index.erase d.id, names := r.names.filter (·.1 != d.name) }

theorem drop_last (hd : r.domain? id = some d) (hr : d.refs ≤ 1) :
    r.drop id = { r with
      hardware := releaseAll d.subDomains r.hardware
      domains := r.domains.filter (·.id != id) } := by
  rw [drop, hd]
  exact if_pos hr

/-- Nothing else refers to the domain, so it goes, and its sub-domains with it. -/
theorem unregistered_eq (hd : r.registered? id = some d) (hr : d.refs ≤ 1) :
    r.unregistered d = { r with
      hardware := releaseAll d.subDomains r.hardware
      domains := r.domains.filter (·.id != id)
      index := r.index.erase id
      names := r.names.filter (·.1 != d.name) } := by
  obtain rfl := id_of_registered? hd
  refine drop_last ?_ hr
  rw [registered?] at hd
  split at hd
  · exact hd
  · cases hd

theorem registered?_unregistered (hd : r.registered? id = some d) (hr : d.refs ≤ 1)
    {k : DomainId} (hk : k ≠ id) : (r.unregistered d).registered? k = r.registered? k := by
  have hindex : (r.index.erase id).contains k = r.index.contains k := by
    rw [Bool.eq_iff_iff, List.contains_iff_mem, List.contains_iff_mem, List.mem_erase_of_ne hk]
  have hfind : (r.domains.filter (·.id != id)).find? (·.id == k) =
      r.domains.find? (·.id == k) := by
    rw [List.find?_filter]
    congr 1
    funext d
    by_cases he : d.id = k
    · simp [he, hk]
    · simp [he]
  rw [unregistered_eq hd hr]
  change (if (r.index.erase id).contains k then _ else none) = _
  rw [hindex, domain?, hfind]
  rfl

section

variable {slots : DomainSlots}

theorem remove_missing (h : r.registered? id = none) : remove id slots r = .error .notFound r :=
  bind_error (requireDomain_none h)

theorem remove_named (hd : r.registered? id = some d) (hs : slots.references id = true) :
    remove id slots r = .error .busy r := by
  refine (bind_ok (requireDomain_some hd)).trans ?_
  rw [hs]
  rfl

theorem remove_referenced (hd : r.registered? id = some d) (hs : slots.references id = false)
    (hr : 1 < d.refs) : remove id slots r = .error .busy r := by
  refine (bind_ok (requireDomain_some hd)).trans ?_
  rw [hs, if_neg Bool.false_ne_true, if_pos hr]
  rfl

theorem remove_idle (hd : r.registered? id = some d) (hs : slots.references id = false)
    (hr : d.refs ≤ 1) : remove id slots r = .ok ⟨⟩ (r.unregistered d) := by
  refine (bind_ok (requireDomain_some hd)).trans ?_
  rw [hs, if_neg Bool.false_ne_true, if_neg (Nat.not_lt_of_le hr), unregistered,
    id_of_registered? hd]
  rfl

end

theorem remove_cases (id : DomainId) (slots : DomainSlots) (r : Registry H) :
    (∃ e, remove id slots r = .error e r) ∨
      ∃ d, r.registered? id = some d ∧ slots.references id = false ∧ d.refs ≤ 1 ∧
        remove id slots r = .ok ⟨⟩ (r.unregistered d) := by
  cases hd : r.registered? id with
  | none => exact .inl ⟨_, remove_missing hd⟩
  | some d =>
    cases hs : slots.references id with
    | true => exact .inl ⟨_, remove_named hd hs⟩
    | false =>
      by_cases hr : 1 < d.refs
      · exact .inl ⟨_, remove_referenced hd hs hr⟩
      · exact .inr ⟨d, rfl, rfl, Nat.le_of_not_lt hr, remove_idle hd hs (Nat.le_of_not_lt hr)⟩

/-- Removing waits until neither slot names the domain and no reference to it is out. -/
theorem Accounts.answer_remove (h : r.Accounts held) (id : DomainId) (slots : DomainSlots) :
    (answer (remove id slots) r).1 =
      if r.isIndexed id then
        if slots.references id = true ∨ id ∈ held then .error .busy else .ok ()
      else .error .notFound := by
  cases hd : r.registered? id with
  | none =>
    have hi : ¬ r.isIndexed id = true := mt (registered?_ne_none h.backed).mpr (not_not.mpr hd)
    rw [answer_of_error (remove_missing hd), if_neg hi]
  | some d =>
    obtain ⟨hi, hm⟩ := mem_of_registered? hd
    have hrefs : 1 < d.refs ↔ id ∈ held := by
      rw [h.counted d hm, id_of_registered? hd, List.count_eq_one_of_mem h.once hi,
        Nat.lt_add_left_iff_pos, List.count_pos_iff]
    rw [isIndexed, if_pos (List.contains_iff_mem.mpr hi)]
    cases hs : slots.references id with
    | true => rw [answer_of_error (remove_named hd hs), if_pos (.inl rfl)]
    | false =>
      by_cases hr : 1 < d.refs
      · rw [answer_of_error (remove_referenced hd hs hr), if_pos (.inr (hrefs.mp hr))]
      · rw [answer_of_ok (remove_idle hd hs (Nat.le_of_not_lt hr)), if_neg (by simp [← hrefs, hr])]

omit [Hardware H] in
theorem lookupId_missing (h : r.registered? id = none) : lookupId id r = .error .notFound r :=
  bind_error (requireDomain_none h)

omit [Hardware H] in
theorem lookupId_registered (hd : r.registered? id = some d) :
    lookupId id r = .ok id (r.hold id) := by
  refine (bind_ok (requireDomain_some hd)).trans ?_
  rw [id_of_registered? hd]
  rfl

omit [Hardware H] in
theorem lookupName_missing {name : String} (h : r.names.lookup name = none) :
    lookupName name r = .error .notFound r := by
  refine (bind_ok (get_apply r)).trans ?_
  rw [h]
  rfl

omit [Hardware H] in
theorem lookupName_named {name : String} (h : r.names.lookup name = some id) :
    lookupName name r = lookupId id r := by
  refine (bind_ok (get_apply r)).trans ?_
  rw [h]

omit [Hardware H] in
theorem lookupId_cases (id : DomainId) (r : Registry H) :
    (∃ e, lookupId id r = .error e r) ∨
      ∃ d, r.registered? id = some d ∧ lookupId id r = .ok id (r.hold id) := by
  cases hd : r.registered? id with
  | none => exact .inl ⟨_, lookupId_missing hd⟩
  | some d => exact .inr ⟨d, rfl, lookupId_registered hd⟩

omit [Hardware H] in
theorem lookupName_cases (name : String) (r : Registry H) :
    (∃ e, lookupName name r = .error e r) ∨
      ∃ id d, r.names.lookup name = some id ∧ r.registered? id = some d ∧
        lookupName name r = .ok id (r.hold id) := by
  cases hn : r.names.lookup name with
  | none => exact .inl ⟨_, lookupName_missing hn⟩
  | some id =>
    rw [lookupName_named hn]
    rcases lookupId_cases id r with h | ⟨d, hd, h⟩
    · exact .inl h
    · exact .inr ⟨id, d, rfl, hd, h⟩

end AcceleratorScheduler.Registry
