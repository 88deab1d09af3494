import Mathlib.Data.List.Induction
import AcceleratorScheduler.Proofs.Domain.Holdings
import AcceleratorScheduler.Proofs.Hardware.Outstanding

/-! The sub-domains that the hardware has handed out are those of the domains that are registered or
referenced. Each goes back once, when its domain ends, and a domain has one on each runlist from the
moment it is added. Main statement: `sub_domains_released_once`. -/
namespace AcceleratorScheduler.Registry

variable {H : Type} [Hardware H]

section Claims

variable {id : DomainId} {name : String} {out : Multiset SubDomain} {hw hw' : Recorded H}

theorem leaves_grants {calls : List HardwareCall} {runlists : List Nat} {subs : List SubDomain}
    (hl : subs.length = runlists.length) (h : Leaves calls out) :
    Leaves (calls ++ grants id name runlists subs) (subs + out) := by
  induction subs generalizing runlists calls out with
  | nil => simpa [grants] using h
  | cons sub subs ih =>
    cases runlists with
    | nil => cases hl
    | cons runlist runlists =>
      have hfirst : Leaves (calls ++ [.allocate runlist id name (.ok sub)]) (sub ::ₘ out) :=
        h.concat (by simp)
      have hrest := ih (Nat.succ.inj hl) hfirst
      rw [← Multiset.cons_coe, Multiset.cons_add, ← Multiset.add_cons]
      rwa [List.append_assoc] at hrest

/-- A sub-domain is handed out for each runlist, or all go back. -/
theorem leaves_allocateAll {runlists : List Nat} {answer : Except Refusal (List SubDomain)}
    (h : Leaves hw.calls out) (ha : allocateAll id name runlists [] hw = (answer, hw')) :
    (∃ e, answer = .error e ∧ Leaves hw'.calls out) ∨
    ∃ subs, answer = .ok subs ∧ Leaves hw'.calls (subs + out) ∧ subs.length = runlists.length := by
  obtain ⟨subs, rfl, hl, hc⟩ | ⟨subs, first, runlist, rest, e, rfl, -, hl, hc⟩ :=
    calls_allocateAll ha
  · refine .inr ⟨subs, rfl, ?_, hl⟩
    rw [hc]
    exact leaves_grants hl h
  · refine .inl ⟨e, rfl, ?_⟩
    have hrefused : Leaves (hw.calls ++ grants id name first subs ++
        [.allocate runlist id name (.error e)]) (subs + out) :=
      (leaves_grants hl h).concat (by simp)
    rw [hc, List.nil_append, ← List.singleton_append, ← List.append_assoc]
    exact hrefused.releases

end Claims

def subDomains (r : Registry H) : List SubDomain := r.domains.flatMap Domain.subDomains

/-- What the hardware has handed out is what the domains own. -/
def Settled (r : Registry (Recorded H)) : Prop := Leaves r.hardware.calls r.subDomains

section Upkeep

variable {id : DomainId} {d : Domain} {held : List DomainId}

omit [Hardware H] in
/-- Without a domain, what is left are the sub-domains of the others. -/
theorem Accounts.subDomains_eq {r : Registry H} (h : r.Accounts held) (hd : d ∈ r.domains) :
    (r.subDomains : Multiset SubDomain) =
      d.subDomains + (r.domains.filter (·.id != d.id)).flatMap Domain.subDomains := by
  have hn : r.domains.Nodup := List.Nodup.of_map _ h.ids
  have hrest : r.domains.erase d = r.domains.filter (·.id != d.id) := by
    rw [hn.erase_eq_filter]
    refine List.filter_congr fun d' hd' => ?_
    rw [Bool.eq_iff_iff, bne_iff_ne, bne_iff_ne]
    exact not_congr ⟨congrArg Domain.id, h.eq_of_id hd' hd⟩
  rw [Multiset.coe_add, Multiset.coe_eq_coe, ← hrest]
  exact (List.perm_cons_erase hd).flatMap_right Domain.subDomains

variable {r r' : Registry (Recorded H)} {held' : List DomainId}

/-- The answer to a request for sub-domains, and what is out after it. -/
theorem Settled.claimed {name : String} {answer : Except Refusal (List SubDomain)} {hw : Recorded H}
    (h : r.Settled) (hc : r.claimed name = (answer, hw)) :
    (∃ e, answer = .error e ∧ Leaves hw.calls r.subDomains) ∨
    ∃ subs, answer = .ok subs ∧ Leaves hw.calls (subs + r.subDomains) ∧
      subs.length = Hardware.runlistCount r.hardware := by
  have hasked := leaves_allocateAll h hc
  rwa [List.length_range] at hasked

omit [Hardware H] in
theorem Settled.extended {hw : Recorded H} (h : Leaves hw.calls (d.subDomains + r.subDomains)) :
    (r.extended hw d).Settled := by
  rw [Multiset.add_comm, Multiset.coe_add] at h
  rw [Settled, subDomains, Registry.extended, List.flatMap_append, List.flatMap_singleton]
  exact h

theorem Settled.add (h : r.Settled) (name : String) (timesliceNs preemptGraceNs : Nat)
    (room : Room) : (answer (Registry.add name timesliceNs preemptGraceNs room) r).2.Settled := by
  obtain ⟨e, he⟩ | ⟨e, hw, hc, he⟩ | ⟨subs, hw, hc, -, -, ho⟩ :=
    add_claims name timesliceNs preemptGraceNs room r
  · rw [answer_of_error he]
    exact h
  · rw [answer_of_error he]
    obtain ⟨_, -, hl⟩ | ⟨_, hk, -⟩ := h.claimed hc
    · exact hl
    · cases hk
  · rw [answer_of_ok ho]
    obtain ⟨_, hk, -⟩ | ⟨_, hk, hl, -⟩ := h.claimed hc
    · cases hk
    · cases hk
      exact .extended hl

omit [Hardware H] in
/-- Counting references moves no sub-domain. -/
theorem Settled.updateDomain {f : Domain → Domain} (h : r.Settled)
    (hf : ∀ d, (f d).subDomains = d.subDomains) : (r.updateDomain id f).Settled := by
  have hsame : (r.updateDomain id f).subDomains = r.subDomains := by
    rw [subDomains, Registry.updateDomain, List.flatMap_map]
    congr 1
    funext d
    split
    · exact hf d
    · rfl
  rw [Settled, hsame]
  exact h

/-- A domain that ends gives its own sub-domains back. -/
theorem Settled.drop (ha : r.Accounts (id :: held)) (h : r.Settled) : (r.drop id).Settled := by
  obtain ⟨d, hd, rfl⟩ := ha.kept id (.inl List.mem_cons_self)
  by_cases hr : d.refs ≤ 1
  · rw [drop_last (ha.domain?_of_mem hd) hr, Settled, calls_releaseAll]
    rw [Settled, ha.subDomains_eq hd] at h
    exact h.releases
  · rw [Registry.drop, ha.domain?_of_mem hd]
    simp only [if_neg hr]
    exact h.updateDomain fun _ => rfl

/-- A reference that is given back frees the domain's own sub-domains, in order, if it was the
last one. -/
theorem Accounts.calls_drop (h : r.Accounts held) (hd : d ∈ r.domains) :
    (r.drop d.id).hardware.calls =
      r.hardware.calls ++ if d.refs ≤ 1 then d.subDomains.map .release else [] := by
  split
  next hr => rw [drop_last (h.domain?_of_mem hd) hr, calls_releaseAll]
  next hr =>
    rw [Registry.drop, h.domain?_of_mem hd]
    simp only [if_neg hr]
    exact (List.append_nil _).symm

theorem Change.settled (hc : Change r held r' held') (ha : r.Accounts held) (h : r.Settled) :
    r'.Settled := by
  cases hc with
  | same => exact h
  | @refused name timesliceNs preemptGraceNs room _ _ hadd =>
    have hs := h.add name timesliceNs preemptGraceNs room
    rwa [answer_of_error hadd] at hs
  | @added name timesliceNs preemptGraceNs room _ _ _ _ hadd =>
    have hs := h.add name timesliceNs preemptGraceNs room
    rwa [answer_of_ok hadd] at hs
  | removed hd hr =>
    obtain ⟨hi, hm⟩ := mem_of_registered? hd
    exact Settled.drop (ha.unindex hi _) h
  | taken hi => exact h.updateDomain fun _ => rfl
  | givenBack hi => exact h.drop (ha.perm (List.perm_cons_erase hi))
  | drained =>
    have hdrained : r.drain.2.Accounts held ∧ r.drain.2.Settled :=
      drain_induction (P := fun r held => r.Accounts held ∧ r.Settled)
        ⟨ha.unindexAll [], h⟩ fun _ _ ⟨ha, h⟩ => ⟨ha.drop, h.drop ha⟩
    exact hdrained.2

end Upkeep

section Origin

variable {r r' r'' : Registry H} {id : DomainId} {d : Domain}

/-- Nothing new is kept, and what is still kept owns what it owned. -/
def Retains (r r' : Registry H) : Prop :=
  ∀ d ∈ r'.domains, ∃ d' ∈ r.domains, d'.id = d.id ∧ d'.subDomains = d.subDomains

omit [Hardware H] in
theorem Retains.refl : r.Retains r := fun d hd => ⟨d, hd, rfl, rfl⟩

omit [Hardware H] in
theorem Retains.updateDomain {f : Domain → Domain} (h : r.Retains r')
    (hf : ∀ d, (f d).id = d.id ∧ (f d).subDomains = d.subDomains) :
    r.Retains (r'.updateDomain id f) := by
  intro d hd
  obtain ⟨d', hd', rfl⟩ := List.mem_map.mp hd
  obtain ⟨origin, ho, hid, hsubs⟩ := h d' hd'
  refine ⟨origin, ho, ?_⟩
  split
  · exact ⟨hid.trans (hf d').1.symm, hsubs.trans (hf d').2.symm⟩
  · exact ⟨hid, hsubs⟩

theorem Retains.drop (h : r.Retains r') (id : DomainId) : r.Retains (r'.drop id) := by
  rw [Registry.drop]
  split
  · exact h
  · split
    · exact fun d hd => h d (List.mem_of_mem_filter hd)
    · exact h.updateDomain fun _ => ⟨rfl, rfl⟩

theorem Retains.drain : r.Retains r.drain.2 :=
  @drain_induction _ r [] _ (fun r' _ => r.Retains r') .refl fun id _ h => h.drop id

theorem Retains.remove (id : DomainId) (slots : DomainSlots) :
    r.Retains (answer (Registry.remove id slots) r).2 := by
  obtain ⟨e, he⟩ | ⟨d, -, -, -, hx⟩ := remove_cases id slots r
  · rw [answer_of_error he]
    exact .refl
  · rw [answer_of_ok hx]
    have hunindexed : r.Retains
        { r with index := r.index.erase d.id, names := r.names.filter (·.1 != d.name) } := .refl
    exact hunindexed.drop d.id

/-- The domain has the next id, and what the hardware gave for each runlist, which is a sub-domain
on it if the hardware names what it was asked for. -/
structure Provided (r : Registry H) (d : Domain) : Prop where
  id_eq : d.id = r.lastId + 1
  length_eq : d.subDomains.length = Hardware.runlistCount r.hardware
  runlists : Hardware.Echoes H →
    d.subDomains.map SubDomain.runlist = List.range (Hardware.runlistCount r.hardware)

theorem Settled.provided {r : Registry (Recorded H)} (h : r.Settled) {name : String}
    {timesliceNs preemptGraceNs : Nat} {room : Room}
    (hd : d ∈ (answer (Registry.add name timesliceNs preemptGraceNs room) r).2.domains) :
    d ∈ r.domains ∨ r.Provided d := by
  obtain ⟨e, he⟩ | ⟨e, hw, -, he⟩ | ⟨subs, hw, hc, -, -, ho⟩ :=
    add_claims name timesliceNs preemptGraceNs room r
  · rw [answer_of_error he] at hd
    exact .inl hd
  · rw [answer_of_error he] at hd
    exact .inl hd
  · rw [answer_of_ok ho] at hd
    refine (List.mem_append.mp hd).imp_right fun hnew => ?_
    obtain ⟨_, hk, -⟩ | ⟨_, hk, -, hl⟩ := h.claimed hc
    · cases hk
    · cases hk
      rw [List.mem_singleton.mp hnew]
      exact ⟨rfl, hl, fun hecho => runlists_allocateAll hecho hc⟩

end Origin

namespace Holdings

variable {s : Holdings (Recorded H)} {d : Domain}

omit [Hardware H] in
theorem retains_refer {s : Holdings H} {task : Task H DomainId}
    (hc : (∃ e, task s.registry = .error e s.registry) ∨
      ∃ id, task s.registry = .ok id (s.registry.hold id)) :
    s.registry.Retains (s.refer task).registry := by
  rcases hc with ⟨e, he⟩ | ⟨id, hx⟩
  · rw [refer, he]
    exact .refl
  · rw [refer, hx]
    exact Retains.refl.updateDomain fun _ => ⟨rfl, rfl⟩

/-- Only adding brings a domain. -/
theorem retains_perform {s : Holdings H} {op : Operation}
    (ho : ∀ name timesliceNs preemptGraceNs room,
      op ≠ .add name timesliceNs preemptGraceNs room) :
    s.registry.Retains (s.perform op).registry := by
  cases op with
  | add name timesliceNs preemptGraceNs room => exact absurd rfl (ho _ _ _ _)
  | remove id slot => exact .remove id _
  | lookupId id =>
    exact retains_refer ((lookupId_cases id _).imp_right fun ⟨d, _, hx⟩ => ⟨id, hx⟩)
  | lookupName name =>
    exact retains_refer ((lookupName_cases name _).imp_right fun ⟨id, d, _, _, hx⟩ => ⟨id, hx⟩)
  | copy id =>
    rw [perform]
    split
    · exact Retains.refl.updateDomain fun _ => ⟨rfl, rfl⟩
    · exact .refl
  | giveBack id =>
    rw [perform]
    split
    · exact Retains.refl.drop id
    · exact .refl
  | stage slot id =>
    rw [perform]
    split <;> exact .refl
  | promote | discardShadow | clear => exact .refl
  | drain => exact .drain

/-- One of the operations added the domain, when the hardware had as many runlists as the domain has
sub-domains. -/
def Provided (s : Holdings H) (ops : List Operation) (d : Domain) : Prop :=
  ∃ before name timesliceNs preemptGraceNs room later,
    ops = before ++ .add name timesliceNs preemptGraceNs room :: later ∧
      (s.run before).registry.Provided d

theorem Provided.concat {s : Holdings H} {ops : List Operation} {d d' : Domain}
    (h : s.Provided ops d') (hid : d'.id = d.id) (hsubs : d'.subDomains = d.subDomains)
    (op : Operation) : s.Provided (ops ++ [op]) d := by
  obtain ⟨before, name, timesliceNs, preemptGraceNs, room, later, he, hp⟩ := h
  refine ⟨before, name, timesliceNs, preemptGraceNs, room, later ++ [op], ?_, hid ▸ hp.id_eq,
    hsubs ▸ hp.length_eq, hsubs ▸ hp.runlists⟩
  rw [he, List.append_assoc, List.cons_append]

theorem run_concat (s : Holdings H) (ops : List Operation) (op : Operation) :
    s.run (ops ++ [op]) = (s.run ops).perform op :=
  List.foldl_concat ..

structure Balanced (s : Holdings (Recorded H)) : Prop where
  tracked : s.Tracked
  settled : s.registry.Settled

theorem balanced_run (hs : s.Balanced) (ops : List Operation) : (s.run ops).Balanced := by
  induction ops generalizing s with
  | nil => exact hs
  | cons op ops ih =>
    have hc := change_perform s op
    exact ih ⟨hs.tracked.change hc, hc.settled hs.tracked.accounts hs.settled⟩

omit [Hardware H] in
theorem balanced_opened (hw : H) (slots : Nat → DomainSlots) :
    (opened ({ hardware := hw } : Recorded H) slots).Balanced :=
  ⟨tracked_opened _ slots, .nil⟩

/-- The induction goes back through the run: the last operation either added the domain, or found
it with the sub-domains that it has. -/
theorem provided_run (hs : s.Balanced) (hn : s.registry.domains = []) (ops : List Operation)
    (hd : d ∈ (s.run ops).registry.domains) : s.Provided ops d := by
  induction ops using List.reverseRecOn generalizing d with
  | nil =>
    rw [run, List.foldl_nil, hn] at hd
    cases hd
  | append_singleton ops op ih =>
    rw [run_concat] at hd
    by_cases ho : ∃ name timesliceNs preemptGraceNs room,
        op = .add name timesliceNs preemptGraceNs room
    · obtain ⟨name, timesliceNs, preemptGraceNs, room, rfl⟩ := ho
      rcases (balanced_run hs ops).settled.provided hd with hold | hnew
      · exact (ih hold).concat rfl rfl _
      · exact ⟨ops, name, timesliceNs, preemptGraceNs, room, [], rfl, hnew⟩
    · have hother : ∀ name timesliceNs preemptGraceNs room,
          op ≠ .add name timesliceNs preemptGraceNs room :=
        fun name timesliceNs preemptGraceNs room he =>
          ho ⟨name, timesliceNs, preemptGraceNs, room, he⟩
      obtain ⟨d', hd', hid, hsubs⟩ := retains_perform hother d hd
      exact (ih hd').concat hid hsubs op

theorem giveBack_all {s : Holdings H} {refs : List DomainId} (hp : refs.Perm s.held) :
    (s.run (refs.map .giveBack)).held = [] ∧
      (s.run (refs.map .giveBack)).registry.index = s.registry.index := by
  induction refs generalizing s with
  | nil => exact ⟨hp.symm.eq_nil, rfl⟩
  | cons id refs ih =>
    have hi : id ∈ s.held := hp.subset List.mem_cons_self
    have hgive : s.perform (.giveBack id) =
        { s with registry := s.registry.drop id, held := s.held.erase id } := if_pos hi
    have hrest : refs.Perm (s.perform (.giveBack id)).held := by
      rw [hgive]
      exact (hp.trans (List.perm_cons_erase hi)).cons_inv
    obtain ⟨hheld, hindex⟩ := ih hrest
    refine ⟨hheld, hindex.trans ?_⟩
    rw [hgive]
    exact index_drop id s.registry

omit [Hardware H] in
/-- Once nothing is registered or referenced, nothing is out. -/
theorem Balanced.outstanding_eq_zero (h : s.Balanced) (hh : s.held = [])
    (hi : s.registry.index = []) : outstanding s.registry.hardware.calls = 0 := by
  have hnone : s.registry.domains = [] := by
    refine List.eq_nil_iff_forall_not_mem.mpr fun d hd => ?_
    have hkept := (h.tracked.accounts.kept_iff d.id).mp ⟨d, hd, rfl⟩
    simp [hh, hi, isIndexed] at hkept
  rw [h.settled.outstanding_eq, subDomains, hnone]
  rfl

/-- Throughout, what is out are the sub-domains of the domains that are registered or referenced,
each with one on every runlist in order; nothing is given back that was not out; and once the
registry is drained and every reference given back, in whatever order, nothing is out any more. -/
theorem sub_domains_released_once (hw : H) (initial : Nat → DomainSlots) (ops : List Operation) :
    let start := opened ({ hardware := hw } : Recorded H) initial
    let s := start.run ops
    Matched s.registry.hardware.calls ∧
    outstanding s.registry.hardware.calls = s.registry.domains.flatMap Domain.subDomains ∧
    (s.registry.domains.map Domain.id).Nodup ∧
    (∀ id, (∃ d ∈ s.registry.domains, d.id = id) ↔
      id ∈ s.held ∨ s.registry.isIndexed id = true) ∧
    (∀ d ∈ s.registry.domains, start.Provided ops d) ∧
    ∀ refs : List DomainId, refs.Perm s.held →
      outstanding (s.run (.drain :: refs.map .giveBack)).registry.hardware.calls = 0 := by
  intro start s
  have hstart : start.Balanced := balanced_opened hw initial
  have hs : s.Balanced := balanced_run hstart ops
  refine ⟨hs.settled.matched, hs.settled.outstanding_eq, hs.tracked.accounts.ids,
    hs.tracked.accounts.kept_iff, fun d => provided_run hstart rfl ops, fun refs hp => ?_⟩
  have hdrained : (s.perform .drain).registry.index = [] := index_drain s.registry
  obtain ⟨hheld, hindex⟩ := giveBack_all (s := s.perform .drain) hp
  exact (balanced_run hs _).outstanding_eq_zero hheld (hindex.trans hdrained)

/-- A host that has nothing on its second runlist for one of the names. -/
private structure Sparing where
  host : HostSimulation := {}

private instance : Hardware Sparing where
  runlistCount s := Hardware.runlistCount s.host
  allocate s runlist id name :=
    if runlist = 1 ∧ name = "greedy" then (.error .outOfMemory, s)
    else
      let (answer, host) := Hardware.allocate s.host runlist id name
      (answer, { host })
  release s sub := { host := Hardware.release s.host sub }
  apply s d := (Hardware.apply s.host d).map id Sparing.mk
  status s := Hardware.status s.host
  stamp s := (Hardware.stamp s.host).map id Sparing.mk
  uptime s := (Hardware.uptime s.host).map id Sparing.mk
  startWorker s := (Hardware.startWorker s.host).map id Sparing.mk

/-- The first domain outlives the registry, since a reference to it is out; the second one is
refused when it has a sub-domain already. -/
private def survived : List Operation :=
  [.add "first" 1000 0, .lookupName "first", .add "greedy" 1000 0, .drain]

private def surviving : Holdings (Recorded Sparing) :=
  (opened { hardware := {} } fun _ => {}).run survived

theorem sub_domains_released_once_deferred :
    surviving.registry.isIndexed 1 = false ∧ surviving.held = [1] ∧
    surviving.registry.hardware.calls.length = 5 ∧ Matched surviving.registry.hardware.calls ∧
    outstanding surviving.registry.hardware.calls = ([⟨0, 1⟩, ⟨1, 2⟩] : List SubDomain) ∧
    outstanding (surviving.run [.drain, .giveBack 1]).registry.hardware.calls = 0 := by
  have hheld : surviving.held = [1] := by decide +kernel
  have howned : surviving.registry.domains.flatMap Domain.subDomains = [⟨0, 1⟩, ⟨1, 2⟩] := by
    decide +kernel
  obtain ⟨hmatched, hout, -, -, -, hall⟩ :=
    sub_domains_released_once ({} : Sparing) (fun _ => {}) survived
  exact ⟨by decide +kernel, hheld, by decide +kernel, hmatched,
    hout.trans (congrArg _ howned), hall [1] (.of_eq hheld.symm)⟩

end Holdings

end AcceleratorScheduler.Registry
