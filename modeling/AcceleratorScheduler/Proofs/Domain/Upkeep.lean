import AcceleratorScheduler.Proofs.Domain.SubDomains

/-! A registry whose hardware is used for other things than sub-domains as well: it is switched,
read as a clock, and asked to start a worker. The references counted and the sub-domains that are
out stay right all the same, and the record of calls tells of every start. -/
namespace AcceleratorScheduler

def HardwareCall.started? : HardwareCall → Option StartOutcome
  | startWorker outcome => some outcome
  | _ => none

def starts (calls : List HardwareCall) : List StartOutcome :=
  calls.filterMap HardwareCall.started?

theorem starts_append (calls new : List HardwareCall) :
    starts (calls ++ new) = starts calls ++ starts new :=
  List.filterMap_append ..

namespace Registry

variable {H : Type} [Hardware H] {r r' r'' : Registry H} {held held' held'' : List DomainId}
  {spawns : Prop}

def onHardware (r : Registry H) (f : H → H) : Registry H := { r with hardware := f r.hardware }

/-- What a request and the steps of a worker do to a registry, and to its hardware; starts are among
it only if that may be. -/
inductive Upkeep (spawns : Prop) (r : Registry H) (held : List DomainId) :
    Registry H → List DomainId → Prop
  | refl : Upkeep spawns r held r held
  | change {r' r'' : Registry H} {held' held'' : List DomainId} :
      Upkeep spawns r held r' held' → Change r' held' r'' held'' → Upkeep spawns r held r'' held''
  | apply {r' : Registry H} {held' : List DomainId} (d : Domain) :
      Upkeep spawns r held r' held' →
      Upkeep spawns r held (r'.onHardware fun hw => (Hardware.apply hw d).2) held'
  | stamp {r' : Registry H} {held' : List DomainId} : Upkeep spawns r held r' held' →
      Upkeep spawns r held (r'.onHardware fun hw => (Hardware.stamp hw).2) held'
  | uptime {r' : Registry H} {held' : List DomainId} : Upkeep spawns r held r' held' →
      Upkeep spawns r held (r'.onHardware fun hw => (Hardware.uptime hw).2) held'
  | start {r' : Registry H} {held' : List DomainId} : spawns → Upkeep spawns r held r' held' →
      Upkeep spawns r held (r'.onHardware fun hw => (Hardware.startWorker hw).2) held'

theorem Upkeep.trans (h : Upkeep spawns r held r' held') (h' : Upkeep spawns r' held' r'' held'') :
    Upkeep spawns r held r'' held'' := by
  induction h' with
  | refl => exact h
  | change _ hc ih => exact ih.change hc
  | apply d _ ih => exact ih.apply d
  | stamp _ ih => exact ih.stamp
  | uptime _ ih => exact ih.uptime
  | start hs _ ih => exact ih.start hs

theorem Upkeep.mono {spawns' : Prop} (h : Upkeep spawns r held r' held') (hs : spawns → spawns') :
    Upkeep spawns' r held r' held' := by
  induction h with
  | refl => exact .refl
  | change _ hc ih => exact ih.change hc
  | apply d _ ih => exact ih.apply d
  | stamp _ ih => exact ih.stamp
  | uptime _ ih => exact ih.uptime
  | start hspawns _ ih => exact ih.start (hs hspawns)

/-- What giving out sub-domains and taking them back keeps of the hardware, a change keeps. -/
theorem Change.keeps {P : H → Prop} (hc : Change r held r' held')
    (hrelease : ∀ {hw : H} (sub : SubDomain), P hw → P (Hardware.release hw sub))
    (hallocate : ∀ {hw : H} (runlist : Nat) (id : DomainId) (name : String), P hw →
      P (Hardware.allocate hw runlist id name).2)
    (h : P r.hardware) : P r'.hardware := by
  cases hc with
  | same => exact h
  | @refused name timesliceNs preemptGraceNs room _ _ ha =>
    have hk := keeps_add name timesliceNs preemptGraceNs room hrelease hallocate h
    rwa [answer_of_error ha] at hk
  | @added name timesliceNs preemptGraceNs room _ _ _ _ ha =>
    have hk := keeps_add name timesliceNs preemptGraceNs room hrelease hallocate h
    rwa [answer_of_ok ha] at hk
  | @removed d =>
    exact keeps_drop (r := { r with
      index := r.index.erase d.id, names := r.names.filter (·.1 != d.name) }) hrelease d.id h
  | taken => exact h
  | givenBack => exact keeps_drop hrelease _ h
  | drained =>
    exact @drain_induction _ r held _ (fun r' _ => P r'.hardware) h
      fun id _ h => keeps_drop hrelease id h

section Recorded

variable {r r' : Registry (Recorded H)}

omit [Hardware H] in
theorem starts_concat {calls : List HardwareCall} {call : HardwareCall}
    (hc : call.started? = none) : starts (calls ++ [call]) = starts calls := by
  rw [starts_append, starts, starts, List.filterMap_cons_none hc]
  exact List.append_nil _

theorem Change.starts_eq (hc : Change r held r' held') :
    starts r'.hardware.calls = starts r.hardware.calls :=
  hc.keeps (P := fun hw => starts hw.calls = starts r.hardware.calls)
    (fun _ h => (starts_concat rfl).trans h) (fun _ _ _ h => (starts_concat rfl).trans h) rfl

/-- No start goes unrecorded, and nothing else is recorded as one. -/
theorem Upkeep.starts_eq (h : Upkeep spawns r held r' held') (hs : ¬ spawns) :
    starts r'.hardware.calls = starts r.hardware.calls := by
  induction h with
  | refl => rfl
  | change _ hc ih => exact hc.starts_eq.trans ih
  | apply d _ ih => exact (starts_concat rfl).trans ih
  | stamp _ ih => exact ih
  | uptime _ ih => exact ih
  | start hspawns => exact absurd hspawns hs

theorem Upkeep.settled (h : Upkeep spawns r held r' held') (ha : r.Accounts held)
    (hs : r.Settled) : r'.Accounts held' ∧ r'.Settled := by
  induction h with
  | refl => exact ⟨ha, hs⟩
  | change _ hc ih => exact ⟨hc.accounts ih.1, hc.settled ih.1 ih.2⟩
  | apply d _ ih => exact ⟨ih.1.of_eq rfl rfl rfl, Leaves.concat ih.2 fun _ => nofun⟩
  | stamp _ ih => exact ⟨ih.1.of_eq rfl rfl rfl, ih.2⟩
  | uptime _ ih => exact ⟨ih.1.of_eq rfl rfl rfl, ih.2⟩
  | start _ _ ih => exact ⟨ih.1.of_eq rfl rfl rfl, Leaves.concat ih.2 fun _ => nofun⟩

end Recorded

end Registry

end AcceleratorScheduler
