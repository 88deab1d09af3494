import AcceleratorScheduler.Controller.Worker
import AcceleratorScheduler.Proofs.Arbiter.Contents
import AcceleratorScheduler.Proofs.Domain.Accounts

/-! What a switch does, case by case: the domain is not registered, the hardware refuses it, or it
becomes active and the domain that was active takes the shadow slot. -/
namespace AcceleratorScheduler

namespace Controller

variable {H : Type} {c : Controller H} {id : DomainId} {d : Domain} {hw : H} {refusal : Refusal}

def placed (c : Controller H) (hw : H) (slots : DomainSlots) : Controller H :=
  { c with registry := { c.registry with hardware := hw }, slots }

theorem onRegistry_ok {α : Type} {task : Registry.Task H α} {x : α} {r : Registry H}
    (h : task c.registry = .ok x r) : onRegistry task c = .ok x { c with registry := r } := by
  rw [onRegistry, h]

theorem onRegistry_error {α : Type} {task : Registry.Task H α} {r : Registry H}
    (h : task c.registry = .error refusal r) :
    onRegistry task c = .error refusal { c with registry := r } := by
  rw [onRegistry, h]

private theorem requireDomain_unknown (hi : c.registry.isIndexed id = false) :
    onRegistry (Registry.requireDomain id) c = .error .notFound c :=
  onRegistry_error (Registry.requireDomain_none (by simp [Registry.registered?, hi]))

private theorem requireDomain_known (hi : c.registry.isIndexed id = true)
    (hd : c.registry.domain? id = some d) :
    onRegistry (Registry.requireDomain id) c = .ok d c :=
  onRegistry_ok (Registry.requireDomain_some (by simp [Registry.registered?, hi, hd]))

theorem stage_unknown (hi : c.registry.isIndexed id = false) :
    stage id c = .error .notFound c := by
  refine (bind_ok (get_apply c)).trans ?_
  rw [Registry.stage, hi]
  rfl

theorem stage_known (hi : c.registry.isIndexed id = true) :
    stage id c = .ok ⟨⟩ { c with slots := { c.slots with shadow := some id } } := by
  refine (bind_ok (get_apply c)).trans ?_
  rw [Registry.stage, hi]
  rfl

variable [Hardware H]

theorem switchTo_unknown (hi : c.registry.isIndexed id = false) :
    switchTo (some id) c = .error .notFound c :=
  bind_error (stage_unknown hi)

/-- The id is known and its domain is not; the target stays in the shadow slot. -/
theorem switchTo_missing (hi : c.registry.isIndexed id = true)
    (hd : c.registry.domain? id = none) : switchTo (some id) c =
      .error .notFound { c with slots := { c.slots with shadow := some id } } := by
  let staged : Controller H := { c with slots := { c.slots with shadow := some id } }
  refine (bind_ok (stage_known hi)).trans ?_
  refine (bind_ok (get_apply staged)).trans ?_
  exact bind_error (onRegistry_error (c := staged)
    (Registry.requireDomain_none (by simp [staged, Registry.registered?, hd])))

theorem switchTo_rejected (hi : c.registry.isIndexed id = true)
    (hd : c.registry.domain? id = some d)
    (ha : Hardware.apply c.registry.hardware d = (.error refusal, hw)) :
    switchTo (some id) c = .error refusal (c.placed hw { c.slots with shadow := none }) := by
  let staged : Controller H := { c with slots := { c.slots with shadow := some id } }
  refine (bind_ok (stage_known hi)).trans ?_
  refine (bind_ok (get_apply staged)).trans ?_
  refine (bind_ok (requireDomain_known (c := staged) hi hd)).trans ?_
  refine bind_error ?_
  simp [staged, applyDomain, ha, discardShadow, DomainSlots.discardShadow, placed]

theorem switchTo_accepted (hi : c.registry.isIndexed id = true)
    (hd : c.registry.domain? id = some d)
    (ha : Hardware.apply c.registry.hardware d = (.ok (), hw)) :
    switchTo (some id) c = .ok id
      (record .domainSwitch (eventData id) (c.placed hw ⟨some id, c.slots.active⟩)) := by
  let staged : Controller H := { c with slots := { c.slots with shadow := some id } }
  refine (bind_ok (stage_known hi)).trans ?_
  refine (bind_ok (get_apply staged)).trans ?_
  refine (bind_ok (requireDomain_known (c := staged) hi hd)).trans ?_
  refine (bind_ok (t := c.placed hw { c.slots with shadow := some id }) (a := ()) ?_).trans ?_
  · simp [staged, applyDomain, ha, placed]
  · refine (bind_ok (get_apply _)).trans ?_
    have hp : (c.placed hw { c.slots with shadow := some id }).registry.promote
        { c.slots with shadow := some id } =
          (some ⟨id, c.slots.active⟩, ⟨some id, c.slots.active⟩) := if_pos hi
    simp only [placed] at hp ⊢
    rw [hp]
    rfl

/-- Without a target the shadow slot is the target. -/
theorem switchTo_none : switchTo none c =
    match c.slots.shadow with
    | none => .error .notFound c
    | some next => switchTo (some next) c := by
  cases hs : c.slots.shadow with
  | none =>
    refine (bind_ok (get_apply c)).trans ?_
    rw [hs]
    rfl
  | some next =>
    cases hi : c.registry.isIndexed next with
    | false =>
      change switchTo none c = switchTo (some next) c
      rw [switchTo_unknown hi]
      refine (bind_ok (get_apply c)).trans ?_
      rw [hs]
      exact bind_error (requireDomain_unknown hi)
    | true =>
      have hc : { c with slots := { c.slots with shadow := some next } } = c := by
        rw [← hs]
      have hst := stage_known hi
      rw [hc] at hst
      change switchTo none c = switchTo (some next) c
      refine ((bind_ok hst).trans ?_).symm
      rfl

/-- How a switch ends: it finds no registered domain to switch to, or no domain for the id; the
hardware refuses the domain, or it becomes active. -/
inductive SwitchOutcome (c : Controller H) : EStateM.Result Refusal (Controller H) DomainId → Prop
  | unknown : SwitchOutcome c (.error .notFound c)
  | missing {id : DomainId} : c.registry.isIndexed id = true → c.registry.domain? id = none →
      SwitchOutcome c (.error .notFound { c with slots := { c.slots with shadow := some id } })
  | rejected {id : DomainId} {d : Domain} {refusal : Refusal} {hw : H} :
      c.registry.isIndexed id = true → c.registry.domain? id = some d →
      Hardware.apply c.registry.hardware d = (.error refusal, hw) →
      SwitchOutcome c (.error refusal (c.placed hw { c.slots with shadow := none }))
  | accepted {id : DomainId} {d : Domain} {hw : H} :
      c.registry.isIndexed id = true → c.registry.domain? id = some d →
      Hardware.apply c.registry.hardware d = (.ok (), hw) →
      SwitchOutcome c (.ok id
        (record .domainSwitch (eventData id) (c.placed hw ⟨some id, c.slots.active⟩)))

private theorem switchTo_some_outcome (id : DomainId) (c : Controller H) :
    c.SwitchOutcome (switchTo (some id) c) := by
  cases hi : c.registry.isIndexed id with
  | false =>
    rw [switchTo_unknown hi]
    exact .unknown
  | true =>
    cases hd : c.registry.domain? id with
    | none =>
      rw [switchTo_missing hi hd]
      exact .missing hi hd
    | some d =>
      rcases ha : Hardware.apply c.registry.hardware d with ⟨e | _, hw⟩
      · rw [switchTo_rejected hi hd ha]
        exact .rejected hi hd ha
      · rw [switchTo_accepted hi hd ha]
        exact .accepted hi hd ha

theorem switchTo_outcome (target : Option DomainId) (c : Controller H) :
    c.SwitchOutcome (switchTo target c) := by
  cases target with
  | some id => exact switchTo_some_outcome id c
  | none =>
    rw [switchTo_none]
    cases c.slots.shadow with
    | none => exact .unknown
    | some next => exact switchTo_some_outcome next c

end Controller

end AcceleratorScheduler
