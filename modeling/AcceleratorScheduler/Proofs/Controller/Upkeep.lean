import AcceleratorScheduler.Proofs.Controller.Systems
import AcceleratorScheduler.Proofs.Domain.Upkeep

/-! What a system does to its registry and its hardware. Every request keeps the references counted
and the sub-domains accounted for, and only a start runs the start hook; main statement:
`upkeep_run`. -/
namespace AcceleratorScheduler.System

open Registry (Change)

variable {H : Type} [Hardware H] {w w' w'' : System H} {spawns : Prop}

/-- What becomes of the registry and the references from one state to a later one. -/
def Upkeep (spawns : Prop) (w w' : System H) : Prop :=
  Registry.Upkeep spawns w.controller.registry w.held w'.controller.registry w'.held

namespace Upkeep

theorem refl (w : System H) : w.Upkeep spawns w := Registry.Upkeep.refl

theorem trans (h : w.Upkeep spawns w') (h' : w'.Upkeep spawns w'') : w.Upkeep spawns w'' :=
  Registry.Upkeep.trans h h'

theorem of_eq (hr : w'.controller.registry = w.controller.registry) (hh : w'.held = w.held) :
    w.Upkeep spawns w' := by
  rw [Upkeep, hr, hh]
  exact .refl

theorem of_aside (h : w.Aside w') : w.Upkeep spawns w' := by
  obtain ⟨hh, -, _, _, hc⟩ := h
  exact of_eq (by rw [hc]) hh

theorem change (h : Change w.controller.registry w.held w'.controller.registry w'.held) :
    w.Upkeep spawns w' :=
  Registry.Upkeep.refl.change h

end Upkeep

theorem upkeep_record (kind : EventKind) (data : UInt32) :
    w.Upkeep spawns { w with controller := w.controller.record kind data } :=
  Registry.Upkeep.refl.uptime

theorem upkeep_addDomain (name : String) (timesliceNs preemptGraceNs : Nat)
    (room : Registry.Room) :
    w.Upkeep spawns (w.after (Controller.addDomain name timesliceNs preemptGraceNs room)) := by
  have hadd : Change w.controller.registry w.held
      (answer (Registry.add name timesliceNs preemptGraceNs room) w.controller.registry).2 w.held :=
    Registry.change_add name timesliceNs preemptGraceNs room
  rcases Controller.addDomain_add name timesliceNs preemptGraceNs room w.controller with
    ⟨e, he⟩ | ⟨e, r, ha, he⟩ | ⟨id, r, -, ha, he⟩
  · rw [after, answer_of_error he]
    exact .refl w
  · rw [answer_of_error ha] at hadd
    rw [after, answer_of_error he]
    exact .change hadd
  · rw [answer_of_ok ha] at hadd
    rw [after, answer_of_ok he]
    exact (Registry.Upkeep.refl.change hadd).uptime

theorem upkeep_removeDomain (id : DomainId) :
    w.Upkeep spawns (w.after (Controller.removeDomain id)) := by
  rcases Controller.removeDomain_cases id w.controller with ⟨e, hr⟩ | ⟨d, -, hd, -, hle, hr⟩
  · rw [after, answer_of_error hr]
    exact .refl w
  · obtain rfl := Registry.id_of_registered? hd
    rw [after, answer_of_ok hr]
    exact (Registry.Upkeep.refl.change (.removed hd hle)).uptime

theorem upkeep_refer {task : Registry.Task H DomainId}
    (hc : (∃ e, task w.controller.registry = .error e w.controller.registry) ∨
      ∃ id d, w.controller.registry.registered? id = some d ∧
        task w.controller.registry = .ok id (w.controller.registry.hold id)) :
    w.Upkeep spawns (w.refer task) := by
  rcases hc with ⟨e, he⟩ | ⟨id, d, hd, hx⟩
  · rw [refer, Controller.onRegistry_error he]
    exact .refl w
  · rw [refer, Controller.onRegistry_ok hx]
    exact .change (.taken (.inr (Registry.mem_of_registered? hd).1))

theorem upkeep_switchTo (target : Option DomainId) :
    w.Upkeep spawns (w.after (Controller.switchTo target)) := by
  have ho := Controller.switchTo_outcome target w.controller
  rw [after, answer]
  generalize Controller.switchTo target w.controller = result at ho ⊢
  have happly {d : Domain} {answer : Except Refusal Unit} {hw : H}
      (ha : Hardware.apply w.controller.registry.hardware d = (answer, hw)) (slots : DomainSlots) :
      w.Upkeep spawns { w with controller := w.controller.placed hw slots } := by
    have hu : Registry.Upkeep spawns w.controller.registry w.held _ w.held :=
      Registry.Upkeep.refl.apply d
    rwa [Registry.onHardware, ha] at hu
  cases ho with
  | unknown => exact .refl w
  | missing => exact .of_eq rfl rfl
  | rejected _ _ ha => exact happly ha _
  | accepted _ _ ha => exact (happly ha _).trans (upkeep_record _ _)

theorem upkeep_handleRequest (slot : Slot) :
    w.Upkeep spawns { w with controller := (w.controller.handleRequest slot).2 } := by
  rw [Controller.handleRequest]
  have hstamp {w : System H} : w.Upkeep spawns { w with controller := w.controller.stamp.2 } :=
    Registry.Upkeep.refl.stamp
  cases Request.decode slot with
  | error => exact hstamp
  | ok request =>
    cases request with
    | ping => exact hstamp
    | switchDomain _ id => exact (upkeep_switchTo (some id.toNat)).trans hstamp

theorem upkeep_drainUpTo (fuel : Nat) :
    w.Upkeep spawns { w with controller := w.controller.drainUpTo fuel } :=
  Controller.drainUpTo_induction (P := fun c => w.Upkeep spawns { w with controller := c })
    (fun _ _ _ h => h.trans (.of_eq rfl rfl)) (fun slot h => h.trans (upkeep_handleRequest slot))
    fuel (.refl w)

theorem upkeep_settle : w.Upkeep spawns { w with controller := w.controller.settle } := by
  rw [Controller.settle]
  split
  next =>
    let awake : System H := { w with controller := { w.controller with wake := {} } }
    have hd : w.Upkeep spawns { w with controller := awake.controller.drainRequests } :=
      (Upkeep.of_eq rfl rfl : w.Upkeep spawns awake).trans (upkeep_drainUpTo _)
    rw [Controller.work]
    split
    · exact hd.trans (upkeep_switchTo none)
    · exact hd
  next => exact .refl w

theorem upkeep_start (thread : Bool) :
    w.Upkeep (thread = true) (w.after (Controller.start thread)) := by
  rw [after]
  rcases Controller.start_cases thread w.controller with hr |
    ⟨-, -, -, ⟨-, hr⟩ | ⟨ht, outcome, hw, hs, hr⟩⟩
  · rw [hr]
    exact .refl w
  · rw [hr]
    exact .of_eq rfl rfl
  · have hu : Registry.Upkeep (thread = true) w.controller.registry w.held _ w.held :=
      Registry.Upkeep.refl.start ht
    rw [Registry.onHardware, hs] at hu
    rw [hr, Upkeep, Controller.registry_launched]
    exact hu

omit [Hardware H] in
theorem registry_stop (c : Controller H) : c.stop.registry = c.registry := by
  rw [Controller.stop]
  split <;> rfl

theorem upkeep_tearDown : w.Upkeep spawns { w with controller := w.controller.tearDown } := by
  rw [Controller.tearDown]
  split
  next => exact .refl w
  next =>
    refine .change ?_
    change Change _ _ (Controller.stop { w.controller with gone := true }).registry.drain.2 _
    rw [registry_stop]
    exact .drained

/-- One request, or one step of the worker. -/
theorem upkeep_perform (w : System H) (r : Request) : w.Upkeep (r = .start true) (w.perform r) := by
  cases r with
  | addDomain name timesliceNs preemptGraceNs room =>
    exact upkeep_addDomain name timesliceNs preemptGraceNs room
  | removeDomain id => exact upkeep_removeDomain id
  | lookupId id =>
    refine upkeep_refer ((Registry.lookupId_cases id _).imp_right ?_)
    exact fun ⟨d, hd, hx⟩ => ⟨id, d, hd, hx⟩
  | lookupName name =>
    refine upkeep_refer ((Registry.lookupName_cases name _).imp_right ?_)
    exact fun ⟨id, d, _, hd, hx⟩ => ⟨id, d, hd, hx⟩
  | copy id =>
    rw [perform]
    split
    next hi => exact .change (.taken (.inl hi))
    next => exact .refl w
  | giveBack id =>
    rw [perform]
    split
    next hi => exact .change (.givenBack hi)
    next => exact .refl w
  | postSwitch id =>
    rw [perform, after]
    rcases Controller.postSwitch_cases id w.controller with ⟨e, hr⟩ | ⟨-, -, -, hr⟩
    · rw [answer_of_error hr]
      exact .refl w
    · rw [answer_of_ok hr]
      exact .of_eq rfl rfl
  | ringDoorbell => exact .of_aside (aside_guarded ⟨rfl, rfl, _, _, rfl⟩)
  | session s request => exact .of_aside (aside_performSession s request)
  | arbiter op => exact .of_eq rfl rfl
  | logEvent kind data => exact upkeep_record kind data
  | takeEvent | drainEvents => exact .of_eq rfl rfl
  | start thread => exact Registry.Upkeep.mono (upkeep_start thread) fun ht => by rw [ht]
  | stop => exact .of_eq (registry_stop _) rfl
  | settle => exact upkeep_settle
  | elapse =>
    rw [perform, Controller.elapse]
    split
    next => exact upkeep_drainUpTo _
    next => exact .refl w
  | serve rounds =>
    rw [perform]
    split
    next => exact upkeep_drainUpTo rounds
    next => exact .refl w
  | tearDown => exact upkeep_tearDown

theorem upkeep_run (w : System H) (requests : List Request) : w.Upkeep True (w.run requests) := by
  induction requests generalizing w with
  | nil => exact .refl w
  | cons r requests ih =>
    exact (Registry.Upkeep.mono (upkeep_perform w r) fun _ => trivial).trans (ih (w.perform r))

/-- From its creation on, a controller owes the hardware the sub-domains of its domains. -/
theorem settled_run {settings : Settings} {hw : H} {c : Controller (Recorded H)}
    (hc : Controller.new settings { hardware := hw } = .ok c) (requests : List Request) :
    let w := run { controller := c } requests
    w.controller.registry.Accounts w.held ∧ w.controller.registry.Settled := by
  have hu := upkeep_run { controller := c } requests
  obtain ⟨_, -, hc⟩ := of_bind_eq_ok hc
  obtain ⟨log, -, hc⟩ := of_bind_eq_ok hc
  cases hc
  exact Registry.Upkeep.settled hu (.empty _) .nil

end AcceleratorScheduler.System
