import AcceleratorScheduler.Proofs.Arbiter.Closing
import AcceleratorScheduler.Proofs.Controller.Operations
import AcceleratorScheduler.Proofs.Controller.Vitals

/-! The end of a controller. Tearing down stops the worker, empties the slots, takes every domain
out of the registry and closes the arbiter, and whatever is asked for afterwards leaves it like
that; main statement: `ended_run`. -/
namespace AcceleratorScheduler

namespace Controller

variable {H : Type} {c : Controller H}

structure Ended (c : Controller H) : Prop where
  gone : c.gone = true
  stopped : c.state = .stopped
  slots : c.slots = {}
  index : c.registry.index = []
  closed : c.arbiter.Closed

theorem gone_new [Hardware H] {settings : Settings} {hardware : H}
    (hc : new settings hardware = .ok c) : c.gone = false := by
  obtain ⟨_, -, hc⟩ := of_bind_eq_ok hc
  obtain ⟨log, -, hc⟩ := of_bind_eq_ok hc
  cases hc
  rfl

theorem gone_stop (c : Controller H) : c.stop.gone = c.gone := by
  rw [stop]
  split <;> rfl

variable [Hardware H]

theorem settle_gone (hg : c.gone = true) : c.settle = c := by
  rw [settle, if_neg]
  simp [hg]

theorem elapse_gone (hg : c.gone = true) : c.elapse = c := by
  rw [elapse, if_neg]
  simp [hg]

theorem tearDown_gone (hg : c.gone = true) : c.tearDown = c := if_pos hg

theorem ended_tearDown (h : c.Regular) (hg : c.gone = false) : c.tearDown.Ended := by
  rw [tearDown, hg, if_neg Bool.false_ne_true]
  exact
    { gone := gone_stop { c with gone := true }
      stopped := state_stop (c := { c with gone := true }) h
      slots := rfl
      index := Registry.index_drain _
      closed := Arbiter.closed_revokeAll _ }

end Controller

namespace System

variable {H : Type} {w w' : System H} {P : Act → Prop}

theorem closed_of_does (h : w.controller.arbiter.Closed) (hd : Does P w w') :
    w'.controller.arbiter.Closed := by
  obtain ⟨-, acts, -, hl, -⟩ := hd
  have hc := Arbiter.Ledger.closed_run (l := w.ledger) h (acts.map Act.operation)
  rwa [← hl] at hc

/-- A controller that is gone refuses whoever asks whether it is there. -/
theorem after_gone {α : Type} (hg : w.controller.gone = true) (task : Controller.Task H α) :
    w.after (Controller.ensurePresent >>= fun _ => task) = w := by
  rw [after, answer_of_error (bind_error (Controller.ensurePresent_gone hg))]

variable [Hardware H]

omit [Hardware H] in
theorem refer_missing {task : Registry.Task H DomainId} {e : Refusal}
    (ht : task w.controller.registry = .error e w.controller.registry) : w.refer task = w := by
  rw [refer, Controller.onRegistry_error ht]

theorem performSession_gone (hg : w.controller.gone = true) (s : Session)
    (request : Session.Request) : w.performSession s request = w ∨ request = .close := by
  cases request with
  | reserve | release | createQueue | eraseQueue => exact .inl (after_gone hg _)
  | mapQueue allocator role room =>
    have hq : s.createQueue allocator role w.controller = .error .deviceGone w.controller :=
      bind_error (Controller.ensurePresent_gone hg)
    have hm : s.mapQueue allocator role room.grants w.controller =
        .error .deviceGone w.controller :=
      bind_error hq
    left
    rw [performSession, lend, hm]
  | ringDoorbell =>
    left
    rcases w.after_ringDoorbell s with hr | hr
    · exact hr
    · exact hr.trans (after_gone hg _)
  | close => exact .inr rfl

/-- One request. The arbiter stays closed because it is only asked for something; of the rest, a
request that would change it is refused, and a worker that has stopped does nothing. -/
theorem ended_perform (h : w.controller.Ended) (r : Request) : (w.perform r).controller.Ended := by
  have hclosed := closed_of_does h.closed (does_perform w r)
  have hmissing (id : DomainId) : w.controller.registry.registered? id = none := by
    rw [Registry.registered?, Registry.isIndexed, h.index]
    rfl
  have hkeep (he : w.perform r = w) : (w.perform r).controller.Ended := by rwa [he]
  cases r with
  | addDomain | removeDomain | postSwitch | ringDoorbell => exact hkeep (after_gone h.gone _)
  | lookupId id =>
    refine hkeep (refer_missing (e := .notFound) ?_)
    exact Registry.lookupId_missing (hmissing id)
  | lookupName name =>
    refine hkeep (refer_missing (e := .notFound) ?_)
    cases hn : w.controller.registry.names.lookup name with
    | none => exact Registry.lookupName_missing hn
    | some id =>
      exact (Registry.lookupName_named hn).trans (Registry.lookupId_missing (hmissing id))
  | copy id =>
    rw [perform]
    split
    · exact ⟨h.gone, h.stopped, h.slots, h.index, h.closed⟩
    · exact h
  | giveBack id =>
    rw [perform]
    split
    · exact ⟨h.gone, h.stopped, h.slots, (Registry.index_drop id _).trans h.index, h.closed⟩
    · exact h
  | session s request =>
    rcases performSession_gone h.gone s request with he | rfl
    · exact hkeep he
    · exact ⟨h.gone, h.stopped, h.slots, h.index, hclosed⟩
  | arbiter | logEvent | takeEvent | drainEvents =>
    exact ⟨h.gone, h.stopped, h.slots, h.index, hclosed⟩
  | start => exact hkeep (after_gone h.gone _)
  | stop =>
    rw [perform, Controller.stop]
    split
    · exact ⟨h.gone, rfl, h.slots, h.index, h.closed⟩
    · exact h
  | settle => exact hkeep (by rw [perform, Controller.settle_gone h.gone])
  | elapse => exact hkeep (by rw [perform, Controller.elapse_gone h.gone])
  | serve rounds => exact hkeep (if_neg fun hr => by simp [h.gone] at hr)
  | tearDown => exact hkeep (by rw [perform, Controller.tearDown_gone h.gone])

/-- Nothing but tearing down makes a controller go, and that ends it. -/
theorem ended_of_gone (h : w.controller.Regular)
    (he : w.controller.gone = true → w.controller.Ended) (r : Request)
    (hg : (w.perform r).controller.gone = true) : (w.perform r).controller.Ended := by
  rcases Bool.eq_false_or_eq_true w.controller.gone with hgone | hgone
  · exact ended_perform (he hgone) r
  cases hr : r.governs with
  | false =>
    have hsame := congrArg Controller.Vitals.gone (vitals_perform w hr)
    cases hg.symm.trans (hsame.trans hgone)
  | true =>
    cases r with
    | start thread =>
      rw [perform, after] at hg
      rcases Controller.start_cases thread w.controller with hs |
        ⟨-, -, -, ⟨-, hs⟩ | ⟨-, outcome, hw, -, hs⟩⟩
      · rw [hs] at hg
        cases hg.symm.trans hgone
      · rw [hs] at hg
        cases hg.symm.trans hgone
      · rw [hs] at hg
        cases outcome <;> cases hg.symm.trans hgone
    | stop => cases hg.symm.trans ((Controller.gone_stop _).trans hgone)
    | tearDown => exact Controller.ended_tearDown h hgone
    | _ => cases hr

theorem ended_of_gone_run (h : w.controller.Regular)
    (he : w.controller.gone = true → w.controller.Ended) (requests : List Request)
    (hg : (w.run requests).controller.gone = true) : (w.run requests).controller.Ended := by
  induction requests generalizing w with
  | nil => exact he hg
  | cons r requests ih => exact ih (regular_perform h r) (ended_of_gone h he r) hg

/-- However a controller was used, tearing it down is the end of it. -/
theorem ended_of_tearDown (h : w.controller.Regular)
    (he : w.controller.gone = true → w.controller.Ended) :
    (w.perform .tearDown).controller.Ended := by
  rcases Bool.eq_false_or_eq_true w.controller.gone with hg | hg
  · exact ended_perform (he hg) .tearDown
  · exact Controller.ended_tearDown h hg

theorem ended_run (h : w.controller.Ended) (requests : List Request) :
    (w.run requests).controller.Ended := by
  induction requests generalizing w with
  | nil => exact h
  | cons r requests ih => exact ih (ended_perform h r)

theorem ended_of_mem {settings : Settings} {hardware : H} {c : Controller H}
    (hc : Controller.new settings hardware = .ok c) {requests : List Request}
    (h : .tearDown ∈ requests) : (run { controller := c } requests).controller.Ended := by
  have hr := Controller.regular_new hc
  have hg : c.gone = false := Controller.gone_new hc
  obtain ⟨before, later, rfl⟩ := List.append_of_mem h
  have he := ended_of_gone_run (w := { controller := c }) hr
    (fun hgone => by cases hg.symm.trans hgone) before
  rw [run_append]
  exact ended_run (ended_of_tearDown (regular_run hr before) he) later

end System

end AcceleratorScheduler
