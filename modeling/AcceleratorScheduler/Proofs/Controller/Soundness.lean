import AcceleratorScheduler.Proofs.Controller.Systems

/-! Every request, and every step of the worker, leaves a sound system sound; main statement:
`sound_run`. -/
namespace AcceleratorScheduler.System

variable {H : Type} [Hardware H] {resident : H → Option DomainId → Prop} {w : System H}

omit [Hardware H] in
private theorem sound_operation (h : w.Sound resident) (op : Arbiter.Operation)
    (hv : op.view? = none) (hg : (op.perform w.controller.arbiter).1 = none) :
    (op.perform w.controller.arbiter).2.Balanced w.grants := by
  have hp := (h.balanced.perform op fun v he => by rw [hv] at he; cases he).balanced
  rwa [hg, Option.toList_none, List.append_nil] at hp

section

variable (h : w.Sound resident) (ht : Hardware.Tells resident)

include h ht

private theorem sound_reserve (s : Session) : (w.after s.reserve).Sound resident :=
  h.guarded fun _ => h.onArbiter ht (sound_operation h (.reserve s.user) rfl rfl)

private theorem sound_release (s : Session) : (w.after s.release).Sound resident :=
  h.guarded fun _ => h.onArbiter ht (sound_operation h (.release s.user) rfl rfl)

private theorem sound_eraseQueue (s : Session) (role : QueueRole) :
    (w.after (s.eraseQueue role)).Sound resident :=
  h.guarded fun _ => h.onArbiter ht (sound_operation h (.closeQueue s.user role) rfl rfl)

private theorem sound_createQueue (allocator : Allocator) (s : Session) (role : QueueRole) :
    (w.after (s.createQueue allocator role)).Sound resident := by
  refine h.guarded fun _ => ?_
  exact h.onArbiter ht (sound_operation h
    (.openQueue allocator s.user role (w.controller.settings.queueBytes role)) rfl rfl)

private theorem sound_signal (f : Wake → Wake) (hf : ∀ wake, (f wake).shutdown = wake.shutdown) :
    Sound resident { w with controller := w.controller.signal f } :=
  h.of_arbiter ht h.balanced rfl rfl rfl (by simp [standing, Controller.signal, hf])

private theorem sound_ringDoorbell : (w.after Controller.ringDoorbell).Sound resident :=
  h.guarded fun _ => sound_signal h ht (fun w => { w with doorbell := true }) fun _ => rfl

private theorem sound_sessionDoorbell (s : Session) :
    (w.after s.ringDoorbell).Sound resident := by
  rcases w.after_ringDoorbell s with hr | hr
  · rwa [hr]
  · rw [hr]
    exact sound_ringDoorbell h ht

private theorem sound_mapQueue (allocator : Allocator) (s : Session) (role : QueueRole)
    (room : FiniteRoom) : (w.lend s.user (s.mapQueue allocator role room.grants)).Sound resident := by
  have hc := sound_createQueue h ht allocator s role
  obtain hl | ⟨handle, c, hq, hl⟩ := w.lend_mapQueue allocator s role room.grants
  · rwa [hl]
  · rw [after, answer_of_ok hq] at hc
    have hp := (hc.balanced.perform (.mapHandle handle 0 (c.settings.queueBytes role) room)
      fun v he => by cases he).balanced
    rw [hl]
    exact hc.of_arbiter ht hp rfl rfl rfl rfl

private theorem sound_close (s : Session) :
    Sound resident { w with controller := s.close w.controller } := by
  have hr := h.balanced.reset s.user
  exact h.of_arbiter ht (hr.balanced.removeUser s.user).balanced rfl rfl rfl rfl

private theorem sound_performSession (s : Session) (request : Session.Request) :
    (w.performSession s request).Sound resident := by
  cases request with
  | reserve => exact sound_reserve h ht s
  | release => exact sound_release h ht s
  | createQueue allocator role => exact sound_createQueue h ht allocator s role
  | mapQueue allocator role room => exact sound_mapQueue h ht allocator s role room
  | eraseQueue role => exact sound_eraseQueue h ht s role
  | ringDoorbell => exact sound_sessionDoorbell h ht s
  | close => exact sound_close h ht s

private theorem sound_announce (kind : EventKind) (id : DomainId) :
    Sound resident { w with controller := w.controller.announce kind id } :=
  sound_signal (h.record ht kind _) ht (fun w => { w with reconfigure := true }) fun _ => rfl

private theorem sound_addDomain (name : String) (timesliceNs preemptGraceNs : Nat)
    (room : Registry.Room) :
    (w.after (Controller.addDomain name timesliceNs preemptGraceNs room)).Sound resident := by
  rcases Controller.addDomain_cases name timesliceNs preemptGraceNs room w.controller with
    ⟨e, hw, hq, ha⟩ | ⟨subs, hw, -, hq, ha⟩
  · rw [after, answer_of_error ha]
    exact h.of_quiet ht h.balanced (h.accounts.of_eq rfl rfl rfl) rfl rfl (fun _ _ hi => hi) hq
  · rw [after, answer_of_ok ha]
    let d : Domain :=
      ⟨w.controller.registry.lastId + 1, name, timesliceNs, preemptGraceNs, 1, subs⟩
    have hadd : Sound resident { w with controller := { w.controller with
        registry := w.controller.registry.extended hw d } } := by
      refine h.of_quiet ht h.balanced (h.accounts.add hw rfl rfl) rfl rfl ?_ hq
      intro id _ hi
      exact List.contains_iff_mem.mpr (List.mem_append_left _ (List.contains_iff_mem.mp hi))
    exact sound_announce hadd ht _ _

private theorem sound_removeDomain (id : DomainId) :
    (w.after (Controller.removeDomain id)).Sound resident := by
  rcases Controller.removeDomain_cases id w.controller with ⟨e, hr⟩ | ⟨d, -, hd, hs, -, hr⟩
  · rw [after, answer_of_error hr]
    exact h
  · rw [after, answer_of_ok hr]
    have hid := Registry.id_of_registered? hd
    have hin : d.id ∈ w.controller.registry.index := hid ▸ (Registry.mem_of_registered? hd).1
    have hrem : Sound resident { w with controller := { w.controller with
        registry := w.controller.registry.unregistered d } } := by
      refine h.of_quiet ht h.balanced (h.accounts.unindex hin _).drop rfl rfl ?_
        (Registry.quiet_unregistered _ d)
      intro k hk hi
      have hne : k ≠ d.id := by
        rintro rfl
        rw [hid, hs] at hk
        cases hk
      rw [Registry.isIndexed, Registry.index_unregistered, List.contains_iff_mem]
      exact (List.mem_erase_of_ne hne).mpr (List.contains_iff_mem.mp hi)
    exact sound_announce hrem ht _ _

private theorem sound_refer {task : Registry.Task H DomainId}
    (hc : (∃ e, task w.controller.registry = .error e w.controller.registry) ∨
      ∃ id d, w.controller.registry.registered? id = some d ∧
        task w.controller.registry = .ok id (w.controller.registry.hold id)) :
    (w.refer task).Sound resident := by
  rcases hc with ⟨e, he⟩ | ⟨id, d, hd, hx⟩
  · rw [refer, Controller.onRegistry_error he]
    exact h
  · rw [refer, Controller.onRegistry_ok hx]
    exact h.of_quiet ht h.balanced (h.accounts.hold (.inr (Registry.mem_of_registered? hd).1))
      rfl rfl (fun _ _ hi => hi) .refl

private theorem sound_copy {id : DomainId} (hi : id ∈ w.held) :
    Sound resident { w with
      controller := { w.controller with registry := w.controller.registry.hold id }
      held := id :: w.held } :=
  h.of_quiet ht h.balanced (h.accounts.hold (.inl hi)) rfl rfl (fun _ _ hi => hi) .refl

private theorem sound_giveBack {id : DomainId} (hi : id ∈ w.held) :
    Sound resident { w with
      controller := { w.controller with registry := w.controller.registry.drop id }
      held := w.held.erase id } := by
  have hheld := h.accounts.perm (List.perm_cons_erase hi)
  refine h.of_quiet ht h.balanced hheld.drop rfl rfl ?_ (Registry.quiet_drop _ _)
  intro k _ hk
  rwa [Registry.isIndexed, Registry.index_drop]

omit [Hardware H] ht in
private theorem sound_postSwitch (id : DomainId) :
    (w.after (Controller.postSwitch id)).Sound resident := by
  rcases Controller.postSwitch_cases id w.controller with ⟨e, hr⟩ | ⟨-, -, hi, hr⟩
  · rw [after, answer_of_error hr]
    exact h
  · rw [after, answer_of_ok hr]
    refine ⟨h.balanced, h.accounts, fun {k} hk => ?_, h.worker, h.agrees⟩
    simp only [Controller.posted, DomainSlots.references, Bool.or_eq_true, beq_iff_eq,
      Option.some.injEq] at hk
    rcases hk with hk | rfl
    · exact h.named (by simp [DomainSlots.references, hk])
    · exact hi

private theorem sound_start (thread : Bool) :
    (w.after (Controller.start thread)).Sound resident := by
  rw [after]
  rcases Controller.start_cases thread w.controller with hr |
    ⟨hg, -, -, ⟨-, hr⟩ | ⟨-, outcome, hw, hs, hr⟩⟩
  · rw [hr]
    exact h
  · rw [hr]
    refine ⟨h.balanced, h.accounts, h.named, fun hruns => ?_, h.agrees⟩
    cases hruns
  · have hq := Controller.quiet_start hs
    rw [hr]
    cases outcome with
    | ready => exact ⟨h.balanced, h.accounts.of_eq rfl rfl rfl, h.named, fun _ => ⟨rfl, hg, rfl⟩,
        fun hgone => ht.quiet (h.agrees hgone) hq⟩
    | failed | hung =>
      refine ⟨h.balanced, h.accounts.of_eq rfl rfl rfl, h.named, fun hruns => ?_,
        fun hgone => ht.quiet (h.agrees hgone) hq⟩
      cases hruns

omit [Hardware H] ht in
private theorem sound_stop : Sound resident { w with controller := w.controller.stop } := by
  rw [Controller.stop]
  split
  next => exact ⟨h.balanced, h.accounts, h.named, nofun, h.agrees⟩
  next => exact h

omit ht in
private theorem sound_tearDown :
    Sound resident { w with controller := w.controller.tearDown } := by
  rw [Controller.tearDown]
  split
  next => exact h
  next =>
    have hs : (Controller.stop { w.controller with gone := true }).state ≠ .running ∧
        (Controller.stop { w.controller with gone := true }).arbiter = w.controller.arbiter ∧
        (Controller.stop { w.controller with gone := true }).registry = w.controller.registry ∧
        (Controller.stop { w.controller with gone := true }).gone = true := by
      rw [Controller.stop]
      split
      next => exact ⟨nofun, rfl, rfl, rfl⟩
      next hw => exact ⟨fun hr => hw (h.worker hr).1, rfl, rfl, rfl⟩
    obtain ⟨hst, harb, hreg, hgone⟩ := hs
    refine ⟨?_, ?_, nofun, fun hr => absurd hr hst, fun hr => ?_⟩
    · simp only [harb]
      exact h.balanced.revokeAll.balanced
    · simp only [hreg]
      exact h.accounts.drain
    · cases hgone.symm.trans hr

private theorem sound_switchTo (target : Option DomainId) :
    (w.after (Controller.switchTo target)).Sound resident := by
  have ho := Controller.switchTo_outcome target w.controller
  rw [after, answer]
  generalize Controller.switchTo target w.controller = result at ho ⊢
  cases ho with
  | unknown => exact h
  | missing hi hd =>
    obtain ⟨d, hd'⟩ := h.accounts.backed _ hi
    cases hd.symm.trans hd'
  | rejected hi hd ha =>
    refine ⟨h.balanced, h.accounts.of_eq rfl rfl rfl, fun {k} hk => ?_, h.worker, fun hg => ?_⟩
    · refine h.named ?_
      simp only [Controller.placed, DomainSlots.references, Bool.or_eq_true] at hk ⊢
      exact .inl (hk.resolve_right (by simp))
    · exact ht.refused (h.agrees hg) ha
  | @accepted id d hw hi hd ha =>
    have hs : Sound resident { w with
        controller := w.controller.placed hw ⟨some id, w.controller.slots.active⟩ } := by
      refine ⟨h.balanced, h.accounts.of_eq rfl rfl rfl, fun {k} hk => ?_, h.worker, fun hg => ?_⟩
      · simp only [Controller.placed, DomainSlots.references, Bool.or_eq_true, beq_iff_eq,
          Option.some.injEq] at hk
        rcases hk with rfl | hk
        · exact hi
        · exact h.named (by simp [DomainSlots.references, hk])
      · have hacc := ht.accepted (h.agrees hg) ha
        rwa [Registry.id_of_domain? hd] at hacc
    exact hs.record ht _ _

private theorem sound_onBuffer {α : Type} (role : QueueRole)
    (operation : EStateM Refusal Memory α) :
    Sound resident { w with controller := (w.controller.onBuffer role operation).2 } :=
  h.of_arbiter ht (h.balanced.onBuffer role operation).balanced rfl rfl rfl rfl

private theorem sound_stamp : Sound resident { w with controller := w.controller.stamp.2 } :=
  h.of_quiet ht h.balanced (h.accounts.of_eq rfl rfl rfl) rfl rfl (fun _ _ hi => hi)
    Hardware.Quiet.refl.stamp

private theorem sound_handleRequest (slot : Slot) :
    Sound resident { w with controller := (w.controller.handleRequest slot).2 } := by
  rw [Controller.handleRequest]
  cases Request.decode slot with
  | error => exact sound_stamp h ht
  | ok request =>
    cases request with
    | ping => exact sound_stamp h ht
    | switchDomain _ id => exact sound_stamp (sound_switchTo h ht (some id.toNat)) ht

private theorem sound_drainUpTo (fuel : Nat) :
    Sound resident { w with controller := w.controller.drainUpTo fuel } :=
  Controller.drainUpTo_induction (P := fun c => Sound resident { w with controller := c })
    (fun role operation _ h => sound_onBuffer h ht role operation)
    (fun slot h => sound_handleRequest h ht slot) fuel h

private theorem sound_work (switch : Bool) :
    Sound resident { w with controller := w.controller.work switch } := by
  have hd := sound_drainUpTo h ht w.controller.sendSlots
  rw [Controller.work]
  split
  · exact sound_switchTo hd ht none
  · exact hd

private theorem sound_settle : Sound resident { w with controller := w.controller.settle } := by
  rw [Controller.settle]
  split
  next =>
    have hw : Sound resident { w with controller := { w.controller with wake := {} } } :=
      ⟨h.balanced, h.accounts, h.named,
        fun hr => ⟨(h.worker hr).1, (h.worker hr).2.1, rfl⟩, h.agrees⟩
    exact sound_work hw ht w.controller.wake.switchPending
  next => exact h

private theorem sound_elapse : Sound resident { w with controller := w.controller.elapse } := by
  rw [Controller.elapse]
  split
  next => exact sound_drainUpTo h ht w.controller.sendSlots
  next => exact h

private theorem sound_arbiter (op : Arbiter.Operation) :
    (w.perform (.arbiter op)).Sound resident := by
  have hl := Arbiter.Ledger.carries_perform (l := ⟨w.controller.arbiter, w.grants⟩) h.balanced op
  exact h.of_arbiter ht hl.1.balanced rfl rfl rfl rfl

/-- One request, or one step of the worker. -/
theorem sound_perform (request : Request) : (w.perform request).Sound resident := by
  cases request with
  | addDomain name timesliceNs preemptGraceNs room =>
    exact sound_addDomain h ht name timesliceNs preemptGraceNs room
  | removeDomain id => exact sound_removeDomain h ht id
  | lookupId id =>
    refine sound_refer h ht ((Registry.lookupId_cases id _).imp_right ?_)
    rintro ⟨d, hd, hx⟩
    exact ⟨id, d, hd, hx⟩
  | lookupName name =>
    refine sound_refer h ht ((Registry.lookupName_cases name _).imp_right ?_)
    rintro ⟨id, d, -, hd, hx⟩
    exact ⟨id, d, hd, hx⟩
  | copy id =>
    rw [perform]
    split
    next hi => exact sound_copy h ht hi
    next => exact h
  | giveBack id =>
    rw [perform]
    split
    next hi => exact sound_giveBack h ht hi
    next => exact h
  | postSwitch id => exact sound_postSwitch h id
  | ringDoorbell => exact sound_ringDoorbell h ht
  | session s request => exact sound_performSession h ht s request
  | arbiter op => exact sound_arbiter h ht op
  | logEvent kind data => exact h.record ht kind data
  | takeEvent => exact h.of_arbiter ht h.balanced rfl rfl rfl rfl
  | drainEvents => exact h.of_arbiter ht h.balanced rfl rfl rfl rfl
  | start thread => exact sound_start h ht thread
  | stop => exact sound_stop h
  | settle => exact sound_settle h ht
  | elapse => exact sound_elapse h ht
  | serve rounds =>
    rw [perform]
    split
    next => exact sound_drainUpTo h ht rounds
    next => exact h
  | tearDown => exact sound_tearDown h

end

/-- Whatever is asked for, and however the worker's steps fall between the requests. -/
theorem sound_run (h : w.Sound resident) (ht : Hardware.Tells resident) (requests : List Request) :
    (w.run requests).Sound resident := by
  induction requests generalizing w with
  | nil => exact h
  | cons request requests ih => exact ih (sound_perform h ht request)

/-- A new controller, of which nothing is held yet. -/
theorem sound_new (ht : Hardware.Tells resident) {settings : Settings} {hw : H}
    {c : Controller H} (hr : resident hw none) (hc : Controller.new settings hw = .ok c) :
    Sound resident { controller := c } := by
  obtain ⟨_, -, hc⟩ := of_bind_eq_ok hc
  obtain ⟨log, -, hc⟩ := of_bind_eq_ok hc
  cases hc
  exact ⟨Arbiter.Ledger.balanced_empty, .empty _, nofun, nofun,
    fun _ => ht.quiet hr (.uptime .refl)⟩

/-- Without a look at the hardware, this is what makes every reachable controller consistent. -/
theorem consistent_run {settings : Settings} {hw : H} {c : Controller H}
    (hc : Controller.new settings hw = .ok c) (requests : List Request) :
    (System.run { controller := c } requests).controller.Consistent := by
  have ht : Hardware.Tells fun (_ : H) (_ : Option DomainId) => True :=
    ⟨fun _ _ => trivial, fun _ _ => trivial, fun _ _ => trivial⟩
  exact (sound_run (sound_new ht trivial hc) ht requests).consistent

end AcceleratorScheduler.System
