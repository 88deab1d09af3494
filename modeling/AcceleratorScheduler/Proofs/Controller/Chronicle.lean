import AcceleratorScheduler.Proofs.Controller.Deeds
import AcceleratorScheduler.Proofs.Controller.Operations

/-! What deeds leave: an event for each of them, in the same order, and the registry, the active
slot and the hardware that they amount to. Main statement for one request: `advances_perform`. -/
namespace AcceleratorScheduler

theorem Recorded.accepted_of_quiet {H : Type} [Hardware H] {r r' : Recorded H}
    (h : Hardware.Quiet r r') :
    r'.calls.filterMap HardwareCall.accepted? = r.calls.filterMap HardwareCall.accepted? := by
  obtain ⟨new, hn, hq⟩ := calls_quiet h
  rw [hn, List.filterMap_append, List.filterMap_eq_nil_iff.mpr hq, List.append_nil]

namespace Controller

variable {H : Type} {c c' c'' : Controller (Recorded H)}

def replica {H : Type} (c : Controller H) : Replica := ⟨c.registry.index, c.slots.active⟩

def accepted (c : Controller (Recorded H)) : List DomainId :=
  c.registry.hardware.calls.filterMap HardwareCall.accepted?

def Given {H : Type} (c : Controller H) : Prop := ∀ id ∈ c.registry.index, id ≤ c.registry.lastId

/-- The controller came to its later state by these deeds, one after the other, and these events
were taken out of its log meanwhile. -/
structure Advances (c : Controller (Recorded H)) (deeds : List Deed) (given : List Event)
    (c' : Controller (Recorded H)) : Prop where
  /-- The log recorded an event for each deed, in the same order. -/
  journal : ∃ events : List Event, events.map Event.entry = deeds.map Deed.entry ∧
    ∀ {capacity : Nat} {recorded taken : List Event}, c.log.Journal capacity recorded taken →
      c'.log.Journal capacity (recorded ++ events) (taken ++ given)
  replica : c'.replica = deeds.foldl Replica.after c.replica
  accepted : c'.accepted = c.accepted ++ deeds.filterMap Deed.target?
  lastId : c.registry.lastId ≤ c'.registry.lastId
  given : c.Given → c'.Given ∧ ∀ deed ∈ deeds, deed.id ≤ c'.registry.lastId

namespace Advances

variable {deeds deeds' : List Deed} {given given' : List Event}

/-- A step that registers and switches nothing, and does not touch the log. -/
theorem still (hl : c'.log = c.log) (hr : c'.replica = c.replica)
    (hn : c'.registry.lastId = c.registry.lastId) (ha : c'.accepted = c.accepted) :
    Advances c [] [] c' where
  journal := ⟨[], rfl, fun h => by rwa [List.append_nil, List.append_nil, hl]⟩
  replica := hr
  accepted := by rw [ha, List.filterMap_nil, List.append_nil]
  lastId := Nat.le_of_eq hn.symm
  given hg := by
    have hindex : c'.registry.index = c.registry.index := congrArg Replica.domains hr
    refine ⟨fun id hm => ?_, nofun⟩
    rw [hn]
    exact hg id (hindex ▸ hm)

theorem refl (c : Controller (Recorded H)) : Advances c [] [] c := still rfl rfl rfl rfl

theorem trans (h : Advances c deeds given c') (h' : Advances c' deeds' given' c'') :
    Advances c (deeds ++ deeds') (given ++ given') c'' where
  journal := by
    obtain ⟨events, he, hj⟩ := h.journal
    obtain ⟨events', he', hj'⟩ := h'.journal
    refine ⟨events ++ events', by rw [List.map_append, List.map_append, he, he'], fun hlog => ?_⟩
    rw [← List.append_assoc, ← List.append_assoc]
    exact hj' (hj hlog)
  replica := by rw [h'.replica, h.replica, List.foldl_append]
  accepted := by rw [h'.accepted, h.accepted, List.filterMap_append, List.append_assoc]
  lastId := Nat.le_trans h.lastId h'.lastId
  given hg := by
    obtain ⟨hg', hd⟩ := h.given hg
    obtain ⟨hg'', hd'⟩ := h'.given hg'
    refine ⟨hg'', fun deed hm => ?_⟩
    rcases List.mem_append.mp hm with hm | hm
    · exact Nat.le_trans (hd deed hm) h'.lastId
    · exact hd' deed hm

theorem trans_still (h : Advances c deeds given c') (h' : Advances c' [] [] c'') :
    Advances c deeds given c'' := by
  have hboth := h.trans h'
  rwa [List.append_nil, List.append_nil] at hboth

theorem still_trans (h : Advances c [] [] c') (h' : Advances c' deeds given c'') :
    Advances c deeds given c'' :=
  h.trans h'

/-- Nothing but the arbiter and the signals changed, or what else no deed depends on. -/
theorem of_quiet [Hardware H] (hl : c'.log = c.log) (hr : c'.replica = c.replica)
    (hn : c'.registry.lastId = c.registry.lastId)
    (hq : Hardware.Quiet c.registry.hardware c'.registry.hardware) : Advances c [] [] c' :=
  still hl hr hn (Recorded.accepted_of_quiet hq)

/-- A deed that is done, and then recorded. -/
theorem record [Hardware H] {deed : Deed} {kind : EventKind} {data : UInt32}
    (he : deed.entry = (kind, data)) (hl : c'.log = c.log)
    (hr : c'.replica = c.replica.after deed)
    (ha : c'.accepted = c.accepted ++ [deed].filterMap Deed.target?)
    (hn : c.registry.lastId ≤ c'.registry.lastId)
    (hg : c.Given → c'.Given ∧ deed.id ≤ c'.registry.lastId) :
    Advances c [deed] [] (c'.record kind data) where
  journal := by
    let now := (Hardware.uptime c'.registry.hardware).1
    refine ⟨[(c.log.record now kind data).1], ?_, fun h => ?_⟩
    · rw [List.map_singleton, List.map_singleton, he]
      rfl
    · rw [List.append_nil, Controller.record, hl]
      exact h.record now kind data
  replica := hr
  accepted := ha
  lastId := hn
  given hc := by
    obtain ⟨hg', hid⟩ := hg hc
    exact ⟨hg', fun d hd => List.mem_singleton.mp hd ▸ hid⟩

end Advances

section Worker

variable [Hardware H] {id : DomainId}

theorem advances_onBuffer {α : Type} (role : QueueRole) (operation : EStateM Refusal Memory α) :
    Advances c [] [] (c.onBuffer role operation).2 :=
  .of_quiet rfl rfl rfl .refl

theorem advances_postResponse (response : Response) : Advances c [] [] (c.postResponse response) :=
  advances_onBuffer .receive _

/-- A switch that goes through is one deed; one that fails leaves the active slot. -/
theorem advances_switchTo (target : Option DomainId) :
    Advances c (c.switchDeeds target) [] (answer (switchTo target) c).2 := by
  have h := switchTo_outcome target c
  rw [switchDeeds, answer]
  generalize switchTo target c = result at h ⊢
  cases h with
  | unknown => exact .refl c
  | missing => exact .of_quiet rfl rfl rfl .refl
  | rejected _ _ ha =>
    refine .still rfl rfl rfl ?_
    rw [accepted, placed, Recorded.calls_apply ha, List.filterMap_append]
    exact List.append_nil _
  | accepted hi hd ha =>
    refine .record rfl rfl rfl ?_ (Nat.le_refl _) fun hg => ⟨hg, ?_⟩
    · rw [accepted, placed, Recorded.calls_apply ha, List.filterMap_append]
      exact congrArg (_ ++ [·]) (Registry.id_of_domain? hd)
    · exact hg _ (List.contains_iff_mem.mp hi)

theorem advances_handleRequest (slot : Slot) :
    Advances c (c.slotDeeds slot) [] (c.handleRequest slot).2 := by
  rw [handleRequest, slotDeeds]
  cases Request.decode slot with
  | error => exact .of_quiet rfl rfl rfl (.stamp .refl)
  | ok request =>
    cases request with
    | ping => exact .of_quiet rfl rfl rfl (.stamp .refl)
    | switchDomain _ id =>
      exact (advances_switchTo (some id.toNat)).trans_still
        (.of_quiet rfl rfl rfl (.stamp .refl))

/-- The induction is on the requests answered; the deeds of the first come before those of the
others. -/
theorem advances_drainUpTo (fuel : Nat) :
    Advances c (c.drainDeeds fuel) [] (c.drainUpTo fuel) := by
  induction fuel generalizing c with
  | zero => exact .refl c
  | succ fuel ih =>
    have hp := advances_onBuffer (c := c) .send Ring.pop
    rcases hc : c.onBuffer .send Ring.pop with ⟨popped, c₁⟩
    rw [hc] at hp
    simp only [drainDeeds, drainUpTo, hc]
    rcases popped with _ | e | _ | slot
    · exact hp
    · exact hp
    · exact hp
    · have hs := (advances_handleRequest (c := c₁) slot).trans_still
        (advances_postResponse (c₁.handleRequest slot).1)
      exact hp.still_trans (hs.trans ih)

theorem advances_work (switch : Bool) : Advances c (c.workDeeds switch) [] (c.work switch) := by
  have hd := advances_drainUpTo (c := c) c.sendSlots
  rw [workDeeds, work]
  cases switch with
  | true => exact hd.trans (advances_switchTo none)
  | false =>
    rw [if_neg Bool.false_ne_true, List.append_nil]
    exact hd

theorem advances_settle : Advances c c.settleDeeds [] c.settle := by
  rw [settleDeeds, settle]
  split
  · have hw : Advances c [] [] { c with wake := {} } := .of_quiet rfl rfl rfl .refl
    exact hw.still_trans (advances_work _)
  · exact .refl c

end Worker

section Requests

variable [Hardware H] {id : DomainId}

/-- A change of the registry that is announced. -/
theorem Advances.announce {deed : Deed} {kind : EventKind}
    (h : Advances c [deed] [] (c'.record kind (eventData id))) :
    Advances c [deed] [] (c'.announce kind id) :=
  h.trans_still (.of_quiet rfl rfl rfl .refl)

theorem advances_addDomain (name : String) (timesliceNs preemptGraceNs : Nat)
    (room : Registry.Room) :
    Advances c (Deed.ofAnswer .added (answer (addDomain name timesliceNs preemptGraceNs room) c).1)
      [] (answer (addDomain name timesliceNs preemptGraceNs room) c).2 := by
  obtain ⟨e, hw, hq, ha⟩ | ⟨subs, hw, -, hq, ha⟩ :=
    addDomain_cases name timesliceNs preemptGraceNs room c
  · rw [answer_of_error ha]
    exact .of_quiet rfl rfl rfl hq
  · rw [answer_of_ok ha]
    refine Advances.announce
      (.record rfl rfl rfl ?_ (Nat.le_succ _) fun hg => ⟨?_, Nat.le_refl _⟩)
    · exact (Recorded.accepted_of_quiet hq).trans (List.append_nil _).symm
    · intro k hk
      rcases List.mem_append.mp hk with hk | hk
      · exact Nat.le_succ_of_le (hg k hk)
      · exact Nat.le_of_eq (List.mem_singleton.mp hk)

theorem advances_removeDomain (id : DomainId) :
    Advances c (Deed.ofAnswer (fun _ => .removed id) (answer (removeDomain id) c).1) []
      (answer (removeDomain id) c).2 := by
  obtain ⟨e, hr⟩ | ⟨d, -, hd, -, -, hr⟩ := removeDomain_cases id c
  · rw [answer_of_error hr]
    exact .refl c
  · rw [answer_of_ok hr]
    obtain rfl := Registry.id_of_registered? hd
    have hindex := Registry.index_unregistered c.registry d
    have hlast := Registry.lastId_unregistered c.registry d
    have hq := Registry.quiet_unregistered c.registry d
    refine Advances.announce (.record rfl rfl ?_ ?_ (Nat.le_of_eq hlast.symm)
      fun hg => ⟨fun k hk => ?_, ?_⟩)
    · exact congrArg (Replica.mk · c.slots.active) hindex
    · exact (Recorded.accepted_of_quiet hq).trans (List.append_nil _).symm
    · change k ∈ (c.registry.unregistered d).index at hk
      change k ≤ (c.registry.unregistered d).lastId
      rw [hindex] at hk
      rw [hlast]
      exact hg k (List.mem_of_mem_erase hk)
    · change d.id ≤ (c.registry.unregistered d).lastId
      rw [hlast]
      exact hg d.id (Registry.mem_of_registered? hd).1

theorem advances_postSwitch (id : DomainId) : Advances c [] [] (answer (postSwitch id) c).2 := by
  obtain ⟨e, hr⟩ | ⟨-, -, -, hr⟩ := postSwitch_cases id c
  · rw [answer_of_error hr]
    exact .refl c
  · rw [answer_of_ok hr]
    exact .of_quiet rfl rfl rfl .refl

theorem advances_start (thread : Bool) : Advances c [] [] (answer (start thread) c).2 := by
  obtain hr | ⟨-, -, -, ⟨-, hr⟩ | ⟨-, outcome, hw, hs, hr⟩⟩ := start_cases thread c
  · rw [hr]
    exact .refl c
  · rw [hr]
    exact .of_quiet rfl rfl rfl .refl
  · rw [hr]
    cases outcome <;> exact .of_quiet rfl rfl rfl (quiet_start hs)

theorem advances_stop : Advances c [] [] c.stop := by
  rw [stop]
  split
  · exact .of_quiet rfl rfl rfl .refl
  · exact .refl c

end Requests

/-- The log was only taken from. -/
theorem Advances.of_log {log : EventLog} {given : List Event}
    (h : ∀ {capacity recorded taken}, c.log.Journal capacity recorded taken →
      log.Journal capacity recorded (taken ++ given)) : Advances c [] given { c with log } where
  journal := ⟨[], rfl, fun hlog => by rw [List.append_nil]; exact h hlog⟩
  replica := rfl
  accepted := (List.append_nil _).symm
  lastId := Nat.le_refl _
  given hg := ⟨hg, nofun⟩

theorem advances_takeEvent : Advances c [] c.takeEvent.1.toList c.takeEvent.2 :=
  .of_log fun h => h.take

theorem advances_drainEvents : Advances c [] c.drainEvents.1 c.drainEvents.2 :=
  .of_log fun h => h.drain

end Controller

namespace System

variable {H : Type} [Hardware H] {w : System (Recorded H)}

theorem Aside.advances {w' : System (Recorded H)} (h : w.Aside w') :
    w.controller.Advances [] [] w'.controller := by
  obtain ⟨-, -, arbiter, wake, hw⟩ := h
  rw [hw]
  exact .of_quiet rfl rfl rfl .refl

/-- References are counted, and nothing else. -/
theorem advances_refer {task : Registry.Task (Recorded H) DomainId}
    (hc : (∃ e, task w.controller.registry = .error e w.controller.registry) ∨
      ∃ id, task w.controller.registry = .ok id (w.controller.registry.hold id)) :
    w.controller.Advances [] [] (w.refer task).controller := by
  obtain ⟨e, he⟩ | ⟨id, hx⟩ := hc
  · rw [refer, Controller.onRegistry_error he]
    exact .refl _
  · rw [refer, Controller.onRegistry_ok hx]
    exact .of_quiet rfl rfl rfl .refl

/-- A reference that is given back may end a domain, but only one that is registered no more. -/
theorem advances_giveBack (id : DomainId) : w.controller.Advances [] []
    { w.controller with registry := w.controller.registry.drop id } :=
  .of_quiet rfl
    (congrArg (Replica.mk · w.controller.slots.active) (Registry.index_drop id _))
    (Registry.lastId_drop id _) (Registry.quiet_drop id _)

def given {H : Type} (w : System H) : Request → List Event
  | .takeEvent => w.controller.takeEvent.1.toList
  | .drainEvents => w.controller.drainEvents.1
  | _ => []

theorem advances_controller {r : Request} (hr : r.Plain) :
    w.controller.Advances (w.deeds r) (w.given r) (w.perform r).controller := by
  cases r with
  | addDomain name timesliceNs preemptGraceNs room =>
    exact Controller.advances_addDomain name timesliceNs preemptGraceNs room
  | removeDomain id => exact Controller.advances_removeDomain id
  | lookupId id =>
    exact advances_refer ((Registry.lookupId_cases id _).imp_right fun ⟨d, _, hx⟩ => ⟨id, hx⟩)
  | lookupName name =>
    exact advances_refer
      ((Registry.lookupName_cases name _).imp_right fun ⟨id, d, _, _, hx⟩ => ⟨id, hx⟩)
  | copy id =>
    rw [perform]
    split
    · exact .of_quiet rfl rfl rfl .refl
    · exact .refl _
  | giveBack id =>
    rw [perform]
    split
    · exact advances_giveBack id
    · exact .refl _
  | postSwitch id => exact Controller.advances_postSwitch id
  | ringDoorbell => exact (aside_guarded ⟨rfl, rfl, _, _, rfl⟩ : w.Aside _).advances
  | session s request => exact (aside_performSession s request).advances
  | arbiter op => exact .of_quiet rfl rfl rfl .refl
  | logEvent | tearDown => exact hr.elim
  | takeEvent => exact Controller.advances_takeEvent
  | drainEvents => exact Controller.advances_drainEvents
  | start thread => exact Controller.advances_start thread
  | stop => exact Controller.advances_stop
  | settle => exact Controller.advances_settle
  | elapse =>
    rw [perform, deeds, Controller.elapse]
    split
    · exact Controller.advances_drainUpTo _
    · exact .refl _
  | serve rounds =>
    rw [perform, deeds]
    split
    · exact Controller.advances_drainUpTo rounds
    · exact .refl _

/-- What a request gives out is received. -/
theorem received_perform {H : Type} [Hardware H] (w : System H) (r : Request) :
    (w.perform r).received = w.received ++ (w.given r).map LogRecord.ofEvent := by
  cases r with
  | takeEvent | drainEvents => rfl
  | session s request =>
    obtain ⟨-, hreceived, -⟩ := aside_performSession (w := w) s request
    exact hreceived.trans (List.append_nil _).symm
  | lookupId | lookupName =>
    rw [perform, refer]
    split <;> exact (List.append_nil _).symm
  | copy | giveBack | serve =>
    rw [perform]
    split <;> exact (List.append_nil _).symm
  | _ => exact (List.append_nil _).symm

/-- The system came to its later state by these deeds, and whatever was taken out of the log
meanwhile was received. -/
structure Advances (w : System (Recorded H)) (deeds : List Deed) (w' : System (Recorded H)) :
    Prop where
  settings : w'.controller.settings = w.controller.settings
  controller : ∃ given, w.controller.Advances deeds given w'.controller ∧
    w'.received = w.received ++ given.map LogRecord.ofEvent

namespace Advances

omit [Hardware H]

variable {w' w'' : System (Recorded H)} {deeds deeds' : List Deed}

theorem refl (w : System (Recorded H)) : w.Advances [] w :=
  ⟨rfl, [], .refl _, (List.append_nil _).symm⟩

theorem trans (h : w.Advances deeds w') (h' : w'.Advances deeds' w'') :
    w.Advances (deeds ++ deeds') w'' := by
  obtain ⟨hs, given, hc, hreceived⟩ := h
  obtain ⟨hs', given', hc', hreceived'⟩ := h'
  refine ⟨hs'.trans hs, given ++ given', hc.trans hc', ?_⟩
  rw [hreceived', hreceived, List.map_append, List.append_assoc]

/-- The log accounts for an event for each deed after those that it accounted for. -/
theorem journal (h : w.Advances deeds w') : ∃ events : List Event,
    events.map Event.entry = deeds.map Deed.entry ∧
      ∀ recorded, w.Journal recorded → w'.Journal (recorded ++ events) := by
  obtain ⟨hs, given, hc, hreceived⟩ := h
  obtain ⟨events, he, hj⟩ := hc.journal
  refine ⟨events, he, ?_⟩
  rintro recorded ⟨taken, hlog, htaken⟩
  refine ⟨taken ++ given, hs ▸ hj hlog, ?_⟩
  rw [List.map_append, htaken, hreceived]

end Advances

/-- One request, or one step of the worker. -/
theorem advances_perform {r : Request} (hr : r.Plain) : w.Advances (w.deeds r) (w.perform r) :=
  ⟨(does_perform w r).settings, w.given r, advances_controller hr, received_perform w r⟩

end System

end AcceleratorScheduler
