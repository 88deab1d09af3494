import AcceleratorScheduler.Hardware.Simulation
import AcceleratorScheduler.Proofs.Controller.Chronicle
import AcceleratorScheduler.Proofs.Device.Relays

/-! The event log is a journal of the device. It begins with the creation of the scheduler, tells of
every deed once and in order, and of nothing else; so whoever replays it knows the registered
domains, the active one, and what the hardware accepted. Main statement: `journal_is_faithful`. -/
namespace AcceleratorScheduler.Deployment

variable {H : Type} [Hardware H]

def deeds (p : Deployment H) : Request → List Deed
  | .addDomain name timesliceNs preemptGraceNs room => Deed.ofAnswer .added
      (answer (Device.addDomain name timesliceNs preemptGraceNs room) p.device).1
  | .removeDomain id => Deed.ofAnswer (fun _ => .removed id)
      (answer (Device.removeDomain id) p.device).1
  | .controller request =>
    match p.device.stage with
    | .waiting _ => []
    | .created c => (p.system c).deeds request
  | _ => []

def chronicle (p : Deployment H) : List Request → List Deed
  | [] => []
  | request :: requests => p.deeds request ++ (p.perform request).chronicle requests

def Request.Plain : Request → Prop
  | .shutdown => False
  | .controller request => request.Plain
  | _ => True

theorem Request.Plain.relayed {request : Request} (h : request.Plain) : request.relayed.Plain := by
  cases request with
  | shutdown => exact h.elim
  | controller => exact h
  | _ => trivial

variable {settings : Settings} {requests : List Request}

section Deeds

variable {H : Type} [Hardware H] {p : Deployment H} {w : System H}

/-- The deeds of a request to the device are those of the request to the controller, unless the
device turns it away. -/
theorem deeds_of_system? (h : p.system? = some w) (request : Request) : p.deeds request =
    if p.device.gone && request.viaDevice then [] else w.deeds request.relayed := by
  obtain ⟨c, hs, rfl⟩ := system?_eq_some.mp h
  have hserve {α : Type} {task : Controller.Task H α} (deed : α → Deed) :
      Deed.ofAnswer deed (answer (Device.serve task) p.device).1 =
        if p.device.gone && true then [] else Deed.ofAnswer deed (answer task c).1 := by
    rcases Bool.eq_false_or_eq_true p.device.gone with hg | hg
    · rw [answer_of_error (Device.serve_gone hg), hg]
      rfl
    · rw [Device.answer_serve_present hg, Device.answer_onController hs, hg]
      rfl
  cases request with
  | addDomain | removeDomain => exact hserve _
  | controller request =>
    simp only [deeds, hs, Request.viaDevice, Bool.and_false]
    rfl
  | _ => exact (ite_self _).symm

/-- Before the scheduler is created nothing is done. -/
theorem deeds_of_waiting {hw : H} (hs : p.device.stage = .waiting hw) (request : Request) :
    p.deeds request = [] := by
  have hserve {α : Type} {task : Controller.Task H α} (deed : α → Deed) :
      Deed.ofAnswer deed (answer (Device.serve task) p.device).1 = [] := by
    obtain ⟨e, he⟩ : ∃ e, answer (Device.serve task) p.device = (.error e, p.device) :=
      Device.answer_serve_waiting hs
    rw [he]
    rfl
  cases request with
  | addDomain | removeDomain => exact hserve _
  | controller request => simp only [deeds, hs]
  | _ => rfl

end Deeds

variable {p : Deployment (Recorded H)} {w : System (Recorded H)} {c : Controller (Recorded H)}
  {hw : Recorded H}

/-- One request to a device whose scheduler was created. -/
theorem advances_perform (h : p.system? = some w) {request : Request} (hr : request.Plain) :
    ∃ w', (p.perform request).system? = some w' ∧ w.Advances (p.deeds request) w' := by
  refine ⟨_, system?_perform h request, ?_⟩
  rw [deeds_of_system? h]
  split
  · exact .refl w
  · exact System.advances_perform hr.relayed

/-- The requests that follow the creation. -/
theorem advances_run (h : p.system? = some w) (hr : ∀ r ∈ requests, r.Plain) :
    ∃ w', (p.run requests).system? = some w' ∧ w.Advances (p.chronicle requests) w' := by
  induction requests generalizing p w with
  | nil => exact ⟨w, h, .refl w⟩
  | cons request requests ih =>
    obtain ⟨w', h', ha⟩ := advances_perform h (hr request List.mem_cons_self)
    obtain ⟨w'', h'', ha'⟩ := ih h' fun r hm => hr r (List.mem_cons_of_mem _ hm)
    exact ⟨w'', h'', ha.trans ha'⟩

/-- A run either has not created the scheduler yet, or went on from its creation. -/
theorem run_waiting (h : Waiting settings hw p) (hr : ∀ r ∈ requests, r.Plain) :
    Waiting settings hw (p.run requests) ∨
      ∃ c w, Controller.new settings hw = .ok c ∧ (p.run requests).system? = some w ∧
        (logged c).Advances (p.chronicle requests) w := by
  induction requests generalizing p with
  | nil => exact .inl h
  | cons request requests ih =>
    have hrest : ∀ r ∈ requests, r.Plain := fun r hm => hr r (List.mem_cons_of_mem _ hm)
    rw [chronicle, deeds_of_waiting h.stage]
    obtain hwait | ⟨thread, c, -, -, hn, hc⟩ := h.perform request
    · exact ih hwait hrest
    · obtain ⟨w, hs, ha⟩ := advances_run hc hrest
      have hstart : (logged c).Advances [] (born c thread) :=
        System.advances_perform (r := .start thread) trivial
      exact .inr ⟨c, w, hn, hs, hstart.trans ha⟩

structure Fresh (w : System (Recorded H)) : Prop where
  journal : ∃ event : Event, event.entry = (.createScheduler, 0) ∧ w.Journal [event]
  replica : w.controller.replica = {}
  accepted : w.controller.accepted = []
  given : w.controller.Given

theorem fresh_of_new {hw : H}
    (hc : Controller.new settings ({ hardware := hw } : Recorded H) = .ok c) :
    Fresh (logged c) := by
  have hjournal := journal_logged hc
  obtain ⟨_, -, hc⟩ := of_bind_eq_ok hc
  obtain ⟨log, -, hc⟩ := of_bind_eq_ok hc
  cases hc
  exact ⟨hjournal, rfl, rfl, nofun⟩

/-- As long as ids fit an event, the events that the log has recorded are the creation of the
scheduler and, in order, those of the deeds of the run. Replayed, they give the registered domains
and the active slot, and their switches are what the hardware accepted. -/
theorem journal_is_faithful {hw : H} (hr : ∀ r ∈ requests, r.Plain)
    (hc : ((installed settings ({ hardware := hw } : Recorded H)).run requests).system? = some w)
    (hid : w.controller.registry.lastId < UInt32.size) :
    let deeds := (installed settings ({ hardware := hw } : Recorded H)).chronicle requests
    ∃ records, w.Journal records ∧
      records.map Event.entry = (.createScheduler, 0) :: deeds.map Deed.entry ∧
      (∀ deed ∈ deeds, deed.entry.2.toNat = deed.id) ∧
      Replica.replay (records.map Event.entry) =
        ⟨w.controller.registry.index, w.controller.slots.active⟩ ∧
      (records.map Event.entry).filterMap switchedTo? = w.controller.accepted := by
  intro deeds
  obtain hwait | ⟨c, w', hn, hs, ha⟩ :=
    run_waiting (waiting_installed settings ({ hardware := hw } : Recorded H)) hr
  · cases hwait.system?.symm.trans hc
  · cases hs.symm.trans hc
    obtain ⟨⟨first, hfirst, hj⟩, hreplica, haccepted, hgiven⟩ := fresh_of_new hn
    obtain ⟨events, he, hnext⟩ := ha.journal
    obtain ⟨-, given, hadvances, -⟩ := ha
    have hentries : ([first] ++ events).map Event.entry =
        (.createScheduler, 0) :: deeds.map Deed.entry := by
      rw [List.map_append, List.map_singleton, hfirst, he]
      rfl
    have hbound : ∀ deed ∈ deeds, deed.id < UInt32.size := fun deed hm =>
      Nat.lt_of_le_of_lt ((hadvances.given hgiven).2 deed hm) hid
    refine ⟨_, hnext _ hj, hentries, ?_, ?_, ?_⟩
    · intro deed hm
      cases deed <;> exact toNat_eventData (hbound _ hm)
    · have hafter := hadvances.replica
      rw [hreplica] at hafter
      rw [Replica.replay, hentries, List.foldl_cons, Deed.foldl_observe_entries hbound]
      exact hafter.symm
    · rw [hentries, hadvances.accepted, haccepted]
      exact Deed.filterMap_switchedTo_entries hbound

/-- Two domains are added, a third one is refused; the device switches to the first and to the
second, and the first can be removed once it has left both slots. -/
private def errands : List Request :=
  [.removeDomain 1, .create, .addDomain "a" 1000000 50000, .addDomain "b" 1000000 50000,
    .addDomain "a" 1000000 50000, .controller (.postSwitch 1), .controller .settle,
    .controller (.postSwitch 2), .controller .settle, .removeDomain 1,
    .controller (.postSwitch 2), .controller .settle, .getLog, .removeDomain 1, .create]

theorem journal_is_faithful_errands :
    ∃ w : System (Recorded HostSimulation),
      ((installed {} { hardware := {} }).run errands).system? = some w ∧
      w.controller.registry.lastId < UInt32.size ∧
      (installed {} ({ hardware := {} } : Recorded HostSimulation)).chronicle errands =
        [.added 1, .added 2, .switched 1, .switched 2, .switched 2, .removed 1] ∧
      w.received.length = 1 ∧
      w.controller.log.kept.map Event.entry = [(.createDomain, 1), (.createDomain, 2),
        (.domainSwitch, 1), (.domainSwitch, 2), (.domainSwitch, 2), (.removeDomain, 1)] ∧
      ∃ records, w.Journal records ∧
        records.map Event.entry = (.createScheduler, 0) :: w.controller.log.kept.map Event.entry ∧
        Replica.replay (records.map Event.entry) = ⟨[2], some 2⟩ := by
  let start : Deployment (Recorded HostSimulation) := installed {} { hardware := {} }
  have hmade : ((start.run errands).system?.map fun w =>
      (w.controller.registry.lastId, w.controller.replica, w.received.length,
        w.controller.log.kept.map Event.entry)) =
      some (2, ⟨[2], some 2⟩, 1, [(.createDomain, 1), (.createDomain, 2), (.domainSwitch, 1),
        (.domainSwitch, 2), (.domainSwitch, 2), (.removeDomain, 1)]) := by
    decide +kernel
  obtain ⟨w, hw, hstate⟩ := Option.map_eq_some_iff.mp hmade
  obtain ⟨hlast, hreplica, hreceived, hkept⟩ : w.controller.registry.lastId = 2 ∧
      w.controller.replica = ⟨[2], some 2⟩ ∧ w.received.length = 1 ∧
      w.controller.log.kept.map Event.entry = _ := by simpa only [Prod.mk.injEq] using hstate
  have hid : w.controller.registry.lastId < UInt32.size := by
    rw [hlast]
    decide
  have hdeeds : start.chronicle errands =
      [.added 1, .added 2, .switched 1, .switched 2, .switched 2, .removed 1] := by decide +kernel
  have hplain : ∀ r ∈ errands, r.Plain := by
    simp [errands, Request.Plain, System.Request.Plain]
  obtain ⟨records, hj, hentries, -, hreplay, -⟩ := journal_is_faithful hplain hw hid
  refine ⟨w, hw, hid, hdeeds, hreceived, hkept, records, hj, ?_, hreplay.trans hreplica⟩
  rw [hentries, hdeeds, hkept]
  rfl

end AcceleratorScheduler.Deployment
