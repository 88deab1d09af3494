import AcceleratorScheduler.Proofs.Demo.Exchange

/-! The script from its first line to its last. With valid settings, and memory enough for the two
exclusive queues, both requests are answered and the log tells what was done. -/
namespace AcceleratorScheduler.Demo

open AcceleratorScheduler.Ring (Queued formatted afterPush)

def oneDomain : Registry HostSimulation where
  hardware := { lastHandle := 2 }
  lastId := 1
  domains := [⟨1, "default", 1000000, 50000, 1, [⟨0, 1⟩, ⟨1, 2⟩]⟩]
  index := [1]
  names := [("default", 1)]

def twoDomains : Registry HostSimulation where
  hardware := { lastHandle := 4 }
  lastId := 2
  domains := oneDomain.domains ++ [⟨2, "compute", 4000000, 200000, 1, [⟨0, 3⟩, ⟨1, 4⟩]⟩]
  index := [1, 2]
  names := [("default", 1), ("compute", 2)]

/-- What is in the way of a domain, if anything is. -/
def roomObstacle? (room : Registry.Room) : Option Refusal :=
  if room.name && room.subDomains then none else some .outOfMemory

theorem eq_of_roomObstacle? {room : Registry.Room} (h : roomObstacle? room = none) : room = {} := by
  obtain ⟨_ | _, _ | _⟩ := room
  case true.true => rfl
  all_goals cases h

theorem add_default (clock : Int64) : Registry.add "default" 1000000 50000 {}
    (atTime { hardware := {} } clock) = .ok 1 (atTime oneDomain clock) := rfl

theorem add_compute (clock : Int64) : Registry.add "compute" 4000000 200000 {}
    (atTime oneDomain clock) = .ok 2 (atTime twoDomains clock) := rfl

theorem add_obstructed {name : String} {registry : Registry HostSimulation} {room : Registry.Room}
    {e : Refusal} (hn : Registry.Nameable name) (hl : registry.names.lookup name = none)
    (h : roomObstacle? room = some e) (timesliceNs preemptGraceNs : Nat) (clock : Int64) :
    ∃ registry', Registry.add name timesliceNs preemptGraceNs room (atTime registry clock) =
      .error e registry' := by
  rw [roomObstacle?] at h
  cases hr : room.name && room.subDomains with
  | true =>
    rw [hr] at h
    cases h
  | false =>
    rw [hr] at h
    cases h
    exact ⟨_, Registry.add_crowded timesliceNs preemptGraceNs hn hl hr⟩

def peopled (settings : Settings) : Scene where
  settings := settings
  told := [(.createScheduler, 0), (.createDomain, 1), (.createDomain, 2)]
  registry := twoDomains

def story : List (EventKind × UInt32) :=
  [(.createScheduler, 0), (.createDomain, 1), (.createDomain, 2), (.domainSwitch, 1),
    (.domainSwitch, 2)]

def served (settings : Settings) : Scene where
  settings := settings
  told := story
  registry :=
    { twoDomains with hardware := { twoDomains.hardware with resident := some 2, switches := 2 } }
  slots := ⟨some 2, some 1⟩

def opened (pid : Nat) : Arbiter where
  users := [{ id := 1, pid, writable := true }]
  nextUser := 2

section Steps

variable {s : Scene} (pid : Nat)

theorem leads_openSession (ha : s.arbiter = {}) :
    Leads s.Shows (Device.openSession pid true) ⟨1, pid⟩
      (Scene.Shows { s with arbiter := opened pid }) := by
  refine Scene.leads_serve ((Scene.leads_onArbiter ?_).bind .pure) rfl
  rw [ha]
  rfl

theorem leads_reserve (ha : s.arbiter = opened pid) :
    Leads s.Shows (Device.onController (Session.reserve ⟨1, pid⟩)) ()
      (Scene.Shows { s with arbiter := reserved pid }) := by
  refine Scene.leads_onController (Scene.leads_ensurePresent.bind (Scene.leads_onArbiter ?_)) rfl
  rw [ha]
  rfl

end Steps

section Mapping

/-- A ring of the queue, with room for two slots, has these ones waiting. -/
structure Carries (settings : Settings) (role : QueueRole) (m : Memory) (q : List Slot) : Prop where
  size_eq : m.size = settings.queueBytes role
  queued : ∃ h, Queued m h q ∧ 2 ≤ h.capacity

variable {settings : Settings} {allocator : Allocator} {room : RecordRoom} {role : QueueRole}
  {bytes : Memory} {e : Refusal}

/-- What is in the way of mapping all of a queue that nobody has opened, if anything is: its bytes
cannot be supplied, or there is no room for the record of the mapping. -/
def queueObstacle? (settings : Settings) (allocator : Allocator) (room : RecordRoom)
    (role : QueueRole) : Option Refusal :=
  match Arbiter.supply allocator (settings.queueBytes role) role.mask with
  | .error e => some e
  | .ok _ => if room 0 then none else some .outOfMemory

theorem queueObstacle?_eq_none : queueObstacle? settings allocator room role = none ↔
    (∃ bytes, Arbiter.supply allocator (settings.queueBytes role) role.mask = .ok bytes) ∧
      room 0 = true := by
  rw [queueObstacle?]
  cases Arbiter.supply allocator (settings.queueBytes role) role.mask with
  | error e => simp
  | ok bytes => simp

/-- Valid settings leave room for both requests, and for both responses. -/
theorem carries_supplied (hv : settings.Valid)
    (hs : Arbiter.supply allocator (settings.queueBytes role) role.mask = .ok bytes) :
    Carries settings role bytes [] := by
  obtain ⟨block, n, hm, hf⟩ := Arbiter.supply_eq_ok hs
  obtain ⟨-, -, -, hlength⟩ := SharedBuffer.allocate_eq_ok_iff.mp hm
  have hpage := hv.page role
  rw [← hlength] at hpage
  have hword : Ring.room block.size < UInt32.size := by
    by_contra hlarge
    rw [answer_of_error (Ring.format_refused (.inr (Nat.le_of_not_lt hlarge)))] at hf
    cases hf
  rw [answer_of_ok (Ring.format_granted (by omega) hword)] at hf
  cases hf
  refine ⟨(Ring.size_formatted block).trans hlength, .blank block.size,
    Ring.queued_formatted (by omega) hword, ?_⟩
  rw [Ring.Header.capacity_blank hword]
  omega

/-- With a block of memory of at most 2^37 bytes nothing is in the way. -/
theorem supply_delivered (hv : settings.Valid) (hsize : settings.queueBytes role ≤ 2 ^ 37)
    {block : Memory} (hblock : allocator (settings.queueBytes role) = .ok block)
    (hlength : block.size = settings.queueBytes role) :
    Arbiter.supply allocator (settings.queueBytes role) role.mask = .ok (formatted block) := by
  have hroom := hv.room role
  have hword := Ring.room_lt_of_le hsize
  rw [← hlength] at hroom hword
  have halloc := SharedBuffer.allocate_delivered role (hv.pages role).1 hblock hlength
  exact Arbiter.supply_of_format halloc (answer_of_ok (Ring.format_granted hroom hword))

variable {s : Scene} (pid : Nat) {u : User} (hl : s.arbiter.revoked = false)
  (hd : s.arbiter.dissolved = false) (hu : s.arbiter.user? 1 = some u) (hx : u.exclusive = true)
  (hb : s.arbiter.queues.get role = none)

include hl hd hu hx hb

theorem leads_mapWhole (hro : role.mask.isReadOnly = false)
    (hs : Arbiter.supply allocator (s.settings.queueBytes role) role.mask = .ok bytes)
    (hroom : room 0 = true) :
    Leads s.Shows (Device.onController (Session.mapQueue allocator ⟨1, pid⟩ role room))
      (wholeView s.settings role s.arbiter.memory.links.size)
      (Scene.Shows { s with
        arbiter := s.arbiter.lentWhole 1 role (s.settings.queueBytes role) bytes }) := by
  obtain ⟨lent, hopen, hmap⟩ := Arbiter.mapHandle_first hl hd hu (fun _ => hx) hb hs room
  have hview : wholeView s.settings role s.arbiter.memory.links.size =
      ⟨s.arbiter.memory.links.size, role, 1, s.settings.queueBytes role,
        !role.mask.isReadOnly⟩ := by
    rw [hro]
    rfl
  rw [if_pos hroom] at hmap
  rw [hview]
  exact Scene.leads_onController (Scene.leads_mapQueue hopen hmap) rfl

theorem declines_mapWhole (h : queueObstacle? s.settings allocator room role = some e) :
    Declines s.Shows (Device.onController (Session.mapQueue allocator ⟨1, pid⟩ role room)) e := by
  refine Scene.declines_onController (Scene.declines_mapQueue ?_)
  rw [queueObstacle?] at h
  cases hs : Arbiter.supply allocator (s.settings.queueBytes role) role.mask with
  | error e' =>
    rw [hs] at h
    cases h
    exact .unopened (Arbiter.openQueue_unsupplied hl hu (fun _ => hx) hb hs)
  | ok bytes =>
    obtain ⟨lent, hopen, hmap⟩ := Arbiter.mapHandle_first hl hd hu (fun _ => hx) hb hs room
    cases hroom : room 0 with
    | true => simp [hs, hroom] at h
    | false =>
      rw [hroom, if_neg Bool.false_ne_true] at hmap
      simp only [hs, hroom, Bool.false_eq_true, if_false, Option.some.injEq] at h
      exact .opened hopen (h ▸ hmap)

end Mapping

section Requests

variable {settings : Settings} {pid : Nat}

def Posted (settings : Settings) (pid : Nat) (requests : List (UInt64 × UInt64))
    (d : Device HostSimulation) : Prop :=
  ∃ m k, Carries settings .send m (requests.map fun r => (Request.switchDomain r.1 r.2).encode) ∧
    Carries settings .receive k [] ∧ ((peopled settings).withBytes pid m k).Shows d

theorem leads_post {requests : List (UInt64 × UInt64)} (hr : requests.length < 2)
    (seq id : UInt64) :
    Leads (Posted settings pid requests)
      (onView (wholeView settings .send 0) (Ring.push (Request.switchDomain seq id).encode)) ()
      (Posted settings pid (requests ++ [(seq, id)])) := by
  rintro d ⟨m, k, ⟨hm, h, hq, hcapacity⟩, hk, hd⟩
  have hroom : (requests.map fun r => (Request.switchDomain r.1 r.2).encode).length <
      h.capacity := by
    rw [List.length_map]
    omega
  obtain ⟨d', hpush, hd'⟩ := leads_push (s := peopled settings) hm hq hroom d hd
  have hpushed := hq.pushed hroom (Request.switchDomain seq id).encode
  refine ⟨d', hpush, _, k, ⟨?_, h.pushed, ?_, hcapacity⟩, hk, hd'⟩
  · simpa [afterPush] using hm
  · rwa [List.map_append]

end Requests

section Answers

variable {settings : Settings} {pid : Nat}

def Answered (settings : Settings) (pid : Nat) (d : Device HostSimulation) : Prop :=
  ∃ m k g, ∃ responses : List Response, k.size = settings.queueBytes .receive ∧
    Queued k g (responses.map Response.encode) ∧
    responses.map (fun r => (r.seq, r.status)) = [(1, 0), (2, 0)] ∧
    ((served settings).withBytes pid m k).Shows d

theorem leads_served : Leads (Posted settings pid [(1, 1), (2, 2)])
    (settled (Device.onController (Session.ringDoorbell ⟨1, pid⟩))) () (Answered settings pid) := by
  rintro d ⟨m, k, ⟨-, h, hq, -⟩, ⟨hsize, g, hk, hcapacity⟩, hd⟩
  refine leads_doorbell (s := (peopled settings).withBytes pid m k) rfl rfl (fun c hc => ?_) d hd
  have hids : ∀ r ∈ ([(1, 1), (2, 2)] : List (UInt64 × UInt64)), r.2 ≠ 0 ∧
      ∃ d, (peopled settings).registry.registered? r.2.toNat = some d := by
    simp only [List.forall_mem_cons]
    exact ⟨⟨by decide, _, rfl⟩, ⟨by decide, _, rfl⟩, nofun⟩
  obtain ⟨c', m', k', g', responses, hall, htexts, hsize', hk', hc'⟩ :=
    fits_rounds hc hq hk hcapacity hids
  have hm : c.contents .send = some m := by
    cases hc
    rfl
  have hdrained : c.drainRequests = c' := by
    rw [Controller.drainRequests, Controller.sendSlots_of_header hm hq.header_eq]
    exact hall _ hq.length_lt
  rw [hdrained]
  exact ⟨m', k', g', responses, hsize'.trans hsize, hk', htexts, c', hc', rfl⟩

def Served (settings : Settings) (pid : Nat) (d : Device HostSimulation) : Prop :=
  ∃ m k, ((served settings).withBytes pid m k).Shows d

theorem leads_answers : Leads (Answered settings pid) (collect (wholeView settings .receive 1) 2)
    ["response seq=1 status=0", "response seq=2 status=0"] (Served settings pid) := by
  rintro d ⟨m, k, g, responses, hk, hq, htexts, hd⟩
  have hlength : responses.length = 2 := by
    rw [← List.length_map (f := fun r : Response => (r.seq, r.status)), htexts]
    rfl
  have hprinted : responses.map responseText =
      ["response seq=1 status=0", "response seq=2 status=0"] := by
    have hfactor : responses.map responseText =
        (responses.map fun r => (r.seq, r.status)).map
          fun entry => s!"response seq={entry.1} status={entry.2}" := by
      rw [List.map_map]
      rfl
    rw [hfactor, htexts]
    rfl
  obtain ⟨k', hcollect⟩ := leads_collect (s := served settings) pid m hk hq
  obtain ⟨d', hrun, hd'⟩ := hcollect d hd
  rw [hlength, hprinted] at hrun
  exact ⟨d', hrun, m, k', hd'⟩

theorem leads_summary : Leads (Served settings pid) Device.status ⟨.running, some 2, some 1, 2⟩
    (Served settings pid) := by
  rintro d ⟨m, k, hd⟩
  obtain ⟨d', hstatus, hd'⟩ := Scene.leads_status d hd
  exact ⟨d', hstatus, m, k, hd'⟩

end Answers

section Report

def recordLine (time : Int64) (message : String) : String :=
  "[" ++ padLeft 12 (toString time) ++ "] " ++ message

def entryText (entry : EventKind × UInt32) : String :=
  padRight 20 entry.1.name ++ " " ++ toString entry.2.toNat

theorem recordText_events (events : List Event) :
    (events.map LogRecord.ofEvent).map recordText =
      List.zipWith recordLine (events.map Event.timestamp)
        ((events.map Event.entry).map entryText) := by
  induction events with
  | nil => rfl
  | cons event events ih =>
    rw [List.map_cons, List.map_cons, ih]
    rfl

def answerLines : List String :=
  ["response seq=1 status=0", "response seq=2 status=0",
    "active=2 shadow=1 domains=2 hw_switches=2"]

/-- The end of the story, as much of it as the log has room for. -/
def ending (settings : Settings) : List String :=
  (story.map entryText).drop (5 - settings.logCapacity.toNat)

theorem length_ending (settings : Settings) :
    (ending settings).length = min settings.logCapacity.toNat 5 := by
  rw [ending, List.length_drop, List.length_map]
  change 5 - (5 - settings.logCapacity.toNat) = _
  omega

theorem recordText_story {settings : Settings} {events : List Event}
    (h : events.map Event.entry = story.drop (story.length - settings.logCapacity.toNat)) :
    ∃ times : List Int64, times.length = min settings.logCapacity.toNat 5 ∧
      (events.map LogRecord.ofEvent).map recordText =
        List.zipWith recordLine times (ending settings) := by
  have htext : (events.map Event.entry).map entryText = ending settings := by
    rw [h, List.map_drop]
    rfl
  refine ⟨events.map Event.timestamp, ?_, ?_⟩
  · rw [← length_ending settings, ← htext, List.length_map, List.length_map, List.length_map]
  · rw [recordText_events, htext]

end Report

variable {settings : Settings} {allocator : Allocator} {provision : Provision}

/-- What is in the way of the script first, if anything is. -/
def obstacle? (settings : Settings) (allocator : Allocator) (provision : Provision) :
    Option Refusal :=
  provision.obstacle?.or <| (roomObstacle? provision.first).or <|
    (roomObstacle? provision.second).or <|
    (queueObstacle? settings allocator (provision.records .send) .send).or <|
    queueObstacle? settings allocator (provision.records .receive) .receive

/-- The script step by step: each leads to what the next one needs. -/
theorem script_granted (pid : Nat) (hv : settings.Valid)
    (h : obstacle? settings allocator provision = none) (clock : Int64) :
    ∃ lines last, script allocator pid provision
        { settings, stage := .waiting (provision.hardware clock) } = .ok lines last ∧
      ∃ times : List Int64, times.length = min settings.logCapacity.toNat 5 ∧
        lines = answerLines ++ List.zipWith recordLine times (ending settings) := by
  simp only [obstacle?, Option.or_eq_none_iff] at h
  obtain ⟨hcreate, hfirst, hsecond, hsend, hreceive⟩ := h
  obtain ⟨⟨sent, hsent⟩, hrecord⟩ := queueObstacle?_eq_none.mp hsend
  obtain ⟨⟨answered, hanswered⟩, hrecord'⟩ := queueObstacle?_eq_none.mp hreceive
  rw [script, eq_of_roomObstacle? hfirst, eq_of_roomObstacle? hsecond]
  refine (Scene.leads_create hv hcreate).next (fun d hd => ?_) ⟨clock, rfl⟩
  refine (Scene.leads_addDomain add_default rfl rfl).next (fun d hd => ?_) hd
  refine (Scene.leads_addDomain add_compute rfl rfl).next (fun d hd => ?_) hd
  -- The scene is given its name, or all later ones would be told as updates of the first.
  change (peopled settings).Shows d at hd
  refine (leads_openSession pid rfl).next (fun d hd => ?_) hd
  refine (leads_reserve pid rfl).next (fun d hd => ?_) hd
  change Scene.Shows { peopled settings with arbiter := reserved pid } d at hd
  refine (leads_mapWhole pid rfl rfl rfl rfl rfl rfl hsent hrecord).next (fun d hd => ?_) hd
  refine (leads_mapWhole pid rfl rfl rfl rfl rfl rfl hanswered hrecord').next
    (fun d hd => ?_) hd
  have hposted : Posted settings pid [] d :=
    ⟨_, _, carries_supplied hv hsent, carries_supplied hv hanswered, hd⟩
  refine (leads_post (by decide) 1 1).next (fun d hd => ?_) hposted
  refine (leads_post (by decide) 2 2).next (fun d hd => ?_) hd
  refine leads_served.next (fun d hd => ?_) hd
  refine leads_answers.next (fun d hd => ?_) hd
  refine leads_summary.next (fun d hd => ?_) hd
  obtain ⟨m, k, hd⟩ := hd
  have hswitches : d.hardware.switches = 2 := hd.switches
  obtain ⟨events, d', hdrain, hentries⟩ := Scene.drainLog_eq_ok hd
  obtain ⟨times, hlength, htext⟩ := recordText_story hentries
  refine ⟨_, _, (bind_ok (get_apply d)).trans ((bind_ok hdrain).trans rfl), times, hlength, ?_⟩
  rw [htext, hswitches]
  rfl

/-- The script ends at the first thing that is in its way. -/
theorem script_declines (pid : Nat) (hv : settings.Valid) {e : Refusal}
    (h : obstacle? settings allocator provision = some e) :
    Declines (Scene.Closed settings provision) (script allocator pid provision) e := by
  simp only [obstacle?, Option.or_eq_some_iff] at h
  obtain hcreate | ⟨hcreate, h⟩ := h
  · exact (Scene.declines_create hv hcreate).bind
  refine (Scene.leads_create hv hcreate).declines ?_
  obtain hfirst | ⟨hfirst, h⟩ := h
  · have hname : Registry.Nameable "default" := ⟨by decide, by decide⟩
    exact (Scene.declines_addDomain (add_obstructed hname rfl hfirst _ _)).bind
  rw [eq_of_roomObstacle? hfirst]
  refine (Scene.leads_addDomain add_default rfl rfl).declines ?_
  obtain hsecond | ⟨hsecond, h⟩ := h
  · have hname : Registry.Nameable "compute" := ⟨by decide, by decide⟩
    exact (Scene.declines_addDomain (add_obstructed hname rfl hsecond _ _)).bind
  rw [eq_of_roomObstacle? hsecond]
  refine (Scene.leads_addDomain add_compute rfl rfl).declines ?_
  change Declines (peopled settings).Shows _ e
  refine (leads_openSession pid rfl).declines ?_
  refine (leads_reserve pid rfl).declines ?_
  change Declines (Scene.Shows { peopled settings with arbiter := reserved pid }) _ e
  obtain hsend | ⟨hsend, hreceive⟩ := h
  · exact (declines_mapWhole pid rfl rfl rfl rfl rfl hsend).bind
  obtain ⟨⟨sent, hsent⟩, hrecord⟩ := queueObstacle?_eq_none.mp hsend
  refine (leads_mapWhole pid rfl rfl rfl rfl rfl rfl hsent hrecord).declines ?_
  exact (declines_mapWhole pid rfl rfl rfl rfl rfl hreceive).bind

/-- If nothing is in its way, a run prints the same in every process but for the times. -/
theorem run_granted (hv : settings.Valid) (h : obstacle? settings allocator provision = none)
    (pid : Nat) (clock : Int64) :
    ∃ times : List Int64, times.length = min settings.logCapacity.toNat 5 ∧
      run settings allocator pid provision clock =
        .ok (answerLines ++ List.zipWith recordLine times (ending settings)) := by
  obtain ⟨lines, last, hrun, times, hlength, rfl⟩ := script_granted pid hv h clock
  refine ⟨times, hlength, ?_⟩
  rw [run, answer_of_ok hrun]

theorem run_declined (hv : settings.Valid) {e : Refusal}
    (h : obstacle? settings allocator provision = some e) (pid : Nat) (clock : Int64) :
    run settings allocator pid provision clock = .error e := by
  obtain ⟨d, hd⟩ := script_declines pid hv h _ ⟨clock, rfl⟩
  rw [run, answer_of_error hd]

/-- With memory for the two exclusive queues both requests are answered, the second domain is on the
hardware, and the log gives the youngest of the five events, as many as it has room for, oldest
first. Their times are what the clock showed. -/
theorem run_answers_both_switches (pid : Nat) (hv : settings.Valid)
    (hsize : ∀ role, settings.queueBytes role ≤ 2 ^ 37)
    (hblocks : ∀ role, role.isExclusive = true → ∃ block,
      allocator (settings.queueBytes role) = .ok block ∧ block.size = settings.queueBytes role) :
    ∃ times : List Int64, times.length = min settings.logCapacity.toNat 5 ∧
      run settings allocator pid = .ok
        (["response seq=1 status=0", "response seq=2 status=0",
          "active=2 shadow=1 domains=2 hw_switches=2"] ++
          List.zipWith recordLine times
            (["Create scheduler     0", "Create domain        1", "Create domain        2",
              "Domain switch        1", "Domain switch        2"].drop
                (5 - settings.logCapacity.toNat))) := by
  have hqueue (role : QueueRole) (hrole : role.isExclusive = true) :
      queueObstacle? settings allocator .ample role = none := by
    obtain ⟨block, hblock, hlength⟩ := hblocks role hrole
    exact queueObstacle?_eq_none.mpr ⟨⟨_, supply_delivered hv (hsize role) hblock hlength⟩, rfl⟩
  have hfree : obstacle? settings allocator {} = none := by
    simp only [obstacle?, Option.or_eq_none_iff]
    exact ⟨rfl, rfl, rfl, hqueue .send rfl, hqueue .receive rfl⟩
  exact run_granted hv hfree pid 0

/-- A log of three events has lost the first two. -/
theorem run_answers_both_switches_evicting :
    let settings : Settings := { logCapacity := 3 }
    settings.Valid ∧ (∀ role, settings.queueBytes role ≤ 2 ^ 37) ∧
      (∀ role, role.isExclusive = true → ∃ block,
        Allocator.process (settings.queueBytes role) = .ok block ∧
          block.size = settings.queueBytes role) ∧
      ∃ times : List Int64, times.length = 3 ∧
        run settings Allocator.process 1 = .ok
          (["response seq=1 status=0", "response seq=2 status=0",
            "active=2 shadow=1 domains=2 hw_switches=2"] ++
            List.zipWith recordLine times
              ["Create domain        2", "Domain switch        1", "Domain switch        2"]) := by
  intro settings
  have hv : settings.Valid := by decide
  have hsize : ∀ role, settings.queueBytes role ≤ 2 ^ 37 := by
    intro role
    cases role <;> decide
  have hblocks : ∀ role, role.isExclusive = true → ∃ block,
      Allocator.process (settings.queueBytes role) = .ok block ∧
        block.size = settings.queueBytes role := by
    intro role hrole
    have hbound : settings.queueBytes role < 32 <<< 30 := by cases role <;> decide
    exact ⟨Memory.zeroed (settings.queueBytes role), if_pos hbound, rfl⟩
  exact ⟨hv, hsize, hblocks, run_answers_both_switches 1 hv hsize hblocks⟩

end AcceleratorScheduler.Demo
