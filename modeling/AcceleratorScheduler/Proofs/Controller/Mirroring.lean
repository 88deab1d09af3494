import AcceleratorScheduler.Hardware.Simulation
import AcceleratorScheduler.Proofs.Arbiter.Shielding
import AcceleratorScheduler.Proofs.Controller.Isolation
import AcceleratorScheduler.Proofs.Ring.Fifo

/-! The event queue mirrors the event log. From the request on that opened it, its ring holds the
latest events that were recorded in the log, as many as there is room for, and sessions cannot
change a byte of it; main statement: `event_queue_mirrors_journal`. -/
namespace AcceleratorScheduler

open Arbiter (Operation Ledger)

namespace Ring

variable {α : Type}

def latest (room : Nat) (l : List α) : List α := l.drop (l.length - room)

/-- A list that gives up its first element for the newest one when it is full holds the latest. -/
theorem latest_concat {room : Nat} (hroom : 0 < room) (l : List α) (x : α) :
    latest room (l ++ [x]) =
      (if (latest room l).length = room then (latest room l).tail else latest room l) ++ [x] := by
  have hlength : (l ++ [x]).length = l.length + 1 := List.length_append
  rw [latest, hlength, List.drop_append_of_le_length (by omega)]
  congr 1
  simp only [latest, List.length_drop, List.tail_drop]
  split
  next => congr 1; omega
  next => congr 1; omega

end Ring

namespace System

/-- The ring of the event queue holds the latest of the events, and the queue is shielded. -/
structure Mirrors (l : Ledger) (b : SharedBuffer) (events : List Event) : Prop where
  present : l.arbiter.queues.get .event = some b
  shielded : l.arbiter.Shielded l.grants b.region
  queued : ∃ h, Ring.Queued (l.arbiter.memory.bytes b.region) h
      ((Ring.latest (Ring.room b.size - 1) events).map Event.encode) ∧
    h.slots.toNat = Ring.room b.size

/-- Acts of which only the recording of events concerns the event queue. -/
def Act.Proper : Act → Prop
  | ask op => op.Proper
  | record _ => True

variable {l : Ledger} {b b' : SharedBuffer} {events : List Event} {acts : List Act}

namespace Mirrors

/-- What is asked for properly leaves the bytes as they are. -/
theorem ask (h : Mirrors l b events) (hb : l.arbiter.Balanced l.grants) {op : Operation}
    (hop : op.Proper) (hb' : (l.perform op).arbiter.queues.get .event = some b')
    (hr : b'.region = b.region) : Mirrors (l.perform op) b' events := by
  have hsize : b'.size = b.size := by
    cases l.tenure_perform op .event with
    | vacated hnone => cases hnone.symm.trans hb'
    | kept hbefore hbehind _ hs =>
      cases hb'.symm.trans hbehind
      cases h.present.symm.trans hbefore
      exact hs
    | founded _ hnone => cases hnone.symm.trans h.present
  refine ⟨hb', hr ▸ Ledger.shielded_perform hb h.shielded op, ?_⟩
  rw [hr, hsize, Ledger.bytes_perform h.shielded hop]
  exact h.queued

/-- An event that is recorded goes to the end of the ring, at the cost of the oldest one if there is
no room. -/
theorem record (h : Mirrors l b events) (hb : l.arbiter.Balanced l.grants) (event : Event) :
    Mirrors (l.perform (Act.record event).operation) b (events ++ [event]) := by
  have hserve := Operation.perform_serving .event (Ring.pushOverwrite event.encode) l.arbiter
  have hl := Ledger.perform_of_quiet (l := l) (Act.record event).operation rfl
    (congrArg Prod.fst hserve)
  have hshielded := Ledger.shielded_perform hb h.shielded (Act.record event).operation
  rw [hl] at hshielded ⊢
  rw [Act.operation, hserve] at hshielded ⊢
  rw [Arbiter.onBuffer_of_some .event _ h.present] at hshielded ⊢
  refine ⟨h.present, hshielded, ?_⟩
  obtain ⟨header, hq, hslots⟩ := h.queued
  obtain ⟨bytes, hpush, hf⟩ := Ring.pushOverwrite_follows event.encode hq
  obtain ⟨header', hslots', hq'⟩ := hf.queued
  refine ⟨header', ?_, (congrArg UInt32.toNat hslots').trans hslots⟩
  rw [answer_of_ok hpush, SharedMemory.bytes_setBytes _ h.shielded.inside, if_pos rfl]
  have hroom : 0 < Ring.room b.size - 1 := by
    have htwo := hq.circular.two_le
    omega
  rw [Ring.Header.capacity, hslots, List.length_map] at hq'
  rw [Ring.latest_concat hroom, List.map_append]
  split at hq'
  next hfull => rwa [if_pos hfull, List.map_tail]
  next hfull => rwa [if_neg hfull]

theorem act (h : Mirrors l b events) (hb : l.arbiter.Balanced l.grants) {act : Act}
    (hact : act.Proper) (hb' : (l.perform act.operation).arbiter.queues.get .event = some b')
    (hr : b'.region = b.region) :
    Mirrors (l.perform act.operation) b' (events ++ [act].filterMap Act.event?) := by
  cases act with
  | ask op =>
    have hnone : events ++ [Act.ask op].filterMap Act.event? = events := List.append_nil events
    rw [hnone]
    exact h.ask hb hact hb' hr
  | record event =>
    have hnext := h.record hb event
    cases hb'.symm.trans hnext.present
    exact hnext

/-- A run of acts. The induction goes back from its end: a buffer that is still in its place then
was there before each act. -/
theorem run (h : Mirrors l b events) (hb : l.arbiter.Balanced l.grants)
    (hacts : ∀ act ∈ acts, act.Proper)
    (hb' : (l.run (acts.map Act.operation)).arbiter.queues.get .event = some b')
    (hr : b'.region = b.region) :
    Mirrors (l.run (acts.map Act.operation)) b' (events ++ acts.filterMap Act.event?) := by
  induction acts using List.reverseRecOn generalizing b' with
  | nil =>
    cases hb'.symm.trans h.present
    rw [List.filterMap_nil, List.append_nil]
    exact h
  | append_singleton acts act ih =>
    rw [List.map_append, List.map_singleton, Ledger.run_concat] at hb' ⊢
    have hbalanced := (Ledger.carries_run hb (acts.map Act.operation)).1.balanced
    have hshielded := Ledger.shielded_run hb h.shielded (acts.map Act.operation)
    cases Ledger.tenure_perform (l.run (acts.map Act.operation)) act.operation .event with
    | vacated hnone => cases hnone.symm.trans hb'
    | kept hbefore hbehind hsame =>
      cases hb'.symm.trans hbehind
      have hacts' : ∀ act ∈ acts, act.Proper := fun act hm =>
        hacts act (List.mem_append_left _ hm)
      have hnext := (ih hacts' hbefore (hsame.symm.trans hr)).act hbalanced
        (hacts act (List.mem_append_right _ (List.mem_singleton_self act))) hb' hsame
      rwa [List.append_assoc, ← List.filterMap_append] at hnext
    | founded _ _ hbehind hnew =>
      cases hb'.symm.trans hbehind
      exact absurd hshielded.inside (by rw [← hr, hnew]; exact Nat.lt_irrefl _)

/-- The operations of an agent that opens the queue: when the buffer comes its ring is empty, and
what they do then leaves it so. -/
theorem of_opened (hb : l.arbiter.Balanced l.grants) (ha : l.arbiter.Anchored l.grants)
    {ops : List Operation} (hops : ∀ op ∈ ops, op.Proper ∧ op.supplies .event = false)
    (hnone : l.arbiter.queues.get .event = none)
    (hsome : (l.run ops).arbiter.queues.get .event = some b) : Mirrors (l.run ops) b [] := by
  induction ops using List.reverseRecOn generalizing b with
  | nil => cases hnone.symm.trans hsome
  | append_singleton ops op ih =>
    have hbalanced := (Ledger.carries_run hb ops).1.balanced
    have hanchored := Ledger.anchored_run hb ha ops
    rw [Ledger.run_concat] at hsome ⊢
    obtain ⟨hproper, hsupplies⟩ := hops op (List.mem_append_right _ (List.mem_singleton_self op))
    have hops' : ∀ op ∈ ops, op.Proper ∧ op.supplies .event = false := fun op hm =>
      hops op (List.mem_append_left _ hm)
    cases hbefore : (l.run ops).arbiter.queues.get .event with
    | none =>
      cases hv : op.view?.all fun v => (l.run ops).grants.any (·.view == v) with
      | false =>
        rw [Ledger.perform_of_refused hv] at hsome
        cases hbefore.symm.trans hsome
      | true =>
        obtain ⟨hview, hp⟩ := Ledger.perform_of_granted hv
        rw [hp] at hsome ⊢
        obtain ⟨hshielded, hempty⟩ :=
          Arbiter.Shielded.of_founded hbalanced hanchored hview hsupplies hbefore hsome
        refine ⟨hsome, hshielded, ?_⟩
        rwa [Ring.latest, List.drop_nil, List.map_nil]
    | some b₀ =>
      refine (ih hops' hbefore).ask hbalanced hproper hsome ?_
      cases Ledger.tenure_perform (l.run ops) op .event with
      | vacated hgone => cases hgone.symm.trans hsome
      | kept hkept hbehind hsame =>
        cases hbefore.symm.trans hkept
        cases hsome.symm.trans hbehind
        exact hsame
      | founded _ hgone => cases hgone.symm.trans hbefore

end Mirrors

/-- Sessions ask for queues and mappings, and write nothing themselves. -/
theorem proper_of_asks {s : Session} {request : Session.Request} {op : Operation}
    (h : request.Asks s op) : op.Proper ∧ op.supplies .event = false := by
  cases request with
  | createQueue =>
    obtain ⟨_, rfl⟩ := h
    exact ⟨trivial, rfl⟩
  | mapQueue => obtain ⟨_, rfl⟩ | ⟨_, _, _, _, rfl⟩ := h <;> exact ⟨trivial, rfl⟩
  | close => obtain rfl | rfl := h <;> exact ⟨trivial, rfl⟩
  | ringDoorbell => cases h
  | _ => cases h; exact ⟨trivial, rfl⟩

/-- Requests that use views as they are meant to be used, and leave the event queue to the
scheduler. -/
def Request.Proper : Request → Prop
  | .arbiter op => op.Proper
  | _ => True

/-- What an agent may ask for: its sessions and the views that were granted are all that it has. -/
def Request.FromAgent : Request → Prop
  | .session _ _ => True
  | .arbiter op => op.Proper
  | _ => False

theorem Request.Proper.act {r : Request} (hr : r.Proper) {act : Act} (ha : r.Asks act) :
    act.Proper := by
  have hserving (h : Serving act) : act.Proper := by
    cases h with
    | queue hq => exact hq
    | notice => trivial
  cases r with
  | session s request =>
    obtain ⟨op, h, rfl⟩ := ha
    exact (proper_of_asks h).1
  | arbiter op =>
    cases ha
    exact hr
  | logEvent =>
    obtain ⟨_, rfl⟩ := ha
    trivial
  | tearDown =>
    cases ha
    trivial
  | _ => exact hserving ha

/-- What an agent asks for records no event. -/
theorem Request.FromAgent.asks {r : Request} (hr : r.FromAgent) {act : Act} (ha : r.Asks act) :
    ∃ op, act = .ask op ∧ op.Proper := by
  cases r with
  | session s request =>
    obtain ⟨op, h, rfl⟩ := ha
    exact ⟨op, rfl, (proper_of_asks h).1⟩
  | arbiter op => exact ⟨op, ha, hr⟩
  | _ => cases hr

variable {H : Type} {w w₀ w₁ : System H}

def bytes (w : System H) (region : RegionId) : Memory := w.controller.arbiter.memory.bytes region

variable [Hardware H]

/-- The log accounts for these events to begin with, and after each request for those as well that
the request recorded; all in all the requests recorded the latter. -/
def Grows (w : System H) (recorded : List Event) : List Request → List Event → Prop
  | [], records => w.Journal recorded ∧ records = []
  | r :: requests, records => w.Journal recorded ∧ ∃ new rest, records = new ++ rest ∧
      (w.perform r).Grows (recorded ++ new) requests rest

theorem Grows.journal {recorded records : List Event} {requests : List Request}
    (h : w.Grows recorded requests records) : (w.run requests).Journal (recorded ++ records) := by
  induction requests generalizing w recorded records with
  | nil =>
    obtain ⟨hj, rfl⟩ := h
    rwa [List.append_nil]
  | cons r requests ih =>
    obtain ⟨-, new, rest, rfl, hrest⟩ := h
    rw [← List.append_assoc]
    exact ih hrest

/-- The events among the acts of a run are those that its requests recorded. -/
theorem grows_run {recorded : List Event} (hj : w.Journal recorded) (requests : List Request) :
    ∃ acts : List Act, (∀ act ∈ acts, ∃ r ∈ requests, r.Asks act) ∧
      (w.run requests).ledger = w.ledger.run (acts.map Act.operation) ∧
      w.Grows recorded requests (acts.filterMap Act.event?) := by
  induction requests generalizing w recorded with
  | nil => exact ⟨[], nofun, rfl, hj, rfl⟩
  | cons r requests ih =>
    obtain ⟨-, acts, hacts, hl, hnext⟩ := does_perform w r
    obtain ⟨acts', hacts', hl', hgrows⟩ := ih (hnext recorded hj)
    refine ⟨acts ++ acts', fun act hm => ?_, ?_, hj, _, _, List.filterMap_append, hgrows⟩
    · rcases List.mem_append.mp hm with hm | hm
      · exact ⟨r, List.mem_cons_self, hacts act hm⟩
      · obtain ⟨r', hr', ha⟩ := hacts' act hm
        exact ⟨r', List.mem_cons_of_mem _ hr', ha⟩
    · rw [List.map_append, Ledger.run, List.foldl_append]
      change ((w.perform r).run requests).ledger = _
      rw [hl', hl]
      rfl

theorem mirrors_run (h : Mirrors w.ledger b events) (hb : w.controller.arbiter.Balanced w.grants)
    {recorded : List Event} (hj : w.Journal recorded) {requests : List Request}
    (hr : ∀ r ∈ requests, r.Proper)
    (hb' : (w.run requests).controller.arbiter.queues.get .event = some b')
    (hregion : b'.region = b.region) :
    ∃ records, w.Grows recorded requests records ∧
      Mirrors (w.run requests).ledger b' (events ++ records) := by
  obtain ⟨acts, hacts, hl, hgrows⟩ := grows_run hj requests
  refine ⟨_, hgrows, ?_⟩
  have hproper : ∀ act ∈ acts, act.Proper := fun act hm => by
    obtain ⟨r, hmem, ha⟩ := hacts act hm
    exact (hr r hmem).act ha
  rw [hl]
  refine h.run hb hproper ?_ hregion
  rw [← hl]
  exact hb'

theorem mirrors_opened (hb : w.controller.arbiter.Balanced w.grants)
    (ha : w.controller.arbiter.Anchored w.grants) {s : Session} {request : Session.Request}
    (hnone : w.controller.arbiter.queues.get .event = none)
    (hsome : (w.perform (.session s request)).controller.arbiter.queues.get .event = some b) :
    Mirrors (w.perform (.session s request)).ledger b [] := by
  obtain ⟨-, acts, hacts, hl, -⟩ := does_perform w (.session s request)
  have hops : ∀ op ∈ acts.map Act.operation, op.Proper ∧ op.supplies .event = false := by
    intro op hm
    obtain ⟨act, hact, rfl⟩ := List.mem_map.mp hm
    obtain ⟨op, hasks, rfl⟩ := hacts act hact
    exact proper_of_asks hasks
  rw [hl]
  refine Mirrors.of_opened (l := w.ledger) hb ha hops hnone ?_
  rw [← hl]
  exact hsome

/-- An agent records nothing, and changes no byte of the queue. -/
theorem unchanged_by_agent (h : Mirrors w.ledger b events)
    (hb : w.controller.arbiter.Balanced w.grants) {r : Request} (hr : r.FromAgent) :
    (w.perform r).controller.log = w.controller.log ∧
      (w.perform r).bytes b.region = w.bytes b.region := by
  constructor
  · cases r with
    | session s request =>
      obtain ⟨-, -, _, _, hc⟩ := aside_performSession (w := w) s request
      rw [perform, hc]
    | arbiter => rfl
    | _ => cases hr
  · obtain ⟨-, acts, hacts, hl, -⟩ := does_perform w r
    have hops : ∀ op ∈ acts.map Act.operation, op.Proper := by
      intro op hm
      obtain ⟨act, hact, rfl⟩ := List.mem_map.mp hm
      obtain ⟨op, rfl, hop⟩ := hr.asks (hacts act hact)
      exact hop
    have hsame := Ledger.bytes_run (l := w.ledger) hb h.shielded hops
    rwa [← hl] at hsame

/-- The event queue, as anyone finds it who has a view on it. -/
structure MirrorsJournal (w : System H) (b : SharedBuffer) (records : List Event) : Prop where
  header : ∃ h, Ring.header (w.bytes b.region) = .ok h ∧ h.slots.toNat = Ring.room b.size
  /-- It holds the latest records, oldest first. -/
  snapshot : Ring.snapshot (w.bytes b.region) =
    .ok ((Ring.latest (Ring.room b.size - 1) records).map Event.encode)
  /-- It takes every record to come. -/
  accepts (slot : Slot) :
    (w.controller.onBuffer .event (Ring.pushOverwrite slot)).1 = some (.ok ())
  /-- No agent can change it. -/
  unchanged {r : Request} : r.FromAgent → (w.perform r).controller.log = w.controller.log ∧
    (w.perform r).bytes b.region = w.bytes b.region

theorem Mirrors.journal (h : Mirrors w.ledger b events)
    (hb : w.controller.arbiter.Balanced w.grants) : w.MirrorsJournal b events := by
  obtain ⟨header, hq, hslots⟩ := h.queued
  refine ⟨⟨header, hq.header_eq, hslots⟩, Ring.snapshot_eq hq, fun slot => ?_,
    unchanged_by_agent h hb⟩
  obtain ⟨m', hpush, -⟩ := Ring.pushOverwrite_follows slot hq
  change (w.ledger.arbiter.onBuffer .event (Ring.pushOverwrite slot)).1 = _
  rw [Arbiter.onBuffer_of_some .event _ h.present]
  exact congrArg (fun x : Except Refusal Unit × Memory => some x.1) (answer_of_ok hpush)

/-- Whatever was done before a session opened the event queue, and whatever is done later: as long
as the queue keeps the buffer that it was opened with, its ring holds the latest of the events that
the log has recorded since then, as many as it has room for; it takes the next one too, and agents
change nothing of it, whatever they do through the views that they have. -/
theorem event_queue_mirrors_journal {settings : Settings} {hardware : H} {c : Controller H}
    (hc : Controller.new settings hardware = .ok c) {before later : List Request} {s : Session}
    {opening : Session.Request} (hw₀ : w₀ = System.run { controller := c } before)
    (hw₁ : w₁ = w₀.perform (.session s opening))
    (hnone : w₀.controller.arbiter.queues.get .event = none)
    (hopen : w₁.controller.arbiter.queues.get .event = some b)
    (hlater : ∀ r ∈ later, r.Proper) (hw : w = w₁.run later)
    (hkept : w.controller.arbiter.queues.get .event = some b') (hregion : b'.region = b.region) :
    ∃ earlier records, w₁.Grows earlier later records ∧ w.Journal (earlier ++ records) ∧
      w.MirrorsJournal b' records := by
  have hj₀ : ({ controller := c } : System H).Journal [] := journal_new hc
  obtain ⟨hb₀, ha₀⟩ : w₀.controller.arbiter.Balanced w₀.grants ∧
      w₀.controller.arbiter.Anchored w₀.grants := by
    obtain ⟨-, acts, -, hl, -⟩ := does_run { controller := c } before
    rw [← hw₀, ledger_new hc] at hl
    have hb := Ledger.balanced_run (acts.map Act.operation)
    have ha := Ledger.anchored_run (l := {}) Ledger.balanced_empty nofun (acts.map Act.operation)
    rw [← hl] at hb ha
    exact ⟨hb, ha⟩
  have hb₁ : w₁.controller.arbiter.Balanced w₁.grants := hw₁ ▸ (does_perform w₀ _).balanced hb₀
  have hb₂ : w.controller.arbiter.Balanced w.grants := hw ▸ (does_run w₁ later).balanced hb₁
  have h₁ : Mirrors w₁.ledger b [] := by
    rw [hw₁] at hopen ⊢
    exact mirrors_opened hb₀ ha₀ hnone hopen
  obtain ⟨earlier, hj₁⟩ : ∃ earlier, w₁.Journal earlier := by
    obtain ⟨-, acts, -, -, hfirst⟩ := does_run { controller := c } before
    obtain ⟨-, acts', -, -, hnext⟩ := does_perform w₀ (.session s opening)
    rw [hw₁]
    exact ⟨_, hnext _ (hw₀ ▸ hfirst [] hj₀)⟩
  rw [hw] at hkept
  obtain ⟨records, hgrows, h⟩ := mirrors_run h₁ hb₁ hj₁ hlater hkept hregion
  rw [← hw] at h
  exact ⟨earlier, records, hgrows, hw ▸ hgrows.journal, h.journal hb₂⟩

/-- The holder of exclusive access maps the event queue and tries all that a view for writing would
let it do, while two domains are added. -/
private def tampering : List Request :=
  let v : MappedView := ⟨0, .event, 1, 4096, false⟩
  let forged : Slot := .replicate slotSize 1
  [.addDomain "a" 1000000 50000,
    .arbiter (.access v (ByteStore.store 16 [1, 2, 3])),
    .arbiter (.access v (Ring.push forged)),
    .arbiter (.access v (Ring.pushOverwrite forged)),
    .arbiter (.access v (Ring.pop >>= fun _ => pure ())),
    .arbiter (.access v (Ring.format >>= fun _ => pure ())),
    .addDomain "b" 1000000 50000]

theorem event_queue_mirrors_journal_tampered :
    ∃ c : Controller HostSimulation, Controller.new {} {} = .ok c ∧
      let w := (run { controller := c } [.arbiter (.addUser 7 true), .session ⟨1, 7⟩ .reserve,
        .session ⟨1, 7⟩ (.mapQueue .process .event)]).run tampering
      w.grants = [⟨⟨0, .event, 1, 4096, false⟩, 1⟩] ∧
      w.controller.log.kept = [⟨.createDomain, 1, 1000⟩, ⟨.createDomain, 2, 2000⟩] ∧
      ∃ b, w.controller.arbiter.queues.get .event = some b ∧
        Ring.snapshot (w.bytes b.region) = .ok [Event.encode ⟨.createDomain, 1, 1000⟩,
          Event.encode ⟨.createDomain, 2, 2000⟩] := by
  let c : Controller HostSimulation :=
    { settings := {}
      registry := { hardware := { clock := 1000 } }
      log := { capacity := 128, get := 0, put := 0, origin := 0, dropped := 0 } }
  have hc : Controller.new {} ({} : HostSimulation) = .ok c := rfl
  let before : List Request := [.arbiter (.addUser 7 true), .session ⟨1, 7⟩ .reserve]
  let w₀ := run { controller := c } before
  let w₁ := w₀.perform (.session ⟨1, 7⟩ (.mapQueue .process .event))
  let w := w₁.run tampering
  have hgrants : w.grants = [⟨⟨0, .event, 1, 4096, false⟩, 1⟩] := by decide +kernel
  have hkept : w.controller.log.kept = [⟨.createDomain, 1, 1000⟩, ⟨.createDomain, 2, 2000⟩] := by
    decide +kernel
  have hproper : ∀ r ∈ tampering, r.Proper := by
    simp only [tampering, List.forall_mem_cons]
    exact ⟨trivial, .store _ _, Ring.mediated_push _, Ring.mediated_pushOverwrite _,
      .bind Ring.mediated_pop fun _ => .pure _, .bind Ring.mediated_format fun _ => .pure _,
      trivial, nofun⟩
  have hopen : w₁.controller.arbiter.queues.get .event =
      w.controller.arbiter.queues.get .event := by decide +kernel
  have hsize : (w.controller.arbiter.queues.get .event).map SharedBuffer.size = some 4096 := by
    decide +kernel
  obtain ⟨b, hb, hsize⟩ := Option.map_eq_some_iff.mp hsize
  obtain ⟨earlier, records, hgrows, hj, hmirrors⟩ := event_queue_mirrors_journal hc
    (rfl : w₀ = run { controller := c } before) rfl (by decide +kernel) (hopen.trans hb) hproper
    (rfl : w = w₁.run tampering) hb rfl
  -- nobody took an event out, and there was room for all of them
  obtain ⟨hearlier, -⟩ := hgrows
  rw [hearlier.recorded_eq (by decide +kernel) (by decide +kernel),
    show w₁.controller.log.kept = [] by decide +kernel, List.nil_append] at hj
  have hrecords := hj.recorded_eq (by decide +kernel) (by decide +kernel)
  rw [hkept] at hrecords
  have hsnapshot := hmirrors.snapshot
  rw [hsize, hrecords] at hsnapshot
  exact ⟨c, hc, hgrants, hkept, b, hb, hsnapshot⟩

end System

end AcceleratorScheduler
