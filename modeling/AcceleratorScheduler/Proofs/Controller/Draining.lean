import AcceleratorScheduler.Hardware.Simulation
import AcceleratorScheduler.Proofs.Controller.Requests
import AcceleratorScheduler.Proofs.Controller.Service

/-! One wake of the worker for the doorbell. Every waiting slot is answered once and in order, and
the send queue ends empty; main statement: `doorbell_drains`. -/
namespace AcceleratorScheduler

theorem ServesAll.envelopes_eq {H : Type} [Hardware H] {find : DomainId → Option Domain}
    {slots : List Slot} {r r' : Residence H} {responses : List Response}
    (h : ServesAll find slots r responses r') :
    responses.map (fun response => (response.opcode, response.seq)) =
      slots.map Request.envelope := by
  induction h with
  | nil => rfl
  | cons _ _ ih =>
    rw [List.map_cons, List.map_cons, ih]
    rfl

namespace Controller

open AcceleratorScheduler.Ring (Queued)

variable {H : Type} {c : Controller H}

/-- What holds of a controller between any two requests. -/
structure Consistent (c : Controller H) : Prop where
  backed : c.registry.Backed
  named {id : DomainId} : c.slots.references id = true → c.registry.isIndexed id = true
  apart : c.arbiter.Apart
  worker : c.state = .running → c.hasWorker = true ∧ c.gone = false ∧ c.wake.shutdown = false

structure Idle (c : Controller H) : Prop where
  running : c.state = .running
  quiet : c.wake.signalled = false

structure Drained [Hardware H] (c : Controller H) (h : Ring.Header) (q : List Slot)
    (responses : List Response) (last : Controller H) : Prop where
  serves : ServesAll c.registry.registered? q c.residence responses last.residence
  envelopes : responses.map (fun response => (response.opcode, response.seq)) =
    q.map Request.envelope
  /-- Nothing waits any more, and put has not moved. -/
  sent : ∃ m, last.contents .send = some m ∧ Queued m { h with get := h.put } []
  /-- As many responses as there are places arrive, the first of them, behind what was there. -/
  answered {m : Memory} {k : Ring.Header} :
    c.contents .receive = some m → Ring.header m = .ok k →
      ∃ m' put, last.contents .receive = some m' ∧ Queued m' { k with put }
        (Ring.waiting m k ++ (responses.map Response.encode).take k.free)
  unsound {m : Memory} {e : Refusal} :
    c.contents .receive = some m → Ring.header m = .error e → last.contents .receive = some m
  absent : c.contents .receive = none → last.contents .receive = none
  fixed_eq : last.fixed = c.fixed

theorem Idle.wake_eq (hi : c.Idle) : c.wake = {} := by
  have hq := hi.quiet
  simp only [Wake.signalled, Bool.or_eq_false_iff] at hq
  obtain ⟨⟨⟨hs, hd⟩, hr⟩, hx⟩ := hq
  cases hw : c.wake
  simp_all

variable [Hardware H]

theorem settle_doorbell (hi : c.Idle) (hg : c.gone = false) :
    (c.signal fun w => { w with doorbell := true }).settle = c.drainRequests := by
  have hw := hi.wake_eq
  have hc : { c.signal (fun w => { w with doorbell := true }) with wake := {} } = c := by
    rw [← hw]
    rfl
  rw [settle, if_pos, hc]
  · simp [signal, hw, work]
  · simp [signal, hw, hi.running, hg, Wake.signalled]

/-- Without a send queue a wake for new domains leads to nothing. -/
theorem settle_of_absent (hr : c.state = .running) (hg : c.gone = false)
    (hm : c.contents .send = none) {reconfigure : Bool} (hw : c.wake = { reconfigure }) :
    c.settle = { c with wake := {} } := by
  have hd : ({ c with wake := {} } : Controller H).drainRequests = { c with wake := {} } :=
    drainRequests_of_absent hm
  rw [settle]
  cases reconfigure with
  | true =>
    rw [if_pos (by simp [hw, hr, hg, Wake.signalled]), work, hd]
    simp [hw]
  | false =>
    rw [if_neg (by simp [hw, Wake.signalled]), ← hw]

theorem drainRequests_drained {m : Memory} {h : Ring.Header} (hc : c.Consistent)
    (hm : c.contents .send = some m) (hh : Ring.header m = .ok h) :
    ∃ responses, c.Drained h (Ring.waiting m h) responses c.drainRequests ∧
      ∀ fuel, (Ring.waiting m h).length < fuel → c.drainUpTo fuel = c.drainRequests := by
  have hq := Ring.queued_of_header hh
  obtain ⟨responses, last, m', hall, hs, hfix, hsend, hq', hrecv⟩ :=
    drainUpTo_serves hc.apart hc.backed hm hq
  have hlast : c.drainRequests = last := by
    rw [drainRequests, sendSlots_of_header hm hh]
    exact hall _ hq.length_lt
  rw [hlast]
  refine ⟨responses, ⟨hs, hs.envelopes_eq, ⟨m', hsend, hq'⟩, ?_, ?_, ?_, hfix⟩, hall⟩
  · intro mr k hmr hk
    obtain ⟨put, hput⟩ := deliver_queued (Ring.queued_of_header hk) responses
    exact ⟨deliver responses mr, put, by rw [hrecv, hmr]; rfl, hput⟩
  · intro mr e hmr hk
    rw [hrecv, hmr, Option.map_some, deliver_unsound hk]
  · intro hmr
    rw [hrecv, hmr]
    rfl

/-- The wake for a doorbell ends, and however often the loop may turn, it ends in one state. In it
every waiting slot has been served once, in order. -/
theorem doorbell_drains {m : Memory} {h : Ring.Header} (hc : c.Consistent) (hi : c.Idle)
    (hm : c.contents .send = some m) (hh : Ring.header m = .ok h) :
    ∃ rung responses, ringDoorbell c = .ok () rung ∧
      c.Drained h (Ring.waiting m h) responses rung.settle ∧
      ∀ fuel, (Ring.waiting m h).length < fuel → c.drainUpTo fuel = rung.settle := by
  have hg := (hc.worker hi.running).2.1
  obtain ⟨responses, hd, hall⟩ := drainRequests_drained hc hm hh
  refine ⟨_, responses, ringDoorbell_present hg, ?_⟩
  rw [settle_doorbell hi hg]
  exact ⟨hd, hall⟩

/-- The smallest storage for a ring of three, with these slots pushed. -/
def ringOf (slots : List Slot) : Memory :=
  slots.foldl (fun m slot => (answer (Ring.push slot) m).2) (answer Ring.format (.zeroed 112)).2

/-- Two requests wait, and of two places for responses one is taken. -/
private def crowded : Controller HostSimulation where
  settings := {}
  registry :=
    { hardware := {}, lastId := 1, domains := [⟨1, "a", 1000000, 50000, 1, []⟩], index := [1],
      names := [("a", 1)] }
  log := { capacity := 128, get := 0, put := 0, origin := 0, dropped := 0 }
  arbiter :=
    { queues :=
        { send := some { size := 112, mask := QueueRole.send.mask, region := 0 }
          receive := some { size := 112, mask := QueueRole.receive.mask, region := 1 } }
      memory :=
        { regions := #[ringOf [(Request.switchDomain 1 1).encode, (Request.switchDomain 2 7).encode],
            ringOf [(Request.ping 0).encode]] } }
  state := .running
  hasWorker := true

private theorem crowded_consistent : crowded.Consistent where
  backed := by
    intro id h
    cases List.mem_singleton.mp (List.contains_iff_mem.mp h)
    exact ⟨_, rfl⟩
  named h := by cases h
  apart := by
    constructor
    · intro role b h
      cases role <;> cases h <;> decide
    · intro role other b b' h h' hr
      cases role <;> cases other <;> cases h <;> cases h' <;> first | rfl | cases hr
  worker _ := ⟨rfl, rfl, rfl⟩

theorem doorbell_drains_crowded :
    crowded.Consistent ∧ crowded.Idle ∧ ∃ m h rung responses,
      crowded.contents .send = some m ∧ Ring.header m = .ok h ∧
      ringDoorbell crowded = .ok () rung ∧
      crowded.Drained h (Ring.waiting m h) responses rung.settle ∧
      ∀ fuel, (Ring.waiting m h).length < fuel → crowded.drainUpTo fuel = rung.settle := by
  have hi : crowded.Idle := ⟨rfl, rfl⟩
  have hh : Ring.header (crowded.arbiter.memory.bytes 0) = .ok ⟨2, 0, 3⟩ :=
    (Ring.header_eq_ok_iff _ _).mpr (by decide +kernel)
  obtain ⟨rung, responses, hr⟩ := doorbell_drains crowded_consistent hi rfl hh
  exact ⟨crowded_consistent, hi, _, _, rung, responses, rfl, hh, hr⟩

end Controller

end AcceleratorScheduler
