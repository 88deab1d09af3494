import AcceleratorScheduler.Proofs.Controller.Switching
import AcceleratorScheduler.Proofs.Ring.Queue

/-! What the worker does to a waiting slot, and to a whole queue of them. Every slot is answered
once, in order, and serving touches nothing but hardware, slots, log and bytes; main
statement: `drainUpTo_serves`. -/
namespace AcceleratorScheduler

structure Residence (H : Type) where
  hardware : H
  slots : DomainSlots

/-- How a slot is served, and with which result code. -/
inductive Serves {H : Type} [Hardware H] (find : DomainId → Option Domain) (slot : Slot)
    (before : Residence H) : Int32 → Residence H → Prop
  | ping {seq : UInt64} : Request.decode slot = .ok (.ping seq) → Serves find slot before 0 before
  | undecodable {defect : Slot.Defect} : Request.decode slot = .error defect →
      Serves find slot before (-22) before
  | unknown {seq id : UInt64} : Request.decode slot = .ok (.switchDomain seq id) →
      find id.toNat = none → Serves find slot before (-2) before
  | rejected {seq id : UInt64} {d : Domain} {refusal : Refusal} {hw : H} :
      Request.decode slot = .ok (.switchDomain seq id) → find id.toNat = some d →
      Hardware.apply before.hardware d = (.error refusal, hw) →
      Serves find slot before refusal.code ⟨hw, { before.slots with shadow := none }⟩
  | switched {seq id : UInt64} {d : Domain} {hw : H} :
      Request.decode slot = .ok (.switchDomain seq id) → find id.toNat = some d →
      Hardware.apply before.hardware d = (.ok (), hw) →
      Serves find slot before 0 ⟨(Hardware.uptime hw).2, ⟨some id.toNat, before.slots.active⟩⟩

def answerTo {H : Type} [Hardware H] (slot : Slot) (status : Int32) (hardware : H) : Response where
  seq := (Request.envelope slot).2
  status := status
  opcode := (Request.envelope slot).1
  timestamp := (Hardware.stamp hardware).1

def Residence.stamped {H : Type} [Hardware H] (r : Residence H) : Residence H :=
  { r with hardware := (Hardware.stamp r.hardware).2 }

inductive ServesAll {H : Type} [Hardware H] (find : DomainId → Option Domain) :
    List Slot → Residence H → List Response → Residence H → Prop
  | nil {r : Residence H} : ServesAll find [] r [] r
  | cons {slot : Slot} {slots : List Slot} {before after last : Residence H} {status : Int32}
      {responses : List Response} :
      Serves find slot before status after →
      ServesAll find slots after.stamped responses last →
      ServesAll find (slot :: slots) before (answerTo slot status after.hardware :: responses) last

/-- The responses are put into the ring one after the other; one that finds no room is lost. -/
def deliver (responses : List Response) (m : Memory) : Memory :=
  responses.foldl (fun m response => (answer (Ring.push response.encode) m).2) m

theorem deliver_cons (response : Response) (responses : List Response) (m : Memory) :
    deliver (response :: responses) m =
      deliver responses (answer (Ring.push response.encode) m).2 := rfl

namespace Controller

open AcceleratorScheduler.Ring (Queued)

variable {H : Type} {c c' : Controller H}

def contents (c : Controller H) (role : QueueRole) : Option Memory := c.arbiter.contents role

def residence (c : Controller H) : Residence H := ⟨c.registry.hardware, c.slots⟩

/-- All that serving requests leaves alone; of the regions, their number. -/
def fixed (c : Controller H) : Controller Unit where
  settings := c.settings
  registry :=
    { hardware := (), lastId := c.registry.lastId, domains := c.registry.domains,
      index := c.registry.index, names := c.registry.names }
  log := { capacity := 0, get := 0, put := 0, origin := 0, dropped := 0 }
  arbiter :=
    { c.arbiter with memory :=
      { c.arbiter.memory with
        regions := .replicate c.arbiter.memory.regions.size (.zeroed 0) } }
  wake := c.wake
  state := c.state
  hasWorker := c.hasWorker
  gone := c.gone
  initFailed := c.initFailed

theorem apart_of_fixed (h : c'.fixed = c.fixed) (ha : c.arbiter.Apart) : c'.arbiter.Apart := by
  have hs := congrArg (fun k : Controller Unit => k.arbiter.memory.regions.size) h
  simp only [fixed, Array.size_replicate] at hs
  exact ha.of_eq (congrArg (fun k : Controller Unit => k.arbiter.queues) h) hs

theorem registered?_of_fixed (h : c'.fixed = c.fixed) :
    c'.registry.registered? = c.registry.registered? := by
  have hi : c'.registry.index = c.registry.index :=
    congrArg (fun k : Controller Unit => k.registry.index) h
  have hd : c'.registry.domains = c.registry.domains :=
    congrArg (fun k : Controller Unit => k.registry.domains) h
  funext id
  rw [Registry.registered?, Registry.registered?, Registry.isIndexed, Registry.isIndexed,
    Registry.domain?, Registry.domain?, hi, hd]

theorem backed_of_fixed (h : c'.fixed = c.fixed) (hb : c.registry.Backed) : c'.registry.Backed := by
  have hi : c'.registry.index = c.registry.index :=
    congrArg (fun k : Controller Unit => k.registry.index) h
  have hd : c'.registry.domains = c.registry.domains :=
    congrArg (fun k : Controller Unit => k.registry.domains) h
  simpa only [Registry.Backed, Registry.isIndexed, Registry.domain?, hi, hd] using hb

/-- An operation on the bytes of one queue, seen from the controller. -/
theorem onBuffer_fst {α : Type} (role : QueueRole) (operation : EStateM Refusal Memory α) :
    (c.onBuffer role operation).1 = (c.contents role).map fun m => (answer operation m).1 :=
  Arbiter.onBuffer_fst role operation

theorem contents_onBuffer {α : Type} (role : QueueRole) (operation : EStateM Refusal Memory α)
    (ha : c.arbiter.Apart) (other : QueueRole) :
    (c.onBuffer role operation).2.contents other =
      if other = role then (c.contents role).map fun m => (answer operation m).2
      else c.contents other :=
  Arbiter.contents_onBuffer role operation ha other

theorem fixed_of_arbiter (a : Arbiter)
    (h : a = { c.arbiter with memory := { c.arbiter.memory with regions := a.memory.regions } })
    (hs : a.memory.regions.size = c.arbiter.memory.regions.size) :
    ({ c with arbiter := a } : Controller H).fixed = c.fixed := by
  simp only [fixed, hs]
  rw [h]

theorem fixed_onBuffer {α : Type} (role : QueueRole) (operation : EStateM Refusal Memory α) :
    (c.onBuffer role operation).2.fixed = c.fixed :=
  fixed_of_arbiter _ (Arbiter.onBuffer_snd role operation)
    (Arbiter.size_regions_onBuffer role operation)

variable [Hardware H]

theorem fixed_record (kind : EventKind) (data : UInt32) : (c.record kind data).fixed = c.fixed :=
  fixed_of_arbiter (c.arbiter.onBuffer .event _).2 (Arbiter.onBuffer_snd _ _)
    (Arbiter.size_regions_onBuffer _ _)

theorem contents_record (kind : EventKind) (data : UInt32) (ha : c.arbiter.Apart)
    {role : QueueRole} (hr : role ≠ .event) :
    (c.record kind data).contents role = c.contents role :=
  (Arbiter.contents_onBuffer .event _ ha role).trans (if_neg hr)

omit [Hardware H] in
/-- A later state in which serving has left alone what it must. -/
structure Served (c c' : Controller H) : Prop where
  fixed_eq : c'.fixed = c.fixed
  contents_eq {role : QueueRole} : role ≠ .event → c'.contents role = c.contents role

theorem handleRequest_serves (slot : Slot) (ha : c.arbiter.Apart) (hb : c.registry.Backed) :
    ∃ status after c', handleRequest slot c = (answerTo slot status after.hardware, c') ∧
      Serves c.registry.registered? slot c.residence status after ∧
      c'.residence = after.stamped ∧ c.Served c' := by
  have hstay : c.Served c.stamp.2 := ⟨rfl, fun _ => rfl⟩
  cases hd : Request.decode slot with
  | error defect =>
    refine ⟨-22, c.residence, c.stamp.2, ?_, .undecodable hd, rfl, hstay⟩
    rw [handleRequest, hd]
    cases defect <;> rfl
  | ok request =>
    cases request with
    | ping seq =>
      refine ⟨0, c.residence, c.stamp.2, ?_, .ping hd, rfl, hstay⟩
      rw [handleRequest, hd]
      rfl
    | switchDomain seq id =>
      cases hi : c.registry.isIndexed id.toNat with
      | false =>
        have hn : c.registry.registered? id.toNat = none := by simp [Registry.registered?, hi]
        refine ⟨-2, c.residence, c.stamp.2, ?_, .unknown hd hn, rfl, hstay⟩
        simp only [handleRequest, hd, answer_of_error (switchTo_unknown hi)]
        rfl
      | true =>
        obtain ⟨d, hr⟩ := hb _ hi
        have hn : c.registry.registered? id.toNat = some d := by simp [Registry.registered?, hi, hr]
        rcases hw : Hardware.apply c.registry.hardware d with ⟨result, hw'⟩
        cases result with
        | error refusal =>
          refine ⟨refusal.code, ⟨hw', { c.slots with shadow := none }⟩,
            (c.placed hw' { c.slots with shadow := none }).stamp.2, ?_, .rejected hd hn hw, rfl,
            ⟨rfl, fun _ => rfl⟩⟩
          simp only [handleRequest, hd, answer_of_error (switchTo_rejected hi hr hw)]
          rfl
        | ok =>
          let p := c.placed hw' ⟨some id.toNat, c.slots.active⟩
          refine ⟨0, ⟨(Hardware.uptime hw').2, ⟨some id.toNat, c.slots.active⟩⟩,
            (p.record .domainSwitch (eventData id.toNat)).stamp.2, ?_, .switched hd hn hw, rfl,
            ⟨fixed_record (c := p) _ _, fun h => contents_record (c := p) _ _ ha h⟩⟩
          simp only [handleRequest, hd, answer_of_ok (switchTo_accepted hi hr hw)]
          rfl

omit [Hardware H] in
theorem contents_postResponse (response : Response) (ha : c.arbiter.Apart) (role : QueueRole) :
    (c.postResponse response).contents role =
      if role = .receive then (c.contents .receive).map (deliver [response]) else c.contents role :=
  contents_onBuffer .receive _ ha role

/-- What operations on the queues of requests and responses and the handling of a slot keep,
draining keeps. -/
theorem drainUpTo_induction {P : Controller H → Prop}
    (hbuffer : ∀ {c : Controller H} {α : Type} (role : QueueRole)
      (operation : EStateM Refusal Memory α), role ≠ .event → P c → P (c.onBuffer role operation).2)
    (hrequest : ∀ {c : Controller H} (slot : Slot), P c → P (c.handleRequest slot).2) (fuel : Nat)
    (h : P c) : P (c.drainUpTo fuel) := by
  induction fuel generalizing c with
  | zero => exact h
  | succ fuel ih =>
    have hp := hbuffer .send Ring.pop (by decide) h
    rw [drainUpTo]
    split
    next slot c' hc =>
      rw [hc] at hp
      exact ih (hbuffer .receive _ (by decide) (hrequest slot hp))
    next c' _ hc =>
      rw [hc] at hp
      exact hp

/-- A round whose slot asks for a switch that goes through. -/
theorem drainUpTo_switched {slot : Slot} {seq id : UInt64} {taken : Controller H} {d : Domain}
    {hw : H} (hp : c.onBuffer .send Ring.pop = (some (.ok (some slot)), taken))
    (hs : Request.decode slot = .ok (.switchDomain seq id))
    (hd : taken.registry.registered? id.toNat = some d)
    (ha : Hardware.apply taken.registry.hardware d = (.ok (), hw)) (fuel : Nat) :
    let done := record .domainSwitch (eventData id.toNat)
      (taken.placed hw ⟨some id.toNat, taken.slots.active⟩)
    drainUpTo (fuel + 1) c = drainUpTo fuel
      (done.stamp.2.postResponse (answerTo slot 0 done.registry.hardware)) := by
  rw [Registry.registered?, Option.ite_none_right_eq_some] at hd
  rw [drainUpTo, hp]
  simp only [handleRequest, hs, answer_of_ok (switchTo_accepted hd.1 hd.2 ha)]
  rfl

/-- A round that finds nothing is the last one. -/
theorem drainUpTo_emptied {last : Controller H}
    (hp : c.onBuffer .send Ring.pop = (some (.ok none), last)) (fuel : Nat) :
    drainUpTo (fuel + 1) c = last := by
  rw [drainUpTo, hp]

omit [Hardware H] in
theorem fixed_postResponse (response : Response) : (c.postResponse response).fixed = c.fixed :=
  fixed_onBuffer .receive _

/-- One round of the loop: the oldest slot is taken, served and answered. -/
theorem round_serves {m m' : Memory} {slot : Slot} (ha : c.arbiter.Apart) (hb : c.registry.Backed)
    (hm : c.contents .send = some m) (hp : Ring.pop m = .ok (some slot) m') :
    ∃ status after response next, (∀ fuel, drainUpTo (fuel + 1) c = drainUpTo fuel next) ∧
      Serves c.registry.registered? slot c.residence status after ∧
      response = answerTo slot status after.hardware ∧
      next.residence = after.stamped ∧ next.fixed = c.fixed ∧ next.contents .send = some m' ∧
      next.contents .receive = (c.contents .receive).map (deliver [response]) := by
  let taken := (c.onBuffer .send Ring.pop).2
  have hpop : c.onBuffer .send Ring.pop = (some (.ok (some slot)), taken) := by
    refine Prod.ext ?_ rfl
    rw [onBuffer_fst, hm, Option.map_some, answer_of_ok hp]
  have hfix : taken.fixed = c.fixed := fixed_onBuffer .send _
  have ha' := apart_of_fixed hfix ha
  obtain ⟨status, after, done, hh, hs, hr, hd⟩ :=
    handleRequest_serves slot ha' (backed_of_fixed hfix hb)
  rw [registered?_of_fixed hfix] at hs
  have had := apart_of_fixed hd.fixed_eq ha'
  refine ⟨status, after, _, done.postResponse (answerTo slot status after.hardware), ?_, hs, rfl,
    hr, ?_, ?_, ?_⟩
  · intro fuel
    rw [drainUpTo, hpop]
    simp only [hh]
  · rw [fixed_postResponse, hd.fixed_eq, hfix]
  · rw [contents_postResponse _ had, if_neg (by decide), hd.contents_eq (by decide),
      contents_onBuffer _ _ ha, if_pos rfl, hm, Option.map_some, answer_of_ok hp]
  · rw [contents_postResponse _ had, if_pos rfl, hd.contents_eq (by decide),
      contents_onBuffer _ _ ha, if_neg (by decide)]

/-- Waiting slots are served to the last, and more rounds than slots change nothing any more. -/
theorem drainUpTo_serves {m : Memory} {h : Ring.Header} {q : List Slot} (ha : c.arbiter.Apart)
    (hb : c.registry.Backed) (hm : c.contents .send = some m) (hq : Queued m h q) :
    ∃ responses last m', (∀ fuel, q.length < fuel → drainUpTo fuel c = last) ∧
      ServesAll c.registry.registered? q c.residence responses last.residence ∧
      last.fixed = c.fixed ∧ last.contents .send = some m' ∧
      Queued m' { h with get := h.put } [] ∧
      last.contents .receive = (c.contents .receive).map (deliver responses) := by
  induction q generalizing c m h with
  | nil =>
    have hp := answer_of_ok (Ring.pop_nil hq)
    have hempty := (Ring.Header.isEmpty_iff hq.circular).mpr hq.count_eq
    have hself : { h with get := h.put } = h :=
      congrArg (fun get => ({ h with get } : Ring.Header)) (beq_iff_eq.mp hempty)
    refine ⟨[], (c.onBuffer .send Ring.pop).2, m, ?_, .nil, fixed_onBuffer _ _, ?_, ?_, ?_⟩
    · intro fuel hf
      obtain ⟨n, rfl⟩ := Nat.exists_eq_add_of_lt hf
      have hfst : (c.onBuffer .send Ring.pop).1 = some (.ok none) := by
        rw [onBuffer_fst, hm, Option.map_some, hp]
      exact drainUpTo_emptied (Prod.ext hfst rfl) _
    · rw [contents_onBuffer _ _ ha, if_pos rfl, hm, Option.map_some, hp]
    · rwa [hself]
    · rw [contents_onBuffer _ _ ha, if_neg (by decide)]
      exact (congrFun Option.map_id _).symm
  | cons slot q ih =>
    obtain ⟨m₁, hp, hq₁⟩ := Ring.pop_cons hq
    obtain ⟨status, after, response, next, hd, hs, rfl, hr, hfix, hsend, hrecv⟩ :=
      round_serves ha hb hm hp
    obtain ⟨responses, last, m', hall, hrest, hfix', hsend', hq', hrecv'⟩ :=
      ih (apart_of_fixed hfix ha) (backed_of_fixed hfix hb) hsend hq₁
    rw [registered?_of_fixed hfix, hr] at hrest
    refine ⟨_, last, m', ?_, .cons hs hrest, hfix'.trans hfix, hsend', hq', ?_⟩
    · intro fuel hf
      obtain ⟨n, rfl⟩ := Nat.exists_eq_add_of_lt hf
      rw [hd]
      exact hall _ (by simp only [List.length_cons] at *; omega)
    · rw [hrecv', hrecv, Option.map_map]
      rfl

def waitingSlots (c : Controller H) : List Slot :=
  match c.contents .send with
  | none => []
  | some m =>
    match Ring.header m with
    | .ok h => Ring.waiting m h
    | .error _ => []

omit [Hardware H] in
private theorem sendSlots_eq : c.sendSlots = match c.contents .send with
    | none => 0
    | some m => match Ring.header m with
      | .ok h => h.slots.toNat
      | .error _ => 0 := by
  rw [sendSlots, contents, Arbiter.contents]
  cases c.arbiter.queues.get .send with
  | none => rfl
  | some b => rfl

/-- Without a send queue there is nothing to answer. -/
theorem drainRequests_of_absent (hm : c.contents .send = none) : c.drainRequests = c := by
  rw [drainRequests, sendSlots_eq, hm]
  rfl

omit [Hardware H] in
theorem sendSlots_of_header {m : Memory} {h : Ring.Header} (hm : c.contents .send = some m)
    (hh : Ring.header m = .ok h) : c.sendSlots = h.slots.toNat := by
  rw [sendSlots_eq, hm]
  simp only [hh]

theorem drainRequests_serves (ha : c.arbiter.Apart) (hb : c.registry.Backed) :
    ∃ responses, ServesAll c.registry.registered? c.waitingSlots c.residence responses
      c.drainRequests.residence ∧ c.drainRequests.fixed = c.fixed := by
  cases hm : c.contents .send with
  | none =>
    refine ⟨[], ?_⟩
    rw [drainRequests_of_absent hm, waitingSlots, hm]
    exact ⟨.nil, rfl⟩
  | some m =>
    cases hh : Ring.header m with
    | error e =>
      refine ⟨[], ?_⟩
      simp only [drainRequests, sendSlots_eq, waitingSlots, hm, hh]
      exact ⟨.nil, rfl⟩
    | ok h =>
      have hq := Ring.queued_of_header hh
      obtain ⟨responses, last, m', hall, hs, hfix, _⟩ := drainUpTo_serves ha hb hm hq
      have hlast : c.drainRequests = last := by
        rw [drainRequests, sendSlots_of_header hm hh]
        exact hall _ hq.length_lt
      simp only [hlast, waitingSlots, hm, hh]
      exact ⟨responses, hs, hfix⟩

end Controller

/-- A sound ring takes responses as long as it has room; its get and slot count stay. -/
theorem deliver_queued {m : Memory} {h : Ring.Header} {q : List Slot} (hq : Ring.Queued m h q)
    (responses : List Response) :
    ∃ put, Ring.Queued (deliver responses m) { h with put }
      (q ++ (responses.map Response.encode).take h.free) := by
  induction responses generalizing m h q with
  | nil => exact ⟨h.put, by simpa [deliver] using hq⟩
  | cons response responses ih =>
    have hle := Ring.Header.count_le_capacity hq.circular
    have hc := hq.count_eq
    rcases Nat.lt_or_eq_of_le hle with hroom | hfull
    · obtain ⟨m₁, hp, hq₁⟩ := Ring.push_of_room response.encode hq (hc ▸ hroom)
      obtain ⟨put, hlast⟩ := ih hq₁
      have hfree : h.free = h.pushed.free + 1 := by
        have hn := Ring.Header.count_pushed hq.circular (Nat.ne_of_lt hroom)
        have hcap : h.pushed.capacity = h.capacity := rfl
        simp only [Ring.Header.free]
        omega
      refine ⟨put, ?_⟩
      rw [List.append_assoc] at hlast
      rw [deliver_cons, answer_of_ok hp, hfree, List.map_cons, List.take_succ_cons]
      exact hlast
    · have hp := Ring.push_of_full response.encode hq (hc ▸ hfull)
      obtain ⟨put, hlast⟩ := ih hq
      have hfree : h.free = 0 := by
        simp only [Ring.Header.free]
        omega
      refine ⟨put, ?_⟩
      rw [hfree] at hlast ⊢
      rw [deliver_cons, answer_of_error hp]
      simpa using hlast

theorem deliver_unsound {m : Memory} {e : Refusal} (hh : Ring.header m = .error e)
    (responses : List Response) : deliver responses m = m := by
  induction responses with
  | nil => rfl
  | cons response responses ih =>
    rw [deliver_cons, answer_of_error (Ring.refused_of_header hh).2]
    exact ih

end AcceleratorScheduler
