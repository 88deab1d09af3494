import AcceleratorScheduler.Proofs.Arbiter.Openings
import AcceleratorScheduler.Proofs.Demo.Scenes
import AcceleratorScheduler.Proofs.Ring.Views
import AcceleratorScheduler.Proofs.Slot.Records
import AcceleratorScheduler.Proofs.Slot.Requests

/-! Requests go out and responses come back. One session has exclusive access and maps all of both
queues; when it rings, the worker takes the requests off the one, makes the switches and puts its
responses on the other (`fits_rounds`). -/
namespace AcceleratorScheduler.Demo

open AcceleratorScheduler.Ring (Queued afterPush afterPop)

def reserved (pid : Nat) : Arbiter where
  users := [{ id := 1, pid, writable := true, exclusive := true }]
  nextUser := 2

def desk (settings : Settings) (pid : Nat) (sent answered : Memory) : Arbiter :=
  ((reserved pid).lentWhole 1 .send (settings.queueBytes .send) sent).lentWhole 1 .receive
    (settings.queueBytes .receive) answered

def wholeView (settings : Settings) (role : QueueRole) (view : ViewId) : MappedView :=
  { view, queue := role, mapping := 1, length := settings.queueBytes role, writable := true }

def Scene.withBytes (s : Scene) (pid : Nat) (sent answered : Memory) : Scene :=
  { s with arbiter := desk s.settings pid sent answered }

variable {s : Scene} {pid : Nat} {m k : Memory} {h g : Ring.Header} {p q : List Slot} {slot : Slot}
  {c : Controller HostSimulation}

section Views

/-- A program goes through a view of a whole region as it goes on the region. -/
theorem Scene.leads_onView {α : Type} {v : MappedView} {region : RegionId}
    {program : ByteStore.Procedure α} {a : α} {bytes : Memory}
    (hr : s.arbiter.memory.region? v.view = some region)
    (hl : v.length = (s.arbiter.memory.bytes region).size) (hw : v.writable = true)
    (hp : program.run (s.arbiter.memory.bytes region) = .ok a bytes) :
    Leads s.Shows (onView v program.run) a (Scene.Shows { s with
      arbiter := { s.arbiter with memory := s.arbiter.memory.setBytes region bytes } }) :=
  leads_onController (leads_onArbiter (Arbiter.onView_whole hr hl hw hp)) rfl

theorem leads_push (hm : m.size = s.settings.queueBytes .send) (hq : Queued m h q)
    (hr : q.length < h.capacity) :
    Leads (s.withBytes pid m k).Shows (onView (wholeView s.settings .send 0) (Ring.push slot)) ()
      (s.withBytes pid (afterPush m h slot) k).Shows := by
  have hrun : (Ring.pushing slot).run m = .ok () (afterPush m h slot) := by
    rw [Ring.run_pushing, Ring.push_eq slot hq hr]
  let v := wholeView s.settings .send 0
  have hregion : (desk s.settings pid m k).memory.region? v.view = some 0 := rfl
  rw [← Ring.run_pushing]
  exact Scene.leads_onView (s := s.withBytes pid m k) hregion hm.symm rfl hrun

theorem leads_pop (hk : k.size = s.settings.queueBytes .receive) (hq : Queued k g (slot :: q)) :
    Leads (s.withBytes pid m k).Shows (onView (wholeView s.settings .receive 1) Ring.pop)
      (some slot) (s.withBytes pid m (afterPop k g)).Shows := by
  have hrun : Ring.popping.run k = .ok (some slot) (afterPop k g) := by
    rw [Ring.run_popping, Ring.pop_eq hq]
  let v := wholeView s.settings .receive 1
  have hregion : (desk s.settings pid m k).memory.region? v.view = some 1 := rfl
  rw [← Ring.run_popping]
  exact Scene.leads_onView (s := s.withBytes pid m k) hregion hk.symm rfl hrun

def responseText (r : Response) : String := s!"response seq={r.seq} status={r.status}"

theorem leads_collect (pid : Nat) (m : Memory) {responses : List Response}
    (hk : k.size = s.settings.queueBytes .receive) (hq : Queued k g (responses.map Response.encode)) :
    ∃ k', Leads (s.withBytes pid m k).Shows
      (collect (wholeView s.settings .receive 1) responses.length) (responses.map responseText)
      (s.withBytes pid m k').Shows := by
  induction responses generalizing k g with
  | nil => exact ⟨k, .pure⟩
  | cons response responses ih =>
    have hsize : (afterPop k g).size = s.settings.queueBytes .receive := by simpa [afterPop] using hk
    obtain ⟨k', hrest⟩ := ih hsize hq.popped
    refine ⟨k', (leads_pop hk hq).bind ?_⟩
    simp only [Response.decode_encode]
    exact hrest.bind .pure

end Views

section Worker

variable {settings : Settings} {α : Type} {operation : EStateM Refusal Memory α} {x : α}

theorem onBuffer_desk_send {m' : Memory} (ho : operation m = .ok x m') :
    (desk settings pid m k).onBuffer .send operation = (some (.ok x), desk settings pid m' k) := by
  refine (Arbiter.onBuffer_of_ok .send operation rfl ?_).trans rfl
  exact ho

theorem onBuffer_desk_receive {k' : Memory} (ho : operation k = .ok x k') :
    (desk settings pid m k).onBuffer .receive operation =
      (some (.ok x), desk settings pid m k') := by
  refine (Arbiter.onBuffer_of_ok .receive operation rfl ?_).trans rfl
  exact ho

theorem fits_taken (hc : (s.withBytes pid m k).Fits c) (hq : Queued m h (slot :: q)) :
    ∃ taken, c.onBuffer .send Ring.pop = (some (.ok (some slot)), taken) ∧
      (s.withBytes pid (afterPop m h) k).Fits taken := by
  obtain ⟨clock, log, hlog⟩ := hc
  refine ⟨_, ?_, clock, log, hlog⟩
  simp only [Controller.onBuffer, Scene.controller, Scene.withBytes,
    onBuffer_desk_send (Ring.pop_eq hq)]

theorem fits_emptied (hc : (s.withBytes pid m k).Fits c) (hq : Queued m h []) :
    c.onBuffer .send Ring.pop = (some (.ok none), c) := by
  obtain ⟨clock, log, hlog⟩ := hc
  simp only [Controller.onBuffer, Scene.controller, Scene.withBytes,
    onBuffer_desk_send (Ring.pop_nil hq)]

theorem fits_postResponse (hc : (s.withBytes pid m k).Fits c) (hq : Queued k g q)
    (hr : q.length < g.capacity) (response : Response) :
    (s.withBytes pid m (afterPush k g response.encode)).Fits (c.postResponse response) := by
  obtain ⟨clock, log, hlog⟩ := hc
  simp only [Controller.postResponse, Controller.onBuffer, Scene.controller, Scene.withBytes,
    onBuffer_desk_receive (Ring.push_eq response.encode hq hr)]
  exact ⟨clock, log, hlog⟩

/-- One round: the request to switch to a registered domain is taken, the switch is made, and the
response is there. -/
theorem fits_round {seq id : UInt64} {d : Domain} (hc : (s.withBytes pid m k).Fits c)
    (hq : Queued m h ((Request.switchDomain seq id).encode :: q)) (hk : Queued k g p)
    (hr : p.length < g.capacity) (hid : id ≠ 0) (hd : s.registry.registered? id.toNat = some d) :
    ∃ c', ∃ response : Response, (response.seq, response.status) = (seq, 0) ∧
      (∀ fuel, c.drainUpTo (fuel + 1) = c'.drainUpTo fuel) ∧
      ((s.switched id.toNat).withBytes pid (afterPop m h)
        (afterPush k g response.encode)).Fits c' := by
  obtain ⟨taken, hp, htaken⟩ := fits_taken hc hq
  have hdecode : Request.decode (Request.switchDomain seq id).encode =
      .ok (.switchDomain seq id) :=
    (Request.decode_eq_ok_iff _ _).mpr ⟨rfl, (Request.admissible_switchDomain seq id).mpr hid⟩
  obtain ⟨hw, ha, hdone⟩ := Scene.fits_switched htaken rfl hd
  have hround := Controller.drainUpTo_switched hp hdecode ((htaken.registered? _).trans hd) ha
  simp only [answerTo, Request.envelope_encode] at hround
  have hstamped := Scene.fits_stamp hdone
  exact ⟨_, _, rfl, hround, fits_postResponse (s := s.switched id.toNat) hstamped hk hr _⟩

/-- As long as the responses fit, every request is answered, in order. -/
theorem fits_rounds {requests : List (UInt64 × UInt64)} (hc : (s.withBytes pid m k).Fits c)
    (hq : Queued m h (requests.map fun r => (Request.switchDomain r.1 r.2).encode))
    (hk : Queued k g p) (hr : p.length + requests.length ≤ g.capacity)
    (hids : ∀ r ∈ requests, r.2 ≠ 0 ∧ ∃ d, s.registry.registered? r.2.toNat = some d) :
    ∃ c' m' k' g', ∃ responses : List Response,
      (∀ fuel, requests.length < fuel → c.drainUpTo fuel = c') ∧
      responses.map (fun r => (r.seq, r.status)) = requests.map (fun r => (r.1, 0)) ∧
      k'.size = k.size ∧ Queued k' g' (p ++ responses.map Response.encode) ∧
      ((requests.foldl (fun s r => s.switched r.2.toNat) s).withBytes pid m' k').Fits c' := by
  induction requests generalizing s m k h g p c with
  | nil =>
    refine ⟨c, m, k, g, [], fun fuel hf => ?_, rfl, rfl, by simpa using hk, hc⟩
    obtain ⟨n, rfl⟩ := Nat.exists_eq_succ_of_ne_zero (Nat.ne_of_gt hf)
    exact Controller.drainUpTo_emptied (fits_emptied hc hq) n
  | cons request requests ih =>
    rw [List.length_cons] at hr
    rw [List.forall_mem_cons] at hids
    obtain ⟨⟨hid, d, hd⟩, hrest⟩ := hids
    have hroom : p.length < g.capacity := by omega
    obtain ⟨c₁, response, htext, hround, hc₁⟩ := fits_round hc hq hk hroom hid hd
    -- The remaining responses go behind this one, so the induction is over every queue `p`.
    have hk₁ := hk.pushed hroom response.encode
    have hr₁ : (p ++ [response.encode]).length + requests.length ≤ g.pushed.capacity := by
      rw [List.length_append, List.length_singleton, Nat.add_assoc, Nat.add_comm 1]
      exact hr
    obtain ⟨c', m', k', g', responses, hall, htexts, hsize, hk', hc'⟩ :=
      ih hc₁ hq.popped hk₁ hr₁ hrest
    refine ⟨c', m', k', g', response :: responses, fun fuel hf => ?_, ?_, ?_, ?_, hc'⟩
    · obtain ⟨n, rfl⟩ := Nat.exists_eq_succ_of_ne_zero (Nat.ne_of_gt (Nat.zero_lt_of_lt hf))
      rw [hround]
      exact hall n (Nat.lt_of_succ_lt_succ hf)
    · rw [List.map_cons, List.map_cons, htexts, htext]
    · rw [hsize]
      simp [afterPush]
    · simpa using hk'

end Worker

/-- The doorbell makes the worker empty the send queue. -/
theorem leads_doorbell {session : Session} (hx : s.arbiter.isExclusiveUser session.user = true)
    (hw : s.wake = {}) {after : Device HostSimulation → Prop}
    (hserve : ∀ c, s.Fits c → after { settings := s.settings, stage := .created c.drainRequests }) :
    Leads s.Shows (settled (Device.onController session.ringDoorbell)) () after := by
  rintro _ ⟨c, hc, rfl⟩
  have hafter := hserve c hc
  obtain ⟨clock, log, hlog⟩ := hc
  let c := s.controller clock log
  have hwake : c.wake = {} := hw
  let rung := c.signal fun w => { w with doorbell := true }
  have hring : session.ringDoorbell c = .ok () rung := by
    refine (bind_ok (get_apply c)).trans ?_
    rw [show session.isExclusive c = true from hx]
    exact Controller.ringDoorbell_present rfl
  have hdevice : Device.onController session.ringDoorbell
      { settings := s.settings, stage := .created c } =
        .ok () { settings := s.settings, stage := .created rung } := by
    rw [Device.onController]
    simp only [hring]
  have hsettle : rung.settle = c.drainRequests :=
    Controller.settle_doorbell ⟨rfl, by rw [hwake]; rfl⟩ rfl
  refine ⟨_, (bind_ok hdevice).trans ?_, hafter⟩
  rw [← hsettle]
  rfl

end AcceleratorScheduler.Demo
