import AcceleratorScheduler.Controller.Basic

/-! The worker: it answers every waiting request, then performs a pending switch. Starting, stopping
and tearing down are here as well. -/
namespace AcceleratorScheduler.Controller

variable {H : Type} [Hardware H]

def discardShadow (id : DomainId) (c : Controller H) : Controller H :=
  { c with slots := (c.slots.discardShadow id).2 }

/-- Programs the domain in the shadow slot into the hardware and swaps the slots; a target is staged
first. If the hardware refuses, the active slot stays and the shadow slot is emptied. -/
def switchTo (target : Option DomainId) : Task H DomainId := do
  if let some id := target then stage id
  match (← get).slots.shadow with
  | none => throw .notFound
  | some next =>
    let d ← onRegistry (Registry.requireDomain next)
    fun c => match applyDomain d c with
      | .ok () c => .ok () c
      | .error refusal c => .error refusal (discardShadow next c)
    let c ← get
    let (swap, slots) := c.registry.promote c.slots
    set { c with slots }
    match swap with
    | none => throw .notFound
    | some swap =>
      modify (record .domainSwitch (eventData swap.active))
      return swap.active

def handleRequest (slot : Slot) (c : Controller H) : Response × Controller H :=
  let (opcode, seq) := Request.envelope slot
  let (status, c) := match Request.decode slot with
    | .ok (.switchDomain _ domain) =>
      let (result, c) := answer (switchTo (some domain.toNat)) c
      (resultCode result, c)
    | .ok (.ping _) => (0, c)
    | .error defect => (defect.refusal.code, c)
  let (timestamp, c) := c.stamp
  ({ seq, status, opcode, timestamp }, c)

/-- Puts an answer into the receive queue. An answer that finds no room is lost. -/
def postResponse (response : Response) (c : Controller H) : Controller H :=
  (c.onBuffer .receive (Ring.push response.encode)).2

/-- Answers waiting requests, at most as many as the fuel says. -/
def drainUpTo : (fuel : Nat) → Controller H → Controller H
  | 0, c => c
  | fuel + 1, c =>
    match c.onBuffer .send Ring.pop with
    | (some (.ok (some slot)), c) =>
      let (response, c) := c.handleRequest slot
      drainUpTo fuel (c.postResponse response)
    | (_, c) => c

def sendSlots (c : Controller H) : Nat :=
  match c.arbiter.queues.get .send with
  | none => 0
  | some buffer =>
    match Ring.header (c.arbiter.memory.bytes buffer.region) with
    | .ok header => header.slots.toNat
    | .error _ => 0

/-- Answers every waiting request. There are fewer of them than slots. -/
def drainRequests (c : Controller H) : Controller H := c.drainUpTo c.sendSlots

/-- What the worker does when it wakes: requests first, then the switch. -/
def work (switch : Bool) (c : Controller H) : Controller H :=
  let c := c.drainRequests
  if switch then (answer (switchTo none) c).2 else c

def settle (c : Controller H) : Controller H :=
  if c.state = .running ∧ c.wake.signalled ∧ !c.wake.shutdown ∧ !c.gone then
    work c.wake.switchPending { c with wake := {} }
  else c

/-- Lets a running worker wake by its clock alone. -/
def elapse (c : Controller H) : Controller H :=
  if c.state = .running ∧ !c.gone then c.drainRequests else c

def runStartHook (c : Controller H) : StartOutcome × Controller H :=
  let (outcome, hardware) := Hardware.startWorker c.registry.hardware
  (outcome, { c with registry := { c.registry with hardware } })

/-- A worker reports how its start hook went. It comes up only while its start waits for it; after
that a report changes nothing. -/
def report (result : Except Refusal Unit) (c : Controller H) : Controller H :=
  match result with
  | .ok () => if c.state = .initializing then { c with state := .running } else c
  | .error _ => c

/-- Starts the worker, if there is a thread for it, and waits until it is ready. Signals sent before
are forgotten. -/
def start (thread : Bool := true) : Task H Unit := do
  ensurePresent
  let c ← get
  if c.initFailed then throw .initTimeout
  if c.hasWorker then return
  if !thread then
    set { c with wake := {}, state := .stopped }
    throw .outOfMemory
  let (outcome, c) := runStartHook { c with wake := {}, state := .initializing }
  match outcome with
  | .ready => set { c.report (.ok ()) with hasWorker := true }
  | .failed refusal =>
    set { c.report (.error refusal) with state := .stopped }
    throw refusal
  | .hung =>
    set { c with state := .stopped, hasWorker := true, initFailed := true }
    throw .initTimeout

def stop (c : Controller H) : Controller H :=
  if c.hasWorker then
    { c with hasWorker := false, state := .stopped, wake := { c.wake with shutdown := true } }
  else c

/-- Tears down: later requests are refused, the worker ends, every view and every domain goes. -/
def tearDown (c : Controller H) : Controller H :=
  if c.gone then c
  else
    let c := stop { c with gone := true }
    { c with
      arbiter := c.arbiter.revokeAll.2
      slots := {}
      registry := c.registry.drain.2 }

end AcceleratorScheduler.Controller
