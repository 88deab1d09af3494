import AcceleratorScheduler.Arbiter.Queues
import AcceleratorScheduler.Domain.Registry
import AcceleratorScheduler.EventLog
import AcceleratorScheduler.Settings.Basic
import AcceleratorScheduler.Slot.Request
import AcceleratorScheduler.Slot.Response

/-! The controller: registry, slots, event log, arbiter, and the state of the worker that serves
them. Every event goes into the log and, if the event queue is open, into its ring. -/
namespace AcceleratorScheduler

inductive WorkerState where
  | stopped
  | initializing
  | running
  deriving DecidableEq, Repr

structure Wake where
  switchPending : Bool := false
  doorbell : Bool := false
  reconfigure : Bool := false
  shutdown : Bool := false
  deriving DecidableEq, Repr

def Wake.signalled (w : Wake) : Bool := w.switchPending || w.doorbell || w.reconfigure || w.shutdown

structure Controller (H : Type) where
  settings : Settings
  registry : Registry H
  slots : DomainSlots := {}
  log : EventLog
  arbiter : Arbiter := {}
  wake : Wake := {}
  state : WorkerState := .stopped
  /-- A worker was started and not joined since, whether or not it ever became ready. -/
  hasWorker : Bool := false
  /-- Torn down for good. -/
  gone : Bool := false
  /-- A start timed out; no later start is attempted. -/
  initFailed : Bool := false

structure Status where
  state : WorkerState
  active : Option DomainId
  shadow : Option DomainId
  domains : Nat
  deriving DecidableEq, Repr

namespace Controller

variable {H : Type}

/-- A request to the controller: it may be refused, and says what it leaves either way. -/
abbrev Task (H α : Type) := EStateM Refusal (Controller H) α

def onRegistry {α : Type} (task : Registry.Task H α) : Task H α := fun c =>
  match task c.registry with
  | .ok x registry => .ok x { c with registry }
  | .error refusal registry => .error refusal { c with registry }

def onArbiter {α : Type} (task : Arbiter.Task α) : Task H α := fun c =>
  match task c.arbiter with
  | .ok x arbiter => .ok x { c with arbiter }
  | .error refusal arbiter => .error refusal { c with arbiter }

def onBuffer {α : Type} (role : QueueRole) (operation : EStateM Refusal Memory α)
    (c : Controller H) : Option (Except Refusal α) × Controller H :=
  let (result, arbiter) := c.arbiter.onBuffer role operation
  (result, { c with arbiter })

def ensurePresent : Task H Unit := do
  if (← get).gone then throw .deviceGone

def signal (f : Wake → Wake) (c : Controller H) : Controller H := { c with wake := f c.wake }

def takeEvent (c : Controller H) : Option Event × Controller H :=
  let (event, log) := c.log.take
  (event, { c with log })

def drainEvents (c : Controller H) : List Event × Controller H :=
  let (events, log) := c.log.drain
  (events, { c with log })

def domainCount (c : Controller H) : Nat := c.registry.index.length

def status (c : Controller H) : Status :=
  ⟨c.state, c.slots.active, c.slots.shadow, c.domainCount⟩

/-- Events carry a domain id as far as 32 bits reach. -/
def eventData (id : DomainId) : UInt32 := .ofNat (min id (UInt32.size - 1))

variable [Hardware H]

/-- A controller at rest, from settings that are valid and with room for the log. -/
def new (settings : Settings) (hardware : H) (room : Bool := true) :
    Except Refusal (Controller H) := do
  settings.validate
  let (now, hardware) := Hardware.uptime hardware
  let log ← EventLog.init settings.logCapacity now room
  return { settings, registry := { hardware }, log }

def stamp (c : Controller H) : Int64 × Controller H :=
  let (now, hardware) := Hardware.stamp c.registry.hardware
  (now, { c with registry := { c.registry with hardware } })

/-- Records an event in the log and passes it on to the event queue, whose ring makes room if it
must. A ring that cannot be used loses the event. -/
def record (kind : EventKind) (data : UInt32) (c : Controller H) : Controller H :=
  let (now, hardware) := Hardware.uptime c.registry.hardware
  let (event, log) := c.log.record now kind data
  let (_, arbiter) := c.arbiter.onBuffer .event (Ring.pushOverwrite event.encode)
  { c with registry := { c.registry with hardware }, log, arbiter }

def applyDomain (d : Domain) : Task H Unit := fun c =>
  match Hardware.apply c.registry.hardware d with
  | (.ok (), hardware) => .ok () { c with registry := { c.registry with hardware } }
  | (.error refusal, hardware) => .error refusal { c with registry := { c.registry with hardware } }

def hardwareStatus : Task H HardwareStatus := do
  ensurePresent
  return Hardware.status (← get).registry.hardware

def addDomain (name : String) (timesliceNs preemptGraceNs : Nat) (room : Registry.Room := {}) :
    Task H DomainId := do
  ensurePresent
  let id ← onRegistry (Registry.add name timesliceNs preemptGraceNs room)
  modify (record .createDomain (eventData id))
  modify (signal fun w => { w with reconfigure := true })
  return id

def removeDomain (id : DomainId) : Task H Unit := do
  ensurePresent
  let slots := (← get).slots
  onRegistry (Registry.remove id slots)
  modify (record .removeDomain (eventData id))
  modify (signal fun w => { w with reconfigure := true })

def stage (id : DomainId) : Task H Unit := do
  let c ← get
  match c.registry.stage c.slots id with
  | .ok slots => set { c with slots }
  | .error refusal => throw refusal

def postSwitch (id : DomainId) : Task H Unit := do
  ensurePresent
  if (← get).state ≠ .running then throw .invalidArgument
  stage id
  modify (signal fun w => { w with switchPending := true })

def ringDoorbell : Task H Unit := do
  ensurePresent
  modify (signal fun w => { w with doorbell := true })

end Controller

end AcceleratorScheduler
