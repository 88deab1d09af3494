import AcceleratorScheduler.Controller.Worker

/-! The device that agents talk to, and their sessions on it. Before the scheduler is created
requests are invalid; after shutdown the device is gone, while sessions keep the controller. -/
namespace AcceleratorScheduler

inductive Device.Stage (H : Type) where
  | waiting (hardware : H)
  | created (controller : Controller H)

structure Device (H : Type) where
  settings : Settings
  stage : Device.Stage H
  /-- Shut down. The controller is kept for the sessions that outlive the device. -/
  gone : Bool := false

structure LogRecord where
  timestamp : Int64
  message : String
  deriving DecidableEq, Repr

def padRight (width : Nat) (text : String) : String :=
  text ++ String.ofList (List.replicate (width - text.length) ' ')

def padLeft (width : Nat) (text : String) : String :=
  String.ofList (List.replicate (width - text.length) ' ') ++ text

def LogRecord.ofEvent (event : Event) : LogRecord where
  timestamp := event.timestamp
  message := padRight 20 event.kind.name ++ " " ++ toString event.data.toNat

structure Session where
  user : UserId
  pid : Nat
  deriving DecidableEq, Repr

namespace Device

variable {H : Type}

/-- A request to the device: it may be refused, and says what it leaves either way. -/
abbrev Task (H α : Type) := EStateM Refusal (Device H) α

/-- The controller that was created, also after shutdown. -/
def controller? (d : Device H) : Option (Controller H) :=
  match d.stage with
  | .waiting _ => none
  | .created c => some c

def onController {α : Type} (task : Controller.Task H α) : Task H α := fun d =>
  match d.stage with
  | .waiting _ => .error .invalidArgument d
  | .created c =>
    match task c with
    | .ok x c => .ok x { d with stage := .created c }
    | .error refusal c => .error refusal { d with stage := .created c }

/-- Runs a request on the controller while the device is there. -/
def serve {α : Type} (task : Controller.Task H α) : Task H α := do
  if (← get).gone then throw .deviceGone
  onController task

def updateController (f : Controller H → Controller H) (d : Device H) : Device H :=
  match d.stage with
  | .waiting _ => d
  | .created c => { d with stage := .created (f c) }

def updateHardware (f : H → H) (d : Device H) : Device H :=
  match d.stage with
  | .waiting hardware => { d with stage := .waiting (f hardware) }
  | .created c =>
    let registry := { c.registry with hardware := f c.registry.hardware }
    { d with stage := .created { c with registry } }

def hardware (d : Device H) : H :=
  match d.stage with
  | .waiting hardware => hardware
  | .created c => c.registry.hardware

def getLog : Task H (Option LogRecord) := serve do
  let (event, c) := (← get).takeEvent
  set c
  return event.map LogRecord.ofEvent

def drainLog : Task H (List LogRecord) := serve do
  let (events, c) := (← get).drainEvents
  set c
  return events.map LogRecord.ofEvent

def domainCount : Task H Nat := serve do
  return (← get).domainCount

def status : Task H Status := serve do
  return (← get).status

/-- The controller itself, for whoever asks more of it than the device does. -/
def scheduler : Task H (Controller H) := serve get

def openSession (pid : Nat) (writable : Bool) : Task H Session := serve do
  let user ← Controller.onArbiter (Arbiter.addUser pid writable)
  return { user, pid }

variable [Hardware H]

/-- Creates and starts the scheduler. A scheduler that is there already is only started. Creation
asks memory for the log, and the start asks for a thread. -/
def create (room : Bool := true) (thread : Bool := true) : Task H Unit := do
  let d ← get
  if d.gone then throw .deviceGone
  match d.stage with
  | .created _ => onController (Controller.start thread)
  | .waiting hardware =>
    let c ← reading fun _ => Controller.new d.settings hardware room
    set { d with stage := .created (c.record .createScheduler 0) }
    onController (Controller.start thread)

def addDomain (name : String) (timesliceNs preemptGraceNs : Nat) (room : Registry.Room := {}) :
    Task H DomainId :=
  serve (Controller.addDomain name timesliceNs preemptGraceNs room)

def removeDomain (id : DomainId) : Task H Unit := serve (Controller.removeDomain id)

def settle (d : Device H) : Device H := d.updateController Controller.settle

def shutdown (d : Device H) : Device H :=
  if d.gone then d else { d.updateController Controller.tearDown with gone := true }

/-- Stops the worker of a device that is closed without shutting down. -/
def close (d : Device H) : Device H :=
  if d.gone then d else d.updateController Controller.stop

end Device

namespace Session

variable {H : Type}

def reserve (s : Session) : Controller.Task H Unit := do
  Controller.ensurePresent
  Controller.onArbiter (Arbiter.reserve s.user)

def release (s : Session) : Controller.Task H Unit := do
  Controller.ensurePresent
  Controller.onArbiter (Arbiter.release s.user)

def isExclusive (s : Session) (c : Controller H) : Bool := c.arbiter.isExclusiveUser s.user

def isActive (s : Session) (c : Controller H) : Bool := c.arbiter.userIsActive s.user

def createQueue (allocator : Allocator) (s : Session) (role : QueueRole) :
    Controller.Task H ExportHandle := do
  Controller.ensurePresent
  let size := (← get).settings.queueBytes role
  Controller.onArbiter (Arbiter.openQueue allocator s.user role size)

/-- Opens a queue and maps as much of it as the settings say. -/
def mapQueue (allocator : Allocator) (s : Session) (role : QueueRole)
    (room : RecordRoom := .ample) : Controller.Task H MappedView := do
  let handle ← s.createQueue allocator role
  let size := (← get).settings.queueBytes role
  Controller.onArbiter (Arbiter.mapHandle handle 0 size room)

def eraseQueue (s : Session) (role : QueueRole) : Controller.Task H Unit := do
  Controller.ensurePresent
  Controller.onArbiter (Arbiter.closeQueue s.user role)

/-- Wakes the worker. Exclusive access is checked before the device. -/
def ringDoorbell [Hardware H] (s : Session) : Controller.Task H Unit := do
  if !s.isExclusive (← get) then throw .permissionDenied
  Controller.ringDoorbell

/-- Ends the session: exclusive access first, then everything else of it. -/
def close (s : Session) (c : Controller H) : Controller H :=
  { c with arbiter := ((c.arbiter.reset s.user).removeUser s.user).2 }

end Session

end AcceleratorScheduler
