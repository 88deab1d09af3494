import AcceleratorScheduler.Device
import AcceleratorScheduler.Hardware.Simulation

/-! A scripted run on a simulated accelerator: two domains, and a switch to each by way of the
request queue. -/
namespace AcceleratorScheduler.Demo

abbrev Task (α : Type) := Device.Task HostSimulation α

/-- A request after which the worker has had its turn. -/
def settled {α : Type} (task : Task α) : Task α := do
  let x ← task
  modify Device.settle
  return x

def onView {α : Type} (view : MappedView) (operation : EStateM Refusal Window α) : Task α :=
  Device.onController (Controller.onArbiter (Arbiter.onView view operation))

def collect (view : MappedView) : (count : Nat) → Task (List String)
  | 0 => return []
  | count + 1 => do
    match ← onView view Ring.pop with
    | none => return []
    | some slot =>
      let r := Response.decode slot
      return s!"response seq={r.seq} status={r.status}" :: (← collect view count)

def recordText (record : LogRecord) : String :=
  let time := padLeft 12 (toString record.timestamp)
  s!"[{time}] {record.message}"

def slotText : Option DomainId → String
  | none => "-"
  | some id => toString id

/-- What a run finds around it besides the blocks of its queues: room for the log, a thread for the
worker and one that comes up in time, and room for each domain and for the records of mappings. -/
structure Provision where
  log : Bool := true
  thread : Bool := true
  prompt : Bool := true
  first : Registry.Room := {}
  second : Registry.Room := {}
  records : QueueRole → RecordRoom := fun _ => .ample

def Provision.hardware (provision : Provision) (clock : Int64) : HostSimulation :=
  { clock, late := !provision.prompt }

/-- The worker takes a turn after each request that may have woken it, and has answered by the time
the responses are collected. If it takes one earlier, between the two posts say, it finds the same
requests in the same order, so the lines stay what they are. -/
def script (allocator : Allocator) (pid : Nat) (provision : Provision := {}) :
    Task (List String) := do
  settled (Device.create provision.log provision.thread)
  let first ← settled (Device.addDomain "default" 1000000 50000 provision.first)
  let second ← settled (Device.addDomain "compute" 4000000 200000 provision.second)
  let session ← Device.openSession pid true
  Device.onController session.reserve
  let requests ← Device.onController (session.mapQueue allocator .send (provision.records .send))
  let responses ←
    Device.onController (session.mapQueue allocator .receive (provision.records .receive))
  onView requests (Ring.push (Request.switchDomain 1 (.ofNat first)).encode)
  onView requests (Ring.push (Request.switchDomain 2 (.ofNat second)).encode)
  settled (Device.onController session.ringDoorbell)
  let answers ← collect responses 2
  let status ← Device.status
  let active := slotText status.active
  let shadow := slotText status.shadow
  let switches := (← get).hardware.switches
  let summary :=
    s!"active={active} shadow={shadow} domains={status.domains} hw_switches={switches}"
  let records ← Device.drainLog
  modify fun d =>
    let d := d.updateController fun c =>
      session.close { c with arbiter := (c.arbiter.closeView requests).closeView responses }
    d.shutdown
  return answers ++ summary :: records.map recordText

def run (settings : Settings) (allocator : Allocator) (pid : Nat) (provision : Provision := {})
    (clock : Int64 := 0) : Except Refusal (List String) :=
  (answer (script allocator pid provision)
    { settings, stage := .waiting (provision.hardware clock) }).1

end AcceleratorScheduler.Demo
