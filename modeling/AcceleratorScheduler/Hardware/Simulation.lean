import AcceleratorScheduler.Hardware.Basic

/-! Accelerators that exist in software only: one that accepts everything, and a bench on which the
answers can be set. -/
namespace AcceleratorScheduler

/-- An accelerator with two runlists that accepts every call. Its clock moves on with each
reading. -/
structure HostSimulation where
  lastHandle : UInt64 := 0
  resident : Option DomainId := none
  /-- Domains programmed so far. -/
  switches : Nat := 0
  clock : Int64 := 0
  /-- Its worker takes longer to come up than anyone waits. -/
  late : Bool := false
  deriving Repr

namespace HostSimulation

def tick : Int64 := 1000

def readClock (s : HostSimulation) : Int64 × HostSimulation :=
  (s.clock, { s with clock := s.clock + tick })

instance : Hardware HostSimulation where
  runlistCount _ := 2
  allocate s runlist _ _ :=
    (.ok ⟨runlist, s.lastHandle + 1⟩, { s with lastHandle := s.lastHandle + 1 })
  release s _ := s
  apply s domain := (.ok (), { s with resident := some domain.id, switches := s.switches + 1 })
  status s := { busyEngines := if s.resident.isSome then 1 else 0, resident := s.resident }
  stamp := readClock
  uptime := readClock
  startWorker s := (if s.late then .hung else .ready, s)

end HostSimulation

/-- A bench: chosen calls fail, the clock and the worker's starts follow a script. Without a
simulated host behind it, handles are made from the domain and the runlist. -/
structure Bench where
  host : Option HostSimulation := none
  runlists : Nat := 2
  /-- The runlist on which allocation fails, and how. -/
  failingRunlist : Option (Nat × Refusal) := none
  failingApply : Option Refusal := none
  clock : Int64 := 1000
  clockStep : Int64 := 10
  /-- The log's clock, which moves on with each reading. -/
  uptime : Int64 := 0
  busyEngines : UInt32 := 0
  resident : Option DomainId := none
  /-- Outcomes of the starts to come; after them every start is ready. -/
  starts : List StartOutcome := []
  /-- Once open, no start hangs any more. -/
  gateOpen : Bool := false
  deriving Repr

namespace Bench

def uptimeStep : Int64 := 977

def allocate (b : Bench) (runlist : Nat) (domain : DomainId) (name : String) :
    Except Refusal SubDomain × Bench :=
  match b.failingRunlist with
  | some (failing, refusal) =>
    if runlist = failing then (.error refusal, b) else grant
  | none => grant
where
  grant : Except Refusal SubDomain × Bench :=
    match b.host with
    | some host =>
      let (answer, host) := Hardware.allocate host runlist domain name
      (answer, { b with host := some host })
    | none => (.ok ⟨runlist, (UInt64.ofNat domain <<< 4) ||| UInt64.ofNat runlist⟩, b)

def apply (b : Bench) (domain : Domain) : Except Refusal Unit × Bench :=
  match b.failingApply, b.host with
  | some refusal, _ => (.error refusal, b)
  | none, some host =>
    let (answer, host) := Hardware.apply host domain
    (answer, { b with host := some host })
  | none, none => (.ok (), { b with resident := some domain.id })

def startWorker (b : Bench) : StartOutcome × Bench :=
  match b.starts with
  | [] => (.ready, b)
  | outcome :: rest =>
    (if outcome = .hung && b.gateOpen then .ready else outcome, { b with starts := rest })

instance : Hardware Bench where
  runlistCount b := match b.host with
    | some host => Hardware.runlistCount host
    | none => b.runlists
  allocate := allocate
  release b _ := b
  apply := apply
  status b := match b.host with
    | some host => Hardware.status host
    | none => { busyEngines := b.busyEngines, resident := b.resident }
  stamp b := (b.clock, { b with clock := b.clock + b.clockStep })
  uptime b := (b.uptime, { b with uptime := b.uptime + uptimeStep })
  startWorker := startWorker

end Bench

end AcceleratorScheduler
