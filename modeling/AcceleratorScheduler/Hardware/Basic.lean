import AcceleratorScheduler.Domain.Basic
import AcceleratorScheduler.Refusal

/-! The hardware as the scheduler sees it: a state that each call may change and each answer may
depend on. A second instance records the calls that go to another. -/
namespace AcceleratorScheduler

structure HardwareStatus where
  /-- One bit for each busy engine. -/
  busyEngines : UInt32
  /-- The domain that the hardware takes to be resident. -/
  resident : Option DomainId
  deriving DecidableEq, Repr

/-- How the worker's start goes. A hung start shows no sign of life within the time allowed. -/
inductive StartOutcome where
  | ready
  | failed (refusal : Refusal)
  | hung
  deriving DecidableEq, Repr

class Hardware (H : Type) where
  runlistCount : H → Nat
  /-- Creates the sub-domain of a domain on a runlist. -/
  allocate : H → (runlist : Nat) → DomainId → (name : String) → Except Refusal SubDomain × H
  release : H → SubDomain → H
  /-- Makes a domain the resident one. -/
  apply : H → Domain → Except Refusal Unit × H
  status : H → HardwareStatus
  /-- Reads the clock that stamps responses. -/
  stamp : H → Int64 × H
  /-- Reads the clock of the event log. -/
  uptime : H → Int64 × H
  /-- Runs before a new worker reports readiness. -/
  startWorker : H → StartOutcome × H

/-- The hardware names the runlist that it was asked for. -/
def Hardware.Echoes (H : Type) [Hardware H] : Prop :=
  ∀ (hardware hardware' : H) (runlist : Nat) (domain : DomainId) (name : String) (sub : SubDomain),
    allocate hardware runlist domain name = (.ok sub, hardware') → sub.runlist = runlist

inductive HardwareCall where
  | allocate (runlist : Nat) (domain : DomainId) (name : String) (answer : Except Refusal SubDomain)
  | release (sub : SubDomain)
  | apply (domain : Domain) (answer : Except Refusal Unit)
  | startWorker (outcome : StartOutcome)

def HardwareCall.text : HardwareCall → String
  | allocate runlist domain name (.ok sub) => s!"alloc {runlist} {domain} {name} -> {sub.handle}"
  | allocate runlist domain name (.error _) => s!"alloc_fail {runlist} {domain} {name}"
  | release sub => s!"free {sub.runlist} {sub.handle}"
  | apply d _ => s!"apply {d.id} {d.name} {d.timesliceNs} {d.preemptGraceNs}"
  | startWorker _ => "start"

/-- Hardware that remembers every call to it, in order. -/
structure Recorded (H : Type) where
  hardware : H
  calls : List HardwareCall := []

namespace Recorded

variable {H : Type} [Hardware H]

def note (r : Recorded H) (hardware : H) (call : HardwareCall) : Recorded H :=
  { hardware, calls := r.calls ++ [call] }

instance : Hardware (Recorded H) where
  runlistCount r := Hardware.runlistCount r.hardware
  allocate r runlist domain name :=
    let (answer, hardware) := Hardware.allocate r.hardware runlist domain name
    (answer, r.note hardware (.allocate runlist domain name answer))
  release r sub := r.note (Hardware.release r.hardware sub) (.release sub)
  apply r domain :=
    let (answer, hardware) := Hardware.apply r.hardware domain
    (answer, r.note hardware (.apply domain answer))
  status r := Hardware.status r.hardware
  stamp r :=
    let (now, hardware) := Hardware.stamp r.hardware
    (now, { r with hardware })
  uptime r :=
    let (now, hardware) := Hardware.uptime r.hardware
    (now, { r with hardware })
  startWorker r :=
    let (outcome, hardware) := Hardware.startWorker r.hardware
    (outcome, r.note hardware (.startWorker outcome))

theorem echoes (h : Hardware.Echoes H) : Hardware.Echoes (Recorded H) := by
  intro r r' runlist domain name sub hallocate
  rcases hraw : Hardware.allocate r.hardware runlist domain name with ⟨answer, raw⟩
  simp only [Hardware.allocate, hraw, Prod.mk.injEq] at hallocate
  exact h _ raw runlist domain name sub (hallocate.1 ▸ hraw)

def live (r : Recorded H) : Int :=
  r.calls.foldl (fun n call => match call with
    | .allocate _ _ _ (.ok _) => n + 1
    | .release _ => n - 1
    | _ => n) 0

end Recorded

end AcceleratorScheduler
