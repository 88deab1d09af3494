import AcceleratorScheduler.Demo
import AcceleratorScheduler.Settings.Decoding

/-! A daemon at work on a simulated accelerator: it starts the scheduler, then forwards the event
log round by round. -/
namespace AcceleratorScheduler

structure Daemon where
  settings : DaemonSettings
  device : Device HostSimulation

namespace Daemon

def launch (settings : DaemonSettings) (provision : Demo.Provision := {}) (clock : Int64 := 0) :
    Except Refusal Daemon :=
  match answer (Demo.settled (Device.create provision.log provision.thread))
      { settings := settings.sched, stage := .waiting (provision.hardware clock) } with
  | (.ok (), device) => .ok { settings, device }
  | (.error refusal, _) => .error refusal

def recordLine (record : LogRecord) : String := s!"[{record.timestamp}] {record.message}"

def forward (daemon : Daemon) : Except Refusal (List String × Daemon) :=
  match answer Device.drainLog daemon.device with
  | (.ok records, device) => .ok (records.map recordLine, { daemon with device })
  | (.error refusal, _) => .error refusal

def forwardRounds : (rounds : Nat) → Daemon → Except Refusal (List String × Daemon)
  | 0, daemon => .ok ([], daemon)
  | rounds + 1, daemon => do
    let (lines, daemon) ← forward daemon
    let (further, daemon) ← forwardRounds rounds daemon
    return (lines ++ further, daemon)

/-- Milliseconds from one round to the next. -/
def pause (daemon : Daemon) : Nat := 10 * daemon.settings.sched.idleTimeoutMs.toNat

end Daemon

end AcceleratorScheduler
