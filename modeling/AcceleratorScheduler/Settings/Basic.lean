import AcceleratorScheduler.Access
import AcceleratorScheduler.Refusal

/-! The tunable values of one scheduler. -/
namespace AcceleratorScheduler

structure TimeSpan where
  seconds : Nat
  nanoseconds : Nat
  deriving DecidableEq, Repr

def TimeSpan.ofMilliseconds (ms : Nat) : TimeSpan := ⟨ms / 1000, ms % 1000 * 1000000⟩

structure Settings where
  /-- Events kept by the event log. -/
  logCapacity : UInt32 := 128
  /-- Time that a worker has to report readiness. -/
  initTimeoutMs : UInt64 := 100
  /-- Longest sleep of the worker while no domain is active. -/
  idleTimeoutMs : UInt64 := 10
  requestQueueBytes : UInt64 := 4096
  responseQueueBytes : UInt64 := 4096
  eventQueueBytes : UInt64 := 4096
  deriving DecidableEq, Repr

namespace Settings

def queueAlign : Nat := 4096

def queueBytes (s : Settings) : QueueRole → Nat
  | .send => s.requestQueueBytes.toNat
  | .receive => s.responseQueueBytes.toNat
  | .event => s.eventQueueBytes.toNat

/-- The log keeps something and has room for one place more, every wait takes time, and queues
consist of whole pages. -/
def Valid (s : Settings) : Prop :=
  s.logCapacity ≠ 0 ∧ s.logCapacity ≠ 0xFFFFFFFF ∧ s.initTimeoutMs ≠ 0 ∧ s.idleTimeoutMs ≠ 0 ∧
    ∀ role ∈ QueueRole.all, s.queueBytes role ≠ 0 ∧ s.queueBytes role % queueAlign = 0

instance (s : Settings) : Decidable s.Valid := by unfold Valid; infer_instance

def validate (s : Settings) : Except Refusal Unit :=
  if s.Valid then .ok () else .error .invalidArgument

theorem validate_eq_ok_iff {s : Settings} : s.validate = .ok () ↔ s.Valid := by
  unfold validate
  split <;> simp_all

def initTimeout (s : Settings) : TimeSpan := .ofMilliseconds s.initTimeoutMs.toNat

def idleTimeout (s : Settings) : TimeSpan := .ofMilliseconds s.idleTimeoutMs.toNat

end Settings

end AcceleratorScheduler
