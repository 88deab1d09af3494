/-! Reasons for which the scheduler refuses a request, each with its result code and its wording. -/
namespace AcceleratorScheduler

inductive Refusal where
  /-- An allocation failed. -/
  | outOfMemory
  /-- No domain, session or buffer of that name exists. -/
  | notFound
  /-- The domain or buffer is still in use, or the ring is full. -/
  | busy
  /-- Another session holds exclusive access. -/
  | alreadyReserved
  /-- An offset, length, size or name is out of range. -/
  | invalidArgument
  /-- A domain of that name is registered already. -/
  | duplicateName
  /-- The worker did not report readiness in time. -/
  | initTimeout
  /-- The device was torn down. -/
  | deviceGone
  /-- The caller lacks the access that the request needs. -/
  | permissionDenied
  /-- The mapping was closed or revoked. -/
  | fault
  deriving DecidableEq, Repr, Inhabited

namespace Refusal

def code : Refusal → Int32
  | outOfMemory => -12
  | notFound => -2
  | busy => -16
  | alreadyReserved => -16
  | invalidArgument => -22
  | duplicateName => -17
  | initTimeout => -110
  | deviceGone => -19
  | permissionDenied => -1
  | fault => -14

def message : Refusal → String
  | outOfMemory => "out of memory"
  | notFound => "not found"
  | busy => "resource busy"
  | alreadyReserved => "exclusive access already reserved"
  | invalidArgument => "invalid argument"
  | duplicateName => "duplicate domain name"
  | initTimeout => "scheduler worker init timed out"
  | deviceGone => "device gone"
  | permissionDenied => "permission denied"
  | fault => "access through invalidated mapping"

end Refusal

def resultCode {α : Type} : Except Refusal α → Int32
  | .ok _ => 0
  | .error refusal => refusal.code

def reading {σ α : Type} (f : σ → Except Refusal α) : EStateM Refusal σ α := fun s =>
  match f s with
  | .ok a => .ok a s
  | .error refusal => .error refusal s

/-- Runs a request and gives its answer beside the state that it leaves, refused or not. -/
def answer {σ α : Type} (request : EStateM Refusal σ α) (s : σ) : Except Refusal α × σ :=
  match request s with
  | .ok a s' => (.ok a, s')
  | .error refusal s' => (.error refusal, s')

end AcceleratorScheduler
