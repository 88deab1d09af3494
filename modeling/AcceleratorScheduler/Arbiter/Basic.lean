import AcceleratorScheduler.Shared.Buffer

/-! The arbiter's session list and exclusive access. At most one session holds exclusive access;
giving it up, losing it and leaving each end what it allowed. -/
namespace AcceleratorScheduler

structure User where
  id : UserId
  pid : Nat
  /-- Opened with the right to write. -/
  writable : Bool
  /-- Holds exclusive access. -/
  exclusive : Bool := false
  /-- Queues that the session uses. -/
  queues : QueueSet := .empty
  deriving DecidableEq, Repr

structure QueueTable where
  send : Option SharedBuffer := none
  receive : Option SharedBuffer := none
  event : Option SharedBuffer := none
  deriving DecidableEq, Repr

namespace QueueTable

def get (t : QueueTable) : QueueRole → Option SharedBuffer
  | .send => t.send
  | .receive => t.receive
  | .event => t.event

def put (t : QueueTable) (buffer : Option SharedBuffer) : QueueRole → QueueTable
  | .send => { t with send := buffer }
  | .receive => { t with receive := buffer }
  | .event => { t with event := buffer }

@[simp] theorem get_put (t : QueueTable) (buffer : Option SharedBuffer) (role other : QueueRole) :
    (t.put buffer role).get other = if other = role then buffer else t.get other := by
  cases role <;> cases other <;> rfl

end QueueTable

structure Arbiter where
  /-- In the order of their ids, which is the order of arrival. -/
  users : List User := []
  nextUser : UserId := 1
  queues : QueueTable := {}
  memory : SharedMemory := {}
  /-- Torn down: no request that would add anything is served any more. -/
  revoked : Bool := false
  /-- Let go by its owner: views outlive it, everything else is over. -/
  dissolved : Bool := false
  deriving Repr

namespace Arbiter

def user? (a : Arbiter) (id : UserId) : Option User := a.users.find? (·.id == id)

def updateUser (a : Arbiter) (id : UserId) (f : User → User) : Arbiter :=
  { a with users := a.users.map fun u => if u.id = id then f u else u }

def holder? (a : Arbiter) : Option UserId := (a.users.find? User.exclusive).map User.id

def userExists (a : Arbiter) (pid : Nat) (requireWrite : Bool) : Bool :=
  a.users.any fun u => u.pid == pid && (!requireWrite || u.writable)

def userIsActive (a : Arbiter) (id : UserId) : Bool :=
  (a.user? id).any fun u => !u.queues.isEmpty

def isExclusiveUser (a : Arbiter) (id : UserId) : Bool := (a.user? id).any User.exclusive

def uses (a : Arbiter) (role : QueueRole) : Bool := a.users.any fun u => u.queues.contains role

def isBusy (a : Arbiter) : Bool :=
  QueueRole.all.any fun role => (a.queues.get role).any SharedBuffer.isMapped

def putBuffer (a : Arbiter) (role : QueueRole) (buffer : Option SharedBuffer) : Arbiter :=
  { a with queues := a.queues.put buffer role }

/-- Frees the buffer of a queue that no session uses and nothing maps. -/
def releaseUnused (a : Arbiter) (role : QueueRole) : Arbiter :=
  if !a.uses role && (a.queues.get role).any (!·.isMapped) then a.putBuffer role none else a

def revokeQueue (a : Arbiter) (id : UserId) (role : QueueRole) : Arbiter :=
  let a := match a.queues.get role with
    | none => a
    | some buffer =>
      let (views, buffer) := buffer.revokeOwner id
      { a.putBuffer role (some buffer) with memory := a.memory.unlinkAll views }
  let a := a.updateUser id fun u => { u with queues := u.queues.erase role }
  a.releaseUnused role

def revokeUser (a : Arbiter) (id : UserId) (roles : QueueSet) : Arbiter :=
  (QueueRole.all.filter roles.contains).foldl (fun a role => a.revokeQueue id role) a

/-- A request to the arbiter: it may be refused, and says what it leaves either way. -/
abbrev Task (α : Type) := EStateM Refusal Arbiter α

def ensureLive : Task Unit := do
  if (← get).revoked then throw .deviceGone

def requireUser (id : UserId) : Task User := do
  match (← get).user? id with
  | some u => return u
  | none => throw .notFound

/-- Opens a session. A process has at most one with the right to write. -/
def addUser (pid : Nat) (writable : Bool) : Task UserId := do
  ensureLive
  let a ← get
  if writable && a.userExists pid true then throw .busy
  let u : User := { id := a.nextUser, pid, writable }
  set { a with users := a.users ++ [u], nextUser := a.nextUser + 1 }
  return u.id

def removeUser (id : UserId) (a : Arbiter) : Option User × Arbiter :=
  match a.user? id with
  | none => (none, a)
  | some _ =>
    let a := a.revokeUser id .full
    (a.user? id, { a with users := a.users.filter (·.id != id) })

def reserve (id : UserId) : Task Unit := do
  ensureLive
  let u ← requireUser id
  if !u.writable then throw .permissionDenied
  match (← get).holder? with
  | some holder => if holder ≠ id then throw .alreadyReserved
  | none => modify (·.updateUser id fun u => { u with exclusive := true })

/-- Takes exclusive access away and ends the session's views on the exclusive queues. -/
def reset (id : UserId) (a : Arbiter) : Arbiter :=
  match a.user? id with
  | none => a
  | some _ => (a.updateUser id fun u => { u with exclusive := false }).revokeUser id .exclusive

/-- Gives exclusive access up, which must wait until no exclusive queue is in use. -/
def release (id : UserId) : Task Unit := do
  let u ← requireUser id
  if !u.exclusive then throw .invalidArgument
  if u.queues.meets .exclusive then throw .busy
  modify (·.updateUser id fun u => { u with exclusive := false })

end Arbiter

end AcceleratorScheduler
