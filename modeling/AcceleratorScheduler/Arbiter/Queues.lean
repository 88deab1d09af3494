import AcceleratorScheduler.Arbiter.Basic
import AcceleratorScheduler.Ring

/-! The arbiter's queues: buffers come and go with their use, and a mapping of one is granted to the
holder of exclusive access, or on the event queue to everyone. -/
namespace AcceleratorScheduler

structure ExportHandle where
  role : QueueRole
  user : UserId
  readOnly : Bool
  deriving DecidableEq, Repr

def ExportHandle.text (h : ExportHandle) : String :=
  let role := h.role.name
  s!"ExportHandle \x7b role: {role}, user: UserId({h.user}), read_only: {h.readOnly} \x7d"

namespace Arbiter

def requireBuffer (role : QueueRole) : Task SharedBuffer := do
  match (← get).queues.get role with
  | some buffer => return buffer
  | none => throw .notFound

def install (role : QueueRole) (size : Nat) (mask : AccessMask) (bytes : Memory) (a : Arbiter) :
    Arbiter :=
  let (region, memory) := a.memory.addRegion bytes
  { a.putBuffer role (some { size, mask, region }) with memory }

def allocateBuffer (allocator : Allocator) (role : QueueRole) (size : Nat) (mask : AccessMask) :
    Task Unit := do
  ensureLive
  if ((← get).queues.get role).isSome then throw .busy
  let bytes ← reading fun _ => SharedBuffer.allocate allocator size mask
  modify (install role size mask bytes)

/-- Takes a queue's buffer away, which must wait until nothing maps it. -/
def freeBuffer (role : QueueRole) : Task Unit := do
  let buffer ← requireBuffer role
  if buffer.isMapped then throw .busy
  modify (·.putBuffer role none)

def bufferSize (role : QueueRole) : Task Nat := do
  return (← requireBuffer role).size

def mapRange (role : QueueRole) (user : UserId) (offset length : Nat) (readOnly : Bool)
    (room : RecordRoom := .ample) : Task MappedView := do
  ensureLive
  let u ← requireUser user
  if role.isExclusive && !u.exclusive then throw .permissionDenied
  let buffer ← requireBuffer role
  let (view, memory) := (← get).memory.link buffer.region
  let (mapping, buffer) ← reading fun _ => buffer.attach offset length (!readOnly) user view room
  modify fun a => { a.putBuffer role (some buffer) with memory }
  return { view, queue := role, mapping, length, writable := !readOnly }

def mapWhole (role : QueueRole) (user : UserId) (readOnly : Bool) (room : RecordRoom := .ample) :
    Task MappedView := do
  let size ← bufferSize role
  mapRange role user 0 size readOnly room

/-- Starts a session's use of a queue. The first use obtains the buffer and lays out its ring. -/
def openQueue (allocator : Allocator) (user : UserId) (role : QueueRole) (size : Nat) :
    Task ExportHandle := do
  ensureLive
  let u ← requireUser user
  if role.isExclusive && !u.exclusive then throw .permissionDenied
  if ((← get).queues.get role).isNone then
    let blank ← reading fun _ => SharedBuffer.allocate allocator size role.mask
    let bytes ← reading fun _ =>
      let (formatted, bytes) := answer Ring.format blank
      formatted.map fun _ => bytes
    modify (install role size role.mask bytes)
  modify (·.updateUser user fun u => { u with queues := u.queues.insert role })
  return { role, user, readOnly := role.mask.isReadOnly }

/-- Maps a queue by a handle. Handles do not outlive the arbiter. -/
def mapHandle (handle : ExportHandle) (offset length : Nat) (room : RecordRoom := .ample) :
    Task MappedView := do
  if (← get).dissolved then throw .deviceGone
  mapRange handle.role handle.user offset length handle.readOnly room

/-- Ends a session's use of a queue, which must wait until nothing maps it. The last use frees the
buffer. -/
def closeQueue (user : UserId) (role : QueueRole) : Task Unit := do
  let u ← requireUser user
  if !u.queues.contains role then throw .invalidArgument
  if ((← get).queues.get role).any SharedBuffer.isMapped then throw .busy
  modify (·.updateUser user fun u => { u with queues := u.queues.erase role })
  modify fun a => if a.uses role then a else a.putBuffer role none

/-- Closes a view. A view whose link is cut owns no record any more, although a later mapping may
have its number. -/
def closeView (v : MappedView) (a : Arbiter) : Arbiter :=
  let a :=
    if a.dissolved || !a.memory.isLive v.view then a
    else match (a.queues.get v.queue).bind (·.detach v.mapping) with
      | none => a
      | some (view, buffer) =>
        { a.putBuffer v.queue (some buffer) with memory := a.memory.unlink view }
  { a with memory := a.memory.unlink v.view }

def onView {α : Type} (v : MappedView) (operation : EStateM Refusal Window α) : Task α := fun a =>
  match SharedMemory.through v operation a.memory with
  | .ok x memory => .ok x { a with memory }
  | .error refusal memory => .error refusal { a with memory }

def onBuffer {α : Type} (role : QueueRole) (operation : EStateM Refusal Memory α) (a : Arbiter) :
    Option (Except Refusal α) × Arbiter :=
  match a.queues.get role with
  | none => (none, a)
  | some buffer =>
    let (result, bytes) := answer operation (a.memory.bytes buffer.region)
    (some result, { a with memory := a.memory.setBytes buffer.region bytes })

/-- Ends every view and frees every buffer, and says how many views that ended. -/
def revokeAll (a : Arbiter) : Nat × Arbiter :=
  let buffers := QueueRole.all.filterMap a.queues.get
  let views := buffers.flatMap fun b => b.mappings.map Mapping.view
  (views.length,
    { a with
      users := a.users.map fun u => { u with exclusive := false, queues := .empty }
      queues := {}
      memory := a.memory.unlinkAll views
      revoked := true })

def destroy : Task Unit := do
  if (← get).isBusy then throw .busy
  modify fun a => { a with users := [], queues := {}, revoked := true }

def dissolve (a : Arbiter) : Arbiter := { a with dissolved := true }

end Arbiter

end AcceleratorScheduler
