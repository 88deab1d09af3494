import AcceleratorScheduler.Shared.View

/-! Buffers of queues. A buffer keeps one record for each mapping of it, and the number of records
beside them, in a word of 32 bits. -/
namespace AcceleratorScheduler

abbrev UserId := Nat

structure Mapping where
  id : MappingId
  owner : UserId
  view : ViewId
  deriving DecidableEq, Repr

structure SharedBuffer where
  size : Nat
  mask : AccessMask
  region : RegionId
  mappings : List Mapping := []
  /-- Goes round at 2^32, and does not look at the records. -/
  count : UInt32 := 0
  /-- Counted anew in every buffer, so two buffers give out the same numbers. -/
  nextMapping : MappingId := 1
  deriving DecidableEq, Repr

/-- What memory answers when a list of so many records asks for room for one more. -/
abbrev RecordRoom := Nat → Bool

def RecordRoom.ample : RecordRoom := fun _ => true

namespace SharedBuffer

/-- Obtains the bytes of a new buffer. A block of a wrong length counts as no memory. -/
def allocate (allocator : Allocator) (size : Nat) (mask : AccessMask) : Except Refusal Memory := do
  if size = 0 ∨ mask.isEmpty then throw .invalidArgument
  let bytes ← allocator size
  if bytes.size = size then return bytes else throw .outOfMemory

def refCount (b : SharedBuffer) : Nat := b.count.toNat

def isMapped (b : SharedBuffer) : Bool := b.count != 0

def owners (b : SharedBuffer) : List UserId := b.mappings.map Mapping.owner

def attach (b : SharedBuffer) (offset length : Nat) (writable : Bool) (owner : UserId)
    (view : ViewId) (room : RecordRoom := .ample) : Except Refusal (MappingId × SharedBuffer) := do
  if offset ≠ 0 ∨ length = 0 ∨ b.size < length then throw .invalidArgument
  if writable && b.mask.isReadOnly then throw .permissionDenied
  if !room b.mappings.length then throw .outOfMemory
  return (b.nextMapping,
    { b with
      mappings := b.mappings ++ [⟨b.nextMapping, owner, view⟩]
      count := b.count + 1
      nextMapping := b.nextMapping + 1 })

def detach (b : SharedBuffer) (id : MappingId) : Option (ViewId × SharedBuffer) :=
  match b.mappings.find? (·.id == id) with
  | none => none
  | some mapping => some (mapping.view,
      { b with
        mappings := b.mappings.eraseP (·.id == id)
        count := b.count - 1 })

def revokeOwner (b : SharedBuffer) (owner : UserId) : List ViewId × SharedBuffer :=
  let (gone, kept) := b.mappings.partition (·.owner == owner)
  (gone.map Mapping.view, { b with mappings := kept, count := b.count - .ofNat gone.length })

def text (b : SharedBuffer) : String :=
  let mask := b.mask.text
  let records := b.mappings.length
  s!"SharedBuffer \x7b size: {b.size}, mask: {mask}, ref_count: {b.refCount}, "
    ++ s!"mappings: {records} \x7d"

end SharedBuffer

def MappedView.text (v : MappedView) (m : SharedMemory) : String :=
  let queue := v.queue.index
  let valid := m.isLive v.view
  s!"MappedView \x7b key: ViewKey \x7b queue: {queue}, mapping: MappingId({v.mapping}) \x7d, "
    ++ s!"len: {v.length}, writable: {v.writable}, valid: {valid} \x7d"

end AcceleratorScheduler
