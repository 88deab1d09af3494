import AcceleratorScheduler.Access
import AcceleratorScheduler.Memory

/-! Memory lent to sessions. A view reaches its region through a link, and cutting the link ends the
view: every later access through it is refused. -/
namespace AcceleratorScheduler

abbrev RegionId := Nat

abbrev ViewId := Nat

abbrev MappingId := Nat

/-- All regions ever lent, and for each view the region that it still reaches. -/
structure SharedMemory where
  regions : Array Memory := #[]
  links : Array (Option RegionId) := #[]
  deriving Repr

structure MappedView where
  view : ViewId
  queue : QueueRole
  mapping : MappingId
  length : Nat
  writable : Bool
  deriving DecidableEq, Repr

/-- What can be reached through a view: nothing once its link is cut. -/
structure Window where
  length : Nat
  writable : Bool
  bytes : Option Memory
  deriving Repr

namespace Window

/-- The range is checked before the link. -/
def load (w : Window) (offset length : Nat) : Except Refusal (Vector UInt8 length) :=
  if offset + length ≤ w.length then
    match w.bytes with
    | some bytes => bytes.load offset length
    | none => .error .fault
  else .error .invalidArgument

/-- A view for reading refuses every store, whatever its range. -/
def objection (w : Window) (offset length : Nat) : Option Refusal :=
  if !w.writable then some .permissionDenied
  else if offset + length ≤ w.length then
    match w.bytes with
    | some bytes => bytes.objection offset length
    | none => some .fault
  else some .invalidArgument

def overwrite (w : Window) (offset : Nat) (bytes : List UInt8) : Window :=
  { w with bytes := w.bytes.map (·.overwrite offset bytes) }

instance : ByteStore Window where
  size := length
  load := load
  objection := objection
  overwrite := overwrite

end Window

namespace SharedMemory

def addRegion (m : SharedMemory) (bytes : Memory) : RegionId × SharedMemory :=
  (m.regions.size, { m with regions := m.regions.push bytes })

def bytes (m : SharedMemory) (region : RegionId) : Memory := m.regions.getD region (.zeroed 0)

def setBytes (m : SharedMemory) (region : RegionId) (bytes : Memory) : SharedMemory :=
  { m with regions := m.regions.setIfInBounds region bytes }

def link (m : SharedMemory) (region : RegionId) : ViewId × SharedMemory :=
  (m.links.size, { m with links := m.links.push (some region) })

def region? (m : SharedMemory) (view : ViewId) : Option RegionId := m.links.getD view none

def isLive (m : SharedMemory) (view : ViewId) : Bool := (m.region? view).isSome

def unlink (m : SharedMemory) (view : ViewId) : SharedMemory :=
  { m with links := m.links.setIfInBounds view none }

def unlinkAll (m : SharedMemory) (views : List ViewId) : SharedMemory := views.foldl unlink m

def window (m : SharedMemory) (v : MappedView) : Window :=
  ⟨v.length, v.writable, (m.region? v.view).map m.bytes⟩

def refit (m : SharedMemory) (v : MappedView) (w : Window) : SharedMemory :=
  match m.region? v.view, w.bytes with
  | some region, some bytes => m.setBytes region bytes
  | _, _ => m

def through {α : Type} (v : MappedView) (operation : EStateM Refusal Window α) :
    EStateM Refusal SharedMemory α := fun m =>
  match operation (m.window v) with
  | .ok a w => .ok a (m.refit v w)
  | .error refusal w => .error refusal (m.refit v w)

end SharedMemory

end AcceleratorScheduler
