import AcceleratorScheduler.Hardware.Basic

/-! The registry of domains. A registered domain is found by its id and by its name; it and every
domain that is still referenced keeps its sub-domains, which go back to the hardware when the last
reference goes. -/
namespace AcceleratorScheduler

structure Registry (H : Type) where
  hardware : H
  /-- The last id given out. -/
  lastId : DomainId := 0
  /-- Every domain that is registered or referenced. -/
  domains : List Domain := []
  /-- Registered ids, ascending. -/
  index : List DomainId := []
  /-- Registered names and what they stand for. -/
  names : List (String × DomainId) := []

namespace Registry

variable {H : Type}

def domain? (r : Registry H) (id : DomainId) : Option Domain := r.domains.find? (·.id == id)

def isIndexed (r : Registry H) (id : DomainId) : Bool := r.index.contains id

def refCount (r : Registry H) (id : DomainId) : Nat := ((r.domain? id).map Domain.refs).getD 0

def updateDomain (r : Registry H) (id : DomainId) (f : Domain → Domain) : Registry H :=
  { r with domains := r.domains.map fun d => if d.id = id then f d else d }

/-- A request to the registry: it may be refused, and says what it leaves either way. -/
abbrev Task (H α : Type) := EStateM Refusal (Registry H) α

def requireDomain (id : DomainId) : Task H Domain := do
  let r ← get
  match if r.isIndexed id then r.domain? id else none with
  | some d => return d
  | none => throw .notFound

def hold (id : DomainId) (r : Registry H) : Registry H :=
  r.updateDomain id fun d => { d with refs := d.refs + 1 }

def lookupId (id : DomainId) : Task H DomainId := do
  let d ← requireDomain id
  modify (hold d.id)
  return d.id

def lookupName (name : String) : Task H DomainId := do
  match (← get).names.lookup name with
  | some id => lookupId id
  | none => throw .notFound

def stage (r : Registry H) (slots : DomainSlots) (id : DomainId) : Except Refusal DomainSlots :=
  if r.isIndexed id then .ok { slots with shadow := some id } else .error .notFound

/-- Swaps the slots if the shadow slot names a registered domain. A name that is registered no more
is wiped out instead. -/
def promote (r : Registry H) (slots : DomainSlots) : Option SlotSwap × DomainSlots :=
  match slots.shadow with
  | none => (none, slots)
  | some next =>
    if r.isIndexed next then
      (some { active := next, previous := slots.active },
        { active := some next, shadow := slots.active })
    else (none, { slots with shadow := none })

variable [Hardware H]

def releaseAll (subs : List SubDomain) (hardware : H) : H := subs.foldl Hardware.release hardware

/-- Creates a sub-domain on each of the runlists. At the first failure those already held go
back. -/
def allocateAll (id : DomainId) (name : String) :
    (runlists : List Nat) → (held : List SubDomain) → H → Except Refusal (List SubDomain) × H
  | [], held, hardware => (.ok held, hardware)
  | runlist :: rest, held, hardware =>
    match Hardware.allocate hardware runlist id name with
    | (.ok sub, hardware) => allocateAll id name rest (held ++ [sub]) hardware
    | (.error refusal, hardware) => (.error refusal, releaseAll held hardware)

/-- What memory answers when a domain is added: whether the index of names finds room for one more
name, and the list of sub-domains for one on each runlist. -/
structure Room where
  name : Bool := true
  subDomains : Bool := true
  deriving DecidableEq, Repr

def claimRunlists (id : DomainId) (name : String) : Task H (List SubDomain) := fun r =>
  match allocateAll id name (List.range (Hardware.runlistCount r.hardware)) [] r.hardware with
  | (.ok subs, hardware) => .ok subs { r with hardware }
  | (.error refusal, hardware) => .error refusal { r with hardware }

/-- Registers a new domain. Its id is used up only once its sub-domains exist. -/
def add (name : String) (timesliceNs preemptGraceNs : Nat) (room : Room := {}) :
    Task H DomainId := do
  if name.isEmpty ∨ Domain.nameLimit < name.utf8ByteSize then throw .invalidArgument
  if ((← get).names.lookup name).isSome then throw .duplicateName
  if !room.name then throw .outOfMemory
  let id := (← get).lastId + 1
  if !room.subDomains then throw .outOfMemory
  let subDomains ← claimRunlists id name
  let d : Domain := { id, name, timesliceNs, preemptGraceNs, refs := 1, subDomains }
  modify fun r =>
    { r with
      lastId := id
      domains := r.domains ++ [d]
      index := r.index ++ [id]
      names := r.names ++ [(name, id)] }
  return id

/-- Gives a reference back. The last one ends the domain and frees its sub-domains in order. -/
def drop (id : DomainId) (r : Registry H) : Registry H :=
  match r.domain? id with
  | none => r
  | some d =>
    if d.refs ≤ 1 then
      { r with
        hardware := releaseAll d.subDomains r.hardware
        domains := r.domains.filter (·.id != id) }
    else r.updateDomain id fun d => { d with refs := d.refs - 1 }

/-- Takes a domain out of the registry, which must wait until neither slot names it and nothing else
refers to it. -/
def remove (id : DomainId) (slots : DomainSlots) : Task H Unit := do
  let d ← requireDomain id
  if slots.references id then throw .busy
  if 1 < d.refs then throw .busy
  modify fun r =>
    drop id { r with index := r.index.erase id, names := r.names.filter (·.1 != d.name) }

/-- Takes every domain out of the registry and says how many there were. Those still referenced go
with their last reference. -/
def drain (r : Registry H) : Nat × Registry H :=
  (r.index.length, r.index.foldl (fun r id => drop id r) { r with index := [], names := [] })

end Registry

end AcceleratorScheduler
