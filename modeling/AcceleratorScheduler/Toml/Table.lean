import AcceleratorScheduler.Document

/-! Tables under construction. How a table came about decides what may still be added to it. -/
namespace AcceleratorScheduler.Toml

inductive Origin where
  /-- It has a header of its own, or is the whole text. -/
  | header
  /-- A header below it implies it. -/
  | implied
  /-- A dotted key implies it. -/
  | dotted
  deriving DecidableEq, Repr

mutual

inductive Node where
  | value (document : Document)
  | table (table : Table)
  /-- One table for each header in double brackets. -/
  | tables (elements : List Table)

inductive Table where
  | mk (origin : Origin) (entries : List (String × Node))

end

namespace Table

def blank : Table := .mk .header []

def origin : Table → Origin
  | .mk origin _ => origin

def entries : Table → List (String × Node)
  | .mk _ entries => entries

def get? (t : Table) (key : String) : Option Node := t.entries.lookup key

/-- Puts an entry in the place of the one with its key, or at the end. -/
def put (t : Table) (key : String) (node : Node) : Table :=
  if (t.get? key).isSome then
    .mk t.origin (t.entries.map fun (k, n) => if k = key then (k, node) else (k, n))
  else .mk t.origin (t.entries ++ [(key, node)])

def erase (t : Table) (key : String) : Table := .mk t.origin (t.entries.filter (·.1 != key))

/-- Changes the table at the end of a path. Tables missing on the way come about as the origin says;
of an array of tables the last is entered; a dotted key enters no table that has a header. -/
def alter (missing : Origin) : (path : List String) → (Table → Option Table) → Table → Option Table
  | [], change, t => change t
  | key :: rest, change, t =>
    match t.get? key with
    | none => (alter missing rest change (.mk missing [])).map fun child => t.put key (.table child)
    | some (.value _) => none
    | some (.tables elements) =>
      match elements.getLast? with
      | none => none
      | some last => (alter missing rest change last).map fun child =>
          t.put key (.tables (elements.dropLast ++ [child]))
    | some (.table child) =>
      if missing = .dotted ∧ child.origin = .header then none
      else (alter missing rest change child).map fun child => t.put key (.table child)

def follow : (path : List String) → Table → Option Table
  | [], t => some t
  | key :: rest, t =>
    match t.get? key with
    | some (.table child) => follow rest child
    | some (.tables elements) => elements.getLast?.bind (follow rest)
    | _ => none

/-- Adds a value under a dotted key. The key must be new, and a table that a header implies takes no
value from a dotted key. -/
def addValue (path : List String) (document : Document) (t : Table) : Option Table :=
  match path.reverse with
  | [] => none
  | key :: above => alter .dotted above.reverse (fun parent =>
      if !above.isEmpty ∧ parent.origin ≠ .dotted then none
      else if (parent.get? key).isSome then none
      else some (parent.put key (.value document))) t

mutual

def toDocument : Table → Document
  | .mk _ entries => .table (entriesToDocument entries)

def entriesToDocument : List (String × Node) → List (String × Document)
  | [] => []
  | (key, node) :: rest => (key, nodeToDocument node) :: entriesToDocument rest

def nodeToDocument : Node → Document
  | .value document => document
  | .table t => toDocument t
  | .tables elements => .list (tablesToDocument elements)

def tablesToDocument : List Table → List Document
  | [] => []
  | t :: rest => toDocument t :: tablesToDocument rest

end

end Table

end AcceleratorScheduler.Toml
