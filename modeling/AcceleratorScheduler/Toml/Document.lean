import AcceleratorScheduler.Toml.Value

/-! Whole texts: a list of statements, and the document that they build one after the other. -/
namespace AcceleratorScheduler.Toml

open Reader

inductive Statement where
  /-- A value under a key of the table begun last. -/
  | assign (path : List String) (document : Document)
  /-- A header: the statements after it fill this table. -/
  | table (path : List String)
  /-- A header in double brackets: the statements after it fill a new element. -/
  | element (path : List String)

def header : Reader Statement := do
  if ← ahead ['[', '['] then
    text ['[', '[']
    let path ← key
    text [']', ']']
    return .element path
  else
    char '['
    let path ← key
    char ']'
    return .table path

def line : Reader (Option Statement) := do
  blanks
  match ← next? with
  | some '#' | some '\n' | some '\r' =>
    lineEnd
    return none
  | some '[' =>
    let statement ← header
    lineEnd
    return some statement
  | some _ =>
    let (path, document) ← assignment value
    lineEnd
    return some (.assign path document)
  | none => failure

/-- All statements of a text. A byte order mark may stand before them. -/
def statements (input : List Char) : Option (List Statement) := do
  let input := if input.head? = some '\ufeff' then input.tail else input
  let (lines, rest) ← many line input
  if rest.all isBlank then return lines.filterMap id else none

structure Draft where
  root : Table := .blank
  current : Table := .blank
  path : List String := []
  /-- The current table is an element of an array of tables. -/
  isElement : Bool := false

namespace Draft

def finish (d : Draft) : Option Table :=
  match d.path.reverse with
  | [] => some d.current
  | key :: above => Table.alter .implied above.reverse (fun parent =>
      match d.isElement, parent.get? key with
      | true, none => some (parent.put key (.tables [d.current]))
      | true, some (.tables elements) => some (parent.put key (.tables (elements ++ [d.current])))
      | false, none => some (parent.put key (.table d.current))
      | _, _ => none) d.root

/-- Begins a table. One that headers below it have implied goes on with what it holds; any other
entry of that name is a repetition. -/
def begin (root : Table) (path : List String) : Option Draft :=
  match path.reverse with
  | [] => none
  | key :: above => do
    let earlier := (root.follow above.reverse).bind (·.get? key)
    let root ← Table.alter .implied above.reverse (fun parent => some (parent.erase key)) root
    match earlier with
    | none => return { root, path }
    | some (.table t) =>
      if t.origin = .implied then return { root, current := .mk .header t.entries, path } else none
    | some _ => none

def beginElement (root : Table) (path : List String) : Option Draft :=
  match path.reverse with
  | [] => none
  | key :: above => do
    let root ← Table.alter .implied above.reverse (fun parent =>
      match parent.get? key with
      | none => some (parent.put key (.tables []))
      | some (.tables _) => some parent
      | some _ => none) root
    return { root, path, isElement := true }

def step (d : Draft) : Statement → Option Draft
  | .assign path document => do
    return { d with current := ← d.current.addValue path document }
  | .table path => do begin (← d.finish) path
  | .element path => do beginElement (← d.finish) path

end Draft

def parse (input : String) : Option Document := do
  let draft ← (← statements input.toList).foldlM Draft.step {}
  return (← draft.finish).toDocument

end AcceleratorScheduler.Toml
