import AcceleratorScheduler.Toml.Number
import AcceleratorScheduler.Toml.Table

/-! Values: text, numbers, truth values, arrays over any number of lines, and tables in braces on
one line. -/
namespace AcceleratorScheduler.Toml

open Reader

def assignment (value : Reader Document) : Reader (List String × Document) := do
  let path ← key
  char '='
  blanks
  let document ← value
  blanks
  return (path, document)

/-- A comma may follow the last item. -/
def array (value : Reader Document) : Reader Document := do
  char '['
  let items ← separated (do gap; let item ← value; gap; return item) (char ',')
  if !items.isEmpty then
    let _ ← optional (char ',')
  gap
  char ']'
  return .list items

/-- No comma may follow the last entry, and dotted keys build tables inside. -/
def inlineTable (value : Reader Document) : Reader Document := do
  char '\x7b'
  let pairs ← separated (assignment value) (char ',')
  blanks
  char '\x7d'
  match pairs.foldlM (fun t (path, document) => t.addValue path document) Table.blank with
  | some t => return t.toDocument
  | none => failure

def scalar : Reader Document := do
  match ← next? with
  | some '"' | some '\'' => return .text (← quotedText)
  | some 't' => text ['t', 'r', 'u', 'e']; return .boolean true
  | some 'f' => text ['f', 'a', 'l', 's', 'e']; return .boolean false
  | _ => numeric

/-- A value in which arrays and tables in braces are nested no deeper than the fuel says. -/
def valueWithin : (fuel : Nat) → Reader Document
  | 0 => scalar
  | fuel + 1 => do
    match ← next? with
    | some '[' => array (valueWithin fuel)
    | some '\x7b' => inlineTable (valueWithin fuel)
    | _ => scalar

def value : Reader Document := valueWithin (depthLimit - 1)

end AcceleratorScheduler.Toml
