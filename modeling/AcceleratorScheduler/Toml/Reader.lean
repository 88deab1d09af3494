/-! Readers of text: each takes what it knows from the front, or knows nothing there. -/
namespace AcceleratorScheduler.Toml

abbrev Reader (α : Type) := StateT (List Char) Option α

namespace Reader

def one (accept : Char → Bool) : Reader Char := fun input =>
  match input with
  | c :: rest => if accept c then some (c, rest) else none
  | [] => none

def char (c : Char) : Reader Unit := do
  let _ ← one (· == c)

def text : List Char → Reader Unit
  | [] => return
  | c :: rest => do
    char c
    text rest

def run (accept : Char → Bool) : Reader (List Char) := fun input => some (input.span accept)

def runSome (accept : Char → Bool) : Reader (List Char) := do
  let cs ← run accept
  if cs.isEmpty then failure else return cs

def next? : Reader (Option Char) := fun input => some (input.head?, input)

def ahead (start : List Char) : Reader Bool := fun input => some (start.isPrefixOf input, input)

def atEnd : Reader Bool := fun input => some (input.isEmpty, input)

variable {α : Type}

def many (item : Reader α) : Reader (List α) := fun input =>
  match item input with
  | none => some ([], input)
  | some (x, rest) =>
    if rest.length < input.length then
      (many item rest).map fun (xs, rest) => (x :: xs, rest)
    else some ([], input)
termination_by input => input.length

def separated (item : Reader α) (mark : Reader Unit) : Reader (List α) :=
  (do
    let first ← item
    let others ← many (do mark; item)
    return first :: others) <|> pure []

def exactly (count : Nat) (accept : Char → Bool) : Reader (List Char) :=
  match count with
  | 0 => return []
  | count + 1 => do
    let c ← one accept
    return c :: (← exactly count accept)

end Reader

end AcceleratorScheduler.Toml
