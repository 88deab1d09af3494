/-! Files by name: what reading a path gives, and a directory tree in memory that answers it. -/
namespace AcceleratorScheduler

inductive FileReading where
  | missing
  /-- There is something, but it cannot be read as a file. -/
  | unreadable
  | contents (bytes : ByteArray)

inductive FileTree where
  | file (bytes : ByteArray)
  | directory (entries : List (String × FileTree))

namespace FileTree

def empty : FileTree := .directory []

def nameLimit : Nat := 255

def pathLimit : Nat := 4095

/-- The names on a path; empty ones and single dots say nothing. -/
def components (path : String) : List String :=
  (path.splitOn "/").filter fun name => !name.isEmpty && name != "."

/-- Puts a tree where the names lead, with the directories on the way to it. A directory that is
there already keeps its entries when an empty one is put. -/
def place (node : FileTree) : (names : List String) → FileTree → FileTree
  | [], tree =>
    match node, tree with
    | .directory [], .directory entries => .directory entries
    | _, _ => node
  | name :: rest, tree =>
    let entries := match tree with
      | .directory entries => entries
      | .file _ => []
    let child := place node rest ((entries.lookup name).getD empty)
    .directory (entries.filter (·.1 != name) ++ [(name, child)])

def insert (tree : FileTree) (path : String) (node : FileTree) : FileTree :=
  place node (components path) tree

/-- Follows names from a directory whose enclosing ones are given, nearest first. What encloses the
outermost is unknown and taken to be empty. -/
def walk : (names : List String) → (above : List FileTree) → FileTree → FileReading
  | [], _, .file bytes => .contents bytes
  | [], _, .directory _ => .unreadable
  | _ :: _, _, .file _ => .unreadable
  | name :: rest, above, .directory entries =>
    if name = ".." then
      match above with
      | [] => walk rest [] empty
      | parent :: further => walk rest further parent
    else if nameLimit < name.utf8ByteSize then .unreadable
    else match entries.lookup name with
      | none => .missing
      | some child => walk rest (.directory entries :: above) child

/-- Reads a path. A path that ends in a slash, or in a dot after one, names a directory. -/
def read (tree : FileTree) (path : String) : FileReading :=
  if path.isEmpty then .missing
  else if path.any (· == '\x00') || pathLimit < path.utf8ByteSize then .unreadable
  else
    let start := if path.startsWith "/" then empty else tree
    match walk (components path) [] start with
    | .contents bytes =>
      if path.endsWith "/" || path.endsWith "/." then .unreadable else .contents bytes
    | reading => reading

end FileTree

end AcceleratorScheduler
