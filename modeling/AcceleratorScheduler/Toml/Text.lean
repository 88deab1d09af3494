import AcceleratorScheduler.Hexadecimal
import AcceleratorScheduler.Toml.Reader

/-! The small parts of a settings text: blanks, line ends, comments, quoted text and keys. -/
namespace AcceleratorScheduler.Toml

open Reader

def isBlank (c : Char) : Bool := c == ' ' || c == '\t'

def isPrintable (c : Char) : Bool :=
  (0x20 ≤ c.toNat && c.toNat ≤ 0x7E) || 0x80 ≤ c.toNat

def isCommentChar (c : Char) : Bool := c == '\t' || isPrintable c

def isBasicChar (c : Char) : Bool := isCommentChar c && c != '"' && c != '\\'

def isLiteralChar (c : Char) : Bool := isCommentChar c && c != '\''

def isBareChar (c : Char) : Bool := c.isAlphanum || c == '-' || c == '_'

def isHexDigit (c : Char) : Bool :=
  c.isDigit || ('a' ≤ c && c ≤ 'f') || ('A' ≤ c && c ≤ 'F')

def numberOf (base : Nat) (digits : List Char) : Nat :=
  digits.foldl (fun n c => n * base + Hexadecimal.digitValue c) 0

def blanks : Reader Unit := do
  let _ ← run isBlank

def newline : Reader Unit := char '\n' <|> text ['\r', '\n']

def comment : Reader Unit := do
  char '#'
  let _ ← run isCommentChar

def endOfInput : Reader Unit := do
  if ← atEnd then return else failure

/-- Blanks, a comment if there is one, and the end of the line or of the text. -/
def lineEnd : Reader Unit := do
  blanks
  let _ ← optional comment
  newline <|> endOfInput

def gap : Reader Unit := do
  let _ ← many ((do let _ ← runSome isBlank) <|> newline <|> comment)

def codePoint (width : Nat) : Reader Char := do
  let n := numberOf 16 (← exactly width isHexDigit)
  if n.isValidChar then return Char.ofNat n else failure

def escaped : Reader Char := do
  match ← one fun _ => true with
  | 'b' => return '\x08'
  | 't' => return '\t'
  | 'n' => return '\n'
  | 'f' => return '\x0c'
  | 'r' => return '\r'
  | '"' => return '"'
  | '\\' => return '\\'
  | 'u' => codePoint 4
  | 'U' => codePoint 8
  | _ => failure

def escape : Reader Char := do
  char '\\'
  escaped

def basicText : Reader (List Char) := do
  char '"'
  let pieces ← many (runSome isBasicChar <|> (do return [← escape]))
  char '"'
  return pieces.flatten

def literalText : Reader (List Char) := do
  char '\''
  let cs ← run isLiteralChar
  char '\''
  return cs

/-- One or two quotes that do not begin the end of a text of several lines. -/
def innerQuotes (quote : Char) : Reader (List Char) := do
  let quotes ← runSome (· == quote)
  if quotes.length ≤ 2 then return quotes else failure

def closingQuotes (quote : Char) : Reader (List Char) := do
  let quotes ← runSome (· == quote)
  if 3 ≤ quotes.length ∧ quotes.length ≤ 5 then return quotes.drop 3 else failure

/-- A backslash at the end of a line: it joins the next text to this one. -/
def continuation : Reader (List Char) := do
  char '\\'
  blanks
  newline
  let _ ← many ((do let _ ← runSome isBlank) <|> newline)
  return []

/-- Pieces between triple quotes. A line end right after the opening quotes is dropped, and every
other one reads as a line feed. -/
def multiline (quote : Char) (piece : Reader (List Char)) : Reader (List Char) := do
  text [quote, quote, quote]
  let _ ← optional newline
  let pieces ← many (piece <|> (do newline; return ['\n']) <|> innerQuotes quote)
  return pieces.flatten ++ (← closingQuotes quote)

def multilineBasic : Reader (List Char) :=
  multiline '"' (runSome isBasicChar <|> continuation <|> (do return [← escape]))

def multilineLiteral : Reader (List Char) := multiline '\'' (runSome isLiteralChar)

/-- A quoted value. Three quotes in a row always open a text of several lines. -/
def quotedText : Reader String := do
  let cs ←
    if ← ahead ['"', '"', '"'] then multilineBasic
    else if ← ahead ['\'', '\'', '\''] then multilineLiteral
    else basicText <|> literalText
  return String.ofList cs

def keyPart : Reader String := do
  blanks
  let cs ← runSome isBareChar <|> basicText <|> literalText
  blanks
  return String.ofList cs

/-- Dotted keys have fewer parts than this, and values fewer levels. -/
def depthLimit : Nat := 80

/-- A key of one or more parts with dots between them. -/
def key : Reader (List String) := do
  let first ← keyPart
  let others ← many (do char '.'; keyPart)
  let path := first :: others
  if path.length < depthLimit then return path else failure

end AcceleratorScheduler.Toml
