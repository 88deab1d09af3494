import AcceleratorScheduler.Decimal
import AcceleratorScheduler.Document
import AcceleratorScheduler.Toml.Text

/-! Numbers, dates and times. Integers have 64 bits; of the others only the kind is kept. -/
namespace AcceleratorScheduler.Toml

open Reader

/-- Digits, with single underscores between them. -/
def digits (accept : Char → Bool) : Reader (List Char) := do
  let first ← one accept
  let others ← many (one accept <|> (do char '_'; one accept))
  return first :: others

def sign : Reader (List Char) := do
  match ← next? with
  | some '+' => char '+'; return ['+']
  | some '-' => char '-'; return ['-']
  | _ => return []

def decimalDigits : Reader (List Char) := (do char '0'; return ['0']) <|> digits Char.isDigit

def inRange (n : Int) : Reader Document :=
  if Int64.minValue.toInt ≤ n ∧ n ≤ Int64.maxValue.toInt then return .integer n else failure

def based (mark : List Char) (base : Nat) (accept : Char → Bool) : Reader Document := do
  text mark
  inRange (numberOf base (← digits accept))

def decimal : Reader Document := do
  let s ← sign
  let n : Int := numberOf 10 (← decimalDigits)
  inRange (if s = ['-'] then -n else n)

def integer : Reader Document := do
  if ← ahead ['0', 'x'] then based ['0', 'x'] 16 isHexDigit
  else if ← ahead ['0', 'o'] then based ['0', 'o'] 8 fun c => '0' ≤ c && c ≤ '7'
  else if ← ahead ['0', 'b'] then based ['0', 'b'] 2 fun c => c == '0' || c == '1'
  else decimal

def places : Reader (List Char) := do
  char '.'
  digits Char.isDigit

def exponent : Reader Int := do
  let _ ← one fun c => c == 'e' || c == 'E'
  let s ← sign
  let n : Int := numberOf 10 (← digits Char.isDigit)
  return if s = ['-'] then -n else n

/-- A number with a fraction, an exponent or both. One above zero that is too large for a
floating-point number is refused; one below zero is taken for its infinity. -/
def finiteFraction : Reader Document := do
  let s ← sign
  let whole ← decimalDigits
  let shift ←
    (do
      let e ← exponent
      return ([], e)) <|>
    (do
      let cs ← places
      return (cs, (← optional exponent).getD 0))
  let d : Decimal :=
    { digits := numberOf 10 (whole ++ shift.1), exponent := shift.2 - shift.1.length }
  if s ≠ ['-'] ∧ d.overflows then failure
  return .fraction

def notFinite : Reader Document := do
  let _ ← sign
  text ['i', 'n', 'f'] <|> text ['n', 'a', 'n']
  return .fraction

def fraction : Reader Document := finiteFraction <|> notFinite

def pair (least most : Nat) : Reader Nat := do
  let n := numberOf 10 (← exactly 2 Char.isDigit)
  if least ≤ n ∧ n ≤ most then return n else failure

def daysIn (year month : Nat) : Nat :=
  if month = 2 then
    if (year % 4 = 0 ∧ year % 100 ≠ 0) ∨ year % 400 = 0 then 29 else 28
  else if month ∈ [4, 6, 9, 11] then 30 else 31

def date : Reader Unit := do
  let year := numberOf 10 (← exactly 4 Char.isDigit)
  char '-'
  let month ← pair 1 12
  char '-'
  let _ ← pair 1 (daysIn year month)

def timeOfDay : Reader Unit := do
  let _ ← pair 0 23
  char ':'
  let _ ← pair 0 59
  char ':'
  let _ ← pair 0 60
  let _ ← optional do
    char '.'
    runSome Char.isDigit

def offset : Reader Unit := do
  let mark ← one fun c => c ∈ ['Z', 'z', '+', '-']
  if mark = '+' ∨ mark = '-' then
    let _ ← pair 0 23
    char ':'
    let _ ← pair 0 59

def dateTime : Reader Unit := do
  date
  let _ ← optional do
    let _ ← one fun c => c == 'T' || c == 't' || c == ' '
    timeOfDay
    optional offset

def moment : Reader Document := do
  dateTime <|> timeOfDay
  return .moment

def numeric : Reader Document := moment <|> fraction <|> integer

end AcceleratorScheduler.Toml
