/-! Bytes and numbers in base sixteen. -/
namespace AcceleratorScheduler.Hexadecimal

def ofNat (n : Nat) : String := "0x" ++ String.ofList (Nat.toDigits 16 n)

def digitValue (c : Char) : Nat :=
  if c.isDigit then c.toNat - '0'.toNat
  else if 'a' ≤ c ∧ c ≤ 'f' then c.toNat - 'a'.toNat + 10
  else if 'A' ≤ c ∧ c ≤ 'F' then c.toNat - 'A'.toNat + 10
  else 0

def ofBytes (bytes : List UInt8) : String :=
  String.ofList <| bytes.flatMap fun b =>
    [Nat.digitChar (b.toNat / 16), Nat.digitChar (b.toNat % 16)]

def toBytes : List Char → List UInt8
  | a :: b :: rest => .ofNat (digitValue a * 16 + digitValue b) :: toBytes rest
  | _ => []

end AcceleratorScheduler.Hexadecimal
