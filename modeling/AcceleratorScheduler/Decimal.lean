/-! Decimal numbers, and which of them are too large for a floating-point number of 64 bits. Main
statements: the test for that compares the number with the limit, whatever the size of its
exponent. -/
namespace AcceleratorScheduler

/-- The digits, read as a whole number, times ten to the power of the exponent. -/
structure Decimal where
  digits : Nat
  exponent : Int
  deriving DecidableEq, Repr

namespace Decimal

/-- Half way from the largest floating-point number to the next power of two. A number from here on
is rounded to infinity, since a tie goes to the power of two. -/
def limit : Nat := Nat.pow 2 1024 - Nat.pow 2 970

theorem limit_pos : 0 < limit := by decide +kernel

theorem limit_le_of_lt {n : Nat} (large : 308 < n) : limit ≤ Nat.pow 10 n := by
  have base : limit ≤ 10 ^ 155 * 10 ^ 154 := by decide +kernel
  obtain ⟨k, rfl⟩ : ∃ k, n = 155 + 154 + k := ⟨n - 309, by omega⟩
  have split (a b c : Nat) : Nat.pow 10 (a + b + c) = 10 ^ a * 10 ^ b * 10 ^ c := by
    rw [Nat.pow_eq, Nat.pow_add, Nat.pow_add]
  rw [split]
  exact Nat.le_trans base (Nat.le_mul_of_pos_right _ (Nat.pow_pos (by decide)))

/-- Whether the number is rounded to infinity. Exponents that decide this alone raise nothing to
their power. -/
def overflows (d : Decimal) : Bool :=
  match d.exponent with
  | .ofNat n =>
    if d.digits = 0 then false
    else if 308 < n then true
    else limit ≤ d.digits * Nat.pow 10 n
  | .negSucc n =>
    if d.digits.log2 ≤ n then false
    else limit * Nat.pow 10 (n + 1) ≤ d.digits

theorem overflows_ofNat (digits n : Nat) :
    overflows ⟨digits, .ofNat n⟩ = decide (limit ≤ digits * Nat.pow 10 n) := by
  simp only [overflows]
  by_cases zero : digits = 0
  · have small : ¬limit ≤ digits * Nat.pow 10 n := by
      rw [zero, Nat.zero_mul]
      exact Nat.not_le.mpr limit_pos
    rw [if_pos zero, decide_eq_false small]
  · rw [if_neg zero]
    by_cases large : 308 < n
    · have power : limit ≤ Nat.pow 10 n := limit_le_of_lt large
      have reached : limit ≤ digits * Nat.pow 10 n :=
        Nat.le_trans power (Nat.le_mul_of_pos_left _ (Nat.pos_of_ne_zero zero))
      rw [if_pos large, decide_eq_true reached]
    · rw [if_neg large]

theorem overflows_negSucc (digits n : Nat) :
    overflows ⟨digits, .negSucc n⟩ = decide (limit * Nat.pow 10 (n + 1) ≤ digits) := by
  simp only [overflows]
  by_cases few : digits.log2 ≤ n
  · have small : digits < limit * Nat.pow 10 (n + 1) :=
      calc digits < 2 ^ (digits.log2 + 1) := Nat.lt_log2_self
        _ ≤ 2 ^ (n + 1) := Nat.pow_le_pow_right (by decide) (by omega)
        _ ≤ 10 ^ (n + 1) := Nat.pow_le_pow_left (by decide) _
        _ ≤ limit * 10 ^ (n + 1) := Nat.le_mul_of_pos_left _ limit_pos
    rw [if_pos few, decide_eq_false (Nat.not_le.mpr small)]
  · rw [if_neg few]

end Decimal

end AcceleratorScheduler
