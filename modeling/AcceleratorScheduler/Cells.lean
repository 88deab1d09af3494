/-! Cells numbered from zero without end, each blank until it is written. They stand in a binary
tree, of which only the branches written to are kept: the root is cell 0, below it the odd numbers
hang on one side and the even ones on the other, each side numbered anew. -/
namespace AcceleratorScheduler

inductive Cells {α : Type} (blank : α) where
  | untouched
  | node (first : α) (odd even : Cells blank)
  deriving Repr

namespace Cells

variable {α : Type} {blank : α}

def first : Cells blank → α
  | untouched => blank
  | node x _ _ => x

def odd : Cells blank → Cells blank
  | untouched => untouched
  | node _ odd _ => odd

def even : Cells blank → Cells blank
  | untouched => untouched
  | node _ _ even => even

def get : Cells blank → Nat → α
  | untouched, _ => blank
  | node x odd even, i =>
    if i = 0 then x
    else if i % 2 = 1 then odd.get (i / 2)
    else even.get (i / 2 - 1)

/-- Replaces a cell whose number is less than the fuel. -/
def setBelow : (fuel : Nat) → Cells blank → Nat → α → Cells blank
  | 0, cells, _, _ => cells
  | fuel + 1, cells, i, x =>
    if i = 0 then node x cells.odd cells.even
    else if i % 2 = 1 then node cells.first (setBelow fuel cells.odd (i / 2) x) cells.even
    else node cells.first cells.odd (setBelow fuel cells.even (i / 2 - 1) x)

def set (cells : Cells blank) (i : Nat) (x : α) : Cells blank := setBelow (i + 1) cells i x

def all (p : α → Bool) : Cells blank → Bool
  | untouched => p blank
  | node x odd even => p x && odd.all p && even.all p

@[simp] theorem get_untouched (i : Nat) : (untouched : Cells blank).get i = blank := by
  simp only [get]

theorem get_eq (cells : Cells blank) (i : Nat) :
    cells.get i = if i = 0 then cells.first
      else if i % 2 = 1 then cells.odd.get (i / 2) else cells.even.get (i / 2 - 1) := by
  cases cells with
  | untouched => simp [first, odd, even]
  | node x odd even => rfl

theorem get_setBelow (fuel : Nat) (cells : Cells blank) (i : Nat) (x : α) (j : Nat)
    (enough : i < fuel) :
    (setBelow fuel cells i x).get j = if j = i then x else cells.get j := by
  induction fuel generalizing cells i j with
  | zero => omega
  | succ fuel ih =>
    rw [setBelow, get_eq cells j]
    by_cases root : i = 0
    · subst root
      rw [if_pos rfl, get]
      split <;> rfl
    · rw [if_neg root]
      by_cases side : i % 2 = 1
      · rw [if_pos side, get, ih _ _ _ (by omega)]
        by_cases own : j = i
        · subst own
          rw [if_neg root, if_pos side, if_pos rfl, if_pos rfl]
        · rw [if_neg own]
          by_cases top : j = 0
          · rw [if_pos top, if_pos top]
          · by_cases same : j % 2 = 1
            · rw [if_neg top, if_pos same, if_neg (by omega), if_neg top, if_pos same]
            · rw [if_neg top, if_neg same, if_neg top, if_neg same]
      · rw [if_neg side, get, ih _ _ _ (by omega)]
        by_cases own : j = i
        · subst own
          rw [if_neg root, if_neg side, if_pos rfl, if_pos rfl]
        · rw [if_neg own]
          by_cases top : j = 0
          · rw [if_pos top, if_pos top]
          · by_cases same : j % 2 = 1
            · rw [if_neg top, if_pos same, if_neg top, if_pos same]
            · rw [if_neg top, if_neg same, if_neg (by omega), if_neg top, if_neg same]

/-- A write changes its own cell and no other. -/
theorem get_set (cells : Cells blank) (i : Nat) (x : α) (j : Nat) :
    (cells.set i x).get j = if j = i then x else cells.get j :=
  cells.get_setBelow (i + 1) i x j (by omega)

theorem all_iff (p : α → Bool) (cells : Cells blank) :
    cells.all p = true ↔ ∀ i, p (cells.get i) = true := by
  induction cells with
  | untouched => simp [all]
  | node x odd even inOdd inEven =>
    rw [all, Bool.and_eq_true, Bool.and_eq_true, inOdd, inEven]
    constructor
    · rintro ⟨⟨root, odds⟩, evens⟩ i
      rw [get]
      split
      · exact root
      · split
        · exact odds _
        · exact evens _
    · intro every
      refine ⟨⟨every 0, fun i => ?_⟩, fun i => ?_⟩
      · have it := every (2 * i + 1)
        rwa [get, if_neg (by omega), if_pos (by omega),
          (by omega : (2 * i + 1) / 2 = i)] at it
      · have it := every (2 * i + 2)
        rwa [get, if_neg (by omega), if_neg (by omega),
          (by omega : (2 * i + 2) / 2 - 1 = i)] at it

end Cells

end AcceleratorScheduler
