import Mathlib.Algebra.Order.Round
import Mathlib.Data.Rat.Floor
import Mathlib.Tactic.Linarith
import Mathlib.Tactic.Positivity
import Mathlib.Tactic.FieldSimp

/-! Columns of type DECIMAL(precision, scale): a value is rounded to its scale, half
away from zero, and refused when more digits are left than the precision allows. -/
namespace ESign.DecimalColumn

variable {α : Type} [Field α] [LinearOrder α] [IsStrictOrderedRing α] [FloorRing α]

def roundHalfAway (x : α) : ℤ := if 0 ≤ x then ⌊x + 1 / 2⌋ else -⌊-x + 1 / 2⌋

/-- The stored number, counted in units of the last place. -/
def units (scale : Nat) (x : α) : ℤ := roundHalfAway (x * 10 ^ scale)

def store (precision scale : Nat) (x : α) : Option α :=
  if |units scale x| < 10 ^ precision then some (units scale x / 10 ^ scale) else none

theorem roundedUp {x : α} (nonneg : 0 ≤ x) :
    roundHalfAway x = ⌊x⌋ + if 1 / 2 ≤ Int.fract x then 1 else 0 := by
  have split := Int.floor_add_fract x
  have small := Int.fract_lt_one x
  have big := Int.fract_nonneg x
  rw [roundHalfAway,if_pos nonneg,Int.floor_eq_iff]
  split_ifs with half
  · push_cast
    constructor <;> linarith
  · push_cast
    constructor <;> linarith

theorem roundedNonneg {x : α} (nonneg : 0 ≤ x) : 0 ≤ roundHalfAway x := by
  have floor := Int.floor_nonneg.mpr nonneg
  rw [roundedUp nonneg]
  split_ifs <;> omega

theorem roundedPos {x : α} (nonneg : 0 ≤ x) : 0 < roundHalfAway x ↔ 1 / 2 ≤ x := by
  rw [roundHalfAway,if_pos nonneg,Int.floor_pos]
  constructor <;> intro h <;> linarith

/-- Two parts that hardly exceed a whole number together exceed it once rounded exactly
when both of them are rounded up and nothing was missing to the whole number. -/
theorem roundedSum {a b δ : α} {n : ℤ} (left : 0 ≤ a) (right : 0 ≤ b) (sum : a + b ≤ n + δ) (slack : δ < 1 / 2) :
    roundHalfAway a + roundHalfAway b ≤ n ↔ ¬ (n ≤ a + b ∧ 1 / 2 ≤ Int.fract a ∧ 1 / 2 ≤ Int.fract b) := by
  have splitA := Int.floor_add_fract a
  have splitB := Int.floor_add_fract b
  have smallA := Int.fract_lt_one a
  have smallB := Int.fract_lt_one b
  have bigA := Int.fract_nonneg a
  have bigB := Int.fract_nonneg b
  rw [roundedUp left,roundedUp right]
  by_cases upA : 1 / 2 ≤ Int.fract a
  · by_cases upB : 1 / 2 ≤ Int.fract b
    · rw [if_pos upA,if_pos upB]
      constructor
      · rintro fits ⟨whole,-,-⟩
        have fits' : (⌊a⌋ : α) + ⌊b⌋ + 2 ≤ n := by exact_mod_cast (by omega : ⌊a⌋ + ⌊b⌋ + 2 ≤ n)
        linarith
      · intro missing
        have below : a + b < n := lt_of_not_ge fun whole => missing ⟨whole,upA,upB⟩
        have floors : (⌊a⌋ : α) + ⌊b⌋ < n - 1 := by linarith
        have floors' : ⌊a⌋ + ⌊b⌋ < n - 1 := by exact_mod_cast floors
        omega
    · rw [if_pos upA,if_neg upB]
      have floors : (⌊a⌋ : α) + ⌊b⌋ < n := by linarith
      have floors' : ⌊a⌋ + ⌊b⌋ < n := by exact_mod_cast floors
      exact iff_of_true (by omega) fun ⟨_,_,up⟩ => upB up
  · refine iff_of_true ?_ fun ⟨_,up,_⟩ => upA up
    rw [if_neg upA]
    split_ifs with upB
    · have floors : (⌊a⌋ : α) + ⌊b⌋ < n := by linarith
      have floors' : ⌊a⌋ + ⌊b⌋ < n := by exact_mod_cast floors
      omega
    · have floors : (⌊a⌋ : α) + ⌊b⌋ < n + 1 := by linarith
      have floors' : ⌊a⌋ + ⌊b⌋ < n + 1 := by exact_mod_cast floors
      omega

variable {precision scale : Nat} {x y : α}

theorem stored (nonneg : 0 ≤ x) (fits : x * 10 ^ scale + 1 / 2 < 10 ^ precision) :
    store precision scale x = some (units scale x / 10 ^ scale : α) := by
  have scaled : 0 ≤ x * 10 ^ scale := by positivity
  have low := roundedNonneg scaled
  refine if_pos (abs_lt.mpr ⟨?_,?_⟩)
  · exact lt_of_lt_of_le (neg_lt_zero.mpr (by positivity)) low
  · rw [units,roundHalfAway,if_pos scaled,Int.floor_lt]
    exact_mod_cast fits

end ESign.DecimalColumn
