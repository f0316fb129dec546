import Mathlib.Data.Rat.Floor
import Mathlib.Tactic.Linarith

/-! JavaScript numbers: a finite one by its value, and the three that have none. Where an
operation has to round, how it rounds is left open; the two zeros are one. -/
namespace ESign

inductive Double
  | nan
  | negInfinity
  | finite (value : Rat)
  | infinity
  deriving DecidableEq, Repr

namespace Double

def isFinite : Double → Bool
  | finite _ => true
  | _ => false

def lt : Double → Double → Bool
  | nan,_ => false
  | _,nan => false
  | finite a,finite b => a < b
  | negInfinity,b => b ≠ negInfinity
  | finite _,b => b = infinity
  | infinity,_ => false

def le : Double → Double → Bool
  | nan,_ => false
  | _,nan => false
  | finite a,finite b => a ≤ b
  | negInfinity,_ => true
  | _,b => b = infinity

def max (a b : Double) : Double :=
  if a = nan ∨ b = nan then nan else if a.lt b then b else a

def min (a b : Double) : Double :=
  if a = nan ∨ b = nan then nan else if b.lt a then b else a

/-- `Math.round`, half up. -/
def round : Double → Double
  | finite a => finite ⌊a + 1 / 2⌋
  | a => a

/-- Rounding to a number that is there, or to an infinity. -/
structure Arithmetic where
  round : Rat → Double
  number : ∀ value, round value ≠ nan
  zero : round 0 = finite 0

def Arithmetic.exact : Arithmetic := ⟨finite,fun _ same => (nomatch same),rfl⟩

variable (arithmetic : Arithmetic)

def sub : Double → Double → Double
  | finite a,finite b => arithmetic.round (a-b)
  | nan,_ => nan
  | _,nan => nan
  | infinity,infinity => nan
  | negInfinity,negInfinity => nan
  | infinity,_ => infinity
  | negInfinity,_ => negInfinity
  | finite _,infinity => negInfinity
  | finite _,negInfinity => infinity

def div : Double → Double → Double
  | finite a,finite b =>
      if b ≠ 0 then arithmetic.round (a/b)
      else if a = 0 then nan
      else if 0 < a then infinity else negInfinity
  | nan,_ => nan
  | _,nan => nan
  | finite _,_ => finite 0
  | infinity,finite b => if 0 ≤ b then infinity else negInfinity
  | negInfinity,finite b => if 0 ≤ b then negInfinity else infinity
  | _,_ => nan

/-- Between two bounds, and so a number with a value. -/
def Within (low high : Rat) (a : Double) : Prop := ∃ value, a = finite value ∧ low ≤ value ∧ value ≤ high

theorem subNumber (a b : Rat) : sub arithmetic (finite a) (finite b) ≠ nan := arithmetic.number _

theorem maxZero {a : Double} {high : Rat} (number : a ≠ nan) (nonneg : 0 ≤ high)
    (notAbove : lt (finite high) (max (finite 0) a) = false) : Within 0 high (max (finite 0) a) := by
  cases a with
  | nan => exact absurd rfl number
  | negInfinity => exact ⟨0,rfl,le_refl 0,nonneg⟩
  | infinity => exact absurd notAbove (by simp [max,lt])
  | finite value =>
    by_cases positive : 0 < value
    · refine ⟨value,by simp [max,lt,positive],positive.le,?_⟩
      simpa [max,lt,positive] using notAbove
    · exact ⟨0,by simp [max,lt,positive],le_refl 0,nonneg⟩

/-! Natural numbers. -/

/-- No double from here on, and none that is rounded up to here. -/
def beyond : Nat := 2^1024

/-- The double nearest to a natural number, ties to the even significand; none when it is `Infinity`. -/
def nearest (n : Nat) : Option Nat :=
  let unit := 2^(n.log2+1-53)
  let low := n/unit
  let down := n%unit*2 < unit || n%unit*2 = unit && low%2 = 0
  let value := (if down then low else low+1)*unit
  if value < beyond then some value else none

/- Integers below `2^53` are doubles. -/
theorem nearestSmall {n : Nat} (small : n < 2^53) : nearest n = some n := by
  have short : n.log2+1-53 = 0 := by
    by_cases zero : n = 0
    · subst zero; decide
    · have less : n.log2 < 53 := (Nat.pow_lt_pow_iff_right (by decide)).mp ((Nat.log2_self_le zero).trans_lt small)
      omega
  have limit : n < beyond := by
    rw [beyond]
    exact small.trans (pow_lt_pow_right₀ (by decide) (by decide))
  simp only [nearest,short,Nat.pow_zero,Nat.mod_one,Nat.div_one,Nat.mul_one,Nat.zero_mul,Nat.zero_lt_one,decide_true,
    Bool.true_or,if_true,if_pos limit]

/-- A significand of 53 bits, and what is behind it. -/
structure Significand (n e low rest : Nat) : Prop where
  whole : n = low*2^(e+1) + rest
  part : rest < 2^(e+1)
  long : 2^52 ≤ low
  short : low < 2^53

def rounded (e low rest : Nat) : Nat := (if rest < 2^e || rest = 2^e && low%2 = 0 then low else low+1)*2^(e+1)

theorem nearestLarge {n : Nat} (large : 2^53 ≤ n) : ∃ e low rest, Significand n e low rest ∧
    nearest n = if rounded e low rest < beyond then some (rounded e low rest) else none := by
  have positive : n ≠ 0 := by
    rintro rfl
    exact absurd large (by decide)
  have bits : 53 ≤ n.log2 := (Nat.le_log2 positive).mpr large
  obtain ⟨e,exponent⟩ := Nat.exists_eq_add_of_le bits
  have unit : n.log2+1-53 = e+1 := by omega
  have low := Nat.log2_self_le positive
  have high : n < 2^(n.log2+1) := Nat.lt_log2_self
  refine ⟨e,n/2^(e+1),n%2^(e+1),⟨?_,Nat.mod_lt _ (Nat.two_pow_pos _),?_,?_⟩,?_⟩
  · rw [Nat.mul_comm]
    exact (Nat.div_add_mod _ _).symm
  · rw [Nat.le_div_iff_mul_le (Nat.two_pow_pos _),← Nat.pow_add]
    exact (show 52+(e+1) = n.log2 by omega) ▸ low
  · rw [Nat.div_lt_iff_lt_mul (Nat.two_pow_pos _),← Nat.pow_add]
    exact (show 53+(e+1) = n.log2+1 by omega) ▸ high
  · have half : ∀ rest, rest*2 < 2^(e+1) ↔ rest < 2^e := fun rest => by rw [Nat.pow_succ]; omega
    have tie : ∀ rest, rest*2 = 2^(e+1) ↔ rest = 2^e := fun rest => by rw [Nat.pow_succ]; omega
    simp only [nearest,rounded,unit,half,tie]
    rfl

theorem roundedLarge {e low rest : Nat} (long : 2^52 ≤ low) : 2^52*2^(e+1) ≤ rounded e low rest := by
  refine Nat.mul_le_mul_right _ ?_
  split <;> omega

theorem nearestFrom {n value : Nat} (large : 2^31 ≤ n) (near : nearest n = some value) : 2^31 ≤ value := by
  by_cases small : n < 2^53
  · rw [nearestSmall small] at near
    cases near
    exact large
  · obtain ⟨e,low,rest,significand,read⟩ := nearestLarge (Nat.le_of_not_lt small)
    rw [read] at near
    split at near
    · cases near
      have above : 2^52*2^(e+1) ≤ rounded e low rest := roundedLarge significand.long
      have unit : 1 ≤ 2^(e+1) := Nat.one_le_two_pow
      omega
    · cases near

/-- Half the distance of the largest doubles. -/
def lastHalf : Nat := 2^970

theorem beyondHalves : beyond = 2^54*lastHalf := by
  rw [beyond,lastHalf,← pow_add]

theorem halfUnit {e : Nat} : (e < 970 → 2^(e+1) ≤ lastHalf) ∧ (e = 970 → 2^e = lastHalf) ∧
    (970 < e → 4*lastHalf ≤ 2^(e+1)) := by
  rw [lastHalf]
  refine ⟨fun less => pow_le_pow_right₀ (by decide) less,fun same => by rw [same],fun more => ?_⟩
  · have larger : 2^(2+970) ≤ 2^(e+1) := pow_le_pow_right₀ (by decide) (by omega)
    rw [pow_add,show (2 : Nat)^2 = 4 from rfl] at larger
    exact larger

theorem lastHalfLarge : 2^53 ≤ lastHalf := by
  rw [lastHalf]
  exact pow_le_pow_right₀ (by decide) (by decide)

theorem nearestNone {n : Nat} : nearest n = none ↔ beyond - lastHalf ≤ n := by
  have far := lastHalfLarge
  by_cases small : n < 2^53
  · rw [nearestSmall small,beyondHalves]
    simp only [reduceCtorEq,false_iff]
    omega
  · obtain ⟨e,low,rest,significand,read⟩ := nearestLarge (Nat.le_of_not_lt small)
    obtain ⟨whole,part,long,short⟩ := significand
    have none_ : nearest n = none ↔ beyond ≤ rounded e low rest := by
      rw [read]
      split <;> simp <;> omega
    rw [none_,whole,beyondHalves]
    rcases Nat.lt_trichotomy e 970 with less | same | more
    · have unit := halfUnit.1 less
      have value : rounded e low rest ≤ 2^53*lastHalf := Nat.mul_le_mul (by split <;> omega) unit
      have front : low*2^(e+1) ≤ (2^53-1)*lastHalf := Nat.mul_le_mul (by omega) unit
      omega
    · have half := halfUnit.2.1 same
      have unit : 2^(e+1) = 2*lastHalf := by rw [pow_succ,half,mul_comm]
      rw [unit] at part ⊢
      rw [rounded,unit,half]
      by_cases top : low = 2^53-1
      · subst top
        split <;> rename_i down <;> simp at down <;> omega
      · have front : low*(2*lastHalf) ≤ (2^53-2)*(2*lastHalf) := Nat.mul_le_mul_right _ (by omega)
        have value : (if rest < lastHalf || rest = lastHalf && low%2 = 0 then low else low+1)*(2*lastHalf) ≤
            (2^53-1)*(2*lastHalf) := Nat.mul_le_mul_right _ (by split <;> omega)
        omega
    · have unit := halfUnit.2.2 more
      have value : 2^52*(4*lastHalf) ≤ rounded e low rest := (Nat.mul_le_mul_left _ unit).trans (roundedLarge long)
      have front : 2^52*(4*lastHalf) ≤ low*2^(e+1) := Nat.mul_le_mul long unit
      omega

end Double
end ESign
