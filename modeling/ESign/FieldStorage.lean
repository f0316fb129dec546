import ESign.DecimalColumn
import ESign.Lifecycle

/-! The geometry columns of `signature_fields`: what DECIMAL(8,7) and the table's CHECK
make of a box that the domain's geometry check has accepted. -/
namespace ESign
open DecimalColumn

/-- The row a box is written as; `none` is a numeric overflow. -/
def storedBox (box : FieldBox) : Option FieldBox := do
  let x ← store 8 7 box.x
  let y ← store 8 7 box.y
  let width ← store 8 7 box.width
  let height ← store 8 7 box.height
  some {box with x, y, width, height}

/-- The constraint `signature_fields_normalized_box`. -/
def normalizedBox (box : FieldBox) : Bool :=
  0 ≤ box.x ∧ box.x ≤ 1 ∧ 0 ≤ box.y ∧ box.y ≤ 1 ∧ 0 < box.width ∧ box.width ≤ 1 ∧
    0 < box.height ∧ box.height ≤ 1 ∧ box.x + box.width ≤ 1 ∧ box.y + box.height ≤ 1

/-- What the geometry check accepts along one axis. -/
structure AxisOnPage (origin extent : Rat) : Prop where
  start : 0 ≤ origin
  positive : 0 < extent
  page : origin + extent ≤ 1 + epsilon

structure AxisNormalized (origin extent : Rat) : Prop where
  start : 0 ≤ origin
  inside : origin ≤ 1
  positive : 0 < extent
  short : extent ≤ 1
  sum : origin + extent ≤ 1

/-- The extent keeps a digit, and origin and extent are not both rounded up where no
room is left. -/
structure AxisSurvives (origin extent : Rat) : Prop where
  visible : 5 / 10 ^ 8 ≤ extent
  apart : ¬ (1 ≤ origin + extent ∧ 1 / 2 ≤ Int.fract (origin * 10 ^ 7) ∧ 1 / 2 ≤ Int.fract (extent * 10 ^ 7))

structure FieldBox.Survives (box : FieldBox) : Prop where
  horizontal : AxisSurvives box.x box.width
  vertical : AxisSurvives box.y box.height

theorem onPageIff {box : FieldBox} {pageCount : Nat} :
    assertFieldOnPage box pageCount = .ok () ↔
      (1 ≤ box.pageNumber ∧ box.pageNumber ≤ pageCount) ∧ AxisOnPage box.x box.width ∧
        AxisOnPage box.y box.height := by
  simp only [assertFieldOnPage,thenOk,checkOk,decide_eq_true_eq]
  constructor
  · rintro ⟨page,⟨width,height⟩,⟨x,y⟩,right,top⟩
    exact ⟨page,⟨x,width,right⟩,⟨y,height,top⟩⟩
  · rintro ⟨page,⟨x,width,right⟩,⟨y,height,top⟩⟩
    exact ⟨page,⟨width,height⟩,⟨x,y⟩,right,top⟩

theorem normalizedIff {box : FieldBox} :
    normalizedBox box = true ↔ AxisNormalized box.x box.width ∧ AxisNormalized box.y box.height := by
  rw [normalizedBox,decide_eq_true_eq]
  constructor
  · rintro ⟨x,x1,y,y1,w,w1,h,h1,right,top⟩
    exact ⟨⟨x,x1,w,w1,right⟩,⟨y,y1,h,h1,top⟩⟩
  · rintro ⟨⟨x,x1,w,w1,right⟩,⟨y,y1,h,h1,top⟩⟩
    exact ⟨x,x1,y,y1,w,w1,h,h1,right,top⟩

theorem AxisNormalized.onPage {origin extent} (ok : AxisNormalized origin extent) : AxisOnPage origin extent :=
  ⟨ok.start,ok.positive,ok.sum.trans (by norm_num [epsilon])⟩

def rounded (x : Rat) : Rat := (units 7 x : Rat) / 10 ^ 7

namespace AxisOnPage

variable {origin extent : Rat} (ok : AxisOnPage origin extent)
include ok

theorem originStored : store 8 7 origin = some (rounded origin) := by
  have page := ok.page
  have extent := ok.positive
  refine stored ok.start ?_
  norm_num [epsilon] at page ⊢
  linarith

theorem extentStored : store 8 7 extent = some (rounded extent) := by
  have page := ok.page
  have origin := ok.start
  refine stored ok.positive.le ?_
  norm_num [epsilon] at page ⊢
  linarith

theorem unitsSum : units 7 origin + units 7 extent ≤ 10 ^ 7 ↔
    ¬ (1 ≤ origin + extent ∧ 1 / 2 ≤ Int.fract (origin * 10 ^ 7) ∧ 1 / 2 ≤ Int.fract (extent * 10 ^ 7)) := by
  have page := ok.page
  have left : 0 ≤ origin * 10 ^ 7 := mul_nonneg ok.start (by norm_num)
  have right : 0 ≤ extent * 10 ^ 7 := mul_nonneg ok.positive.le (by norm_num)
  -- the tolerance of the geometry check is a hundredth of a unit
  have sum : origin * 10 ^ 7 + extent * 10 ^ 7 ≤ ((10 ^ 7 : ℤ) : Rat) + 1 / 100 := by
    norm_num [epsilon] at page ⊢
    linarith
  have whole : ((10 ^ 7 : ℤ) : Rat) ≤ origin * 10 ^ 7 + extent * 10 ^ 7 ↔ 1 ≤ origin + extent := by
    push_cast
    constructor <;> intro h <;> linarith
  rw [← whole]
  exact roundedSum left right sum (by norm_num)

theorem roundedIff : AxisNormalized (rounded origin) (rounded extent) ↔ AxisSurvives origin extent := by
  have low : 0 ≤ units 7 origin := roundedNonneg (mul_nonneg ok.start (by norm_num))
  have positive : 0 < units 7 extent ↔ 5 / 10 ^ 8 ≤ extent := by
    rw [units,roundedPos (mul_nonneg ok.positive.le (by norm_num))]
    constructor <;> intro h <;> linarith
  have sum : rounded origin + rounded extent ≤ 1 ↔ units 7 origin + units 7 extent ≤ 10 ^ 7 := by
    rw [rounded,rounded,← add_div,div_le_one (by norm_num)]
    exact_mod_cast Iff.rfl
  have nonneg : 0 ≤ rounded origin := div_nonneg (by exact_mod_cast low) (by norm_num)
  have keeps : 0 < rounded extent ↔ 0 < units 7 extent := by
    rw [rounded,div_pos_iff_of_pos_right (by norm_num)]
    exact_mod_cast Iff.rfl
  constructor
  · intro kept
    exact ⟨positive.mp (keeps.mp kept.positive),ok.unitsSum.mp (sum.mp kept.sum)⟩
  · intro survives
    have extent := keeps.mpr (positive.mpr survives.visible)
    have fits := sum.mpr (ok.unitsSum.mpr survives.apart)
    exact ⟨nonneg,by linarith,extent,by linarith,fits⟩

end AxisOnPage

def FieldBox.rounded (box : FieldBox) : FieldBox :=
  {box with x := ESign.rounded box.x, y := ESign.rounded box.y, width := ESign.rounded box.width,
            height := ESign.rounded box.height}

theorem storedRounded {box : FieldBox} {pageCount} (ok : assertFieldOnPage box pageCount = .ok ()) :
    storedBox box = some box.rounded := by
  obtain ⟨-,horizontal,vertical⟩ := onPageIff.mp ok
  simp only [storedBox,horizontal.originStored,vertical.originStored,horizontal.extentStored,
    vertical.extentStored,Option.bind_eq_bind,Option.bind_some,FieldBox.rounded]

theorem roundedNormalized {box : FieldBox} {pageCount} (ok : assertFieldOnPage box pageCount = .ok ()) :
    normalizedBox box.rounded = true ↔ box.Survives := by
  obtain ⟨-,horizontal,vertical⟩ := onPageIff.mp ok
  rw [normalizedIff]
  constructor
  · rintro ⟨across,up⟩
    exact ⟨horizontal.roundedIff.mp across,vertical.roundedIff.mp up⟩
  · intro survives
    exact ⟨horizontal.roundedIff.mpr survives.horizontal,vertical.roundedIff.mpr survives.vertical⟩

/-- A written box is in range, passes the CHECK and can be flattened. -/
def Storable (box : FieldBox) (pageCount : Nat) : Prop :=
  ∃ row, storedBox box = some row ∧ normalizedBox row = true ∧ assertFieldOnPage row pageCount = .ok ()

theorem storableIff (box : FieldBox) (pageCount : Nat) (accepted : assertFieldOnPage box pageCount = .ok ()) :
    Storable box pageCount ↔ box.Survives := by
  obtain ⟨page,-,-⟩ := onPageIff.mp accepted
  rw [Storable,storedRounded accepted]
  constructor
  · rintro ⟨row,same,kept,-⟩
    cases same
    exact (roundedNormalized accepted).mp kept
  · intro survives
    have kept := (roundedNormalized accepted).mpr survives
    obtain ⟨across,up⟩ := normalizedIff.mp kept
    exact ⟨_,rfl,kept,onPageIff.mpr ⟨page,across.onPage,up.onPage⟩⟩

/-- Flush with the right edge within the tolerance; both coordinates are rounded up. -/
def FieldBox.flush : FieldBox :=
  {pageNumber := 1, x := 502 / 10 ^ 10, y := 0, width := 9999999502 / 10 ^ 10, height := 1 / 2}

theorem flushRefused : ¬ ∀ (box : FieldBox) (pageCount : Nat), assertFieldOnPage box pageCount = .ok () →
    Storable box pageCount := by
  intro survives
  have accepted : assertFieldOnPage .flush 1 = .ok () := by decide +kernel
  obtain ⟨row,written,normalized,-⟩ := survives .flush 1 accepted
  have refused : ∀ row ∈ storedBox .flush, normalizedBox row = false := by decide +kernel
  exact absurd normalized (by rw [refused row written]; decide)

theorem halfStorable : Storable ⟨1,0,0,1 / 2,1 / 2⟩ 1 :=
  (storableIff ⟨1,0,0,1 / 2,1 / 2⟩ 1 (by decide +kernel)).mpr
    ⟨⟨by norm_num,by norm_num⟩,⟨by norm_num,by norm_num⟩⟩

end ESign
