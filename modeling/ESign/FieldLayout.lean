import ESign.FieldStorage

/-! Which lists of boxes the layout check accepts. Two boxes clash when what they share
is wider and higher than the tolerance; the code compares four edges instead. -/
namespace ESign

section Intervals
variable {R : Type} [AddCommGroup R] [LinearOrder R] [IsOrderedAddMonoid R]

/-- How much of `[a,b]` lies in `[c,d]`; the ends are those of `Set.Icc_inter_Icc`. -/
def sharedLength (a b c d : R) : R := max 0 (min b d - max a c)

/- Of intervals longer than the tolerance, two comparisons are enough: the other two
ends to compare belong to one interval. -/
theorem sharedMoreIff {a b c d tolerance : R} (natural : 0 ≤ tolerance) (left : tolerance < b - a)
    (right : tolerance < d - c) :
    tolerance < sharedLength a b c d ↔ c + tolerance < b ∧ a + tolerance < d := by
  have own : a + tolerance < b := lt_sub_iff_add_lt'.mp left
  have others : c + tolerance < d := lt_sub_iff_add_lt'.mp right
  have ends : tolerance < sharedLength a b c d ↔ max a c + tolerance < min b d := by
    rw [sharedLength,lt_max_iff,lt_sub_iff_add_lt']
    exact or_iff_right natural.not_gt
  rw [ends,max_add,max_lt_iff,lt_min_iff,lt_min_iff]
  exact ⟨fun ⟨⟨_,first⟩,second,_⟩ => ⟨second,first⟩,fun ⟨second,first⟩ => ⟨⟨own,first⟩,second,others⟩⟩

end Intervals

def FieldBox.sharedWidth (left right : FieldBox) : Rat :=
  sharedLength left.x (left.x + left.width) right.x (right.x + right.width)

def FieldBox.sharedHeight (left right : FieldBox) : Rat :=
  sharedLength left.y (left.y + left.height) right.y (right.y + right.height)

/-- On one page, and sharing more than the tolerance along both axes. -/
structure FieldBox.Clash (left right : FieldBox) : Prop where
  page : left.pageNumber = right.pageNumber
  width : epsilon < left.sharedWidth right
  height : epsilon < left.sharedHeight right

/-- Larger than the tolerance along both axes. -/
def FieldBox.Visible (box : FieldBox) : Prop := epsilon < box.width ∧ epsilon < box.height

theorem overlapEdges {left right : FieldBox} :
    fieldsOverlap left right = true ↔ left.pageNumber = right.pageNumber ∧
      (right.x + epsilon < left.x + left.width ∧ left.x + epsilon < right.x + right.width) ∧
      right.y + epsilon < left.y + left.height ∧ left.y + epsilon < right.y + right.height := by
  unfold fieldsOverlap
  split
  · rename_i apart
    exact ⟨fun overlap => (nomatch overlap),fun edges => absurd edges.1 apart⟩
  · rename_i page
    rw [not_not] at page
    simp only [Bool.not_eq_true',decide_eq_false_iff_not,not_or,not_le]
    exact ⟨fun ⟨a,b,c,d⟩ => ⟨page,⟨a,b⟩,c,d⟩,fun ⟨_,⟨a,b⟩,c,d⟩ => ⟨a,b,c,d⟩⟩

theorem fieldsOverlapComm (left right : FieldBox) : fieldsOverlap left right = fieldsOverlap right left := by
  rw [Bool.eq_iff_iff,overlapEdges,overlapEdges]
  exact ⟨fun ⟨page,x,y⟩ => ⟨page.symm,x.symm,y.symm⟩,fun ⟨page,x,y⟩ => ⟨page.symm,x.symm,y.symm⟩⟩

theorem overlapIff {left right : FieldBox} (l : left.Visible) (r : right.Visible) :
    fieldsOverlap left right = true ↔ left.Clash right := by
  have natural : 0 ≤ epsilon := by norm_num [epsilon]
  have width : epsilon < left.sharedWidth right ↔ _ :=
    sharedMoreIff natural (by simpa using l.1) (by simpa using r.1)
  have height : epsilon < left.sharedHeight right ↔ _ :=
    sharedMoreIff natural (by simpa using l.2) (by simpa using r.2)
  rw [overlapEdges,← width,← height]
  constructor
  · rintro ⟨page,x,y⟩
    exact ⟨page,x,y⟩
  · rintro ⟨page,x,y⟩
    exact ⟨page,x,y⟩

theorem noOverlapIff {boxes : List FieldBox} :
    assertNoOverlap boxes = .ok () ↔ boxes.Pairwise (fun left right => fieldsOverlap left right = false) := by
  induction boxes with
  | nil => exact ⟨fun _ => .nil,fun _ => rfl⟩
  | cons current rest ih =>
    rw [assertNoOverlap,thenOk,checkOk,ih,List.pairwise_cons]
    simp

theorem layoutIff {boxes : List FieldBox} {pageCount : Nat} {policy : FieldOverlapPolicy} :
    assertFieldLayout boxes pageCount policy = .ok () ↔
      1 ≤ pageCount ∧ (∀ box ∈ boxes, assertFieldOnPage box pageCount = .ok ()) ∧
        (policy = .prohibit → boxes.Pairwise (fun left right => fieldsOverlap left right = false)) := by
  unfold assertFieldLayout
  rw [thenOk,checkOk,decide_eq_true_eq,bindOk]
  refine and_congr_right fun _ => ⟨?_,?_⟩
  · rintro ⟨_,loop,rest⟩
    refine ⟨loopOk.mp loop,?_⟩
    rintro rfl
    exact noOverlapIff.mp rest
  · rintro ⟨each,apart⟩
    refine ⟨PUnit.unit,loopOk.mpr each,?_⟩
    cases policy with
    | prohibit => exact noOverlapIff.mpr (apart rfl)
    | allow => rfl

theorem layoutPerm {boxes permuted : List FieldBox} (perm : boxes.Perm permuted) {pageCount : Nat}
    {policy : FieldOverlapPolicy} (ok : assertFieldLayout boxes pageCount policy = .ok ()) :
    assertFieldLayout permuted pageCount policy = .ok () := by
  obtain ⟨pages,each,apart⟩ := layoutIff.mp ok
  refine layoutIff.mpr ⟨pages,fun box mem => each box (perm.mem_iff.mpr mem),fun prohibited => ?_⟩
  refine (perm.pairwise_iff ?_).mp (apart prohibited)
  intro left right disjoint
  rwa [fieldsOverlapComm]

theorem apartIff {boxes : List FieldBox} (visible : ∀ box ∈ boxes, box.Visible) :
    boxes.Pairwise (fun left right => fieldsOverlap left right = false) ↔
      ∀ i j (first : i < boxes.length) (second : j < boxes.length), i ≠ j → ¬ boxes[i].Clash boxes[j] := by
  have clash : ∀ i j (first : i < boxes.length) (second : j < boxes.length),
      fieldsOverlap boxes[i] boxes[j] = false ↔ ¬ boxes[i].Clash boxes[j] := by
    intro i j first second
    rw [← overlapIff (visible _ (List.getElem_mem first)) (visible _ (List.getElem_mem second)),Bool.not_eq_true]
  rw [List.pairwise_iff_getElem]
  constructor
  · intro ordered i j first second apart
    rcases Nat.lt_or_gt_of_ne apart with less | more
    · exact (clash i j first second).mp (ordered i j first second less)
    · rw [← clash,fieldsOverlapComm]
      exact ordered j i second first more
  · intro all i j first second less
    exact (clash i j first second).mpr (all i j first second (Nat.ne_of_lt less))

/-- The layout check is exact for boxes above the tolerance, and for boxes of any size
it does not depend on the order of the list. -/
theorem fieldLayoutExact :
    (∀ left right : FieldBox, fieldsOverlap left right = fieldsOverlap right left) ∧
    (∀ (pageCount : Nat) (boxes : List FieldBox), 1 ≤ pageCount → (∀ box ∈ boxes, box.Visible) →
      (assertFieldLayout boxes pageCount .prohibit = .ok () ↔
        (∀ box ∈ boxes, assertFieldOnPage box pageCount = .ok ()) ∧
          ∀ i j (first : i < boxes.length) (second : j < boxes.length), i ≠ j → ¬ boxes[i].Clash boxes[j])) ∧
    ∀ (pageCount : Nat) (policy : FieldOverlapPolicy) (boxes : List FieldBox),
      assertFieldLayout boxes pageCount policy = .ok () ↔
        ∀ permuted : List FieldBox, permuted.Perm boxes → assertFieldLayout permuted pageCount policy = .ok () := by
  refine ⟨fieldsOverlapComm,fun pageCount boxes pages visible => ?_,fun pageCount policy boxes => ?_⟩
  · rw [layoutIff,apartIff visible]
    exact ⟨fun ⟨_,each,apart⟩ => ⟨each,apart rfl⟩,fun ⟨each,apart⟩ => ⟨pages,each,fun _ => apart⟩⟩
  · exact ⟨fun ok permuted perm => layoutPerm perm.symm ok,fun all => all boxes (.refl _)⟩

end ESign
