import Mathlib.Data.Nat.Basic
import Mathlib.Data.List.TakeWhile

/-! Patterns without alternatives: words, and runs over a class. A run takes as much as it can
while what follows still fits, the earlier run before the later one, and a search takes the
leftmost place where the pattern fits at all. -/
namespace ESign.GreedyPattern

/-- A word as it is, or a run of members of a class that is not too short. -/
inductive Piece (α : Type) where
  | word (text : List α)
  | run (member : α → Bool) (least : Nat)

variable {α : Type} {behind : List α → Bool}

/-- The captures fit the pieces one after the other, and the text behind them is allowed there. -/
inductive Fits (behind : List α → Bool) : List (Piece α) → List α → List (List α) → Prop
  | done {rest} (allowed : behind rest = true) : Fits behind [] rest []
  | word {text pieces rest captures} (tail : Fits behind pieces rest captures) :
      Fits behind (.word text :: pieces) (text ++ rest) (text :: captures)
  | run {member least taken pieces rest captures} (within : ∀ c ∈ taken, member c = true)
      (enough : least ≤ taken.length) (tail : Fits behind pieces rest captures) :
      Fits behind (.run member least :: pieces) (taken ++ rest) (taken :: captures)

def sizes (captures : List (List α)) : List Nat := captures.map List.length

/-- At the first size in which they differ, the left one is smaller. -/
def NotAbove : List Nat → List Nat → Prop
  | [],_ => True
  | _ :: _,[] => False
  | a :: as,b :: bs => a < b ∨ a = b ∧ NotAbove as bs

theorem notAboveAntisymm : ∀ {as bs : List Nat}, NotAbove as bs → NotAbove bs as → as = bs
  | [],[],_,_ => rfl
  | [],_ :: _,_,above => above.elim
  | _ :: _,[],above,_ => above.elim
  | a :: as,b :: bs,first,second => by
      rcases first with less | ⟨rfl,rest⟩
      · rcases second with more | ⟨rfl,-⟩ <;> omega
      · rcases second with more | ⟨-,rest'⟩
        · omega
        · rw [notAboveAntisymm rest rest']

/-- The way to fit that is tried before every other: no run could have been longer without an
earlier one being shorter. -/
structure Foremost (behind : List α → Bool) (pieces : List (Piece α)) (text : List α) (captures : List (List α)) : Prop where
  fits : Fits behind pieces text captures
  longest : ∀ others, Fits behind pieces text others → NotAbove (sizes others) (sizes captures)

def matchAt [DecidableEq α] (behind : List α → Bool) : List (Piece α) → List α → Option (List (List α))
  | [],text => if behind text then some [] else none
  | .word word :: pieces,text =>
      if word.isPrefixOf text then (matchAt behind pieces (text.drop word.length)).map (word :: ·) else none
  | .run member least :: pieces,text =>
      (List.range ((text.takeWhile member).length+1)).reverse.findSome? (fun size =>
        if least ≤ size then (matchAt behind pieces (text.drop size)).map (text.take size :: ·) else none)

/-- The first place from the left at which the pattern fits, and its captures there. -/
structure First (behind : List α → Bool) (pieces : List (Piece α)) (text : List α) (start : Nat)
    (captures : List (List α)) : Prop where
  inside : start ≤ text.length
  foremost : Foremost behind pieces (text.drop start) captures
  leftmost : ∀ earlier, earlier < start → ∀ others, ¬ Fits behind pieces (text.drop earlier) others

def search [DecidableEq α] (behind : List α → Bool) (pieces : List (Piece α)) (text : List α) :
    Option (Nat × List (List α)) :=
  match matchAt behind pieces text with
  | some captures => some (0,captures)
  | none =>
      match text with
      | [] => none
      | _ :: rest => (search behind pieces rest).map (fun (start,captures) => (start+1,captures))

/-- How many matches there are, each behind the one before; a match takes something. -/
def countMatches [DecidableEq α] (behind : List α → Bool) (pieces : List (Piece α)) : List α → Nat
  | [] => 0
  | c :: rest =>
      match matchAt behind pieces (c :: rest) with
      | some captures => 1 + countMatches behind pieces (rest.drop (captures.flatten.length-1))
      | none => countMatches behind pieces rest
termination_by text => text.length
decreasing_by
  · rw [List.length_drop,List.length_cons]
    omega
  · exact Nat.lt_succ_self _

variable {pieces : List (Piece α)} {text : List α} {captures : List (List α)}

theorem Fits.wordTail {word : List α} (fits : Fits behind (.word word :: pieces) text captures) :
    ∃ rest others, text = word ++ rest ∧ captures = word :: others ∧ Fits behind pieces rest others := by
  cases fits with
  | word tail => exact ⟨_,_,rfl,rfl,tail⟩

theorem Fits.runTail {member : α → Bool} {least : Nat} (fits : Fits behind (.run member least :: pieces) text captures) :
    ∃ size others, size ≤ (text.takeWhile member).length ∧ least ≤ size ∧ captures = text.take size :: others ∧
      Fits behind pieces (text.drop size) others := by
  cases fits with
  | @run _ _ taken _ rest others within enough tail =>
    refine ⟨taken.length,others,?_,enough,?_,?_⟩
    · rw [List.takeWhile_append_of_pos within,List.length_append]
      omega
    · rw [List.take_left]
    · rwa [List.drop_left]

theorem Fits.ofRun {member : α → Bool} {least size : Nat} {others : List (List α)}
    (within : size ≤ (text.takeWhile member).length) (enough : least ≤ size)
    (tail : Fits behind pieces (text.drop size) others) :
    Fits behind (.run member least :: pieces) text (text.take size :: others) := by
  have front : text.take size = (text.takeWhile member).take size := by
    have front := congrArg (List.take size) (List.prefix_iff_eq_take.mp (List.takeWhile_prefix (l := text) member))
    rw [List.take_take,Nat.min_eq_left within] at front
    exact front.symm
  have long : (text.take size).length = size := by
    rw [front,List.length_take,Nat.min_eq_left within]
  have members : ∀ c ∈ text.take size, member c = true :=
    fun c mem => List.mem_takeWhile_imp (List.mem_of_mem_take (front ▸ mem))
  have whole : Fits behind (.run member least :: pieces) (text.take size ++ text.drop size) (text.take size :: others) :=
    .run members (long.symm ▸ enough) tail
  rwa [List.take_append_drop] at whole

theorem fitsSame {others : List (List α)} (fits : Fits behind pieces text captures) (fits' : Fits behind pieces text others)
    (same : sizes captures = sizes others) : captures = others := by
  induction fits generalizing others with
  | done =>
    cases fits'
    rfl
  | word tail ih =>
    obtain ⟨rest,others,whole,rfl,tail'⟩ := fits'.wordTail
    rw [List.append_cancel_left whole] at ih
    rw [ih tail' (List.cons.inj same).2]
  | @run member least taken pieces rest captures within enough tail ih =>
    obtain ⟨size,others,inside,-,rfl,tail'⟩ := fits'.runTail
    obtain ⟨first,later⟩ := List.cons.inj same
    have short := inside.trans (List.takeWhile_prefix member).length_le
    have size_ : size = taken.length := by rw [List.length_take,Nat.min_eq_left short] at first; exact first.symm
    subst size_
    rw [List.drop_left] at tail'
    rw [List.take_left,ih tail' later]

section Search

variable [DecidableEq α]

theorem fromLongest {β : Type} {f : Nat → Option β} {n : Nat} {b : β} :
    (List.range (n+1)).reverse.findSome? f = some b ↔
      ∃ k, k ≤ n ∧ f k = some b ∧ ∀ more, k < more → more ≤ n → f more = none := by
  induction n with
  | zero =>
    simp only [List.range_succ,List.range_zero,List.nil_append,List.reverse_singleton,List.findSome?_cons,List.findSome?_nil]
    constructor
    · intro found
      refine ⟨0,le_refl 0,?_,fun more above below => absurd below (by omega)⟩
      cases first : f 0 with
      | none => rw [first] at found; cases found
      | some b' => rw [first] at found; exact found
    · rintro ⟨k,below,found,-⟩
      rw [Nat.le_zero.mp below] at found
      rw [found]
  | succ n ih =>
    rw [List.range_succ,List.reverse_append,List.reverse_singleton,List.singleton_append,List.findSome?_cons]
    cases first : f (n+1) with
    | some b' =>
      constructor
      · intro found
        exact ⟨n+1,le_refl _,first.trans found,fun more above below => absurd below (by omega)⟩
      · rintro ⟨k,below,found,longest⟩
        rcases Nat.lt_or_ge k (n+1) with less | same
        · rw [longest (n+1) less (le_refl _)] at first
          cases first
        · obtain rfl := le_antisymm below same
          exact first.symm.trans found
    | none =>
      rw [ih]
      constructor
      · rintro ⟨k,below,found,longest⟩
        refine ⟨k,by omega,found,fun more above within => ?_⟩
        rcases Nat.lt_or_ge n more with last | inner
        · rw [show more = n+1 by omega,first]
        · exact longest more above inner
      · rintro ⟨k,below,found,longest⟩
        have other : k ≠ n+1 := by
          rintro rfl
          rw [first] at found
          cases found
        exact ⟨k,by omega,found,fun more above within => longest more above (by omega)⟩

theorem matchedFits (matched : matchAt behind pieces text = some captures) : Fits behind pieces text captures := by
  induction pieces generalizing text captures with
  | nil =>
    unfold matchAt at matched
    split at matched
    · cases matched
      exact .done ‹_›
    · cases matched
  | cons piece pieces ih =>
    cases piece with
    | word word =>
      unfold matchAt at matched
      split at matched
      · rename_i front
        obtain ⟨others,tail,rfl⟩ := Option.map_eq_some_iff.mp matched
        obtain ⟨rest,rfl⟩ := List.isPrefixOf_iff_prefix.mp front
        rw [List.drop_left] at tail
        exact .word (ih tail)
      · cases matched
    | run member least =>
      unfold matchAt at matched
      obtain ⟨size,within,found,-⟩ := fromLongest.mp matched
      split at found
      · rename_i enough
        obtain ⟨others,tail,rfl⟩ := Option.map_eq_some_iff.mp found
        exact .ofRun within enough (ih tail)
      · cases found

theorem matchedSome {others : List (List α)} (fits : Fits behind pieces text others) :
    ∃ captures, matchAt behind pieces text = some captures := by
  induction fits with
  | done allowed => exact ⟨[],by rw [matchAt,if_pos allowed]⟩
  | @word word pieces rest captures tail ih =>
    obtain ⟨captures,found⟩ := ih
    refine ⟨word :: captures,?_⟩
    rw [matchAt,if_pos (List.isPrefixOf_iff_prefix.mpr ⟨rest,rfl⟩),List.drop_left,found]
    rfl
  | @run member least taken pieces rest captures within enough tail ih =>
    obtain ⟨captures,found⟩ := ih
    rw [← Option.isSome_iff_exists,matchAt,← Option.ne_none_iff_isSome]
    intro none_
    rw [List.findSome?_eq_none_iff] at none_
    have fails := none_ taken.length (by
      rw [List.mem_reverse,List.mem_range,List.takeWhile_append_of_pos within,List.length_append]
      omega)
    rw [if_pos enough,List.drop_left,found] at fails
    cases fails

/- Backtracking comes to the foremost way to fit first: by induction on the pieces, a longer
run is tried before, and what is left of the pattern does not fit behind it. -/
theorem matchedForemost (matched : matchAt behind pieces text = some captures) :
    Foremost behind pieces text captures := by
  refine ⟨matchedFits matched,?_⟩
  induction pieces generalizing text captures with
  | nil =>
    intro others fits
    cases fits
    trivial
  | cons piece pieces ih =>
    cases piece with
    | word word =>
      intro others fits
      obtain ⟨rest,others,rfl,rfl,tail⟩ := fits.wordTail
      unfold matchAt at matched
      rw [if_pos (List.isPrefixOf_iff_prefix.mpr ⟨rest,rfl⟩),List.drop_left] at matched
      obtain ⟨captures,found,rfl⟩ := Option.map_eq_some_iff.mp matched
      exact .inr ⟨rfl,ih found others tail⟩
    | run member least =>
      intro others fits
      obtain ⟨size',others,within',enough',rfl,tail'⟩ := fits.runTail
      unfold matchAt at matched
      obtain ⟨size,within,found,longest⟩ := fromLongest.mp matched
      split at found
      · obtain ⟨captures,inner,rfl⟩ := Option.map_eq_some_iff.mp found
        have short := (List.takeWhile_prefix (l := text) member).length_le
        have sizes_ : (text.take size').length = size' ∧ (text.take size).length = size := by
          rw [List.length_take,List.length_take]
          omega
        change (text.take size').length < (text.take size).length ∨ (text.take size').length = (text.take size).length ∧ _
        rw [sizes_.1,sizes_.2]
        rcases Nat.lt_trichotomy size' size with less | same | more
        · exact .inl less
        · subst same
          exact .inr ⟨rfl,ih inner others tail'⟩
        · obtain ⟨captures',found'⟩ := matchedSome tail'
          have fails := longest size' more within'
          rw [if_pos enough',found'] at fails
          cases fails
      · cases found

theorem foremostIff : matchAt behind pieces text = some captures ↔ Foremost behind pieces text captures := by
  refine ⟨matchedForemost,fun foremost => ?_⟩
  obtain ⟨others,found⟩ := matchedSome foremost.fits
  have before := (matchedForemost found).longest captures foremost.fits
  have after := foremost.longest others (matchedFits found)
  rw [found,fitsSame (matchedFits found) foremost.fits (notAboveAntisymm after before)]

theorem matchedNone (missing : matchAt behind pieces text = none) (others : List (List α)) :
    ¬ Fits behind pieces text others := by
  intro fits
  obtain ⟨captures,found⟩ := matchedSome fits
  rw [found] at missing
  cases missing

theorem firstHere {start : Nat} {here : List (List α)} (found : matchAt behind pieces text = some here) :
    First behind pieces text start captures ↔ start = 0 ∧ captures = here := by
  constructor
  · intro first
    cases start with
    | zero => exact ⟨rfl,Option.some.inj ((foremostIff.mpr first.foremost).symm.trans found)⟩
    | succ start => exact absurd (matchedFits found) (first.leftmost 0 (Nat.succ_pos _) _)
  · rintro ⟨rfl,rfl⟩
    exact ⟨Nat.zero_le _,foremostIff.mp found,fun earlier before => absurd before (Nat.not_lt_zero _)⟩

theorem firstNext {c : α} {start : Nat} (missing : matchAt behind pieces (c :: text) = none) :
    First behind pieces (c :: text) start captures ↔ ∃ later, start = later+1 ∧ First behind pieces text later captures := by
  constructor
  · intro first
    cases start with
    | zero => exact absurd first.foremost.fits (matchedNone missing captures)
    | succ later =>
      exact ⟨later,rfl,Nat.le_of_succ_le_succ first.inside,first.foremost,
        fun earlier before => first.leftmost (earlier+1) (Nat.succ_lt_succ before)⟩
  · rintro ⟨later,rfl,first⟩
    refine ⟨Nat.succ_le_succ first.inside,first.foremost,fun earlier before => ?_⟩
    cases earlier with
    | zero => exact matchedNone missing
    | succ earlier => exact first.leftmost earlier (Nat.lt_of_succ_lt_succ before)

theorem searchIff {start : Nat} :
    search behind pieces text = some (start,captures) ↔ First behind pieces text start captures := by
  induction text generalizing start with
  | nil =>
    unfold search
    cases found : matchAt behind pieces [] with
    | some here =>
      rw [firstHere found]
      simp only [Option.some.injEq,Prod.mk.injEq,eq_comm]
    | none =>
      refine ⟨fun missing => (nomatch missing),fun first => ?_⟩
      have fits := first.foremost.fits
      rw [List.drop_nil] at fits
      exact absurd fits (matchedNone found captures)
  | cons c rest ih =>
    unfold search
    cases found : matchAt behind pieces (c :: rest) with
    | some here =>
      rw [firstHere found]
      simp only [Option.some.injEq,Prod.mk.injEq,eq_comm]
    | none =>
      rw [firstNext found]
      simp only [Option.map_eq_some_iff,Prod.exists,Prod.mk.injEq]
      constructor
      · rintro ⟨later,others,further,rfl,rfl⟩
        exact ⟨later,rfl,ih.mp further⟩
      · rintro ⟨later,rfl,first⟩
        exact ⟨later,captures,ih.mpr first,rfl,rfl⟩

theorem countBound (text : List α) : countMatches behind pieces text ≤ text.length := by
  fun_induction countMatches behind pieces text with
  | case1 => exact le_refl _
  | case2 c rest captures matched ih =>
    rw [List.length_drop] at ih
    rw [List.length_cons]
    omega
  | case3 c rest missing ih =>
    rw [List.length_cons]
    omega

end Search

end ESign.GreedyPattern
