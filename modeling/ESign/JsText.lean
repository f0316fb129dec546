import Mathlib.Data.Nat.Digits.Lemmas
import Mathlib.Data.List.TakeWhile

/-! Text as ECMAScript writes it: strings are UTF-16 units, `quote` is
QuoteJSONString, `JsNumber.text` is Number::toString and `isoString` is
Date.prototype.toISOString. Each writer has a reader that inverts it, with any text
after it; so each writer is injective. -/
namespace ESign.JsText

abbrev Utf16 := List UInt16

def ascii (text : List Char) : Utf16 := text.map (fun c => UInt16.ofNat c.toNat)

/-! Decimal digits. -/

def digit (n : Nat) : UInt16 := UInt16.ofNat (48+n)

def isDigit (u : UInt16) : Bool := 48 ≤ u.toNat && u.toNat ≤ 57

def digitValue (u : UInt16) : Nat := u.toNat - 48

theorem digitRead : ∀ n, n < 10 → isDigit (digit n) = true ∧ digitValue (digit n) = n := by decide

theorem digitsRead {digits : List Nat} (small : ∀ n ∈ digits, n < 10) :
    (∀ u ∈ digits.map digit, isDigit u = true) ∧ (digits.map digit).map digitValue = digits := by
  constructor
  · intro u mem
    obtain ⟨n,found,rfl⟩ := List.mem_map.mp mem
    exact (digitRead n (small n found)).1
  · rw [List.map_map]
    conv_rhs => rw [← List.map_id digits]
    exact List.map_congr_left (fun n mem => (digitRead n (small n mem)).2)

/-- The digits of a natural number, most significant first; none for zero. -/
def digitsOf (n : Nat) : List Nat := (Nat.digits 10 n).reverse

def ofDigits (digits : List Nat) : Nat := Nat.ofDigits 10 digits.reverse

theorem digitsSmall (n : Nat) : ∀ d ∈ digitsOf n, d < 10 := by
  intro d mem
  exact Nat.digits_lt_base (by decide) (List.mem_reverse.mp mem)

theorem ofDigitsOf (n : Nat) : ofDigits (digitsOf n) = n := by
  simp [ofDigits,digitsOf,Nat.ofDigits_digits]

/-- At least `width` digits, zeros in front. -/
def pad (width n : Nat) : Utf16 :=
  let digits := digitsOf n
  (List.replicate (width - digits.length) 0 ++ digits).map digit

theorem ofDigitsPadded (k : Nat) (digits : List Nat) : ofDigits (List.replicate k 0 ++ digits) = ofDigits digits := by
  simp [ofDigits,Nat.ofDigits_append,Nat.ofDigits_replicate_zero]

def readThen (separator : UInt16) (text : Utf16) : Option (Nat × Utf16) :=
  match text.dropWhile isDigit with
  | c :: rest => if c = separator then some (ofDigits ((text.takeWhile isDigit).map digitValue),rest) else none
  | [] => none

theorem spanWhile (p : UInt16 → Bool) (front rest : Utf16) (all : ∀ u ∈ front, p u = true)
    (stop : ∀ u ∈ rest.head?, p u = false) :
    (front ++ rest).takeWhile p = front ∧ (front ++ rest).dropWhile p = rest := by
  have back : rest.takeWhile p = [] ∧ rest.dropWhile p = rest := by
    cases rest with
    | nil => simp
    | cons u rest => simp [stop u (by simp)]
  rw [List.takeWhile_append_of_pos all,List.dropWhile_append_of_pos all,back.1,back.2,List.append_nil]
  exact ⟨rfl,rfl⟩

theorem paddedDigits (width n : Nat) : ∀ u ∈ pad width n, isDigit u = true := by
  refine (digitsRead ?_).1
  intro d mem
  rcases List.mem_append.mp mem with zero | digit
  · rw [List.eq_of_mem_replicate zero]; decide
  · exact digitsSmall n d digit

theorem readPadded {separator : UInt16} (stop : isDigit separator = false) (width n : Nat) (rest : Utf16) :
    readThen separator (pad width n ++ separator :: rest) = some (n,rest) := by
  have small : ∀ d ∈ List.replicate (width - (digitsOf n).length) 0 ++ digitsOf n, d < 10 := by
    intro d mem
    rcases List.mem_append.mp mem with zero | digit
    · rw [List.eq_of_mem_replicate zero]; decide
    · exact digitsSmall n d digit
  obtain ⟨front,back⟩ := spanWhile isDigit _ (separator :: rest) (paddedDigits width n) (by simpa using stop)
  unfold readThen
  rw [front,back]
  simp only [if_true]
  rw [pad,(digitsRead small).2,ofDigitsPadded,ofDigitsOf]

/-! Strings. -/

def hexDigit (n : Nat) : UInt16 := UInt16.ofNat (if n < 10 then 48+n else 87+n)

def hexValue (u : UInt16) : Option Nat :=
  if 48 ≤ u.toNat ∧ u.toNat ≤ 57 then some (u.toNat - 48)
  else if 97 ≤ u.toNat ∧ u.toNat ≤ 102 then some (u.toNat - 87) else none

theorem hexRead : ∀ n, n < 16 → hexValue (hexDigit n) = some n := by decide

def unicodeEscape (c : UInt16) : Utf16 :=
  [92,117,hexDigit (c.toNat/4096),hexDigit (c.toNat/256%16),hexDigit (c.toNat/16%16),hexDigit (c.toNat%16)]

def isHighSurrogate (c : UInt16) : Bool := 0xD800 ≤ c.toNat && c.toNat ≤ 0xDBFF

def isLowSurrogate (c : UInt16) : Bool := 0xDC00 ≤ c.toNat && c.toNat ≤ 0xDFFF

/-- The letter after the backslash, for the units that have one. -/
def shortEscape (c : UInt16) : Option UInt16 :=
  if c = 8 then some 98 else if c = 9 then some 116 else if c = 10 then some 110 else if c = 12 then some 102
  else if c = 13 then some 114 else if c = 34 then some 34 else if c = 92 then some 92 else none

def quoteUnit (c : UInt16) : Utf16 :=
  match shortEscape c with
  | some letter => [92,letter]
  | none => if c.toNat < 32 || isHighSurrogate c || isLowSurrogate c then unicodeEscape c else [c]

/-- A surrogate pair is written as it is, a surrogate on its own is escaped. -/
def quoteUnits : Utf16 → Utf16
  | [] => []
  | [c] => quoteUnit c
  | c :: d :: rest =>
      if isHighSurrogate c && isLowSurrogate d then c :: d :: quoteUnits rest
      else quoteUnit c ++ quoteUnits (d :: rest)

def quote (text : Utf16) : Utf16 := 34 :: (quoteUnits text ++ [34])

def unescape (letter : UInt16) : Option UInt16 :=
  if letter = 98 then some 8 else if letter = 116 then some 9 else if letter = 110 then some 10
  else if letter = 102 then some 12 else if letter = 114 then some 13
  else if letter = 34 ∨ letter = 92 ∨ letter = 47 then some letter else none

def readHex (a b c d : UInt16) : Option UInt16 := do
  let a ← hexValue a
  let b ← hexValue b
  let c ← hexValue c
  let d ← hexValue d
  some (UInt16.ofNat (4096*a+256*b+16*c+d))

/-- One unit of a string and what follows it; `none` for the closing quote. -/
def readUnit : Utf16 → Option (Option UInt16 × Utf16)
  | [] => none
  | c :: rest =>
      if c = 34 then some (none,rest)
      else if c ≠ 92 then if c.toNat < 32 then none else some (some c,rest)
      else match rest with
        | [] => none
        | u :: rest =>
            if u ≠ 117 then (unescape u).map (fun unit => (some unit,rest))
            else match rest with
              | a :: b :: c :: d :: rest => (readHex a b c d).map (fun unit => (some unit,rest))
              | _ => none

/-- A string after its opening quote; `fuel` bounds its units. -/
def readUnits : Nat → Utf16 → Option (Utf16 × Utf16)
  | 0, _ => none
  | fuel+1, text => do
      match ← readUnit text with
      | (none,rest) => some ([],rest)
      | (some unit,rest) => do
          let (units,rest) ← readUnits fuel rest
          some (unit :: units,rest)

theorem readEscaped (c : UInt16) (rest : Utf16) : readUnit (unicodeEscape c ++ rest) = some (some c,rest) := by
  have bound := c.toNat_lt
  have read : readHex (hexDigit (c.toNat/4096)) (hexDigit (c.toNat/256%16)) (hexDigit (c.toNat/16%16))
      (hexDigit (c.toNat%16)) = some c := by
    unfold readHex
    rw [hexRead _ (by omega),hexRead _ (by omega),hexRead _ (by omega),hexRead _ (by omega)]
    have whole : 4096*(c.toNat/4096)+256*(c.toNat/256%16)+16*(c.toNat/16%16)+c.toNat%16 = c.toNat := by omega
    simp only [bind,Option.bind]
    rw [whole,UInt16.ofNat_toNat]
  simp [unicodeEscape,readUnit,read]

theorem readShort {c letter : UInt16} (short : shortEscape c = some letter) (rest : Utf16) :
    readUnit (92 :: letter :: rest) = some (some c,rest) := by
  unfold shortEscape at short
  repeat' split at short
  all_goals first
    | contradiction
    | (cases Option.some.inj short; subst_vars; simp [readUnit,unescape])

theorem readQuoted (c : UInt16) (rest : Utf16) : readUnit (quoteUnit c ++ rest) = some (some c,rest) := by
  unfold quoteUnit
  split
  · rename_i letter short
    exact readShort short rest
  · rename_i plain
    split
    · exact readEscaped c rest
    · rename_i printed
      have notQuote : c ≠ 34 ∧ c ≠ 92 := by
        constructor <;> (rintro rfl; simp [shortEscape] at plain)
      simp only [Bool.or_eq_true,decide_eq_true_eq,not_or,not_lt] at printed
      simp [readUnit,notQuote,printed.1.1]

theorem readSurrogate {c : UInt16} (surrogate : 0xD800 ≤ c.toNat) (rest : Utf16) :
    readUnit (c :: rest) = some (some c,rest) := by
  have notQuote : c ≠ 34 ∧ c ≠ 92 := by
    constructor <;> (rintro rfl; simp at surrogate)
  have printed : ¬ c.toNat < 32 := by omega
  simp [readUnit,notQuote,printed]

theorem readUnitsQuoted (text : Utf16) (fuel : Nat) (enough : text.length < fuel) (rest : Utf16) :
    readUnits fuel (quoteUnits text ++ 34 :: rest) = some (text,rest) := by
  induction text using quoteUnits.induct generalizing fuel with
  | case1 =>
    obtain ⟨fuel,rfl⟩ := Nat.exists_eq_succ_of_ne_zero (by omega : fuel ≠ 0)
    simp [quoteUnits,readUnits,readUnit]
  | case2 c =>
    simp only [List.length_singleton] at enough
    obtain ⟨fuel,rfl⟩ := Nat.exists_eq_add_of_lt enough
    rw [quoteUnits,show 1+fuel+1 = (fuel+1)+1 by omega,readUnits,readQuoted]
    simp [readUnits,readUnit]
  | case3 c d tail pair ih =>
    simp only [List.length_cons] at enough
    obtain ⟨fuel,rfl⟩ : ∃ n, fuel = n+2 := ⟨fuel-2,by omega⟩
    have both := pair
    simp only [Bool.and_eq_true,isHighSurrogate,isLowSurrogate,decide_eq_true_eq] at both
    rw [quoteUnits,if_pos pair,List.cons_append,List.cons_append,readUnits,readSurrogate (by omega)]
    simp only [bind,Option.bind]
    rw [readUnits,readSurrogate (by omega)]
    simp only [bind,Option.bind]
    rw [ih fuel (by omega)]
  | case4 c d tail apart ih =>
    simp only [List.length_cons] at enough
    obtain ⟨fuel,rfl⟩ : ∃ n, fuel = n+1 := ⟨fuel-1,by omega⟩
    rw [quoteUnits,if_neg apart,List.append_assoc,readUnits,readQuoted]
    simp only [bind,Option.bind]
    rw [ih fuel (by simp only [List.length_cons]; omega)]

def readString (text : Utf16) : Option (Utf16 × Utf16) :=
  match text with
  | c :: rest => if c = 34 then readUnits text.length rest else none
  | [] => none

theorem quoteUnitSome (c : UInt16) : 1 ≤ (quoteUnit c).length := by
  unfold quoteUnit
  split
  · simp
  · split <;> simp [unicodeEscape]

theorem quoteUnitsLength (text : Utf16) : text.length ≤ (quoteUnits text).length := by
  induction text using quoteUnits.induct with
  | case1 => simp
  | case2 c => simpa [quoteUnits] using quoteUnitSome c
  | case3 c d tail pair ih => simp only [quoteUnits,if_pos pair,List.length_cons]; omega
  | case4 c d tail apart ih =>
    have := quoteUnitSome c
    simp only [quoteUnits,if_neg apart,List.length_append,List.length_cons] at ih ⊢
    omega

theorem readStringQuoted (text rest : Utf16) : readString (quote text ++ rest) = some (text,rest) := by
  have length := quoteUnitsLength text
  have read := readUnitsQuoted text (quote text ++ rest).length (by simp [quote]; omega) rest
  simpa [readString,quote] using read

/-! Numbers. -/

/-- Decimal digits that neither start nor end with a zero. -/
def Significant (digits : List Nat) : Prop :=
  digits ≠ [] ∧ digits.head? ≠ some 0 ∧ digits.getLast? ≠ some 0 ∧ ∀ d ∈ digits, d < 10

instance (digits : List Nat) : Decidable (Significant digits) := inferInstanceAs (Decidable (_ ∧ _ ∧ _ ∧ _))

/-- A finite Number is known by the shortest decimal that rounds to it: its digits,
and where the point stands behind the first of them. The two zeros are one value. -/
inductive JsNumber where
  | zero
  | decimal (negative : Bool) (digits : {digits : List Nat // Significant digits}) (point : Int)
  deriving DecidableEq

/-- The signed exponent of scientific notation. -/
def exponentText (e : Int) : Utf16 := (if e < 0 then 45 else 43) :: pad 1 e.natAbs

/-- Number::toString of a positive number, by where the point falls. -/
def magnitudeText (digits : List Nat) (point : Int) : Utf16 :=
  let text := digits.map digit
  if digits.length ≤ point ∧ point ≤ 21 then text ++ List.replicate (point.toNat - digits.length) 48
  else if 0 < point ∧ point ≤ 21 then text.take point.toNat ++ 46 :: text.drop point.toNat
  else if -6 < point ∧ point ≤ 0 then 48 :: 46 :: (List.replicate (-point).toNat 48 ++ text)
  else text.take 1 ++ (if digits.length = 1 then [] else 46 :: text.drop 1) ++ 101 :: exponentText (point-1)

def JsNumber.text : JsNumber → Utf16
  | .zero => [48]
  | .decimal negative digits point =>
      if negative then 45 :: magnitudeText digits point else magnitudeText digits point

def readExponent (text : Utf16) : Option Int :=
  match text with
  | sign :: digits =>
      let value := ofDigits (digits.map digitValue)
      some (if sign = 45 then -value else value)
  | [] => none

/-- Reads back what `magnitudeText` writes. -/
def readMagnitude (text : Utf16) : Option (List Nat × Int) :=
  let mantissa := text.takeWhile (fun u => u ≠ 101)
  let whole := mantissa.takeWhile (fun u => u ≠ 46)
  let fraction := (mantissa.dropWhile (fun u => u ≠ 46)).drop 1
  match text.dropWhile (fun u => u ≠ 101) with
  | _ :: exponent => do
      let e ← readExponent exponent
      some ((whole ++ fraction).map digitValue,e+1)
  | [] =>
      if whole = mantissa then some ((whole.reverse.dropWhile (fun u => u = 48)).reverse.map digitValue,whole.length)
      else if whole = [48] then
        some ((fraction.dropWhile (fun u => u = 48)).map digitValue,-(fraction.takeWhile (fun u => u = 48)).length)
      else some ((whole ++ fraction).map digitValue,whole.length)

def readNumber (text : Utf16) : Option JsNumber :=
  if text = [48] then some .zero
  else do
    let negative := text.head? = some 45
    let (digits,point) ← readMagnitude (if negative then text.drop 1 else text)
    if valid : Significant digits then some (.decimal negative ⟨digits,valid⟩ point) else none

theorem digitUnit {u : UInt16} (h : isDigit u = true) : u ≠ 43 ∧ u ≠ 45 ∧ u ≠ 46 ∧ u ≠ 101 := by
  refine ⟨?_,?_,?_,?_⟩ <;> (rintro rfl; revert h; decide)

theorem splitAt {front : Utf16} {c : UInt16} (absent : ∀ u ∈ front, u ≠ c) (back : Utf16) :
    (front ++ c :: back).takeWhile (fun u => u ≠ c) = front ∧
      (front ++ c :: back).dropWhile (fun u => u ≠ c) = c :: back :=
  spanWhile _ _ _ (by simpa using absent) (by simp)

theorem splitNone {front : Utf16} {c : UInt16} (absent : ∀ u ∈ front, u ≠ c) :
    front.takeWhile (fun u => u ≠ c) = front ∧ front.dropWhile (fun u => u ≠ c) = [] := by
  have both := spanWhile (fun u => u ≠ c) front [] (by simpa using absent) (by simp)
  rwa [List.append_nil] at both

section

variable {digits : List Nat} (valid : Significant digits)

include valid

theorem significantDigits : ∀ u ∈ digits.map digit, isDigit u = true := (digitsRead valid.2.2.2).1

theorem significantValues : (digits.map digit).map digitValue = digits := (digitsRead valid.2.2.2).2

theorem significantUnits : ∀ u ∈ digits.map digit, u ≠ 46 ∧ u ≠ 101 :=
  fun u mem => (digitUnit (significantDigits valid u mem)).2.2

theorem firstSignificant : ∀ u ∈ (digits.map digit).head?, u ≠ 48 := by
  obtain ⟨some,first,-,small⟩ := valid
  obtain ⟨d,rest,rfl⟩ := List.exists_cons_of_ne_nil some
  intro u mem zero
  simp only [List.map_cons,List.head?_cons,Option.mem_some_iff] at mem
  have read := (digitRead d (small d List.mem_cons_self)).2
  rw [mem,zero] at read
  simp only [List.head?_cons,ne_eq,Option.some.injEq] at first
  exact first (by rw [← read]; decide)

theorem lastSignificant : ∀ u ∈ (digits.map digit).getLast?, u ≠ 48 := by
  obtain ⟨some,-,last,small⟩ := valid
  intro u mem zero
  rw [List.getLast?_map] at mem
  obtain ⟨d,found,rfl⟩ := Option.mem_map.mp mem
  have read := (digitRead d (small d (List.mem_of_mem_getLast? found))).2
  rw [zero] at read
  rw [found] at last
  exact last (by rw [← read]; rfl)

theorem readInteger {point : Int} (enough : digits.length ≤ point) :
    readMagnitude (digits.map digit ++ List.replicate (point.toNat - digits.length) 48) = some (digits,point) := by
  have units : ∀ u ∈ digits.map digit ++ List.replicate (point.toNat - digits.length) 48, u ≠ 46 ∧ u ≠ 101 := by
    intro u mem
    rcases List.mem_append.mp mem with digit | zero
    · exact significantUnits valid u digit
    · rw [List.eq_of_mem_replicate zero]; decide
  have noExponent := splitNone (fun u mem => (units u mem).2)
  have noPoint := splitNone (fun u mem => (units u mem).1)
  have stripped := (spanWhile (fun u => u = 48) (List.replicate (point.toNat - digits.length) 48)
    (digits.map digit).reverse (by simp) (by
      intro u mem
      rw [List.head?_reverse] at mem
      simpa using lastSignificant valid u mem)).2
  unfold readMagnitude
  simp only [noExponent,noPoint,if_true]
  rw [List.reverse_append,List.reverse_replicate,stripped,List.reverse_reverse,significantValues valid]
  simp
  omega

theorem readSplit {point : Int} (positive : 0 < point) (short : point < digits.length) :
    readMagnitude ((digits.map digit).take point.toNat ++ 46 :: (digits.map digit).drop point.toNat) =
      some (digits,point) := by
  have units := significantUnits valid
  have front : ∀ u ∈ (digits.map digit).take point.toNat, u ≠ 46 := fun u mem => (units u (List.mem_of_mem_take mem)).1
  have all : ∀ u ∈ (digits.map digit).take point.toNat ++ 46 :: (digits.map digit).drop point.toNat, u ≠ 101 := by
    intro u mem
    rcases List.mem_append.mp mem with taken | rest
    · exact (units u (List.mem_of_mem_take taken)).2
    · rcases List.mem_cons.mp rest with rfl | dropped
      · decide
      · exact (units u (List.mem_of_mem_drop dropped)).2
  have noExponent := splitNone all
  have atPoint := splitAt front ((digits.map digit).drop point.toNat)
  have notZero : (digits.map digit).take point.toNat ≠ [48] := by
    intro zero
    have first : (digits.map digit).head? = some 48 := by
      have taken := congrArg List.head? zero
      rw [List.head?_take,if_neg (by omega)] at taken
      exact taken
    exact firstSignificant valid 48 first rfl
  unfold readMagnitude
  simp only [noExponent,atPoint]
  rw [if_neg (by simp),if_neg notZero,List.drop_one,List.tail_cons,List.take_append_drop,significantValues valid]
  simp
  omega

theorem readSmall {point : Int} (small : point ≤ 0) :
    readMagnitude (48 :: 46 :: (List.replicate (-point).toNat 48 ++ digits.map digit)) = some (digits,point) := by
  have units := significantUnits valid
  have all : ∀ u ∈ 48 :: 46 :: (List.replicate (-point).toNat 48 ++ digits.map digit), u ≠ 101 := by
    intro u mem
    rcases List.mem_cons.mp mem with rfl | mem
    · decide
    rcases List.mem_cons.mp mem with rfl | mem
    · decide
    rcases List.mem_append.mp mem with zero | digit
    · rw [List.eq_of_mem_replicate zero]; decide
    · exact (units u digit).2
  have noExponent := splitNone all
  have atPoint : (48 :: 46 :: (List.replicate (-point).toNat 48 ++ digits.map digit)).takeWhile (fun u => u ≠ 46) = [48] ∧
      (48 :: 46 :: (List.replicate (-point).toNat 48 ++ digits.map digit)).dropWhile (fun u => u ≠ 46) =
        46 :: (List.replicate (-point).toNat 48 ++ digits.map digit) := by simp
  have zeros := spanWhile (fun u => u = 48) (List.replicate (-point).toNat 48) (digits.map digit) (by simp)
    (fun u mem => by simpa using firstSignificant valid u mem)
  unfold readMagnitude
  simp only [noExponent,atPoint]
  rw [if_neg (by simp),if_pos trivial,List.drop_one,List.tail_cons,zeros.1,zeros.2,significantValues valid]
  simp
  omega

omit valid in
theorem readExponentText (e : Int) : readExponent (exponentText e) = some e := by
  have read : ofDigits ((pad 1 e.natAbs).map digitValue) = e.natAbs := by
    have whole := readPadded (by decide : isDigit 101 = false) 1 e.natAbs []
    have front := spanWhile isDigit _ [101] (paddedDigits 1 e.natAbs) (by simp [isDigit])
    unfold readThen at whole
    rw [front.1,front.2] at whole
    simpa using whole
  unfold exponentText readExponent
  simp only [read]
  split <;> rename_i sign
  · simp only [if_true,Option.some.injEq]; omega
  · rw [if_neg (by decide),Option.some.injEq]; omega

theorem readScientific (point : Int) :
    readMagnitude ((digits.map digit).take 1 ++ (if digits.length = 1 then [] else 46 :: (digits.map digit).drop 1) ++
      101 :: exponentText (point-1)) = some (digits,point) := by
  have units := significantUnits valid
  have values := significantValues valid
  have front : ∀ u ∈ (digits.map digit).take 1, u ≠ 46 := fun u mem => (units u (List.mem_of_mem_take mem)).1
  have mantissa : ∀ u ∈ (digits.map digit).take 1 ++
      (if digits.length = 1 then [] else 46 :: (digits.map digit).drop 1), u ≠ 101 := by
    intro u mem
    rcases List.mem_append.mp mem with first | mem
    · exact (units u (List.mem_of_mem_take first)).2
    split at mem
    · cases mem
    · rcases List.mem_cons.mp mem with rfl | later
      · decide
      · exact (units u (List.mem_of_mem_drop later)).2
  have atExponent := splitAt mantissa (exponentText (point-1))
  unfold readMagnitude
  simp only [atExponent]
  rw [readExponentText]
  simp only [bind,Option.bind,Int.sub_add_cancel,Option.some.injEq,Prod.mk.injEq,and_true]
  split
  · rename_i single
    have noPoint := splitNone front
    have whole : (digits.map digit).take 1 = digits.map digit := List.take_of_length_le (by simp [single])
    rw [List.append_nil,noPoint.1,noPoint.2,List.drop_nil,List.append_nil,whole,values]
  · have atPoint := splitAt front ((digits.map digit).drop 1)
    rw [atPoint.1,atPoint.2,List.drop_one,List.tail_cons,List.take_append_drop,values]

theorem readMagnitudeText (point : Int) : readMagnitude (magnitudeText digits point) = some (digits,point) := by
  unfold magnitudeText
  simp only
  split
  · rename_i fits
    exact readInteger valid fits.1
  split
  · rename_i long within
    exact readSplit valid within.1 (by omega)
  split
  · rename_i _ _ small
    exact readSmall valid small.2
  · exact readScientific valid point

end

def isNumberUnit (u : UInt16) : Bool := isDigit u || u = 43 || u = 45 || u = 46 || u = 101

theorem digitIsNumberUnit {u : UInt16} (h : isDigit u = true) : isNumberUnit u = true := by simp [isNumberUnit,h]

theorem exponentUnits (e : Int) : ∀ u ∈ exponentText e, isNumberUnit u = true := by
  intro u mem
  rcases List.mem_cons.mp mem with rfl | digit
  · split <;> decide
  · exact digitIsNumberUnit (paddedDigits _ _ u digit)

theorem magnitudeUnits {digits : List Nat} (valid : Significant digits) (point : Int) :
    ∀ u ∈ magnitudeText digits point, isNumberUnit u = true := by
  have units : ∀ u ∈ digits.map digit, isNumberUnit u = true :=
    fun u mem => digitIsNumberUnit (significantDigits valid u mem)
  have zeros : ∀ k, ∀ u ∈ List.replicate k (48 : UInt16), isNumberUnit u = true := by
    intro k u mem
    rw [List.eq_of_mem_replicate mem]
    decide
  unfold magnitudeText
  simp only
  split
  · exact List.forall_mem_append.mpr ⟨units,zeros _⟩
  split
  · refine List.forall_mem_append.mpr ⟨fun u mem => units u (List.mem_of_mem_take mem),List.forall_mem_cons.mpr ⟨by decide,?_⟩⟩
    exact fun u mem => units u (List.mem_of_mem_drop mem)
  split
  · refine List.forall_mem_cons.mpr ⟨by decide,List.forall_mem_cons.mpr ⟨by decide,?_⟩⟩
    exact List.forall_mem_append.mpr ⟨zeros _,units⟩
  · refine List.forall_mem_append.mpr ⟨List.forall_mem_append.mpr ⟨fun u mem => units u (List.mem_of_mem_take mem),?_⟩,?_⟩
    · split
      · exact fun u mem => (by cases mem)
      · exact List.forall_mem_cons.mpr ⟨by decide,fun u mem => units u (List.mem_of_mem_drop mem)⟩
    · exact List.forall_mem_cons.mpr ⟨by decide,exponentUnits _⟩

theorem magnitudeHead {digits : List Nat} (valid : Significant digits) (point : Int) :
    ∃ u rest, magnitudeText digits point = u :: rest ∧ isDigit u = true := by
  have all := significantDigits valid
  obtain ⟨some,-⟩ := valid
  obtain ⟨d,rest,rfl⟩ := List.exists_cons_of_ne_nil some
  have first := all (digit d) (by simp)
  unfold magnitudeText
  simp only [List.map_cons]
  split
  · exact ⟨digit d,_,rfl,first⟩
  split
  · rename_i within
    obtain ⟨n,count⟩ : ∃ n, point.toNat = n+1 := ⟨point.toNat-1,by omega⟩
    rw [count]
    exact ⟨digit d,_,rfl,first⟩
  split
  · exact ⟨48,_,rfl,by decide⟩
  · exact ⟨digit d,_,rfl,first⟩

namespace JsNumber

theorem units (n : JsNumber) : ∀ u ∈ n.text, isNumberUnit u = true := by
  cases n with
  | zero =>
    intro u mem
    rw [List.mem_singleton.mp mem]
    rfl
  | decimal negative digits point =>
    have magnitude := magnitudeUnits digits.2 point
    unfold text
    simp only
    split
    · exact List.forall_mem_cons.mpr ⟨by decide,magnitude⟩
    · exact magnitude

theorem head (n : JsNumber) : ∃ u rest, n.text = u :: rest ∧ (u = 45 ∨ isDigit u = true) := by
  cases n with
  | zero => exact ⟨48,[],rfl,.inr (by decide)⟩
  | decimal negative digits point =>
    obtain ⟨u,rest,same,first⟩ := magnitudeHead digits.2 point
    unfold text
    simp only
    split
    · exact ⟨45,_,rfl,.inl rfl⟩
    · exact ⟨u,rest,same,.inr first⟩

theorem readText (n : JsNumber) : readNumber n.text = some n := by
  cases n with
  | zero => rfl
  | decimal negative digits point =>
    have read := readMagnitudeText digits.2 point
    obtain ⟨u,rest,same,first⟩ := magnitudeHead digits.2 point
    have notZero : magnitudeText digits point ≠ [48] := by
      intro zero
      rw [zero] at read
      have none : digits.1 = [] := by
        have value : readMagnitude [48] = some ([],1) := by decide
        rw [value] at read
        exact (congrArg Prod.fst (Option.some.inj read)).symm
      exact digits.2.1 none
    unfold readNumber text
    cases negative with
    | true =>
      simp only [if_true,List.head?_cons,List.drop_one,List.tail_cons]
      rw [if_neg (by simp),read]
      simp [digits.2]
    | false =>
      have plain : (magnitudeText digits point).head? ≠ some 45 := by
        rw [same]
        simpa using (digitUnit first).2.1
      simp only [Bool.false_eq_true,if_false]
      rw [if_neg notZero,if_neg plain,read]
      simp [digits.2,plain]

theorem significantOf {n : Nat} (positive : n ≠ 0) :
    Significant ((Nat.digits 10 n).dropWhile (fun d => d = 0)).reverse := by
  have some : (Nat.digits 10 n).dropWhile (fun d => d = 0) ≠ [] := by
    intro none
    have zeros := List.dropWhile_eq_nil_iff.mp none
    have nonempty : Nat.digits 10 n ≠ [] := Nat.digits_ne_nil_iff_ne_zero.mpr positive
    have last := zeros _ (List.getLast_mem nonempty)
    exact Nat.getLast_digit_ne_zero 10 positive (of_decide_eq_true last)
  refine ⟨by simpa using some,?_,?_,?_⟩
  · intro zero
    rw [List.head?_reverse,List.getLast?_eq_some_getLast some,Option.some.injEq] at zero
    have nonempty : Nat.digits 10 n ≠ [] := Nat.digits_ne_nil_iff_ne_zero.mpr positive
    have same : ((Nat.digits 10 n).dropWhile (fun d => d = 0)).getLast some = (Nat.digits 10 n).getLast nonempty :=
      (List.dropWhile_suffix _).getLast some
    rw [same] at zero
    exact Nat.getLast_digit_ne_zero 10 positive zero
  · intro zero
    rw [List.getLast?_reverse] at zero
    have kept := List.head?_dropWhile_not (fun d => decide (d = 0)) (Nat.digits 10 n)
    rw [zero] at kept
    simp at kept
  · intro d mem
    exact Nat.digits_lt_base (by decide) (List.dropWhile_subset _ (List.mem_reverse.mp mem))

def ofNat (negative : Bool) (n : Nat) : JsNumber :=
  if positive : n ≠ 0 then .decimal negative ⟨_,significantOf positive⟩ (Nat.digits 10 n).length else .zero

def ofInt (n : Int) : JsNumber := ofNat (n < 0) n.natAbs

def toInt? : JsNumber → Option Int
  | .zero => some 0
  | .decimal negative digits point =>
      let magnitude := Nat.ofDigits 10 digits.1.reverse*10^(point.toNat - digits.1.length)
      if digits.1.length ≤ point then some (if negative then -magnitude else magnitude) else none

theorem trailingZeros (list : List Nat) :
    Nat.ofDigits 10 (list.dropWhile (fun d => d = 0))*10^(list.length - (list.dropWhile (fun d => d = 0)).length) =
      Nat.ofDigits 10 list := by
  induction list with
  | nil => rfl
  | cons d rest ih =>
    by_cases zero : d = 0
    · have shorter : (rest.dropWhile (fun d => d = 0)).length ≤ rest.length := List.length_dropWhile_le _ _
      rw [List.dropWhile_cons_of_pos (by simpa using zero),Nat.ofDigits_cons,← ih,List.length_cons,
        show rest.length+1-(rest.dropWhile (fun d => d = 0)).length =
          rest.length-(rest.dropWhile (fun d => d = 0)).length+1 by omega,pow_succ,zero]
      ring
    · rw [List.dropWhile_cons_of_neg (by simpa using zero)]
      simp

theorem toIntOfInt (n : Int) : toInt? (ofInt n) = some n := by
  unfold ofInt ofNat
  split
  · rename_i positive
    have fits : ((Nat.digits 10 n.natAbs).dropWhile (fun d => d = 0)).reverse.length ≤ ((Nat.digits 10 n.natAbs).length : Int) := by
      simpa using List.length_dropWhile_le _ _
    simp only [toInt?]
    have whole := trailingZeros (Nat.digits 10 n.natAbs)
    rw [Nat.ofDigits_digits] at whole
    rw [if_pos fits,List.reverse_reverse,List.length_reverse,Int.toNat_natCast]
    norm_cast
    rw [whole]
    simp only [Option.some.injEq,decide_eq_true_eq]
    split <;> omega
  · rename_i zero
    simp only [toInt?,Option.some.injEq]
    omega

theorem ofIntInjective : Function.Injective ofInt := by
  intro a b same
  have read := toIntOfInt a
  rw [same,toIntOfInt b] at read
  exact (Option.some.inj read).symm

end JsNumber

/-! Instants, in milliseconds, and the calendar of ECMAScript: days are counted from
1970, and leap years extend without bound in both directions. -/

def msPerDay : Int := 86400000

def dayFromYear (y : Int) : Int := 365*(y-1970) + (y-1969)/4 - (y-1901)/100 + (y-1601)/400

/-- The year a day lies in: an estimate from the mean length of a year, put right. -/
def yearFromDay (day : Int) : Int :=
  let y := 1970+400*day/146097
  if day < dayFromYear y then y-1 else if dayFromYear (y+1) ≤ day then y+1 else y

theorem yearBounds (day : Int) : dayFromYear (yearFromDay day) ≤ day ∧ day < dayFromYear (yearFromDay day+1) := by
  unfold yearFromDay
  simp only
  split
  · rename_i before
    rw [Int.sub_add_cancel]
    refine ⟨?_,before⟩
    unfold dayFromYear
    omega
  split
  · rename_i after
    refine ⟨after,?_⟩
    unfold dayFromYear
    omega
  · exact ⟨by omega,by omega⟩

def isLeapYear (y : Int) : Bool := y%4 = 0 && (y%100 ≠ 0 || y%400 = 0)

/-- The first day of a month, counted in its year from zero. -/
def monthStart (leap : Bool) (month : Nat) : Int :=
  [0,31,59,90,120,151,181,212,243,273,304,334].getD month 0 + (if leap && 2 ≤ month then 1 else 0)

def monthFromDay (leap : Bool) (day : Int) : Nat :=
  ((List.range 12).reverse.find? (fun month => monthStart leap month ≤ day)).getD 0

def yearText (y : Int) : Utf16 :=
  if 0 ≤ y ∧ y ≤ 9999 then pad 4 y.toNat else (if y < 0 then 45 else 43) :: pad 6 y.natAbs

def isoString (t : Int) : Utf16 :=
  let day := t/msPerDay
  let ms := t%msPerDay
  let y := yearFromDay day
  let month := monthFromDay (isLeapYear y) (day - dayFromYear y)
  let date := day - dayFromYear y - monthStart (isLeapYear y) month + 1
  yearText y ++ 45 :: (pad 2 (month+1) ++ 45 :: (pad 2 date.toNat ++ 84 :: (pad 2 (ms/3600000).toNat ++ 58 ::
    (pad 2 (ms/60000%60).toNat ++ 58 :: (pad 2 (ms/1000%60).toNat ++ 46 :: (pad 3 (ms%1000).toNat ++ [90]))))))

def readYear (text : Utf16) : Option (Int × Utf16) :=
  match text with
  | c :: rest =>
      if c = 45 then (readThen 45 rest).map (fun (n,rest) => (-(n : Int),rest))
      else if c = 43 then (readThen 45 rest).map (fun (n,rest) => ((n : Int),rest))
      else (readThen 45 text).map (fun (n,rest) => ((n : Int),rest))
  | [] => none

/-- Date.parse on what `isoString` writes. -/
def readIso (text : Utf16) : Option Int := do
  let (y,text) ← readYear text
  let (month,text) ← readThen 45 text
  let (date,text) ← readThen 84 text
  let (h,text) ← readThen 58 text
  let (m,text) ← readThen 58 text
  let (s,text) ← readThen 46 text
  let (ms,text) ← readThen 90 text
  if text = [] then
    some ((dayFromYear y + monthStart (isLeapYear y) (month-1) + date - 1)*msPerDay + h*3600000 + m*60000 + s*1000 + ms)
  else none

theorem padSome {width : Nat} (wide : 0 < width) (n : Nat) : pad width n ≠ [] := by
  intro none
  have length := congrArg List.length none
  simp only [pad,List.length_map,List.length_append,List.length_replicate,List.length_nil] at length
  omega

theorem readYearText (y : Int) (rest : Utf16) : readYear (yearText y ++ 45 :: rest) = some (y,rest) := by
  unfold yearText
  split
  · rename_i within
    have read := readPadded (by decide : isDigit 45 = false) 4 y.toNat rest
    obtain ⟨u,tail,same⟩ := List.exists_cons_of_ne_nil (padSome (by decide : 0 < 4) y.toNat)
    have first := (digitUnit (paddedDigits 4 y.toNat u (by rw [same]; exact List.mem_cons_self)))
    rw [same] at read ⊢
    rw [List.cons_append] at read ⊢
    simp only [readYear,first,if_false,read,Option.map_some,Option.some.injEq,Prod.mk.injEq,and_true]
    omega
  · have read := readPadded (by decide : isDigit 45 = false) 6 y.natAbs rest
    rw [List.cons_append]
    simp only [readYear]
    split
    · simp only [if_true,read,Option.map_some,Option.some.injEq,Prod.mk.injEq,and_true]
      omega
    · rw [if_neg (by decide),if_pos rfl,read]
      simp only [Option.map_some,Option.some.injEq,Prod.mk.injEq,and_true]
      omega

theorem monthStartLe (leap : Bool) {day : Int} (start : 0 ≤ day) : monthStart leap (monthFromDay leap day) ≤ day := by
  unfold monthFromDay
  cases found : (List.range 12).reverse.find? (fun month => monthStart leap month ≤ day) with
  | some month =>
    have hit := List.find?_some found
    simpa using hit
  | none => simpa [monthStart] using start

theorem readIsoString (t : Int) : readIso (isoString t) = some t := by
  have bounds := yearBounds (t/msPerDay)
  have start := monthStartLe (isLeapYear (yearFromDay (t/msPerDay)))
    (by omega : 0 ≤ t/msPerDay - dayFromYear (yearFromDay (t/msPerDay)))
  unfold readIso isoString
  simp only [readYearText,bind,Option.bind]
  rw [readPadded (by decide)]
  simp only
  rw [readPadded (by decide)]
  simp only
  rw [readPadded (by decide)]
  simp only
  rw [readPadded (by decide)]
  simp only
  rw [readPadded (by decide)]
  simp only
  rw [readPadded (by decide)]
  simp only [if_true,Option.some.injEq,Nat.add_sub_cancel]
  unfold msPerDay at *
  omega

example : isoString 1787140800000 = ascii "2026-08-19T12:00:00.000Z".toList := by decide +kernel

example : isoString (-62198755200001) = ascii "-000002-12-31T23:59:59.999Z".toList := by decide +kernel

end ESign.JsText
