import ESign.AuditCanonical

/-! The structural inspection of an uploaded PDF: how it scans the bytes, which names it
denies, and what a name may be spelled like. -/
namespace ESign

open JsText

/-! Scanning. -/

def pdfContentType : Utf16 := utf16 "application/pdf"

/-- `%PDF-` -/
def pdfMagic : List UInt8 := [0x25,0x50,0x44,0x46,0x2d]

def maxLeadingWhitespace : Nat := 1024

def eofTailBytes : Nat := 2048

def isPdfWhitespace (byte : UInt8) : Bool :=
  byte = 0x00 || byte = 0x09 || byte = 0x0a || byte = 0x0c || byte = 0x0d || byte = 0x20

def matchesMagicAt (body : List UInt8) (offset : Nat) : Bool :=
  offset + pdfMagic.length ≤ body.length &&
    (List.range pdfMagic.length).all fun index => body[offset+index]? = pdfMagic[index]?

/-- The loop of `findPdfMagicOffset`, from an index on. -/
def magicFrom (body : List UInt8) (index : Nat) : Option Nat :=
  if index < body.length ∧ index < maxLeadingWhitespace then
    match body[index]? with
    | none => none
    | some byte =>
      if matchesMagicAt body index then some index
      else if isPdfWhitespace byte then magicFrom body (index+1) else none
  else if matchesMagicAt body index then some index else none
termination_by maxLeadingWhitespace - index

def findPdfMagicOffset (body : List UInt8) : Option Nat := magicFrom body 0

def latin1Slice (body : List UInt8) (start stop : Nat) : Utf16 := ((body.take stop).drop start).map UInt8.toUInt16

def hasEofMarker (body : List UInt8) : Bool :=
  utf16 "%%EOF" <:+: latin1Slice body (body.length-eofTailBytes) body.length

/-- Where the token stands next, from `start` on. -/
def indexOf (haystack token : Utf16) (start : Nat) : Option Nat :=
  (List.range (haystack.length+1)).find? fun place => start ≤ place && token.isPrefixOf (haystack.drop place)

/-- The end of the text, white space or a control, or one of `()<>[]{}/%`. -/
def nameEnds : Option UInt16 → Bool
  | none => true
  | some after => after ≤ 0x20 || after = 0x28 || after = 0x29 || after = 0x3c || after = 0x3e || after = 0x5b ||
      after = 0x5d || after = 0x7b || after = 0x7d || after = 0x2f || after = 0x25

theorem indexOfFound {haystack token : Utf16} {start place : Nat} (found : indexOf haystack token start = some place) :
    start ≤ place ∧ token <+: haystack.drop place ∧
      ∀ earlier, start ≤ earlier → earlier < place → ¬ token <+: haystack.drop earlier := by
  unfold indexOf at found
  rw [List.find?_range_eq_some] at found
  obtain ⟨stands,-,before⟩ := found
  rw [Bool.and_eq_true,decide_eq_true_eq,List.isPrefixOf_iff_prefix] at stands
  refine ⟨stands.1,stands.2,?_⟩
  intro earlier since less held
  have misses := before earlier less
  rw [← List.isPrefixOf_iff_prefix] at held
  simp [since,held] at misses

theorem indexOfNone {haystack token : Utf16} {start : Nat} (some : token ≠ []) (missing : indexOf haystack token start = none)
    {place : Nat} (later : start ≤ place) : ¬ token <+: haystack.drop place := by
  intro held
  unfold indexOf at missing
  rw [List.find?_range_eq_none] at missing
  by_cases inside : place < haystack.length+1
  · have misses := missing place inside
    rw [← List.isPrefixOf_iff_prefix] at held
    simp [later,held] at misses
  · rw [List.drop_eq_nil_of_le (by omega)] at held
    exact some (List.prefix_nil.mp held)

/-- The loop of `includesPdfName`, from a position on. -/
def includesFrom (haystack name : Utf16) (start : Nat) : Bool :=
  if start < haystack.length then
    match found : indexOf haystack (0x2f :: name) start with
    | none => false
    | some place =>
      if nameEnds haystack[place+(name.length+1)]? then true
      else includesFrom haystack name (place+(name.length+1))
  else false
termination_by haystack.length - start
decreasing_by
  have := (indexOfFound found).1
  omega

def includesPdfName (haystack name : Utf16) : Bool := includesFrom haystack name 0

/-- A slash and the name stand at the place, and the name ends behind it. -/
def NamedAt (haystack name : Utf16) (place : Nat) : Prop :=
  0x2f :: name <+: haystack.drop place ∧ nameEnds haystack[place+(name.length+1)]? = true

theorem namedApart {haystack name : Utf16} (whole : 0x2f ∉ name) {place later : Nat}
    (first : 0x2f :: name <+: haystack.drop place) (second : 0x2f :: name <+: haystack.drop later) (after : place < later) :
    place+(name.length+1) ≤ later := by
  obtain ⟨gap,rfl⟩ := Nat.exists_eq_add_of_lt after
  by_contra inside
  have short : gap < name.length := by omega
  have slash : haystack[place+gap+1]? = some 0x2f := by
    have head := List.prefix_iff_getElem?.mp second 0 (by simp)
    simpa using head
  have letter : haystack[place+gap+1]? = some name[gap] := by
    have inner := List.prefix_iff_getElem?.mp first (gap+1) (by simpa using short)
    rw [List.getElem?_drop] at inner
    simpa [Nat.add_assoc] using inner
  rw [slash] at letter
  exact whole (Option.some.inj letter ▸ List.getElem_mem short)

theorem includesFromIff {haystack name : Utf16} (whole : 0x2f ∉ name) (start : Nat) :
    includesFrom haystack name start = true ↔ ∃ place, start ≤ place ∧ NamedAt haystack name place := by
  fun_induction includesFrom haystack name start with
  | case1 start inside missing =>
    simp only [Bool.false_eq_true,false_iff]
    rintro ⟨place,later,held,-⟩
    exact indexOfNone (by simp) missing later held
  | case2 start inside place found ends =>
    obtain ⟨later,held,-⟩ := indexOfFound found
    simp only [true_iff]
    exact ⟨place,later,held,ends⟩
  | case3 start inside place found runs rest =>
    obtain ⟨later,held,first⟩ := indexOfFound found
    rw [rest]
    constructor
    · rintro ⟨next,beyond,named⟩
      exact ⟨next,by omega,named⟩
    · rintro ⟨next,since,named⟩
      refine ⟨next,?_,named⟩
      have notBefore : ¬ next < place := fun before => first next since before named.1
      have notHere : next ≠ place := by
        rintro rfl
        exact runs named.2
      exact namedApart whole held named.1 (by omega)
  | case4 start outside =>
    simp only [Bool.false_eq_true,false_iff]
    rintro ⟨place,later,held,-⟩
    rw [List.drop_eq_nil_of_le (by omega)] at held
    exact absurd (List.prefix_nil.mp held) (by simp)

theorem includesPdfNameIff {haystack name : Utf16} (whole : 0x2f ∉ name) :
    includesPdfName haystack name = true ↔
      ∃ before after, haystack = before ++ 0x2f :: (name ++ after) ∧ nameEnds after.head? = true := by
  unfold includesPdfName
  rw [includesFromIff whole]
  constructor
  · rintro ⟨place,-,⟨after,held⟩,ends⟩
    refine ⟨haystack.take place,after,?_,?_⟩
    · rw [← List.cons_append,held,List.take_append_drop]
    · rw [List.head?_eq_getElem?]
      have next : haystack[place+(name.length+1)]? = after[0]? := by
        rw [← List.getElem?_drop,← held,List.getElem?_append_right (by simp)]
        simp
      rwa [← next]
  · rintro ⟨before,after,rfl,ends⟩
    refine ⟨before.length,Nat.zero_le _,?_,?_⟩
    · rw [List.drop_left]
      exact ⟨after,rfl⟩
    · rw [List.getElem?_append_right (by omega),← List.cons_append,
        List.getElem?_append_right (by simp)]
      simpa [List.head?_eq_getElem?] using ends

/-! What the two scans find. -/

theorem matchesMagicIff {body : List UInt8} {offset : Nat} :
    matchesMagicAt body offset = true ↔ pdfMagic <+: body.drop offset := by
  rw [matchesMagicAt,Bool.and_eq_true,decide_eq_true_eq,List.all_eq_true,List.prefix_iff_getElem?]
  simp only [decide_eq_true_eq,List.mem_range,List.getElem?_drop]
  constructor
  · rintro ⟨-,same⟩ index inside
    rw [same index inside,List.getElem?_eq_getElem inside]
  · intro same
    have last := same 4 (by decide)
    obtain ⟨inside,-⟩ := List.getElem?_eq_some_iff.mp last
    refine ⟨inside,fun index within => ?_⟩
    rw [same index within,List.getElem?_eq_getElem within]

theorem magicFirst {body : List UInt8} {offset : Nat} (magic : pdfMagic <+: body.drop offset) :
    body[offset]? = some 0x25 := by
  have first := List.prefix_iff_getElem?.mp magic 0 (by decide)
  rwa [List.getElem?_drop] at first

/-- The header stands at the offset, behind nothing but white space that is looked at
from `start` on. -/
structure HeaderFrom (body : List UInt8) (start offset : Nat) : Prop where
  later : start ≤ offset
  near : offset ≤ maxLeadingWhitespace
  magic : pdfMagic <+: body.drop offset
  blank : ∀ place byte, start ≤ place → place < offset → body[place]? = some byte → isPdfWhitespace byte = true

theorem HeaderFrom.here {body : List UInt8} {start : Nat} (near : start ≤ maxLeadingWhitespace)
    (magic : pdfMagic <+: body.drop start) : HeaderFrom body start start :=
  ⟨le_refl _,near,magic,fun place _ since before => absurd before (by omega)⟩

theorem HeaderFrom.unique {body : List UInt8} {start first second : Nat} (one : HeaderFrom body start first)
    (other : HeaderFrom body start second) : first = second := by
  rcases Nat.lt_trichotomy first second with less | same | more
  · exact absurd (other.blank first 0x25 one.later less (magicFirst one.magic)) (by decide)
  · exact same
  · exact absurd (one.blank second 0x25 other.later more (magicFirst other.magic)) (by decide)

theorem HeaderFrom.next {body : List UInt8} {index offset : Nat} (misses : ¬ pdfMagic <+: body.drop index)
    {byte : UInt8} (here : body[index]? = some byte) :
    HeaderFrom body index offset ↔ isPdfWhitespace byte = true ∧ HeaderFrom body (index+1) offset := by
  constructor
  · intro header
    have further : index < offset := by
      refine lt_of_le_of_ne header.later ?_
      rintro rfl
      exact misses header.magic
    exact ⟨header.blank index byte (le_refl _) further here,further,header.near,header.magic,
      fun place byte since => header.blank place byte (by omega)⟩
  · rintro ⟨blank,header⟩
    have further := header.later
    refine ⟨by omega,header.near,header.magic,fun place other since before found => ?_⟩
    by_cases same : place = index
    · rw [same,here] at found
      cases found
      exact blank
    · exact header.blank place other (by omega) before found

theorem magicFromIff {body : List UInt8} (index : Nat) (start : index ≤ maxLeadingWhitespace) (offset : Nat) :
    magicFrom body index = some offset ↔ HeaderFrom body index offset := by
  fun_induction magicFrom body index with
  | case1 index inside none_ =>
    rw [List.getElem?_eq_none_iff] at none_
    omega
  | case2 index inside byte here found =>
    have header := HeaderFrom.here start (matchesMagicIff.mp found)
    exact ⟨fun same => Option.some.inj same ▸ header,fun other => by rw [header.unique other]⟩
  | case3 index inside byte here misses blank rest =>
    rw [rest (by omega),HeaderFrom.next (fun magic => misses (matchesMagicIff.mpr magic)) here]
    exact (and_iff_right blank).symm
  | case4 index inside byte here misses dark =>
    rw [HeaderFrom.next (fun magic => misses (matchesMagicIff.mpr magic)) here]
    exact ⟨fun none_ => (nomatch none_),fun ⟨blank,_⟩ => absurd blank dark⟩
  | case5 index outside found =>
    have header := HeaderFrom.here start (matchesMagicIff.mp found)
    exact ⟨fun same => Option.some.inj same ▸ header,fun other => by rw [header.unique other]⟩
  | case6 index outside misses =>
    -- the loop has ended at the last place a header may have, or at the end of the body
    refine ⟨fun none_ => (nomatch none_),fun header => ?_⟩
    obtain ⟨inside,-⟩ := List.getElem?_eq_some_iff.mp (magicFirst header.magic)
    have near := header.near
    have later := header.later
    have same : index = offset := by omega
    subst same
    exact absurd (matchesMagicIff.mpr header.magic) misses

def pdfDelimiters : Utf16 := utf16 "()<>[]\x7b\x7d/%"

theorem nameEndsIff {after : Utf16} : nameEnds after.head? = true ↔
    after = [] ∨ ∃ unit rest, after = unit :: rest ∧ (unit ≤ 0x20 ∨ unit ∈ pdfDelimiters) := by
  have delimiters : pdfDelimiters = [0x28,0x29,0x3c,0x3e,0x5b,0x5d,0x7b,0x7d,0x2f,0x25] := by decide +kernel
  cases after with
  | nil => simp [nameEnds]
  | cons unit rest => simp [nameEnds,delimiters,or_assoc]

/-- The header stands at the offset, behind white space only and not too far in. -/
structure Header (body : List UInt8) (offset : Nat) : Prop where
  near : offset ≤ 1024
  magic : pdfMagic <+: body.drop offset
  blank : ∀ byte ∈ body.take offset, isPdfWhitespace byte = true

theorem headerIff {body : List UInt8} {offset : Nat} : HeaderFrom body 0 offset ↔ Header body offset := by
  constructor
  · intro header
    refine ⟨header.near,header.magic,fun byte mem => ?_⟩
    obtain ⟨place,inside,rfl⟩ := List.getElem_of_mem mem
    rw [List.length_take,lt_min_iff] at inside
    refine header.blank place _ (Nat.zero_le _) inside.1 ?_
    rw [List.getElem_take,List.getElem?_eq_getElem inside.2]
  · intro header
    refine ⟨Nat.zero_le _,header.near,header.magic,fun place byte _ before found => header.blank byte ?_⟩
    exact List.mem_of_getElem? ((List.getElem?_take_of_lt before).trans found)

/-- The header is found exactly where it stands behind white space, at one place at
most; a name is found exactly where it stands behind a slash and ends. -/
theorem scansExact :
    (∀ (body : List UInt8) (n : Nat), findPdfMagicOffset body = some n ↔ Header body n) ∧
    (∀ (body : List UInt8) (n m : Nat), Header body n → Header body m → n = m) ∧
    ∀ haystack name : Utf16, 0x2f ∉ name → (includesPdfName haystack name = true ↔
      ∃ before after, haystack = before ++ 0x2f :: (name ++ after) ∧
        (after = [] ∨ ∃ unit rest, after = unit :: rest ∧ (unit ≤ 0x20 ∨ unit ∈ pdfDelimiters))) := by
  refine ⟨fun body n => ?_,fun body n m one other => ?_,fun haystack name whole => ?_⟩
  · exact (magicFromIff 0 (Nat.zero_le _) n).trans headerIff
  · exact (headerIff.mpr one).unique (headerIff.mpr other)
  · rw [includesPdfNameIff whole]
    simp only [nameEndsIff]

/-! The inspection. -/

structure ForbiddenNameCheck where
  reasonCode : Utf16
  names : List Utf16
  spellings : List Utf16
  deriving DecidableEq, Repr

def ForbiddenNameCheck.matchesText (check : ForbiddenNameCheck) (latin1 : Utf16) : Bool :=
  check.names.any (includesPdfName latin1) || check.spellings.any (· <:+: latin1)

/-- `JavaScript` with every letter escaped; the one hex digit that is a letter has two cases. -/
def escapedJavaScript : List Utf16 :=
  [utf16 "/#4A#61#76#61#53#63#72#69#70#74",utf16 "/#4a#61#76#61#53#63#72#69#70#74"]

def forbiddenNameChecks : List ForbiddenNameCheck :=
  [⟨utf16 "pdf_javascript",[utf16 "JavaScript",utf16 "JS"],escapedJavaScript⟩,
    ⟨utf16 "pdf_open_action",[utf16 "OpenAction"],[]⟩,
    ⟨utf16 "pdf_aa",[utf16 "AA"],[]⟩,
    ⟨utf16 "pdf_launch",[utf16 "Launch"],[]⟩,
    ⟨utf16 "pdf_embedded_file",[utf16 "EmbeddedFile",utf16 "EmbeddedFiles"],[]⟩,
    ⟨utf16 "pdf_rich_media",[utf16 "RichMedia"],[]⟩,
    ⟨utf16 "pdf_xfa",[utf16 "XFA"],[]⟩,
    ⟨utf16 "pdf_submit_form",[utf16 "SubmitForm"],[]⟩,
    ⟨utf16 "pdf_import_data",[utf16 "ImportData"],[]⟩,
    ⟨utf16 "pdf_goto_remote",[utf16 "GoToR"],[]⟩,
    ⟨utf16 "pdf_encrypt",[utf16 "Encrypt"],[]⟩]

def forbiddenNames : List Utf16 := forbiddenNameChecks.flatMap (·.names)

inductive DocumentInspectionOutcome
  | accepted
  | rejected (reasonCode : Utf16)
  deriving DecidableEq, Repr

def inspectPdfStructure (contentType : Utf16) (body : List UInt8) : DocumentInspectionOutcome :=
  if contentType ≠ pdfContentType then .rejected (utf16 "not_pdf")
  else if findPdfMagicOffset body = none then .rejected (utf16 "not_pdf")
  else if hasEofMarker body = false then .rejected (utf16 "pdf_missing_eof")
  else
    match forbiddenNameChecks.find? (·.matchesText (latin1Slice body 0 body.length)) with
    | some check => .rejected check.reasonCode
    | none => .accepted

def latin1 (body : List UInt8) : Utf16 := body.map UInt8.toUInt16

theorem wholeSlice {body : List UInt8} : latin1Slice body 0 body.length = latin1 body := by
  simp [latin1Slice,latin1]

theorem forbiddenWhole : forbiddenNames.all (fun name => !name.contains 0x2f) = true := by decide +kernel

theorem forbiddenPlain {name : Utf16} (forbidden : name ∈ forbiddenNames) : 0x2f ∉ name := by
  have plain := List.all_eq_true.mp forbiddenWhole name forbidden
  simpa using plain

theorem spellingsOf {spelling : Utf16} :
    (∃ check ∈ forbiddenNameChecks, spelling ∈ check.spellings) ↔ spelling ∈ escapedJavaScript := by
  simp [forbiddenNameChecks]

theorem acceptedIff {body : List UInt8} :
    inspectPdfStructure pdfContentType body = .accepted ↔
      findPdfMagicOffset body ≠ none ∧ hasEofMarker body = true ∧
      (∀ name ∈ forbiddenNames, includesPdfName (latin1 body) name = false) ∧
      ∀ spelling ∈ escapedJavaScript, ¬ spelling <:+: latin1 body := by
  unfold inspectPdfStructure
  rw [if_neg (by simp),wholeSlice]
  by_cases magic : findPdfMagicOffset body = none
  · simp [magic]
  by_cases marker : hasEofMarker body = false
  · simp [magic,marker]
  rw [if_neg magic,if_neg marker]
  have clean : forbiddenNameChecks.find? (·.matchesText (latin1 body)) = none ↔
      (∀ name ∈ forbiddenNames, includesPdfName (latin1 body) name = false) ∧
      ∀ spelling ∈ escapedJavaScript, ¬ spelling <:+: latin1 body := by
    rw [List.find?_eq_none]
    simp only [ForbiddenNameCheck.matchesText,Bool.or_eq_true,List.any_eq_true,decide_eq_true_eq,not_or,not_exists,not_and,
      Bool.not_eq_true]
    constructor
    · intro clear
      constructor
      · intro name forbidden
        obtain ⟨check,listed,named⟩ := List.mem_flatMap.mp forbidden
        exact (clear check listed).1 name named
      · intro spelling fixed
        obtain ⟨check,listed,spelled⟩ := spellingsOf.mpr fixed
        exact (clear check listed).2 spelling spelled
    · rintro ⟨names,spellings⟩ check listed
      exact ⟨fun name named => names name (List.mem_flatMap.mpr ⟨check,listed,named⟩),
        fun spelling spelled => spellings spelling (spellingsOf.mp ⟨check,listed,spelled⟩)⟩
  cases found : forbiddenNameChecks.find? (·.matchesText (latin1 body)) with
  | none => simpa [magic,marker] using clean.mp found
  | some check =>
    simp only [reduceCtorEq,false_iff]
    rintro ⟨-,-,both⟩
    rw [clean.mpr both] at found
    cases found

/-! What a name may be spelled like. -/

def hexOf (unit : UInt16) : Option Nat :=
  if 48 ≤ unit.toNat ∧ unit.toNat ≤ 57 then some (unit.toNat - 48)
  else if 65 ≤ unit.toNat ∧ unit.toNat ≤ 70 then some (unit.toNat - 55)
  else if 97 ≤ unit.toNat ∧ unit.toNat ≤ 102 then some (unit.toNat - 87)
  else none

def isRegular (unit : UInt16) : Bool :=
  !(unit = 0x00 || unit = 0x09 || unit = 0x0a || unit = 0x0c || unit = 0x0d || unit = 0x20 || unit = 0x28 || unit = 0x29 ||
    unit = 0x3c || unit = 0x3e || unit = 0x5b || unit = 0x5d || unit = 0x7b || unit = 0x7d || unit = 0x2f || unit = 0x25)

/-- The text has the token behind a slash, as far as its regular characters go. -/
def NameToken (text token : Utf16) : Prop :=
  ∃ before after, text = before ++ 0x2f :: (token ++ after) ∧ token.all isRegular = true ∧
    ∀ next, after.head? = some next → isRegular next = false

/-- The token stands for the name, with any of its characters written as `#` and two hex digits. -/
inductive Spells : Utf16 → Utf16 → Prop
  | nil : Spells [] []
  | plain {unit token name} (rest : Spells token name) : Spells (unit :: token) (unit :: name)
  | escaped {high low h l token name} (first : hexOf high = some h) (second : hexOf low = some l)
      (rest : Spells token name) : Spells (0x23 :: high :: low :: token) (UInt16.ofNat (16*h+l) :: name)

inductive Escapes : Utf16 → Utf16 → Prop
  | nil : Escapes [] []
  | escaped {high low h l token name} (first : hexOf high = some h) (second : hexOf low = some l)
      (rest : Escapes token name) : Escapes (0x23 :: high :: low :: token) (UInt16.ofNat (16*h+l) :: name)

theorem irregularEnds {unit : UInt16} (irregular : isRegular unit = false) : nameEnds (some unit) = true := by
  simp only [isRegular,Bool.not_eq_false',Bool.or_eq_true,decide_eq_true_eq] at irregular
  rcases irregular with
    ((((((((((((((rfl | rfl) | rfl) | rfl) | rfl) | rfl) | rfl) | rfl) | rfl) | rfl) | rfl) | rfl) | rfl) | rfl) | rfl) | rfl <;>
    decide

theorem tokenFound {text name : Utf16} (whole : 0x2f ∉ name) (token : NameToken text name) :
    includesPdfName text name = true := by
  obtain ⟨before,after,rfl,-,ends⟩ := token
  refine (includesPdfNameIff whole).mpr ⟨before,after,rfl,?_⟩
  cases next : after.head? with
  | none => rfl
  | some unit => exact irregularEnds (ends unit next)

/-! An escaped character has its two digits, each in either case. -/

theorem digitOf {unit : UInt16} {n : Nat} (digit : hexOf unit = some n) (decimal : n < 10) : unit = UInt16.ofNat (48+n) := by
  unfold hexOf at digit
  split_ifs at digit <;> cases digit
  · apply UInt16.toNat_inj.mp
    simp only [UInt16.toNat_ofNat']
    omega
  · omega
  · omega

theorem letterOf {unit : UInt16} {n : Nat} (digit : hexOf unit = some n) (letter : 10 ≤ n) :
    unit = UInt16.ofNat (55+n) ∨ unit = UInt16.ofNat (87+n) := by
  unfold hexOf at digit
  split_ifs at digit <;> cases digit
  · omega
  · left
    apply UInt16.toNat_inj.mp
    simp only [UInt16.toNat_ofNat']
    omega
  · right
    apply UInt16.toNat_inj.mp
    simp only [UInt16.toNat_ofNat']
    omega

theorem hexSmall {unit : UInt16} {n : Nat} (digit : hexOf unit = some n) : n < 16 := by
  unfold hexOf at digit
  split_ifs at digit <;> cases digit <;> omega

theorem escapesCons {token name : Utf16} {unit : UInt16} (escapes : Escapes token (unit :: name)) :
    ∃ high low rest, token = 0x23 :: high :: low :: rest ∧ hexOf high = some (unit.toNat/16) ∧
      hexOf low = some (unit.toNat%16) ∧ Escapes rest name := by
  generalize whole : unit :: name = written at escapes
  cases escapes with
  | nil => cases whole
  | @escaped high low h l token name' first second rest =>
    cases whole
    have small := hexSmall first
    have small' := hexSmall second
    refine ⟨high,low,token,rfl,?_,?_,rest⟩
    · rw [first,UInt16.toNat_ofNat']
      congr 1
      omega
    · rw [second,UInt16.toNat_ofNat']
      congr 1
      omega

def isDecimalCode (unit : UInt16) : Bool := unit.toNat/16 < 10 && unit.toNat%16 < 10

/-- The one way to escape a character whose digits are both decimal. -/
def decimalEscape (unit : UInt16) : Utf16 :=
  [0x23,UInt16.ofNat (48+unit.toNat/16),UInt16.ofNat (48+unit.toNat%16)]

theorem escapesDecimal {token name : Utf16} (decimal : name.all isDecimalCode = true) (escapes : Escapes token name) :
    token = name.flatMap decimalEscape := by
  induction name generalizing token with
  | nil =>
    cases escapes
    rfl
  | cons unit name rest =>
    rw [List.all_cons,Bool.and_eq_true,isDecimalCode,Bool.and_eq_true,decide_eq_true_eq,decide_eq_true_eq] at decimal
    obtain ⟨high,low,token,rfl,first,second,later⟩ := escapesCons escapes
    rw [digitOf first decimal.1.1,digitOf second decimal.1.2,rest decimal.2 later]
    rfl

theorem escapesJavaScript {token : Utf16} (escapes : Escapes token (utf16 "JavaScript")) :
    0x2f :: token ∈ escapedJavaScript := by
  have letters : utf16 "JavaScript" = 0x4a :: utf16 "avaScript" := by decide +kernel
  have decimal : (utf16 "avaScript").all isDecimalCode = true := by decide +kernel
  have fixed : ∀ letter, letter = 0x41 ∨ letter = 0x61 →
      0x2f :: 0x23 :: 0x34 :: letter :: (utf16 "avaScript").flatMap decimalEscape ∈ escapedJavaScript := by
    rintro letter (rfl | rfl) <;> decide +kernel
  rw [letters] at escapes
  obtain ⟨high,low,rest,rfl,first,second,later⟩ := escapesCons escapes
  rw [digitOf first (by decide),escapesDecimal decimal later]
  exact fixed low (letterOf second (by decide))

/-! What the inspection answers for a PDF. -/

/- A name that is written out is denied, and so is `JavaScript` when it is escaped throughout;
any other spelling is none the inspection looks for. -/
theorem namesDenied {body : List UInt8} :
    ((∃ token, NameToken (latin1 body) token ∧ (token ∈ forbiddenNames ∨ Escapes token (utf16 "JavaScript"))) →
      ∃ reasonCode, inspectPdfStructure pdfContentType body = .rejected reasonCode) ∧
    (inspectPdfStructure pdfContentType body = .accepted ↔
      findPdfMagicOffset body ≠ none ∧ hasEofMarker body = true ∧
      (∀ name ∈ forbiddenNames, ¬ ∃ before after,
        latin1 body = before ++ 0x2f :: (name ++ after) ∧ nameEnds after.head? = true) ∧
      ∀ spelling ∈ escapedJavaScript, ¬ spelling <:+: latin1 body) := by
  constructor
  · rintro ⟨token,stands,spelled⟩
    cases answer : inspectPdfStructure pdfContentType body with
    | rejected reasonCode => exact ⟨reasonCode,rfl⟩
    | accepted =>
      obtain ⟨-,-,names,spellings⟩ := acceptedIff.mp answer
      rcases spelled with forbidden | escaped
      · have clear := names token forbidden
        rw [tokenFound (forbiddenPlain forbidden) stands] at clear
        cases clear
      · obtain ⟨before,after,text,-⟩ := stands
        refine absurd ?_ (spellings _ (escapesJavaScript escaped))
        exact ⟨before,after,by rw [text]; simp⟩
  · have named : ∀ name ∈ forbiddenNames, includesPdfName (latin1 body) name = false ↔
        ¬ ∃ before after, latin1 body = before ++ 0x2f :: (name ++ after) ∧ nameEnds after.head? = true := by
      intro name forbidden
      rw [← includesPdfNameIff (forbiddenPlain forbidden),Bool.not_eq_true]
    rw [acceptedIff]
    refine and_congr_right fun _ => and_congr_right fun _ => and_congr_left fun _ => ?_
    exact forall₂_congr named

/-! A run: a name with one letter escaped. -/

namespace EscapedName

/-- `%PDF-1.4 /J#53 1 %%EOF` -/
def body : List UInt8 := "%PDF-1.4 /J#53 1 %%EOF".toByteArray.data.toList

theorem token : NameToken (latin1 body) (utf16 "J#53") :=
  ⟨utf16 "%PDF-1.4 ",utf16 " 1 %%EOF",by decide +kernel,by decide +kernel,by
    intro next first
    have blank : (utf16 " 1 %%EOF").head? = some 0x20 := by decide +kernel
    rw [blank] at first
    cases first
    rfl⟩

theorem spelled : Spells (utf16 "J#53") (utf16 "JS") := by
  have written : utf16 "J#53" = [0x4a,0x23,0x35,0x33] ∧ utf16 "JS" = [0x4a,0x53] := by decide +kernel
  rw [written.1,written.2]
  exact .plain (.escaped (h := 5) (l := 3) rfl rfl .nil)

theorem absent {haystack name : Utf16} (whole : 0x2f ∉ name)
    (clear : haystack.tails.all (fun rest => !(0x2f :: name).isPrefixOf rest) = true) :
    includesPdfName haystack name = false := by
  rw [← Bool.not_eq_true,includesPdfNameIff whole]
  rintro ⟨before,after,rfl,-⟩
  have misses := List.all_eq_true.mp clear (0x2f :: (name ++ after)) (by simp [List.mem_tails])
  rw [Bool.not_eq_true',← Bool.not_eq_true,List.isPrefixOf_iff_prefix] at misses
  exact misses ⟨after,rfl⟩

theorem accepted :
    NameToken (latin1 body) (utf16 "J#53") ∧ Spells (utf16 "J#53") (utf16 "JS") ∧ utf16 "JS" ∈ forbiddenNames ∧
    inspectPdfStructure pdfContentType body = .accepted := by
  refine ⟨token,spelled,by decide +kernel,acceptedIff.mpr ⟨?_,by decide +kernel,?_,?_⟩⟩
  · have magic : matchesMagicAt body 0 = true := by decide +kernel
    have first : body[0]? = some 0x25 := by decide +kernel
    have length : body.length = 22 := by decide +kernel
    unfold findPdfMagicOffset
    rw [magicFrom,if_pos ⟨by rw [length]; decide,by decide⟩,first]
    simp [magic]
  · intro name forbidden
    have clear : forbiddenNames.all (fun name =>
        (latin1 body).tails.all fun rest => !(0x2f :: name).isPrefixOf rest) = true := by decide +kernel
    exact absent (forbiddenPlain forbidden) (List.all_eq_true.mp clear name forbidden)
  · have clear : escapedJavaScript.all (fun spelling => !decide (spelling <:+: latin1 body)) = true := by decide +kernel
    intro spelling fixed
    simpa using List.all_eq_true.mp clear spelling fixed

end EscapedName

end ESign
