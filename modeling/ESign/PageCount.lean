import ESign.DisplayName
import ESign.Double
import ESign.GreedyPattern
import ESign.PdfStructure

/-! The page count of an upload, which is read from the bytes and written to a column of
32 bits. -/
namespace ESign
open JsText GreedyPattern

def assertPdfMagicBytes (body : List UInt8) : Except AppError Unit := do
  check (pdfMagic.length ≤ body.length) (.validation [("reason","pdf_magic")])
  check ((List.range pdfMagic.length).all fun index => body[index]? = pdfMagic[index]?)
    (.validation [("reason","pdf_magic")])

def assertUploadSize (body : List UInt8) (maxBytes : Nat) : Except AppError Unit := do
  check (body.length ≠ 0) (.validation [("reason","empty_body")])
  check (body.length ≤ maxBytes) (.validation [("reason","payload_too_large")])

/-- The most that `DOCUMENT_MAX_UPLOAD_BYTES` may be. -/
def largestUpload : Nat := 104857600

def defaultPageCount : Nat := 1

/-- `/\/Type\s*\/Pages[^>]*\/Count\s+(\d+)/` -/
def catalogPattern : List (Piece UInt16) :=
  [.word (utf16 "/Type"),.run isSpaceUnit 0,.word (utf16 "/Pages"),.run (fun u => u ≠ 0x3e) 0,.word (utf16 "/Count"),
    .run isSpaceUnit 1,.run isDigit 1]

/-- `/\/Type\s*\/Page/`, behind which no `s` may stand. -/
def pagePattern : List (Piece UInt16) := [.word (utf16 "/Type"),.run isSpaceUnit 0,.word (utf16 "/Page")]

def notPages (rest : Utf16) : Bool := rest.head? ≠ some 0x73

def catalogCount (text : Utf16) : Option Utf16 :=
  (search (fun _ => true) catalogPattern text).bind (fun found => found.2.getLast?)

def decimalValue (digits : Utf16) : Nat := ofDigits (digits.map digitValue)

/-- `Number.parseInt` of decimal digits; none is `Infinity`, which is no integer. -/
def parseInt (digits : Utf16) : Option Nat := Double.nearest (decimalValue digits)

/-- The number of the catalog if it is one and at least 1, and else what was counted. -/
def catalogOr (counted : Nat) : Option Nat → Nat
  | some parsed => if 1 ≤ parsed then parsed else counted
  | none => counted

def extractPdfPageCount (body : List UInt8) : Nat :=
  let text := latin1 body
  let pageObjects := countMatches notPages pagePattern text
  let counted := if 1 ≤ pageObjects then pageObjects else defaultPageCount
  catalogOr counted ((catalogCount text).bind parseInt)

/-- The digits that the catalog pattern comes to: those behind its leftmost match, whose runs are
as long as the rest of it allows, the earlier ones first. -/
def CatalogCount (text digits : Utf16) : Prop :=
  ∃ start front, First (fun _ => true) catalogPattern text start (front ++ [digits])

theorem catalogCountIff {text digits : Utf16} : catalogCount text = some digits ↔ CatalogCount text digits := by
  rw [catalogCount,Option.bind_eq_some_iff]
  constructor
  · rintro ⟨⟨start,captures⟩,found,last⟩
    obtain ⟨front,rfl⟩ := List.getLast?_eq_some_iff.mp last
    exact ⟨start,front,searchIff.mp found⟩
  · rintro ⟨start,front,first⟩
    exact ⟨⟨start,front ++ [digits]⟩,searchIff.mpr first,List.getLast?_eq_some_iff.mpr ⟨front,rfl⟩⟩

def StorablePageCount (pageCount : Nat) : Prop := 1 ≤ pageCount ∧ pageCount ≤ 2147483647

instance (pageCount : Nat) : Decidable (StorablePageCount pageCount) := inferInstanceAs (Decidable (_ ∧ _))

theorem uploadShort {body : List UInt8} {maxBytes : Nat} (configured : maxBytes ≤ largestUpload)
    (sized : assertUploadSize body maxBytes = .ok ()) : body.length ≤ largestUpload := by
  have fits := (thenOk.mp sized).2
  rw [checkOk,decide_eq_true_eq] at fits
  exact fits.trans configured

theorem countedStorable {body : List UInt8} (short : body.length ≤ largestUpload) :
    StorablePageCount (if 1 ≤ countMatches notPages pagePattern (latin1 body)
      then countMatches notPages pagePattern (latin1 body) else defaultPageCount) := by
  have bound : countMatches notPages pagePattern (latin1 body) ≤ body.length :=
    (countBound _).trans (by rw [latin1,List.length_map])
  unfold largestUpload at short
  split
  · exact ⟨‹_›,by omega⟩
  · exact ⟨by decide,by decide⟩

theorem parsedStorable {digits : Utf16} {counted : Nat} (fallback : StorablePageCount counted) :
    StorablePageCount (catalogOr counted (parseInt digits)) ↔
      decimalValue digits < 2^31 ∨ Double.beyond - Double.lastHalf ≤ decimalValue digits := by
  rcases Nat.lt_or_ge (decimalValue digits) (2^31) with small | large
  · rw [parseInt,Double.nearestSmall (small.trans (by decide))]
    refine iff_of_true ?_ (.inl small)
    rw [catalogOr]
    split
    · exact ⟨‹_›,by omega⟩
    · exact fallback
  · cases parsed : parseInt digits with
    | none => exact iff_of_true fallback (.inr (Double.nearestNone.mp parsed))
    | some value =>
      have above := Double.nearestFrom large parsed
      refine iff_of_false (fun storable => ?_) ?_
      · have kept := storable.2
        rw [catalogOr,if_pos (by omega)] at kept
        omega
      · rintro (less | beyond)
        · omega
        · rw [parseInt,Double.nearestNone.mpr beyond] at parsed
          cases parsed

/-- An upload that was accepted has a page count for the column, if and only if the number in its
catalog, where it has one, stays below `2^31` or is so large that it is read as `Infinity`. -/
theorem pageCountStorableIff (body : List UInt8) (maxBytes : Nat) (configured : maxBytes ≤ largestUpload)
    (sized : assertUploadSize body maxBytes = .ok ()) (_magic : assertPdfMagicBytes body = .ok ()) :
    StorablePageCount (extractPdfPageCount body) ↔ ∀ digits, CatalogCount (latin1 body) digits →
      decimalValue digits < 2^31 ∨ Double.beyond - Double.lastHalf ≤ decimalValue digits := by
  have counted := countedStorable (uploadShort configured sized)
  unfold extractPdfPageCount
  dsimp only
  cases found : catalogCount (latin1 body) with
  | none =>
    refine iff_of_true counted fun digits catalog => ?_
    rw [catalogCountIff.mpr catalog] at found
    cases found
  | some digits =>
    rw [Option.bind_some,parsedStorable counted]
    refine ⟨fun bounded other catalog => ?_,fun bounded => ?_⟩
    · rw [catalogCountIff.mpr catalog] at found
      cases found
      exact bounded
    · exact bounded digits (catalogCountIff.mp found)

namespace LargeCount

def body : List UInt8 := "%PDF-1.4 <</Type /Pages /Count 2147483648>> %%EOF".toByteArray.data.toList

theorem overflows : ¬ ∀ (body : List UInt8) (maxBytes : Nat), maxBytes ≤ largestUpload →
    assertUploadSize body maxBytes = .ok () → assertPdfMagicBytes body = .ok () →
      StorablePageCount (extractPdfPageCount body) := by
  intro claim
  have storable := claim body 26214400 (by decide) (by decide +kernel) (by decide +kernel)
  have parsed : extractPdfPageCount body = 2147483648 := by decide +kernel
  rw [parsed] at storable
  exact absurd storable (by decide)

theorem judged : StorablePageCount (extractPdfPageCount body) ↔ ∀ digits, CatalogCount (latin1 body) digits →
    decimalValue digits < 2^31 ∨ Double.beyond - Double.lastHalf ≤ decimalValue digits :=
  pageCountStorableIff body 26214400 (by decide) (by decide +kernel) (by decide +kernel)

end LargeCount

end ESign
