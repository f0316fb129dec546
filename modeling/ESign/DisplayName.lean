import ESign.AuditPayload
import ESign.UseCases
import Mathlib.Data.List.DropRight

/-! The display name of an upload: path components are dropped, unsafe characters replaced, and
a `.pdf` extension is required. -/
namespace ESign
open JsText

namespace JsText

def isSpaceUnit (u : UInt16) : Bool := isSpace (Char.ofNat u.toNat)

def trim (text : Utf16) : Utf16 := ((text.dropWhile isSpaceUnit).reverse.dropWhile isSpaceUnit).reverse

def lowerUnit (u : UInt16) : UInt16 := if isUpper u then u+32 else u

end JsText

def pdfExtension : Utf16 := utf16 ".pdf"

def displayNameMax : Nat := 180

def reservedFilenameChars : List UInt16 := utf16 "<>:\"|?*"

def isControlUnit (u : UInt16) : Bool := u.toNat ≤ 31 || u.toNat = 127

def isBidiOverride (u : UInt16) : Bool := 0x202a ≤ u.toNat && u.toNat ≤ 0x202e

/-- What the loop of `replaceUnsafeFilenameChars` adds for one unit, `_` if it is unsafe. A
character of two units is looked at by the first of them, and neither is unsafe. -/
def safeUnit (u : UInt16) : UInt16 :=
  if isControlUnit u || isBidiOverride u || u ∈ reservedFilenameChars then 95 else u

def replaceUnsafeFilenameChars (value : Utf16) : Utf16 := value.map safeUnit

/-- `/` or a backslash. -/
def isSeparator (u : UInt16) : Bool := u = 47 || u = 92

/-- The last of the segments that the text is split into. -/
def lastSegment (text : Utf16) : Utf16 := text.rtakeWhile (fun u => !isSeparator u)

/-- `/\.pdf$/i`: only the four letters themselves match without regard to case. -/
def hasPdfExtension (text : Utf16) : Bool :=
  4 ≤ text.length && (text.drop (text.length-4)).map lowerUnit = pdfExtension

/-- The name before its extension is looked at. -/
def truncatedName (raw : Utf16) : Utf16 :=
  let withoutNulls := raw.filter (fun u => u ≠ 0)
  let base := lastSegment withoutNulls
  let cleaned := JsText.trim (replaceUnsafeFilenameChars base)
  cleaned.take displayNameMax

def sanitizeDisplayFilename (raw : Utf16) : Except AppError Utf16 := do
  let truncated := truncatedName raw
  check (hasPdfExtension truncated) (.validation [("reason","filename_extension"),("expected",".pdf")])
  let withExtension := truncated.take (truncated.length-4) ++ pdfExtension
  if withExtension = pdfExtension then .ok (utf16 "document.pdf") else .ok withExtension

/-! What trimming leaves. -/

structure Trimmed (text : Utf16) : Prop where
  leading : ∀ u, text.head? = some u → isSpaceUnit u = false
  trailing : ∀ u, text.getLast? = some u → isSpaceUnit u = false

theorem trimFixed {text : Utf16} (trimmed : Trimmed text) : JsText.trim text = text := by
  have front : text.dropWhile isSpaceUnit = text := by
    cases text with
    | nil => rfl
    | cons u rest => rw [List.dropWhile_cons_of_neg (by rw [trimmed.leading u rfl]; decide)]
  have back : text.rdropWhile isSpaceUnit = text := by
    refine List.rdropWhile_eq_self_iff.mpr fun some_ => ?_
    rw [trimmed.trailing _ (List.getLast?_eq_some_getLast some_)]
    decide
  rw [JsText.trim,front]
  exact back

theorem trimLeading {text : Utf16} (u : UInt16) (first : (JsText.trim text).head? = some u) :
    isSpaceUnit u = false := by
  have kept : JsText.trim text <+: text.dropWhile isSpaceUnit := List.rdropWhile_prefix isSpaceUnit _
  obtain ⟨rest,whole⟩ := kept
  have head : (text.dropWhile isSpaceUnit).head? = some u := by
    rw [← whole,List.head?_append,first]
    rfl
  have stops := List.head?_dropWhile_not isSpaceUnit text
  rw [head] at stops
  exact stops

/-! What a name that is accepted is. -/

structure SafeUnit (u : UInt16) : Prop where
  separator : u ≠ 47 ∧ u ≠ 92
  control : ¬ u.toNat ≤ 0x1f ∧ u.toNat ≠ 0x7f
  bidi : ¬ (0x202a ≤ u.toNat ∧ u.toNat ≤ 0x202e)
  reserved : u ∉ utf16 "<>:\"|?*"

theorem SafeUnit.fixed {u : UInt16} (safe : SafeUnit u) : safeUnit u = u := by
  refine if_neg ?_
  simp only [isControlUnit,isBidiOverride,Bool.or_eq_true,Bool.and_eq_true,decide_eq_true_eq]
  rintro (((below | delete) | overrides) | reserved)
  · exact safe.control.1 below
  · exact safe.control.2 delete
  · exact safe.bidi overrides
  · exact safe.reserved reserved

theorem safeUnitSafe {u : UInt16} (plain : isSeparator u = false) : SafeUnit (safeUnit u) := by
  unfold safeUnit
  split
  · exact ⟨by decide,by decide,by decide,by decide +kernel⟩
  · rename_i safe
    simp only [isControlUnit,isBidiOverride,Bool.or_eq_true,Bool.and_eq_true,decide_eq_true_eq,not_or] at safe
    simp only [isSeparator,Bool.or_eq_false_iff,decide_eq_false_iff_not] at plain
    exact ⟨plain,safe.1.1,safe.1.2,safe.2⟩

structure DisplayName (name : Utf16) : Prop where
  extension : pdfExtension <:+ name
  long : 4 < name.length
  short : name.length ≤ 180
  trimmed : Trimmed name
  safe : ∀ u ∈ name, SafeUnit u

theorem truncatedSafe {raw : Utf16} : ∀ u ∈ truncatedName raw, SafeUnit u := by
  intro u mem
  have inside : u ∈ replaceUnsafeFilenameChars (lastSegment (raw.filter (fun u => u ≠ 0))) :=
    (List.dropWhile_subset _) ((List.rdropWhile_prefix isSpaceUnit _).subset (List.mem_of_mem_take mem))
  obtain ⟨v,found,rfl⟩ := List.mem_map.mp inside
  exact safeUnitSafe (by simpa using List.mem_rtakeWhile_imp found)

theorem displayOf {name : Utf16} (some_ : name ≠ []) (short : name.length ≤ 176)
    (leading : ∀ u, name.head? = some u → isSpaceUnit u = false) (safe : ∀ u ∈ name, SafeUnit u) :
    DisplayName (name ++ pdfExtension) := by
  have units : pdfExtension = [0x2e,0x70,0x64,0x66] := by decide +kernel
  have size : (name ++ pdfExtension).length = name.length+4 := by rw [List.length_append,units]; rfl
  have positive := List.length_pos_iff.mpr some_
  refine ⟨⟨name,rfl⟩,by omega,by omega,⟨?_,?_⟩,?_⟩
  · intro u first
    rw [List.head?_append_of_ne_nil _ some_] at first
    exact leading u first
  · intro u last
    rw [units,List.getLast?_append_of_ne_nil _ (by decide)] at last
    cases last
    decide
  · intro u mem
    rcases List.mem_append.mp mem with mem | mem
    · exact safe u mem
    · have plain : (pdfExtension.all fun u => !isSeparator u && safeUnit u = u) = true := by decide +kernel
      have holds := List.all_eq_true.mp plain u mem
      rw [Bool.and_eq_true,Bool.not_eq_true',decide_eq_true_eq] at holds
      rw [← holds.2]
      exact safeUnitSafe holds.1

theorem documentName : DisplayName (utf16 "document.pdf") := by
  have parts : utf16 "document.pdf" = utf16 "document" ++ pdfExtension := by decide +kernel
  have plain : ((utf16 "document").all fun u => !isSeparator u && safeUnit u = u) = true := by decide +kernel
  rw [parts]
  refine displayOf (by decide +kernel) (by decide +kernel) ?_ fun u mem => ?_
  · intro u first
    have head : (utf16 "document").head? = some 0x64 := by decide +kernel
    rw [head] at first
    cases first
    decide
  · have holds := List.all_eq_true.mp plain u mem
    rw [Bool.and_eq_true,Bool.not_eq_true',decide_eq_true_eq] at holds
    rw [← holds.2]
    exact safeUnitSafe holds.1

theorem sanitizedDisplay {raw result : Utf16} (ok : sanitizeDisplayFilename raw = .ok result) : DisplayName result := by
  obtain ⟨-,ok⟩ := thenOk.mp ok
  dsimp only at ok
  split at ok
  · cases ok
    exact documentName
  · rename_i named
    cases ok
    have short : (truncatedName raw).length ≤ 180 := (List.length_take_le _ _)
    have front : (truncatedName raw).take ((truncatedName raw).length-4) <+: truncatedName raw := List.take_prefix _ _
    refine displayOf (fun none_ => named (by rw [none_]; rfl)) ?_ ?_ ?_
    · rw [List.length_take]
      omega
    · intro u first
      obtain ⟨rest,whole⟩ := front.trans (List.take_prefix _ _)
      have whole : _ = JsText.trim _ := whole
      exact trimLeading u (by rw [← whole,List.head?_append,first]; rfl)
    · exact fun u mem => truncatedSafe u (front.subset mem)

theorem DisplayName.kept {name : Utf16} (display : DisplayName name) : sanitizeDisplayFilename name = .ok name := by
  have noNull : name.filter (fun u => u ≠ 0) = name := by
    refine List.filter_eq_self.mpr fun u mem => decide_eq_true ?_
    rintro rfl
    exact (display.safe 0 mem).control.1 (by decide)
  have oneSegment : lastSegment name = name := by
    refine List.rtakeWhile_eq_self_iff.mpr fun u mem => ?_
    have plain := (display.safe u mem).separator
    simp [isSeparator,plain]
  have replaced : replaceUnsafeFilenameChars name = name :=
    (List.map_congr_left fun u mem => (display.safe u mem).fixed).trans (List.map_id _)
  have whole : truncatedName name = name := by
    rw [truncatedName,noNull,oneSegment,replaced,trimFixed display.trimmed]
    exact List.take_of_length_le display.short
  obtain ⟨front,rfl⟩ := display.extension
  have size : pdfExtension.length = 4 := by decide +kernel
  have split_ : (front ++ pdfExtension).length-4 = front.length := by rw [List.length_append,size]; omega
  refine thenOk.mpr ⟨checkOk.mpr ?_,?_⟩
  · rw [whole,hasPdfExtension,split_,List.drop_left,Bool.and_eq_true]
    exact ⟨decide_eq_true (by have := display.long; omega),by decide +kernel⟩
  · rw [whole,split_,List.take_left]
    refine if_neg fun none_ => ?_
    have long := display.long
    rw [none_,size] at long
    omega

theorem displayNamesNormal (raw result : Utf16) (ok : sanitizeDisplayFilename raw = .ok result) :
    DisplayName result ∧ sanitizeDisplayFilename result = .ok result :=
  ⟨sanitizedDisplay ok,(sanitizedDisplay ok).kept⟩

/-- Path, bidi override, reserved character, long extension and white space in one name. -/
theorem contractRenamed :
    sanitizeDisplayFilename (utf16 "C:\\docs/" ++ 0x202e :: utf16 "What?.PDF ") = .ok (utf16 "_What_.pdf") ∧
    DisplayName (utf16 "_What_.pdf") ∧ sanitizeDisplayFilename (utf16 "_What_.pdf") = .ok (utf16 "_What_.pdf") := by
  have renamed : sanitizeDisplayFilename (utf16 "C:\\docs/" ++ 0x202e :: utf16 "What?.PDF ") =
      .ok (utf16 "_What_.pdf") := by decide +kernel
  exact ⟨renamed,displayNamesNormal _ _ renamed⟩

end ESign
