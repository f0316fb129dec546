import ESign.AuditCanonical

/-! What may stand in an audit payload: no key that names a secret, an image or personal
data, bounded depth, bounded width, bounded strings. -/
namespace ESign
open JsText

def forbiddenSubstrings : List String :=
  ["token","secret","password","cookie","authorization","bearer","apikey","csrftoken","sessiontoken","signatureimage",
    "signaturebytes","pngbytes","pdfbytes","documentbytes","pointerstream","rawsignature"]

def forbiddenExact : List String :=
  ["email","name","phone","address","ssn","png","pdf","pointer","strokes","ink","raw"]

def maxDepth : Nat := 8

def isUpper (u : UInt16) : Bool := 65 ≤ u.toNat && u.toNat ≤ 90

def isLower (u : UInt16) : Bool := 97 ≤ u.toNat && u.toNat ≤ 122

def normalizeKey (key : Utf16) : Utf16 :=
  (key.filter (fun u => isUpper u || isLower u || isDigit u)).map (fun u => if isUpper u then u+32 else u)

def isForbiddenKey (key : Utf16) : Bool :=
  let normalized := normalizeKey key
  forbiddenExact.any (fun word => utf16 word = normalized) ||
    forbiddenSubstrings.any (fun part => decide (utf16 part <:+: normalized))

/-- A text as it is shown, a lone surrogate as U+FFFD. -/
def decode : Utf16 → List Char
  | [] => []
  | high :: low :: rest =>
      if isHighSurrogate high && isLowSurrogate low then
        Char.ofNat ((high.toNat-0xD800)*0x400+(low.toNat-0xDC00)+0x10000) :: decode rest
      else (if isHighSurrogate high || isLowSurrogate high then '\uFFFD' else Char.ofNat high.toNat) :: decode (low :: rest)
  | [unit] => [if isHighSurrogate unit || isLowSurrogate unit then '\uFFFD' else Char.ofNat unit.toNat]

def tooDeep : AppError := .validation [("reason","audit_payload_too_deep")]
def tooLarge : AppError := .validation [("reason","audit_payload_too_large")]

def forbiddenKey (key : Utf16) : AppError :=
  .validation [("field",String.ofList (decode key)),("reason","forbidden_audit_payload_key")]

/-- The checks made on an object before its keys are looked at. -/
def checkObject (keys depth : Nat) : Except AppError Unit := do
  check (depth ≤ maxDepth) tooDeep
  check (keys ≤ maxKeys) tooLarge

mutual

def assertApprovedValue : JsValue → Nat → Except AppError Unit
  | value, depth => do
      check (depth ≤ maxDepth) tooDeep
      match value with
      | .null => .ok ()
      | .bool _ => .ok ()
      | .number _ => .ok ()
      | .nonFinite => .error (.validation [("reason","non_finite_json_number")])
      | .string text => check (text.length ≤ maxStringChars) (.validation [("reason","audit_payload_string_too_long")])
      | .date _ => .ok ()
      | .binary => .error (.validation [("reason","binary_audit_payload")])
      | .array items => do
          check (items.length ≤ maxKeys) tooLarge
          assertApprovedItems items (depth+1)
      | .object members => do
          checkObject members.length (depth+1)
          assertApprovedMembers members (depth+1)
      | .undefined => .error (unsupportedType "undefined")
      | .other type => .error (unsupportedType type)

def assertApprovedItems : List JsValue → Nat → Except AppError Unit
  | [], _ => .ok ()
  | item :: rest, depth => do
      assertApprovedValue item depth
      assertApprovedItems rest depth

def assertApprovedMembers : List (Utf16 × JsValue) → Nat → Except AppError Unit
  | [], _ => .ok ()
  | (key,value) :: rest, depth => do
      check (!isForbiddenKey key) (forbiddenKey key)
      match value with
      | .undefined => .ok ()
      | value => assertApprovedValue value (depth+1)
      assertApprovedMembers rest depth

end

def assertApprovedAuditPayload (payload : List (Utf16 × JsValue)) (depth : Nat) : Except AppError Unit := do
  checkObject payload.length depth
  assertApprovedMembers payload depth

/-! Approval, whatever the order of the keys. -/

theorem approvedMembers : ∀ {members : List (Utf16 × JsValue)} {depth : Nat},
    assertApprovedMembers members depth = .ok () ↔ ∀ member ∈ members, isForbiddenKey member.1 = false ∧
      (member.2 ≠ .undefined → assertApprovedValue member.2 (depth+1) = .ok ())
  | [], depth => by simp [assertApprovedMembers]
  | (key,value) :: rest, depth => by
    have step : assertApprovedMembers ((key,value) :: rest) depth = .ok () ↔
        (isForbiddenKey key = false ∧ (value ≠ .undefined → assertApprovedValue value (depth+1) = .ok ())) ∧
          assertApprovedMembers rest depth = .ok () := by
      rw [assertApprovedMembers]
      cases value <;> simp [thenOk,and_assoc]
    rw [step,approvedMembers,List.forall_mem_cons]

theorem approvedItems : ∀ {items : List JsValue} {depth : Nat},
    assertApprovedItems items depth = .ok () ↔ ∀ item ∈ items, assertApprovedValue item depth = .ok ()
  | [], depth => by simp [assertApprovedItems]
  | item :: rest, depth => by rw [assertApprovedItems,thenOk,List.forall_mem_cons,← approvedItems]

theorem approvedArray {items : List JsValue} {depth : Nat} : assertApprovedValue (.array items) depth = .ok () ↔
    depth ≤ maxDepth ∧ items.length ≤ maxKeys ∧ ∀ item ∈ items, assertApprovedValue item (depth+1) = .ok () := by
  simp only [assertApprovedValue,thenOk,checkOk,decide_eq_true_eq,approvedItems]

theorem approvedObject {members : List (Utf16 × JsValue)} {depth : Nat} :
    assertApprovedValue (.object members) depth = .ok () ↔ depth ≤ maxDepth ∧ depth+1 ≤ maxDepth ∧
      members.length ≤ maxKeys ∧ assertApprovedMembers members (depth+1) = .ok () := by
  simp only [assertApprovedValue,checkObject,thenOk,checkOk,decide_eq_true_eq,and_assoc]

end ESign
