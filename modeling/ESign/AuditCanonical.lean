import ESign.JsonText
import ESign.Lifecycle
import Mathlib.Data.List.Sort
import Mathlib.Data.List.Forall2
import Mathlib.Data.List.Perm.Basic

/-! The canonical form of an audit payload. Keys are sorted by their UTF-16 units and
assigned one by one to a fresh object; an assignment to `__proto__` sets the
prototype of that object, or does nothing, and leaves no member behind. -/
namespace ESign
open JsText

/-- A value as the use cases hold it. A Date without a time value is `date none`; a
view of an ArrayBuffer is `binary`; a function, symbol or bigint is `other` with the
text of its `typeof`. -/
inductive JsValue where
  | undefined
  | null
  | bool (value : Bool)
  | number (value : JsNumber)
  | nonFinite
  | string (value : Utf16)
  | date (time : Option Int)
  | array (items : List JsValue)
  | object (members : List (Utf16 × JsValue))
  | binary
  | other (type : String)

/-- The order of `Array.prototype.sort` on strings. -/
def keyLe : Utf16 → Utf16 → Bool
  | [], _ => true
  | _ :: _, [] => false
  | a :: as, b :: bs => a.toNat < b.toNat || (a.toNat = b.toNat && keyLe as bs)

section

variable {α β : Type}

def sortKeys (entries : List (Utf16 × α)) : List (Utf16 × α) :=
  entries.insertionSort (fun a b => keyLe a.1 b.1 = true)

def maxArrayIndex : Nat := 4294967294

/-- An integer index, written as Number::toString writes it. -/
def arrayIndex (key : Utf16) : Option Nat :=
  let index := ofDigits (key.map digitValue)
  if key ≠ [] ∧ key.all isDigit ∧ pad 1 index = key ∧ index ≤ maxArrayIndex then some index else none

/-- The order of own keys: integer indices first, then the others as they were added. -/
def ownOrder (entries : List (Utf16 × α)) : List (Utf16 × α) :=
  (entries.filter (fun entry => (arrayIndex entry.1).isSome)).insertionSort
      (fun a b => (arrayIndex a.1).getD 0 ≤ (arrayIndex b.1).getD 0) ++
    entries.filter (fun entry => (arrayIndex entry.1).isNone)

end

def protoKey : Utf16 := ascii ['_','_','p','r','o','t','o','_','_']

def unsupportedType (type : String) : AppError := .validation [("reason","unsupported_json_type"),("jsonType",type)]

/-- The members in the order of their keys, up to the first that cannot be kept. -/
def assignMembers : List (Utf16 × Option (Except AppError Json)) → Except AppError (List (Utf16 × Json))
  | [] => .ok []
  | (_,none) :: rest => assignMembers rest
  | (key,some canonical) :: rest => do
      let value ← canonical
      let members ← assignMembers rest
      .ok (if key = protoKey then members else (key,value) :: members)

mutual

def canonicalizeJsonValue : JsValue → Except AppError Json
  | .null => .ok .null
  | .bool value => .ok (.bool value)
  | .nonFinite => .error (.validation [("reason","non_finite_json_number")])
  | .number value => .ok (.number value)
  | .string value => .ok (.string value)
  | .date none => .error (.validation [("reason","invalid_occurred_at")])
  | .date (some time) => .ok (.string (isoString time))
  | .array items => do
      let items ← canonicalizeItems items
      .ok (.array items)
  | .binary => .error (.validation [("reason","binary_audit_payload")])
  | .object members => do
      let members ← assignMembers (sortKeys (canonicalizeMembers members))
      .ok (.object (ownOrder members))
  | .undefined => .error (unsupportedType "undefined")
  | .other type => .error (unsupportedType type)

def canonicalizeItems : List JsValue → Except AppError (List Json)
  | [] => .ok []
  | item :: rest => do
      let item ← canonicalizeJsonValue item
      let rest ← canonicalizeItems rest
      .ok (item :: rest)

def canonicalizeMembers : List (Utf16 × JsValue) → List (Utf16 × Option (Except AppError Json))
  | [] => []
  | (key,.undefined) :: rest => (key,none) :: canonicalizeMembers rest
  | (key,value) :: rest => (key,some (canonicalizeJsonValue value)) :: canonicalizeMembers rest

end

def serializeCanonicalJson (value : JsValue) : Except AppError Utf16 := do
  let canonical ← canonicalizeJsonValue value
  .ok canonical.stringify

namespace Json

mutual

/-- A parsed JSON value, as a value of the language. -/
def toJs : Json → JsValue
  | .null => .null
  | .bool value => .bool value
  | .number value => .number value
  | .string value => .string value
  | .array items => .array (toJsItems items)
  | .object members => .object (toJsMembers members)

def toJsItems : List Json → List JsValue
  | [] => []
  | item :: rest => item.toJs :: toJsItems rest

def toJsMembers : List (Utf16 × Json) → List (Utf16 × JsValue)
  | [] => []
  | (key,value) :: rest => (key,value.toJs) :: toJsMembers rest

end

mutual

/-- The same value with the members of every object, inner ones first, put through `arrange`. -/
def rebuild (arrange : List (Utf16 × Json) → List (Utf16 × Json)) : Json → Json
  | .array items => .array (rebuildItems arrange items)
  | .object members => .object (arrange (rebuildMembers arrange members))
  | value => value

def rebuildItems (arrange : List (Utf16 × Json) → List (Utf16 × Json)) : List Json → List Json
  | [] => []
  | item :: rest => item.rebuild arrange :: rebuildItems arrange rest

def rebuildMembers (arrange : List (Utf16 × Json) → List (Utf16 × Json)) : List (Utf16 × Json) → List (Utf16 × Json)
  | [] => []
  | (key,value) :: rest => (key,value.rebuild arrange) :: rebuildMembers arrange rest

end

mutual

/-- No object of the value lists a key twice, as no object of the language does. -/
def distinct : Json → Bool
  | .array items => distinctItems items
  | .object members => decide (members.map Prod.fst).Nodup && distinctMembers members
  | _ => true

def distinctItems : List Json → Bool
  | [] => true
  | item :: rest => item.distinct && distinctItems rest

def distinctMembers : List (Utf16 × Json) → Bool
  | [] => true
  | (_,value) :: rest => value.distinct && distinctMembers rest

end

end Json

section

variable {α : Type}

def dropProto (entries : List (Utf16 × α)) : List (Utf16 × α) := entries.filter (fun entry => entry.1 ≠ protoKey)

def canonicalOrder (entries : List (Utf16 × α)) : List (Utf16 × α) := ownOrder (dropProto (sortKeys entries))

end

namespace Json

/-- What canonicalization makes of a parsed JSON value. -/
def canonical (value : Json) : Json := value.rebuild canonicalOrder

/-- The value without its `__proto__` members. -/
def strip (value : Json) : Json := value.rebuild dropProto

/-- The value with the members of every object in the order of their keys: two values are
the same JSON value up to key order when these agree. -/
def sorted (value : Json) : Json := value.rebuild sortKeys

end Json

/-! Sorting by keys. -/

theorem keyLeTotal : ∀ a b : Utf16, keyLe a b = true ∨ keyLe b a = true
  | [], _ => .inl rfl
  | _ :: _, [] => .inr rfl
  | a :: as, b :: bs => by
      have rest := keyLeTotal as bs
      simp only [keyLe,Bool.or_eq_true,Bool.and_eq_true,decide_eq_true_eq]
      grind

theorem keyLeTrans : ∀ a b c : Utf16, keyLe a b = true → keyLe b c = true → keyLe a c = true
  | [], _, _, _, _ => rfl
  | _ :: _, [], _, h, _ => by cases h
  | _ :: _, _ :: _, [], _, h => by cases h
  | a :: as, b :: bs, c :: cs, first, second => by
      have rest := keyLeTrans as bs cs
      simp only [keyLe,Bool.or_eq_true,Bool.and_eq_true,decide_eq_true_eq] at first second ⊢
      grind

theorem keyLeAntisymm : ∀ a b : Utf16, keyLe a b = true → keyLe b a = true → a = b
  | [], [], _, _ => rfl
  | [], _ :: _, _, h => by cases h
  | _ :: _, [], h, _ => by cases h
  | a :: as, b :: bs, first, second => by
      have rest := keyLeAntisymm as bs
      simp only [keyLe,Bool.or_eq_true,Bool.and_eq_true,decide_eq_true_eq] at first second
      have head : a.toNat = b.toNat := by omega
      rw [UInt16.toNat_inj.mp head,rest (by grind) (by grind)]

section

variable {α β : Type}

instance : Std.Total (fun a b : Utf16 × α => keyLe a.1 b.1 = true) := ⟨fun a b => keyLeTotal a.1 b.1⟩

instance : IsTrans (Utf16 × α) (fun a b => keyLe a.1 b.1 = true) := ⟨fun a b c => keyLeTrans a.1 b.1 c.1⟩

theorem sortKeysPerm (entries : List (Utf16 × α)) : (sortKeys entries).Perm entries := List.perm_insertionSort _ _

theorem sortKeysSorted (entries : List (Utf16 × α)) :
    (sortKeys entries).Pairwise (fun a b => keyLe a.1 b.1 = true) := List.pairwise_insertionSort _ _

theorem sortedUnique {left right : List (Utf16 × α)} (perm : left.Perm right) (distinct : (left.map Prod.fst).Nodup)
    (sorted : left.Pairwise (fun a b => keyLe a.1 b.1 = true))
    (sorted' : right.Pairwise (fun a b => keyLe a.1 b.1 = true)) : left = right := by
  refine perm.eq_of_pairwise (fun a b aMem bMem first second => ?_) sorted sorted'
  exact List.inj_on_of_nodup_map distinct aMem (perm.mem_iff.mpr bMem) (keyLeAntisymm _ _ first second)

theorem sortKeysOfPerm {left right : List (Utf16 × α)} (perm : left.Perm right)
    (distinct : (left.map Prod.fst).Nodup) : sortKeys left = sortKeys right := by
  refine sortedUnique ?_ ?_ (sortKeysSorted left) (sortKeysSorted right)
  · exact (sortKeysPerm left).trans (perm.trans (sortKeysPerm right).symm)
  · exact ((sortKeysPerm left).map Prod.fst).nodup_iff.mpr distinct

theorem ownOrderPerm (entries : List (Utf16 × α)) : (ownOrder entries).Perm entries := by
  have parts : (entries.filter (fun entry => (arrayIndex entry.1).isSome) ++
      entries.filter (fun entry => !(arrayIndex entry.1).isSome)).Perm entries := List.filter_append_perm _ _
  refine List.Perm.trans (List.Perm.append (List.perm_insertionSort _ _) ?_) parts
  simp only [Option.not_isSome]
  exact .refl _

end

/-! List-level facts of the arrangements. -/

section

variable {α β : Type}

theorem sortKeysMap (f : α → β) (entries : List (Utf16 × α)) :
    sortKeys (entries.map (fun entry => (entry.1,f entry.2))) = (sortKeys entries).map (fun entry => (entry.1,f entry.2)) :=
  (List.map_insertionSort (fun a b : Utf16 × α => keyLe a.1 b.1 = true) (fun a b : Utf16 × β => keyLe a.1 b.1 = true)
    (fun entry => (entry.1,f entry.2)) entries (fun _ _ _ _ => Iff.rfl)).symm

theorem dropProtoMap (f : α → β) (entries : List (Utf16 × α)) :
    dropProto (entries.map (fun entry => (entry.1,f entry.2))) =
      (dropProto entries).map (fun entry => (entry.1,f entry.2)) := by
  rw [dropProto,List.filter_map]
  rfl

theorem ownOrderMap (f : α → β) (entries : List (Utf16 × α)) :
    ownOrder (entries.map (fun entry => (entry.1,f entry.2))) =
      (ownOrder entries).map (fun entry => (entry.1,f entry.2)) := by
  rw [ownOrder,ownOrder,List.map_append,List.filter_map,List.filter_map]
  congr 1
  exact (List.map_insertionSort (fun a b : Utf16 × α => (arrayIndex a.1).getD 0 ≤ (arrayIndex b.1).getD 0)
    (fun a b : Utf16 × β => (arrayIndex a.1).getD 0 ≤ (arrayIndex b.1).getD 0)
    (fun entry => (entry.1,f entry.2)) _ (fun _ _ _ _ => Iff.rfl)).symm

theorem canonicalOrderMap (f : α → β) (entries : List (Utf16 × α)) :
    canonicalOrder (entries.map (fun entry => (entry.1,f entry.2))) =
      (canonicalOrder entries).map (fun entry => (entry.1,f entry.2)) := by
  rw [canonicalOrder,sortKeysMap,dropProtoMap,ownOrderMap,canonicalOrder]

theorem dropProtoDistinct {entries : List (Utf16 × α)} (distinct : (entries.map Prod.fst).Nodup) :
    ((dropProto entries).map Prod.fst).Nodup :=
  distinct.sublist (List.filter_sublist.map Prod.fst)

theorem sortKeysFilter {entries : List (Utf16 × α)} (distinct : (entries.map Prod.fst).Nodup) (keep : Utf16 × α → Bool) :
    (sortKeys entries).filter keep = sortKeys (entries.filter keep) := by
  have perm : ((sortKeys entries).filter keep).Perm (entries.filter keep) := (sortKeysPerm entries).filter keep
  refine sortedUnique (perm.trans (sortKeysPerm _).symm) ?_ ?_ (sortKeysSorted _)
  · exact (perm.map Prod.fst).nodup_iff.mpr (distinct.sublist (List.filter_sublist.map Prod.fst))
  · exact (sortKeysSorted entries).sublist List.filter_sublist

theorem dropProtoSort {entries : List (Utf16 × α)} (distinct : (entries.map Prod.fst).Nodup) :
    dropProto (sortKeys entries) = sortKeys (dropProto entries) := sortKeysFilter distinct _

theorem canonicalOrderPerm (entries : List (Utf16 × α)) : (canonicalOrder entries).Perm (dropProto entries) :=
  (ownOrderPerm _).trans ((sortKeysPerm entries).filter _)

theorem sortCanonicalOrder {entries : List (Utf16 × α)} (distinct : (entries.map Prod.fst).Nodup) :
    sortKeys (canonicalOrder entries) = sortKeys (dropProto entries) := by
  have perm := canonicalOrderPerm entries
  exact sortKeysOfPerm perm ((perm.map Prod.fst).nodup_iff.mpr (dropProtoDistinct distinct))

theorem canonicalOrderOfPerm {left right : List (Utf16 × α)} (perm : left.Perm right)
    (distinct : (left.map Prod.fst).Nodup) : canonicalOrder left = canonicalOrder right := by
  rw [canonicalOrder,canonicalOrder,sortKeysOfPerm perm distinct]

theorem dropProtoTwice (entries : List (Utf16 × α)) : dropProto (dropProto entries) = dropProto entries := by
  simp [dropProto,List.filter_filter]

theorem canonicalOrderDrop {entries : List (Utf16 × α)} (distinct : (entries.map Prod.fst).Nodup) :
    canonicalOrder (dropProto entries) = canonicalOrder entries := by
  rw [canonicalOrder,canonicalOrder,dropProtoSort (dropProtoDistinct distinct),dropProtoTwice,← dropProtoSort distinct]

end

namespace Json

/-! Canonicalization of what was parsed. -/

section

variable {arrange second both : List (Utf16 × Json) → List (Utf16 × Json)}

theorem rebuildMembersMap : ∀ members : List (Utf16 × Json),
    rebuildMembers arrange members = members.map (fun member => (member.1,member.2.rebuild arrange))
  | [] => rfl
  | (key,value) :: rest => by rw [rebuildMembers,rebuildMembersMap rest,List.map_cons]

theorem rebuildKeys (members : List (Utf16 × Json)) :
    (rebuildMembers arrange members).map Prod.fst = members.map Prod.fst := by
  rw [rebuildMembersMap,List.map_map]
  rfl

/-- On the members of one object `second` after `arrange` is `both`, and `arrange` does not look at values. -/
structure Composed (arrange second both : List (Utf16 × Json) → List (Utf16 × Json)) : Prop where
  natural : ∀ (f : Json → Json) members, arrange (members.map (fun member => (member.1,f member.2))) =
    (arrange members).map (fun member => (member.1,f member.2))
  equal : ∀ members, (members.map Prod.fst).Nodup → second (arrange members) = both members

mutual

/- Two arrangements one after the other are one, when they are on the members of one object. -/
theorem rebuildRebuild (composed : Composed arrange second both) (value : Json) (valid : value.distinct = true) :
    (value.rebuild arrange).rebuild second = value.rebuild both := by
  match value with
  | .null => rfl
  | .bool _ => rfl
  | .number _ => rfl
  | .string _ => rfl
  | .array items => rw [rebuild,rebuild,rebuild,rebuildRebuildItems composed items valid]
  | .object members =>
    rw [distinct,Bool.and_eq_true,decide_eq_true_eq] at valid
    have inner := rebuildRebuildMembers composed members valid.2
    rw [rebuildMembersMap] at inner
    rw [rebuild,rebuild,rebuild,rebuildMembersMap,← composed.natural,inner,composed.equal]
    rw [rebuildKeys]
    exact valid.1

theorem rebuildRebuildItems (composed : Composed arrange second both) (items : List Json)
    (valid : distinctItems items = true) :
    rebuildItems second (rebuildItems arrange items) = rebuildItems both items := by
  match items with
  | [] => rfl
  | item :: rest =>
    rw [distinctItems,Bool.and_eq_true] at valid
    rw [rebuildItems,rebuildItems,rebuildItems,rebuildRebuild composed item valid.1,
      rebuildRebuildItems composed rest valid.2]

theorem rebuildRebuildMembers (composed : Composed arrange second both) (members : List (Utf16 × Json))
    (valid : distinctMembers members = true) :
    rebuildMembers second (rebuildMembers arrange members) = rebuildMembers both members := by
  match members with
  | [] => rfl
  | (key,value) :: rest =>
    rw [distinctMembers,Bool.and_eq_true] at valid
    rw [rebuildMembers,rebuildMembers,rebuildMembers,rebuildRebuild composed value valid.1,
      rebuildRebuildMembers composed rest valid.2]

end

end

theorem canonicalSorted {value : Json} (valid : value.distinct = true) :
    value.canonical.sorted = value.strip.sorted := by
  have canonicalFirst : Composed canonicalOrder sortKeys (fun members => sortKeys (dropProto members)) :=
    ⟨fun f => canonicalOrderMap f,fun _ distinct => sortCanonicalOrder distinct⟩
  have dropFirst : Composed dropProto sortKeys (fun members => sortKeys (dropProto members)) :=
    ⟨fun f => dropProtoMap f,fun _ _ => rfl⟩
  rw [canonical,strip,sorted,sorted,rebuildRebuild canonicalFirst value valid,rebuildRebuild dropFirst value valid]

theorem strippedSortedCanonical {value : Json} (valid : value.distinct = true) :
    value.strip.sorted.canonical = value.canonical := by
  have dropFirst : Composed dropProto sortKeys (fun members => sortKeys (dropProto members)) :=
    ⟨fun f => dropProtoMap f,fun _ _ => rfl⟩
  rw [strip,sorted,rebuildRebuild dropFirst value valid]
  refine rebuildRebuild ⟨fun f members => ?_,fun members distinct => ?_⟩ value valid
  · rw [dropProtoMap,sortKeysMap]
  · have perm := sortKeysPerm (dropProto members)
    rw [canonicalOrderOfPerm perm ((perm.map Prod.fst).nodup_iff.mpr (dropProtoDistinct distinct)),
      canonicalOrderDrop distinct]

/- Canonical forms agree exactly when the values do, up to key order and `__proto__` members. -/
theorem canonicalAgree {left right : Json} (leftValid : left.distinct = true) (rightValid : right.distinct = true) :
    left.canonical = right.canonical ↔ left.strip.sorted = right.strip.sorted := by
  constructor
  · intro same
    rw [← canonicalSorted leftValid,same,canonicalSorted rightValid]
  · intro same
    rw [← strippedSortedCanonical leftValid,same,strippedSortedCanonical rightValid]

theorem sortedCanonical {value : Json} (valid : value.distinct = true) : value.sorted.canonical = value.canonical := by
  refine rebuildRebuild ⟨fun f => sortKeysMap f,fun members distinct => ?_⟩ value valid
  exact (canonicalOrderOfPerm (sortKeysPerm members).symm distinct).symm

theorem canonicalTwice {value : Json} (valid : value.distinct = true) : value.canonical.canonical = value.canonical := by
  refine rebuildRebuild ⟨fun f => canonicalOrderMap f,fun members distinct => ?_⟩ value valid
  have perm := canonicalOrderPerm members
  rw [canonicalOrderOfPerm perm ((perm.map Prod.fst).nodup_iff.mpr (dropProtoDistinct distinct)),
    canonicalOrderDrop distinct]

theorem assignAll (entries : List (Utf16 × Json)) :
    assignMembers (entries.map (fun entry => (entry.1,some (.ok entry.2)))) = .ok (dropProto entries) := by
  induction entries with
  | nil => rfl
  | cons entry rest ih =>
    obtain ⟨key,value⟩ := entry
    rw [List.map_cons,assignMembers,ih]
    by_cases proto : key = protoKey
    · simp [proto,dropProto,bind,Except.bind]
    · simp [proto,dropProto,bind,Except.bind]

mutual

theorem canonicalizeToJs (value : Json) : canonicalizeJsonValue value.toJs = .ok value.canonical := by
  match value with
  | .null => rfl
  | .bool _ => rfl
  | .number _ => rfl
  | .string _ => rfl
  | .array items =>
    rw [toJs,canonicalizeJsonValue,canonicalizeItemsToJs items]
    rfl
  | .object members =>
    rw [toJs,canonicalizeJsonValue,canonicalizeMembersToJs members,
      sortKeysMap (fun value => some (Except.ok (ε := AppError) value)),assignAll]
    rfl

theorem canonicalizeItemsToJs (items : List Json) :
    canonicalizeItems (toJsItems items) = .ok (rebuildItems canonicalOrder items) := by
  match items with
  | [] => rfl
  | item :: rest =>
    rw [toJsItems,canonicalizeItems,canonicalizeToJs item,canonicalizeItemsToJs rest]
    rfl

theorem canonicalizeMembersToJs (members : List (Utf16 × Json)) :
    canonicalizeMembers (toJsMembers members) =
      (rebuildMembers canonicalOrder members).map (fun entry => (entry.1,some (.ok entry.2))) := by
  match members with
  | [] => rfl
  | (key,value) :: rest =>
    have head := canonicalizeToJs value
    rw [canonical] at head
    rw [toJsMembers,rebuildMembers,List.map_cons,← canonicalizeMembersToJs rest,← head]
    cases value <;> rfl

end

end Json

/-! The event that is hashed. -/

def auditChainSchemaVersion : Int := 1

def AuditEventType.text : AuditEventType → String
  | .documentCreated => "document_created"
  | .revisionAdded => "revision_added"
  | .fieldsUpdated => "fields_updated"
  | .signersUpdated => "signers_updated"
  | .documentSent => "document_sent"
  | .sessionIssued => "session_issued"
  | .sessionRevoked => "session_revoked"
  | .sessionExchanged => "session_exchanged"
  | .documentViewed => "document_viewed"
  | .consentRecorded => "consent_recorded"
  | .signerSigned => "signer_signed"
  | .signerDeclined => "signer_declined"
  | .documentVoided => "document_voided"
  | .documentExpired => "document_expired"
  | .finalizationStarted => "finalization_started"
  | .documentFinalized => "document_finalized"
  | .finalizationFailed => "finalization_failed"
  | .artifactDownloaded => "artifact_downloaded"
  | .inspectionAccepted => "inspection_accepted"
  | .inspectionRejected => "inspection_rejected"
  | .uploadAbandoned => "upload_abandoned"

def AuditActorType.text : AuditActorType → String
  | .accountUser => "account_user"
  | .signer => "signer"
  | .worker => "worker"
  | .system => "system"

def utf16 (text : String) : Utf16 := text.toByteArray.data.toList.map (fun byte => UInt16.ofNat byte.toNat)

structure AuditEventHashInput where
  schemaVersion : Int
  previousEventHash : Utf16
  sequence : Int
  type : AuditEventType
  actorType : AuditActorType
  actorId : Utf16
  occurredAt : Option Int
  payload : JsValue

/-- The members of the hashed document. Its `occurredAt` is a text already. -/
def canonicalAuditEvent (input : AuditEventHashInput) (occurredAt : Int) (payload : Json) : Json :=
  .object [(utf16 "actorId",.string input.actorId),(utf16 "actorType",.string (utf16 input.actorType.text)),
    (utf16 "occurredAt",.string (isoString occurredAt)),(utf16 "payload",payload),
    (utf16 "previousEventHash",.string input.previousEventHash),
    (utf16 "schemaVersion",.number (.ofInt auditChainSchemaVersion)),(utf16 "sequence",.number (.ofInt input.sequence)),
    (utf16 "type",.string (utf16 input.type.text))]

def toCanonicalAuditEventV1 (input : AuditEventHashInput) : Except AppError Json := do
  check (input.schemaVersion = auditChainSchemaVersion)
    (.validation [("reason","unsupported_audit_schema_version"),("schemaVersion",toString input.schemaVersion)])
  match input.occurredAt with
  | none => .error (.validation [("reason","invalid_occurred_at")])
  | some occurredAt => do
      let payload ← canonicalizeJsonValue input.payload
      .ok (canonicalAuditEvent input occurredAt payload)

/-- `sha256Hex` is the digest of node:crypto, on the text it is given. -/
def computeAuditEventHash (sha256Hex : Utf16 → Utf16) (input : AuditEventHashInput) : Except AppError Utf16 := do
  let event ← toCanonicalAuditEventV1 input
  let text ← serializeCanonicalJson event.toJs
  .ok (sha256Hex text)

theorem canonicalEvent (input : AuditEventHashInput) (occurredAt : Int) (payload : Json) :
    (canonicalAuditEvent input occurredAt payload).canonical = canonicalAuditEvent input occurredAt payload.canonical :=
  rfl

def auditEventTypes : List AuditEventType :=
  [.documentCreated,.revisionAdded,.fieldsUpdated,.signersUpdated,.documentSent,.sessionIssued,.sessionRevoked,
    .sessionExchanged,.documentViewed,.consentRecorded,.signerSigned,.signerDeclined,.documentVoided,.documentExpired,
    .finalizationStarted,.documentFinalized,.finalizationFailed,.artifactDownloaded,.inspectionAccepted,
    .inspectionRejected,.uploadAbandoned]

theorem eventTypeListed (type : AuditEventType) : type ∈ auditEventTypes := by
  cases type <;> decide

theorem eventTypeTextInjective : Function.Injective (fun type : AuditEventType => utf16 type.text) := by
  have distinct : (auditEventTypes.map (fun type => utf16 type.text)).Nodup := by decide +kernel
  intro left right same
  exact List.inj_on_of_nodup_map distinct (eventTypeListed left) (eventTypeListed right) same

theorem actorTypeTextInjective : Function.Injective (fun type : AuditActorType => utf16 type.text) := by
  intro left right
  cases left <;> cases right <;> decide

theorem isoStringInjective : Function.Injective isoString := by
  intro left right same
  have read := readIsoString left
  rw [same,readIsoString] at read
  exact (Option.some.inj read).symm

/-- The fields of two events that their hashed documents bind, with `__proto__` members left out. -/
structure Bound (left right : AuditEventHashInput) (payload payload' : Json) : Prop where
  actorId : left.actorId = right.actorId
  actorType : left.actorType = right.actorType
  occurredAt : left.occurredAt = right.occurredAt
  payload : payload.strip.sorted = payload'.strip.sorted
  previousEventHash : left.previousEventHash = right.previousEventHash
  sequence : left.sequence = right.sequence
  type : left.type = right.type

section

variable {sha256Hex : Utf16 → Utf16} {input input' : AuditEventHashInput} {payload payload' : Json}

theorem hashInput (distinct : payload.distinct = true) (given : input.payload = payload.toJs) {hash : Utf16} :
    computeAuditEventHash sha256Hex input = .ok hash ↔ input.schemaVersion = auditChainSchemaVersion ∧
      ∃ occurredAt, input.occurredAt = some occurredAt ∧
        hash = sha256Hex (canonicalAuditEvent input occurredAt payload.canonical).stringify := by
  rw [computeAuditEventHash,toCanonicalAuditEventV1,given,Json.canonicalizeToJs]
  by_cases version : input.schemaVersion = auditChainSchemaVersion
  · cases time : input.occurredAt with
    | none => simp [version,check,bind,Except.bind]
    | some occurredAt =>
      have twice := canonicalEvent input occurredAt payload.canonical
      rw [Json.canonicalTwice distinct] at twice
      simp only [version,check,decide_true,if_true,bind,Except.bind,serializeCanonicalJson,Json.canonicalizeToJs,twice,
        Option.some.injEq,exists_eq_left',true_and]
      constructor
      · intro same
        injection same with same
        exact same.symm
      · intro same
        rw [same]
  · simp [version,check,bind,Except.bind]

theorem textBound {t t' : Int} (distinct : payload.distinct = true) (distinct' : payload'.distinct = true)
    (time : input.occurredAt = some t) (time' : input'.occurredAt = some t')
    (same : (canonicalAuditEvent input t payload.canonical).stringify =
      (canonicalAuditEvent input' t' payload'.canonical).stringify) : Bound input input' payload payload' := by
  have event := Json.stringifyInjective same
  simp only [canonicalAuditEvent,Json.object.injEq,List.cons.injEq,Prod.mk.injEq,Json.string.injEq,Json.number.injEq,
    true_and,and_true] at event
  obtain ⟨actorId,actorType,occurredAt,payloads,previous,sequence,type⟩ := event
  refine ⟨actorId,actorTypeTextInjective actorType,?_,(Json.canonicalAgree distinct distinct').mp payloads,previous,
    JsNumber.ofIntInjective sequence,eventTypeTextInjective type⟩
  rw [time,time',isoStringInjective occurredAt]

end

end ESign
