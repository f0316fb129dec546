import ESign.AuditWriter

/-! What the audit policy lets through. The check descends into a value with a depth that
objects raise by two and arrays by one; what it accepts is described here by what a value
holds, at any level, and JSON keeps it. -/
namespace ESign
open JsText

namespace JsValue

/-- `Holds value n inner`: `inner` is found in the value, `n` objects and arrays down. -/
inductive Holds : JsValue → Nat → JsValue → Prop
  | here {value} : Holds value 0 value
  | item {items item n inner} (mem : item ∈ items) (rest : Holds item n inner) : Holds (.array items) (n+1) inner
  | member {members key value n inner} (mem : (key,value) ∈ members) (rest : Holds value n inner) :
      Holds (.object members) (n+1) inner

def PermittedKey (key : Utf16) : Prop :=
  (∀ word ∈ forbiddenExact, normalizeKey key ≠ utf16 word) ∧ ∀ part ∈ forbiddenSubstrings, ¬ utf16 part <:+: normalizeKey key

/-- What is asked of a value, apart from what it holds. -/
def Permitted : JsValue → Prop
  | .object members => members.length ≤ maxKeys ∧ ∀ member ∈ members, PermittedKey member.1
  | .array items => items.length ≤ maxKeys
  | .string text => text.length ≤ maxStringChars
  | .nonFinite => False
  | .binary => False
  | .other _ => False
  | _ => True

mutual

/-- `JSON.stringify`, as far as the value that is written. Undefined and functions are
nothing, and null in an array; a bigint throws. The bytes of a binary view are not modelled. -/
def serialize : JsValue → Except AppError (Option Json)
  | .undefined => .ok none
  | .null => .ok (some .null)
  | .bool value => .ok (some (.bool value))
  | .number value => .ok (some (.number value))
  | .nonFinite => .ok (some .null)
  | .string value => .ok (some (.string value))
  | .date none => .ok (some .null)
  | .date (some time) => .ok (some (.string (isoString time)))
  | .array items => do
      let items ← serializeItems items
      .ok (some (.array items))
  | .object members => do
      let members ← serializeMembers members
      .ok (some (.object members))
  | .binary => .error (unsupportedType "object")
  | .other type => if type = "bigint" then .error (unsupportedType type) else .ok none

def serializeItems : List JsValue → Except AppError (List Json)
  | [] => .ok []
  | item :: rest => do
      let item ← item.serialize
      let rest ← serializeItems rest
      .ok (item.getD .null :: rest)

def serializeMembers : List (Utf16 × JsValue) → Except AppError (List (Utf16 × Json))
  | [] => .ok []
  | (key,value) :: rest => do
      let value ← value.serialize
      let rest ← serializeMembers rest
      .ok (match value with
        | some value => (key,value) :: rest
        | none => rest)

end

end JsValue

theorem permittedKey {key : Utf16} : isForbiddenKey key = false ↔ JsValue.PermittedKey key := by
  rw [isForbiddenKey,Bool.or_eq_false_iff,List.any_eq_false,List.any_eq_false,JsValue.PermittedKey]
  simp only [decide_eq_true_eq,ne_eq,@eq_comm _ (normalizeKey key)]

theorem approvedPermitted {value : JsValue} {depth : Nat} (approved : assertApprovedValue value depth = .ok ()) :
    depth ≤ maxDepth ∧ value.Permitted := by
  cases value with
  | array items =>
    obtain ⟨shallow,small,-⟩ := approvedArray.mp approved
    exact ⟨shallow,small⟩
  | object members =>
    obtain ⟨shallow,-,small,each⟩ := approvedObject.mp approved
    exact ⟨shallow,small,fun member mem => permittedKey.mp (approvedMembers.mp each member mem).1⟩
  | string text =>
    rw [assertApprovedValue,thenOk,checkOk,checkOk,decide_eq_true_eq,decide_eq_true_eq] at approved
    exact approved
  | null | bool | number | date =>
    rw [assertApprovedValue,thenOk,checkOk,decide_eq_true_eq] at approved
    exact ⟨approved.1,trivial⟩
  | undefined | nonFinite | binary | other => simp [assertApprovedValue,thenOk] at approved

theorem heldUndefined {n inner} (holds : JsValue.Holds .undefined n inner) : n = 0 ∧ inner = .undefined := by
  cases holds
  exact ⟨rfl,rfl⟩

theorem memberCases {members : List (Utf16 × JsValue)} {depth : Nat} (each : assertApprovedMembers members depth = .ok ())
    {key value} (mem : (key,value) ∈ members) : value = .undefined ∨ assertApprovedValue value (depth+1) = .ok () := by
  by_cases absent : value = .undefined
  · exact .inl absent
  · exact .inr ((approvedMembers.mp each _ mem).2 absent)

theorem heldPermitted {value n inner} (holds : JsValue.Holds value n inner) {depth : Nat}
    (approved : assertApprovedValue value depth = .ok ()) : depth+n ≤ maxDepth ∧ inner.Permitted := by
  induction holds generalizing depth with
  | here => exact approvedPermitted approved
  | item mem _ ih =>
    obtain ⟨-,-,each⟩ := approvedArray.mp approved
    obtain ⟨shallow,permitted⟩ := ih (each _ mem)
    exact ⟨by omega,permitted⟩
  | member mem rest ih =>
    obtain ⟨-,inside,-,each⟩ := approvedObject.mp approved
    rcases memberCases each mem with rfl | approved
    · obtain ⟨rfl,rfl⟩ := heldUndefined rest
      exact ⟨inside,trivial⟩
    · obtain ⟨shallow,permitted⟩ := ih approved
      exact ⟨by omega,permitted⟩

theorem payloadPermitted {members : List (Utf16 × JsValue)} (approved : assertApprovedAuditPayload members 0 = .ok ())
    {n inner} (holds : JsValue.Holds (.object members) n inner) : n ≤ maxDepth ∧ inner.Permitted := by
  obtain ⟨shallow,small,each⟩ := approvedPayload.mp approved
  cases holds with
  | here => exact ⟨shallow,small,fun member mem => permittedKey.mp (approvedMembers.mp each member mem).1⟩
  | member mem rest =>
    rcases memberCases each mem with rfl | approved
    · obtain ⟨rfl,rfl⟩ := heldUndefined rest
      exact ⟨by decide,trivial⟩
    · obtain ⟨deep,permitted⟩ := heldPermitted rest approved
      exact ⟨by omega,permitted⟩

/-! JSON keeps what is approved. -/

mutual

theorem approvedSerialized (value : JsValue) (valid : value.wellFormed = true) (depth : Nat)
    (approved : assertApprovedValue value depth = .ok ()) :
    ∃ json, value.serialize = .ok (some json) ∧ assertApprovedValue json.toJs depth = .ok () := by
  match value with
  | .null => exact ⟨.null,rfl,approved⟩
  | .bool value => exact ⟨.bool value,rfl,approved⟩
  | .number value => exact ⟨.number value,rfl,approved⟩
  | .string value => exact ⟨.string value,rfl,approved⟩
  | .date none =>
    refine ⟨.null,rfl,?_⟩
    rw [assertApprovedValue] at approved
    rw [Json.toJs,assertApprovedValue]
    exact approved
  | .date (some time) =>
    rw [JsValue.wellFormed,Bool.and_eq_true,decide_eq_true_eq,decide_eq_true_eq] at valid
    rw [assertApprovedValue,thenOk,checkOk,decide_eq_true_eq] at approved
    refine ⟨.string (isoString time),rfl,?_⟩
    rw [Json.toJs,assertApprovedValue,thenOk,checkOk,checkOk,decide_eq_true_eq,decide_eq_true_eq]
    exact ⟨approved.1,isoLength valid.1 valid.2⟩
  | .array items =>
    obtain ⟨shallow,small,each⟩ := approvedArray.mp approved
    obtain ⟨kept,written,length,again⟩ := approvedSerializedItems items valid (depth+1) each
    refine ⟨.array kept,by rw [JsValue.serialize,written]; rfl,?_⟩
    rw [Json.toJs,toJsItemsMap,approvedArray,List.length_map,length,List.forall_mem_map]
    exact ⟨shallow,small,again⟩
  | .object members =>
    rw [JsValue.wellFormed,Bool.and_eq_true] at valid
    obtain ⟨shallow,inside,small,each⟩ := approvedObject.mp approved
    obtain ⟨kept,written,fewer,again⟩ := approvedSerializedMembers members valid.2 (depth+1) (approvedMembers.mp each)
    refine ⟨.object kept,by rw [JsValue.serialize,written]; rfl,?_⟩
    rw [Json.toJs,approvedObject,approvedParsed,toJsMembersMap,List.length_map]
    exact ⟨shallow,inside,fewer.trans small,again⟩
  | .undefined | .nonFinite | .binary | .other _ => simp [assertApprovedValue,thenOk] at approved

theorem approvedSerializedItems (items : List JsValue) (valid : JsValue.wellFormedItems items = true) (depth : Nat)
    (approved : ∀ item ∈ items, assertApprovedValue item depth = .ok ()) :
    ∃ kept, JsValue.serializeItems items = .ok kept ∧ kept.length = items.length ∧
      ∀ item ∈ kept, assertApprovedValue item.toJs depth = .ok () := by
  match items with
  | [] => exact ⟨[],rfl,rfl,List.forall_mem_nil _⟩
  | item :: rest =>
    rw [JsValue.wellFormedItems,Bool.and_eq_true] at valid
    rw [List.forall_mem_cons] at approved
    obtain ⟨first,written,here⟩ := approvedSerialized item valid.1 depth approved.1
    obtain ⟨others,next,length,again⟩ := approvedSerializedItems rest valid.2 depth approved.2
    refine ⟨first :: others,by rw [JsValue.serializeItems,written,next]; rfl,?_,List.forall_mem_cons.mpr ⟨here,again⟩⟩
    rw [List.length_cons,List.length_cons,length]

theorem approvedSerializedMembers (members : List (Utf16 × JsValue)) (valid : JsValue.wellFormedMembers members = true)
    (depth : Nat) (approved : ∀ member ∈ members, isForbiddenKey member.1 = false ∧
      (member.2 ≠ .undefined → assertApprovedValue member.2 (depth+1) = .ok ())) :
    ∃ kept, JsValue.serializeMembers members = .ok kept ∧ kept.length ≤ members.length ∧
      ∀ member ∈ kept, isForbiddenKey member.1 = false ∧ assertApprovedValue member.2.toJs (depth+1) = .ok () := by
  match members with
  | [] => exact ⟨[],rfl,Nat.le_refl _,List.forall_mem_nil _⟩
  | (key,value) :: rest =>
    rw [JsValue.wellFormedMembers,Bool.and_eq_true] at valid
    rw [List.forall_mem_cons] at approved
    obtain ⟨others,next,fewer,again⟩ := approvedSerializedMembers rest valid.2 depth approved.2
    by_cases absent : value = .undefined
    · subst absent
      refine ⟨others,by rw [JsValue.serializeMembers,JsValue.serialize,next]; rfl,?_,again⟩
      rw [List.length_cons]
      omega
    · obtain ⟨first,written,here⟩ := approvedSerialized value valid.1 (depth+1) (approved.1.2 absent)
      refine ⟨(key,first) :: others,by rw [JsValue.serializeMembers,written,next]; rfl,?_,
        List.forall_mem_cons.mpr ⟨⟨approved.1.1,here⟩,again⟩⟩
      rw [List.length_cons,List.length_cons]
      omega

end

/- The whole policy, and the payload after it was written and parsed, whatever the order in
which its keys are then listed. -/
theorem payloadPolicy (payload : JsRecord) (approved : assertApprovedAuditPayload payload.members 0 = .ok ()) :
    (∀ n inner, JsValue.Holds (.object payload.members) n inner → n ≤ maxDepth ∧ inner.Permitted) ∧
    ∃ kept, (JsValue.object payload.members).serialize = .ok (some (.object kept)) ∧
      Json.parse (Json.object kept).stringify = some (.object kept) ∧
      ∀ returned, (Json.object returned).sorted = (Json.object kept).sorted →
        assertApprovedAuditPayload (Json.toJsMembers returned) 0 = .ok () := by
  have valid := payload.valid
  rw [JsValue.wellFormed,Bool.and_eq_true] at valid
  obtain ⟨shallow,small,each⟩ := approvedPayload.mp approved
  obtain ⟨kept,written,fewer,again⟩ := approvedSerializedMembers payload.members valid.2 0 (approvedMembers.mp each)
  refine ⟨fun n inner holds => payloadPermitted approved holds,kept,by rw [JsValue.serialize,written]; rfl,
    Json.parseStringify _,fun returned same => approvedReordered same.symm ?_⟩
  rw [approvedPayload,approvedParsed,toJsMembersMap,List.length_map]
  exact ⟨shallow,fewer.trans small,again⟩

theorem CreatedAndSent.draftPolicy :
    (∀ n inner, JsValue.Holds (.object draft.payload.members) n inner → n ≤ maxDepth ∧ inner.Permitted) ∧
    ∃ kept, (JsValue.object draft.payload.members).serialize = .ok (some (.object kept)) ∧
      Json.parse (Json.object kept).stringify = some (.object kept) ∧
      ∀ returned, (Json.object returned).sorted = (Json.object kept).sorted →
        assertApprovedAuditPayload (Json.toJsMembers returned) 0 = .ok () :=
  payloadPolicy draft.payload evaluatedAppends.2.2.1

end ESign
