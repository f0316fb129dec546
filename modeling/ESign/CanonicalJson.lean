import ESign.AuditStorage

/-! What is canonical about canonical JSON. Values are arranged freely: in which order an object
lists its keys, and which of them are undefined, is lost, and the text that is written is
written again for what is parsed from it. -/
namespace ESign
open JsText

namespace JsValue

/-- Built from null, booleans, finite numbers, texts, valid dates, arrays and objects. A member
may be undefined, an item may not. -/
inductive Plain : JsValue → Prop
  | null : Plain .null
  | bool (value : Bool) : Plain (.bool value)
  | number (value : JsNumber) : Plain (.number value)
  | string (value : Utf16) : Plain (.string value)
  | date {time : Int} (low : -maxTime ≤ time) (high : time ≤ maxTime) : Plain (.date (some time))
  | array {items : List JsValue} (each : ∀ item ∈ items, Plain item) : Plain (.array items)
  | object {members : List (Utf16 × JsValue)} (keys : (members.map Prod.fst).Nodup)
      (named : ∀ member ∈ members, member.1 ≠ protoKey)
      (each : ∀ member ∈ members, member.2 ≠ .undefined → Plain member.2) : Plain (.object members)

/-- Two values that differ in the order of keys and in undefined members only: one step
anywhere inside, and any number of them. No object on the way lists a key twice. -/
inductive Rearranged : JsValue → JsValue → Prop
  | order {members members' : List (Utf16 × JsValue)} (keys : (members.map Prod.fst).Nodup)
      (perm : members.Perm members') : Rearranged (.object members) (.object members')
  | undefined {before after : List (Utf16 × JsValue)} {key : Utf16}
      (keys : ((before ++ (key,.undefined) :: after).map Prod.fst).Nodup) :
      Rearranged (.object (before ++ (key,.undefined) :: after)) (.object (before ++ after))
  | item {before after : List JsValue} {value value' : JsValue} (inner : Rearranged value value') :
      Rearranged (.array (before ++ value :: after)) (.array (before ++ value' :: after))
  | member {before after : List (Utf16 × JsValue)} {key : Utf16} {value value' : JsValue} (inner : Rearranged value value') :
      Rearranged (.object (before ++ (key,value) :: after)) (.object (before ++ (key,value') :: after))
  | refl (value : JsValue) : Rearranged value value
  | symm {value value' : JsValue} (back : Rearranged value' value) : Rearranged value value'
  | trans {value middle value' : JsValue} (first : Rearranged value middle) (second : Rearranged middle value') :
      Rearranged value value'

end JsValue

open JsValue

/-- `JSON.parse`: every object lists its keys in the order of the language. -/
def parseJson (text : Utf16) : Option JsValue := (Json.parse text).map (fun value => (value.rebuild ownOrder).toJs)

/-! The order of members. -/

def canonicalMember : JsValue → Option (Except AppError Json)
  | .undefined => none
  | value => some (canonicalizeJsonValue value)

theorem canonicalizeMembersMap (members : List (Utf16 × JsValue)) :
    canonicalizeMembers members = members.map (fun member => (member.1,canonicalMember member.2)) := by
  induction members with
  | nil => rfl
  | cons member rest ih =>
    obtain ⟨key,value⟩ := member
    rw [List.map_cons,← ih]
    cases value <;> rfl

theorem canonicalizeObject (members : List (Utf16 × JsValue)) : canonicalizeJsonValue (.object members) =
    (assignMembers (sortKeys (members.map (fun member => (member.1,canonicalMember member.2))))).bind
      (fun kept => .ok (.object (ownOrder kept))) := by
  rw [canonicalizeJsonValue,canonicalizeMembersMap]
  rfl

theorem mappedKeys (members : List (Utf16 × JsValue)) :
    (members.map (fun member => (member.1,canonicalMember member.2))).map Prod.fst = members.map Prod.fst := by
  rw [List.map_map]
  rfl

theorem assignUndefined {before after : List (Utf16 × JsValue)} {key : Utf16}
    (keys : ((before ++ (key,.undefined) :: after).map Prod.fst).Nodup) :
    assignMembers (sortKeys ((before ++ (key,.undefined) :: after).map (fun member => (member.1,canonicalMember member.2)))) =
      assignMembers (sortKeys ((before ++ after).map (fun member => (member.1,canonicalMember member.2)))) := by
  have fewer : ((before ++ after).map Prod.fst).Nodup :=
    keys.sublist (((List.sublist_cons_self _ _).append_left before).map Prod.fst)
  rw [← mappedKeys] at keys fewer
  rw [assignKept,assignKept (sortKeys ((before ++ after).map _)),sortKeysFilter keys,sortKeysFilter fewer]
  simp [canonicalMember]

theorem objectCongr {members members' : List (Utf16 × JsValue)}
    (same : assignMembers (sortKeys (members.map (fun member => (member.1,canonicalMember member.2)))) =
      assignMembers (sortKeys (members'.map (fun member => (member.1,canonicalMember member.2))))) :
    canonicalizeJsonValue (.object members) = canonicalizeJsonValue (.object members') := by
  rw [canonicalizeObject,canonicalizeObject,same]

theorem itemsCongr {value value' : JsValue} (same : canonicalizeJsonValue value = canonicalizeJsonValue value')
    (before after : List JsValue) :
    canonicalizeItems (before ++ value :: after) = canonicalizeItems (before ++ value' :: after) := by
  induction before with
  | nil => rw [List.nil_append,List.nil_append,canonicalizeItems,canonicalizeItems,same]
  | cons item rest ih => rw [List.cons_append,List.cons_append,canonicalizeItems,canonicalizeItems,ih]

theorem canonicalMemberPresent {value : JsValue} (present : value ≠ .undefined) :
    canonicalMember value = some (canonicalizeJsonValue value) := by
  cases value <;> first | exact absurd rfl present | rfl

theorem canonicalMemberSome {value value' : JsValue} (same : canonicalMember value = canonicalMember value') :
    canonicalizeJsonValue value = canonicalizeJsonValue value' := by
  by_cases absent : value = .undefined
  · subst absent
    by_cases absent' : value' = .undefined
    · rw [absent']
    · rw [canonicalMemberPresent absent'] at same
      cases same
  · by_cases absent' : value' = .undefined
    · rw [canonicalMemberPresent absent,absent'] at same
      cases same
    · rw [canonicalMemberPresent absent,canonicalMemberPresent absent'] at same
      exact Option.some.inj same

theorem rearrangedMember {value value' : JsValue} (rearranged : Rearranged value value') :
    canonicalMember value = canonicalMember value' := by
  induction rearranged with
  | order keys perm =>
    rw [← mappedKeys] at keys
    have sorted := sortKeysOfPerm (perm.map (fun member => (member.1,canonicalMember member.2))) keys
    exact congrArg some (objectCongr (by rw [sorted]))
  | undefined keys => exact congrArg some (objectCongr (assignUndefined keys))
  | item inner ih =>
    refine congrArg some ?_
    rw [canonicalizeJsonValue,canonicalizeJsonValue,itemsCongr (canonicalMemberSome ih)]
  | member inner ih =>
    refine congrArg some (objectCongr ?_)
    rw [List.map_append,List.map_append,List.map_cons,List.map_cons,ih]
  | refl => rfl
  | symm _ ih => exact ih.symm
  | trans _ _ first second => exact first.trans second

theorem rearrangedCanonical {value value' : JsValue} (rearranged : Rearranged value value') :
    canonicalizeJsonValue value = canonicalizeJsonValue value' := canonicalMemberSome (rearrangedMember rearranged)

/-! What is stored for a value. -/

theorem storedItemsSome {items : List JsValue} (each : ∀ item ∈ items, ∃ json, item.stored = some json) :
    ∃ kept, JsValue.storedItems items = some kept := by
  induction items with
  | nil => exact ⟨[],rfl⟩
  | cons item rest ih =>
    obtain ⟨⟨first,here⟩,each⟩ := List.forall_mem_cons.mp each
    obtain ⟨others,next⟩ := ih each
    exact ⟨first :: others,by rw [storedItems,here,next]; rfl⟩

theorem storedMembersSome {members : List (Utf16 × JsValue)}
    (each : ∀ member ∈ members, member.2 ≠ .undefined → ∃ json, member.2.stored = some json) :
    ∃ kept, JsValue.storedMembers members = some kept := by
  induction members with
  | nil => exact ⟨[],rfl⟩
  | cons member rest ih =>
    obtain ⟨key,value⟩ := member
    obtain ⟨here,each⟩ := List.forall_mem_cons.mp each
    obtain ⟨others,next⟩ := ih each
    by_cases absent : value = .undefined
    · exact ⟨others,by rw [absent,storedMembers,next]⟩
    · obtain ⟨first,here⟩ := here absent
      have step : JsValue.storedMembers ((key,value) :: rest) = value.stored.bind (fun first =>
          (JsValue.storedMembers rest).bind (fun others => some ((key,first) :: others))) := by
        cases value <;> first | exact absurd rfl absent | rfl
      exact ⟨(key,first) :: others,by rw [step,here,next]; rfl⟩

theorem wellFormedItemsIff {items : List JsValue} :
    wellFormedItems items = true ↔ ∀ item ∈ items, item.wellFormed = true := by
  induction items with
  | nil => simp [wellFormedItems]
  | cons item rest ih => rw [wellFormedItems,Bool.and_eq_true,ih,List.forall_mem_cons]

theorem wellFormedMembersIff {members : List (Utf16 × JsValue)} :
    wellFormedMembers members = true ↔ ∀ member ∈ members, member.2.wellFormed = true := by
  induction members with
  | nil => simp [wellFormedMembers]
  | cons member rest ih => rw [wellFormedMembers,Bool.and_eq_true,ih,List.forall_mem_cons]

theorem plainStored {value : JsValue} (plain : Plain value) :
    value.wellFormed = true ∧ ∃ json, value.stored = some json := by
  induction plain with
  | null => exact ⟨rfl,_,rfl⟩
  | bool => exact ⟨rfl,_,rfl⟩
  | number => exact ⟨rfl,_,rfl⟩
  | string => exact ⟨rfl,_,rfl⟩
  | date low high => exact ⟨by rw [wellFormed,Bool.and_eq_true]; exact ⟨decide_eq_true low,decide_eq_true high⟩,_,rfl⟩
  | array _ ih =>
    obtain ⟨kept,stored⟩ := storedItemsSome (fun item mem => (ih item mem).2)
    exact ⟨wellFormedItemsIff.mpr (fun item mem => (ih item mem).1),.array kept,by rw [JsValue.stored,stored]; rfl⟩
  | object keys _ _ ih =>
    obtain ⟨kept,stored⟩ := storedMembersSome (fun member mem present => (ih member mem present).2)
    refine ⟨?_,.object kept,by rw [JsValue.stored,stored]; rfl⟩
    rw [wellFormed,Bool.and_eq_true,wellFormedMembersIff]
    refine ⟨decide_eq_true keys,fun member mem => ?_⟩
    by_cases absent : member.2 = .undefined
    · rw [absent]; rfl
    · exact (ih member mem absent).1

theorem plainCanonical {value : JsValue} (plain : Plain value) :
    ∃ json : Json, json.distinct = true ∧ canonicalizeJsonValue value = .ok json.canonical := by
  obtain ⟨valid,json,stored⟩ := plainStored plain
  exact ⟨json,storedCanonical value valid json stored⟩

namespace Json

/- What is parsed from a canonical text lists its keys as they were written, and is canonical. -/
theorem canonicalParsed {json : Json} (valid : json.distinct = true) :
    (json.canonical.rebuild ownOrder).canonical = json.canonical := by
  have parsed : Composed canonicalOrder ownOrder (fun members => ownOrder (canonicalOrder members)) :=
    ⟨fun f => canonicalOrderMap f,fun _ _ => rfl⟩
  change ((json.rebuild canonicalOrder).rebuild ownOrder).rebuild canonicalOrder = json.rebuild canonicalOrder
  rw [rebuildRebuild parsed json valid]
  refine rebuildRebuild ⟨fun f members => ?_,fun members distinct => ?_⟩ json valid
  · rw [canonicalOrderMap,ownOrderMap]
  · have perm := (ownOrderPerm (canonicalOrder members)).trans (canonicalOrderPerm members)
    rw [canonicalOrderOfPerm perm ((perm.map Prod.fst).nodup_iff.mpr (dropProtoDistinct distinct)),
      canonicalOrderDrop distinct]

end Json

/-- Canonicalization is idempotent, forgets the arrangement, and what it writes is parsed
to a value for which it writes the same. -/
theorem canonicalJson :
    (∀ value, Plain value → ∃ canonical, canonicalizeJsonValue value = .ok canonical ∧
      canonicalizeJsonValue canonical.toJs = .ok canonical) ∧
    (∀ value value', Plain value → Plain value' → Rearranged value value' →
      ∃ text, serializeCanonicalJson value = .ok text ∧ serializeCanonicalJson value' = .ok text) ∧
    ∀ value, Plain value → ∃ text parsed, serializeCanonicalJson value = .ok text ∧ parseJson text = some parsed ∧
      serializeCanonicalJson parsed = .ok text := by
  refine ⟨fun value plain => ?_,fun value value' plain _ rearranged => ?_,fun value plain => ?_⟩
  · obtain ⟨json,distinct,canonical⟩ := plainCanonical plain
    refine ⟨json.canonical,canonical,?_⟩
    rw [Json.canonicalizeToJs,Json.canonicalTwice distinct]
  · obtain ⟨json,-,canonical⟩ := plainCanonical plain
    refine ⟨json.canonical.stringify,?_,?_⟩
    · rw [serializeCanonicalJson,canonical]; rfl
    · rw [serializeCanonicalJson,← rearrangedCanonical rearranged,canonical]; rfl
  · obtain ⟨json,distinct,canonical⟩ := plainCanonical plain
    refine ⟨json.canonical.stringify,(json.canonical.rebuild ownOrder).toJs,?_,?_,?_⟩
    · rw [serializeCanonicalJson,canonical]; rfl
    · rw [parseJson,Json.parseStringify]; rfl
    · rw [serializeCanonicalJson,Json.canonicalizeToJs,Json.canonicalParsed distinct]; rfl

end ESign
