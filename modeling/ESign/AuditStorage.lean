import ESign.AuditVerify

/-! A payload on its way through the database. What the writer hashes and approves is the
value of the caller; what the verifier reads back is JSON, without undefined members, with
dates as texts and with object keys in whatever order the column keeps them. -/
namespace ESign
open JsText

def maxTime : Int := 8640000000000000

namespace JsValue

mutual

/-- No object lists a key twice, and dates are in range. -/
def wellFormed : JsValue → Bool
  | .date (some time) => -maxTime ≤ time && time ≤ maxTime
  | .array items => wellFormedItems items
  | .object members => decide (members.map Prod.fst).Nodup && wellFormedMembers members
  | _ => true

def wellFormedItems : List JsValue → Bool
  | [] => true
  | item :: rest => item.wellFormed && wellFormedItems rest

def wellFormedMembers : List (Utf16 × JsValue) → Bool
  | [] => true
  | (_,value) :: rest => value.wellFormed && wellFormedMembers rest

end

mutual

/-- The JSON that is stored for a value, where there is one. -/
def stored : JsValue → Option Json
  | .null => some .null
  | .bool value => some (.bool value)
  | .number value => some (.number value)
  | .string value => some (.string value)
  | .date (some time) => some (.string (isoString time))
  | .array items => do
      let items ← storedItems items
      some (.array items)
  | .object members => do
      let members ← storedMembers members
      some (.object members)
  | _ => none

def storedItems : List JsValue → Option (List Json)
  | [] => some []
  | item :: rest => do
      let item ← item.stored
      let rest ← storedItems rest
      some (item :: rest)

def storedMembers : List (Utf16 × JsValue) → Option (List (Utf16 × Json))
  | [] => some []
  | (_,.undefined) :: rest => storedMembers rest
  | (key,value) :: rest => do
      let value ← value.stored
      let rest ← storedMembers rest
      some ((key,value) :: rest)

end

end JsValue

/-! Texts of dates are short. -/

theorem padLength {width n k : Nat} (small : n < 10^k) (wide : width ≤ k) : (pad width n).length ≤ k := by
  have digits : (digitsOf n).length ≤ k := by
    rw [digitsOf,List.length_reverse]
    exact (Nat.digits_length_le_iff (by decide) n).mpr small
  simp only [pad,List.length_map,List.length_append,List.length_replicate]
  omega

theorem yearLength {y : Int} (small : y.natAbs < 10^20) : (yearText y).length ≤ 21 := by
  rw [yearText]
  split
  · have := @padLength 4 y.toNat 20 (by omega) (by decide)
    omega
  · have := padLength small (show 6 ≤ 20 by decide)
    rw [List.length_cons]
    omega

theorem isoLength {time : Int} (low : -maxTime ≤ time) (high : time ≤ maxTime) :
    (isoString time).length ≤ maxStringChars := by
  unfold maxTime at low high
  have dayBounds : -200000000 ≤ time/msPerDay ∧ time/msPerDay ≤ 200000000 := by
    unfold msPerDay
    omega
  have msBounds : 0 ≤ time%msPerDay ∧ time%msPerDay < 86400000 := by
    unfold msPerDay
    omega
  simp only [isoString]
  generalize time/msPerDay = day at dayBounds
  generalize time%msPerDay = ms at msBounds
  have years := yearBounds day
  have yearSmall : (yearFromDay day).natAbs < 10^20 := by
    unfold dayFromYear at years
    omega
  have inYear : day - dayFromYear (yearFromDay day) ≤ 400 := by
    have := years.2
    unfold dayFromYear at this ⊢
    omega
  generalize yearFromDay day = y at yearSmall inYear
  have months : monthFromDay (isLeapYear y) (day - dayFromYear y) < 12 := by
    unfold monthFromDay
    generalize found : (List.range 12).reverse.find? _ = month
    cases month with
    | none => decide
    | some month =>
      have := List.mem_of_find?_eq_some found
      simpa using this
  have starts : 0 ≤ monthStart (isLeapYear y) (monthFromDay (isLeapYear y) (day - dayFromYear y)) := by
    generalize monthFromDay (isLeapYear y) (day - dayFromYear y) = month at months
    generalize isLeapYear y = leap
    revert month leap
    decide
  generalize monthFromDay (isLeapYear y) (day - dayFromYear y) = month at months starts
  have year := yearLength yearSmall
  have monthText := @padLength 2 (month+1) 20 (by omega) (by decide)
  have dateText := @padLength 2 (day - dayFromYear y - monthStart (isLeapYear y) month + 1).toNat 20 (by omega) (by decide)
  have hourText := @padLength 2 (ms/3600000).toNat 20 (by omega) (by decide)
  have minuteText := @padLength 2 (ms/60000%60).toNat 20 (by omega) (by decide)
  have secondText := @padLength 2 (ms/1000%60).toNat 20 (by omega) (by decide)
  have fraction := @padLength 3 (ms%1000).toNat 20 (by omega) (by decide)
  simp only [List.length_append,List.length_cons,List.length_nil,maxStringChars]
  omega

/-! The canonical form of a value is that of what is stored for it. -/

theorem assignKept (entries : List (Utf16 × Option (Except AppError Json))) :
    assignMembers entries = assignMembers (entries.filter (fun entry => entry.2.isSome)) := by
  induction entries with
  | nil => rfl
  | cons entry rest ih =>
    obtain ⟨key,value⟩ := entry
    cases value with
    | none => exact ih
    | some value => rw [assignMembers,List.filter_cons_of_pos rfl,assignMembers,ih]

theorem canonicalizeKeys : ∀ members : List (Utf16 × JsValue),
    (canonicalizeMembers members).map Prod.fst = members.map Prod.fst
  | [] => rfl
  | (key,value) :: rest => by
    have step : (canonicalizeMembers ((key,value) :: rest)).map Prod.fst =
        key :: (canonicalizeMembers rest).map Prod.fst := by cases value <;> rfl
    rw [step,canonicalizeKeys rest]
    rfl

theorem storedCons {key : Utf16} {value : JsValue} {rest : List (Utf16 × JsValue)} {kept : List (Utf16 × Json)}
    (h : JsValue.storedMembers ((key,value) :: rest) = some kept) (present : value ≠ .undefined) :
    ∃ first others, value.stored = some first ∧ JsValue.storedMembers rest = some others ∧
      kept = (key,first) :: others := by
  have step : JsValue.storedMembers ((key,value) :: rest) = value.stored.bind (fun first =>
      (JsValue.storedMembers rest).bind (fun others => some ((key,first) :: others))) := by
    cases value <;> first | exact absurd rfl present | rfl
  rw [step] at h
  obtain ⟨first,here,h⟩ := Option.bind_eq_some_iff.mp h
  obtain ⟨others,next,last⟩ := Option.bind_eq_some_iff.mp h
  exact ⟨first,others,here,next,(Option.some.inj last).symm⟩

theorem canonicalizeCons {key : Utf16} {value : JsValue} {rest : List (Utf16 × JsValue)} (present : value ≠ .undefined) :
    canonicalizeMembers ((key,value) :: rest) =
      (key,some (canonicalizeJsonValue value)) :: canonicalizeMembers rest := by
  cases value <;> first | exact absurd rfl present | rfl

theorem storedKeys : ∀ {members : List (Utf16 × JsValue)} {kept : List (Utf16 × Json)},
    JsValue.storedMembers members = some kept → (kept.map Prod.fst).Sublist (members.map Prod.fst)
  | [], kept, h => by
    cases h
    exact List.Sublist.refl _
  | (key,value) :: rest, kept, h => by
    by_cases absent : value = .undefined
    · subst absent
      rw [JsValue.storedMembers] at h
      exact (storedKeys h).cons key
    · obtain ⟨first,others,-,next,rfl⟩ := storedCons h absent
      exact (storedKeys next).cons_cons key

mutual

theorem storedCanonical (value : JsValue) (valid : value.wellFormed = true) (json : Json) (h : value.stored = some json) :
    json.distinct = true ∧ canonicalizeJsonValue value = .ok json.canonical := by
  match value with
  | .null => cases h; exact ⟨rfl,rfl⟩
  | .bool _ => cases h; exact ⟨rfl,rfl⟩
  | .number _ => cases h; exact ⟨rfl,rfl⟩
  | .string _ => cases h; exact ⟨rfl,rfl⟩
  | .date (some _) => cases h; exact ⟨rfl,rfl⟩
  | .array items =>
    obtain ⟨kept,inner,last⟩ := Option.bind_eq_some_iff.mp h
    cases last
    obtain ⟨distinct,canonical⟩ := storedItemsCanonical items valid kept inner
    refine ⟨distinct,?_⟩
    rw [canonicalizeJsonValue,canonical]
    rfl
  | .object members =>
    obtain ⟨kept,inner,last⟩ := Option.bind_eq_some_iff.mp h
    cases last
    rw [JsValue.wellFormed,Bool.and_eq_true,decide_eq_true_eq] at valid
    obtain ⟨distinct,canonical⟩ := storedMembersCanonical members valid.2 kept inner
    constructor
    · rw [Json.distinct,Bool.and_eq_true,decide_eq_true_eq]
      exact ⟨valid.1.sublist (storedKeys inner),distinct⟩
    · have keys : ((canonicalizeMembers members).map Prod.fst).Nodup := by
        rw [canonicalizeKeys]
        exact valid.1
      rw [canonicalizeJsonValue,assignKept,sortKeysFilter keys,canonical,
        sortKeysMap (fun value => some (Except.ok (ε := AppError) value)),Json.assignAll]
      rfl

theorem storedItemsCanonical (items : List JsValue) (valid : JsValue.wellFormedItems items = true) (kept : List Json)
    (h : JsValue.storedItems items = some kept) :
    Json.distinctItems kept = true ∧ canonicalizeItems items = .ok (Json.rebuildItems canonicalOrder kept) := by
  match items with
  | [] => cases h; exact ⟨rfl,rfl⟩
  | item :: rest =>
    rw [JsValue.wellFormedItems,Bool.and_eq_true] at valid
    obtain ⟨first,here,h⟩ := Option.bind_eq_some_iff.mp h
    obtain ⟨others,next,last⟩ := Option.bind_eq_some_iff.mp h
    cases last
    obtain ⟨distinct,canonical⟩ := storedCanonical item valid.1 first here
    obtain ⟨distinct',canonical'⟩ := storedItemsCanonical rest valid.2 others next
    rw [Json.distinctItems,distinct,distinct',canonicalizeItems,canonical,canonical']
    exact ⟨rfl,rfl⟩

theorem storedMembersCanonical (members : List (Utf16 × JsValue)) (valid : JsValue.wellFormedMembers members = true)
    (kept : List (Utf16 × Json)) (h : JsValue.storedMembers members = some kept) :
    Json.distinctMembers kept = true ∧ (canonicalizeMembers members).filter (fun entry => entry.2.isSome) =
      (Json.rebuildMembers canonicalOrder kept).map (fun entry => (entry.1,some (.ok entry.2))) := by
  match members with
  | [] => cases h; exact ⟨rfl,rfl⟩
  | (key,value) :: rest =>
    rw [JsValue.wellFormedMembers,Bool.and_eq_true] at valid
    by_cases absent : value = .undefined
    · subst absent
      rw [JsValue.storedMembers] at h
      rw [canonicalizeMembers,List.filter_cons_of_neg Bool.false_ne_true]
      exact storedMembersCanonical rest valid.2 kept h
    · obtain ⟨first,others,here,next,rfl⟩ := storedCons h absent
      obtain ⟨distinct,canonical⟩ := storedCanonical value valid.1 first here
      obtain ⟨distinct',canonical'⟩ := storedMembersCanonical rest valid.2 others next
      rw [Json.distinctMembers,distinct,distinct',canonicalizeCons absent,canonical,List.filter_cons_of_pos rfl,canonical']
      exact ⟨rfl,rfl⟩

end

/-! What was approved is approved when it is read back. -/

theorem toJsMembersMap (members : List (Utf16 × Json)) :
    Json.toJsMembers members = members.map (fun member => (member.1,member.2.toJs)) := by
  induction members with
  | nil => rfl
  | cons member rest ih => rw [Json.toJsMembers,ih,List.map_cons]

theorem toJsItemsMap (items : List Json) : Json.toJsItems items = items.map Json.toJs := by
  induction items with
  | nil => rfl
  | cons item rest ih => rw [Json.toJsItems,ih,List.map_cons]

theorem rebuildItemsMap {arrange : List (Utf16 × Json) → List (Utf16 × Json)} (items : List Json) :
    Json.rebuildItems arrange items = items.map (Json.rebuild arrange) := by
  induction items with
  | nil => rfl
  | cons item rest ih => rw [Json.rebuildItems,ih,List.map_cons]

theorem toJsPresent (value : Json) : value.toJs ≠ .undefined := by
  cases value <;> exact fun same => by cases same

theorem approvedParsed {members : List (Utf16 × Json)} {depth : Nat} :
    assertApprovedMembers (Json.toJsMembers members) depth = .ok () ↔ ∀ member ∈ members,
      isForbiddenKey member.1 = false ∧ assertApprovedValue member.2.toJs (depth+1) = .ok () := by
  rw [approvedMembers,toJsMembersMap,List.forall_mem_map]
  exact forall₂_congr (fun member _ => and_congr Iff.rfl ⟨fun approved => approved (toJsPresent _),fun approved _ => approved⟩)

theorem storedLength : ∀ {items : List JsValue} {kept : List Json}, JsValue.storedItems items = some kept →
    kept.length = items.length
  | [], kept, h => by
    cases h
    rfl
  | item :: rest, kept, h => by
    obtain ⟨first,-,h⟩ := Option.bind_eq_some_iff.mp h
    obtain ⟨others,next,last⟩ := Option.bind_eq_some_iff.mp h
    cases last
    rw [List.length_cons,List.length_cons,storedLength next]

mutual

theorem approvedStored (value : JsValue) (valid : value.wellFormed = true) (json : Json) (h : value.stored = some json)
    (depth : Nat) (approved : assertApprovedValue value depth = .ok ()) : assertApprovedValue json.toJs depth = .ok () := by
  match value with
  | .null => cases h; exact approved
  | .bool _ => cases h; exact approved
  | .number _ => cases h; exact approved
  | .string _ => cases h; exact approved
  | .date (some time) =>
    cases h
    rw [JsValue.wellFormed,Bool.and_eq_true,decide_eq_true_eq,decide_eq_true_eq] at valid
    rw [assertApprovedValue,thenOk,checkOk,decide_eq_true_eq] at approved
    rw [Json.toJs,assertApprovedValue,thenOk,checkOk,checkOk,decide_eq_true_eq,decide_eq_true_eq]
    exact ⟨approved.1,isoLength valid.1 valid.2⟩
  | .array items =>
    obtain ⟨kept,inner,last⟩ := Option.bind_eq_some_iff.mp h
    cases last
    obtain ⟨shallow,small,each⟩ := approvedArray.mp approved
    rw [Json.toJs,toJsItemsMap,approvedArray,List.length_map,storedLength inner,List.forall_mem_map]
    exact ⟨shallow,small,approvedStoredItems items valid kept inner (depth+1) each⟩
  | .object members =>
    obtain ⟨kept,inner,last⟩ := Option.bind_eq_some_iff.mp h
    cases last
    rw [JsValue.wellFormed,Bool.and_eq_true] at valid
    obtain ⟨shallow,inside,small,each⟩ := approvedObject.mp approved
    have fewer := (storedKeys inner).length_le
    rw [List.length_map,List.length_map] at fewer
    rw [Json.toJs,approvedObject,approvedParsed,toJsMembersMap,List.length_map]
    exact ⟨shallow,inside,fewer.trans small,
      approvedStoredMembers members valid.2 kept inner (depth+1) (approvedMembers.mp each)⟩

theorem approvedStoredItems (items : List JsValue) (valid : JsValue.wellFormedItems items = true) (kept : List Json)
    (h : JsValue.storedItems items = some kept) (depth : Nat)
    (approved : ∀ item ∈ items, assertApprovedValue item depth = .ok ()) :
    ∀ item ∈ kept, assertApprovedValue item.toJs depth = .ok () := by
  match items with
  | [] =>
    cases h
    exact List.forall_mem_nil _
  | item :: rest =>
    rw [JsValue.wellFormedItems,Bool.and_eq_true] at valid
    obtain ⟨first,here,h⟩ := Option.bind_eq_some_iff.mp h
    obtain ⟨others,next,last⟩ := Option.bind_eq_some_iff.mp h
    cases last
    rw [List.forall_mem_cons] at approved ⊢
    exact ⟨approvedStored item valid.1 first here depth approved.1,
      approvedStoredItems rest valid.2 others next depth approved.2⟩

theorem approvedStoredMembers (members : List (Utf16 × JsValue)) (valid : JsValue.wellFormedMembers members = true)
    (kept : List (Utf16 × Json)) (h : JsValue.storedMembers members = some kept) (depth : Nat)
    (approved : ∀ member ∈ members, isForbiddenKey member.1 = false ∧
      (member.2 ≠ .undefined → assertApprovedValue member.2 (depth+1) = .ok ())) :
    ∀ member ∈ kept, isForbiddenKey member.1 = false ∧ assertApprovedValue member.2.toJs (depth+1) = .ok () := by
  match members with
  | [] =>
    cases h
    exact List.forall_mem_nil _
  | (key,value) :: rest =>
    rw [JsValue.wellFormedMembers,Bool.and_eq_true] at valid
    rw [List.forall_mem_cons] at approved
    by_cases absent : value = .undefined
    · subst absent
      rw [JsValue.storedMembers] at h
      exact approvedStoredMembers rest valid.2 kept h depth approved.2
    · obtain ⟨first,others,here,next,rfl⟩ := storedCons h absent
      rw [List.forall_mem_cons]
      exact ⟨⟨approved.1.1,approvedStored value valid.1 first here (depth+1) (approved.1.2 absent)⟩,
        approvedStoredMembers rest valid.2 others next depth approved.2⟩

end

theorem arrangedApproved {members : List (Utf16 × Json)} {depth : Nat} :
    (∀ member ∈ sortKeys (Json.rebuildMembers sortKeys members),
        isForbiddenKey member.1 = false ∧ assertApprovedValue member.2.toJs depth = .ok ()) ↔
      ∀ member ∈ members, isForbiddenKey member.1 = false ∧ assertApprovedValue member.2.sorted.toJs depth = .ok () := by
  rw [Json.rebuildMembersMap]
  constructor
  · intro each member mem
    exact each _ ((sortKeysPerm _).mem_iff.mpr (List.mem_map_of_mem mem))
  · intro each member mem
    obtain ⟨original,originalMem,rfl⟩ := List.mem_map.mp ((sortKeysPerm _).mem_iff.mp mem)
    exact each original originalMem

mutual

theorem approvedSorted (value : Json) (depth : Nat) :
    assertApprovedValue value.sorted.toJs depth = .ok () ↔ assertApprovedValue value.toJs depth = .ok () := by
  match value with
  | .null => rfl
  | .bool _ => rfl
  | .number _ => rfl
  | .string _ => rfl
  | .array items =>
    rw [Json.sorted,Json.rebuild,Json.toJs,Json.toJs,toJsItemsMap,toJsItemsMap,approvedArray,approvedArray,rebuildItemsMap]
    simp only [List.length_map,List.forall_mem_map]
    have inner := approvedSortedItems items (depth+1)
    exact and_congr Iff.rfl (and_congr Iff.rfl inner)
  | .object members =>
    rw [Json.sorted,Json.rebuild,Json.toJs,Json.toJs,approvedObject,approvedObject,approvedParsed,approvedParsed,
      arrangedApproved,approvedSortedMembers members (depth+1),toJsMembersMap,toJsMembersMap,List.length_map,
      List.length_map,(sortKeysPerm _).length_eq,Json.rebuildMembersMap,List.length_map]

theorem approvedSortedItems (items : List Json) (depth : Nat) :
    (∀ item ∈ items, assertApprovedValue item.sorted.toJs depth = .ok ()) ↔
      ∀ item ∈ items, assertApprovedValue item.toJs depth = .ok () := by
  match items with
  | [] => simp
  | item :: rest =>
    rw [List.forall_mem_cons,List.forall_mem_cons,approvedSorted item depth,approvedSortedItems rest depth]

theorem approvedSortedMembers (members : List (Utf16 × Json)) (depth : Nat) :
    (∀ member ∈ members, isForbiddenKey member.1 = false ∧
        assertApprovedValue member.2.sorted.toJs (depth+1) = .ok ()) ↔
      ∀ member ∈ members, isForbiddenKey member.1 = false ∧ assertApprovedValue member.2.toJs (depth+1) = .ok () := by
  match members with
  | [] => simp
  | (key,value) :: rest =>
    rw [List.forall_mem_cons,List.forall_mem_cons,approvedSorted value (depth+1),approvedSortedMembers rest depth]

end

theorem approvedPayload {members : List (Utf16 × JsValue)} {depth : Nat} :
    assertApprovedAuditPayload members depth = .ok () ↔ depth ≤ maxDepth ∧ members.length ≤ maxKeys ∧
      assertApprovedMembers members depth = .ok () := by
  simp only [assertApprovedAuditPayload,checkObject,thenOk,checkOk,decide_eq_true_eq,and_assoc]

theorem approvedReordered {members members' : List (Utf16 × Json)} {depth : Nat}
    (same : (Json.object members).sorted = (Json.object members').sorted)
    (approved : assertApprovedAuditPayload (Json.toJsMembers members) depth = .ok ()) :
    assertApprovedAuditPayload (Json.toJsMembers members') depth = .ok () := by
  have lists : sortKeys (Json.rebuildMembers sortKeys members) = sortKeys (Json.rebuildMembers sortKeys members') :=
    Json.object.inj same
  have lengths : members.length = members'.length := by
    have := congrArg List.length lists
    rwa [(sortKeysPerm _).length_eq,(sortKeysPerm _).length_eq,Json.rebuildMembersMap,Json.rebuildMembersMap,
      List.length_map,List.length_map] at this
  obtain ⟨shallow,small,each⟩ := approvedPayload.mp approved
  rw [toJsMembersMap,List.length_map,lengths] at small
  rw [approvedParsed,← approvedSortedMembers members depth,← arrangedApproved,lists,arrangedApproved,
    approvedSortedMembers members' depth] at each
  rw [approvedPayload,approvedParsed,toJsMembersMap,List.length_map]
  exact ⟨shallow,small,each⟩

/-! The round trip of a whole payload. -/

section

variable {members : List (Utf16 × JsValue)} {json : Json} {payload : JsonValue}
  (valid : (JsValue.object members).wellFormed = true) (serialized : (JsValue.object members).stored = some json)
  (column : payload.value.sorted = json.sorted)
include serialized column

theorem columnRecord : ∃ kept returned, JsValue.storedMembers members = some kept ∧ json = .object kept ∧
    payload.value = .object returned := by
  obtain ⟨kept,inner,last⟩ := Option.bind_eq_some_iff.mp serialized
  cases last
  cases value : payload.value with
  | object returned => exact ⟨kept,returned,inner,rfl,rfl⟩
  | _ =>
    rw [value] at column
    cases column

include valid

theorem columnCanonical : canonicalizeJsonValue (.object members) =
    canonicalizeJsonValue (.object (Json.toJsMembers payload.record)) := by
  obtain ⟨kept,returned,-,rfl,returnedValue⟩ := columnRecord serialized column
  obtain ⟨distinct,canonical⟩ := storedCanonical _ valid _ serialized
  have record : JsValue.object (Json.toJsMembers payload.record) = payload.value.toJs := by
    rw [JsonValue.record,returnedValue]
    rfl
  rw [record,Json.canonicalizeToJs,canonical,← Json.sortedCanonical distinct,← column,
    Json.sortedCanonical payload.distinct]

theorem columnApproved (approved : assertApprovedAuditPayload members 0 = .ok ()) :
    payload.isRecord = true ∧ assertApprovedAuditPayload (Json.toJsMembers payload.record) 0 = .ok () := by
  obtain ⟨kept,returned,inner,rfl,returnedValue⟩ := columnRecord serialized column
  rw [JsValue.wellFormed,Bool.and_eq_true] at valid
  obtain ⟨shallow,small,each⟩ := approvedPayload.mp approved
  have fewer := (storedKeys inner).length_le
  rw [List.length_map,List.length_map] at fewer
  have written : assertApprovedAuditPayload (Json.toJsMembers kept) 0 = .ok () := by
    rw [approvedPayload,approvedParsed,toJsMembersMap,List.length_map]
    exact ⟨shallow,fewer.trans small,approvedStoredMembers members valid.2 kept inner 0 (approvedMembers.mp each)⟩
  rw [JsonValue.isRecord,JsonValue.record,returnedValue]
  refine ⟨rfl,approvedReordered ?_ written⟩
  rw [← returnedValue,column]

end

end ESign
