import ESign.JsText

/-! JSON values and their text. `stringify` is JSON.stringify on a value whose
members are listed in the order of its own keys, `parse` is JSON.parse on the texts
that `stringify` writes: no white space, numbers in their shortest form. -/
namespace ESign
open JsText

inductive Json where
  | null
  | bool (value : Bool)
  | number (value : JsNumber)
  | string (value : Utf16)
  | array (items : List Json)
  | object (members : List (Utf16 × Json))

namespace Json

mutual

def stringify : Json → Utf16
  | .null => [110,117,108,108]
  | .bool true => [116,114,117,101]
  | .bool false => [102,97,108,115,101]
  | .number value => value.text
  | .string value => quote value
  | .array items => 91 :: (stringifyItems items ++ [93])
  | .object members => 123 :: (stringifyMembers members ++ [125])

def stringifyItems : List Json → Utf16
  | [] => []
  | [item] => stringify item
  | item :: next :: rest => stringify item ++ 44 :: stringifyItems (next :: rest)

def stringifyMembers : List (Utf16 × Json) → Utf16
  | [] => []
  | [(key,value)] => quote key ++ 58 :: stringify value
  | (key,value) :: next :: rest => quote key ++ 58 :: (stringify value ++ 44 :: stringifyMembers (next :: rest))

end

def readWord (word : Utf16) (value : Json) (text : Utf16) : Option (Json × Utf16) :=
  if text.take word.length = word then some (value,text.drop word.length) else none

mutual

def readValue : Nat → Utf16 → Option (Json × Utf16)
  | 0, _ => none
  | _, [] => none
  | fuel+1, c :: rest =>
      if c = 34 then (readString (c :: rest)).map (fun (value,rest) => (.string value,rest))
      else if c = 91 then
        if rest.head? = some 93 then some (.array [],rest.drop 1)
        else (readItems fuel rest).map (fun (items,rest) => (.array items,rest))
      else if c = 123 then
        if rest.head? = some 125 then some (.object [],rest.drop 1)
        else (readMembers fuel rest).map (fun (members,rest) => (.object members,rest))
      else if c = 110 then readWord [117,108,108] .null rest
      else if c = 116 then readWord [114,117,101] (.bool true) rest
      else if c = 102 then readWord [97,108,115,101] (.bool false) rest
      else (readNumber ((c :: rest).takeWhile isNumberUnit)).map (fun value =>
        (.number value,(c :: rest).dropWhile isNumberUnit))

def readItems : Nat → Utf16 → Option (List Json × Utf16)
  | 0, _ => none
  | fuel+1, text =>
      match readValue fuel text with
      | some (item,c :: rest) =>
          if c = 93 then some ([item],rest)
          else if c = 44 then (readItems fuel rest).map (fun (items,rest) => (item :: items,rest))
          else none
      | _ => none

def readMembers : Nat → Utf16 → Option (List (Utf16 × Json) × Utf16)
  | 0, _ => none
  | fuel+1, text =>
      match readString text with
      | some (key,c :: rest) =>
          if c ≠ 58 then none
          else match readValue fuel rest with
            | some (value,c :: rest) =>
                if c = 125 then some ([(key,value)],rest)
                else if c = 44 then (readMembers fuel rest).map (fun (members,rest) => ((key,value) :: members,rest))
                else none
            | _ => none
      | _ => none

end

def parse (text : Utf16) : Option Json :=
  match readValue (2*text.length) text with
  | some (value,[]) => some value
  | _ => none

/-! How much fuel a value takes to read. -/

mutual

def cost : Json → Nat
  | .array items => 1+costItems items
  | .object members => 1+costMembers members
  | _ => 1

def costItems : List Json → Nat
  | [] => 0
  | item :: rest => 1+max item.cost (costItems rest)

def costMembers : List (Utf16 × Json) → Nat
  | [] => 0
  | (_,value) :: rest => 1+max value.cost (costMembers rest)

end

/-- No number goes on in the text that follows. -/
def Stops (text : Utf16) : Prop := ∀ u ∈ text.head?, isNumberUnit u = false

theorem stringifyHead (value : Json) : ∃ u rest, value.stringify = u :: rest ∧ u ≠ 93 ∧ u ≠ 125 := by
  cases value with
  | null => exact ⟨_,_,rfl,by decide⟩
  | bool value => cases value <;> exact ⟨_,_,rfl,by decide⟩
  | number value =>
    obtain ⟨u,rest,same,first⟩ := value.head
    refine ⟨u,rest,same,?_⟩
    rcases first with rfl | digit
    · decide
    · constructor <;> (rintro rfl; revert digit; decide)
  | string value => exact ⟨_,_,rfl,by decide⟩
  | array items => exact ⟨_,_,rfl,by decide⟩
  | object members => exact ⟨_,_,rfl,by decide⟩

theorem membersHead {members : List (Utf16 × Json)} (some : members ≠ []) :
    ∃ rest, stringifyMembers members = 34 :: rest := by
  match members with
  | [] => exact absurd rfl some
  | [(key,value)] => exact ⟨_,rfl⟩
  | (key,value) :: next :: rest => exact ⟨_,rfl⟩

theorem itemsHead {items : List Json} (some : items ≠ []) :
    ∃ u rest, stringifyItems items = u :: rest ∧ u ≠ 93 := by
  match items with
  | [] => exact absurd rfl some
  | [item] =>
    obtain ⟨u,rest,same,other,-⟩ := stringifyHead item
    exact ⟨u,rest,same,other⟩
  | item :: next :: rest =>
    obtain ⟨u,tail,same,other,-⟩ := stringifyHead item
    exact ⟨u,_,by rw [stringifyItems,same,List.cons_append],other⟩

theorem readNumberText (value : JsNumber) (fuel : Nat) (rest : Utf16) (stops : Stops rest) :
    readValue (fuel+1) (value.text ++ rest) = some (.number value,rest) := by
  obtain ⟨u,tail,same,first⟩ := value.head
  have whole := spanWhile isNumberUnit value.text rest value.units stops
  have units : ∀ w : UInt16, isNumberUnit w = false → w ≠ 45 → u ≠ w := by
    rintro w other notMinus rfl
    rcases first with minus | digit
    · exact notMinus minus
    · rw [digitIsNumberUnit digit] at other; cases other
  rw [same,List.cons_append] at whole ⊢
  have read := value.readText
  rw [same] at read
  simp only [readValue,units 34 (by decide) (by decide),units 91 (by decide) (by decide),units 123 (by decide) (by decide),
    units 110 (by decide) (by decide),units 116 (by decide) (by decide),units 102 (by decide) (by decide),if_false,
    whole.1,whole.2,read,Option.map_some]

theorem costPositive (value : Json) : 1 ≤ value.cost := by
  cases value <;> simp [cost]

mutual

theorem readStringify (value : Json) (fuel : Nat) (enough : value.cost ≤ fuel) (rest : Utf16) (stops : Stops rest) :
    readValue fuel (value.stringify ++ rest) = some (value,rest) := by
  have positive := value.costPositive
  obtain ⟨fuel,rfl⟩ : ∃ n, fuel = n+1 := ⟨fuel-1,by omega⟩
  match value with
  | .null => simp [stringify,readValue,readWord]
  | .bool true => simp [stringify,readValue,readWord]
  | .bool false => simp [stringify,readValue,readWord]
  | .number value => exact readNumberText value fuel rest stops
  | .string value =>
    have read := readStringQuoted value rest
    simp only [stringify]
    unfold quote at read ⊢
    rw [List.cons_append] at read ⊢
    simp only [readValue,if_true,read,Option.map_some]
  | .array [] => simp [stringify,stringifyItems,readValue]
  | .array (item :: items) =>
    have read := readItemsText (item :: items) fuel (by simp only [cost] at enough; omega) rest (by simp)
    obtain ⟨u,tail,same,other⟩ := itemsHead (List.cons_ne_nil item items)
    rw [same,List.cons_append] at read
    simp only [stringify,same,List.cons_append,List.append_assoc,List.nil_append]
    simp [readValue,other,read]
  | .object [] => simp [stringify,stringifyMembers,readValue]
  | .object (member :: members) =>
    have read := readMembersText (member :: members) fuel (by simp only [cost] at enough; omega) rest (by simp)
    obtain ⟨tail,same⟩ := membersHead (List.cons_ne_nil member members)
    rw [same,List.cons_append] at read
    simp only [stringify,same,List.cons_append,List.append_assoc,List.nil_append]
    simp [readValue,read]

theorem readItemsText (items : List Json) (fuel : Nat) (enough : costItems items ≤ fuel) (rest : Utf16)
    (nonempty : items ≠ []) : readItems fuel (stringifyItems items ++ 93 :: rest) = some (items,rest) := by
  match items with
  | [] => exact absurd rfl nonempty
  | [item] =>
    simp only [costItems] at enough
    obtain ⟨fuel,rfl⟩ : ∃ n, fuel = n+1 := ⟨fuel-1,by omega⟩
    rw [stringifyItems,readItems,readStringify item fuel (by omega) (93 :: rest) (by simp [Stops,isNumberUnit,isDigit])]
    simp
  | item :: next :: later =>
    simp only [costItems] at enough
    obtain ⟨fuel,rfl⟩ : ∃ n, fuel = n+1 := ⟨fuel-1,by omega⟩
    have tail := readItemsText (next :: later) fuel (by simp only [costItems]; omega) rest (by simp)
    rw [stringifyItems,List.append_assoc,List.cons_append,readItems,
      readStringify item fuel (by omega) _ (by simp [Stops,isNumberUnit,isDigit])]
    simp [tail]

theorem readMembersText (members : List (Utf16 × Json)) (fuel : Nat) (enough : costMembers members ≤ fuel) (rest : Utf16)
    (nonempty : members ≠ []) : readMembers fuel (stringifyMembers members ++ 125 :: rest) = some (members,rest) := by
  match members with
  | [] => exact absurd rfl nonempty
  | [(key,value)] =>
    simp only [costMembers] at enough
    obtain ⟨fuel,rfl⟩ : ∃ n, fuel = n+1 := ⟨fuel-1,by omega⟩
    have read := readStringify value fuel (by omega) (125 :: rest) (by simp [Stops,isNumberUnit,isDigit])
    rw [stringifyMembers,List.append_assoc,List.cons_append,readMembers,readStringQuoted]
    simp [read]
  | (key,value) :: next :: later =>
    simp only [costMembers] at enough
    obtain ⟨fuel,rfl⟩ : ∃ n, fuel = n+1 := ⟨fuel-1,by omega⟩
    have tail := readMembersText (next :: later) fuel (by simp only [costMembers]; omega) rest (by simp)
    have read := readStringify value fuel (by omega) (44 :: (stringifyMembers (next :: later) ++ 125 :: rest))
      (by simp [Stops,isNumberUnit,isDigit])
    rw [stringifyMembers,List.append_assoc,List.cons_append,List.append_assoc,List.cons_append,readMembers,readStringQuoted]
    simp [read,tail]

end

theorem quoteLength (text : Utf16) : 2 ≤ (quote text).length := by simp [quote]

mutual

theorem costLe (value : Json) : value.cost+1 ≤ 2*value.stringify.length := by
  match value with
  | .null => simp [cost,stringify]
  | .bool true => simp [cost,stringify]
  | .bool false => simp [cost,stringify]
  | .number value =>
    obtain ⟨u,rest,same,-⟩ := value.head
    simp only [cost,stringify,same,List.length_cons]
    omega
  | .string value =>
    have := quoteLength value
    simp only [cost,stringify]
    omega
  | .array items =>
    have := costItemsLe items
    simp only [cost,stringify,List.length_cons,List.length_append,List.length_nil]
    omega
  | .object members =>
    have := costMembersLe members
    simp only [cost,stringify,List.length_cons,List.length_append,List.length_nil]
    omega

theorem costItemsLe (items : List Json) : costItems items ≤ 2*(stringifyItems items).length := by
  match items with
  | [] => simp [costItems]
  | [item] =>
    have := costLe item
    simp only [costItems,stringifyItems]
    omega
  | item :: next :: later =>
    have := costLe item
    have := costItemsLe (next :: later)
    rw [costItems,stringifyItems,List.length_append,List.length_cons]
    omega

theorem costMembersLe (members : List (Utf16 × Json)) : costMembers members ≤ 2*(stringifyMembers members).length := by
  match members with
  | [] => simp [costMembers]
  | [(key,value)] =>
    have := costLe value
    simp only [costMembers,stringifyMembers,List.length_append,List.length_cons]
    omega
  | (key,value) :: next :: later =>
    have := costLe value
    have := costMembersLe (next :: later)
    rw [costMembers,stringifyMembers,List.length_append,List.length_cons,List.length_append,List.length_cons]
    omega

end

theorem parseStringify (value : Json) : parse value.stringify = some value := by
  have read := readStringify value (2*value.stringify.length) (by have := value.costLe; omega) [] (by simp [Stops])
  rw [List.append_nil] at read
  rw [parse,read]

theorem stringifyInjective : Function.Injective stringify := by
  intro left right same
  have read := parseStringify left
  rw [same,parseStringify right] at read
  exact (Option.some.inj read).symm

end Json

end ESign
