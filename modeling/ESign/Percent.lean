import Mathlib.Tactic

/-! Percent encoding of text: the octets of a character's UTF-8, each written as two hex
digits, and what reads them back. -/
namespace ESign

namespace Percent

def octets (c : Char) : List Nat :=
  let n := c.toNat
  if n < 0x80 then [n]
  else if n < 0x800 then [0xC0+n/64,0x80+n%64]
  else if n < 0x10000 then [0xE0+n/4096,0x80+n/64%64,0x80+n%64]
  else [0xF0+n/262144,0x80+n/4096%64,0x80+n/64%64,0x80+n%64]

def hexDigit (n : Nat) : Char := Char.ofNat (if n < 10 then 48+n else 55+n)

def hexValue (c : Char) : Option Nat :=
  if 48 ≤ c.toNat ∧ c.toNat ≤ 57 then some (c.toNat - 48)
  else if 65 ≤ c.toNat ∧ c.toNat ≤ 70 then some (c.toNat - 55)
  else if 97 ≤ c.toNat ∧ c.toNat ≤ 102 then some (c.toNat - 87)
  else none

def escape (octet : Nat) : List Char := ['%',hexDigit (octet/16),hexDigit (octet%16)]

def isAlphanumeric (c : Char) : Bool :=
  ('a' ≤ c && c ≤ 'z') || ('A' ≤ c && c ≤ 'Z') || ('0' ≤ c && c ≤ '9')

/-- Letters, digits and `-_.!~*'()`. -/
def unreserved (c : Char) : Bool := isAlphanumeric c || c ∈ ['-','_','.','!','~','*','\'','(',')']

def encodeChar (c : Char) : List Char := if unreserved c then [c] else (octets c).flatMap escape

def encodeURIComponent (text : List Char) : List Char := text.flatMap encodeChar

def octetOf (high low : Char) : Option Nat :=
  (hexValue high).bind fun h => (hexValue low).map fun l => 16*h+l

/-- How many octets follow the first one of a character. -/
def following (octet : Nat) : Option Nat :=
  if octet < 0x80 then some 0
  else if octet < 0xC0 then none
  else if octet < 0xE0 then some 1
  else if octet < 0xF0 then some 2
  else if octet < 0xF8 then some 3
  else none

def atLeast (least value : Nat) : Option Char :=
  if least ≤ value ∧ value.isValidChar then some (Char.ofNat value) else none

/-- The character of a whole sequence, which is the shortest one for it. -/
def charOf : List Nat → Option Char
  | [a,b] => atLeast 0x80 (a%32*64+b%64)
  | [a,b,c] => atLeast 0x800 ((a%16*64+b%64)*64+c%64)
  | [a,b,c,d] => atLeast 0x10000 (((a%8*64+b%64)*64+c%64)*64+d%64)
  | _ => none

/-- Reads on, with the octets of a character that is not complete yet and how many it lacks. -/
def decodeFrom : List Nat → Nat → List Char → Option (List Char)
  | _, missing, [] => if missing = 0 then some [] else none
  | pending, missing, c :: rest =>
    if c = '%' then
      match rest with
      | high :: low :: rest =>
        match octetOf high low, missing with
        | none, _ => none
        | some octet, 0 =>
          match following octet with
          | none => none
          | some 0 => (decodeFrom [] 0 rest).map (Char.ofNat octet :: ·)
          | some (more+1) => decodeFrom [octet] (more+1) rest
        | some octet, more+1 =>
          if octet/64 ≠ 2 then none
          else if more = 0 then (charOf (pending ++ [octet])).bind fun char => (decodeFrom [] 0 rest).map (char :: ·)
          else decodeFrom (pending ++ [octet]) more rest
      | _ => none
    else if missing = 0 then (decodeFrom [] 0 rest).map (c :: ·) else none

/-- `none` where a sequence is malformed and the call throws. -/
def decodeURIComponent (text : List Char) : Option (List Char) := decodeFrom [] 0 text

/-! Each octet is read as it was written. -/

theorem hexRead : ∀ n, n < 16 → hexValue (hexDigit n) = some n := by decide

theorem octetRead {octet : Nat} (small : octet < 256) :
    octetOf (hexDigit (octet/16)) (hexDigit (octet%16)) = some octet := by
  unfold octetOf
  rw [hexRead _ (by omega),hexRead _ (by omega)]
  simp only [Option.bind_some,Option.map_some,Option.some.injEq]
  omega

theorem leadRead {octet more : Nat} {rest : List Char} (small : octet < 256)
    (lead : following octet = some (more+1)) :
    decodeFrom [] 0 (escape octet ++ rest) = decodeFrom [octet] (more+1) rest := by
  simp only [escape,List.cons_append,List.nil_append]
  rw [decodeFrom.eq_def]
  simp only [octetRead small,lead,if_true]

theorem asciiRead {octet : Nat} {rest : List Char} (small : octet < 0x80) :
    decodeFrom [] 0 (escape octet ++ rest) = (decodeFrom [] 0 rest).map (Char.ofNat octet :: ·) := by
  simp only [escape,List.cons_append,List.nil_append]
  rw [decodeFrom.eq_def]
  simp only [octetRead (by omega : octet < 256),following,if_pos small,if_true]

theorem middleRead {pending : List Nat} {octet more : Nat} {rest : List Char} (tail : octet/64 = 2) :
    decodeFrom pending (more+2) (escape octet ++ rest) = decodeFrom (pending ++ [octet]) (more+1) rest := by
  simp only [escape,List.cons_append,List.nil_append]
  rw [decodeFrom.eq_def]
  simp only [octetRead (by omega : octet < 256)]
  simp [tail]

theorem lastRead {pending : List Nat} {octet : Nat} {char : Char} {rest : List Char} (tail : octet/64 = 2)
    (whole : charOf (pending ++ [octet]) = some char) :
    decodeFrom pending 1 (escape octet ++ rest) = (decodeFrom [] 0 rest).map (char :: ·) := by
  simp only [escape,List.cons_append,List.nil_append]
  rw [decodeFrom.eq_def]
  simp only [octetRead (by omega : octet < 256)]
  simp [tail,whole]

theorem plainRead {c : Char} {rest : List Char} (plain : c ≠ '%') :
    decodeFrom [] 0 (c :: rest) = (decodeFrom [] 0 rest).map (c :: ·) := by
  rw [decodeFrom.eq_def]
  simp [plain]

theorem octetsRead (c : Char) (rest : List Char) :
    decodeFrom [] 0 ((octets c).flatMap escape ++ rest) = (decodeFrom [] 0 rest).map (c :: ·) := by
  have valid : c.toNat.isValidChar := c.valid
  have bound : c.toNat < 0x110000 := by
    unfold Nat.isValidChar at valid
    omega
  have back : Char.ofNat c.toNat = c := Char.ofNat_toNat c
  unfold octets
  by_cases one : c.toNat < 0x80
  · simp only [if_pos one,List.flatMap_cons,List.flatMap_nil,List.append_nil]
    rw [asciiRead one,back]
  by_cases two : c.toNat < 0x800
  · simp only [if_neg one,if_pos two,List.flatMap_cons,List.flatMap_nil,List.append_nil,List.append_assoc]
    have lead : following (0xC0+c.toNat/64) = some 1 := by
      simp only [following]
      split_ifs <;> first | rfl | omega
    have whole : charOf [0xC0+c.toNat/64,0x80+c.toNat%64] = some c := by
      have value : (0xC0+c.toNat/64)%32*64+(0x80+c.toNat%64)%64 = c.toNat := by omega
      simp only [charOf,atLeast,value]
      rw [if_pos ⟨by omega,valid⟩,back]
    rw [leadRead (by omega) lead,lastRead (by omega) whole]
  by_cases three : c.toNat < 0x10000
  · simp only [if_neg one,if_neg two,if_pos three,List.flatMap_cons,List.flatMap_nil,List.append_nil,List.append_assoc]
    have lead : following (0xE0+c.toNat/4096) = some 2 := by
      simp only [following]
      split_ifs <;> first | rfl | omega
    have whole : charOf [0xE0+c.toNat/4096,0x80+c.toNat/64%64,0x80+c.toNat%64] = some c := by
      have value : ((0xE0+c.toNat/4096)%16*64+(0x80+c.toNat/64%64)%64)*64+(0x80+c.toNat%64)%64 = c.toNat := by omega
      simp only [charOf,atLeast,value]
      rw [if_pos ⟨by omega,valid⟩,back]
    rw [leadRead (by omega) lead,middleRead (by omega),lastRead (by omega) whole]
  simp only [if_neg one,if_neg two,if_neg three,List.flatMap_cons,List.flatMap_nil,List.append_nil,List.append_assoc]
  have lead : following (0xF0+c.toNat/262144) = some 3 := by
    simp only [following]
    split_ifs <;> first | rfl | omega
  have whole : charOf [0xF0+c.toNat/262144,0x80+c.toNat/4096%64,0x80+c.toNat/64%64,0x80+c.toNat%64] = some c := by
    have value : (((0xF0+c.toNat/262144)%8*64+(0x80+c.toNat/4096%64)%64)*64+(0x80+c.toNat/64%64)%64)*64
        +(0x80+c.toNat%64)%64 = c.toNat := by omega
    simp only [charOf,atLeast,value]
    rw [if_pos ⟨by omega,valid⟩,back]
  rw [leadRead (by omega) lead,middleRead (by omega),middleRead (by omega),lastRead (by omega) whole]

theorem charRead (c : Char) (rest : List Char) :
    decodeFrom [] 0 (encodeChar c ++ rest) = (decodeFrom [] 0 rest).map (c :: ·) := by
  unfold encodeChar
  by_cases plain : unreserved c = true
  · have percent : c ≠ '%' := by
      intro same
      rw [same] at plain
      exact absurd plain (by decide)
    rw [if_pos plain,List.singleton_append,plainRead percent]
  · rw [if_neg plain,octetsRead]

theorem decodeEncode (text : List Char) : decodeURIComponent (encodeURIComponent text) = some text := by
  unfold decodeURIComponent encodeURIComponent
  induction text with
  | nil => rfl
  | cons c text rest => rw [List.flatMap_cons,charRead,rest,Option.map_some]

/-! What is written is plain: unreserved characters, percent signs and hex digits. -/

def isPlain (c : Char) : Bool := unreserved c || c = '%'

theorem charBound {c d : Char} (most : c ≤ d) : c.toNat ≤ d.toNat := by
  rw [Char.le_def,UInt32.le_iff_toNat_le] at most
  exact most

theorem alphanumericBound {c : Char} (char : isAlphanumeric c = true) : c.toNat < 127 := by
  simp only [isAlphanumeric,Bool.or_eq_true,Bool.and_eq_true,decide_eq_true_eq] at char
  rcases char with (⟨-,most⟩ | ⟨-,most⟩) | ⟨-,most⟩ <;>
    exact Nat.lt_of_le_of_lt (charBound most) (by decide)

theorem plainBound {c : Char} (plain : isPlain c = true) : c.toNat < 127 := by
  simp only [isPlain,unreserved,Bool.or_eq_true,decide_eq_true_eq,List.mem_cons,List.not_mem_nil,or_false] at plain
  rcases plain with (char | listed) | rfl
  · exact alphanumericBound char
  · rcases listed with rfl | rfl | rfl | rfl | rfl | rfl | rfl | rfl | rfl <;> decide
  · decide

theorem digitPlain : ∀ n, n < 16 → isPlain (hexDigit n) = true := by decide

theorem escapePlain {octet : Nat} (small : octet < 256) : ∀ c ∈ escape octet, isPlain c = true := by
  intro c among
  simp only [escape,List.mem_cons,List.not_mem_nil,or_false] at among
  rcases among with rfl | rfl | rfl
  · decide
  · exact digitPlain _ (by omega)
  · exact digitPlain _ (by omega)

theorem octetsSmall (c : Char) : ∀ octet ∈ octets c, octet < 256 := by
  have valid : c.toNat.isValidChar := c.valid
  intro octet among
  unfold Nat.isValidChar at valid
  simp only [octets] at among
  split_ifs at among <;>
    simp only [List.mem_cons,List.not_mem_nil,or_false] at among <;> omega

theorem encodedPlain (text : List Char) : ∀ c ∈ encodeURIComponent text, isPlain c = true := by
  intro c among
  obtain ⟨char,-,written⟩ := List.mem_flatMap.mp among
  unfold encodeChar at written
  split at written
  · rename_i plain
    rw [List.mem_singleton.mp written]
    simp [isPlain,plain]
  · obtain ⟨octet,one,digit⟩ := List.mem_flatMap.mp written
    exact escapePlain (octetsSmall char octet one) c digit

end Percent

end ESign
