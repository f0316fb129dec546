import ESign.Percent
import ESign.UseCases

/-! The cookie header a request comes with: what `setSessionCookies` wrote, among whatever
else the client holds. -/
namespace ESign

open Percent

structure SessionCookieSettings where
  sessionCookieName : Text
  csrfCookieName : Text
  deriving DecidableEq, Repr

structure SessionTokens where
  sessionToken : Text
  csrfToken : Text
  deriving DecidableEq, Repr

/-- The cookies by name, in the order they were first set. -/
abbrev CookieMap := List (Text × Text)

def CookieMap.set (name value : Text) : CookieMap → CookieMap
  | [] => [(name,value)]
  | entry :: rest => if entry.1 = name then (name,value) :: rest else entry :: CookieMap.set name value rest

def CookieMap.get (cookies : CookieMap) (name : Text) : Option Text := List.lookup name cookies

/-- The name and the raw value of one part, when it has both. -/
def cookieOf (part : Text) : Option (Text × Text) :=
  let trimmed := trim part
  let separator := trimmed.idxOf '='
  if separator = 0 ∨ separator = trimmed.length then none
  else some (trim (trimmed.take separator),trimmed.drop (separator+1))

def parsePart (cookies : CookieMap) (part : Text) : Option CookieMap :=
  match cookieOf part with
  | none => some cookies
  | some (name,rawValue) => (decodeURIComponent rawValue).map (cookies.set name ·)

/-- `none` where the call throws. -/
def parseCookieHeader : Option Text → Option CookieMap
  | none => some []
  | some header => if trim header = [] then some [] else (header.splitOn ';').foldlM parsePart []

/-- Letters, digits and the signs a token may have. -/
def isNameChar (c : Char) : Bool :=
  isAlphanumeric c || c ∈ ['!','#','$','%','&','\'','*','+','-','.','^','_','|','~',Char.ofNat 96]

/-- What the response writes of a cookie; a name that is no token throws. -/
def writeCookie (name value : Text) : Option Text :=
  if name ≠ [] ∧ name.all isNameChar then some (name ++ '=' :: encodeURIComponent value) else none

def setSessionCookies (settings : SessionCookieSettings) (tokens : SessionTokens) : Option (Text × Text) := do
  let session ← writeCookie settings.sessionCookieName tokens.sessionToken
  let csrf ← writeCookie settings.csrfCookieName tokens.csrfToken
  some (session,csrf)

/-! A header that carries the two cookies once. -/

/-- The part reads `name=value`, with blanks around it or around the name. -/
def NamedBy (name part : Text) : Prop :=
  ∃ left value, trim part = left ++ '=' :: value ∧ '=' ∉ left ∧ trim left = name

def Padded (text part : Text) : Prop :=
  ∃ before after, part = before ++ text ++ after ∧ (∀ c ∈ before, isSpace c = true) ∧ ∀ c ∈ after, isSpace c = true

/-- The header joins the two cookies that were set, in any place, with others, none of which
has one of their names. -/
inductive Carries (settings : SessionCookieSettings) (session csrf : Text) : Text → List Text → Prop
  | joined {parts others sessionPart csrfPart} (order : parts.Perm (sessionPart :: csrfPart :: others))
      (sessionHeld : Padded session sessionPart) (csrfHeld : Padded csrf csrfPart)
      (whole : ∀ part ∈ others, ';' ∉ part)
      (sessionOnce : ∀ part ∈ csrfPart :: others, ¬ NamedBy settings.sessionCookieName part)
      (csrfOnce : ∀ part ∈ sessionPart :: others, ¬ NamedBy settings.csrfCookieName part) :
      Carries settings session csrf ([';'].intercalate parts) others

/-- What stands behind the first `=` of the part, if it has a name before it, is well formed. -/
def Decodes (part : Text) : Prop :=
  ∀ left value, trim part = left ++ '=' :: value → '=' ∉ left → left ≠ [] → (decodeURIComponent value).isSome = true

/-! What the parts of a header are read as. -/

theorem cookieOfWritten {part left raw : Text} (written : trim part = left ++ '=' :: raw) (first : '=' ∉ left) :
    cookieOf part = if left = [] then none else some (trim left,raw) := by
  have place : (left ++ '=' :: raw).idxOf '=' = left.length := by
    rw [List.idxOf_append_of_notMem first,List.idxOf_cons_self,Nat.add_zero]
  unfold cookieOf
  simp only [written,place]
  by_cases empty : left = []
  · simp [empty]
  · simp [empty]

theorem cookieOfPlain {part : Text} (plain : '=' ∉ trim part) : cookieOf part = none := by
  have place : (trim part).idxOf '=' = (trim part).length := List.idxOf_eq_length_iff.mpr plain
  unfold cookieOf
  simp [place]

theorem cookieOfIff {part name raw : Text} :
    cookieOf part = some (name,raw)
      ↔ ∃ left, trim part = left ++ '=' :: raw ∧ '=' ∉ left ∧ left ≠ [] ∧ trim left = name := by
  constructor
  · intro found
    by_cases holds : '=' ∈ trim part
    · obtain ⟨left,value,written,first⟩ := List.eq_append_cons_of_mem holds
      rw [cookieOfWritten written first] at found
      split at found
      · cases found
      · rename_i named
        cases found
        exact ⟨left,written,first,named,rfl⟩
    · rw [cookieOfPlain holds] at found
      cases found
  · rintro ⟨left,written,first,named,rfl⟩
    rw [cookieOfWritten written first,if_neg named]

theorem parsePartIff (cookies : CookieMap) {part : Text} :
    (parsePart cookies part).isSome = true ↔ Decodes part := by
  unfold parsePart
  constructor
  · intro read left value written first named
    rw [cookieOfWritten written first,if_neg named] at read
    simpa using read
  · intro decodes
    cases found : cookieOf part with
    | none => rfl
    | some entry =>
      obtain ⟨left,written,first,named,-⟩ := cookieOfIff.mp (show cookieOf part = some (entry.1,entry.2) from found)
      simpa using decodes left entry.2 written first named

theorem foldIff (cookies : CookieMap) {parts : List Text} :
    (parts.foldlM parsePart cookies).isSome = true ↔ ∀ part ∈ parts, Decodes part := by
  induction parts generalizing cookies with
  | nil => simp
  | cons part parts rest =>
    rw [List.foldlM_cons,List.forall_mem_cons]
    cases read : parsePart cookies part with
    | none =>
      have fails : ¬ Decodes part := by
        intro decodes
        rw [← parsePartIff cookies,read] at decodes
        cases decodes
      simp [fails]
    | some next =>
      have decodes : Decodes part := (parsePartIff cookies).mp (by rw [read]; rfl)
      simpa [decodes] using rest next

/-! What a name is mapped to. -/

@[simp] theorem getSet {cookies : CookieMap} {name value other : Text} :
    (cookies.set name value).get other = if name = other then some value else cookies.get other := by
  induction cookies with
  | nil =>
    unfold CookieMap.set CookieMap.get
    rw [List.lookup_cons]
    by_cases same : name = other
    · simp [same]
    · have differs : (other == name) = false := by simpa using Ne.symm same
      simp [same,differs]
  | cons entry rest later =>
    unfold CookieMap.get at later ⊢
    obtain ⟨key,held⟩ := entry
    unfold CookieMap.set
    by_cases taken : key = name
    · subst taken
      by_cases same : key = other
      · simp [same]
      · have differs : (other == key) = false := by simpa using Ne.symm same
        simp [same,differs,List.lookup_cons]
    · rw [if_neg taken,List.lookup_cons,List.lookup_cons]
      by_cases own : other = key
      · subst own
        simp [Ne.symm taken]
      · have differs : (other == key) = false := by simpa using own
        simpa [differs] using later

/-! What is written of a cookie has no white space, and nothing that parts it from the next. -/

theorem nameBound {c : Char} (char : isNameChar c = true) : c.toNat < 127 := by
  simp only [isNameChar,Bool.or_eq_true,decide_eq_true_eq,List.mem_cons,List.not_mem_nil,or_false] at char
  rcases char with char | listed
  · exact alphanumericBound char
  · rcases listed with rfl | rfl | rfl | rfl | rfl | rfl | rfl | rfl | rfl | rfl | rfl | rfl | rfl | rfl | rfl <;> decide

theorem nameGraphic : ∀ n, n < 127 → isNameChar (Char.ofNat n) = true →
    isSpace (Char.ofNat n) = false ∧ Char.ofNat n ≠ ';' ∧ Char.ofNat n ≠ '=' := by decide

theorem plainGraphic : ∀ n, n < 127 → isPlain (Char.ofNat n) = true →
    isSpace (Char.ofNat n) = false ∧ Char.ofNat n ≠ ';' := by decide

theorem nameSolid {c : Char} (char : isNameChar c = true) : isSpace c = false ∧ c ≠ ';' ∧ c ≠ '=' := by
  have graphic := nameGraphic c.toNat (nameBound char)
  rw [Char.ofNat_toNat] at graphic
  exact graphic char

theorem plainSolid {c : Char} (plain : isPlain c = true) : isSpace c = false ∧ c ≠ ';' := by
  have graphic := plainGraphic c.toNat (plainBound plain)
  rw [Char.ofNat_toNat] at graphic
  exact graphic plain

theorem writtenParts {name value written : Text} (set : writeCookie name value = some written) :
    (name ≠ [] ∧ ∀ c ∈ name, isNameChar c = true) ∧ written = name ++ '=' :: encodeURIComponent value := by
  unfold writeCookie at set
  split at set
  · rename_i valid
    cases set
    exact ⟨⟨valid.1,List.all_eq_true.mp valid.2⟩,rfl⟩
  · cases set

theorem writtenSolid {name value written : Text} (set : writeCookie name value = some written) :
    ∀ c ∈ written, isSpace c = false ∧ c ≠ ';' := by
  obtain ⟨⟨-,chars⟩,rfl⟩ := writtenParts set
  intro c among
  rcases List.mem_append.mp among with name | among
  · exact ⟨(nameSolid (chars c name)).1,(nameSolid (chars c name)).2.1⟩
  rcases List.mem_cons.mp among with rfl | plain
  · decide
  · exact plainSolid (encodedPlain value c plain)

theorem paddedTrim {name value written part : Text} (set : writeCookie name value = some written)
    (held : Padded written part) : trim part = written := by
  obtain ⟨before,after,rfl,front,back⟩ := held
  refine trimPadded before after ?_ (fun c among => (writtenSolid set c among).1) front back
  rw [(writtenParts set).2]
  simp

theorem paddedWhole {name value written part : Text} (set : writeCookie name value = some written)
    (held : Padded written part) : ';' ∉ part := by
  obtain ⟨before,after,rfl,front,back⟩ := held
  intro among
  rcases List.mem_append.mp among with among | among
  · rcases List.mem_append.mp among with blank | own
    · exact absurd (front ';' blank) (by decide)
    · exact (writtenSolid set ';' own).2 rfl
  · exact absurd (back ';' among) (by decide)

theorem parsePartOther {cookies next : CookieMap} {part name : Text} (other : ¬ NamedBy name part)
    (read : parsePart cookies part = some next) : next.get name = cookies.get name := by
  unfold parsePart at read
  cases found : cookieOf part with
  | none =>
    rw [found] at read
    cases read
    rfl
  | some entry =>
    obtain ⟨key,raw⟩ := entry
    rw [found] at read
    obtain ⟨value,-,rfl⟩ := Option.map_eq_some_iff.mp read
    obtain ⟨left,written,first,-,own⟩ := cookieOfIff.mp found
    have differs : key ≠ name := fun same => other ⟨left,raw,written,first,own.trans same⟩
    rw [getSet,if_neg differs]

theorem foldOther {cookies result : CookieMap} {parts : List Text} {name : Text}
    (others : ∀ part ∈ parts, ¬ NamedBy name part) (read : parts.foldlM parsePart cookies = some result) :
    result.get name = cookies.get name := by
  induction parts generalizing cookies with
  | nil =>
    cases read
    rfl
  | cons part parts rest =>
    rw [List.foldlM_cons] at read
    obtain ⟨next,one,later⟩ := Option.bind_eq_some_iff.mp read
    rw [rest (fun part among => others part (List.mem_cons_of_mem _ among)) later,
      parsePartOther (others part List.mem_cons_self) one]

theorem parsePartOwn (cookies : CookieMap) {part name token written : Text} (set : writeCookie name token = some written)
    (held : Padded written part) : parsePart cookies part = some (cookies.set name token) := by
  obtain ⟨⟨named,chars⟩,shape⟩ := writtenParts set
  have first : '=' ∉ name := fun among => (nameSolid (chars '=' among)).2.2 rfl
  have bare : trim name = name := trimSolid named fun c among => (nameSolid (chars c among)).1
  unfold parsePart
  rw [cookieOfWritten ((paddedTrim set held).trans shape) first,if_neg named,bare]
  simp [decodeEncode]

theorem foldOwn {result : CookieMap} {parts rest : List Text} {part name token written : Text}
    (set : writeCookie name token = some written) (held : Padded written part) (once : parts.Perm (part :: rest))
    (others : ∀ part ∈ rest, ¬ NamedBy name part) (read : parts.foldlM parsePart [] = some result) :
    result.get name = some token := by
  obtain ⟨before,after,rfl⟩ := List.append_of_mem (once.mem_iff.mpr List.mem_cons_self)
  have same : (before ++ after).Perm rest := (List.perm_middle.symm.trans once).cons_inv
  rw [List.foldlM_append] at read
  obtain ⟨first,-,read⟩ := Option.bind_eq_some_iff.mp read
  rw [List.foldlM_cons] at read
  obtain ⟨next,own,later⟩ := Option.bind_eq_some_iff.mp read
  rw [parsePartOwn first set held] at own
  cases own
  rw [foldOther (fun part among => others part (same.mem_iff.mp (List.mem_append_right _ among))) later,getSet,if_pos rfl]

theorem setParts {settings : SessionCookieSettings} {tokens : SessionTokens} {session csrf : Text}
    (set : setSessionCookies settings tokens = some (session,csrf)) :
    writeCookie settings.sessionCookieName tokens.sessionToken = some session ∧
    writeCookie settings.csrfCookieName tokens.csrfToken = some csrf := by
  unfold setSessionCookies at set
  obtain ⟨session',first,set⟩ := Option.bind_eq_some_iff.mp set
  obtain ⟨csrf',second,set⟩ := Option.bind_eq_some_iff.mp set
  cases set
  exact ⟨first,second⟩

theorem parseJoined {parts : List Text} (several : 1 < parts.length) (whole : ∀ part ∈ parts, ';' ∉ part) :
    parseCookieHeader (some ([';'].intercalate parts)) = parts.foldlM parsePart [] := by
  have split : ([';'].intercalate parts).splitOn ';' = parts := by
    refine List.splitOn_intercalate ';' whole ?_
    rintro rfl
    simp at several
  have more : trim ([';'].intercalate parts) ≠ [] := by
    intro empty
    have single : ';' ∉ [';'].intercalate parts := by
      intro among
      exact absurd (trimEmpty empty ';' among) (by decide)
    rw [List.splitOn_eq_singleton single] at split
    rw [← split] at several
    simp at several
  unfold parseCookieHeader
  simp only [if_neg more,split]

/- A header that carries the two cookies is read, and gives both tokens back, exactly when
whatever else it carries decodes: the neighbours' values are decoded too. -/
theorem cookiesArriveIff {settings : SessionCookieSettings} {tokens : SessionTokens} {session csrf header : Text}
    {others : List Text} (set : setSessionCookies settings tokens = some (session,csrf))
    (carries : Carries settings session csrf header others) :
    (∃ cookies, parseCookieHeader (some header) = some cookies ∧
      cookies.get settings.sessionCookieName = some tokens.sessionToken ∧
      cookies.get settings.csrfCookieName = some tokens.csrfToken) ↔ ∀ part ∈ others, Decodes part := by
  obtain ⟨sessionSet,csrfSet⟩ := setParts set
  obtain ⟨order,sessionHeld,csrfHeld,whole,sessionOnce,csrfOnce⟩ := carries
  rename_i parts sessionPart csrfPart
  have joined : parseCookieHeader (some ([';'].intercalate parts)) = parts.foldlM parsePart [] := by
    refine parseJoined (by rw [order.length_eq]; simp) fun part among => ?_
    rcases List.mem_cons.mp (order.mem_iff.mp among) with rfl | among
    · exact paddedWhole sessionSet sessionHeld
    rcases List.mem_cons.mp among with rfl | among
    · exact paddedWhole csrfSet csrfHeld
    · exact whole part among
  rw [joined]
  constructor
  · rintro ⟨cookies,read,-⟩ part among
    have every := (foldIff []).mp (show (parts.foldlM parsePart []).isSome = true by rw [read]; rfl)
    exact every part (order.mem_iff.mpr (List.mem_cons_of_mem _ (List.mem_cons_of_mem _ among)))
  · intro decode
    have every : ∀ part ∈ parts, Decodes part := by
      intro part among
      rcases List.mem_cons.mp (order.mem_iff.mp among) with rfl | among
      · exact (parsePartIff []).mp (by rw [parsePartOwn [] sessionSet sessionHeld]; rfl)
      rcases List.mem_cons.mp among with rfl | among
      · exact (parsePartIff []).mp (by rw [parsePartOwn [] csrfSet csrfHeld]; rfl)
      · exact decode part among
    obtain ⟨cookies,read⟩ := Option.isSome_iff_exists.mp ((foldIff []).mpr every)
    exact ⟨cookies,read,foldOwn sessionSet sessionHeld order sessionOnce read,
      foldOwn csrfSet csrfHeld (order.trans (List.Perm.swap _ _ _)) csrfOnce read⟩

/-! Runs: the two cookies between others, and one next to a lone percent sign. -/

namespace Jar

def settings : SessionCookieSettings := ⟨['s','i','d'],['c','s','r','f']⟩
def tokens : SessionTokens := ⟨['a','/','b'],['%']⟩
def session : Text := ['s','i','d','=','a','%','2','F','b']
def csrf : Text := ['c','s','r','f','=','%','2','5']

/-- `q=%`, which another application may well have set. -/
def lone : Text := ['q','=','%']
def coded : Text := [' ','q','=','%','c','3','%','A','9']

theorem set : setSessionCookies settings tokens = some (session,csrf) := by decide

theorem unnamed {name part : Text} (left value : Text) (written : trim part = left ++ '=' :: value) (first : '=' ∉ left)
    (differs : trim left ≠ name) : ¬ NamedBy name part := by
  rintro ⟨left',value',written',first',same⟩
  have both := written.symm.trans written'
  have place : left.length = left'.length := by
    have index := congrArg (List.idxOf '=') both
    rwa [List.idxOf_append_of_notMem first,List.idxOf_append_of_notMem first',List.idxOf_cons_self] at index
  rw [(List.append_inj both place).1] at differs
  exact differs same

theorem carries (other left value : Text) (whole : ';' ∉ other) (written : trim other = left ++ '=' :: value)
    (first : '=' ∉ left) (named : trim left ∉ [settings.sessionCookieName,settings.csrfCookieName]) :
    Carries settings session csrf ([';'].intercalate [session,other,' ' :: csrf]) [other] := by
  refine .joined ((List.Perm.swap _ _ _).cons _)
    ⟨[],[],by simp,by simp,by simp⟩
    ⟨[' '],[],by simp,fun c among => by rw [List.mem_singleton.mp among]; decide,by simp⟩ (by simpa using whole) ?_ ?_
  · intro part among
    rcases List.mem_cons.mp among with rfl | among
    · exact unnamed ['c','s','r','f'] ['%','2','5'] (by decide) (by decide) (by decide)
    · rw [List.mem_singleton.mp among]
      exact unnamed left value written first fun same => named (by simp [same])
  · intro part among
    rcases List.mem_cons.mp among with rfl | among
    · exact unnamed ['s','i','d'] ['a','%','2','F','b'] (by decide) (by decide) (by decide)
    · rw [List.mem_singleton.mp among]
      exact unnamed left value written first fun same => named (by simp [same])

theorem cookiesArrive : ∃ cookies,
    parseCookieHeader (some ([';'].intercalate [session,coded,' ' :: csrf])) = some cookies ∧
      cookies.get settings.sessionCookieName = some tokens.sessionToken ∧
      cookies.get settings.csrfCookieName = some tokens.csrfToken :=
  (cookiesArriveIff set (carries coded ['q'] ['%','c','3','%','A','9']
    (by decide) (by decide) (by decide) (by decide))).mpr (by
      intro part among
      rw [List.mem_singleton.mp among]
      exact (parsePartIff []).mp (show (parsePart [] coded).isSome = true by decide))

theorem neighbourThrows :
    setSessionCookies settings tokens = some (session,csrf) ∧
    Carries settings session csrf ([';'].intercalate [session,lone,' ' :: csrf]) [lone] ∧
    parseCookieHeader (some ([';'].intercalate [session,lone,' ' :: csrf])) = none :=
  ⟨set,carries lone ['q'] ['%'] (by decide) (by decide) (by decide) (by decide),by decide⟩

end Jar

end ESign
