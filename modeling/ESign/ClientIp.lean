import ESign.UseCases

/-! The address a request is held to, behind a fixed number of proxies: the header names
hops from the client on, and each proxy adds the peer it saw. -/
namespace ESign

/-- A header given in one line, or in several. -/
inductive HeaderValue
  | text (value : Text)
  | texts (values : List Text)
  deriving DecidableEq, Repr

def HeaderValue.raw : HeaderValue → Text
  | text value => value
  | texts values => [','].intercalate values

def isControl (c : Char) : Bool := c.toNat < 32 || c.toNat = 127

def isDecimal (c : Char) : Bool := '0' ≤ c && c ≤ '9'

/-- `/^\d{1,3}(?:\.\d{1,3}){3}$/` -/
def dottedQuad (text : Text) : Bool :=
  let parts := text.splitOn '.'
  parts.length = 4 && parts.all fun part => 1 ≤ part.length && part.length ≤ 3 && part.all isDecimal

def mappedPrefix : Text := [':',':','f','f','f','f',':']

section

variable (toLowerCase : Text → Text)

def normalizeIp (value : Text) : Text :=
  let cleaned := trim ((trim value).filter fun c => !isControl c)
  if cleaned = [] then []
  else
    let lowered := toLowerCase (cleaned.takeWhile (· ≠ '%'))
    if mappedPrefix.isPrefixOf lowered && dottedQuad (lowered.drop mappedPrefix.length) then
      lowered.drop mappedPrefix.length
    else lowered

def parseForwardedFor : Option HeaderValue → List Text
  | none => []
  | some value => ((value.raw.splitOn ',').map (normalizeIp toLowerCase)).filter (· ≠ [])

def unknown : Text := ['u','n','k','n','o','w','n']

def socketPeer (socketAddress : Option Text) : Text :=
  let socket := normalizeIp toLowerCase (socketAddress.getD [])
  if socket = [] then unknown else socket

def resolveClientIp (socketAddress : Option Text) (forwardedFor : Option HeaderValue) (trustedProxyCount : Int) : Text :=
  let socket := socketPeer toLowerCase socketAddress
  let hops := trustedProxyCount.toNat
  if hops = 0 then socket
  else
    let chain := parseForwardedFor toLowerCase forwardedFor ++ [socket]
    if chain.length ≤ hops then socket
    else
      let candidate := (chain[chain.length-1-hops]?).getD []
      if candidate = [] then socket else candidate

end

/-! What proxies do to the header. -/

/-- A proxy adds the peer it saw: to the last line, after a comma and any white space, in a
line of its own, or once it has merged the lines into one. -/
inductive Appends (peer : Text) : Option HeaderValue → HeaderValue → Prop
  | absent : Appends peer none (.text peer)
  | line {value blanks : Text} (blank : ∀ c ∈ blanks, isSpace c = true) :
      Appends peer (some (.text value)) (.text (value ++ ',' :: (blanks ++ peer)))
  | second {value : Text} : Appends peer (some (.text value)) (.texts [value,peer])
  | own {values : List Text} : Appends peer (some (.texts values)) (.texts (values ++ [peer]))
  | last {values : List Text} {value blanks : Text} (blank : ∀ c ∈ blanks, isSpace c = true) :
      Appends peer (some (.texts (values ++ [value]))) (.texts (values ++ [value ++ ',' :: (blanks ++ peer)]))
  | merged {values : List Text} {blanks : Text} (blank : ∀ c ∈ blanks, isSpace c = true) :
      Appends peer (some (.texts values)) (.text ([','].intercalate values ++ ',' :: (blanks ++ peer)))

/-- The header on its way through the proxies, each of which adds its peer. -/
inductive Forwards : List Text → Option HeaderValue → Option HeaderValue → Prop
  | arrived {header} : Forwards [] header header
  | hop {peer peers before after arrived} (adds : Appends peer before after)
      (rest : Forwards peers (some after) arrived) : Forwards (peer :: peers) before arrived

/-- An address without a comma, of which something is left once it is normalized. -/
structure Address (toLowerCase : Text → Text) (address : Text) : Prop where
  some : normalizeIp toLowerCase address ≠ []
  comma : ',' ∉ address

/-! An entry added at the end is the last one read, whatever stands before it. -/

section

variable {toLowerCase : Text → Text}

def entries (toLowerCase : Text → Text) (line : Text) : List Text :=
  ((line.splitOn ',').map (normalizeIp toLowerCase)).filter (· ≠ [])

theorem parseRaw {value : HeaderValue} :
    parseForwardedFor toLowerCase (some value) = entries toLowerCase value.raw := rfl

theorem normalizeBlanks {blanks text : Text} (blank : ∀ c ∈ blanks, isSpace c = true) :
    normalizeIp toLowerCase (blanks ++ text) = normalizeIp toLowerCase text := by
  unfold normalizeIp
  rw [trimBlanks blank]

theorem blankComma {blanks : Text} (blank : ∀ c ∈ blanks, isSpace c = true) : ',' ∉ blanks := by
  intro comma
  have space := blank ',' comma
  exact absurd space (by decide)

theorem entriesComma {before after : Text} :
    entries toLowerCase (before ++ ',' :: after) = entries toLowerCase before ++ entries toLowerCase after := by
  unfold entries
  rw [List.splitOn_append_cons_self,List.map_append,List.filter_append]

theorem entriesAddress {peer : Text} (blanks : Text) (address : Address toLowerCase peer)
    (blank : ∀ c ∈ blanks, isSpace c = true) :
    entries toLowerCase (blanks ++ peer) = [normalizeIp toLowerCase peer] := by
  unfold entries
  have single : ',' ∉ blanks ++ peer := by
    intro comma
    rcases List.mem_append.mp comma with comma | comma
    · exact blankComma blank comma
    · exact address.comma comma
  rw [List.splitOn_eq_singleton single,List.map_singleton,normalizeBlanks blank]
  simp [address.some]

theorem entriesAppended {line peer blanks : Text} (address : Address toLowerCase peer)
    (blank : ∀ c ∈ blanks, isSpace c = true) :
    entries toLowerCase (line ++ ',' :: (blanks ++ peer)) = entries toLowerCase line ++ [normalizeIp toLowerCase peer] := by
  rw [entriesComma,entriesAddress blanks address blank]

theorem entriesLines {lines : List Text} :
    entries toLowerCase ([','].intercalate lines) = lines.flatMap (entries toLowerCase) := by
  induction lines with
  | nil => rfl
  | cons line lines rest =>
    cases lines with
    | nil => simp
    | cons next lines =>
      rw [List.intercalate_cons_cons,List.append_assoc,List.singleton_append,entriesComma,rest]
      rfl

theorem appendsEntry {peer : Text} {before : Option HeaderValue} {after : HeaderValue} (address : Address toLowerCase peer)
    (adds : Appends peer before after) :
    parseForwardedFor toLowerCase (some after) = parseForwardedFor toLowerCase before ++ [normalizeIp toLowerCase peer] := by
  have plain : entries toLowerCase peer = [normalizeIp toLowerCase peer] :=
    entriesAddress [] address (by simp)
  cases adds with
  | absent => exact plain
  | line blank => exact entriesAppended address blank
  | @second line =>
    have read : entries toLowerCase (line ++ ',' :: ([] ++ peer)) = _ := entriesAppended address (by simp)
    simpa [parseRaw,HeaderValue.raw] using read
  | own => simp [parseRaw,HeaderValue.raw,entriesLines,plain]
  | last blank => simp [parseRaw,HeaderValue.raw,entriesLines,entriesAppended address blank]
  | merged blank => exact entriesAppended address blank

theorem forwardsEntries {peers : List Text} {before arrived : Option HeaderValue}
    (addresses : ∀ peer ∈ peers, Address toLowerCase peer) (forwards : Forwards peers before arrived) :
    parseForwardedFor toLowerCase arrived
      = parseForwardedFor toLowerCase before ++ peers.map (normalizeIp toLowerCase) := by
  induction forwards with
  | arrived => simp
  | hop adds rest later =>
    rw [later fun peer among => addresses peer (List.mem_cons_of_mem _ among),
      appendsEntry (addresses _ List.mem_cons_self) adds,List.append_assoc,List.map_cons,List.singleton_append]

theorem countedEntry {supplied entries : List Text} {client socket : Text} :
    (supplied ++ client :: entries ++ [socket])[(supplied ++ client :: entries ++ [socket]).length-1-(entries.length+1)]?
      = some client := by
  have place : (supplied ++ client :: entries ++ [socket]).length-1-(entries.length+1) = supplied.length := by
    simp only [List.length_append,List.length_cons,List.length_nil]
    omega
  rw [place,List.append_assoc,List.getElem?_append_right (by omega)]
  simp

theorem resolvedClient {client : Text} {proxies : List Text} {supplied arrived : Option HeaderValue} {socket : Option Text}
    (behind : proxies ≠ []) (addresses : ∀ address ∈ client :: proxies.dropLast, Address toLowerCase address)
    (forwards : Forwards (client :: proxies.dropLast) supplied arrived) :
    resolveClientIp toLowerCase socket arrived proxies.length = normalizeIp toLowerCase client := by
  have more : 0 < proxies.length := List.length_pos_of_ne_nil behind
  have hops : proxies.length = (proxies.dropLast.map (normalizeIp toLowerCase)).length + 1 := by
    simp
    omega
  unfold resolveClientIp
  simp only [Int.toNat_natCast,forwardsEntries addresses forwards,List.map_cons]
  rw [hops,countedEntry]
  simp [(addresses client List.mem_cons_self).some]
  omega

/- The client a request is held to is the one the outermost proxy saw, whatever the client
itself has put into the header. -/
theorem clientUnspoofed {client : Text} {proxies : List Text} (behind : proxies ≠ [])
    (addresses : ∀ address ∈ client :: proxies.dropLast, Address toLowerCase address) :
    (∀ supplied arrived, Forwards (client :: proxies.dropLast) supplied arrived →
      resolveClientIp toLowerCase (some (proxies.getLast behind)) arrived proxies.length
        = normalizeIp toLowerCase client) ∧
    ∀ supplied arrived supplied' arrived', Forwards (client :: proxies.dropLast) supplied arrived →
      Forwards (client :: proxies.dropLast) supplied' arrived' →
      resolveClientIp toLowerCase (some (proxies.getLast behind)) arrived proxies.length
        = resolveClientIp toLowerCase (some (proxies.getLast behind)) arrived' proxies.length := by
  have resolved : ∀ supplied arrived, Forwards (client :: proxies.dropLast) supplied arrived →
      resolveClientIp toLowerCase (some (proxies.getLast behind)) arrived proxies.length
        = normalizeIp toLowerCase client :=
    fun supplied arrived forwards => resolvedClient behind addresses forwards
  refine ⟨resolved,?_⟩
  intro supplied arrived supplied' arrived' forwards forwards'
  rw [resolved supplied arrived forwards,resolved supplied' arrived' forwards']

end

/-! Runs: two proxies, and a zone with a comma in it. -/

namespace Hops

def client : Text := ['1','.','2','.','3','.','4']
def first : Text := ['F','E']
def second : Text := ['7']
/-- What a client puts in to be taken for another. -/
def spoof : HeaderValue := .texts [['9','.','9'],[' ',',',',']]
def arrived : HeaderValue := .texts [['9','.','9'],[' ',',',',',',',' '] ++ client,first]

theorem forwards : Forwards (client :: [first,second].dropLast) (some spoof) (some arrived) := by
  apply Forwards.hop
  · exact @Appends.last _ [['9','.','9']] [' ',',',','] [' '] fun c among => by rw [List.mem_singleton.mp among]; decide
  · exact Forwards.hop Appends.own Forwards.arrived

theorem spoofIgnored : resolveClientIp (·.map Char.toLower) (some second) (some arrived) 2 = client :=
  (@clientUnspoofed (·.map Char.toLower) client [first,second] (by simp) (by
    intro address among
    have known : address = client ∨ address = first := by simpa using among
    rcases known with rfl | rfl
    · exact ⟨by decide +kernel,by decide⟩
    · exact ⟨by decide +kernel,by decide⟩)).1 (some spoof) (some arrived) forwards

/-- `fe80::1%e,0`, whose zone is an interface with a comma in its name. -/
def zoned : Text := ['f','e','8','0',':',':','1','%','e',',','0']

/- The comma in the zone is read as one between two entries, and what follows it as the client. -/
theorem zoneSplits :
    Forwards [zoned] none (some (.text zoned)) ∧
    (normalizeIp (·.map Char.toLower) zoned ≠ [] ∧ ',' ∉ normalizeIp (·.map Char.toLower) zoned) ∧
    (normalizeIp (·.map Char.toLower) second ≠ [] ∧ ',' ∉ normalizeIp (·.map Char.toLower) second) ∧
    resolveClientIp (·.map Char.toLower) (some second) (some (.text zoned)) 1
      ≠ normalizeIp (·.map Char.toLower) zoned := by
  refine ⟨.hop .absent .arrived,?_⟩
  decide +kernel

end Hops

end ESign
