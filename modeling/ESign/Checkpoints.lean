import ESign.AuditCanonical

/-! The two checkpoint stores. The memory store keeps the checkpoints it is given; the
object-storage store keeps one object for each sequence, named by a key of the tenant,
and knows an object by the digest of its whole text. -/
namespace ESign
open JsText

def isHexUnit (u : UInt16) : Bool :=
  isDigit u || (97 ≤ u.toNat && u.toNat ≤ 102) || (65 ≤ u.toNat && u.toNat ≤ 70)

/-- OPAQUE_ID_PATTERN: a UUID of versions 1 to 8, in either case. -/
def isOpaqueId (text : Utf16) : Bool :=
  text.length = 36 && text.zipIdx.all (fun (u,i) =>
    if i = 8 || i = 13 || i = 18 || i = 23 then u = 45
    else if i = 14 then 49 ≤ u.toNat && u.toNat ≤ 56
    else if i = 19 then u = 56 || u = 57 || u = 97 || u = 98 || u = 65 || u = 66
    else isHexUnit u)

structure OpaqueId where
  text : Utf16
  valid : isOpaqueId text = true
  deriving DecidableEq

structure AuditCheckpoint where
  organizationId : OpaqueId
  documentId : OpaqueId
  sequence : Int
  eventHash : Utf16
  schemaVersion : Int
  anchoredAt : Int
  deriving DecidableEq

inductive CheckpointPutResult where
  | stored | exists | disabled
  deriving DecidableEq, Repr

structure ImmutableCheckpointStore (σ : Type) where
  enabled : Bool
  putIfAbsent : AuditCheckpoint → σ → Except AppError CheckpointPutResult × σ
  get : (organizationId documentId : OpaqueId) → (sequence : Int) → σ → Except AppError (Option AuditCheckpoint)
  getLatest : (organizationId documentId : OpaqueId) → σ → Except AppError (Option AuditCheckpoint)

def AuditCheckpoint.sameKey (checkpoint : AuditCheckpoint) (organizationId documentId : OpaqueId) (sequence : Int) : Bool :=
  checkpoint.organizationId = organizationId && checkpoint.documentId = documentId && checkpoint.sequence = sequence

def checkpointConflict (key : Utf16) : AppError :=
  .integrity [("reason","checkpoint_immutable_conflict"),("key",String.ofList (key.map (fun u => Char.ofNat u.toNat)))]

/-! The memory store. -/
namespace MemoryCheckpointStore

def checkpointKey (checkpoint : AuditCheckpoint) : Utf16 :=
  checkpoint.organizationId.text ++ utf16 ":" ++ checkpoint.documentId.text ++ utf16 ":" ++
    (JsNumber.ofInt checkpoint.sequence).text

def putIfAbsent (checkpoint : AuditCheckpoint) (records : List AuditCheckpoint) :
    Except AppError CheckpointPutResult × List AuditCheckpoint :=
  match records.find? (fun row => row.sameKey checkpoint.organizationId checkpoint.documentId checkpoint.sequence) with
  | some existing =>
      if existing.eventHash ≠ checkpoint.eventHash then (.error (checkpointConflict (checkpointKey checkpoint)),records)
      else (.ok .exists,records)
  | none => (.ok .stored,records ++ [checkpoint])

def get (organizationId documentId : OpaqueId) (sequence : Int) (records : List AuditCheckpoint) : Option AuditCheckpoint :=
  records.find? (fun row => row.sameKey organizationId documentId sequence)

/-- `matching.reduce`. -/
def latest : List AuditCheckpoint → Option AuditCheckpoint
  | [] => none
  | first :: rest => some (rest.foldl (fun head row => if row.sequence > head.sequence then row else head) first)

def getLatest (organizationId documentId : OpaqueId) (records : List AuditCheckpoint) : Option AuditCheckpoint :=
  latest (records.filter (fun row => row.organizationId = organizationId && row.documentId = documentId))

def store : ImmutableCheckpointStore (List AuditCheckpoint) where
  enabled := true
  putIfAbsent := putIfAbsent
  get organizationId documentId sequence records := .ok (get organizationId documentId sequence records)
  getLatest organizationId documentId records := .ok (getLatest organizationId documentId records)

end MemoryCheckpointStore

/-! The object-storage store. A text stands for its UTF-8 encoding, which JSON.stringify
keeps reversible. -/
namespace ObjectCheckpointStore

structure StoredObject where
  key : Utf16
  body : Utf16
  sha256Digest : Utf16
  deriving DecidableEq

def tenantObjectKeyPrefix (organizationId : OpaqueId) : Utf16 := utf16 "org/" ++ organizationId.text ++ utf16 "/"

/-- `tenantObjectKey` of a relative key without unsafe segments. -/
def tenantObjectKey (organizationId : OpaqueId) (relativeKey : Utf16) : Utf16 :=
  tenantObjectKeyPrefix organizationId ++ relativeKey

def checkpointPrefix (documentId : OpaqueId) : Utf16 := utf16 "audit-checkpoints/" ++ documentId.text ++ utf16 "/"

def auditCheckpointObjectKey (organizationId documentId : OpaqueId) (sequence : Int) : Utf16 :=
  tenantObjectKey organizationId (checkpointPrefix documentId ++ (JsNumber.ofInt sequence).text ++ utf16 ".json")

def checkpointJson (checkpoint : AuditCheckpoint) : Json :=
  .object [(utf16 "anchoredAt",.string (isoString checkpoint.anchoredAt)),
    (utf16 "documentId",.string checkpoint.documentId.text),(utf16 "eventHash",.string checkpoint.eventHash),
    (utf16 "organizationId",.string checkpoint.organizationId.text),
    (utf16 "schemaVersion",.number (.ofInt checkpoint.schemaVersion)),
    (utf16 "sequence",.number (.ofInt checkpoint.sequence))]

/-- serializeCanonicalJson of the checkpoint: its members are listed in key order. -/
def checkpointBytes (checkpoint : AuditCheckpoint) : Utf16 := (checkpointJson checkpoint).canonical.stringify

/-- `parsed[name]` of a parsed object. -/
def member (name : String) : Json → Option Json
  | .object members => (members.find? (fun entry => entry.1 = utf16 name)).map Prod.snd
  | _ => none

def stringMember (name : String) (parsed : Json) : Option Utf16 :=
  match member name parsed with
  | some (.string value) => some value
  | _ => none

def numberMember (name : String) (parsed : Json) : Option Int :=
  match member name parsed with
  | some (.number value) => value.toInt?
  | _ => none

def opaqueId? (text : Utf16) : Option OpaqueId := if valid : isOpaqueId text = true then some ⟨text,valid⟩ else none

/-- Only texts that `checkpointBytes` wrote stand under these keys, so ids are opaque ids
and numbers are integers. -/
def parseCheckpoint (body : Utf16) : Option AuditCheckpoint := do
  let parsed ← Json.parse body
  let organizationId ← stringMember "organizationId" parsed
  let documentId ← stringMember "documentId" parsed
  let eventHash ← stringMember "eventHash" parsed
  let anchoredAt ← stringMember "anchoredAt" parsed
  let sequence ← numberMember "sequence" parsed
  let schemaVersion ← numberMember "schemaVersion" parsed
  let anchoredAt ← readIso anchoredAt
  let organizationId ← opaqueId? organizationId
  let documentId ← opaqueId? documentId
  some ⟨organizationId,documentId,sequence,eventHash,schemaVersion,anchoredAt⟩

section

variable (sha256Hex : Utf16 → Utf16)

def getObject (key : Utf16) (objects : List StoredObject) : Option StoredObject :=
  objects.find? (fun object => object.key = key)

def putObject (key body expectedSha256Digest : Utf16) (objects : List StoredObject) :
    Except AppError (List StoredObject) := do
  let digest := sha256Hex body
  check (expectedSha256Digest = digest)
    (.integrity [("reason","object_digest_mismatch"),("code","FINAL_OBJECT_INTEGRITY_FAILURE")])
  match getObject key objects with
  | some existing => do
      check (existing.sha256Digest = digest) (.integrity [("reason","immutable_key_conflict")])
      .ok objects
  | none => .ok (objects ++ [⟨key,body,digest⟩])

def listKeys (organizationId : OpaqueId) ( relativePrefix : Utf16) (objects : List StoredObject) : List Utf16 :=
  (objects.filter (fun object => (tenantObjectKey organizationId relativePrefix).isPrefixOf object.key)).map StoredObject.key

def putIfAbsent (checkpoint : AuditCheckpoint) (objects : List StoredObject) :
    Except AppError CheckpointPutResult × List StoredObject :=
  let key := auditCheckpointObjectKey checkpoint.organizationId checkpoint.documentId checkpoint.sequence
  let body := checkpointBytes checkpoint
  let digest := sha256Hex body
  match getObject key objects with
  | some existing =>
      if existing.sha256Digest ≠ digest then (.error (checkpointConflict key),objects) else (.ok .exists,objects)
  | none =>
      match putObject sha256Hex key body digest objects with
      | .ok objects => (.ok .stored,objects)
      | .error error => (.error error,objects)

def get (organizationId documentId : OpaqueId) (sequence : Int) (objects : List StoredObject) : Option AuditCheckpoint := do
  let stored ← getObject (auditCheckpointObjectKey organizationId documentId sequence) objects
  parseCheckpoint stored.body

def later (latest : Option AuditCheckpoint) (parsed : AuditCheckpoint) : Bool :=
  match latest with
  | none => true
  | some latest => parsed.sequence > latest.sequence

def getLatest (organizationId documentId : OpaqueId) (objects : List StoredObject) : Option AuditCheckpoint :=
  (listKeys organizationId (checkpointPrefix documentId) objects).foldl (fun latest key =>
    match (getObject key objects).bind (fun stored => parseCheckpoint stored.body) with
    | some parsed => if later latest parsed then some parsed else latest
    | none => latest) none

def store : ImmutableCheckpointStore (List StoredObject) where
  enabled := true
  putIfAbsent := putIfAbsent sha256Hex
  get organizationId documentId sequence objects := .ok (get organizationId documentId sequence objects)
  getLatest organizationId documentId objects := .ok (getLatest organizationId documentId objects)

end

/-! An object is found and read back as the checkpoint it was written for. -/

theorem checkpointText (checkpoint : AuditCheckpoint) :
    serializeCanonicalJson (checkpointJson checkpoint).toJs = .ok (checkpointBytes checkpoint) := by
  rw [serializeCanonicalJson,Json.canonicalizeToJs]
  rfl

theorem bytesEq (checkpoint : AuditCheckpoint) : checkpointBytes checkpoint = (checkpointJson checkpoint).stringify := rfl

theorem opaqueIdText (id : OpaqueId) : opaqueId? id.text = some id := by
  rw [opaqueId?,dif_pos id.valid]

theorem parseBytes (checkpoint : AuditCheckpoint) : parseCheckpoint (checkpointBytes checkpoint) = some checkpoint := by
  have anchoredAt : stringMember "anchoredAt" (checkpointJson checkpoint) = some (isoString checkpoint.anchoredAt) := rfl
  have documentId : stringMember "documentId" (checkpointJson checkpoint) = some checkpoint.documentId.text := rfl
  have eventHash : stringMember "eventHash" (checkpointJson checkpoint) = some checkpoint.eventHash := rfl
  have organizationId : stringMember "organizationId" (checkpointJson checkpoint) =
    some checkpoint.organizationId.text := rfl
  have schemaVersion : numberMember "schemaVersion" (checkpointJson checkpoint) =
    (JsNumber.ofInt checkpoint.schemaVersion).toInt? := rfl
  have sequence : numberMember "sequence" (checkpointJson checkpoint) =
    (JsNumber.ofInt checkpoint.sequence).toInt? := rfl
  rw [parseCheckpoint,bytesEq,Json.parseStringify]
  simp only [Option.bind_eq_bind,Option.bind_some,anchoredAt,documentId,eventHash,organizationId,schemaVersion,sequence,
    JsNumber.toIntOfInt,readIsoString,opaqueIdText]

theorem bytesInjective : Function.Injective checkpointBytes := by
  intro left right same
  have read := parseBytes left
  rw [same,parseBytes] at read
  exact (Option.some.inj read).symm

theorem opaqueIdLength (id : OpaqueId) : id.text.length = 36 := by
  have valid := id.valid
  rw [isOpaqueId,Bool.and_eq_true] at valid
  exact of_decide_eq_true valid.1

theorem opaqueIdExt {left right : OpaqueId} (same : left.text = right.text) : left = right := by
  cases left
  cases right
  cases same
  rfl

/-- The keys of one document's checkpoints begin like this. -/
def documentPrefix (organizationId documentId : OpaqueId) : Utf16 :=
  tenantObjectKey organizationId (checkpointPrefix documentId)

theorem documentPrefixLength (organizationId documentId : OpaqueId) :
    (documentPrefix organizationId documentId).length = 96 := by
  have first : (utf16 "org/").length = 4 := rfl
  have second : (utf16 "/").length = 1 := rfl
  have third : (utf16 "audit-checkpoints/").length = 18 := rfl
  simp only [documentPrefix,tenantObjectKey,tenantObjectKeyPrefix,checkpointPrefix,List.length_append,first,second,third,
    opaqueIdLength]

theorem documentPrefixInjective {organizationId documentId organizationId' documentId' : OpaqueId}
    (same : documentPrefix organizationId documentId = documentPrefix organizationId' documentId') :
    organizationId = organizationId' ∧ documentId = documentId' := by
  simp only [documentPrefix,tenantObjectKey,tenantObjectKeyPrefix,checkpointPrefix,List.append_assoc,
    List.append_cancel_left_eq] at same
  obtain ⟨organizations,rest⟩ := List.append_inj same (by rw [opaqueIdLength,opaqueIdLength])
  simp only [List.append_cancel_left_eq] at rest
  obtain ⟨documents,-⟩ := List.append_inj rest (by rw [opaqueIdLength,opaqueIdLength])
  exact ⟨opaqueIdExt organizations,opaqueIdExt documents⟩

theorem keySplit (organizationId documentId : OpaqueId) (sequence : Int) :
    auditCheckpointObjectKey organizationId documentId sequence =
      documentPrefix organizationId documentId ++ ((JsNumber.ofInt sequence).text ++ utf16 ".json") := by
  simp only [auditCheckpointObjectKey,documentPrefix,tenantObjectKey,List.append_assoc]

theorem keyPrefix {organizationId documentId organizationId' documentId' : OpaqueId} {sequence : Int} :
    (documentPrefix organizationId documentId).isPrefixOf
        (auditCheckpointObjectKey organizationId' documentId' sequence) = true ↔
      organizationId' = organizationId ∧ documentId' = documentId := by
  rw [List.isPrefixOf_iff_prefix,keySplit]
  constructor
  · rintro ⟨rest,same⟩
    obtain ⟨prefixes,-⟩ := List.append_inj same (by rw [documentPrefixLength,documentPrefixLength])
    obtain ⟨rfl,rfl⟩ := documentPrefixInjective prefixes
    exact ⟨rfl,rfl⟩
  · rintro ⟨rfl,rfl⟩
    exact List.prefix_append _ _

theorem numberTextInjective : Function.Injective JsNumber.text := by
  intro left right same
  have read := JsNumber.readText left
  rw [same,JsNumber.readText] at read
  exact (Option.some.inj read).symm

theorem keyInjective {organizationId documentId organizationId' documentId' : OpaqueId} {sequence sequence' : Int} :
    auditCheckpointObjectKey organizationId documentId sequence =
        auditCheckpointObjectKey organizationId' documentId' sequence' ↔
      organizationId = organizationId' ∧ documentId = documentId' ∧ sequence = sequence' := by
  constructor
  · intro same
    rw [keySplit,keySplit] at same
    obtain ⟨prefixes,rest⟩ := List.append_inj same (by rw [documentPrefixLength,documentPrefixLength])
    obtain ⟨rfl,rfl⟩ := documentPrefixInjective prefixes
    rw [List.append_cancel_right_eq] at rest
    exact ⟨rfl,rfl,JsNumber.ofIntInjective (numberTextInjective rest)⟩
  · rintro ⟨rfl,rfl,rfl⟩
    rfl

end ObjectCheckpointStore

end ESign
