import ESign.AuditPayload
import ESign.Checkpoints

/-! `verifyAuditChain`: the rows of one document are read in the order of their sequences,
sequences, links and hashes are checked, then the finalized artifact and the latest
checkpoint; a head found in order is anchored. -/
namespace ESign
open JsText

/-- A JSON value as it is read from the database. -/
structure JsonValue where
  value : Json
  distinct : value.distinct = true

/-- A row of the audit log. `requestId` and `createdAt` are not looked at. -/
structure AuditEvent where
  id : OpaqueId
  organizationId : OpaqueId
  documentId : OpaqueId
  sequence : Int
  type : AuditEventType
  actorType : AuditActorType
  actorId : Utf16
  occurredAt : Option Int
  payload : JsonValue
  previousEventHash : Utf16
  eventHash : Utf16
  chainVersion : Int

inductive AuditVerificationFailureCode where
  | emptyChain | unsupportedSchemaVersion | sequenceGap | sequenceReorder | hashMismatch | previousHashMismatch
  | genesisPreviousHashMismatch | artifactDigestMismatch | artifactMissing | forbiddenPayloadField | checkpointMismatch
  deriving DecidableEq, Repr

inductive AuditVerificationWarningCode where
  | checkpointAnchoringDisabled | checkpointStoreUnavailable
  deriving DecidableEq, Repr

structure AuditVerificationFailure where
  code : AuditVerificationFailureCode
  organizationId : OpaqueId
  documentId : OpaqueId
  sequence : Option Int
  eventId : Option OpaqueId
  deriving DecidableEq

structure AuditVerificationWarning where
  code : AuditVerificationWarningCode
  organizationId : OpaqueId
  documentId : OpaqueId
  deriving DecidableEq

structure AuditVerificationReport where
  ok : Bool
  schemaVersion : Int
  organizationId : OpaqueId
  documentId : OpaqueId
  eventCount : Nat
  checkedAt : Utf16
  headEventHash : Option Utf16
  headSequence : Option Int
  failures : List AuditVerificationFailure
  warnings : List AuditVerificationWarning
  deriving DecidableEq

inductive AuthorizationAction where
  | membershipRead | documentRead | documentWrite | documentSend | documentVoid | downloadArtifact
  | sessionAct | jobProcess | auditVerify
  deriving DecidableEq, Repr

structure VerifyAuditChainInput where
  organizationId : OpaqueId
  documentId : OpaqueId
  actor : Option AuditActorType

structure ArtifactRow where
  objectKey : Utf16
  sha256Digest : Utf16

/-- What `alerts.notify` is given, with severity high and code audit_verification_failed. -/
structure AuditVerificationAlert where
  organizationId : OpaqueId
  documentId : OpaqueId
  failureCodes : List AuditVerificationFailureCode
  sequence : Option Int

/-- What one run reads and calls: the policy's answer, the rows, the artifact and the
objects of the organization, the two readings of the clock, the alert sink. The metrics
sink counts and cannot fail. -/
structure VerifyDeps where
  assertAllowed : AuditActorType → AuthorizationAction → Except AppError Unit
  documentExists : Bool
  events : List AuditEvent
  artifact : Option ArtifactRow
  getObject : Utf16 → Except AppError (Option (List UInt8))
  sha256Body : List UInt8 → Utf16
  checkedAt : Int
  anchoredAt : Int
  notify : AuditVerificationAlert → Except AppError Unit

def genesisPreviousEventHash : Utf16 := List.replicate 64 48

def JsonValue.isRecord (payload : JsonValue) : Bool :=
  match payload.value with
  | .object _ => true
  | _ => false

/-- The members of a record, `{}` for another value. -/
def JsonValue.record (payload : JsonValue) : List (Utf16 × Json) :=
  match payload.value with
  | .object members => members
  | _ => []

def failure (code : AuditVerificationFailureCode) (input : VerifyAuditChainInput) (event : Option AuditEvent) :
    AuditVerificationFailure :=
  ⟨code,input.organizationId,input.documentId,event.map AuditEvent.sequence,event.map AuditEvent.id⟩

def authorize (deps : VerifyDeps) (actor : AuditActorType) : Except AppError Unit :=
  match actor with
  | .accountUser => deps.assertAllowed actor .auditVerify
  | .worker => deps.assertAllowed actor .jobProcess
  | .system => deps.assertAllowed actor .jobProcess
  | .signer => deps.assertAllowed actor .auditVerify

def isSha256Hex (text : Utf16) : Bool :=
  text.length = 64 && text.all (fun u => isDigit u || (97 ≤ u.toNat && u.toNat ≤ 102))

def artifactObjectKey (organizationId : OpaqueId) (sha256Digest : Utf16) : Except AppError Utf16 := do
  check (isSha256Hex sha256Digest) (.integrity [("reason","invalid_sha256_digest")])
  .ok (ObjectCheckpointStore.tenantObjectKey organizationId (utf16 "artifacts/" ++ sha256Digest))

/-- `event.payload.finalizedSha256`, where it is a string. -/
def finalizedSha256 (event : AuditEvent) : Option Utf16 :=
  if event.payload.isRecord then
    match (event.payload.record.find? (fun entry => entry.1 = utf16 "finalizedSha256")).map Prod.snd with
    | some (.string digest) => some digest
    | _ => none
  else none

def artifactBody (deps : VerifyDeps) (input : VerifyAuditChainInput) (artifact : ArtifactRow) :
    Except AppError (Option (List UInt8)) := do
  let stored ← deps.getObject artifact.objectKey
  match stored with
  | some body => .ok (some body)
  | none => do
      let key ← artifactObjectKey input.organizationId artifact.sha256Digest
      deps.getObject key

/-- The digest the event names against that of the artifact. -/
def recordedFailures (input : VerifyAuditChainInput) (event : AuditEvent) (artifact : ArtifactRow) :
    List AuditVerificationFailure :=
  match finalizedSha256 event with
  | some digest => if artifact.sha256Digest ≠ digest then [failure .artifactDigestMismatch input (some event)] else []
  | none => []

def verifyFinalizedArtifact (deps : VerifyDeps) (input : VerifyAuditChainInput) (event : AuditEvent) :
    Except AppError (List AuditVerificationFailure) :=
  match deps.artifact with
  | none => .ok [failure .artifactMissing input (some event)]
  | some artifact => do
      let body ← artifactBody deps input artifact
      match body with
      | none => .ok (recordedFailures input event artifact ++ [failure .artifactMissing input (some event)])
      | some body =>
          .ok (recordedFailures input event artifact ++ if deps.sha256Body body ≠ artifact.sha256Digest then
            [failure .artifactDigestMismatch input (some event)] else [])

def sequenceFailures (input : VerifyAuditChainInput) (events : List AuditEvent) : List AuditVerificationFailure :=
  let sequences := events.map AuditEvent.sequence
  if sequences.zipIdx.any (fun (sequence,index) => sequence ≠ (index : Int)) then
    if (sequences.zip sequences.tail).any (fun (before,sequence) => sequence < before) then
      [failure .sequenceReorder input events.head?]
    else [failure .sequenceGap input
      ((events.zipIdx.find? (fun (event,index) => event.sequence ≠ (index : Int))).map Prod.fst)]
  else []

section

variable (sha256Hex : Utf16 → Utf16)

def AuditEvent.hashInput (event : AuditEvent) : AuditEventHashInput where
  schemaVersion := event.chainVersion
  previousEventHash := event.previousEventHash
  sequence := event.sequence
  type := event.type
  actorType := event.actorType
  actorId := event.actorId
  occurredAt := event.occurredAt
  payload := .object (Json.toJsMembers event.payload.record)

def linkFailures (input : VerifyAuditChainInput) (before : Option AuditEvent) (event : AuditEvent) :
    List AuditVerificationFailure :=
  match before with
  | none =>
      if event.previousEventHash ≠ genesisPreviousEventHash then
        [failure .genesisPreviousHashMismatch input (some event)] else []
  | some before =>
      if event.previousEventHash ≠ before.eventHash then [failure .previousHashMismatch input (some event)] else []

def payloadFailures (input : VerifyAuditChainInput) (event : AuditEvent) : List AuditVerificationFailure :=
  if event.payload.isRecord then
    match assertApprovedAuditPayload (Json.toJsMembers event.payload.record) 0 with
    | .ok _ => []
    | .error _ => [failure .forbiddenPayloadField input (some event)]
  else [failure .forbiddenPayloadField input (some event)]

def hashFailures (input : VerifyAuditChainInput) (event : AuditEvent) : List AuditVerificationFailure :=
  match computeAuditEventHash sha256Hex event.hashInput with
  | .ok expectedHash => if expectedHash ≠ event.eventHash then [failure .hashMismatch input (some event)] else []
  | .error _ => [failure .hashMismatch input (some event)]

def versionFailures (input : VerifyAuditChainInput) (event : AuditEvent) : List AuditVerificationFailure :=
  if event.chainVersion ≠ auditChainSchemaVersion then [failure .unsupportedSchemaVersion input (some event)] else []

/-- The checks of one event, before its artifact. -/
def eventFailures (input : VerifyAuditChainInput) (before : Option AuditEvent) (event : AuditEvent) :
    List AuditVerificationFailure :=
  versionFailures input event ++ linkFailures input before event ++ payloadFailures input event ++
    hashFailures sha256Hex input event

def eventArtifact (deps : VerifyDeps) (input : VerifyAuditChainInput) (event : AuditEvent) :
    Except AppError (List AuditVerificationFailure) :=
  if event.type = .documentFinalized then verifyFinalizedArtifact deps input event else .ok []

def verifyEvents (deps : VerifyDeps) (input : VerifyAuditChainInput) :
    Option AuditEvent → List AuditEvent → Except AppError (List AuditVerificationFailure)
  | _, [] => .ok []
  | before, event :: rest => do
      let artifact ← eventArtifact deps input event
      let others ← verifyEvents deps input (some event) rest
      .ok (eventFailures sha256Hex input before event ++ artifact ++ others)

def checkpointFailures (input : VerifyAuditChainInput) (sorted : List AuditEvent) (anchored : Option AuditCheckpoint) :
    List AuditVerificationFailure :=
  match anchored with
  | none => []
  | some anchored =>
      match sorted.find? (fun event => event.sequence = anchored.sequence) with
      | none => [failure .checkpointMismatch input none]
      | some event =>
          if event.eventHash ≠ anchored.eventHash then [failure .checkpointMismatch input (some event)] else []

def sameFailure (left right : AuditVerificationFailure) : Bool :=
  left.code = right.code && left.sequence = right.sequence && left.eventId = right.eventId

def dedupeFailures (failures : List AuditVerificationFailure) : List AuditVerificationFailure :=
  failures.foldl (fun unique item => if unique.any (sameFailure item) then unique else unique ++ [item]) []

def sortEvents (events : List AuditEvent) : List AuditEvent :=
  events.insertionSort (fun left right => left.sequence ≤ right.sequence)

def emptyReport (deps : VerifyDeps) (input : VerifyAuditChainInput) : AuditVerificationReport where
  ok := false
  schemaVersion := auditChainSchemaVersion
  organizationId := input.organizationId
  documentId := input.documentId
  eventCount := 0
  checkedAt := isoString deps.checkedAt
  headEventHash := none
  headSequence := none
  failures := [failure .emptyChain input none]
  warnings := []

def chainReport (deps : VerifyDeps) (input : VerifyAuditChainInput) (failures : List AuditVerificationFailure)
    (warnings : List AuditVerificationWarning) : AuditVerificationReport where
  ok := (dedupeFailures failures).isEmpty
  schemaVersion := auditChainSchemaVersion
  organizationId := input.organizationId
  documentId := input.documentId
  eventCount := deps.events.length
  checkedAt := isoString deps.checkedAt
  headEventHash := (sortEvents deps.events).getLast?.map AuditEvent.eventHash
  headSequence := (sortEvents deps.events).getLast?.map AuditEvent.sequence
  failures := dedupeFailures failures
  warnings := warnings

def headCheckpoint (deps : VerifyDeps) (input : VerifyAuditChainInput) (head : AuditEvent) : AuditCheckpoint where
  organizationId := input.organizationId
  documentId := input.documentId
  sequence := head.sequence
  eventHash := head.eventHash
  schemaVersion := auditChainSchemaVersion
  anchoredAt := deps.anchoredAt

variable {σ : Type} (store : ImmutableCheckpointStore σ)

/-- The failures and warnings of the comparison with the store. -/
def compareCheckpoint (deps : VerifyDeps) (input : VerifyAuditChainInput) (state : σ) :
    List AuditVerificationFailure × List AuditVerificationWarning :=
  if store.enabled then
    match store.getLatest input.organizationId input.documentId state with
    | .ok anchored => (checkpointFailures input (sortEvents deps.events) anchored,[])
    | .error _ => ([],[⟨.checkpointStoreUnavailable,input.organizationId,input.documentId⟩])
  else ([],[⟨.checkpointAnchoringDisabled,input.organizationId,input.documentId⟩])

def anchorHead (deps : VerifyDeps) (input : VerifyAuditChainInput) (ok : Bool) (state : σ) :
    List AuditVerificationWarning × σ :=
  match (sortEvents deps.events).getLast? with
  | some head =>
      if ok && store.enabled then
        match store.putIfAbsent (headCheckpoint deps input head) state with
        | (.ok _,state) => ([],state)
        | (.error _,state) => ([⟨.checkpointStoreUnavailable,input.organizationId,input.documentId⟩],state)
      else ([],state)
  | none => ([],state)

def publishOutcome (deps : VerifyDeps) (report : AuditVerificationReport) : Except AppError Unit :=
  if report.ok then .ok ()
  else deps.notify ⟨report.organizationId,report.documentId,report.failures.map AuditVerificationFailure.code,
    (report.failures.head?.bind AuditVerificationFailure.sequence).or report.headSequence⟩

def publish (deps : VerifyDeps) (report : AuditVerificationReport) : Except AppError AuditVerificationReport := do
  publishOutcome deps report
  .ok report

def admitCaller (deps : VerifyDeps) (input : VerifyAuditChainInput) : Except AppError Unit := do
  match input.actor with
  | some actor => authorize deps actor
  | none => .ok ()
  check deps.documentExists (.notFound [("resource","document")])

def verifyAuditChain (deps : VerifyDeps) (input : VerifyAuditChainInput) (state : σ) :
    Except AppError AuditVerificationReport × σ :=
  match admitCaller deps input with
  | .error error => (.error error,state)
  | .ok _ =>
      if deps.events = [] then (publish deps (emptyReport deps input),state)
      else
        match verifyEvents sha256Hex deps input none (sortEvents deps.events) with
        | .error error => (.error error,state)
        | .ok found =>
            let (mismatches,warnings) := compareCheckpoint store deps input state
            let failures := sequenceFailures input deps.events ++ found ++ mismatches
            let ok := (dedupeFailures failures).isEmpty
            let (unanchored,state) := anchorHead store deps input ok state
            (publish deps (chainReport deps input failures (warnings ++ unanchored)),state)

end

/-! A report holds a failure of a code exactly when one was found. -/

theorem dedupeStep (failures unique : List AuditVerificationFailure) (code : AuditVerificationFailureCode) :
    (∃ item ∈ failures.foldl
        (fun unique item => if unique.any (sameFailure item) then unique else unique ++ [item]) unique, item.code = code) ↔
      (∃ item ∈ unique, item.code = code) ∨ ∃ item ∈ failures, item.code = code := by
  induction failures generalizing unique with
  | nil => simp
  | cons first rest ih =>
    rw [List.foldl_cons,ih]
    by_cases seen : unique.any (sameFailure first) = true
    · obtain ⟨known,knownMem,same⟩ := List.any_eq_true.mp seen
      simp only [sameFailure,Bool.and_eq_true,decide_eq_true_eq] at same
      have codes := same.1.1
      rw [if_pos seen]
      constructor
      · rintro (inside | ⟨item,itemMem,itemCode⟩)
        · exact .inl inside
        · exact .inr ⟨item,List.mem_cons_of_mem _ itemMem,itemCode⟩
      · rintro (inside | ⟨item,itemMem,itemCode⟩)
        · exact .inl inside
        · rcases List.mem_cons.mp itemMem with here | later
          · exact .inl ⟨known,knownMem,by rw [← codes,← here,itemCode]⟩
          · exact .inr ⟨item,later,itemCode⟩
    · rw [if_neg seen]
      simp [or_and_right,exists_or,or_assoc]

theorem dedupeCode (failures : List AuditVerificationFailure) (code : AuditVerificationFailureCode) :
    (∃ item ∈ dedupeFailures failures, item.code = code) ↔ ∃ item ∈ failures, item.code = code := by
  rw [dedupeFailures,dedupeStep]
  simp

theorem dedupeEmpty (failures : List AuditVerificationFailure) :
    (dedupeFailures failures).isEmpty = true ↔ failures = [] := by
  rw [List.isEmpty_iff]
  constructor
  · intro empty
    cases failures with
    | nil => rfl
    | cons first rest =>
      obtain ⟨item,itemMem,-⟩ := (dedupeCode (first :: rest) first.code).mpr ⟨first,List.mem_cons_self,rfl⟩
      rw [empty] at itemMem
      cases itemMem
  · rintro rfl
    rfl

def Free (codes : List AuditVerificationFailureCode) (failures : List AuditVerificationFailure) : Prop :=
  ∀ item ∈ failures, item.code ∉ codes

theorem freeDedupe {codes : List AuditVerificationFailureCode} {failures : List AuditVerificationFailure} :
    Free codes (dedupeFailures failures) ↔ Free codes failures := by
  constructor
  · intro free item itemMem listed
    obtain ⟨other,otherMem,same⟩ := (dedupeCode failures item.code).mpr ⟨item,itemMem,rfl⟩
    exact free other otherMem (same ▸ listed)
  · intro free item itemMem listed
    obtain ⟨other,otherMem,same⟩ := (dedupeCode failures item.code).mp ⟨item,itemMem,rfl⟩
    exact free other otherMem (same ▸ listed)

theorem freeAppend {codes : List AuditVerificationFailureCode} {left right : List AuditVerificationFailure} :
    Free codes (left ++ right) ↔ Free codes left ∧ Free codes right := List.forall_mem_append

theorem freeNil (codes : List AuditVerificationFailureCode) : Free codes [] := fun _ mem => by cases mem

theorem freeListed {codes : List AuditVerificationFailureCode} {failures : List AuditVerificationFailure}
    (listed : ∀ item ∈ failures, item.code ∈ codes) : Free codes failures ↔ failures = [] := by
  constructor
  · intro free
    exact List.eq_nil_iff_forall_not_mem.mpr (fun item itemMem => free item itemMem (listed item itemMem))
  · rintro rfl
    exact freeNil codes

/-- The codes of sequences, schema versions, links and hashes. -/
def chainCodes : List AuditVerificationFailureCode :=
  [.sequenceGap,.sequenceReorder,.unsupportedSchemaVersion,.previousHashMismatch,.genesisPreviousHashMismatch,.hashMismatch]

/-! Sequences that start at zero and have no gap. -/

theorem sequencesNil {input : VerifyAuditChainInput} {events : List AuditEvent} :
    sequenceFailures input events = [] ↔ ∀ (i : Nat) event, events[i]? = some event → event.sequence = i := by
  have misplaced : (events.map AuditEvent.sequence).zipIdx.any (fun (sequence,index) => sequence ≠ (index : Int)) = false ↔
      ∀ (i : Nat) event, events[i]? = some event → event.sequence = i := by
    simp only [List.any_eq_false,decide_eq_true_eq,ne_eq,not_not]
    constructor
    · intro all i event at_i
      refine all (event.sequence,i) ?_
      rw [List.mk_mem_zipIdx_iff_getElem?,List.getElem?_map,at_i]
      rfl
    · rintro all ⟨sequence,i⟩ mem
      rw [List.mk_mem_zipIdx_iff_getElem?,List.getElem?_map,Option.map_eq_some_iff] at mem
      obtain ⟨event,at_i,rfl⟩ := mem
      exact all i event at_i
  rw [← misplaced]
  dsimp only [sequenceFailures]
  cases (events.map AuditEvent.sequence).zipIdx.any (fun (sequence,index) => sequence ≠ (index : Int)) with
  | false => simp
  | true =>
    simp only [if_true,Bool.true_eq_false,iff_false]
    split <;> simp

theorem sequencesListed {input : VerifyAuditChainInput} {events : List AuditEvent} :
    ∀ item ∈ sequenceFailures input events, item.code ∈ chainCodes := by
  intro item itemMem
  dsimp only [sequenceFailures] at itemMem
  split at itemMem
  · split at itemMem
    · rw [List.mem_singleton.mp itemMem]
      simp [failure,chainCodes]
    · rw [List.mem_singleton.mp itemMem]
      simp [failure,chainCodes]
  · cases itemMem

theorem sortedInOrder {events : List AuditEvent}
    (inOrder : ∀ (i : Nat) event, events[i]? = some event → event.sequence = i) : sortEvents events = events := by
  refine List.Pairwise.insertionSort_eq (List.pairwise_iff_getElem.mpr ?_)
  intro i j iBound jBound before
  rw [inOrder i events[i] (List.getElem?_eq_getElem iBound),inOrder j events[j] (List.getElem?_eq_getElem jBound)]
  omega

/-! The walk over the events. -/

section

variable {sha256Hex : Utf16 → Utf16}

/-- The hash an event has to name: that of the event before it, or the genesis hash. -/
def expectedPrevious (before : Option AuditEvent) : Utf16 :=
  (before.map AuditEvent.eventHash).getD genesisPreviousEventHash

/-- What the checks of links and hashes leave of an event. -/
structure Sound (sha256Hex : Utf16 → Utf16) (before : Option AuditEvent) (event : AuditEvent) : Prop where
  chainVersion : event.chainVersion = auditChainSchemaVersion
  previous : event.previousEventHash = expectedPrevious before
  hash : computeAuditEventHash sha256Hex event.hashInput = .ok event.eventHash

theorem versionNil {input : VerifyAuditChainInput} {event : AuditEvent} :
    versionFailures input event = [] ↔ event.chainVersion = auditChainSchemaVersion := by
  by_cases same : event.chainVersion = auditChainSchemaVersion <;> simp [versionFailures,same]

theorem linkNil {input : VerifyAuditChainInput} {before : Option AuditEvent} {event : AuditEvent} :
    linkFailures input before event = [] ↔ event.previousEventHash = expectedPrevious before := by
  cases before with
  | none =>
    by_cases same : event.previousEventHash = genesisPreviousEventHash <;> simp [linkFailures,expectedPrevious,same]
  | some before =>
    by_cases same : event.previousEventHash = before.eventHash <;> simp [linkFailures,expectedPrevious,same]

theorem hashNil {input : VerifyAuditChainInput} {event : AuditEvent} : hashFailures sha256Hex input event = [] ↔
    computeAuditEventHash sha256Hex event.hashInput = .ok event.eventHash := by
  rw [hashFailures]
  cases computeAuditEventHash sha256Hex event.hashInput with
  | error error => simp
  | ok expected => by_cases same : expected = event.eventHash <;> simp [same]

theorem soundNil {input : VerifyAuditChainInput} {before : Option AuditEvent} {event : AuditEvent} :
    Sound sha256Hex before event ↔ versionFailures input event = [] ∧ linkFailures input before event = [] ∧
      hashFailures sha256Hex input event = [] := by
  rw [versionNil,linkNil,hashNil]
  exact ⟨fun sound => ⟨sound.chainVersion,sound.previous,sound.hash⟩,fun ⟨version,previous,hash⟩ => ⟨version,previous,hash⟩⟩

/-- The payload is a record that the payload policy lets pass. -/
def AuditEvent.Approved (event : AuditEvent) : Prop :=
  event.payload.isRecord = true ∧ assertApprovedAuditPayload (Json.toJsMembers event.payload.record) 0 = .ok ()

theorem payloadNil {input : VerifyAuditChainInput} {event : AuditEvent} :
    payloadFailures input event = [] ↔ event.Approved := by
  rw [payloadFailures,AuditEvent.Approved]
  cases event.payload.isRecord with
  | false => simp
  | true => cases assertApprovedAuditPayload (Json.toJsMembers event.payload.record) 0 <;> simp

theorem eventNil {input : VerifyAuditChainInput} {before : Option AuditEvent} {event : AuditEvent} :
    eventFailures sha256Hex input before event = [] ↔ Sound sha256Hex before event ∧ event.Approved := by
  rw [eventFailures,List.append_eq_nil_iff,List.append_eq_nil_iff,List.append_eq_nil_iff,payloadNil]
  constructor
  · rintro ⟨⟨⟨version,link⟩,payload⟩,hash⟩
    exact ⟨soundNil.mpr ⟨version,link,hash⟩,payload⟩
  · rintro ⟨sound,payload⟩
    obtain ⟨version,link,hash⟩ := soundNil.mp sound
    exact ⟨⟨⟨version,link⟩,payload⟩,hash⟩

theorem singleCode {code : AuditVerificationFailureCode} {codes : List AuditVerificationFailureCode} (listed : code ∈ codes)
    {condition : Prop} [Decidable condition] {input : VerifyAuditChainInput} {event : Option AuditEvent} :
    ∀ item ∈ (if condition then [failure code input event] else []), item.code ∈ codes := by
  intro item itemMem
  split at itemMem
  · rw [List.mem_singleton.mp itemMem]
    exact listed
  · cases itemMem

theorem versionListed {input : VerifyAuditChainInput} {event : AuditEvent} :
    ∀ item ∈ versionFailures input event, item.code ∈ chainCodes := singleCode (by decide)

theorem linkListed {input : VerifyAuditChainInput} {before : Option AuditEvent} {event : AuditEvent} :
    ∀ item ∈ linkFailures input before event, item.code ∈ chainCodes := by
  cases before with
  | none => exact singleCode (by decide)
  | some before => exact singleCode (by decide)

theorem hashListed {input : VerifyAuditChainInput} {event : AuditEvent} :
    ∀ item ∈ hashFailures sha256Hex input event, item.code ∈ chainCodes := by
  rw [hashFailures]
  cases computeAuditEventHash sha256Hex event.hashInput with
  | ok expected => exact singleCode (by decide)
  | error error =>
    intro item itemMem
    rw [List.mem_singleton.mp itemMem]
    simp [failure,chainCodes]

theorem payloadCode {input : VerifyAuditChainInput} {event : AuditEvent} :
    ∀ item ∈ payloadFailures input event, item.code = .forbiddenPayloadField := by
  intro item itemMem
  rw [payloadFailures] at itemMem
  split at itemMem
  · split at itemMem
    · cases itemMem
    · rw [List.mem_singleton.mp itemMem]
      rfl
  · rw [List.mem_singleton.mp itemMem]
    rfl

theorem eventFree {input : VerifyAuditChainInput} {before : Option AuditEvent} {event : AuditEvent} :
    Free chainCodes (eventFailures sha256Hex input before event) ↔ Sound sha256Hex before event := by
  have payload : Free chainCodes (payloadFailures input event) := by
    intro item itemMem
    rw [payloadCode item itemMem]
    decide
  rw [eventFailures,freeAppend,freeAppend,freeAppend,freeListed versionListed,freeListed linkListed,freeListed hashListed]
  constructor
  · rintro ⟨⟨⟨version,link⟩,-⟩,hash⟩
    exact soundNil.mpr ⟨version,link,hash⟩
  · intro sound
    obtain ⟨version,link,hash⟩ := soundNil.mp sound
    exact ⟨⟨⟨version,link⟩,payload⟩,hash⟩

def artifactCodes : List AuditVerificationFailureCode := [.artifactMissing,.artifactDigestMismatch]

theorem recordedListed {input : VerifyAuditChainInput} {event : AuditEvent} {artifact : ArtifactRow} :
    ∀ item ∈ recordedFailures input event artifact, item.code ∈ artifactCodes := by
  rw [recordedFailures]
  cases finalizedSha256 event with
  | none => exact List.forall_mem_nil _
  | some digest => exact singleCode (by decide)

theorem artifactListed {deps : VerifyDeps} {input : VerifyAuditChainInput} {event : AuditEvent}
    {found : List AuditVerificationFailure} (run : verifyFinalizedArtifact deps input event = .ok found) :
    ∀ item ∈ found, item.code ∈ artifactCodes := by
  rw [verifyFinalizedArtifact] at run
  split at run
  · cases run
    simp [failure,artifactCodes]
  · obtain ⟨body,-,last⟩ := bindOk.mp run
    split at last
    · cases last
      refine List.forall_mem_append.mpr ⟨recordedListed,?_⟩
      simp [failure,artifactCodes]
    · cases last
      exact List.forall_mem_append.mpr ⟨recordedListed,singleCode (by decide)⟩

/-- Every event of the list was found in order after the one before it. -/
def Walk (check : Option AuditEvent → AuditEvent → Prop) : Option AuditEvent → List AuditEvent → Prop
  | _, [] => True
  | before, event :: rest => check before event ∧ Walk check (some event) rest

theorem eventsFree {codes : List AuditVerificationFailureCode} (apart : ∀ code ∈ artifactCodes, code ∉ codes)
    {deps : VerifyDeps} {input : VerifyAuditChainInput} {before : Option AuditEvent} {events : List AuditEvent}
    {found : List AuditVerificationFailure} (run : verifyEvents sha256Hex deps input before events = .ok found) :
    Free codes found ↔
      Walk (fun before event => Free codes (eventFailures sha256Hex input before event)) before events := by
  induction events generalizing before found with
  | nil =>
    cases run
    simp [freeNil,Walk]
  | cons event rest ih =>
    rw [verifyEvents] at run
    obtain ⟨artifact,checked,run⟩ := bindOk.mp run
    obtain ⟨others,next,last⟩ := bindOk.mp run
    cases last
    have artifactFree : Free codes artifact := by
      intro item itemMem
      rw [eventArtifact] at checked
      split at checked
      · exact apart _ (artifactListed checked item itemMem)
      · cases checked
        cases itemMem
    rw [freeAppend,freeAppend,ih next,Walk]
    exact ⟨fun ⟨⟨here,_⟩,rest⟩ => ⟨here,rest⟩,fun ⟨here,rest⟩ => ⟨⟨here,artifactFree⟩,rest⟩⟩

/-- All failures of a run, in the order they are found. -/
def allFailures {σ : Type} (store : ImmutableCheckpointStore σ) (deps : VerifyDeps) (input : VerifyAuditChainInput)
    (state : σ) (found : List AuditVerificationFailure) : List AuditVerificationFailure :=
  sequenceFailures input deps.events ++ found ++ (compareCheckpoint store deps input state).1

/-- What a run over a chain that is not empty did when it returned its report. -/
structure Verified (sha256Hex : Utf16 → Utf16) {σ : Type} (store : ImmutableCheckpointStore σ) (deps : VerifyDeps)
    (input : VerifyAuditChainInput) (state : σ) (report : AuditVerificationReport) (after : σ)
    (found : List AuditVerificationFailure) : Prop where
  admitted : admitCaller deps input = .ok ()
  events : verifyEvents sha256Hex deps input none (sortEvents deps.events) = .ok found
  returned : report = chainReport deps input (allFailures store deps input state found)
    ((compareCheckpoint store deps input state).2 ++ (anchorHead store deps input report.ok state).1)
  after : after = (anchorHead store deps input report.ok state).2

variable {σ : Type} {store : ImmutableCheckpointStore σ} {deps : VerifyDeps} {input : VerifyAuditChainInput} {state after : σ}
  {report : AuditVerificationReport}

theorem published {returned : AuditVerificationReport} (run : publish deps report = .ok returned) :
    returned = report := by
  rw [publish] at run
  obtain ⟨-,-,last⟩ := bindOk.mp run
  cases last
  rfl

theorem publishOk (ok : report.ok = true) : publish deps report = .ok report := by
  rw [publish,publishOutcome,if_pos ok]
  rfl

theorem verified (run : verifyAuditChain sha256Hex store deps input state = (.ok report,after)) (some : deps.events ≠ []) :
    ∃ found, Verified sha256Hex store deps input state report after found := by
  rw [verifyAuditChain] at run
  split at run
  · cases run
  · rename_i admitted
    rw [if_neg some] at run
    split at run
    · cases run
    · rename_i found events
      obtain ⟨same,after⟩ := Prod.mk.inj run
      have report := published same
      refine ⟨found,admitted,events,?_,?_⟩
      · rw [report]
        rfl
      · rw [← after,report]
        rfl

end

end ESign
