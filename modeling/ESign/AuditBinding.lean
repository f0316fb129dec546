import ESign.AuditVerify
import ESign.HashChain

/-! What the hash chain binds. A run that finds no fault in sequences, schema versions,
links and hashes has seen a linked chain of hashed events, and the head hash of such a
chain fixes every field that is hashed, but for members named `__proto__`. Neither the
organization nor the document is among these fields. -/
namespace ESign
open JsText

def auditChain : HashChain AuditEvent Utf16 := ⟨AuditEvent.previousEventHash,AuditEvent.eventHash,AuditEvent.sequence⟩

/-- A chain of rows that starts at the genesis hash, with the hashes its events have. -/
structure Intact (sha256Hex : Utf16 → Utf16) (events : List AuditEvent) : Prop where
  linked : auditChain.Linked genesisPreviousEventHash 0 events
  hashed : ∀ event ∈ events, computeAuditEventHash sha256Hex event.hashInput = .ok event.eventHash

section

variable {sha256Hex : Utf16 → Utf16}

def AuditEvent.hashedPayload (event : AuditEvent) : Json := .object event.payload.record

theorem hashedPayloadDistinct (event : AuditEvent) : event.hashedPayload.distinct = true := by
  have distinct := event.payload.distinct
  rw [AuditEvent.hashedPayload,JsonValue.record]
  split
  · rename_i members value
    rw [← value]
    exact distinct
  · rfl

theorem eventHash {event : AuditEvent} {hash : Utf16} :
    computeAuditEventHash sha256Hex event.hashInput = .ok hash ↔ event.chainVersion = auditChainSchemaVersion ∧
      ∃ occurredAt, event.occurredAt = some occurredAt ∧
        hash = sha256Hex (canonicalAuditEvent event.hashInput occurredAt event.hashedPayload.canonical).stringify :=
  hashInput (hashedPayloadDistinct event) rfl

theorem walkLinked {before : Option AuditEvent} {events : List AuditEvent} {start : Int} :
    (Walk (Sound sha256Hex) before events ∧ ∀ (i : Nat) event, events[i]? = some event → event.sequence = start+i) ↔
      (auditChain.Linked (expectedPrevious before) start events ∧
        ∀ event ∈ events, computeAuditEventHash sha256Hex event.hashInput = .ok event.eventHash) := by
  induction events generalizing before start with
  | nil => simp [Walk,HashChain.Linked]
  | cons event rest ih =>
    have shift : (∀ (i : Nat) other, (event :: rest)[i]? = some other → other.sequence = start+i) ↔
        event.sequence = start ∧ ∀ (i : Nat) other, rest[i]? = some other → other.sequence = start+1+i := by
      constructor
      · intro all
        refine ⟨by simpa using all 0 event rfl,fun i other at_i => ?_⟩
        have := all (i+1) other at_i
        omega
      · rintro ⟨first,others⟩ i other at_i
        cases i with
        | zero =>
          cases at_i
          simpa using first
        | succ i =>
          have := others i other at_i
          omega
    rw [shift,Walk,HashChain.Linked,List.forall_mem_cons]
    have next := @ih (some event) (start+1)
    constructor
    · rintro ⟨⟨sound,walk⟩,first,others⟩
      obtain ⟨linked,hashed⟩ := next.mp ⟨walk,others⟩
      exact ⟨⟨sound.previous,first,linked⟩,sound.hash,hashed⟩
    · rintro ⟨⟨previous,first,linked⟩,hash,hashed⟩
      obtain ⟨walk,others⟩ := next.mpr ⟨linked,hashed⟩
      exact ⟨⟨⟨(eventHash.mp hash).1,previous,hash⟩,walk⟩,first,others⟩

theorem walkCongr {check check' : Option AuditEvent → AuditEvent → Prop}
    (same : ∀ before event, check before event ↔ check' before event) {before : Option AuditEvent}
    {events : List AuditEvent} : Walk check before events ↔ Walk check' before events := by
  induction events generalizing before with
  | nil => rfl
  | cons event rest ih => rw [Walk,Walk,same,ih]

variable {σ : Type} {store : ImmutableCheckpointStore σ} {deps : VerifyDeps} {input : VerifyAuditChainInput} {state after : σ}
  {report : AuditVerificationReport} {found : List AuditVerificationFailure}

theorem mismatchCode {sorted : List AuditEvent} {anchored : Option AuditCheckpoint} :
    ∀ item ∈ checkpointFailures input sorted anchored, item.code = .checkpointMismatch := by
  intro item itemMem
  cases anchored with
  | none => cases itemMem
  | some anchored =>
    simp only [checkpointFailures] at itemMem
    split at itemMem
    · rw [List.mem_singleton.mp itemMem]
      rfl
    · split at itemMem
      · rw [List.mem_singleton.mp itemMem]
        rfl
      · cases itemMem

theorem checkpointCode : ∀ item ∈ (compareCheckpoint store deps input state).1, item.code = .checkpointMismatch := by
  intro item itemMem
  rw [compareCheckpoint] at itemMem
  split at itemMem
  · split at itemMem
    · exact mismatchCode item itemMem
    · cases itemMem
  · cases itemMem

theorem intactIff (run : Verified sha256Hex store deps input state report after found) :
    Free chainCodes report.failures ↔ Intact sha256Hex deps.events := by
  have checkpoint : Free chainCodes (compareCheckpoint store deps input state).1 := by
    intro item itemMem
    rw [checkpointCode item itemMem]
    decide
  have sound : Walk (fun before event => Free chainCodes (eventFailures sha256Hex input before event)) none deps.events ↔
      Walk (Sound sha256Hex) none deps.events := walkCongr (fun _ _ => eventFree)
  have linked := @walkLinked sha256Hex none deps.events 0
  simp only [Int.zero_add] at linked
  rw [run.returned]
  change Free chainCodes (dedupeFailures (allFailures store deps input state found)) ↔ _
  rw [freeDedupe,allFailures,freeAppend,freeAppend,freeListed sequencesListed,sequencesNil,eventsFree (by decide) run.events]
  constructor
  · rintro ⟨⟨inOrder,walk⟩,-⟩
    rw [sortedInOrder inOrder,sound] at walk
    obtain ⟨linked,hashed⟩ := linked.mp ⟨walk,inOrder⟩
    exact ⟨linked,hashed⟩
  · rintro ⟨chained,hashed⟩
    obtain ⟨walk,inOrder⟩ := linked.mpr ⟨chained,hashed⟩
    refine ⟨⟨inOrder,?_⟩,checkpoint⟩
    rw [sortedInOrder inOrder,sound]
    exact walk

def AuditEvent.hashedText (event : AuditEvent) : Except AppError Utf16 := do
  let hashed ← toCanonicalAuditEventV1 event.hashInput
  serializeCanonicalJson hashed.toJs

/-- The texts that are hashed for the events. -/
def hashedTexts (events : List AuditEvent) : Set Utf16 := {text | ∃ event ∈ events, event.hashedText = .ok text}

/-- Two rows agree in what the chain is to bind: payloads as JSON values up to key order. -/
structure SameEvent (left right : AuditEvent) : Prop where
  sequence : left.sequence = right.sequence
  type : left.type = right.type
  actorType : left.actorType = right.actorType
  actorId : left.actorId = right.actorId
  occurredAt : left.occurredAt = right.occurredAt
  payload : left.payload.value.sorted = right.payload.value.sorted

/-- The payloads have the same members but for some that are named `__proto__`, at any depth. -/
def ProtoOnly (left right : Json) : Prop := left.sorted ≠ right.sorted ∧ left.strip.sorted = right.strip.sorted

def SameHashed (left right : AuditEvent) : Prop :=
  Bound left.hashInput right.hashInput left.hashedPayload right.hashedPayload

theorem hashedTextOk {event : AuditEvent} {occurredAt : Int} (version : event.chainVersion = auditChainSchemaVersion)
    (time : event.occurredAt = some occurredAt) : event.hashedText =
      .ok (canonicalAuditEvent event.hashInput occurredAt event.hashedPayload.canonical).stringify := by
  have same : event.hashInput.schemaVersion = auditChainSchemaVersion := version
  have input : event.hashInput.occurredAt = some occurredAt := time
  have payload : canonicalizeJsonValue event.hashInput.payload = .ok event.hashedPayload.canonical :=
    Json.canonicalizeToJs event.hashedPayload
  have twice := canonicalEvent event.hashInput occurredAt event.hashedPayload.canonical
  rw [Json.canonicalTwice (hashedPayloadDistinct event)] at twice
  simp only [AuditEvent.hashedText,toCanonicalAuditEventV1,same,input,payload,check,decide_true,if_true,bind,Except.bind,
    serializeCanonicalJson,Json.canonicalizeToJs,twice]

theorem hashBinds {left right : List AuditEvent} (intact : Intact sha256Hex left) (intact' : Intact sha256Hex right)
    (injective : Set.InjOn sha256Hex (hashedTexts left ∪ hashedTexts right)) :
    ∀ a ∈ left, ∀ b ∈ right, auditChain.digest a = auditChain.digest b →
      SameHashed a b ∧ auditChain.previous a = auditChain.previous b ∧ auditChain.position a = auditChain.position b := by
  intro a aMem b bMem same
  obtain ⟨version,t,time,hash⟩ := eventHash.mp (intact.hashed a aMem)
  obtain ⟨version',t',time',hash'⟩ := eventHash.mp (intact'.hashed b bMem)
  have occurs := hashedTextOk version time
  have occurs' := hashedTextOk version' time'
  have digests : sha256Hex (canonicalAuditEvent a.hashInput t a.hashedPayload.canonical).stringify =
      sha256Hex (canonicalAuditEvent b.hashInput t' b.hashedPayload.canonical).stringify := by
    rw [← hash,← hash']
    exact same
  have texts := injective (.inl ⟨a,aMem,occurs⟩) (.inr ⟨b,bMem,occurs'⟩) digests
  have bound := textBound (hashedPayloadDistinct a) (hashedPayloadDistinct b) time time' texts
  exact ⟨bound,bound.previousEventHash,bound.sequence⟩

theorem headSplit {events : List AuditEvent} (some : events ≠ []) : ∃ front head, events = front ++ [head] := by
  rcases List.eq_nil_or_concat events with empty | ⟨front,head,snoc⟩
  · exact absurd empty some
  · exact ⟨front,head,by rw [snoc,List.concat_eq_append]⟩

theorem historiesAgree {left right : List AuditEvent} (intact : Intact sha256Hex left) (intact' : Intact sha256Hex right)
    (injective : Set.InjOn sha256Hex (hashedTexts left ∪ hashedTexts right)) (some : left ≠ []) (some' : right ≠ [])
    (heads : left.getLast?.map AuditEvent.eventHash = right.getLast?.map AuditEvent.eventHash) :
    List.Forall₂ SameHashed left right := by
  obtain ⟨front,head,rfl⟩ := headSplit some
  obtain ⟨front',head',rfl⟩ := headSplit some'
  simp only [List.getLast?_concat,Option.map_some,Option.some.injEq] at heads
  exact HashChain.headsAgree front front' intact.linked intact'.linked (hashBinds intact intact' injective) heads

theorem hashedRecord {event : AuditEvent} (record : event.payload.isRecord = true) :
    event.hashedPayload = event.payload.value := by
  rw [JsonValue.isRecord] at record
  rw [AuditEvent.hashedPayload,JsonValue.record]
  split
  · rename_i members value
    rw [value]
  · rename_i other
    split at record
    · rename_i members value
      exact absurd value (other members)
    · cases record

variable {σ' : Type} {store' : ImmutableCheckpointStore σ'} {deps' : VerifyDeps} {input' : VerifyAuditChainInput}
  {state' after' : σ'} {report' : AuditVerificationReport}

theorem intactSorted {events : List AuditEvent} (intact : Intact sha256Hex events) :
    Walk (Sound sha256Hex) none events ∧ (∀ (i : Nat) event, events[i]? = some event → event.sequence = i) ∧
      sortEvents events = events := by
  obtain ⟨walk,inOrder⟩ := (@walkLinked sha256Hex none events 0).mpr ⟨intact.linked,intact.hashed⟩
  simp only [Int.zero_add] at inOrder
  exact ⟨walk,inOrder,sortedInOrder inOrder⟩

theorem reportHead (run : Verified sha256Hex store deps input state report after found)
    (intact : Intact sha256Hex deps.events) :
    report.headEventHash = deps.events.getLast?.map AuditEvent.eventHash := by
  rw [run.returned,chainReport,(intactSorted intact).2.2]

/- Two chains with one head: the rows agree unless payloads at one position differ in
`__proto__` members, which canonicalization loses. -/
theorem headBindsHistory (run : verifyAuditChain sha256Hex store deps input state = (.ok report,after))
    (run' : verifyAuditChain sha256Hex store' deps' input' state' = (.ok report',after'))
    (some : deps.events ≠ []) (some' : deps'.events ≠ [])
    (records : ∀ event ∈ deps.events, event.payload.isRecord = true)
    (records' : ∀ event ∈ deps'.events, event.payload.isRecord = true)
    (free : Free chainCodes report.failures) (free' : Free chainCodes report'.failures)
    (heads : report.headEventHash = report'.headEventHash)
    (injective : Set.InjOn sha256Hex (hashedTexts deps.events ∪ hashedTexts deps'.events)) :
    List.Forall₂ SameEvent deps.events deps'.events ↔
      ∀ (i : Nat) left right, deps.events[i]? = .some left → deps'.events[i]? = .some right →
        ¬ ProtoOnly left.payload.value right.payload.value := by
  obtain ⟨found,run⟩ := verified run some
  obtain ⟨found',run'⟩ := verified run' some'
  have intact := (intactIff run).mp free
  have intact' := (intactIff run').mp free'
  rw [reportHead run intact,reportHead run' intact'] at heads
  have agree := historiesAgree intact intact' injective some some' heads
  constructor
  · intro same i left right leftAt rightAt differ
    obtain ⟨iBound,rfl⟩ := List.getElem?_eq_some_iff.mp leftAt
    obtain ⟨iBound',rfl⟩ := List.getElem?_eq_some_iff.mp rightAt
    exact differ.1 ((List.forall₂_iff_get.mp same).2 i iBound iBound').payload
  · intro none
    refine List.forall₂_iff_get.mpr ⟨agree.length_eq,fun i iBound iBound' => ?_⟩
    have bound := (List.forall₂_iff_get.mp agree).2 i iBound iBound'
    have payloads : (deps.events.get ⟨i,iBound⟩).payload.value.strip.sorted =
        (deps'.events.get ⟨i,iBound'⟩).payload.value.strip.sorted := by
      rw [← hashedRecord (records _ (List.get_mem _ _)),← hashedRecord (records' _ (List.get_mem _ _))]
      exact bound.payload
    refine ⟨bound.sequence,bound.type,bound.actorType,bound.actorId,bound.occurredAt,?_⟩
    by_contra differ
    exact none i _ _ (List.getElem?_eq_getElem iBound) (List.getElem?_eq_getElem iBound') ⟨differ,payloads⟩

/-! When a run reports ok. -/

/-- The document has an artifact of the digest the event names, and its bytes have that digest. -/
def ArtifactMatches (deps : VerifyDeps) (input : VerifyAuditChainInput) (event : AuditEvent) : Prop :=
  ∃ artifact body, deps.artifact = some artifact ∧
    (∀ digest, finalizedSha256 event = some digest → artifact.sha256Digest = digest) ∧
    artifactBody deps input artifact = .ok (some body) ∧ deps.sha256Body body = artifact.sha256Digest

theorem artifactNil {event : AuditEvent} :
    verifyFinalizedArtifact deps input event = .ok [] ↔ ArtifactMatches deps input event := by
  rw [verifyFinalizedArtifact,ArtifactMatches]
  cases deps.artifact with
  | none => simp
  | some artifact =>
    have recorded : recordedFailures input event artifact = [] ↔
        ∀ digest, finalizedSha256 event = some digest → artifact.sha256Digest = digest := by
      rw [recordedFailures]
      cases finalizedSha256 event <;> simp
    cases read : artifactBody deps input artifact with
    | error error => simp [read,bind,Except.bind]
    | ok body =>
      cases body with
      | none => simp [read,bind,Except.bind]
      | some body =>
        simp only [read,bind,Except.bind,Except.ok.injEq,List.append_eq_nil_iff,recorded,Option.some.injEq]
        constructor
        · rintro ⟨digest,bytes⟩
          exact ⟨artifact,body,rfl,digest,read,by simpa using bytes⟩
        · rintro ⟨artifact',body',rfl,digest,read',bytes⟩
          rw [read] at read'
          cases read'
          exact ⟨digest,by simpa using bytes⟩

theorem eventArtifactNil {event : AuditEvent} : eventArtifact deps input event = .ok [] ↔
    (event.type = .documentFinalized → ArtifactMatches deps input event) := by
  rw [eventArtifact]
  by_cases final : event.type = .documentFinalized
  · rw [if_pos final,artifactNil]
    simp [final]
  · simp [final]

theorem verifyEventsNil {before : Option AuditEvent} {events : List AuditEvent} :
    verifyEvents sha256Hex deps input before events = .ok [] ↔ Walk (Sound sha256Hex) before events ∧
      ∀ event ∈ events, event.Approved ∧ (event.type = .documentFinalized → ArtifactMatches deps input event) := by
  induction events generalizing before with
  | nil => simp [verifyEvents,Walk]
  | cons event rest ih =>
    rw [verifyEvents,bindOk]
    constructor
    · rintro ⟨artifact,checked,run⟩
      obtain ⟨others,next,last⟩ := bindOk.mp run
      have empty := Except.ok.inj last
      rw [List.append_eq_nil_iff,List.append_eq_nil_iff] at empty
      obtain ⟨⟨here,rfl⟩,rfl⟩ := empty
      obtain ⟨sound,approved⟩ := eventNil.mp here
      obtain ⟨walk,others⟩ := ih.mp next
      exact ⟨⟨sound,walk⟩,List.forall_mem_cons.mpr ⟨⟨approved,eventArtifactNil.mp checked⟩,others⟩⟩
    · rintro ⟨⟨sound,walk⟩,all⟩
      obtain ⟨⟨approved,artifact⟩,others⟩ := List.forall_mem_cons.mp all
      refine ⟨[],eventArtifactNil.mpr artifact,bindOk.mpr ⟨[],ih.mpr ⟨walk,others⟩,?_⟩⟩
      rw [eventNil.mpr ⟨sound,approved⟩]
      rfl

def ReportedOk (sha256Hex : Utf16 → Utf16) (store : ImmutableCheckpointStore σ) (deps : VerifyDeps)
    (input : VerifyAuditChainInput) (state : σ) : Prop :=
  ∃ report after, verifyAuditChain sha256Hex store deps input state = (.ok report,after) ∧ report.ok = true

structure ChainInOrder (sha256Hex : Utf16 → Utf16) (store : ImmutableCheckpointStore σ) (deps : VerifyDeps)
    (input : VerifyAuditChainInput) (state : σ) : Prop where
  admitted : admitCaller deps input = .ok ()
  some : deps.events ≠ []
  intact : Intact sha256Hex deps.events
  approved : ∀ event ∈ deps.events, event.Approved
  artifacts : ∀ event ∈ deps.events, event.type = .documentFinalized → ArtifactMatches deps input event
  checkpoint : (compareCheckpoint store deps input state).1 = []

theorem inOrderOf (run : verifyAuditChain sha256Hex store deps input state = (.ok report,after)) (ok : report.ok = true) :
    ChainInOrder sha256Hex store deps input state := by
  have some : deps.events ≠ [] := by
    intro empty
    rw [verifyAuditChain,if_pos empty] at run
    split at run
    · cases run
    · rw [published (Prod.mk.inj run).1,emptyReport] at ok
      cases ok
  obtain ⟨found,run⟩ := verified run some
  rw [run.returned,chainReport,dedupeEmpty,allFailures,List.append_eq_nil_iff,List.append_eq_nil_iff,sequencesNil] at ok
  obtain ⟨⟨inOrder,rfl⟩,checkpoint⟩ := ok
  have events := run.events
  rw [sortedInOrder inOrder,verifyEventsNil] at events
  have linked := @walkLinked sha256Hex none deps.events 0
  simp only [Int.zero_add] at linked
  obtain ⟨chained,hashed⟩ := linked.mp ⟨events.1,inOrder⟩
  exact ⟨run.admitted,some,⟨chained,hashed⟩,fun event mem => (events.2 event mem).1,
    fun event mem => (events.2 event mem).2,checkpoint⟩

/-- The report of a run that finds everything in order. -/
def okReport (store : ImmutableCheckpointStore σ) (deps : VerifyDeps) (input : VerifyAuditChainInput) (state : σ) :
    AuditVerificationReport :=
  chainReport deps input [] ((compareCheckpoint store deps input state).2 ++ (anchorHead store deps input true state).1)

theorem runInOrder (inOrder : ChainInOrder sha256Hex store deps input state) :
    verifyAuditChain sha256Hex store deps input state =
      (.ok (okReport store deps input state),(anchorHead store deps input true state).2) := by
  obtain ⟨walk,sequences,sorted⟩ := intactSorted inOrder.intact
  have events : verifyEvents sha256Hex deps input none (sortEvents deps.events) = .ok [] := by
    rw [sorted]
    exact verifyEventsNil.mpr ⟨walk,fun event mem => ⟨inOrder.approved event mem,inOrder.artifacts event mem⟩⟩
  simp only [verifyAuditChain,inOrder.admitted,inOrder.some,if_false,events,sequencesNil.mpr sequences,inOrder.checkpoint,
    List.append_nil]
  rfl

theorem reportedOkIff : ReportedOk sha256Hex store deps input state ↔ ChainInOrder sha256Hex store deps input state := by
  constructor
  · rintro ⟨report,after,run,ok⟩
    exact inOrderOf run ok
  · intro inOrder
    exact ⟨_,_,runInOrder inOrder,rfl⟩

/-! Rows under another document. -/

def AuditEvent.transplant (organizationId documentId : OpaqueId) (event : AuditEvent) : AuditEvent :=
  { event with organizationId := organizationId, documentId := documentId }

theorem linkedTransplant {organizationId documentId : OpaqueId} {events : List AuditEvent} {root : Utf16} {start : Int} :
    auditChain.Linked root start (events.map (AuditEvent.transplant organizationId documentId)) ↔
      auditChain.Linked root start events := by
  induction events generalizing root start with
  | nil => rfl
  | cons event rest ih =>
    rw [List.map_cons,HashChain.Linked,HashChain.Linked]
    exact and_congr Iff.rfl (and_congr Iff.rfl ih)

theorem intactTransplant {organizationId documentId : OpaqueId} {events : List AuditEvent}
    (intact : Intact sha256Hex events) : Intact sha256Hex (events.map (AuditEvent.transplant organizationId documentId)) := by
  refine ⟨linkedTransplant.mpr intact.linked,?_⟩
  rw [List.forall_mem_map]
  exact intact.hashed

/- The run for the other document looks at its artifact, and at nothing else that is its own. -/
theorem transplantInOrder (inOrder : ChainInOrder sha256Hex store deps input state)
    (rows : deps'.events = deps.events.map (AuditEvent.transplant input'.organizationId input'.documentId))
    (unanchored : ∀ checkpoint, store'.getLatest input'.organizationId input'.documentId state' ≠ .ok (some checkpoint)) :
    ChainInOrder sha256Hex store' deps' input' state' ↔ admitCaller deps' input' = .ok () ∧
      ∀ event ∈ deps.events, event.type = .documentFinalized → ArtifactMatches deps' input' event := by
  constructor
  · intro other
    refine ⟨other.admitted,fun event mem final => ?_⟩
    have moved := other.artifacts (event.transplant input'.organizationId input'.documentId)
    rw [rows] at moved
    exact moved (List.mem_map_of_mem mem) final
  · rintro ⟨admitted,artifacts⟩
    refine ⟨admitted,?_,?_,?_,?_,?_⟩
    · rw [rows]
      exact fun empty => inOrder.some (List.map_eq_nil_iff.mp empty)
    · rw [rows]
      exact intactTransplant inOrder.intact
    · rw [rows,List.forall_mem_map]
      exact inOrder.approved
    · rw [rows,List.forall_mem_map]
      exact artifacts
    · rw [compareCheckpoint]
      split
      · split
        · rename_i anchored latest
          cases anchored with
          | none => rfl
          | some checkpoint => exact absurd latest (unanchored checkpoint)
        · rfl
      · rfl

theorem transplantRefused (ok : ReportedOk sha256Hex store deps input state)
    (rows : deps'.events = deps.events.map (AuditEvent.transplant input'.organizationId input'.documentId))
    (unanchored : ∀ checkpoint, store'.getLatest input'.organizationId input'.documentId state' ≠ .ok (some checkpoint)) :
    ¬ ReportedOk sha256Hex store' deps' input' state' ↔ admitCaller deps' input' ≠ .ok () ∨
      ∃ event ∈ deps.events, event.type = .documentFinalized ∧ ¬ ArtifactMatches deps' input' event := by
  rw [reportedOkIff] at ok ⊢
  rw [transplantInOrder ok rows unanchored,not_and_or]
  simp only [not_forall,exists_prop]

end

/-! One document created and sent, with the digests SHA-256 gives these two events. -/
namespace CreatedAndSent

def organization : OpaqueId := ⟨utf16 "11111111-1111-4111-8111-111111111111",by decide +kernel⟩
def document : OpaqueId := ⟨utf16 "44444444-4444-4444-8444-444444444444",by decide +kernel⟩
def uploadSession : Json := .string (utf16 "55555555-5555-4555-8555-555555555555")
def actor : Utf16 := utf16 "22222222-2222-4222-8222-222222222222"

def createdHash : Utf16 := utf16 "4d492b1a43fc691da54996a57b1917e9a05e340ee95c148ba6e4aec804ec5f1e"
def sentHash : Utf16 := utf16 "1f89a23c699f152c544d21a0c98f81fb37e6fb12d9f1249adf817c4d54908849"

def createdPayload : JsonValue where
  value := .object [(utf16 "documentId",.string document.text),(utf16 "uploadSessionId",uploadSession)]
  distinct := by decide +kernel

def reorderedPayload : JsonValue where
  value := .object [(utf16 "uploadSessionId",uploadSession),(utf16 "documentId",.string document.text)]
  distinct := by decide +kernel

def tamperedPayload : JsonValue where
  value := .object [(utf16 "documentId",.string document.text),(protoKey,.string (utf16 "tampered")),
    (utf16 "uploadSessionId",uploadSession)]
  distinct := by decide +kernel

def created (payload : JsonValue) : AuditEvent where
  id := ⟨utf16 "66666666-6666-4666-8666-666666666666",by decide +kernel⟩
  organizationId := organization
  documentId := document
  sequence := 0
  type := .documentCreated
  actorType := .accountUser
  actorId := actor
  occurredAt := some 1787140800000
  payload := payload
  previousEventHash := genesisPreviousEventHash
  eventHash := createdHash
  chainVersion := 1

def sent : AuditEvent where
  id := ⟨utf16 "77777777-7777-4777-8777-777777777777",by decide +kernel⟩
  organizationId := organization
  documentId := document
  sequence := 1
  type := .documentSent
  actorType := .accountUser
  actorId := actor
  occurredAt := some 1787140860000
  payload := ⟨.object [(utf16 "documentId",.string document.text)],by decide +kernel⟩
  previousEventHash := createdHash
  eventHash := sentHash
  chainVersion := 1

def createdText : Utf16 :=
  utf16 "\x7b\"actorId\":\"22222222-2222-4222-8222-222222222222\",\"actorType\":\"account_user\",\"occurredAt" ++
  utf16 "\":\"2026-08-19T12:00:00.000Z\",\"payload\":\x7b\"documentId\":\"44444444-4444-4444-8444-4444444444" ++
  utf16 "44\",\"uploadSessionId\":\"55555555-5555-4555-8555-555555555555\"\x7d,\"previousEventHash\":\"00000" ++
  utf16 "00000000000000000000000000000000000000000000000000000000000\",\"schemaVersion\":1,\"sequence" ++
  utf16 "\":0,\"type\":\"document_created\"\x7d"

def sentText : Utf16 :=
  utf16 "\x7b\"actorId\":\"22222222-2222-4222-8222-222222222222\",\"actorType\":\"account_user\",\"occurredAt" ++
  utf16 "\":\"2026-08-19T12:01:00.000Z\",\"payload\":\x7b\"documentId\":\"44444444-4444-4444-8444-4444444444" ++
  utf16 "44\"\x7d,\"previousEventHash\":\"4d492b1a43fc691da54996a57b1917e9a05e340ee95c148ba6e4aec804ec5f" ++
  utf16 "1e\",\"schemaVersion\":1,\"sequence\":1,\"type\":\"document_sent\"\x7d"

def sha256Hex (text : Utf16) : Utf16 :=
  if text = createdText then createdHash else if text = sentText then sentHash else []

def reads (events : List AuditEvent) (anchoredAt : Int) : VerifyDeps where
  assertAllowed _ _ := .ok ()
  documentExists := true
  events := events
  artifact := none
  getObject _ := .ok none
  sha256Body _ := []
  checkedAt := 1787140900000
  anchoredAt := anchoredAt
  notify _ := .ok ()

def request : VerifyAuditChainInput := ⟨organization,document,none⟩

def verify (events : List AuditEvent) : Except AppError AuditVerificationReport × List AuditCheckpoint :=
  verifyAuditChain sha256Hex MemoryCheckpointStore.store (reads events 1787140900000) request []

def summary (answer : Except AppError AuditVerificationReport × List AuditCheckpoint) :
    Option (Bool × List AuditVerificationFailureCode × Option Utf16) :=
  match answer.1 with
  | .ok report => some (report.ok,report.failures.map AuditVerificationFailure.code,report.headEventHash)
  | .error _ => none

theorem runOf {events : List AuditEvent} {head : Option Utf16} (shown : summary (verify events) = some (true,[],head)) :
    ∃ report after, verifyAuditChain sha256Hex MemoryCheckpointStore.store (reads events 1787140900000) request [] =
      (.ok report,after) ∧ report.ok = true ∧ report.failures = [] ∧ report.headEventHash = head := by
  rw [summary] at shown
  split at shown
  · rename_i report run
    simp only [Option.some.injEq,Prod.mk.injEq,List.map_eq_nil_iff] at shown
    exact ⟨report,(verify events).2,Prod.ext run rfl,shown⟩
  · cases shown

theorem evaluated :
    (∀ payload ∈ [createdPayload,reorderedPayload,tamperedPayload],
      summary (verify [created payload,sent]) = some (true,[],some sentHash) ∧
      (canonicalAuditEvent (created payload).hashInput 1787140800000 (created payload).hashedPayload.canonical).stringify =
        createdText) ∧
    (canonicalAuditEvent sent.hashInput 1787140860000 sent.hashedPayload.canonical).stringify = sentText ∧
    sentText ≠ createdText ∧ createdHash ≠ sentHash ∧
    createdPayload.value.sorted.stringify = reorderedPayload.value.sorted.stringify ∧
    createdPayload.value.sorted.stringify ≠ tamperedPayload.value.sorted.stringify := by decide +kernel

theorem createdRun : summary (verify [created createdPayload,sent]) = some (true,[],some sentHash) :=
  (evaluated.1 createdPayload List.mem_cons_self).1

theorem originalText : (canonicalAuditEvent (created createdPayload).hashInput 1787140800000
    (created createdPayload).hashedPayload.canonical).stringify = createdText :=
  (evaluated.1 createdPayload List.mem_cons_self).2

theorem reordered : summary (verify [created reorderedPayload,sent]) = some (true,[],some sentHash) ∧
    (canonicalAuditEvent (created reorderedPayload).hashInput 1787140800000
      (created reorderedPayload).hashedPayload.canonical).stringify = createdText :=
  evaluated.1 reorderedPayload (List.mem_cons_of_mem _ List.mem_cons_self)

theorem tampered : summary (verify [created tamperedPayload,sent]) = some (true,[],some sentHash) ∧
    (canonicalAuditEvent (created tamperedPayload).hashInput 1787140800000
      (created tamperedPayload).hashedPayload.canonical).stringify = createdText :=
  evaluated.1 tamperedPayload (List.mem_cons_of_mem _ (List.mem_cons_of_mem _ List.mem_cons_self))

theorem createdHashed {payload : JsonValue} (same : (canonicalAuditEvent (created payload).hashInput 1787140800000
      (created payload).hashedPayload.canonical).stringify = createdText) :
    hashedTexts [created payload,sent] ⊆ {createdText,sentText} := by
  rintro text ⟨event,eventMem,hashed⟩
  rcases List.mem_pair.mp eventMem with here | here
  · rw [here,hashedTextOk rfl rfl,same] at hashed
    exact .inl (Except.ok.inj hashed).symm
  · rw [here,hashedTextOk rfl rfl,evaluated.2.1] at hashed
    exact .inr (Except.ok.inj hashed).symm

theorem sha256Injective : Set.InjOn sha256Hex {createdText,sentText} := by
  obtain ⟨-,-,distinct,hashes,-⟩ := evaluated
  have createdDigest : sha256Hex createdText = createdHash := if_pos rfl
  have sentDigest : sha256Hex sentText = sentHash := by rw [sha256Hex,if_neg distinct,if_pos rfl]
  rintro left (rfl | rfl) right (rfl | rfl) same
  · rfl
  · rw [createdDigest,sentDigest] at same
    exact absurd same hashes
  · rw [createdDigest,sentDigest] at same
    exact absurd same.symm hashes
  · rfl

theorem recordEvents {payload : JsonValue} (record : payload.isRecord = true) :
    ∀ event ∈ [created payload,sent], event.payload.isRecord = true := by
  intro event eventMem
  rcases List.mem_pair.mp eventMem with rfl | rfl
  · exact record
  · rfl

theorem reorderedAgrees : List.Forall₂ SameEvent [created createdPayload,sent] [created reorderedPayload,sent] := by
  obtain ⟨report,after,run,-,none,head⟩ := runOf createdRun
  obtain ⟨report',after',run',-,none',head'⟩ := runOf reordered.1
  have injective := sha256Injective.mono (Set.union_subset (createdHashed originalText) (createdHashed reordered.2))
  have free : Free chainCodes report.failures := by rw [none]; exact freeNil _
  have free' : Free chainCodes report'.failures := by rw [none']; exact freeNil _
  refine (headBindsHistory run run' (List.cons_ne_nil _ _) (List.cons_ne_nil _ _) (recordEvents rfl) (recordEvents rfl)
    free free' (head.trans head'.symm) injective).mpr ?_
  obtain ⟨-,-,-,-,stringified,-⟩ := evaluated
  have same : createdPayload.value.sorted = reorderedPayload.value.sorted := Json.stringifyInjective stringified
  intro i left right leftAt rightAt differ
  match i with
  | 0 =>
    cases leftAt
    cases rightAt
    exact differ.1 same
  | 1 =>
    cases leftAt
    cases rightAt
    exact differ.1 rfl
  | i+2 => cases leftAt

/- A `__proto__` member written into a stored payload is not seen. -/
theorem tamperedUnseen : ∃ report report' after after',
    verifyAuditChain sha256Hex MemoryCheckpointStore.store (reads [created createdPayload,sent] 1787140900000) request [] =
      (.ok report,after) ∧
    verifyAuditChain sha256Hex MemoryCheckpointStore.store (reads [created tamperedPayload,sent] 1787140900000) request [] =
      (.ok report',after') ∧ report.failures = [] ∧ report'.failures = [] ∧
    report.headEventHash = report'.headEventHash ∧
    Set.InjOn sha256Hex (hashedTexts [created createdPayload,sent] ∪ hashedTexts [created tamperedPayload,sent]) ∧
    (∀ event ∈ [created createdPayload,sent] ++ [created tamperedPayload,sent], event.payload.isRecord = true) ∧
    ¬ List.Forall₂ SameEvent [created createdPayload,sent] [created tamperedPayload,sent] := by
  obtain ⟨report,after,run,-,none,head⟩ := runOf createdRun
  obtain ⟨report',after',run',-,none',head'⟩ := runOf tampered.1
  refine ⟨report,report',after,after',run,run',none,none',by rw [head,head'],?_,?_,?_⟩
  · exact sha256Injective.mono (Set.union_subset (createdHashed originalText) (createdHashed tampered.2))
  · exact List.forall_mem_append.mpr ⟨recordEvents rfl,recordEvents rfl⟩
  · intro same
    have payloads : createdPayload.value.sorted = tamperedPayload.value.sorted := (List.forall₂_cons.mp same).1.payload
    obtain ⟨-,-,-,-,-,texts⟩ := evaluated
    exact texts (by rw [payloads])

/-! The same rows under another document. -/

def otherDocument : OpaqueId := ⟨utf16 "99999999-9999-4999-8999-999999999999",by decide +kernel⟩

def otherRequest : VerifyAuditChainInput := ⟨organization,otherDocument,none⟩

def movedRows : List AuditEvent := [created createdPayload,sent].map (AuditEvent.transplant organization otherDocument)

theorem createdOk : ReportedOk sha256Hex MemoryCheckpointStore.store (reads [created createdPayload,sent] 1787140900000)
    request [] := by
  obtain ⟨report,after,run,ok,-⟩ := runOf createdRun
  exact ⟨report,after,run,ok⟩

theorem noCheckpoint (checkpoint : AuditCheckpoint) :
    MemoryCheckpointStore.store.getLatest otherRequest.organizationId otherRequest.documentId [] ≠ .ok (some checkpoint) := by
  intro same
  cases same

theorem movedRefusedIff :
    ¬ ReportedOk sha256Hex MemoryCheckpointStore.store (reads movedRows 1787140900000) otherRequest [] ↔
      admitCaller (reads movedRows 1787140900000) otherRequest ≠ .ok () ∨ ∃ event ∈ [created createdPayload,sent],
        event.type = .documentFinalized ∧ ¬ ArtifactMatches (reads movedRows 1787140900000) otherRequest event :=
  transplantRefused createdOk rfl noCheckpoint

theorem movedReported : document ≠ otherDocument ∧
    ReportedOk sha256Hex MemoryCheckpointStore.store (reads [created createdPayload,sent] 1787140900000) request [] ∧
    ReportedOk sha256Hex MemoryCheckpointStore.store (reads movedRows 1787140900000) otherRequest [] ∧
    MemoryCheckpointStore.store.getLatest organization otherDocument [] = .ok none := by
  have inOrder := reportedOkIff.mp createdOk
  refine ⟨by decide +kernel,createdOk,reportedOkIff.mpr ?_,rfl⟩
  refine (transplantInOrder inOrder rfl noCheckpoint).mpr ⟨rfl,fun event mem final => ?_⟩
  rcases List.mem_pair.mp mem with here | here
  · rw [here] at final
    cases final
  · rw [here] at final
    cases final

end CreatedAndSent

end ESign
