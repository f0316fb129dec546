import ESign.Repositories

/-! The units of work of the use cases, and the few statements they issue outside
one. A unit carries everything the use case read before it: those values may be
stale by the time it commits. Ids, tokens and the clock come from outside; so does
a failure of the database itself, which rolls the unit back. -/
namespace ESign

structure Input where
  now : Date
  ids : Nat → Id
  tokens : Nat → Id
  failure : Option AppError
  stored : Pdf
  inspection : Pdf → Bool × Option Text
  pageCount : Nat

structure LoadedSignerSession where
  session : SigningSession
  document : Document
  signer : Signer
  deriving DecidableEq, Repr

/-- A PNG that decoded and passed `validateSignaturePng`. -/
structure Ink where
  digest : Digest
  size : Nat
  deriving DecidableEq, Repr

def signatureImageObjectKey (digest : Digest) : ObjectKey := .signatures digest

def allRequiredSigned (signers : List Signer) : Bool := signers.all (fun signer => signer.status = .signed)

structure CompleteUnit where
  loaded : LoadedSignerSession
  roster : List Signer
  selected : List SignatureField
  signature : Option Ink
  initials : Option Ink
  consentCopyId : Id
  sourceRevisionId : Id
  now : Date
  deriving DecidableEq, Repr

namespace CompleteUnit

def completion (u : CompleteUnit) (field : SignatureField) : FieldCompletion :=
  let ink := match field.type with
    | .signature => u.signature
    | .initials => u.initials
    | _ => none
  ⟨u.now,ink.map (fun png => signatureImageObjectKey png.digest),ink.map Ink.size,ink.map Ink.digest⟩

/-- The roster as it was read, with the actor taken as signed. -/
def remaining (u : CompleteUnit) : List Signer :=
  u.roster.map (fun row => if row.id = u.loaded.signer.id then { row with status := .signed } else row)

def documentCompleted (u : CompleteUnit) : Bool := allRequiredSigned u.remaining

def completeFields (u : CompleteUnit) : List SignatureField → Envelope → Except AppError Envelope
  | [], e => .ok e
  | field :: rest, e => do
      let e ← SignatureFields.complete field.id (u.completion field) e
      u.completeFields rest e

/-- The document is only written when it becomes complete or leaves `sent`. -/
def moveDocument (u : CompleteUnit) (e : Envelope) : Except AppError Envelope :=
  if u.documentCompleted then Documents.markCompleted u.loaded.document.version e
  else if u.loaded.document.state = .sent then Documents.markInProgress u.loaded.document.version e
  else .ok e

def signed (u : CompleteUnit) : NewAuditEvent where
  type := .signerSigned
  actorType := .signer
  actorId := some u.loaded.signer.id
  occurredAt := u.now
  payload := [("signerId",.id (some u.loaded.signer.id)),("sessionId",.id (some u.loaded.session.id)),
    ("fieldIds",.ids (u.selected.map SignatureField.id)),("consentCopyId",.id (some u.consentCopyId))]

def job (u : CompleteUnit) (i : Input) : OutboxEvent :=
  ⟨i.ids 0,i.ids 1,.flattenSignature u.loaded.signer.id u.loaded.session.id u.sourceRevisionId⟩

def run (u : CompleteUnit) (i : Input) (e : Envelope) : Except AppError Envelope := do
  let e ← u.completeFields u.selected e
  let e ← Signers.markSigned u.loaded.signer.id u.loaded.signer.version u.now e
  let e ← SigningSessions.markCompleted u.loaded.session.id u.now e
  let e ← u.moveDocument e
  let e ← Audit.append u.signed e
  Jobs.publish (u.job i) e

end CompleteUnit

def revokeIfOpen (revokedAt : Date) (session : SigningSession) (e : Envelope) : Except AppError Envelope :=
  if session.open then SigningSessions.revoke session.id revokedAt e else .ok e

def revokeOpen (revokedAt : Date) : List SigningSession → Envelope → Except AppError Envelope
  | [], e => .ok e
  | session :: rest, e => do
      let e ← revokeIfOpen revokedAt session e
      revokeOpen revokedAt rest e

structure DeclineUnit where
  loaded : LoadedSignerSession
  reason : Option Text
  now : Date
  deriving DecidableEq, Repr

def DeclineUnit.run (u : DeclineUnit) (e : Envelope) : Except AppError Envelope := do
  let e ← Signers.markDeclined u.loaded.signer.id u.loaded.signer.version u.now e
  let e ← Documents.markDeclined u.loaded.document.version e
  let e ← revokeOpen u.now e.sessions e
  Audit.append ⟨.signerDeclined,.signer,some u.loaded.signer.id,u.now,
    [("sessionId",.id (some u.loaded.session.id)),("signerId",.id (some u.loaded.signer.id)),("reason",.text u.reason)]⟩ e

structure VoidUnit where
  document : Document
  userId : Id
  now : Date
  deriving DecidableEq, Repr

def VoidUnit.run (u : VoidUnit) (e : Envelope) : Except AppError Envelope := do
  let e ← Documents.markVoided u.document.version e
  let revoked := (e.sessions.filter SigningSession.open).map SigningSession.id
  let e ← revokeOpen u.now e.sessions e
  Audit.append ⟨.documentVoided,.accountUser,some u.userId,u.now,
    [("previousState",.state u.document.state),("sessionIds",.ids revoked)]⟩ e

def assertEachSignerHasField (signers : List Signer) (fields : List SignatureField) : Except AppError Unit :=
  match signers with
  | [] => .ok ()
  | signer :: rest => do
      check (fields.any (fun field => field.signerId = signer.id))
        (.validation [("field","fields"),("reason","signer_missing_field")])
      assertEachSignerHasField rest fields

def envelopeIsPrepared (document : Document) (signers : List Signer) (fields : List SignatureField) : Bool :=
  if document.inspectionStatus ≠ .accepted ∨ document.currentRevisionId = none then false
  else if signers.length < 1 ∨ fields.length < 1 then false
  else (assertSignerRouting document.signingMode (signers.map Signer.routingOrder)).isOk &&
    (assertEachSignerHasField signers fields).isOk

/-- The state `maybeMarkPrepared` wants, from the document it was given. -/
def nextPreparationState (document : Document) (signers : List Signer) (fields : List SignatureField) : DocumentState :=
  if envelopeIsPrepared document signers fields then .prepared else .draft

/-- The version is only compared when the state is written. -/
def maybeMarkPrepared (document : Document) (signers : List Signer) (fields : List SignatureField) (e : Envelope) :
    Except AppError Envelope :=
  let nextState := nextPreparationState document signers fields
  if document.state = nextState then .ok e
  else if !canTransitionDocument document.state nextState then .ok e
  else Documents.setPreparationState document.version nextState e

structure ReplaceSignersUnit where
  document : Document
  signingMode : SigningMode
  signers : List Signer
  userId : Id
  now : Date
  deriving DecidableEq, Repr

namespace ReplaceSignersUnit

def keptFields (replaced : List Signer) (e : Envelope) : List SignatureField :=
  e.fields.filter (fun field => field.signerId ∈ replaced.map Signer.id)

def keepFields (replaced : List Signer) (e : Envelope) : Except AppError Envelope :=
  if (keptFields replaced e).length ≠ e.fields.length then SignatureFields.replaceAll (keptFields replaced e) e else .ok e

def run (u : ReplaceSignersUnit) (e : Envelope) : Except AppError Envelope := do
  let replaced ← Signers.replaceAll u.signers e
  let kept ← keepFields replaced.2 replaced.1
  let e ← Documents.setSigningMode u.document.version u.signingMode kept
  let e ← maybeMarkPrepared e.document replaced.2 (keptFields replaced.2 replaced.1) e
  Audit.append ⟨.signersUpdated,.accountUser,some u.userId,u.now,
    [("signerIds",.ids (replaced.2.map Signer.id)),("signingMode",.mode u.signingMode)]⟩ e

end ReplaceSignersUnit

structure ReplaceFieldsUnit where
  document : Document
  signers : List Signer
  fields : List SignatureField
  userId : Id
  now : Date
  deriving DecidableEq, Repr

def ReplaceFieldsUnit.run (u : ReplaceFieldsUnit) (e : Envelope) : Except AppError Envelope := do
  let e ← SignatureFields.replaceAll u.fields e
  let e ← maybeMarkPrepared u.document u.signers u.fields e
  Audit.append ⟨.fieldsUpdated,.accountUser,some u.userId,u.now,
    [("fieldIds",.ids (u.fields.map SignatureField.id))]⟩ e

def newSession (id signerId tokenHash : Id) (expiresAt : Date) : SigningSession where
  id := id
  signerId := signerId
  tokenHash := tokenHash
  csrfTokenHash := none
  status := .issued
  expiresAt := expiresAt
  consumedAt := none
  completedAt := none
  revokedAt := none
  lastPresentedAt := none
  version := 1

/-- `issued` holds the session drawn for each signer of the roster that was read. -/
structure SendUnit where
  document : Document
  revisionId : Id
  issued : List SigningSession
  expiresAt : Option Date
  userId : Id
  now : Date
  deriving DecidableEq, Repr

namespace SendUnit

/-- One session, one `session_issued` event and one notification for each signer; `n`
counts the jobs published so far. -/
def issue (u : SendUnit) (i : Input) : List SigningSession → Nat → Envelope → Except AppError Envelope
  | [], _, e => .ok e
  | session :: rest, n, e => do
      check (SigningSessions.listOpenBySigner session.signerId e).isEmpty (.conflict [("reason","duplicate_open_session")])
      let e ← SigningSessions.create session e
      let e ← Audit.append ⟨.sessionIssued,.accountUser,some u.userId,u.now,
        [("signerId",.id (some session.signerId)),("sessionId",.id (some session.id))]⟩ e
      let e ← Jobs.publish ⟨i.ids (2*n),i.ids (2*n+1),.notifySigner session.signerId session.id⟩ e
      u.issue i rest (n+1) e

def run (u : SendUnit) (i : Input) (e : Envelope) : Except AppError Envelope := do
  let e ← Documents.markSent u.document.version u.revisionId u.expiresAt e
  let e ← u.issue i u.issued 0 e
  Audit.append ⟨.documentSent,.accountUser,some u.userId,u.now,
    [("signingRevisionId",.id (some u.revisionId)),("sessionIds",.ids (u.issued.map SigningSession.id))]⟩ e

end SendUnit

structure RotateUnit where
  document : Document
  signerId : Id
  sessionId : Id
  tokenHash : Id
  expiresAt : Date
  userId : Id
  now : Date
  deriving DecidableEq, Repr

namespace RotateUnit

def revokeAll (u : RotateUnit) : List SigningSession → Envelope → Except AppError Envelope
  | [], e => .ok e
  | session :: rest, e => do
      let e ← SigningSessions.revoke session.id u.now e
      let e ← Audit.append ⟨.sessionRevoked,.accountUser,some u.userId,u.now,
        [("signerId",.id (some u.signerId)),("sessionId",.id (some session.id)),("reason",.code "rotated")]⟩ e
      u.revokeAll rest e

def run (u : RotateUnit) (e : Envelope) : Except AppError Envelope := do
  let e ← u.revokeAll (SigningSessions.listOpenBySigner u.signerId e) e
  let e ← SigningSessions.create (newSession u.sessionId u.signerId u.tokenHash u.expiresAt) e
  Audit.append ⟨.sessionIssued,.accountUser,some u.userId,u.now,
    [("signerId",.id (some u.signerId)),("sessionId",.id (some u.sessionId)),("reason",.code "rotated")]⟩ e

end RotateUnit

structure RevokeUnit where
  session : SigningSession
  userId : Id
  now : Date
  deriving DecidableEq, Repr

def RevokeUnit.run (u : RevokeUnit) (e : Envelope) : Except AppError Envelope := do
  let e ← SigningSessions.revoke u.session.id u.now e
  Audit.append ⟨.sessionRevoked,.accountUser,some u.userId,u.now,
    [("signerId",.id (some u.session.signerId)),("sessionId",.id (some u.session.id))]⟩ e

structure ExchangeUnit where
  loaded : LoadedSignerSession
  tokenHash : Id
  csrfTokenHash : Id
  now : Date
  deriving DecidableEq, Repr

def ExchangeUnit.run (u : ExchangeUnit) (e : Envelope) : Except AppError Envelope := do
  let e ← SigningSessions.consumeAndRotate u.loaded.session.id u.loaded.session.version u.tokenHash u.csrfTokenHash u.now e
  Audit.append ⟨.sessionExchanged,.signer,some u.loaded.signer.id,u.now,
    [("sessionId",.id (some u.loaded.session.id)),("signerId",.id (some u.loaded.signer.id))]⟩ e

structure ViewedUnit where
  loaded : LoadedSignerSession
  now : Date
  deriving DecidableEq, Repr

def ViewedUnit.run (u : ViewedUnit) (e : Envelope) : Except AppError Envelope := do
  let e ← SigningSessions.markPresented u.loaded.session.id u.now e
  Audit.append ⟨.documentViewed,.signer,some u.loaded.signer.id,u.now,
    [("sessionId",.id (some u.loaded.session.id)),("signerId",.id (some u.loaded.signer.id))]⟩ e

structure ConsentUnit where
  loaded : LoadedSignerSession
  consent : ConsentRecord
  deriving DecidableEq, Repr

def ConsentUnit.run (u : ConsentUnit) (e : Envelope) : Except AppError Envelope := do
  let e ← ConsentRecords.create u.consent e
  Audit.append ⟨.consentRecorded,.signer,some u.loaded.signer.id,u.consent.acceptedAt,
    [("sessionId",.id (some u.loaded.session.id)),("consentCopyId",.id (some u.consent.consentCopyId))]⟩ e

structure UploadUnit where
  document : Document
  uploadSessionId : Id
  revision : DocumentRevision
  now : Date
  deriving DecidableEq, Repr

def UploadUnit.run (u : UploadUnit) (i : Input) (e : Envelope) : Except AppError Envelope := do
  let e ← Revisions.create u.revision e
  let e ← Documents.attachSourceRevision u.document.version u.revision.id e
  let e ← UploadSessions.complete u.uploadSessionId u.revision.id e
  let e ← Audit.append ⟨.revisionAdded,.system,none,u.now,
    [("revisionId",.id (some u.revision.id)),("sha256Digest",.body u.revision.body)]⟩ e
  Jobs.publish ⟨i.ids 0,i.ids 1,.inspectDocument u.revision.id⟩ e

structure AbandonUnit where
  uploadSessionId : Id
  now : Date
  deriving DecidableEq, Repr

def AbandonUnit.run (u : AbandonUnit) (e : Envelope) : Except AppError Envelope := do
  let e ← UploadSessions.markAbandoned u.uploadSessionId e
  Audit.append ⟨.uploadAbandoned,.system,none,u.now,[("uploadSessionId",.id (some u.uploadSessionId))]⟩ e

/-- `inspected` are the bytes the inspector was run on, `accepted` and `reasonCode` what it
returned. -/
structure InspectUnit where
  document : Document
  revisionId : Id
  inspected : Pdf
  accepted : Bool
  reasonCode : Option Text
  jobId : Id
  now : Date
  deriving DecidableEq, Repr

def InspectUnit.run (u : InspectUnit) (e : Envelope) : Except AppError Envelope := do
  let e ← Documents.setInspectionStatus u.document.version (if u.accepted then .accepted else .rejected) e
  Audit.append ⟨if u.accepted then .inspectionAccepted else .inspectionRejected,.worker,some u.jobId,u.now,
    [("revisionId",.id (some u.revisionId)),("reasonCode",.text u.reasonCode),("jobType",.job .inspectDocument)]⟩ e

structure FlattenInput where
  signerId : Id
  sessionId : Id
  revisionId : Id
  jobId : Id
  outboxEventId : Id
  owner : Id
  deriving DecidableEq, Repr

/-- What `loadAuthorizedWork` hands on when there is work. -/
structure LoadedWork where
  document : Document
  revision : DocumentRevision
  signerFields : List SignatureField
  signerName : Text
  signedAt : Date
  allSignersComplete : Bool
  consent : ConsentRecord
  deriving DecidableEq, Repr

namespace LoadedWork

def pendingFields (loaded : LoadedWork) : List SignatureField :=
  loaded.signerFields.filter (fun field => field.flattenedRevisionId = none)

def signatureField (loaded : LoadedWork) : Option SignatureField :=
  loaded.signerFields.find? (fun field => field.type = .signature)

end LoadedWork

def finalizedPayload (input : FlattenInput) (loaded : LoadedWork) (source finalized : Pdf) (occurredAt : Date) :
    List (String × PayloadValue) :=
  [("signerId",.id (some input.signerId)),("signingSessionId",.id (some input.sessionId)),
    ("occurredAt",.date occurredAt),("untrustedClientIp",.text loaded.consent.untrustedClientIp),
    ("untrustedUserAgent",.text loaded.consent.untrustedUserAgent),
    ("sourceSha256",.body source),("finalizedSha256",.body finalized),
    ("signaturePngSha256",.id ((loaded.signatureField.bind SignatureField.completion).bind FieldCompletion.completionSha256Digest)),
    ("consentVersion",.id (some loaded.consent.consentCopyId)),("intentAcceptedAt",.date loaded.consent.acceptedAt),
    ("signatureFieldId",.id (loaded.signatureField.map SignatureField.id)),
    ("jobId",.id (some input.jobId)),("outboxEventId",.id (some input.outboxEventId))]

def markAllFlattened (revisionId : Id) : List SignatureField → Envelope → Except AppError Envelope
  | [], e => .ok e
  | field :: rest, e => do
      let e ← SignatureFields.markFlattened field.id revisionId e
      markAllFlattened revisionId rest e

/-- `leased` is the document as it was read back after the lease was taken, `revision`
its current revision, `output` the bytes that were drawn and stored. -/
structure FlattenUnit where
  input : FlattenInput
  loaded : LoadedWork
  leased : Document
  revision : DocumentRevision
  output : Pdf
  pageCount : Nat
  revisionId : Id
  artifactId : Id
  occurredAt : Date
  deriving DecidableEq, Repr

namespace FlattenUnit

def finalize (u : FlattenUnit) : Bool := u.loaded.allSignersComplete

def addRevision (u : FlattenUnit) (e : Envelope) : Except AppError Envelope :=
  if u.loaded.pendingFields.length > 0 then do
    let e ← Revisions.create ⟨u.revisionId,.intermediate,u.output,u.pageCount⟩ e
    let e ← markAllFlattened u.revisionId u.loaded.pendingFields e
    Audit.append ⟨.revisionAdded,.worker,some u.input.jobId,u.occurredAt,
      [("revisionId",.id (some u.revisionId)),("sha256Digest",.body u.output),("signerId",.id (some u.input.signerId)),
        ("outboxEventId",.id (some u.input.outboxEventId))]⟩ e
  else .ok e

def createArtifact (u : FlattenUnit) (e : Envelope) : Except AppError Envelope :=
  match e.artifact with
  | some _ => .ok e
  | none => FinalizedArtifacts.create ⟨u.artifactId,u.output⟩ e

def finalized (u : FlattenUnit) : NewAuditEvent where
  type := .documentFinalized
  actorType := .worker
  actorId := some u.input.jobId
  occurredAt := u.occurredAt
  payload := finalizedPayload u.input u.loaded u.revision.body u.output u.occurredAt

def addArtifact (u : FlattenUnit) (e : Envelope) : Except AppError Envelope :=
  if u.finalize then do
    let e ← u.createArtifact e
    Audit.append u.finalized e
  else .ok e

def run (u : FlattenUnit) (e : Envelope) : Except AppError Envelope := do
  let e ← u.addRevision e
  let e ← Documents.commitFlattenedRevision u.leased.version u.input.owner u.revisionId u.finalize e
  u.addArtifact e

end FlattenUnit

structure PersistUnit where
  input : FlattenInput
  loaded : LoadedWork
  artifactId : Id
  occurredAt : Date
  deriving DecidableEq, Repr

def PersistUnit.run (u : PersistUnit) (e : Envelope) : Except AppError Envelope :=
  match e.artifact with
  | some _ => .ok e
  | none => do
      let e ← FinalizedArtifacts.create ⟨u.artifactId,u.loaded.revision.body⟩ e
      Audit.append ⟨.documentFinalized,.worker,some u.input.jobId,u.occurredAt,
        finalizedPayload u.input u.loaded u.loaded.revision.body u.loaded.revision.body u.occurredAt⟩ e

/-- Everything the application ever writes to the rows of a document. -/
inductive Write where
  | createIdempotency (record : IdempotencyRecord)
  | completeIdempotency (recordId : Id) (response : ResponseBody)
  | markExpired (sessionId : Id)
  | markPresented (sessionId : Id) (presentedAt : Date)
  | upload (u : UploadUnit)
  | abandon (u : AbandonUnit)
  | inspect (u : InspectUnit)
  | replaceSigners (u : ReplaceSignersUnit)
  | replaceFields (u : ReplaceFieldsUnit)
  | send (u : SendUnit)
  | void (u : VoidUnit)
  | rotate (u : RotateUnit)
  | revoke (u : RevokeUnit)
  | exchange (u : ExchangeUnit)
  | viewed (u : ViewedUnit)
  | consent (u : ConsentUnit)
  | decline (u : DeclineUnit)
  | complete (u : CompleteUnit)
  | takeLease (input : FlattenInput) (expectedVersion : Nat) (leaseUntil now : Date) (current : Document)
  | finalizationStarted (input : FlattenInput) (occurredAt : Date)
  | flatten (u : FlattenUnit)
  | persist (u : PersistUnit)
  | markFinalizationFailed (owner : Id)
  | finalizationFailed (input : FlattenInput) (code : String) (occurredAt : Date)
  | releaseLease (owner : Id)
  deriving DecidableEq, Repr

def Write.run (i : Input) : Write → Envelope → Except AppError Envelope
  | .createIdempotency record => Idempotency.create record
  | .completeIdempotency recordId response => Idempotency.complete recordId response
  | .markExpired sessionId => SigningSessions.markExpired sessionId
  | .markPresented sessionId presentedAt => SigningSessions.markPresented sessionId presentedAt
  | .upload u => u.run i
  | .abandon u => u.run
  | .inspect u => u.run
  | .replaceSigners u => u.run
  | .replaceFields u => u.run
  | .send u => u.run i
  | .void u => u.run
  | .rotate u => u.run
  | .revoke u => u.run
  | .exchange u => u.run
  | .viewed u => u.run
  | .consent u => u.run
  | .decline u => u.run
  | .complete u => u.run i
  | .takeLease input expectedVersion leaseUntil now current =>
      Documents.takeLease expectedVersion input.owner leaseUntil now current
  | .finalizationStarted input occurredAt => Audit.append ⟨.finalizationStarted,.worker,some input.jobId,occurredAt,
      [("signerId",.id (some input.signerId)),("sessionId",.id (some input.sessionId)),("jobType",.job .flattenSignature),
        ("outboxEventId",.id (some input.outboxEventId))]⟩
  | .flatten u => u.run
  | .persist u => u.run
  | .markFinalizationFailed owner => fun e => .ok (Documents.markFinalizationFailed owner e)
  | .finalizationFailed input code occurredAt => Audit.append ⟨.finalizationFailed,.worker,some input.jobId,occurredAt,
      [("signerId",.id (some input.signerId)),("sessionId",.id (some input.sessionId)),("code",.code code),
        ("outboxEventId",.id (some input.outboxEventId))]⟩
  | .releaseLease owner => fun e => .ok (Documents.releaseProcessingLease owner e)

/-- A write that throws leaves every row as it was. -/
def Write.exec (w : Write) (e : Envelope) (i : Input) : Envelope × Except AppError Unit :=
  match i.failure with
  | some error => (e,.error error)
  | none => match w.run i e with
    | .ok e' => (e',.ok ())
    | .error error => (e,.error error)

theorem Write.execCases (w : Write) (e : Envelope) (i : Input) :
    (w.exec e i).1 = e ∨ w.run i e = .ok (w.exec e i).1 := by
  unfold Write.exec
  cases i.failure with
  | some error => exact Or.inl rfl
  | none =>
    cases h : w.run i e with
    | ok e' => exact Or.inr rfl
    | error error => exact Or.inl rfl

theorem Write.execOk {w : Write} {e : Envelope} {i : Input} (ok : (w.exec e i).2 = .ok ()) :
    w.run i e = .ok (w.exec e i).1 := by
  unfold Write.exec at *
  cases failed : i.failure with
  | some error => rw [failed] at ok; contradiction
  | none =>
    cases h : w.run i e with
    | ok e' => rfl
    | error error => rw [failed,h] at ok; contradiction

theorem Write.execPassed {w : Write} {e : Envelope} {i : Input} (ok : (w.exec e i).2 = .ok ()) : i.failure = none := by
  unfold Write.exec at ok
  split at ok
  · cases ok
  · assumption

theorem Write.execFailed {w : Write} {e : Envelope} {i : Input} (failed : (w.exec e i).2 ≠ .ok ()) : (w.exec e i).1 = e := by
  unfold Write.exec at *
  split
  · rfl
  · rename_i none
    cases h : w.run i e with
    | ok e' =>
      rw [none,h] at failed
      exact absurd rfl failed
    | error error => rfl

theorem Write.execRefused {w : Write} {e : Envelope} {i : Input} (refused : i.failure.isSome = true) :
    (w.exec e i).1 = e := by
  obtain ⟨error,failure⟩ := Option.isSome_iff_exists.mp refused
  unfold Write.exec
  rw [failure]

end ESign
