import ESign.Lifecycle
import Mathlib.Data.List.Sort

/-! The Prisma repositories, restricted to the rows of one document. An update is
`updateMany` with its own `where` clause: it throws unless exactly one row
matches. Primary keys, foreign keys and unique indexes are part of the model: a
statement that would break one throws, and the unit of work around it rolls back. -/
namespace ESign

def updateOne {α : Type} (clause : α → Bool) (data : α → α) (error : AppError) (rows : List α) :
    Except AppError (List α) :=
  if rows.countP clause = 1 then .ok (rows.map (fun row => if clause row then data row else row)) else .error error

theorem updateOneOk {α : Type} {clause : α → Bool} {data error rows out}
    (ok : updateOne clause data error rows = .ok out) :
    out = rows.map (fun row => if clause row then data row else row) ∧ ∃ row ∈ rows, clause row = true := by
  unfold updateOne at ok
  split at ok <;> try contradiction
  rename_i one
  cases ok
  exact ⟨rfl,List.countP_pos_iff.mp (by omega)⟩

def databaseError : AppError := .unknown "PrismaClientKnownRequestError"

/-- Every write of a document row counts its version up. -/
def updateDocument (clause : Document → Bool) (data : Document → Document) (error : AppError) (e : Envelope) :
    Except AppError Envelope :=
  if clause e.document then
    .ok { e with document := { data e.document with version := e.document.version+1 } }
  else .error error

def documentVersion : AppError := .conflict [("reason","document_version")]
def documentLease : AppError := .conflict [("reason","document_lease"),("code","CONCURRENT_FINALIZATION")]

namespace Documents

def attachSourceRevision (expectedVersion : Nat) (revisionId : Id) : Envelope → Except AppError Envelope :=
  updateDocument (fun row => row.version = expectedVersion)
    (fun row => { row with currentRevisionId := some revisionId }) documentVersion

def setInspectionStatus (expectedVersion : Nat) (inspectionStatus : DocumentInspectionStatus) :
    Envelope → Except AppError Envelope :=
  updateDocument (fun row => row.version = expectedVersion)
    (fun row => { row with inspectionStatus := inspectionStatus }) documentVersion

def setSigningMode (expectedVersion : Nat) (signingMode : SigningMode) : Envelope → Except AppError Envelope :=
  updateDocument (fun row => row.version = expectedVersion)
    (fun row => { row with signingMode := signingMode }) documentVersion

def setPreparationState (expectedVersion : Nat) (state : DocumentState) : Envelope → Except AppError Envelope :=
  updateDocument (fun row => row.version = expectedVersion) (fun row => { row with state := state }) documentVersion

def markSent (expectedVersion : Nat) (signingRevisionId : Id) (expiresAt : Option Date) :
    Envelope → Except AppError Envelope :=
  updateDocument (fun row => row.version = expectedVersion)
    (fun row => { row with state := .sent, signingRevisionId := some signingRevisionId, expiresAt := expiresAt })
    documentVersion

def markDeclined (expectedVersion : Nat) : Envelope → Except AppError Envelope :=
  updateDocument (fun row => row.version = expectedVersion ∧ row.state ∈ [.sent,.inProgress])
    (fun row => { row with state := .declined }) documentVersion

def markVoided (expectedVersion : Nat) : Envelope → Except AppError Envelope :=
  updateDocument (fun row => row.version = expectedVersion ∧ row.state ∈ [.draft,.prepared,.sent,.inProgress])
    (fun row => { row with state := .voided }) documentVersion

def markInProgress (expectedVersion : Nat) : Envelope → Except AppError Envelope :=
  updateDocument (fun row => row.version = expectedVersion ∧ row.state ∈ [.sent,.inProgress])
    (fun row => { row with state := .inProgress }) documentVersion

def markCompleted (expectedVersion : Nat) : Envelope → Except AppError Envelope :=
  updateDocument (fun row => row.version = expectedVersion ∧ row.state ∈ [.sent,.inProgress])
    (fun row => { row with state := .completed }) documentVersion

def leaseFree (owner : Id) (now : Date) (row : Document) : Bool :=
  row.leaseUntil = none ∨ (∃ until_ ∈ row.leaseUntil, until_ < now) ∨ row.leaseOwner = some owner

/-- The `findFirst` that opens `claimProcessingLease`. -/
def leasable (expectedVersion : Nat) (owner : Id) (now : Date) (row : Document) : Bool :=
  row.version = expectedVersion ∧
    row.state ∈ [.sent,.inProgress,.completed,.finalizationFailed,.finalizing] ∧ leaseFree owner now row

def leasedState : DocumentState → DocumentState
  | .completed => .finalizing
  | .finalizationFailed => .finalizing
  | .sent => .inProgress
  | state => state

/-- The `updateMany` of `claimProcessingLease`. The next state was computed from the
row found before; the statement itself has no condition on the state. -/
def takeLease (expectedVersion : Nat) (owner : Id) (leaseUntil now : Date) (current : Document) :
    Envelope → Except AppError Envelope :=
  updateDocument (fun row => row.version = expectedVersion ∧ leaseFree owner now row)
    (fun row => { row with
      state := leasedState current.state
      leaseOwner := some owner
      leaseUntil := some leaseUntil
      finalizationAttemptCount :=
        if leasedState current.state = .finalizing then row.finalizationAttemptCount+1
        else current.finalizationAttemptCount })
    documentLease

def commitFlattenedRevision (expectedVersion : Nat) (owner revisionId : Id) (finalize : Bool) :
    Envelope → Except AppError Envelope :=
  updateDocument (fun row => row.version = expectedVersion ∧ row.leaseOwner = some owner)
    (fun row => { row with
      state := if finalize then .finalized else row.state
      currentRevisionId := some revisionId
      leaseOwner := none
      leaseUntil := none })
    documentLease

/-- Updates nothing, and says nothing, when the owner or the state does not match. -/
def markFinalizationFailed (owner : Id) (e : Envelope) : Envelope :=
  if e.document.leaseOwner = some owner ∧ e.document.state = .finalizing then
    { e with document := { e.document with
        state := .finalizationFailed
        leaseOwner := none
        leaseUntil := none
        version := e.document.version+1 } }
  else e

def releaseProcessingLease (owner : Id) (e : Envelope) : Envelope :=
  if e.document.leaseOwner = some owner then
    { e with document := { e.document with leaseOwner := none, leaseUntil := none, version := e.document.version+1 } }
  else e

end Documents

namespace Revisions

def findById (revisionId : Id) (e : Envelope) : Option DocumentRevision := e.revisions.find? (fun row => row.id = revisionId)

def create (revision : DocumentRevision) (e : Envelope) : Except AppError Envelope := do
  check (!e.revisions.any (fun row => row.id = revision.id)) databaseError
  pure { e with revisions := e.revisions ++ [revision] }

end Revisions

namespace UploadSessions

def complete (uploadSessionId revisionId : Id) (e : Envelope) : Except AppError Envelope := do
  let rows ← updateOne (fun row => row.id = uploadSessionId ∧ row.status = .issued)
    (fun row => { row with status := .completed, revisionId := some revisionId })
    (.conflict [("reason","upload_session_not_issued")]) e.uploadSessions
  pure { e with uploadSessions := rows }

def markAbandoned (uploadSessionId : Id) (e : Envelope) : Except AppError Envelope := do
  let rows ← updateOne (fun row => row.id = uploadSessionId ∧ row.status = .issued)
    (fun row => { row with status := .abandoned })
    (.conflict [("reason","upload_session_not_issued")]) e.uploadSessions
  pure { e with uploadSessions := rows }

end UploadSessions

def SigningSession.open (session : SigningSession) : Bool := session.status = .issued ∨ session.status = .active

namespace Signers

def findById (signerId : Id) (e : Envelope) : Option Signer := e.signers.find? (fun row => row.id = signerId)

/-- `orderBy: routingOrder asc`. -/
def listByDocument (e : Envelope) : List Signer :=
  e.signers.insertionSort (fun left right => left.routingOrder ≤ right.routingOrder)

/-- An upsert keeps status, version and completion times of a row that exists. -/
def upsert (rows : List Signer) (signer : Signer) : List Signer :=
  if rows.any (fun row => row.id = signer.id) then
    rows.map (fun row => if row.id = signer.id then
      { row with routingOrder := signer.routingOrder, email := signer.email, displayName := signer.displayName }
      else row)
  else rows ++ [signer]

/-- The rows after all upserts, and the row each upsert returned. -/
def upsertAll (rows : List Signer) : List Signer → List Signer × List Signer
  | [] => (rows,[])
  | signer :: rest =>
      let next := upsert rows signer
      let result := upsertAll next rest
      (result.1,((next.find? (fun row => row.id = signer.id)).getD signer) :: result.2)

/-- Fields of removed signers go first; removing a signer that a session or a consent
still refers to is refused by the foreign keys. -/
def replaceAll (signers : List Signer) (e : Envelope) : Except AppError (Envelope × List Signer) := do
  let nextIds := signers.map Signer.id
  let removed := (e.signers.filter (fun row => row.id ∉ nextIds)).map Signer.id
  check (!e.sessions.any (fun row => row.signerId ∈ removed) && !e.consents.any (fun row => row.signerId ∈ removed))
    databaseError
  let stored := upsertAll (e.signers.filter (fun row => row.id ∈ nextIds)) signers
  pure ({ e with fields := e.fields.filter (fun row => row.signerId ∈ nextIds), signers := stored.1 },stored.2)

def markDeclined (signerId : Id) (expectedVersion : Nat) (declinedAt : Date) (e : Envelope) :
    Except AppError Envelope := do
  let rows ← updateOne (fun row => row.id = signerId ∧ row.version = expectedVersion ∧ row.status = .pending)
    (fun row => { row with status := .declined, declinedAt := some declinedAt, version := row.version+1 })
    (.conflict [("reason","signer_version")]) e.signers
  pure { e with signers := rows }

/-- A signer that is already signed is returned as it is, whatever version was
expected. -/
def markSigned (signerId : Id) (expectedVersion : Nat) (completedAt : Date) (e : Envelope) :
    Except AppError Envelope := do
  if (findById signerId e).any (fun row => row.status = .signed) then pure e
  else
    let rows ← updateOne (fun row => row.id = signerId ∧ row.version = expectedVersion ∧ row.status = .pending)
      (fun row => { row with status := .signed, completedAt := some completedAt, version := row.version+1 })
      (.conflict [("reason","signer_version")]) e.signers
    pure { e with signers := rows }

end Signers

namespace SigningSessions

def findById (sessionId : Id) (e : Envelope) : Option SigningSession := e.sessions.find? (fun row => row.id = sessionId)

def findByTokenHash (tokenHash : Id) (e : Envelope) : Option SigningSession :=
  e.sessions.find? (fun row => row.tokenHash = tokenHash)

def listOpenBySigner (signerId : Id) (e : Envelope) : List SigningSession :=
  e.sessions.filter (fun row => row.signerId = signerId && row.open)

/-- Refused by the primary key, the unique token hash, the partial unique index on
open sessions, and for a signer that does not exist. -/
def create (session : SigningSession) (e : Envelope) : Except AppError Envelope := do
  check (!e.sessions.any (fun row => row.id = session.id || row.tokenHash = session.tokenHash)) databaseError
  check (!(session.open && e.sessions.any (fun row => row.signerId = session.signerId && row.open))) databaseError
  check (e.signers.any (fun row => row.id = session.signerId)) databaseError
  pure { e with sessions := e.sessions ++ [session] }

def sessionNotOpen : AppError := .conflict [("reason","session_not_open")]

def revoke (sessionId : Id) (revokedAt : Date) (e : Envelope) : Except AppError Envelope := do
  let rows ← updateOne (fun row => row.id = sessionId && row.open)
    (fun row => { row with status := .revoked, revokedAt := some revokedAt }) sessionNotOpen e.sessions
  pure { e with sessions := rows }

def markExpired (sessionId : Id) (e : Envelope) : Except AppError Envelope := do
  let rows ← updateOne (fun row => row.id = sessionId && row.open)
    (fun row => { row with status := .expired }) sessionNotOpen e.sessions
  pure { e with sessions := rows }

def markPresented (sessionId : Id) (presentedAt : Date) (e : Envelope) : Except AppError Envelope :=
  match findById sessionId e with
  | none => .error (.notFound [("resource","signing_session")])
  | some existing =>
      if existing.status = .issued ∨ existing.status = .active then
        .ok { e with sessions := e.sessions.map (fun row => if row.id = sessionId then
          { row with status := .active, lastPresentedAt := some presentedAt } else row) }
      else .error (.conflict [("reason","session_not_presentable")])

def consumeAndRotate (sessionId : Id) (expectedVersion : Nat) (tokenHash csrfTokenHash : Id) (consumedAt : Date)
    (e : Envelope) : Except AppError Envelope := do
  let rows ← updateOne
    (fun row => row.id = sessionId && row.version = expectedVersion && row.consumedAt = none && row.open)
    (fun row => { row with
      tokenHash := tokenHash
      csrfTokenHash := some csrfTokenHash
      consumedAt := some consumedAt
      status := .active
      lastPresentedAt := some consumedAt
      version := row.version+1 })
    (.conflict [("reason","session_not_exchangeable")]) e.sessions
  check (!e.sessions.any (fun row => row.id ≠ sessionId && row.tokenHash = tokenHash)) databaseError
  pure { e with sessions := rows }

/-- A session that is already completed is returned as it is. -/
def markCompleted (sessionId : Id) (completedAt : Date) (e : Envelope) : Except AppError Envelope := do
  if (findById sessionId e).any (fun row => row.status = .completed) then pure e
  else
    let rows ← updateOne (fun row => row.id = sessionId && row.open)
      (fun row => { row with status := .completed, completedAt := some completedAt })
      (.conflict [("reason","session_not_completable")]) e.sessions
    pure { e with sessions := rows }

end SigningSessions

namespace SignatureFields

def replaceAll (fields : List SignatureField) (e : Envelope) : Except AppError Envelope := do
  check ((fields.map SignatureField.id).Nodup && fields.all (fun field => e.signers.any (fun row => row.id = field.signerId)))
    databaseError
  pure { e with fields := fields }

def fieldNotFound : AppError := .notFound [("resource","signature_field")]

/-- No condition on the row: a field that is completed already is completed again. -/
def complete (fieldId : Id) (completion : FieldCompletion) (e : Envelope) : Except AppError Envelope := do
  let rows ← updateOne (fun row => row.id = fieldId) (fun row => { row with completion := some completion })
    fieldNotFound e.fields
  pure { e with fields := rows }

def markFlattened (fieldId flattenedRevisionId : Id) (e : Envelope) : Except AppError Envelope := do
  let rows ← updateOne (fun row => row.id = fieldId)
    (fun row => { row with flattenedRevisionId := some flattenedRevisionId }) fieldNotFound e.fields
  pure { e with fields := rows }

end SignatureFields

namespace ConsentRecords

def findBySession (sessionId : Id) (e : Envelope) : Option ConsentRecord :=
  e.consents.find? (fun row => row.sessionId = sessionId)

def create (consent : ConsentRecord) (e : Envelope) : Except AppError Envelope := do
  check (!e.consents.any (fun row => row.id = consent.id || row.sessionId = consent.sessionId)) databaseError
  pure { e with consents := e.consents ++ [consent] }

end ConsentRecords

/-- One artifact per document, by a unique index. -/
def FinalizedArtifacts.create (artifact : FinalizedArtifact) (e : Envelope) : Except AppError Envelope := do
  check e.artifact.isNone databaseError
  pure { e with artifact := some artifact }

def unitSize (c : Char) : Nat := if c.toNat < 65536 then 1 else 2

def unitLength (text : Text) : Nat := text.foldl (fun n c => n+unitSize c) 0

/-- What `assertApprovedAuditPayload` can still refuse in the payloads the use cases
build: long lists of ids and long texts. Their keys are fixed and approved. -/
def PayloadValue.approved : PayloadValue → Except AppError Unit
  | .ids values => check (values.length ≤ maxKeys) (.validation [("reason","audit_payload_too_large")])
  | .text (some value) => check (unitLength value ≤ maxStringChars) (.validation [("reason","audit_payload_string_too_long")])
  | _ => .ok ()

def Audit.append (event : NewAuditEvent) (e : Envelope) : Except AppError Envelope := do
  for entry in event.payload do entry.2.approved
  pure { e with audit := e.audit ++ [event] }

def Jobs.publish (event : OutboxEvent) (e : Envelope) : Except AppError Envelope := do
  check (!e.outbox.any (fun row => row.id = event.id)) databaseError
  pure { e with outbox := e.outbox ++ [event] }

namespace Idempotency

def find (principalId : Id) (route : Route) (key : Id) (e : Envelope) : Option IdempotencyRecord :=
  e.idempotency.find? (fun row => row.principalId = principalId ∧ row.route = route ∧ row.key = key)

def create (record : IdempotencyRecord) (e : Envelope) : Except AppError Envelope := do
  check (!e.idempotency.any (fun row => row.id = record.id ||
      (row.principalId = record.principalId && row.route = record.route && row.key = record.key))) databaseError
  pure { e with idempotency := e.idempotency ++ [record] }

def complete (recordId : Id) (response : ResponseBody) (e : Envelope) : Except AppError Envelope := do
  let rows ← updateOne (fun row => row.id = recordId) (fun row => { row with response := some response })
    (.notFound [("resource","idempotency_record")]) e.idempotency
  pure { e with idempotency := rows }

end Idempotency

end ESign
