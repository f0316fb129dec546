import Mathlib.Data.Rat.Defs

/-! Rows and enumerations of one document of one organization. Ids, token hashes
and digests are opaque and numbered; instants are milliseconds. A PDF is its
uploaded body together with the appearances drawn on it so far, and an object is
named by the digest of its bytes, so a revision row is kept with the bytes it
names. Titles, content types and creation times are left out: nothing below
decides on them. -/
namespace ESign

abbrev Id := Nat
abbrev Date := Int
abbrev Digest := Nat
abbrev Text := List Char

inductive DocumentState where
  | draft | prepared | sent | inProgress | completed | finalizing | finalized | voided | expired | declined
  | finalizationFailed
  deriving DecidableEq, Repr

inductive SignerStatus where
  | pending | signed | declined
  deriving DecidableEq, Repr

inductive SigningSessionStatus where
  | issued | active | completed | expired | revoked
  deriving DecidableEq, Repr

inductive SignatureFieldType where
  | signature | initials | dateSigned | signerName
  deriving DecidableEq, Repr

inductive SigningMode where
  | ordered | parallel
  deriving DecidableEq, Repr

inductive FieldOverlapPolicy where
  | prohibit | allow
  deriving DecidableEq, Repr

inductive DocumentRevisionKind where
  | source | intermediate
  deriving DecidableEq, Repr

inductive DocumentInspectionStatus where
  | pending | accepted | rejected
  deriving DecidableEq, Repr

inductive UploadSessionStatus where
  | issued | completed | expired | abandoned
  deriving DecidableEq, Repr

inductive AuditActorType where
  | accountUser | signer | worker | system
  deriving DecidableEq, Repr

inductive AuditEventType where
  | documentCreated | revisionAdded | fieldsUpdated | signersUpdated | documentSent | sessionIssued
  | sessionRevoked | sessionExchanged | documentViewed | consentRecorded | signerSigned | signerDeclined
  | documentVoided | documentExpired | finalizationStarted | documentFinalized | finalizationFailed
  | artifactDownloaded | inspectionAccepted | inspectionRejected | uploadAbandoned
  deriving DecidableEq, Repr

inductive ApplicationErrorKind where
  | validation | authentication | authorization | notFound | conflict | invalidStateTransition | integrity
  | externalService | rateLimit
  deriving DecidableEq, Repr

/-- `unknown` stands for whatever is thrown that is not an `ApplicationError`: a
constraint the database refuses, a lost connection. -/
inductive AppError where
  | application (kind : ApplicationErrorKind) (details : List (String × String))
  | unknown (name : String)
  deriving DecidableEq, Repr

inductive ObjectKey where
  | revisions (digest : Digest)
  | artifacts (digest : Digest)
  | signatures (digest : Digest)
  deriving DecidableEq, Repr

structure Appearance where
  fieldId : Id
  png : Option Digest
  signerName : Option Text
  signedAt : Option Date
  deriving DecidableEq, Repr

structure Pdf where
  uploaded : Digest
  drawn : List Appearance
  deriving DecidableEq, Repr

structure Document where
  state : DocumentState
  signingMode : SigningMode
  inspectionStatus : DocumentInspectionStatus
  expiresAt : Option Date
  currentRevisionId : Option Id
  signingRevisionId : Option Id
  version : Nat
  leaseOwner : Option Id
  leaseUntil : Option Date
  finalizationAttemptCount : Nat
  deriving DecidableEq, Repr

structure DocumentRevision where
  id : Id
  kind : DocumentRevisionKind
  body : Pdf
  pageCount : Nat
  deriving DecidableEq, Repr

structure UploadSession where
  id : Id
  tokenHash : Id
  status : UploadSessionStatus
  expiresAt : Date
  revisionId : Option Id
  deriving DecidableEq, Repr

structure Signer where
  id : Id
  accountUserId : Option Id
  routingOrder : Int
  status : SignerStatus
  email : Text
  displayName : Text
  version : Nat
  completedAt : Option Date
  declinedAt : Option Date
  deriving DecidableEq, Repr

structure SigningSession where
  id : Id
  signerId : Id
  tokenHash : Id
  csrfTokenHash : Option Id
  status : SigningSessionStatus
  expiresAt : Date
  consumedAt : Option Date
  completedAt : Option Date
  revokedAt : Option Date
  lastPresentedAt : Option Date
  version : Nat
  deriving DecidableEq, Repr

structure FieldBox where
  pageNumber : Int
  x : Rat
  y : Rat
  width : Rat
  height : Rat
  deriving DecidableEq, Repr

structure FieldCompletion where
  completedAt : Date
  completionObjectKey : Option ObjectKey
  completionSizeBytes : Option Nat
  completionSha256Digest : Option Digest
  deriving DecidableEq, Repr

/-- The completion columns are written together, and never cleared. -/
structure SignatureField where
  id : Id
  signerId : Id
  type : SignatureFieldType
  box : FieldBox
  required : Bool
  completion : Option FieldCompletion
  flattenedRevisionId : Option Id
  deriving DecidableEq, Repr

structure ConsentRecord where
  id : Id
  signerId : Id
  sessionId : Id
  consentCopyId : Id
  acceptedAt : Date
  untrustedClientIp : Option Text
  untrustedUserAgent : Option Text
  deriving DecidableEq, Repr

structure FinalizedArtifact where
  id : Id
  body : Pdf
  deriving DecidableEq, Repr

inductive JobType where
  | inspectDocument | notifySigner | flattenSignature
  deriving DecidableEq, Repr

inductive PayloadValue where
  | id (value : Option Id)
  | ids (values : List Id)
  | state (value : DocumentState)
  | mode (value : SigningMode)
  | job (value : JobType)
  | date (value : Date)
  | text (value : Option Text)
  | code (value : String)
  | body (value : Pdf)
  deriving DecidableEq, Repr

/-- An event as the use cases hand it to the audit writer. -/
structure NewAuditEvent where
  type : AuditEventType
  actorType : AuditActorType
  actorId : Option Id
  occurredAt : Date
  payload : List (String × PayloadValue)
  deriving DecidableEq, Repr

inductive JobPayload where
  | inspectDocument (revisionId : Id)
  | notifySigner (signerId sessionId : Id)
  | flattenSignature (signerId sessionId revisionId : Id)
  deriving DecidableEq, Repr

structure OutboxEvent where
  id : Id
  jobId : Id
  payload : JobPayload
  deriving DecidableEq, Repr

inductive Route where
  | completeSigning | sendDocument | voidDocument
  deriving DecidableEq, Repr

/-- The request body an idempotency record was made for. The record keeps its
SHA-256; equal hashes are read as equal bodies. An expiry that does not parse as a
date is `some none`. -/
inductive IdempotentRequest where
  | complete (signerId consentCopyId : Id) (fieldIds : List Id) (hasSignature hasInitials : Bool)
  | send (expiresAt : Option (Option Date))
  | void
  deriving DecidableEq, Repr

inductive ResponseBody where
  | complete (accepted : Bool) (signerId : Id)
  | sent (invitations : List (Id × Id × Date))
  | voided (state : DocumentState)
  deriving DecidableEq, Repr

structure IdempotencyRecord where
  id : Id
  principalId : Id
  route : Route
  key : Id
  request : IdempotentRequest
  response : Option ResponseBody
  expiresAt : Date
  deriving DecidableEq, Repr

/-- All rows that belong to one document. A lookup by id that would meet a row of
another document is refused by every caller as if nothing had been found, so only
the document's own rows are kept. -/
structure Envelope where
  document : Document
  revisions : List DocumentRevision
  uploadSessions : List UploadSession
  signers : List Signer
  fields : List SignatureField
  sessions : List SigningSession
  consents : List ConsentRecord
  artifact : Option FinalizedArtifact
  audit : List NewAuditEvent
  outbox : List OutboxEvent
  idempotency : List IdempotencyRecord
  deriving DecidableEq, Repr

end ESign
