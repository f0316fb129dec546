import Mathlib.Data.List.TakeWhile
import ESign.StoreProgram
import ESign.UnitsOfWork

/-! The use cases and jobs as programs over the rows of one document: every
`await` on a repository is an action of its own, every unit of work one write.
Raw tokens are named by their hashes and bodies by their digests. Object storage,
the PDF library and the notifier are seen through their failures only, which the
environment chooses. A request that the authorization policy refuses, and a use
case that only reads, leave no trace here. -/
namespace ESign
open StoreProgram StoreProgram.Fallible

abbrev UseCase (α : Type) := Fallible Envelope Write Input AppError α

structure Settings where
  sessionTtlMs : Int
  idempotencyTtlMs : Int
  leaseMs : Int
  requiresAccountAuth : Bool
  disclosures : List Id
  currentDisclosure : Id
  toLowerCase : Text → Text

def clock : UseCase Date := get (fun _ i => i.now)

def nextId : UseCase Id := get (fun _ i => i.ids 0)

/-- A call that leaves the database alone and can fail. -/
def external : UseCase Unit :=
  .read (fun _ i => .done (i.failure.elim (.ok ()) .error))

def rejectToken : AppError := .authentication [("reason","signing_token")]
def documentNotSignable : AppError := .conflict [("reason","document_not_signable")]

/-- A session past its expiry is marked before the token is refused. -/
def rejectExpired {α : Type} (found : SigningSession) : UseCase α := do
  when found.open (perform (.markExpired found.id))
  fail rejectToken

def accountAllowed (settings : Settings) (signer : Signer) (accountUserId : Option Id) : Bool :=
  !settings.requiresAccountAuth || (accountUserId.isSome && signer.accountUserId = accountUserId)

structure LoadSignerSessionInput where
  tokenHash : Id
  requireExchanged : Bool
  allowCompleted : Bool
  accountUserId : Option Id

def loadSignerSession (settings : Settings) (input : LoadSignerSessionInput) : UseCase LoadedSignerSession := do
  let found ← find (SigningSessions.findByTokenHash input.tokenHash) rejectToken
  let now ← clock
  ensure (found.status ≠ .revoked ∧ found.status ≠ .expired) rejectToken
  ensure (found.status ≠ .completed ∨ input.allowCompleted) rejectToken
  if found.expiresAt ≤ now then rejectExpired found
  else do
    ensure (found.consumedAt.isSome = input.requireExchanged) rejectToken
    let document ← get (fun e _ => e.document)
    ensure (found.status = .completed ∨ isAvailableForSigning document) documentNotSignable
    let signer ← find (Signers.findById found.signerId) rejectToken
    ensure (accountAllowed settings signer input.accountUserId) rejectToken
    pure ⟨found,document,signer⟩

def requireIdempotencyKey (value : Option Id) : Except AppError Id :=
  value.elim (.error (.validation [("field","Idempotency-Key"),("reason","invalid")])) .ok

inductive BegunIdempotency where
  | replay (response : ResponseBody)
  | record (recordId : Id)

structure IdempotencyInput where
  principalId : Id
  route : Route
  key : Id
  request : IdempotentRequest
  now : Date
  reuseInProgress : Bool

def replayOrBeginIdempotency (settings : Settings) (input : IdempotencyInput) : UseCase BegunIdempotency := do
  let existing ← get (fun e _ => Idempotency.find input.principalId input.route input.key e)
  match existing with
  | some record => do
      ensure (record.request = input.request) (.conflict [("reason","idempotency_replay")])
      match record.response with
      | some response => pure (.replay response)
      | none => do
          ensure input.reuseInProgress (.conflict [("reason","idempotency_in_progress")])
          pure (.record record.id)
  | none => do
      let id ← nextId
      perform (.createIdempotency ⟨id,input.principalId,input.route,input.key,input.request,none,
        input.now + settings.idempotencyTtlMs⟩)
      pure (.record id)

/-- `requested` is a set of ids. -/
def selectFields (signerFields : List SignatureField) (fieldIds : List Id) : Except AppError (List SignatureField) := do
  let requested := fieldIds.dedup
  let selected := signerFields.filter (fun field => field.id ∈ requested)
  check (selected.length = requested.length) (.validation [("field","fieldIds"),("reason","unknown_field")])
  check ((signerFields.filter SignatureField.required).all (fun field => field.id ∈ requested))
    (.validation [("field","fieldIds"),("reason","required_field_missing")])
  pure selected

def assertInkForFields (fields : List SignatureField) (hasSignature hasInitials : Bool) : Except AppError Unit := do
  check (!fields.any (fun field => field.type = .signature) || hasSignature)
    (.validation [("field","signature"),("reason","required")])
  check (!fields.any (fun field => field.type = .initials) || hasInitials)
    (.validation [("field","initials"),("reason","required")])

/-- What `decodePngBase64` and `validateSignaturePng` make of the ink in a request. -/
abbrev RequestInk := Option (Except AppError Ink)

def validatedInk : RequestInk → Except AppError (Option Ink)
  | none => .ok none
  | some png => some <$> png

structure CompleteSigningInput where
  tokenHash : Id
  consentCopyId : Id
  intentToSign : Bool
  fieldIds : List Id
  signature : RequestInk
  initials : RequestInk
  idempotencyKey : Option Id
  accountUserId : Option Id

def sessionInput (input : CompleteSigningInput) : LoadSignerSessionInput :=
  ⟨input.tokenHash,true,true,input.accountUserId⟩

def replayCompleteResponse : ResponseBody → Except AppError ResponseBody
  | .complete accepted signerId => .ok (.complete accepted signerId)
  | _ => .error (.integrity [("reason","idempotency_replay_missing_body")])

def sortedIds (ids : List Id) : List Id := ids.insertionSort (· ≤ ·)

/-- The part of `completeSigning` that follows the idempotency record. -/
def commitSigning (u : Id → Date → CompleteUnit) (source : Option Id) (recordId : Id) : UseCase ResponseBody := do
  let now ← clock
  external
  let sourceRevisionId ← lift (source.elim (.error (.validation [("reason","missing_revision")])) .ok)
  let unit := u sourceRevisionId now
  perform (.complete unit)
  let result := ResponseBody.complete unit.documentCompleted unit.loaded.signer.id
  perform (.completeIdempotency recordId result)
  pure result

def completeSigning (settings : Settings) (input : CompleteSigningInput) : UseCase ResponseBody := do
  ensure input.intentToSign (.validation [("field","intentToSign"),("reason","required")])
  let loaded ← loadSignerSession settings (sessionInput input)
  let roster ← get (fun e _ => Signers.listByDocument e)
  let fields ← get (fun e _ => e.fields)
  let signerFields := fields.filter (fun field => field.signerId = loaded.signer.id)
  if loaded.signer.status = .signed then pure (.complete (allRequiredSigned roster) loaded.signer.id)
  else do
    ensure (canSignerActNow loaded.document.signingMode loaded.signer roster) (.conflict [("reason","signer_not_in_turn")])
    let consent ← get (fun e _ => ConsentRecords.findBySession loaded.session.id e)
    ensure (consent.map ConsentRecord.consentCopyId = some input.consentCopyId)
      (.validation [("field","consentCopyId"),("reason","consent_required")])
    let selected ← lift (selectFields signerFields input.fieldIds)
    let signature ← lift (validatedInk input.signature)
    let initials ← lift (validatedInk input.initials)
    lift (assertInkForFields selected signature.isSome initials.isSome)
    let key ← lift (requireIdempotencyKey input.idempotencyKey)
    let now ← clock
    let begun ← replayOrBeginIdempotency settings ⟨loaded.signer.id,.completeSigning,key,
      .complete loaded.signer.id input.consentCopyId (sortedIds input.fieldIds) signature.isSome initials.isSome,now,true⟩
    match begun with
    | .replay response => lift (replayCompleteResponse response)
    | .record recordId =>
        commitSigning (CompleteUnit.mk loaded roster selected signature initials input.consentCopyId)
          (loaded.document.currentRevisionId <|> loaded.document.signingRevisionId) recordId

structure DeclineToSignInput where
  tokenHash : Id
  reason : Option Text
  accountUserId : Option Id

/-- White space as `trim` and `\s` have it. -/
def isSpace (c : Char) : Bool :=
  c.toNat ∈ [9,10,11,12,13,32,160,5760,8232,8233,8239,8287,12288,65279] || (8192 ≤ c.toNat && c.toNat ≤ 8202)

def trim (text : Text) : Text := ((text.dropWhile isSpace).reverse.dropWhile isSpace).reverse

theorem trimBlanks {blanks text : Text} (blank : ∀ c ∈ blanks, isSpace c = true) : trim (blanks ++ text) = trim text := by
  unfold trim
  rw [List.dropWhile_append_of_pos blank]

theorem solidKept {text : Text} (rest : Text) (some : text ≠ []) (solid : ∀ c ∈ text, isSpace c = false) :
    (text ++ rest).dropWhile isSpace = text ++ rest := by
  cases text with
  | nil => exact absurd rfl some
  | cons c text => rw [List.cons_append,List.dropWhile_cons_of_neg (by simp [solid c List.mem_cons_self])]

theorem trimPadded {text : Text} (before after : Text) (some : text ≠ []) (solid : ∀ c ∈ text, isSpace c = false)
    (front : ∀ c ∈ before, isSpace c = true) (back : ∀ c ∈ after, isSpace c = true) :
    trim (before ++ text ++ after) = text := by
  rw [List.append_assoc,trimBlanks front]
  unfold trim
  rw [solidKept after some solid,List.reverse_append,
    List.dropWhile_append_of_pos fun c among => back c (List.mem_reverse.mp among)]
  have kept := solidKept [] (show text.reverse ≠ [] by simpa using some)
    fun c among => solid c (List.mem_reverse.mp among)
  rw [List.append_nil] at kept
  rw [kept,List.reverse_reverse]

theorem trimEmpty {text : Text} (empty : trim text = []) : ∀ c ∈ text, isSpace c = true := by
  unfold trim at empty
  rw [List.reverse_eq_nil_iff,List.dropWhile_eq_nil_iff] at empty
  intro c among
  rw [← List.takeWhile_append_dropWhile (p := isSpace) (l := text)] at among
  rcases List.mem_append.mp among with front | back
  · exact List.mem_takeWhile_imp front
  · exact empty c (List.mem_reverse.mpr back)

theorem trimSolid {text : Text} (some : text ≠ []) (solid : ∀ c ∈ text, isSpace c = false) : trim text = text := by
  have padded := trimPadded [] [] some solid (by simp) (by simp)
  simpa using padded

/-- The first `n` UTF-16 units; a surrogate pair cut in two keeps its first half,
which is no character any more and is left out here. -/
def sliceUnits : Nat → Text → Text
  | _, [] => []
  | n, c :: rest => if unitSize c ≤ n then c :: sliceUnits (n - unitSize c) rest else []

def sanitizeDeclineReason (value : Option Text) : Option Text :=
  value.bind (fun text =>
    let cleaned := trim (text.filter (fun c => 32 ≤ c.toNat ∧ c.toNat ≠ 127))
    if cleaned = [] then none else some (sliceUnits 500 cleaned))

def declineToSign (settings : Settings) (input : DeclineToSignInput) : UseCase Unit := do
  let loaded ← loadSignerSession settings ⟨input.tokenHash,true,false,input.accountUserId⟩
  let roster ← get (fun e _ => Signers.listByDocument e)
  ensure (canSignerActNow loaded.document.signingMode loaded.signer roster) (.conflict [("reason","signer_not_in_turn")])
  if loaded.signer.status = .declined then pure ()
  else do
    ensure (loaded.signer.status = .pending) (.conflict [("reason","signer_not_pending")])
    lift (assertDocumentTransition loaded.document.state .declined)
    let now ← clock
    perform (.decline ⟨loaded,sanitizeDeclineReason input.reason,now⟩)

def recordSignerViewed (settings : Settings) (tokenHash : Id) (accountUserId : Option Id) : UseCase Unit := do
  let loaded ← loadSignerSession settings ⟨tokenHash,true,false,accountUserId⟩
  let now ← clock
  perform (.viewed ⟨loaded,now⟩)

structure RecordSignerConsentInput where
  tokenHash : Id
  copyId : Id
  accepted : Bool
  untrustedClientIp : Option Text
  untrustedUserAgent : Option Text
  accountUserId : Option Id

def recordSignerConsent (settings : Settings) (input : RecordSignerConsentInput) : UseCase Unit := do
  ensure input.accepted (.validation [("field","accepted"),("reason","explicit_consent_required")])
  ensure (input.copyId ∈ settings.disclosures) (.validation [("field","copyId"),("reason","unknown_disclosure")])
  ensure (input.copyId = settings.currentDisclosure) (.validation [("field","copyId"),("reason","stale_disclosure")])
  let loaded ← loadSignerSession settings ⟨input.tokenHash,true,false,input.accountUserId⟩
  let existing ← get (fun e _ => ConsentRecords.findBySession loaded.session.id e)
  if existing.isSome then pure ()
  else do
    let now ← clock
    let consentId ← nextId
    perform (.consent ⟨loaded,⟨consentId,loaded.signer.id,loaded.session.id,input.copyId,now,
      input.untrustedClientIp,input.untrustedUserAgent⟩⟩)

def exchangeSigningToken (settings : Settings) (tokenHash : Id) (accountUserId : Option Id) : UseCase Unit := do
  let loaded ← loadSignerSession settings ⟨tokenHash,false,false,accountUserId⟩
  let now ← clock
  let tokens ← get (fun _ i => (i.tokens 0,i.tokens 1))
  perform (.exchange ⟨loaded,tokens.1,tokens.2,now⟩)

/-- Presents an issued session before it looks at the document. -/
def resolveSigningSession (tokenHash : Id) : UseCase Unit := do
  let session ← find (SigningSessions.findByTokenHash tokenHash) rejectToken
  ensure session.open rejectToken
  let now ← clock
  if session.expiresAt ≤ now then rejectExpired session
  else do
    when (session.status = .issued) (perform (.markPresented session.id now))
    let document ← get (fun e _ => e.document)
    ensure (isAvailableForSigning document) documentNotSignable

def rotateSigningSession (settings : Settings) (signerId userId : Id) : UseCase Unit := do
  let document ← get (fun e _ => e.document)
  ensure (isAvailableForSigning document) documentNotSignable
  let signer ← find (Signers.findById signerId) (.notFound [("resource","signer")])
  let now ← clock
  let tokenHash ← get (fun _ i => i.tokens 0)
  let sessionId ← nextId
  perform (.rotate ⟨document,signer.id,sessionId,tokenHash,now + settings.sessionTtlMs,userId,now⟩)
  external

def revokeSigningSession (sessionId userId : Id) : UseCase Unit := do
  let session ← find (SigningSessions.findById sessionId) (.notFound [("resource","signing_session")])
  let now ← clock
  perform (.revoke ⟨session,userId,now⟩)

def loadRevision (document : Document) (e : Envelope) : Option DocumentRevision :=
  document.currentRevisionId.bind (fun revisionId => Revisions.findById revisionId e)

def parseExpiresAt (value : Option (Option Date)) (now : Date) : Except AppError (Option Date) :=
  match value with
  | none => .ok none
  | some parsed => do
      check (parsed.any (fun expiresAt => now < expiresAt)) (.validation [("field","expiresAt"),("reason","not_in_future")])
      pure parsed

structure SendDocumentInput where
  userId : Id
  expiresAt : Option (Option Date)
  idempotencyKey : Option Id

def issueSessions (settings : Settings) (now : Date) (i : Input) (signers : List Signer) : List SigningSession :=
  signers.zipIdx.map (fun row => newSession (i.ids row.2) row.1.id (i.tokens row.2) (now + settings.sessionTtlMs))

def invitation (session : SigningSession) : Id × Id × Date := (session.signerId,session.id,session.expiresAt)

def replaySendResponse : ResponseBody → Except AppError ResponseBody
  | .sent invitations => .ok (.sent invitations)
  | _ => .error (.integrity [("reason","idempotency_replay_missing_body")])

def sendDocument (settings : Settings) (input : SendDocumentInput) : UseCase ResponseBody := do
  let key ← lift (requireIdempotencyKey input.idempotencyKey)
  let begunAt ← clock
  let begun ← replayOrBeginIdempotency settings
    ⟨input.userId,.sendDocument,key,.send input.expiresAt,begunAt,false⟩
  match begun with
  | .replay response => lift (replaySendResponse response)
  | .record recordId => do
      let document ← get (fun e _ => e.document)
      lift (assertReadyToSend document)
      let revision ← find (loadRevision document) (.validation [("reason","missing_revision")])
      let signers ← get (fun e _ => Signers.listByDocument e)
      let fields ← get (fun e _ => e.fields)
      ensure (envelopeIsPrepared document signers fields) (.validation [("reason","envelope_incomplete")])
      let now ← clock
      let expiresAt ← lift (parseExpiresAt input.expiresAt now)
      let issued ← get (fun _ i => issueSessions settings now i signers)
      perform (.send ⟨document,revision.id,issued,expiresAt,input.userId,now⟩)
      external
      let body := ResponseBody.sent (issued.map invitation)
      perform (.completeIdempotency recordId body)
      pure body

def replayVoidResponse : ResponseBody → Except AppError ResponseBody
  | .voided state => do
      check (state = .voided) (.conflict [("reason","document_not_voidable")])
      pure (.voided state)
  | _ => .error (.integrity [("reason","idempotency_replay_missing_body")])

def voidDocument (settings : Settings) (userId : Id) (idempotencyKey : Option Id) : UseCase ResponseBody := do
  let key ← lift (requireIdempotencyKey idempotencyKey)
  let begunAt ← clock
  let begun ← replayOrBeginIdempotency settings ⟨userId,.voidDocument,key,.void,begunAt,false⟩
  match begun with
  | .replay response => lift (replayVoidResponse response)
  | .record recordId => do
      let document ← get (fun e _ => e.document)
      lift (assertDocumentTransition document.state .voided)
      let now ← clock
      perform (.void ⟨document,userId,now⟩)
      let body := ResponseBody.voided .voided
      perform (.completeIdempotency recordId body)
      pure body

structure SignerRow where
  signerId : Option Id
  email : Text
  displayName : Text
  routingOrder : Int

/-- `/^[^\s@]+@[^\s@]+\.[^\s@]+$/`: one `@`, no white space, and a dot inside what
follows the `@`. -/
def emailPattern (email : Text) : Bool :=
  let user := email.takeWhile (· ≠ '@')
  let domain := (email.dropWhile (· ≠ '@')).drop 1
  !email.any isSpace && email.count '@' = 1 && user ≠ [] && '.' ∈ (domain.drop 1).dropLast

def toSigner (settings : Settings) (existingIds : List Id) (fresh : Id) (row : SignerRow) : Except AppError Signer := do
  let email := settings.toLowerCase (trim row.email)
  check (emailPattern email) (.validation [("field","email"),("reason","invalid")])
  let displayName := trim row.displayName
  check (1 ≤ unitLength displayName ∧ unitLength displayName ≤ 120)
    (.validation [("field","displayName"),("reason","invalid")])
  check (row.signerId.all (· ∈ existingIds)) (.validation [("field","signerId"),("reason","unknown_signer")])
  pure
    { id := row.signerId.getD fresh
      accountUserId := none
      routingOrder := row.routingOrder
      status := .pending
      email := email
      displayName := displayName
      version := 1
      completedAt := none
      declinedAt := none }

def toSigners (settings : Settings) (existingIds : List Id) (i : Input) (rows : List SignerRow) :
    Except AppError (List Signer) :=
  rows.zipIdx.mapM (fun row => toSigner settings existingIds (i.ids row.2) row.1)

structure ReplaceSignersInput where
  userId : Id
  signingMode : SigningMode
  signers : List SignerRow

def replaceDocumentSigners (settings : Settings) (input : ReplaceSignersInput) : UseCase Unit := do
  let document ← get (fun e _ => e.document)
  lift (assertPreparationUnlocked document)
  let now ← clock
  let existing ← get (fun e _ => Signers.listByDocument e)
  let drawn ← get (fun _ i => toSigners settings (existing.map Signer.id) i input.signers)
  let signers ← lift drawn
  lift (assertSignerRouting input.signingMode (signers.map Signer.routingOrder))
  ensure ((signers.map Signer.email).dedup.length = signers.length) (.validation [("field","email"),("reason","duplicate")])
  perform (.replaceSigners ⟨document,input.signingMode,signers,input.userId,now⟩)

structure FieldRow where
  signerId : Id
  type : Option SignatureFieldType
  box : FieldBox
  required : Option Bool

def toField (signerIds : List Id) (id : Id) (row : FieldRow) : Except AppError SignatureField := do
  check (row.signerId ∈ signerIds) (.validation [("field","signerId"),("reason","unknown_signer")])
  let type ← row.type.elim (.error (.validation [("field","type"),("reason","invalid")])) .ok
  pure
    { id := id
      signerId := row.signerId
      type := type
      box := row.box
      required := row.required.getD true
      completion := none
      flattenedRevisionId := none }

def toFields (signerIds : List Id) (i : Input) (rows : List FieldRow) : Except AppError (List SignatureField) :=
  rows.zipIdx.mapM (fun row => toField signerIds (i.ids row.2) row.1)

structure ReplaceFieldsInput where
  userId : Id
  overlapPolicy : FieldOverlapPolicy
  fields : List FieldRow

def replaceDocumentFields (input : ReplaceFieldsInput) : UseCase Unit := do
  let document ← get (fun e _ => e.document)
  lift (assertPreparationUnlocked document)
  let revision ← find (loadRevision document) (.validation [("reason","missing_revision")])
  let signers ← get (fun e _ => Signers.listByDocument e)
  ensure (signers ≠ []) (.validation [("field","signers"),("reason","empty")])
  let now ← clock
  let drawn ← get (fun _ i => toFields (signers.map Signer.id) i input.fields)
  let fields ← lift drawn
  lift (assertFieldLayout (fields.map SignatureField.box) revision.pageCount input.overlapPolicy)
  lift (assertEachSignerHasField signers fields)
  perform (.replaceFields ⟨document,signers,fields,input.userId,now⟩)

structure CompleteSourceUploadInput where
  tokenHash : Id
  digest : Digest
  acceptable : Except AppError Unit

/-- `acceptable` is what the content type, the size and the magic bytes come to. -/
def completeSourceUpload (input : CompleteSourceUploadInput) : UseCase Unit := do
  let session ← find (fun e => e.uploadSessions.find? (fun row => row.tokenHash = input.tokenHash))
    (.authentication [("reason","upload_token")])
  let now ← clock
  if session.status = .completed ∧ session.revisionId.isSome then pure ()
  else do
    ensure (session.status = .issued) (.conflict [("reason","upload_session_not_issued")])
    ensure (now < session.expiresAt) (.conflict [("reason","upload_expired")])
    lift input.acceptable
    let document ← get (fun e _ => e.document)
    ensure (document.state = .draft) (.conflict [("reason","document_not_draft")])
    ensure (document.currentRevisionId = none) (.conflict [("reason","revision_already_present")])
    external
    let revisionId ← nextId
    let pageCount ← get (fun _ i => i.pageCount)
    perform (.upload ⟨document,session.id,⟨revisionId,.source,⟨input.digest,[]⟩,pageCount⟩,now⟩)

def abandonAll (now : Date) : List UploadSession → UseCase Unit
  | [] => pure ()
  | session :: rest => do
      perform (.abandon ⟨session.id,now⟩)
      abandonAll now rest

def cleanupAbandonedUploads : UseCase Unit := do
  let now ← clock
  let expired ← get (fun e _ => e.uploadSessions.filter (fun row => row.status = .issued ∧ row.expiresAt ≤ now))
  abandonAll now expired

def inspectDocument (revisionId jobId : Id) : UseCase Unit := do
  let document ← get (fun e _ => e.document)
  if document.inspectionStatus ≠ .pending then pure ()
  else do
    ensure (document.currentRevisionId = some revisionId) (.notFound [("resource","revision")])
    let revision ← find (Revisions.findById revisionId) (.notFound [("resource","revision")])
    external
    let stored ← get (fun _ i => i.stored)
    ensure (stored = revision.body) (.integrity [("reason","source_digest_mismatch"),("code","SOURCE_INTEGRITY_FAILURE")])
    external
    let outcome ← get (fun _ i => i.inspection stored)
    let now ← clock
    perform (.inspect ⟨document,revisionId,stored,outcome.1,outcome.2,jobId,now⟩)

inductive FinalizationFailureCode where
  | sourceObjectNotFound | sourceIntegrityFailure | invalidPdf | encryptedPdfUnsupported | invalidSignatureImage
  | invalidSignatureField | pdfGenerationFailed | finalObjectUploadFailed | finalObjectIntegrityFailure
  | concurrentFinalization | databaseCommitFailed
  deriving DecidableEq, Repr

def FinalizationFailureCode.name : FinalizationFailureCode → String
  | .sourceObjectNotFound => "SOURCE_OBJECT_NOT_FOUND"
  | .sourceIntegrityFailure => "SOURCE_INTEGRITY_FAILURE"
  | .invalidPdf => "INVALID_PDF"
  | .encryptedPdfUnsupported => "ENCRYPTED_PDF_UNSUPPORTED"
  | .invalidSignatureImage => "INVALID_SIGNATURE_IMAGE"
  | .invalidSignatureField => "INVALID_SIGNATURE_FIELD"
  | .pdfGenerationFailed => "PDF_GENERATION_FAILED"
  | .finalObjectUploadFailed => "FINAL_OBJECT_UPLOAD_FAILED"
  | .finalObjectIntegrityFailure => "FINAL_OBJECT_INTEGRITY_FAILURE"
  | .concurrentFinalization => "CONCURRENT_FINALIZATION"
  | .databaseCommitFailed => "DATABASE_COMMIT_FAILED"

def FinalizationFailureCode.kind : FinalizationFailureCode → ApplicationErrorKind
  | .sourceObjectNotFound => .externalService
  | .pdfGenerationFailed => .externalService
  | .finalObjectUploadFailed => .externalService
  | .databaseCommitFailed => .externalService
  | .sourceIntegrityFailure => .integrity
  | .finalObjectIntegrityFailure => .integrity
  | .invalidPdf => .validation
  | .encryptedPdfUnsupported => .validation
  | .invalidSignatureImage => .validation
  | .invalidSignatureField => .validation
  | .concurrentFinalization => .conflict

def finalizationError (code : FinalizationFailureCode) (details : List (String × String)) : AppError :=
  .application code.kind (("code",code.name) :: details)

def ApplicationErrorKind.name : ApplicationErrorKind → String
  | .validation => "validation"
  | .authentication => "authentication"
  | .authorization => "authorization"
  | .notFound => "not_found"
  | .conflict => "conflict"
  | .invalidStateTransition => "invalid_state_transition"
  | .integrity => "integrity"
  | .externalService => "external_service"
  | .rateLimit => "rate_limit"

structure ClassifiedJobFailure where
  code : String
  retryable : Bool
  deriving DecidableEq, Repr

def classifyJobFailure : AppError → ClassifiedJobFailure
  | .application kind _ => ⟨kind.name,kind = .externalService ∨ kind = .rateLimit ∨ kind = .conflict⟩
  | .unknown _ => ⟨"unknown",true⟩

def loadAuthorizedWork (input : FlattenInput) : UseCase (Option LoadedWork) := do
  let document ← get (fun e _ => e.document)
  let artifact ← get (fun e _ => e.artifact)
  if document.state = .finalized ∧ artifact.isSome then pure none
  else do
    let signer ← find (Signers.findById input.signerId) (finalizationError .invalidSignatureField [("resource","signer")])
    let session ← find (SigningSessions.findById input.sessionId)
      (finalizationError .invalidSignatureField [("resource","session")])
    ensure (session.signerId = signer.id) (finalizationError .invalidSignatureField [("resource","session")])
    let consent ← find (ConsentRecords.findBySession session.id)
      (finalizationError .invalidSignatureField [("resource","consent")])
    let revision ← find (Revisions.findById (document.currentRevisionId.getD input.revisionId))
      (finalizationError .sourceObjectNotFound [("resource","revision")])
    let signers ← get (fun e _ => Signers.listByDocument e)
    let fields ← get (fun e _ => e.fields)
    let signerFields := fields.filter (fun field => field.signerId = signer.id)
    ensure (signerFields ≠ []) (finalizationError .invalidSignatureField [("reason","missing_fields")])
    let now ← clock
    pure (some ⟨document,revision,signerFields,signer.displayName,signer.completedAt.getD now,
      allRequiredSigned signers,consent⟩)

/-- The row is looked for, updated and read back by three statements: the row that
comes back need not be the one that was written, and reading it back can fail when the
lease is taken already. -/
def claimProcessingLease (input : FlattenInput) (expectedVersion : Nat) (leaseUntil now : Date) : UseCase Document := do
  let current ← find
    (fun e => if Documents.leasable expectedVersion input.owner now e.document then some e.document else none)
    documentLease
  perform (.takeLease input expectedVersion leaseUntil now current)
  external
  get (fun e _ => e.document)

def leaseError (error : AppError) : AppError :=
  if error = documentLease then finalizationError .concurrentFinalization [] else error

def isInk (type : SignatureFieldType) : Bool := type = .signature ∨ type = .initials

def LoadedWork.appearance (loaded : LoadedWork) (field : SignatureField) : Appearance where
  fieldId := field.id
  png := if isInk field.type then field.completion.bind FieldCompletion.completionSha256Digest else none
  signerName := if field.type = .signerName then some loaded.signerName else none
  signedAt := if field.type = .dateSigned then some loaded.signedAt else none

def assertDrawable (input : FlattenInput) (pageCount : Nat) : List SignatureField → Except AppError Unit
  | [] => .ok ()
  | field :: rest => do
      check (field.signerId = input.signerId) (finalizationError .invalidSignatureField [])
      check (assertFieldOnPage field.box pageCount).isOk
        (finalizationError .invalidSignatureField [("reason","page_or_rectangle")])
      check (!isInk field.type || (field.completion.bind FieldCompletion.completionObjectKey).isSome)
        (finalizationError .invalidSignatureImage [])
      assertDrawable input pageCount rest

/-- The flattener draws what it is given on top of the bytes it is given. -/
def flattenOntoRevision (input : FlattenInput) (loaded : LoadedWork) (revision : DocumentRevision) :
    UseCase (Pdf × Nat) := do
  external
  lift (assertDrawable input revision.pageCount loaded.pendingFields)
  external
  let pageCount ← get (fun _ i => i.pageCount)
  pure (⟨revision.body.uploaded,revision.body.drawn ++ loaded.pendingFields.map loaded.appearance⟩,pageCount)

def downloadAndVerifySource (revision : DocumentRevision) : UseCase (Pdf × Nat) := do
  external
  pure (revision.body,revision.pageCount)

def outputOf (input : FlattenInput) (loaded : LoadedWork) (revision : DocumentRevision) : UseCase (Pdf × Nat) :=
  if 0 < loaded.pendingFields.length then flattenOntoRevision input loaded revision else downloadAndVerifySource revision

def commitError : AppError → AppError
  | .application .conflict _ => finalizationError .concurrentFinalization []
  | .application .externalService _ => finalizationError .databaseCommitFailed []
  | .application kind details => .application kind details
  | .unknown _ => finalizationError .databaseCommitFailed []

/-- The body of the outer `try`. -/
def drawAndCommit (input : FlattenInput) (loaded : LoadedWork) (leased : Document) : UseCase Unit := do
  let revision ← find (Revisions.findById (leased.currentRevisionId.getD loaded.revision.id))
    (finalizationError .sourceObjectNotFound [("resource","revision")])
  let output ← outputOf input loaded revision
  let ids ← get (fun _ i => (i.ids 0,i.ids 1))
  let revisionId := if 0 < loaded.pendingFields.length then ids.1 else revision.id
  let occurredAt ← clock
  when loaded.allSignersComplete external
  attempt (perform (.flatten ⟨input,loaded,leased,revision,output.1,output.2,revisionId,ids.2,occurredAt⟩))
    (fun error => fail (commitError error))

/-- The outer `catch`. `markFinalizationFailed` reads its row back, whether it has
updated it or not. -/
def recordFailure (input : FlattenInput) (error : AppError) : UseCase Unit := do
  if (classifyJobFailure error).retryable then do
    perform (.releaseLease input.owner)
    fail error
  else do
    perform (.markFinalizationFailed input.owner)
    external
    let occurredAt ← clock
    perform (.finalizationFailed input (classifyJobFailure error).code occurredAt)
    fail error

def persistMissingFinalArtifact (input : FlattenInput) (loaded : LoadedWork) : UseCase Unit := do
  external
  let artifactId ← nextId
  let occurredAt ← clock
  attempt (perform (.persist ⟨input,loaded,artifactId,occurredAt⟩)) (fun error => fail (commitError error))

def flattenSignature (settings : Settings) (input : FlattenInput) : UseCase Unit := do
  let work ← loadAuthorizedWork input
  match work with
  | none => pure ()
  | some loaded =>
      if loaded.document.state = .finalized then persistMissingFinalArtifact input loaded
      else do
        let now ← clock
        let leased ← attempt (claimProcessingLease input loaded.document.version (now + settings.leaseMs) now)
          (fun error => fail (leaseError error))
        when (leased.state = .finalizing) (perform (.finalizationStarted input now))
        attempt (drawAndCommit input loaded leased) (recordFailure input)

structure NewDraft where
  uploadSessionId : Id
  tokenHash : Id
  expiresAt : Date
  userId : Id
  now : Date

/-- The rows `createDraftDocument` commits, in one unit of work. -/
def createDraftDocument (draft : NewDraft) : Envelope where
  document :=
    { state := .draft
      signingMode := .ordered
      inspectionStatus := .pending
      expiresAt := none
      currentRevisionId := none
      signingRevisionId := none
      version := 1
      leaseOwner := none
      leaseUntil := none
      finalizationAttemptCount := 0 }
  revisions := []
  uploadSessions := [⟨draft.uploadSessionId,draft.tokenHash,.issued,draft.expiresAt,none⟩]
  signers := []
  fields := []
  sessions := []
  consents := []
  artifact := none
  audit := [⟨.documentCreated,.accountUser,some draft.userId,draft.now,
    [("uploadSessionId",.id (some draft.uploadSessionId))]⟩]
  outbox := []
  idempotency := []

/-- Everything that is ever asked of one document: by its owner, by its signers, by
the timer and by the queue. -/
inductive Request where
  | completeSourceUpload (input : CompleteSourceUploadInput)
  | cleanupAbandonedUploads
  | replaceDocumentSigners (input : ReplaceSignersInput)
  | replaceDocumentFields (input : ReplaceFieldsInput)
  | sendDocument (input : SendDocumentInput)
  | voidDocument (userId : Id) (idempotencyKey : Option Id)
  | rotateSigningSession (signerId userId : Id)
  | revokeSigningSession (sessionId userId : Id)
  | resolveSigningSession (tokenHash : Id)
  | exchangeSigningToken (tokenHash : Id) (accountUserId : Option Id)
  | recordSignerViewed (tokenHash : Id) (accountUserId : Option Id)
  | recordSignerConsent (input : RecordSignerConsentInput)
  | completeSigning (input : CompleteSigningInput)
  | declineToSign (input : DeclineToSignInput)
  | inspectDocument (event : OutboxEvent)
  | flattenSignature (event : OutboxEvent) (owner : Id)

def startRequest (settings : Settings) : Request → UseCase (Option ResponseBody)
  | .completeSourceUpload input => do completeSourceUpload input; pure none
  | .cleanupAbandonedUploads => do cleanupAbandonedUploads; pure none
  | .replaceDocumentSigners input => do replaceDocumentSigners settings input; pure none
  | .replaceDocumentFields input => do replaceDocumentFields input; pure none
  | .sendDocument input => do pure (some (← sendDocument settings input))
  | .voidDocument userId idempotencyKey => do pure (some (← voidDocument settings userId idempotencyKey))
  | .rotateSigningSession signerId userId => do rotateSigningSession settings signerId userId; pure none
  | .revokeSigningSession sessionId userId => do revokeSigningSession sessionId userId; pure none
  | .resolveSigningSession tokenHash => do resolveSigningSession tokenHash; pure none
  | .exchangeSigningToken tokenHash accountUserId => do exchangeSigningToken settings tokenHash accountUserId; pure none
  | .recordSignerViewed tokenHash accountUserId => do recordSignerViewed settings tokenHash accountUserId; pure none
  | .recordSignerConsent input => do recordSignerConsent settings input; pure none
  | .completeSigning input => do pure (some (← completeSigning settings input))
  | .declineToSign input => do declineToSign settings input; pure none
  | .inspectDocument event => match event.payload with
      | .inspectDocument revisionId => do inspectDocument revisionId event.jobId; pure none
      | _ => pure none
  | .flattenSignature event owner => match event.payload with
      | .flattenSignature signerId sessionId revisionId => do
          flattenSignature settings ⟨signerId,sessionId,revisionId,event.jobId,event.id,owner⟩
          pure none
      | _ => pure none

/-- A job runs on an event that was published, as often as the queue delivers it. -/
def admitRequest (e : Envelope) : Request → Bool
  | .inspectDocument event => event ∈ e.outbox
  | .flattenSignature event _ => event ∈ e.outbox
  | _ => true

def esign (settings : Settings) : System Envelope Write Input (Except AppError Unit) Request
    (Except AppError (Option ResponseBody)) where
  exec := Write.exec
  admits := admitRequest
  start := startRequest settings

/-- The rows of a document and the requests under way. -/
abbrev Running := Config Envelope Write Input (Except AppError Unit) (Except AppError (Option ResponseBody))

end ESign
