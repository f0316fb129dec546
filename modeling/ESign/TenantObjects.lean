import ESign.Reliance
import ESign.UseCases

/-! The documents of one organization and the objects that its rows refer to. The rows
of a document are written as before; an object is written and removed by steps of its
own, between which any other use case may run. A body is named by its digest, and an
object has no age but the instant at which it was first stored. -/
namespace ESign.Tenant
open StoreProgram StoreProgram.Fallible

structure StoredObject where
  key : ObjectKey
  sha256Digest : Digest
  storedAt : Date
  deriving DecidableEq, Repr

structure Tenancy where
  objects : List StoredObject
  documents : List (Id × Envelope)
  deriving DecidableEq, Repr

def rowsOf (documentId : Id) (t : Tenancy) : Option Envelope :=
  (t.documents.find? (fun row => row.1 = documentId)).map Prod.snd

def setRows (documentId : Id) (e : Envelope) (t : Tenancy) : Tenancy :=
  { t with documents := t.documents.map (fun row => if row.1 = documentId then (documentId,e) else row) }

def findObject (key : ObjectKey) (t : Tenancy) : Option StoredObject := t.objects.find? (fun object => object.key = key)

/-- The two storages of the source: a map in memory, and a bucket. -/
inductive ObjectStorage where
  | memory | s3
  deriving DecidableEq, Repr

inductive ObjectPrefix where
  | revisions | artifacts | signatures
  deriving DecidableEq, Repr

def ObjectPrefix.covers : ObjectPrefix → ObjectKey → Bool
  | .revisions, .revisions _ => true
  | .artifacts, .artifacts _ => true
  | .signatures, .signatures _ => true
  | _, _ => false

structure TenantSettings where
  rows : Settings
  storage : ObjectStorage
  sha256Hex : Pdf → Digest
  olderThanMs : Int
  prefixes : List ObjectPrefix

def sourceRevisionObjectKey (sha256Digest : Digest) : ObjectKey := .revisions sha256Digest

def artifactObjectKey (sha256Digest : Digest) : ObjectKey := .artifacts sha256Digest

/-- The keys that the rows of a document hold: of its revisions, of its artifact, of its completed fields. -/
def referencedKeys (sha256Hex : Pdf → Digest) (e : Envelope) : List ObjectKey :=
  e.revisions.map (fun revision => sourceRevisionObjectKey (sha256Hex revision.body)) ++
    (e.artifact.map (fun artifact => artifactObjectKey (sha256Hex artifact.body))).toList ++
    e.fields.filterMap (fun field => field.completion.bind FieldCompletion.completionObjectKey)

/-- What `findFirstByObjectKey` of revisions and artifacts and `findFirstByCompletionObjectKey` come to. -/
def isReferenced (sha256Hex : Pdf → Digest) (key : ObjectKey) (t : Tenancy) : Bool :=
  t.documents.any (fun row => key ∈ referencedKeys sha256Hex row.2)

inductive TenantWrite where
  | rows (documentId : Id) (w : Write)
  /-- `putObject` of the storage in memory, from its checks to its end. -/
  | putObject (key : ObjectKey) (sha256Digest : Digest)
  /-- `PutObjectCommand`: the object is replaced, whatever is there. -/
  | putCommand (key : ObjectKey) (sha256Digest : Digest)
  | deleteObject (key : ObjectKey)
  deriving DecidableEq, Repr

def documentNotFound : AppError := .notFound [("resource","document")]
def immutableKeyConflict : AppError := .integrity [("reason","immutable_key_conflict")]

/-- Of a key that is stored already `putObject` keeps the object, and the instant it was stored at. -/
def putObjectAt (key : ObjectKey) (sha256Digest : Digest) (now : Date) (t : Tenancy) : Tenancy × Except AppError Unit :=
  match findObject key t with
  | some existing => if existing.sha256Digest = sha256Digest then (t,.ok ()) else (t,.error immutableKeyConflict)
  | none => ({ t with objects := t.objects ++ [⟨key,sha256Digest,now⟩] },.ok ())

def TenantWrite.exec (w : TenantWrite) (t : Tenancy) (i : Input) : Tenancy × Except AppError Unit :=
  match w with
  | .rows documentId w =>
      match rowsOf documentId t with
      | none => (t,.error documentNotFound)
      | some e => (setRows documentId (w.exec e i).1 t,(w.exec e i).2)
  | .putObject key sha256Digest =>
      match i.failure with
      | some error => (t,.error error)
      | none => putObjectAt key sha256Digest i.now t
  | .putCommand key sha256Digest =>
      match i.failure with
      | some error => (t,.error error)
      | none => ({ t with objects := t.objects.filter (fun object => object.key ≠ key) ++ [⟨key,sha256Digest,i.now⟩] },.ok ())
  | .deleteObject key =>
      match i.failure with
      | some error => (t,.error error)
      | none => ({ t with objects := t.objects.filter (fun object => object.key ≠ key) },.ok ())

abbrev TenantUseCase (α : Type) := Fallible Tenancy TenantWrite Input AppError α

/-- What a use case does to the rows of one document. -/
def onRows {α : Type} (documentId : Id) (p : UseCase α) : TenantUseCase α :=
  Program.within (rowsOf documentId) (.rows documentId) (.error documentNotFound) p

def clock : TenantUseCase Date := get (fun _ i => i.now)

def nextId : TenantUseCase Id := get (fun _ i => i.ids 0)

def external : TenantUseCase Unit := .read (fun _ i => .done (i.failure.elim (.ok ()) .error))

/-- A bucket is asked for the object first, and the object is sent when it has none. -/
def putObject (storage : ObjectStorage) (key : ObjectKey) (sha256Digest : Digest) : TenantUseCase Unit :=
  match storage with
  | .memory => perform (.putObject key sha256Digest)
  | .s3 => do
      external
      let existingDigest ← get (fun t _ => (findObject key t).map StoredObject.sha256Digest)
      ensure (existingDigest.all (fun existing => existing = sha256Digest)) immutableKeyConflict
      when existingDigest.isNone (perform (.putCommand key sha256Digest))

def getObject (key : ObjectKey) (missing : AppError) : TenantUseCase StoredObject := do
  external
  find (findObject key) missing

def sourceIntegrity (reason : String) : AppError := .integrity [("reason",reason),("code","SOURCE_INTEGRITY_FAILURE")]

def completeSourceUpload (settings : TenantSettings) (documentId : Id) (input : CompleteSourceUploadInput) : TenantUseCase Unit := do
  let session ← onRows documentId (find (fun e => e.uploadSessions.find? (fun row => row.tokenHash = input.tokenHash))
    (.authentication [("reason","upload_token")]))
  let now ← clock
  if session.status = .completed ∧ session.revisionId.isSome then pure ()
  else do
    ensure (session.status = .issued) (.conflict [("reason","upload_session_not_issued")])
    ensure (now < session.expiresAt) (.conflict [("reason","upload_expired")])
    lift input.acceptable
    let document ← onRows documentId (get (fun e _ => e.document))
    ensure (document.state = .draft) (.conflict [("reason","document_not_draft")])
    ensure (document.currentRevisionId = none) (.conflict [("reason","revision_already_present")])
    let body : Pdf := ⟨input.digest,[]⟩
    let objectKey := sourceRevisionObjectKey (settings.sha256Hex body)
    putObject settings.storage objectKey (settings.sha256Hex body)
    let persistedObject ← getObject objectKey (sourceIntegrity "source_missing_after_put")
    ensure (persistedObject.sha256Digest = settings.sha256Hex body) (sourceIntegrity "source_digest_mismatch_after_put")
    let revisionId ← nextId
    let pageCount ← get (fun _ i => i.pageCount)
    perform (.rows documentId (.upload ⟨document,session.id,⟨revisionId,.source,body,pageCount⟩,now⟩))

def putInk (storage : ObjectStorage) : Option Ink → TenantUseCase Unit
  | none => pure ()
  | some png => putObject storage (signatureImageObjectKey png.digest) png.digest

/-- The part of `completeSigning` that follows the idempotency record. The images are not read back. -/
def commitSigning (storage : ObjectStorage) (documentId : Id) (u : Id → Date → CompleteUnit) (signature initials : Option Ink)
    (source : Option Id) (recordId : Id) : TenantUseCase ResponseBody := do
  let now ← clock
  putInk storage signature
  putInk storage initials
  let sourceRevisionId ← lift (source.elim (.error (.validation [("reason","missing_revision")])) .ok)
  let unit := u sourceRevisionId now
  perform (.rows documentId (.complete unit))
  let result := ResponseBody.complete unit.documentCompleted unit.loaded.signer.id
  perform (.rows documentId (.completeIdempotency recordId result))
  pure result

def completeSigning (settings : TenantSettings) (documentId : Id) (input : CompleteSigningInput) : TenantUseCase ResponseBody := do
  ensure input.intentToSign (.validation [("field","intentToSign"),("reason","required")])
  let loaded ← onRows documentId (loadSignerSession settings.rows (sessionInput input))
  let roster ← onRows documentId (get (fun e _ => Signers.listByDocument e))
  let fields ← onRows documentId (get (fun e _ => e.fields))
  let signerFields := fields.filter (fun field => field.signerId = loaded.signer.id)
  if loaded.signer.status = .signed then pure (.complete (allRequiredSigned roster) loaded.signer.id)
  else do
    ensure (canSignerActNow loaded.document.signingMode loaded.signer roster) (.conflict [("reason","signer_not_in_turn")])
    let consent ← onRows documentId (get (fun e _ => ConsentRecords.findBySession loaded.session.id e))
    ensure (consent.map ConsentRecord.consentCopyId = some input.consentCopyId)
      (.validation [("field","consentCopyId"),("reason","consent_required")])
    let selected ← lift (selectFields signerFields input.fieldIds)
    let signature ← lift (validatedInk input.signature)
    let initials ← lift (validatedInk input.initials)
    lift (assertInkForFields selected signature.isSome initials.isSome)
    let key ← lift (requireIdempotencyKey input.idempotencyKey)
    let now ← clock
    let begun ← onRows documentId (replayOrBeginIdempotency settings.rows ⟨loaded.signer.id,.completeSigning,key,
      .complete loaded.signer.id input.consentCopyId (sortedIds input.fieldIds) signature.isSome initials.isSome,now,true⟩)
    match begun with
    | .replay response => lift (replayCompleteResponse response)
    | .record recordId =>
        commitSigning settings.storage documentId
          (CompleteUnit.mk loaded roster selected signature initials input.consentCopyId) signature initials
          (loaded.document.currentRevisionId <|> loaded.document.signingRevisionId) recordId

/-- Sizes, the limit and the magic bytes come to `external`. -/
def downloadAndVerifySource (settings : TenantSettings) (revision : DocumentRevision) : TenantUseCase (Pdf × Nat) := do
  let stored ← getObject (sourceRevisionObjectKey (settings.sha256Hex revision.body)) (finalizationError .sourceObjectNotFound [])
  ensure (stored.sha256Digest = settings.sha256Hex revision.body)
    (finalizationError .sourceIntegrityFailure [("reason","digest")])
  external
  pure (revision.body,revision.pageCount)

/-- The image of a field that is drawn with ink. -/
def readInk (field : SignatureField) : TenantUseCase Unit :=
  match if isInk field.type then field.completion.bind FieldCompletion.completionObjectKey else none with
  | none => pure ()
  | some key => do
      let stored ← getObject key (finalizationError .invalidSignatureImage [("reason","missing_png")])
      ensure ((field.completion.bind FieldCompletion.completionSha256Digest).all (fun digest => stored.sha256Digest = digest))
        (finalizationError .invalidSignatureImage [("reason","png_digest")])
      external

def readAppearances (input : FlattenInput) (pageCount : Nat) : List SignatureField → TenantUseCase Unit
  | [] => pure ()
  | field :: rest => do
      lift (assertDrawable input pageCount [field])
      readInk field
      readAppearances input pageCount rest

def putVerifiedObject (storage : ObjectStorage) (key : ObjectKey) (digest : Digest) : TenantUseCase Unit := do
  putObject storage key digest
  let persisted ← getObject key (finalizationError .finalObjectIntegrityFailure [("reason","missing_after_put")])
  ensure (persisted.sha256Digest = digest) (finalizationError .finalObjectIntegrityFailure [("reason","digest_mismatch")])

def flattenOntoRevision (settings : TenantSettings) (input : FlattenInput) (loaded : LoadedWork) (revision : DocumentRevision) :
    TenantUseCase (Pdf × Nat) := do
  let source ← downloadAndVerifySource settings revision
  readAppearances input revision.pageCount loaded.pendingFields
  external
  let pageCount ← get (fun _ i => i.pageCount)
  let flattened : Pdf := ⟨source.1.uploaded,source.1.drawn ++ loaded.pendingFields.map loaded.appearance⟩
  putVerifiedObject settings.storage (sourceRevisionObjectKey (settings.sha256Hex flattened)) (settings.sha256Hex flattened)
  pure (flattened,pageCount)

def outputOf (settings : TenantSettings) (input : FlattenInput) (loaded : LoadedWork) (revision : DocumentRevision) :
    TenantUseCase (Pdf × Nat) :=
  if 0 < loaded.pendingFields.length then flattenOntoRevision settings input loaded revision
  else downloadAndVerifySource settings revision

/-- The output is stored under the key of a revision, so the artifact always gets a key of its own. -/
def drawAndCommit (settings : TenantSettings) (documentId : Id) (input : FlattenInput) (loaded : LoadedWork) (leased : Document) :
    TenantUseCase Unit := do
  let revision ← onRows documentId (find (Revisions.findById (leased.currentRevisionId.getD loaded.revision.id))
    (finalizationError .sourceObjectNotFound [("resource","revision")]))
  let output ← outputOf settings input loaded revision
  let ids ← get (fun _ i => (i.ids 0,i.ids 1))
  let revisionId := if 0 < loaded.pendingFields.length then ids.1 else revision.id
  let occurredAt ← clock
  let digest := settings.sha256Hex output.1
  when (loaded.allSignersComplete ∧ sourceRevisionObjectKey digest ≠ artifactObjectKey digest)
    (putVerifiedObject settings.storage (artifactObjectKey digest) digest)
  attempt (perform (.rows documentId (.flatten ⟨input,loaded,leased,revision,output.1,output.2,revisionId,ids.2,occurredAt⟩)))
    (fun error => fail (commitError error))

def persistMissingFinalArtifact (settings : TenantSettings) (documentId : Id) (input : FlattenInput) (loaded : LoadedWork) :
    TenantUseCase Unit := do
  let source ← downloadAndVerifySource settings loaded.revision
  let digest := settings.sha256Hex source.1
  when (sourceRevisionObjectKey digest ≠ artifactObjectKey digest)
    (putVerifiedObject settings.storage (artifactObjectKey digest) digest)
  let artifactId ← nextId
  let occurredAt ← clock
  attempt (perform (.rows documentId (.persist ⟨input,loaded,artifactId,occurredAt⟩))) (fun error => fail (commitError error))

def flattenSignature (settings : TenantSettings) (documentId : Id) (input : FlattenInput) : TenantUseCase Unit := do
  let work ← onRows documentId (loadAuthorizedWork input)
  match work with
  | none => pure ()
  | some loaded =>
      if loaded.document.state = .finalized then persistMissingFinalArtifact settings documentId input loaded
      else do
        let now ← clock
        let leased ← attempt
          (onRows documentId (claimProcessingLease input loaded.document.version (now + settings.rows.leaseMs) now))
          (fun error => fail (leaseError error))
        when (leased.state = .finalizing) (perform (.rows documentId (.finalizationStarted input now)))
        attempt (drawAndCommit settings documentId input loaded leased)
          (fun error => onRows documentId (recordFailure input error))

def listKeys (keyPrefix : ObjectPrefix) (olderThan : Date) (t : Tenancy) : List ObjectKey :=
  (t.objects.filter (fun object => keyPrefix.covers object.key && object.storedAt ≤ olderThan)).map StoredObject.key

/-- For each key the reference check is one unit of work, and the removal a step of its own. -/
def cleanupKeys (settings : TenantSettings) : List ObjectKey → Nat → TenantUseCase Nat
  | [], deleted => pure deleted
  | key :: rest, deleted => do
      let referenced ← get (fun t _ => isReferenced settings.sha256Hex key t)
      if referenced then cleanupKeys settings rest deleted
      else do
        perform (.deleteObject key)
        cleanupKeys settings rest (deleted+1)

def cleanupPrefixes (settings : TenantSettings) (olderThan : Date) : List ObjectPrefix → Nat → TenantUseCase Nat
  | [], deleted => pure deleted
  | keyPrefix :: rest, deleted => do
      let keys ← get (fun t _ => listKeys keyPrefix olderThan t)
      let deleted ← cleanupKeys settings keys deleted
      cleanupPrefixes settings olderThan rest deleted

def cleanupOrphanedObjects (settings : TenantSettings) : TenantUseCase Nat := do
  let now ← clock
  cleanupPrefixes settings (now - settings.olderThanMs) settings.prefixes 0

inductive TenantRequest where
  | completeSourceUpload (documentId : Id) (input : CompleteSourceUploadInput)
  | completeSigning (documentId : Id) (input : CompleteSigningInput)
  | flattenSignature (documentId : Id) (input : FlattenInput)
  | cleanupOrphanedObjects

def startTenantRequest (settings : TenantSettings) : TenantRequest → TenantUseCase Unit
  | .completeSourceUpload documentId input => completeSourceUpload settings documentId input
  | .completeSigning documentId input => do
      let _ ← completeSigning settings documentId input
      pure ()
  | .flattenSignature documentId input => flattenSignature settings documentId input
  | .cleanupOrphanedObjects => do
      let _ ← cleanupOrphanedObjects settings
      pure ()

def tenant (settings : TenantSettings) :
    System Tenancy TenantWrite Input (Except AppError Unit) TenantRequest (Except AppError Unit) where
  exec := TenantWrite.exec
  admits := fun _ _ => true
  start := startTenantRequest settings

/-- The rows and objects of an organization and the requests under way. -/
abbrev TenantRunning := Config Tenancy TenantWrite Input (Except AppError Unit) (Except AppError Unit)

end ESign.Tenant
