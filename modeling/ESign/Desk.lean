import ESign.AccountGateway
import ESign.DisplayName
import ESign.StorePart
import ESign.TenantObjects

/-! What is shown of a document: previews of its revisions, the finalized artifact, and what a
signer is told in a session. The rows of the document are a part of the store, beside the
grants its previews are fetched with; whatever else is asked of the document goes on as
before. Object storage gives for a key whatever it likes, unless a theorem says otherwise. -/
namespace ESign.Desk
open StoreProgram StoreProgram.Fallible Accounts

structure PreviewGrant where
  id : Id
  revisionId : Id
  tokenHash : Id
  expiresAt : Date
  createdAt : Date
  deriving DecidableEq, Repr

structure Store where
  rows : Envelope
  grants : List PreviewGrant

structure StoredBytes where
  body : Pdf
  contentType : Text
  sha256Digest : Digest
  deriving DecidableEq, Repr

structure Input where
  rows : ESign.Input
  object : ObjectKey → Option StoredBytes

inductive Write where
  | rows (w : ESign.Write)
  | createGrant (grant : PreviewGrant)
  | append (event : NewAuditEvent)

/-- The unique indexes of the table of grants. -/
def insertGrant (grant : PreviewGrant) (d : Store) : Except AppError Store := do
  check (!d.grants.any (fun row => row.id = grant.id || row.tokenHash = grant.tokenHash)) databaseError
  pure { d with grants := d.grants ++ [grant] }

def appendEvent (event : NewAuditEvent) (d : Store) : Except AppError Store := do
  let rows ← Audit.append event d.rows
  pure { d with rows := rows }

/-- A statement that throws leaves everything as it was. -/
def attempted (result : Except AppError Store) (d : Store) (i : Input) : Store × Except AppError Unit :=
  match i.rows.failure with
  | some error => (d,.error error)
  | none => match result with
    | .ok d' => (d',.ok ())
    | .error error => (d,.error error)

def Write.exec (w : Write) (d : Store) (i : Input) : Store × Except AppError Unit :=
  match w with
  | .rows w => ({ d with rows := (w.exec d.rows i.rows).1 },(w.exec d.rows i.rows).2)
  | .createGrant grant => attempted (insertGrant grant d) d i
  | .append event => attempted (appendEvent event d) d i

/-- The document whose rows these are, and how its bytes are named. -/
structure Settings where
  rows : ESign.Settings
  organizationId : Id
  documentId : Id
  sourceDisplayName : Option JsText.Utf16
  previewTtlMs : Int
  sha256Hex : Pdf → Digest

abbrev DeskCase (α : Type) := Fallible Store Write Input AppError α

def inset : Inset Envelope Store ESign.Write Write ESign.Input Input := ⟨Store.rows,.rows,Input.rows⟩

/-- What a use case does with the rows of the document. -/
def onRows {α : Type} (p : UseCase α) : DeskCase α := Program.inside inset p

def clock : DeskCase Date := get (fun _ i => i.rows.now)

def nextId : DeskCase Id := get (fun _ i => i.rows.ids 0)

def generateRawToken : DeskCase Id := get (fun _ i => i.rows.tokens 0)

def external : DeskCase Unit := .read (fun _ i => .done (i.rows.failure.elim (.ok ()) .error))

def missingObject : AppError := .notFound [("resource","object")]

def getObject (key : ObjectKey) : DeskCase StoredBytes := do
  external
  let stored ← get (fun _ i => i.object key)
  lift (stored.elim (.error missingObject) .ok)

namespace PreviewGrants

def findByTokenHash (tokenHash : Id) (d : Store) : Option PreviewGrant :=
  d.grants.find? (fun row => row.tokenHash = tokenHash)

end PreviewGrants

structure PreviewView where
  grantId : Id
  expiresAt : Date
  tokenHash : Id
  deriving DecidableEq, Repr

structure ShownPreview where
  body : Pdf
  contentType : Text
  deriving DecidableEq, Repr

structure Download where
  body : Pdf
  displayName : JsText.Utf16
  sha256Digest : Digest
  deriving DecidableEq, Repr

section

variable (settings : Settings)

def documentNotFound : AppError := .notFound [("resource","document")]

/-- Another document, or one of another organization, is not found among these rows. -/
def findDocument (organizationId documentId : Id) (d : Store) : Option Document :=
  if organizationId = settings.organizationId ∧ documentId = settings.documentId then some d.rows.document else none

/-- The end of both use cases that issue a preview. -/
def issueGrant (revision : DocumentRevision) : DeskCase PreviewView := do
  let now ← clock
  let tokenHash ← generateRawToken
  let id ← nextId
  let grant : PreviewGrant := ⟨id,revision.id,tokenHash,now + settings.previewTtlMs,now⟩
  perform (.createGrant grant)
  pure ⟨grant.id,grant.expiresAt,grant.tokenHash⟩

def issueDocumentPreview (actor : AccountUserActor Id) (documentId : Id) : DeskCase PreviewView := do
  lift (assertAllowed (.accountUser actor) .documentRead ⟨actor.organizationId,some documentId,none⟩)
  let document ← find (findDocument settings actor.organizationId documentId) documentNotFound
  let revisionId ← lift (document.currentRevisionId.elim (.error documentNotFound) .ok)
  let revision ← find (fun d => Revisions.findById revisionId d.rows) (.notFound [("resource","revision")])
  issueGrant settings revision

def streamDocumentPreview (grantId tokenHash : Id) : DeskCase ShownPreview := do
  let found ← get (fun d _ => PreviewGrants.findByTokenHash tokenHash d)
  let grant ← lift (match found with
    | some grant => if grant.id = grantId then .ok grant else .error (.authentication [("reason","preview_token")])
    | none => .error (.authentication [("reason","preview_token")]))
  let now ← clock
  ensure (now < grant.expiresAt) (.authentication [("reason","preview_expired")])
  let revision ← find (fun d => Revisions.findById grant.revisionId d.rows) (.notFound [("resource","revision")])
  let stored ← getObject (Tenant.sourceRevisionObjectKey (settings.sha256Hex revision.body))
  pure ⟨stored.body,stored.contentType⟩

def downloadDisplayName : JsText.Utf16 :=
  let candidate := settings.sourceDisplayName.getD (utf16 "finalized.pdf")
  match sanitizeDisplayFilename candidate with
  | .ok name => name
  | .error _ => utf16 "finalized.pdf"

def downloadedEvent (actor : AccountUserActor Id) (artifact : FinalizedArtifact) (now : Date) : NewAuditEvent :=
  ⟨.artifactDownloaded,.accountUser,some actor.userId,now,
    [("artifactId",.id (some artifact.id)),("sha256Digest",.body artifact.body)]⟩

def downloadFinalizedArtifact (actor : AccountUserActor Id) (documentId : Id) : DeskCase Download := do
  lift (assertAllowed (.accountUser actor) .downloadArtifact ⟨actor.organizationId,some documentId,none⟩)
  let document ← find (findDocument settings actor.organizationId documentId) documentNotFound
  ensure (document.state = .finalized) (.conflict [("reason","artifact_not_ready")])
  let artifact ← find (fun d => d.rows.artifact) (.notFound [("resource","artifact")])
  let stored ← getObject (Tenant.artifactObjectKey (settings.sha256Hex artifact.body))
  let digest := settings.sha256Hex stored.body
  ensure (digest = settings.sha256Hex artifact.body ∧ digest = stored.sha256Digest)
    (.integrity [("reason","object_digest_mismatch"),("code","FINAL_OBJECT_INTEGRITY_FAILURE")])
  let now ← clock
  perform (.append (downloadedEvent actor artifact now))
  pure ⟨stored.body,downloadDisplayName settings,settings.sha256Hex artifact.body⟩

/-! What a signer is told. -/

structure SignerSessionView where
  documentId : Id
  signerId : Id
  sessionId : Id
  sessionStatus : SigningSessionStatus
  signingMode : SigningMode
  expiresAt : Date
  signerDisplayName : Text
  signerStatus : SignerStatus
  consented : Bool
  deriving DecidableEq, Repr

structure SignerDocumentView where
  documentId : Id
  signingMode : SigningMode
  pageCount : Option Nat
  signerDisplayName : Text
  deriving DecidableEq, Repr

structure SignerFieldView where
  fieldId : Id
  type : SignatureFieldType
  box : FieldBox
  required : Bool
  deriving DecidableEq, Repr

structure SignerConsentView where
  copyId : Id
  accepted : Bool
  deriving DecidableEq, Repr

/-- The first two steps of every query: the session is loaded, and its actor is asked for
what it is about. -/
def loadForQuery (tokenHash : Id) (accountUserId : Option Id) : DeskCase LoadedSignerSession := do
  let loaded ← onRows (loadSignerSession settings.rows ⟨tokenHash,true,false,accountUserId⟩)
  lift (assertAllowed
    (.signer settings.organizationId settings.documentId loaded.session.signerId loaded.session.id) .sessionAct
    ⟨settings.organizationId,some settings.documentId,some loaded.session.signerId⟩)
  pure loaded

def getSignerSession (tokenHash : Id) (accountUserId : Option Id) : DeskCase SignerSessionView := do
  let loaded ← loadForQuery settings tokenHash accountUserId
  let existing ← get (fun d _ => ConsentRecords.findBySession loaded.session.id d.rows)
  pure ⟨settings.documentId,loaded.signer.id,loaded.session.id,
    if loaded.session.status = .active then .active else .issued,loaded.document.signingMode,loaded.session.expiresAt,
    loaded.signer.displayName,loaded.signer.status,existing.isSome⟩

/-- The revision a signer is shown is the one the document was sent with. -/
def shownRevisionId (document : Document) : Option Id := document.signingRevisionId <|> document.currentRevisionId

def getSignerDocument (tokenHash : Id) (accountUserId : Option Id) : DeskCase SignerDocumentView := do
  let loaded ← loadForQuery settings tokenHash accountUserId
  let revision ← match shownRevisionId loaded.document with
    | none => pure none
    | some revisionId => get (fun d _ => Revisions.findById revisionId d.rows)
  pure ⟨settings.documentId,loaded.document.signingMode,revision.map DocumentRevision.pageCount,loaded.signer.displayName⟩

def fieldView (field : SignatureField) : SignerFieldView := ⟨field.id,field.type,field.box,field.required⟩

def getSignerFields (tokenHash : Id) (accountUserId : Option Id) : DeskCase (List SignerFieldView) := do
  let loaded ← loadForQuery settings tokenHash accountUserId
  let fields ← get (fun d _ => d.rows.fields)
  pure ((fields.filter (fun field => field.signerId = loaded.signer.id)).map fieldView)

def getSignerConsent (tokenHash : Id) (accountUserId : Option Id) : DeskCase SignerConsentView := do
  let loaded ← loadForQuery settings tokenHash accountUserId
  let existing ← get (fun d _ => ConsentRecords.findBySession loaded.session.id d.rows)
  pure ⟨settings.rows.currentDisclosure,existing.isSome⟩

def missingRevision : AppError := .conflict [("reason","missing_revision")]

def issueSignerPreview (tokenHash : Id) (accountUserId : Option Id) : DeskCase PreviewView := do
  let loaded ← loadForQuery settings tokenHash accountUserId
  let revisionId ← lift ((shownRevisionId loaded.document).elim (.error missingRevision) .ok)
  let revision ← find (fun d => Revisions.findById revisionId d.rows) missingRevision
  issueGrant settings revision

end

end ESign.Desk
