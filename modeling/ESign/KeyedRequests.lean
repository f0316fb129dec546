import ESign.Checkpoints
import ESign.Custody
import ESign.DisplayName
import ESign.PublicDocument
import ESign.UseCases

/-! The requests that carry an idempotency key, over the documents and the records of all
organizations. A record is looked for, created, and completed by three statements, and the unit
of work that the request is about is committed between the last two. -/
namespace ESign.Keyed
open JsText StoreProgram StoreProgram.Answering

structure IdempotencyRecord where
  id : Id
  organizationId : Id
  principalId : Id
  route : String
  key : Utf16
  requestHash : Utf16
  responseStatus : Option Nat
  responseBody : Option Json
  expiresAt : Date

/-- What `idempotency_records_org_principal_route_key_key` is over. -/
structure RecordKey where
  organizationId : Id
  principalId : Id
  route : String
  key : Utf16
  deriving DecidableEq

def IdempotencyRecord.unique (record : IdempotencyRecord) : RecordKey :=
  ⟨record.organizationId,record.principalId,record.route,record.key⟩

/-- A document with the two columns that only the responses show. -/
structure StoredDocument where
  organizationId : Id
  id : Utf16
  title : Utf16
  sourceDisplayName : Option Utf16
  envelope : Envelope

structure Office where
  documents : List StoredDocument
  records : List IdempotencyRecord

/-- `rows` is whatever else is written to a document, by requests and jobs of other kinds. -/
inductive OfficeWrite where
  | createRecord (record : IdempotencyRecord)
  | completeRecord (organizationId recordId : Id) (responseStatus : Nat) (responseBody : Json)
  | createDraft (document : StoredDocument)
  | send (organizationId : Id) (documentId : Utf16) (u : SendUnit)
  | void (organizationId : Id) (documentId : Utf16) (u : VoidUnit)
  | rows (organizationId : Id) (documentId : Utf16) (w : Write)

def recordNotFound : AppError := .notFound [("resource","idempotency_record")]

def uniqueConstraint : AppError := .unknown "unique_constraint"

namespace Office

def findRecord (unique : RecordKey) (s : Office) : Option IdempotencyRecord :=
  s.records.find? (fun record => record.unique = unique)

def createRecord (record : IdempotencyRecord) (s : Office) : Except AppError Office := do
  check (s.records.all (fun row => row.unique ≠ record.unique && row.id ≠ record.id)) uniqueConstraint
  .ok { s with records := s.records ++ [record] }

def isRecord (organizationId recordId : Id) (record : IdempotencyRecord) : Bool :=
  record.id = recordId ∧ record.organizationId = organizationId

def completeRecord (organizationId recordId : Id) (responseStatus : Nat) (responseBody : Json) (s : Office) :
    Except AppError Office := do
  check (s.records.any (isRecord organizationId recordId)) recordNotFound
  .ok { s with records := updateMany (isRecord organizationId recordId) (fun record =>
    { record with responseStatus := some responseStatus, responseBody := some responseBody }) s.records }

def isDocument (organizationId : Id) (documentId : Utf16) (row : StoredDocument) : Bool :=
  row.organizationId = organizationId ∧ row.id = documentId

def findDocument (organizationId : Id) (documentId : Utf16) (s : Office) : Option StoredDocument :=
  s.documents.find? (isDocument organizationId documentId)

def createDocument (document : StoredDocument) (s : Office) : Except AppError Office := do
  check (s.documents.all (fun row => row.id ≠ document.id)) uniqueConstraint
  .ok { s with documents := s.documents ++ [document] }

/-- A unit of work on the rows of a document, and the row of the document after it. -/
def change (organizationId : Id) (documentId : Utf16) (unit : Envelope → Except AppError Envelope) (s : Office) :
    Except AppError (Option Document × Office) :=
  match findDocument organizationId documentId s with
  | none => .error documentVersion
  | some row => do
      let envelope ← unit row.envelope
      let documents :=
        updateMany (isDocument organizationId documentId) (fun row => { row with envelope := envelope }) s.documents
      .ok (some envelope.document,{ s with documents := documents })

end Office

def OfficeWrite.run (i : Input) (s : Office) : OfficeWrite → Except AppError (Option Document × Office)
  | .createRecord record => (none,·) <$> s.createRecord record
  | .completeRecord organizationId recordId responseStatus responseBody =>
      (none,·) <$> s.completeRecord organizationId recordId responseStatus responseBody
  | .createDraft document => (none,·) <$> s.createDocument document
  | .send organizationId documentId u => s.change organizationId documentId (u.run i)
  | .void organizationId documentId u => s.change organizationId documentId u.run
  | .rows organizationId documentId w => s.change organizationId documentId (w.run i)

/-- A write that throws leaves every row as it was. -/
def OfficeWrite.exec (w : OfficeWrite) (s : Office) (i : Input) : Office × Except AppError (Option Document) :=
  match i.failure with
  | some error => (s,.error error)
  | none => match w.run i s with
    | .ok (document,s') => (s',.ok document)
    | .error error => (s,.error error)

abbrev OfficeUseCase (α : Type) := Answering Office OfficeWrite Input AppError (Option Document) α

/-- `parseDate` is `new Date(text)`, `none` for an invalid one. -/
structure OfficeSettings where
  rows : Settings
  columns : Columns
  sha256Hex : Utf16 → Utf16
  parseDate : Utf16 → Option Date
  maxUploadBytes : Nat
  uploadTtlMs : Int
  uploadTokenHeader : Utf16

def clock : OfficeUseCase Date := get (fun _ i => i.now)

def external : OfficeUseCase Unit := .read (fun _ i => .done (i.failure.elim (.ok ()) .error))

/-- A unit of work that returns the row it has changed. -/
def changed (w : OfficeWrite) : OfficeUseCase Document := do
  let document ← perform w
  lift (document.elim (.error documentVersion) .ok)

def createDocumentRoute : String := "POST /organizations/:organizationId/documents"
def sendDocumentRoute : String := "POST /organizations/:organizationId/documents/:documentId/send"
def voidDocumentRoute : String := "POST /organizations/:organizationId/documents/:documentId/void"

def requireIdempotencyKey (value : Option Utf16) : Except AppError Utf16 := do
  let key := JsText.trim (value.getD [])
  check (8 ≤ key.length ∧ key.length ≤ 128) (.validation [("field","Idempotency-Key"),("reason","invalid")])
  .ok key

def stableJson (members : List (Utf16 × Json)) : Utf16 := (Json.object (sortKeys members)).stringify

/-- What a request is known by: the key it carries and what it asks for. -/
structure IdempotencyInput where
  unique : RecordKey
  request : List (Utf16 × Json)

def IdempotencyInput.requestHash (settings : OfficeSettings) (input : IdempotencyInput) : Utf16 :=
  settings.sha256Hex (stableJson input.request)

inductive BegunIdempotency where
  | replay (record : IdempotencyRecord)
  | record (record : IdempotencyRecord)

def newRecord (settings : OfficeSettings) (input : IdempotencyInput) (id : Id) (now : Date) : IdempotencyRecord where
  id := id
  organizationId := input.unique.organizationId
  principalId := input.unique.principalId
  route := input.unique.route
  key := input.unique.key
  requestHash := input.requestHash settings
  responseStatus := none
  responseBody := none
  expiresAt := now+settings.rows.idempotencyTtlMs

def replayOrBeginIdempotency (settings : OfficeSettings) (input : IdempotencyInput) (now : Date) (reuseInProgress : Bool) :
    OfficeUseCase BegunIdempotency := do
  let existing ← get (fun s _ => s.findRecord input.unique)
  match existing with
  | some record => do
      ensure (record.requestHash = input.requestHash settings) (.conflict [("reason","idempotency_replay")])
      if record.responseBody.isSome && record.responseStatus.isSome then pure (.replay record)
      else do
        ensure reuseInProgress (.conflict [("reason","idempotency_in_progress")])
        pure (.record record)
  | none => do
      let id ← get (fun _ i => i.ids 0)
      let record := newRecord settings input id now
      let _ ← perform (.createRecord record)
      pure (.record record)

structure CreateDraftDocumentInput where
  organizationId : Id
  userId : Id
  title : Utf16
  filename : Utf16
  idempotencyKey : Option Utf16

/-- The rows of a new document, with what the responses show of it. -/
def draftOf (settings : OfficeSettings) (input : CreateDraftDocumentInput) (title displayName : Utf16) (now : Date)
    (documentId uploadSessionId tokenHash : Id) : StoredDocument where
  organizationId := input.organizationId
  id := settings.columns.idText documentId
  title := title
  sourceDisplayName := some displayName
  envelope := ESign.createDraftDocument ⟨uploadSessionId,tokenHash,now+settings.uploadTtlMs,input.userId,now⟩

def createdResult (settings : OfficeSettings) (draft : StoredDocument) (expiresAt : Date) (token : Id) :
    CreateDraftDocumentResult where
  document := toPublicDocument settings.columns draft.id draft.title draft.sourceDisplayName draft.envelope.document none [] []
  upload :=
    { url := utf16 "/organizations/" ++ settings.columns.idText draft.organizationId ++ utf16 "/documents/" ++ draft.id ++
        utf16 "/source"
      expiresAt := isoString expiresAt
      maxBytes := some (.ofInt settings.maxUploadBytes)
      contentType := pdfContentType
      tokenHeader := settings.uploadTokenHeader
      token := some token }

def createRequest (title filename : Utf16) : List (Utf16 × Json) :=
  [(utf16 "title",.string title),(utf16 "filename",.string filename)]

/-- The part of `createDraftDocument` that follows the idempotency record. -/
def commitDraft (settings : OfficeSettings) (input : CreateDraftDocumentInput) (title displayName : Utf16) (recordId : Id) :
    OfficeUseCase CreateDraftDocumentResult := do
  let now ← clock
  let ids ← get (fun _ i => (i.ids 0,i.ids 1))
  let token ← get (fun _ i => i.tokens 0)
  let draft := draftOf settings input title displayName now ids.1 ids.2 token
  let _ ← perform (.createDraft draft)
  let result := createdResult settings draft (now+settings.uploadTtlMs) token
  let _ ← perform (.completeRecord input.organizationId recordId 201 result.stored)
  pure result

def createDraftDocument (settings : OfficeSettings) (input : CreateDraftDocumentInput) :
    OfficeUseCase CreateDraftDocumentResult := do
  let key ← lift (requireIdempotencyKey input.idempotencyKey)
  let displayName ← lift (sanitizeDisplayFilename input.filename)
  let title := JsText.trim input.title
  ensure (1 ≤ title.length ∧ title.length ≤ 200) (.validation [("field","title"),("reason","invalid")])
  let begunAt ← clock
  let begun ← replayOrBeginIdempotency settings
    ⟨⟨input.organizationId,input.userId,createDocumentRoute,key⟩,createRequest title input.filename⟩ begunAt false
  match begun with
  | .replay record => lift (replayCreateResponse settings.columns settings.uploadTokenHeader record.responseBody)
  | .record record => commitDraft settings input title displayName record.id

def requireOpaqueId (value : Utf16) (field : String) : Except AppError Unit := do
  check (JsText.trim value ≠ []) (.validation [("field",field),("reason","missing")])
  check (isOpaqueId value) (.validation [("field",field),("reason","invalid")])

def documentNotFound : AppError := .notFound [("resource","document")]

def findById (organizationId : Id) (documentId : Utf16) : OfficeUseCase StoredDocument := do
  lift (requireOpaqueId documentId "documentId")
  find (Office.findDocument organizationId documentId) documentNotFound

/-- What a repository reads of the rows of a document. -/
def readRows {α : Type} (organizationId : Id) (documentId : Utf16) (none' : α) (f : Envelope → α) : OfficeUseCase α :=
  get (fun s _ => (s.findDocument organizationId documentId).elim none' (fun row => f row.envelope))

def parseExpiresAt (settings : OfficeSettings) (value : Option Utf16) (now : Date) : Except AppError (Option Date) :=
  match value with
  | none => .ok none
  | some [] => .ok none
  | some text => do
      check ((settings.parseDate text).any (fun expiresAt => now < expiresAt))
        (.validation [("field","expiresAt"),("reason","not_in_future")])
      .ok (settings.parseDate text)

/-- An `expiresAt` that is absent is one that is `null`. -/
structure SendDocumentInput where
  organizationId : Id
  userId : Id
  documentId : Utf16
  expiresAt : Option Utf16
  idempotencyKey : Option Utf16

def sendRequest (documentId : Utf16) (expiresAt : Option Utf16) : List (Utf16 × Json) :=
  [(utf16 "documentId",.string documentId),(utf16 "expiresAt",textOrNull expiresAt)]

def invitationOf (settings : OfficeSettings) (session : SigningSession) : Invitation where
  signerId := settings.columns.idText session.signerId
  sessionId := settings.columns.idText session.id
  expiresAt := isoString session.expiresAt
  token := some session.tokenHash

def notifyAll : List SigningSession → OfficeUseCase Unit
  | [] => pure ()
  | _ :: rest => do
      external
      notifyAll rest

def sentResult (settings : OfficeSettings) (found : StoredDocument) (sent : Document) (revision : DocumentRevision)
    (signers : List Signer) (fields : List SignatureField) (issued : List SigningSession) : SendDocumentResult where
  document := toPublicDocument settings.columns found.id found.title found.sourceDisplayName sent (some revision) signers fields
  invitations := issued.map (invitationOf settings)

/-- The part of `sendDocument` that follows the idempotency record. -/
def commitSend (settings : OfficeSettings) (input : SendDocumentInput) (recordId : Id) : OfficeUseCase SendDocumentResult := do
  let found ← findById input.organizationId input.documentId
  let document := found.envelope.document
  lift (assertReadyToSend document)
  let current ← readRows input.organizationId input.documentId none (loadRevision document)
  let revision ← lift (current.elim (.error (.validation [("reason","missing_revision")])) .ok)
  let signers ← readRows input.organizationId input.documentId [] Signers.listByDocument
  let fields ← readRows input.organizationId input.documentId [] Envelope.fields
  ensure (envelopeIsPrepared document signers fields) (.validation [("reason","envelope_incomplete")])
  let now ← clock
  let expiresAt ← lift (parseExpiresAt settings input.expiresAt now)
  let issued ← get (fun _ i => issueSessions settings.rows now i signers)
  let sent ← changed (.send input.organizationId input.documentId ⟨document,revision.id,issued,expiresAt,input.userId,now⟩)
  notifyAll issued
  let result := sentResult settings found sent revision signers fields issued
  let _ ← perform (.completeRecord input.organizationId recordId 200 result.stored)
  pure result

def sendDocument (settings : OfficeSettings) (input : SendDocumentInput) : OfficeUseCase SendDocumentResult := do
  let key ← lift (requireIdempotencyKey input.idempotencyKey)
  let begunAt ← clock
  let begun ← replayOrBeginIdempotency settings
    ⟨⟨input.organizationId,input.userId,sendDocumentRoute,key⟩,sendRequest input.documentId input.expiresAt⟩ begunAt false
  match begun with
  | .replay record => lift (replaySendResponse record.responseBody)
  | .record record => commitSend settings input record.id

structure VoidDocumentInput where
  organizationId : Id
  userId : Id
  documentId : Utf16
  idempotencyKey : Option Utf16

def voidRequest (documentId : Utf16) : List (Utf16 × Json) := [(utf16 "documentId",.string documentId)]

/-- The part of `voidDocument` that follows the idempotency record. -/
def commitVoid (settings : OfficeSettings) (input : VoidDocumentInput) (recordId : Id) : OfficeUseCase PublicDocument := do
  let found ← findById input.organizationId input.documentId
  let document := found.envelope.document
  lift (assertDocumentTransition document.state .voided)
  let now ← clock
  let voided ← changed (.void input.organizationId input.documentId ⟨document,input.userId,now⟩)
  let revision ← readRows input.organizationId input.documentId none (loadRevision voided)
  let signers ← readRows input.organizationId input.documentId [] Signers.listByDocument
  let fields ← readRows input.organizationId input.documentId [] Envelope.fields
  let body := toPublicDocument settings.columns found.id found.title found.sourceDisplayName voided revision signers fields
  let _ ← perform (.completeRecord input.organizationId recordId 200 body.stored)
  pure body

def voidDocument (settings : OfficeSettings) (input : VoidDocumentInput) : OfficeUseCase PublicDocument := do
  let key ← lift (requireIdempotencyKey input.idempotencyKey)
  let begunAt ← clock
  let begun ← replayOrBeginIdempotency settings
    ⟨⟨input.organizationId,input.userId,voidDocumentRoute,key⟩,voidRequest input.documentId⟩ begunAt false
  match begun with
  | .replay record => lift (replayVoidResponse settings.columns record.responseBody)
  | .record record => commitVoid settings input record.id

/-- What is asked of the office. Everything but the three requests with a key is seen
through what it writes, one write at a time. -/
inductive OfficeRequest where
  | createDraftDocument (input : CreateDraftDocumentInput)
  | sendDocument (input : SendDocumentInput)
  | voidDocument (input : VoidDocumentInput)
  | rows (organizationId : Id) (documentId : Utf16) (w : Write)

inductive OfficeResponse where
  | created (result : CreateDraftDocumentResult)
  | sent (result : SendDocumentResult)
  | voided (result : PublicDocument)
  | written

def startOffice (settings : OfficeSettings) : OfficeRequest → OfficeUseCase OfficeResponse
  | .createDraftDocument input => do pure (.created (← createDraftDocument settings input))
  | .sendDocument input => do pure (.sent (← sendDocument settings input))
  | .voidDocument input => do pure (.voided (← voidDocument settings input))
  | .rows organizationId documentId w => do
      let _ ← perform (.rows organizationId documentId w)
      pure .written

def office (settings : OfficeSettings) := attributed OfficeWrite.exec (startOffice settings)

end ESign.Keyed
