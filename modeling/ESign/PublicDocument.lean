import ESign.AuditPayload
import ESign.PdfStructure
import ESign.UnitsOfWork

/-! The document as a response shows it, as JSON in the row of the response that is kept for
a replay, and as the replay reads it back. A replay trusts the JSON: most members are handed
on as they are found, and only the one of a voided document is checked against a schema. -/
namespace ESign
open JsText

/-- A member of an object; `none` is `undefined`. -/
def Json.get (key : String) : Json → Option Json
  | .object members => (members.find? (fun entry => entry.1 = utf16 key)).map Prod.snd
  | _ => none

namespace Json

mutual

/-- `String(value)`. -/
def toText : Json → Utf16
  | .null => utf16 "null"
  | .bool true => utf16 "true"
  | .bool false => utf16 "false"
  | .number value => value.text
  | .string value => value
  | .array items => joined items
  | .object _ => utf16 "[object Object]"

/-- `items.join(',')`, to which `null` is the empty text. -/
def joined : List Json → Utf16
  | [] => []
  | [item] => (match item with
      | .null => []
      | _ => toText item)
  | item :: rest => (match item with
      | .null => []
      | _ => toText item) ++ 44 :: joined rest

end

end Json

def stringOf (value : Option Json) : Utf16 := value.elim (utf16 "undefined") Json.toText

/-- `value ?? other`. -/
def coalesce (value : Option Json) (other : Json) : Json :=
  match value with
  | none => other
  | some .null => other
  | some value => value

/-- `Boolean(value)`. -/
def truthy : Option Json → Bool
  | none => false
  | some .null => false
  | some (.bool value) => value
  | some (.number value) => value ≠ .zero
  | some (.string value) => value ≠ []
  | some (.array _) => true
  | some (.object _) => true

/-- `Number(value)`; `none` is `NaN`, and `parse` reads a text. -/
def numberOf (parse : Utf16 → Option JsNumber) : Json → Option JsNumber
  | .null => some .zero
  | .bool true => some (.ofNat false 1)
  | .bool false => some .zero
  | .number value => some value
  | value => parse value.toText

/-- A character outside the basic plane is a pair of surrogates. -/
def encode (text : Text) : Utf16 :=
  text.flatMap (fun c =>
    if c.toNat < 0x10000 then [UInt16.ofNat c.toNat]
    else [UInt16.ofNat (0xD800+(c.toNat-0x10000)/0x400),UInt16.ofNat (0xDC00+(c.toNat-0x10000)%0x400)])

/-- What the rows of a document hold in another form than the responses: ids are numbered
and bodies are seen through what was drawn on them. `parseNumber`, `uuid` and `email` are
the conversion and the two formats that a response is read with. -/
structure Columns where
  idText : Id → Utf16
  sizeBytes : Pdf → Nat
  sha256Digest : Pdf → Utf16
  revisionDisplayName : Id → Utf16
  coordinate : Rat → JsNumber
  parseNumber : Utf16 → Option JsNumber
  uuid : Utf16 → Bool
  email : Utf16 → Bool

/-- Members that a replay does not convert are JSON still. -/
structure PublicDocument where
  documentId : Utf16
  title : Utf16
  state : Option Json
  signingMode : Option Json
  inspectionStatus : Option Json
  displayName : Option Utf16
  availableForSigning : Bool
  currentRevision : Json
  signers : Json
  fields : Json

def SigningMode.text : SigningMode → String
  | .ordered => "ordered"
  | .parallel => "parallel"

def DocumentInspectionStatus.text : DocumentInspectionStatus → String
  | .pending => "pending"
  | .accepted => "accepted"
  | .rejected => "rejected"

def SignerStatus.text : SignerStatus → String
  | .pending => "pending"
  | .signed => "signed"
  | .declined => "declined"

def SignatureFieldType.text : SignatureFieldType → String
  | .signature => "signature"
  | .initials => "initials"
  | .dateSigned => "date_signed"
  | .signerName => "signer_name"

def literal (text : String) : Json := .string (utf16 text)

def isText (text : String) : Option Json → Bool
  | some (.string value) => value = utf16 text
  | _ => false

def textOrNull (value : Option Utf16) : Json := value.elim .null .string

section
variable (columns : Columns)

def toPublicRevision (revision : DocumentRevision) : Json :=
  .object [(utf16 "revisionId",.string (columns.idText revision.id)),(utf16 "contentType",.string pdfContentType),
    (utf16 "sizeBytes",.number (.ofInt (columns.sizeBytes revision.body))),
    (utf16 "sha256Digest",.string (columns.sha256Digest revision.body)),
    (utf16 "displayName",.string (columns.revisionDisplayName revision.id)),
    (utf16 "pageCount",.number (.ofInt revision.pageCount))]

def toPublicSigner (signer : Signer) : Json :=
  .object [(utf16 "signerId",.string (columns.idText signer.id)),(utf16 "email",.string (encode signer.email)),
    (utf16 "displayName",.string (encode signer.displayName)),(utf16 "routingOrder",.number (.ofInt signer.routingOrder)),
    (utf16 "status",literal signer.status.text)]

def toPublicSignatureField (field : SignatureField) : Json :=
  .object [(utf16 "fieldId",.string (columns.idText field.id)),(utf16 "signerId",.string (columns.idText field.signerId)),
    (utf16 "type",literal field.type.text),(utf16 "pageNumber",.number (.ofInt field.box.pageNumber)),
    (utf16 "x",.number (columns.coordinate field.box.x)),(utf16 "y",.number (columns.coordinate field.box.y)),
    (utf16 "width",.number (columns.coordinate field.box.width)),
    (utf16 "height",.number (columns.coordinate field.box.height)),(utf16 "required",.bool field.required)]

def toPublicDocument (documentId title : Utf16) (sourceDisplayName : Option Utf16) (document : Document)
    (revision : Option DocumentRevision) (signers : List Signer) (fields : List SignatureField) : PublicDocument where
  documentId := documentId
  title := title
  state := some (literal document.state.name)
  signingMode := some (literal document.signingMode.text)
  inspectionStatus := some (literal document.inspectionStatus.text)
  displayName := sourceDisplayName
  availableForSigning := isAvailableForSigning document
  currentRevision := revision.elim .null (toPublicRevision columns)
  signers := .array (signers.map (toPublicSigner columns))
  fields := .array (fields.map (toPublicSignatureField columns))

end

/-- A member that is `undefined` is not written. -/
def optional (key : String) (value : Option Json) : List (Utf16 × Json) :=
  (value.map (fun value => (utf16 key,value))).toList

def PublicDocument.members (d : PublicDocument) : List (Utf16 × Json) :=
  (utf16 "documentId",.string d.documentId) :: (utf16 "title",.string d.title) ::
    (optional "state" d.state ++ (optional "signingMode" d.signingMode ++ (optional "inspectionStatus" d.inspectionStatus ++
      [(utf16 "displayName",textOrNull d.displayName),
        (utf16 "availableForSigning",.bool d.availableForSigning),(utf16 "currentRevision",d.currentRevision),
        (utf16 "signers",d.signers),(utf16 "fields",d.fields)])))

/-- `maxBytes` is `none` when it is `NaN`. A raw token is named by its hash. -/
structure Upload where
  url : Utf16
  expiresAt : Utf16
  maxBytes : Option JsNumber
  contentType : Utf16
  tokenHeader : Utf16
  token : Option Id

structure CreateDraftDocumentResult where
  document : PublicDocument
  upload : Upload

structure Invitation where
  signerId : Utf16
  sessionId : Utf16
  expiresAt : Utf16
  token : Option Id

structure SendDocumentResult where
  document : PublicDocument
  invitations : List Invitation

/-- What is kept of a response: everything but the tokens. -/
def CreateDraftDocumentResult.stored (r : CreateDraftDocumentResult) : Json :=
  .object (r.document.members ++
    [(utf16 "upload",.object [(utf16 "url",.string r.upload.url),(utf16 "method",literal "PUT"),
      (utf16 "expiresAt",.string r.upload.expiresAt),(utf16 "maxBytes",r.upload.maxBytes.elim .null .number),
      (utf16 "contentType",.string r.upload.contentType),(utf16 "tokenHeader",.string r.upload.tokenHeader)])])

def Invitation.stored (invitation : Invitation) : Json :=
  .object [(utf16 "signerId",.string invitation.signerId),(utf16 "sessionId",.string invitation.sessionId),
    (utf16 "expiresAt",.string invitation.expiresAt)]

def SendDocumentResult.stored (r : SendDocumentResult) : Json :=
  .object (r.document.members ++ [(utf16 "invitations",.array (r.invitations.map Invitation.stored))])

def PublicDocument.stored (d : PublicDocument) : Json := .object d.members

def CreateDraftDocumentResult.withoutToken (r : CreateDraftDocumentResult) : CreateDraftDocumentResult :=
  { r with upload := { r.upload with token := none } }

def Invitation.withoutToken (invitation : Invitation) : Invitation := { invitation with token := none }

def SendDocumentResult.withoutTokens (r : SendDocumentResult) : SendDocumentResult :=
  { r with invitations := r.invitations.map Invitation.withoutToken }

namespace Keyed

def missingBody : AppError := .integrity [("reason","idempotency_replay_missing_body")]

/-- `displayName` is compared with `null`, and is a text otherwise. -/
def displayNameOf (body : Json) : Option Utf16 :=
  match body.get "displayName" with
  | some .null => none
  | value => some (stringOf value)

def replayCreateResponse (columns : Columns) (uploadTokenHeader : Utf16) :
    Option Json → Except AppError CreateDraftDocumentResult
  | none => .error missingBody
  | some body =>
      let upload := (body.get "upload").getD .null
      .ok
        { document :=
            { documentId := stringOf (body.get "documentId")
              title := stringOf (body.get "title")
              state := body.get "state"
              inspectionStatus := body.get "inspectionStatus"
              signingMode := some (coalesce (body.get "signingMode") (literal "ordered"))
              displayName := displayNameOf body
              availableForSigning := truthy (body.get "availableForSigning")
              currentRevision := coalesce (body.get "currentRevision") .null
              signers := coalesce (body.get "signers") (.array [])
              fields := coalesce (body.get "fields") (.array []) }
          upload :=
            { url := (coalesce (upload.get "url") (.string [])).toText
              expiresAt := (coalesce (upload.get "expiresAt") (.string [])).toText
              maxBytes := numberOf columns.parseNumber (coalesce (upload.get "maxBytes") (.number .zero))
              contentType := (coalesce (upload.get "contentType") (.string pdfContentType)).toText
              tokenHeader := (coalesce (upload.get "tokenHeader") (.string uploadTokenHeader)).toText
              token := none } }

def replayInvitation (item : Json) : Invitation where
  signerId := stringOf (item.get "signerId")
  sessionId := stringOf (item.get "sessionId")
  expiresAt := stringOf (item.get "expiresAt")
  token := none

def replaySendResponse : Option Json → Except AppError SendDocumentResult
  | none => .error missingBody
  | some body =>
      let invitations := match body.get "invitations" with
        | some (.array items) => items
        | _ => []
      .ok
        { document :=
            { documentId := stringOf (body.get "documentId")
              title := stringOf (body.get "title")
              state := body.get "state"
              signingMode := body.get "signingMode"
              inspectionStatus := body.get "inspectionStatus"
              displayName := displayNameOf body
              availableForSigning := truthy (body.get "availableForSigning")
              currentRevision := coalesce (body.get "currentRevision") .null
              signers := coalesce (body.get "signers") (.array [])
              fields := coalesce (body.get "fields") (.array []) }
          invitations := invitations.map replayInvitation }

end Keyed

/-- The schemas that `publicDocumentSchema` is made of. `strict` admits no other member. -/
inductive Schema where
  | string (accepts : Utf16 → Bool)
  | number (accepts : JsNumber → Bool)
  | boolean
  | nullable (inner : Schema)
  | array (items : Schema)
  | strict (members : List (String × Schema))

namespace Schema

mutual

def accepts : Schema → Json → Bool
  | .string p, .string value => p value
  | .number p, .number value => p value
  | .boolean, .bool _ => true
  | .nullable _, .null => true
  | .nullable inner, value => accepts inner value
  | .array items, .array values => values.all (fun value => accepts items value)
  | .strict members, .object entries =>
      acceptsMembers members (.object entries) && entries.all (fun entry => members.any (fun m => utf16 m.1 = entry.1))
  | _, _ => false

def acceptsMembers : List (String × Schema) → Json → Bool
  | [], _ => true
  | (key,schema) :: rest, value => (value.get key).any (fun value => accepts schema value) && acceptsMembers rest value

end

def nonEmpty : Schema := .string (fun value => value ≠ [])

def oneOf (texts : List String) : Schema := .string (fun value => texts.any (fun text => utf16 text = value))

def positiveInt : Schema := .number (fun value => value.toInt?.any (fun n => 0 < n))

end Schema

def isSha256Text (text : Utf16) : Bool :=
  text.length = 64 && text.all (fun u => isDigit u || (97 ≤ u.toNat && u.toNat ≤ 102))

section
variable (columns : Columns)

def publicDocumentRevisionSchema : Schema :=
  .strict [("revisionId",.string columns.uuid),("contentType",.string (fun value => value = pdfContentType)),
    ("sizeBytes",.positiveInt),("sha256Digest",.string isSha256Text),("displayName",.nonEmpty),("pageCount",.positiveInt)]

def publicSignerSchema : Schema :=
  .strict [("signerId",.string columns.uuid),("email",.nullable (.string columns.email)),("displayName",.nonEmpty),
    ("routingOrder",.positiveInt),("status",.oneOf ["pending","signed","declined"])]

def publicSignatureFieldSchema : Schema :=
  .strict [("fieldId",.string columns.uuid),("signerId",.string columns.uuid),
    ("type",.oneOf ["signature","initials","date_signed","signer_name"]),("pageNumber",.positiveInt),
    ("x",.number (fun _ => true)),("y",.number (fun _ => true)),("width",.number (fun _ => true)),
    ("height",.number (fun _ => true)),("required",.boolean)]

def publicDocumentSchema : Schema :=
  .strict [("documentId",.string columns.uuid),("title",.nonEmpty),("state",.nonEmpty),
    ("signingMode",.oneOf ["ordered","parallel"]),("inspectionStatus",.oneOf ["pending","accepted","rejected"]),
    ("displayName",.nullable (.string (fun _ => true))),("availableForSigning",.boolean),
    ("currentRevision",.nullable (publicDocumentRevisionSchema columns)),("signers",.array (publicSignerSchema columns)),
    ("fields",.array (publicSignatureFieldSchema columns))]

namespace Keyed

/-- The parsed members are those of the body. -/
def voidedResponse (body : Json) : PublicDocument where
  documentId := stringOf (body.get "documentId")
  title := stringOf (body.get "title")
  state := some (literal "voided")
  signingMode := body.get "signingMode"
  inspectionStatus := body.get "inspectionStatus"
  displayName := displayNameOf body
  availableForSigning := truthy (body.get "availableForSigning")
  currentRevision := coalesce (body.get "currentRevision") .null
  signers := coalesce (body.get "signers") (.array [])
  fields := coalesce (body.get "fields") (.array [])

def replayVoidResponse : Option Json → Except AppError PublicDocument
  | none => .error missingBody
  | some body => do
      check ((publicDocumentSchema columns).accepts body) missingBody
      check (isText "voided" (body.get "state")) (.conflict [("reason","document_not_voidable")])
      .ok (voidedResponse body)

end Keyed

end

/-! A replay of what was kept is the response without its tokens. -/

section
variable (columns : Columns) (documentId title : Utf16) (sourceDisplayName : Option Utf16) (document : Document)
  (revision : Option DocumentRevision) (signers : List Signer) (fields : List SignatureField)

theorem replayedCreate (url expiresAt contentType tokenHeader header : Utf16) (maxBytes : JsNumber) (token : Option Id) :
    let r : CreateDraftDocumentResult := ⟨toPublicDocument columns documentId title sourceDisplayName document revision
      signers fields,⟨url,expiresAt,some maxBytes,contentType,tokenHeader,token⟩⟩
    Keyed.replayCreateResponse columns header (some r.stored) = .ok r.withoutToken := by
  cases sourceDisplayName <;> cases revision <;> rfl

theorem invitationsReplayed (invitations : List Invitation) :
    (invitations.map Invitation.stored).map Keyed.replayInvitation = invitations.map Invitation.withoutToken := by
  rw [List.map_map]
  rfl

theorem replayedSend (invitations : List Invitation) :
    let r : SendDocumentResult := ⟨toPublicDocument columns documentId title sourceDisplayName document revision signers
      fields,invitations⟩
    Keyed.replaySendResponse (some r.stored) = .ok r.withoutTokens := by
  have rebuilt := invitationsReplayed invitations
  cases sourceDisplayName <;> cases revision <;>
    exact congrArg (fun rows => Except.ok (SendDocumentResult.mk _ rows)) rebuilt

theorem replayedVoid (voided : document.state = .voided) :
    let d := toPublicDocument columns documentId title sourceDisplayName document revision signers fields
    Keyed.replayVoidResponse columns (some d.stored) =
      if (publicDocumentSchema columns).accepts d.stored then .ok d else .error Keyed.missingBody := by
  intro d
  have state : isText "voided" (d.stored.get "state") = true := by
    simp only [d,toPublicDocument,voided]
    rfl
  have same : Keyed.voidedResponse d.stored = d := by
    simp only [d,toPublicDocument,voided]
    cases sourceDisplayName <;> cases revision <;> rfl
  simp only [Keyed.replayVoidResponse,state,same]
  cases (publicDocumentSchema columns).accepts d.stored <;> rfl

end

end ESign
