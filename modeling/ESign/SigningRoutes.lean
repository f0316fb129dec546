import ESign.Desk

/-! The routes under `/signing`, with the middleware in front of them, and the system all
requests about a document make up. A signer is known by a raw token, in a cookie or as a bearer
token; a route that is a POST asks for an allowed origin and for the CSRF token of the session
besides. The exchange takes the token of the invitation, never from the query. -/
namespace ESign.Desk
open StoreProgram StoreProgram.Fallible Accounts

/-- What the middleware and the handlers read of a request. -/
structure SignerHead where
  method : HttpMethod
  origin : Option Text
  referer : Option Text
  sessionCookie : Option Text
  authorization : Option Text
  csrfCookie : Option Text
  csrfHeader : Option Text
  clientIp : Option Text
  userAgent : Option Text
  idempotencyKey : Option Id

/-- The browser side of the settings: `hash` is the SHA-256 of a token, the others as for accounts. -/
structure RouteSettings where
  desk : Settings
  browser : Accounts.Settings

def signingTokenRejected : AppError := .authentication [("reason","signing_token")]

def bearerPrefix : Text := "bearer ".toList

/-! Untrusted metadata of a request. -/

def stripControls (value : Text) : Text := value.filter (fun c => 32 ≤ c.toNat ∧ c.toNat ≠ 127)

def sanitize (value : Option Text) (maxLength : Nat) : Option Text :=
  value.bind (fun value =>
    let cleaned := trim (stripControls value)
    if cleaned = [] then none else some (sliceUnits maxLength cleaned))

def maxIpLength : Nat := 64
def maxUserAgentLength : Nat := 256

def firstForwarded (value : Option Text) : Option Text :=
  value.bind (fun value => if trim value = [] then none else some (trim (value.takeWhile (fun c => c ≠ ','))))

def clientRequestMetadataFromHeaders (forwardedFor remoteAddress userAgent : Option Text) : Option Text × Option Text :=
  (sanitize (firstForwarded forwardedFor <|> remoteAddress) maxIpLength,sanitize userAgent maxUserAgentLength)

/-- The forwarded header is left out on purpose: the address is the one the proxies vouch for. -/
def metadataFromRequest (head : SignerHead) : Option Text × Option Text :=
  clientRequestMetadataFromHeaders none head.clientIp head.userAgent

section

variable (settings : RouteSettings)

def hashToken (token : Text) : Id := settings.browser.hash token

def bearerToken (value : Option Text) : Option Text :=
  value.bind (fun value =>
    if bearerPrefix.isPrefixOf (settings.browser.toLowerCase value) then
      let token := trim (value.drop bearerPrefix.length)
      if token = [] then none else some token
    else none)

/-- An empty cookie is a token, and no token. -/
def requireSignerToken (head : SignerHead) : Except AppError Text := do
  let token ← (head.sessionCookie <|> bearerToken settings head.authorization).elim (.error signingTokenRejected) .ok
  check (token ≠ []) signingTokenRejected
  pure token

def extractExchangeToken (bodyToken authorization : Option Text) : Except AppError Text :=
  let fromBody := trim (bodyToken.getD [])
  if fromBody ≠ [] then .ok fromBody
  else (bearerToken settings authorization).elim (.error signingTokenRejected) .ok

def loadCsrfHash (token : Text) : DeskCase (Option Id) :=
  get (fun d _ => (SigningSessions.findByTokenHash (hashToken settings token) d.rows).bind SigningSession.csrfTokenHash)

def requireSignerCsrf (head : SignerHead) (token : Text) : DeskCase Unit :=
  if isCsrfSafeMethod head.method then pure ()
  else do
    let expected ← loadCsrfHash settings token
    let expectedHash ← lift (expected.elim (.error signingTokenRejected) .ok)
    lift (assertCsrfToken head.csrfHeader head.csrfCookie expectedHash settings.browser.hash)

def requireSignerOrigin (head : SignerHead) : Except AppError Unit :=
  check (originIsAllowed settings.browser head.origin head.referer) (.validation [("reason","origin_rejected")])

/-- The three middlewares in front of a POST. -/
def requireSigner (head : SignerHead) : DeskCase Text := do
  lift (requireSignerOrigin settings head)
  let token ← lift (requireSignerToken settings head)
  requireSignerCsrf settings head token
  pure token

end

/-- The body of `/signing/complete` as its schema has it. -/
structure CompleteBody where
  consentCopyId : Id
  intentToSign : Bool
  fieldIds : List Id
  signature : RequestInk
  initials : RequestInk

/-- `none` stands for a body its schema refuses. -/
inductive SigningRoute where
  | exchange (body : Option (Option Text))
  | session | document | fields | consent | previews | viewed
  | recordConsent (body : Option (Id × Bool))
  | decline (body : Option (Option Text))
  | complete (body : Option CompleteBody)

def SigningRoute.method : SigningRoute → HttpMethod
  | .session => .get
  | .document => .get
  | .fields => .get
  | .consent => .get
  | _ => .post

inductive SignerAnswer where
  | done
  | session (view : SignerSessionView)
  | document (view : SignerDocumentView)
  | fields (views : List SignerFieldView)
  | consent (view : SignerConsentView)
  | preview (view : PreviewView)

section

variable (settings : RouteSettings)

def invalidBody (reason : String) : AppError := .validation [("reason",reason)]

def parsedBody {α : Type} (reason : String) (body : Option α) : DeskCase α :=
  lift (body.elim (.error (invalidBody reason)) .ok)

def exchangeRoute (head : SignerHead) (body : Option (Option Text)) : DeskCase SignerAnswer := do
  lift (requireSignerOrigin settings head)
  let bodyToken ← parsedBody "invalid_exchange" body
  let token ← lift (extractExchangeToken settings bodyToken head.authorization)
  onRows (exchangeSigningToken settings.desk.rows (hashToken settings token) none)
  pure .done

/-- The GET routes hand the token to a query. -/
def queryRoute (head : SignerHead) (query : Id → DeskCase SignerAnswer) : DeskCase SignerAnswer := do
  let token ← lift (requireSignerToken settings head)
  query (hashToken settings token)

def postRoute {α : Type} (head : SignerHead) (parsed : DeskCase α) (handler : Id → α → DeskCase SignerAnswer) :
    DeskCase SignerAnswer := do
  let token ← requireSigner settings head
  let body ← parsed
  handler (hashToken settings token) body

def completeInput (head : SignerHead) (tokenHash : Id) (body : CompleteBody) : CompleteSigningInput :=
  ⟨tokenHash,body.consentCopyId,body.intentToSign,body.fieldIds,body.signature,body.initials,head.idempotencyKey,none⟩

/-- The rate limiter comes first, and is seen through its refusals only. -/
def signingRoute (head : SignerHead) (route : SigningRoute) : DeskCase SignerAnswer := do
  external
  match route with
  | .exchange body => exchangeRoute settings head body
  | .session => queryRoute settings head (fun tokenHash => do
      pure (.session (← getSignerSession settings.desk tokenHash none)))
  | .document => queryRoute settings head (fun tokenHash => do
      pure (.document (← getSignerDocument settings.desk tokenHash none)))
  | .fields => queryRoute settings head (fun tokenHash => do
      pure (.fields (← getSignerFields settings.desk tokenHash none)))
  | .consent => queryRoute settings head (fun tokenHash => do
      pure (.consent (← getSignerConsent settings.desk tokenHash none)))
  | .previews => postRoute settings head (pure ()) (fun tokenHash _ => do
      pure (.preview (← issueSignerPreview settings.desk tokenHash none)))
  | .viewed => postRoute settings head (pure ()) (fun tokenHash _ => do
      onRows (recordSignerViewed settings.desk.rows tokenHash none)
      pure .done)
  | .recordConsent body => postRoute settings head (parsedBody "invalid_consent" body) (fun tokenHash body => do
      let metadata := metadataFromRequest head
      onRows (recordSignerConsent settings.desk.rows ⟨tokenHash,body.1,body.2,metadata.1,metadata.2,none⟩)
      pure .done)
  | .decline body => postRoute settings head (parsedBody "invalid_decline" body) (fun tokenHash reason => do
      onRows (declineToSign settings.desk.rows ⟨tokenHash,reason,none⟩)
      pure .done)
  | .complete body => postRoute settings head (parsedBody "invalid_complete_signing" body) (fun tokenHash body => do
      let _ ← onRows (completeSigning settings.desk.rows (completeInput head tokenHash body))
      pure .done)

/-- Everything that is asked of a document and of what is shown of it. What is asked of its
rows is every request there is, whoever makes it. -/
inductive Request where
  | rows (request : ESign.Request)
  | issuePreview (actor : AccountUserActor Id) (documentId : Id)
  | streamPreview (grantId tokenHash : Id)
  | downloadArtifact (actor : AccountUserActor Id) (documentId : Id)
  | signing (head : SignerHead) (route : SigningRoute)

inductive Answer where
  | rows (response : Option ResponseBody)
  | preview (view : PreviewView)
  | shown (preview : ShownPreview)
  | downloaded (download : Download)
  | signing (answer : SignerAnswer)

def startRequest : Request → DeskCase Answer
  | .rows request => do pure (.rows (← onRows (ESign.startRequest settings.desk.rows request)))
  | .issuePreview actor documentId => do pure (.preview (← issueDocumentPreview settings.desk actor documentId))
  | .streamPreview grantId tokenHash => do pure (.shown (← streamDocumentPreview settings.desk grantId tokenHash))
  | .downloadArtifact actor documentId => do
      pure (.downloaded (← downloadFinalizedArtifact settings.desk actor documentId))
  | .signing head route => do pure (.signing (← signingRoute settings head route))

/-- Express answers HEAD with the handler of GET. -/
def admitRequest (d : Store) : Request → Bool
  | .rows request => ESign.admitRequest d.rows request
  | .signing head route => head.method = route.method ∨ (head.method = .head ∧ route.method = .get)
  | _ => true

def desk : System Store Write Input (Except AppError Unit) Request (Except AppError Answer) where
  exec := Write.exec
  admits := admitRequest
  start := startRequest settings

end

/-- The document, its grants and the requests under way. -/
abbrev Running := Config Store Write Input (Except AppError Unit) (Except AppError Answer)

abbrev anyScope : Scope Store Write Request := Scope.of (fun _ => True)

abbrev drafted (draft : NewDraft) : Running := initial ⟨createDraftDocument draft,[]⟩

end ESign.Desk
