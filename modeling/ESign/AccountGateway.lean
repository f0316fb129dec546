import ESign.AuditSweep
import ESign.UseCases

/-! Account users: the browser sessions they log in to, the policy of their memberships,
and the middleware in front of every organization route. Nothing but the seeds writes users
and memberships, so these may change at any moment. A raw token is known to the store by
its digest only. -/
namespace ESign.Accounts
open StoreProgram StoreProgram.Fallible

structure AccountUser where
  id : Id
  email : Text
  displayName : Text
  deriving DecidableEq, Repr

structure OrganizationMembership where
  id : Id
  organizationId : Id
  userId : Id
  role : MembershipRole
  createdAt : Date
  deriving DecidableEq, Repr

structure AccountSession where
  id : Id
  userId : Id
  tokenHash : Digest
  csrfTokenHash : Digest
  expiresAt : Date
  revokedAt : Option Date
  createdAt : Date
  deriving DecidableEq, Repr

inductive AccountSecurityEventType where
  | loginSucceeded | loginFailed | logout | sessionRevoked
  deriving DecidableEq, Repr

/-- The payload of an event is the provider's name, or empty. -/
structure AccountSecurityEvent where
  id : Id
  type : AccountSecurityEventType
  actorUserId : Option Id
  sessionId : Option Id
  requestId : Text
  occurredAt : Date
  provider : Option String
  deriving DecidableEq, Repr

structure Store where
  users : List AccountUser
  memberships : List OrganizationMembership
  sessions : List AccountSession
  events : List AccountSecurityEvent
  deriving DecidableEq

structure Input where
  now : Date
  id : Id
  rawToken : Text
  failure : Option AppError

/-- One statement each: no use case of these opens a transaction. -/
inductive Write where
  | create (session : AccountSession)
  | revoke (sessionId : Id) (revokedAt : Date)
  | append (event : AccountSecurityEvent)
  | directory (users : List AccountUser) (memberships : List OrganizationMembership)

/-- The unique indexes of the two tables, and the foreign key of the sessions. -/
def directoryFits (users : List AccountUser) (memberships : List OrganizationMembership) (s : Store) : Bool :=
  (users.map AccountUser.id).Nodup ∧ (users.map AccountUser.email).Nodup ∧
    (memberships.map (fun row => (row.organizationId,row.userId))).Nodup ∧
    memberships.all (fun row => row.userId ∈ users.map AccountUser.id) ∧
    s.sessions.all (fun row => row.userId ∈ users.map AccountUser.id)

def Write.run : Write → Store → Except AppError Store
  | .create session, s => do
      check (session.id ∉ s.sessions.map AccountSession.id ∧ session.tokenHash ∉ s.sessions.map AccountSession.tokenHash ∧
        session.userId ∈ s.users.map AccountUser.id) databaseError
      .ok { s with sessions := s.sessions ++ [session] }
  | .revoke sessionId revokedAt, s => do
      check (sessionId ∈ s.sessions.map AccountSession.id) databaseError
      let revoked := fun row : AccountSession => { row with revokedAt := some revokedAt }
      .ok { s with sessions := updateMany (fun row => row.id = sessionId) revoked s.sessions }
  | .append event, s => do
      check (event.id ∉ s.events.map AccountSecurityEvent.id) databaseError
      .ok { s with events := s.events ++ [event] }
  | .directory users memberships, s => do
      check (directoryFits users memberships s) databaseError
      .ok { s with users := users, memberships := memberships }

def Write.exec (w : Write) (s : Store) (i : Input) : Store × Except AppError Unit :=
  match i.failure with
  | some error => (s,.error error)
  | none =>
      match w.run s with
      | .ok s' => (s',.ok ())
      | .error error => (s,.error error)

inductive AuthProvider where
  | localProvider (sharedSecret : Text)
  | oidcProvider
  deriving DecidableEq, Repr

def AuthProvider.name : AuthProvider → String
  | .localProvider _ => "local"
  | .oidcProvider => "oidc"

/-- `hash` is the SHA-256 of a text, `refererOrigin` the origin of a URL that parses. -/
structure Settings where
  provider : AuthProvider
  sessionTtlMs : Int
  allowedOrigins : List Text
  hash : Text → Digest
  toLowerCase : Text → Text
  refererOrigin : Text → Option Text

abbrev AccountCase (α : Type) := Fallible Store Write Input AppError α

def clock : AccountCase Date := get (fun _ i => i.now)

def nextId : AccountCase Id := get (fun _ i => i.id)

def generateRawToken : AccountCase Text := get (fun _ i => i.rawToken)

def external : AccountCase Unit := .read (fun _ i => .done (i.failure.elim (.ok ()) .error))

def normalizeAccountEmail (settings : Settings) (email : Text) : Text := settings.toLowerCase (trim email)

namespace Users

def findById (userId : Id) (s : Store) : Option AccountUser := s.users.find? (fun row => row.id = userId)

/-- The repository brings the address to its normal form once more. -/
def findByEmail (settings : Settings) (email : Text) (s : Store) : Option AccountUser :=
  s.users.find? (fun row => row.email = normalizeAccountEmail settings email)

def listMemberships (userId : Id) (s : Store) : List OrganizationMembership :=
  (s.memberships.filter (fun row => row.userId = userId)).insertionSort (fun a b => a.createdAt ≤ b.createdAt)

end Users

def findMembership (organizationId userId : Id) (s : Store) : Option OrganizationMembership :=
  s.memberships.find? (fun row => row.organizationId = organizationId ∧ row.userId = userId)

namespace AccountSessions

def findByTokenHash (tokenHash : Digest) (s : Store) : Option AccountSession :=
  s.sessions.find? (fun row => row.tokenHash = tokenHash)

def findById (sessionId : Id) (s : Store) : Option AccountSession := s.sessions.find? (fun row => row.id = sessionId)

end AccountSessions

section

variable (settings : Settings)

/-- A development adapter: the one secret opens every account. The adapter for OIDC fails closed. -/
def authenticate (email secret : Text) : AccountCase (Option Text) :=
  match settings.provider with
  | .oidcProvider => fail (.externalService [("reason","oidc_not_configured")])
  | .localProvider sharedSecret => do
      let user ← get (fun s _ => Users.findByEmail settings (normalizeAccountEmail settings email) s)
      pure (user.bind (fun user => if settings.hash secret = settings.hash sharedSecret then some user.email else none))

def appendFailedLogin (requestId : Text) : AccountCase Unit := do
  let id ← nextId
  let now ← clock
  perform (.append ⟨id,.loginFailed,none,none,requestId,now,some settings.provider.name⟩)

def invalidCredentials : AppError := .authentication [("reason","invalid_credentials")]

/-- The session of the cookie a login came with does not outlive the login. -/
def revokeExisting (existingSessionTokenHash : Option Digest) : AccountCase Unit :=
  match existingSessionTokenHash with
  | none => pure ()
  | some tokenHash => do
      let existing ← get (fun s _ => AccountSessions.findByTokenHash tokenHash s)
      match existing with
      | none => pure ()
      | some session => when session.revokedAt.isNone (do
          let now ← clock
          perform (.revoke session.id now))

structure LoginAccountUserInput where
  email : Text
  secret : Text
  requestId : Text
  existingSessionTokenHash : Option Digest

structure LoginAccountUserResult where
  user : AccountUser
  session : AccountSession
  rawSessionToken : Text
  rawCsrfToken : Text

def openSession (requestId : Text) (user : AccountUser) : AccountCase LoginAccountUserResult := do
  let now ← clock
  let rawSessionToken ← generateRawToken
  let rawCsrfToken ← generateRawToken
  let id ← nextId
  let session : AccountSession := ⟨id,user.id,settings.hash rawSessionToken,settings.hash rawCsrfToken,
    now + settings.sessionTtlMs,none,now⟩
  perform (.create session)
  let eventId ← nextId
  perform (.append ⟨eventId,.loginSucceeded,some user.id,some session.id,requestId,now,some settings.provider.name⟩)
  pure ⟨user,session,rawSessionToken,rawCsrfToken⟩

def loginAccountUser (input : LoginAccountUserInput) : AccountCase LoginAccountUserResult := do
  let identity ← authenticate settings (normalizeAccountEmail settings input.email) input.secret
  match identity with
  | none => do
      appendFailedLogin settings input.requestId
      fail invalidCredentials
  | some email => do
      let user ← get (fun s _ => Users.findByEmail settings email s)
      match user with
      | none => do
          appendFailedLogin settings input.requestId
          fail invalidCredentials
      | some user => do
          revokeExisting input.existingSessionTokenHash
          openSession settings input.requestId user

def resolveAccountSession (rawSessionToken : Option Text) : AccountCase AccountSession :=
  match rawSessionToken with
  | none => fail (.authentication [("reason","missing_session")])
  | some rawSessionToken => do
      ensure (trim rawSessionToken ≠ []) (.authentication [("reason","missing_session")])
      let session ← find (AccountSessions.findByTokenHash (settings.hash rawSessionToken))
        (.authentication [("reason","invalid_session")])
      ensure session.revokedAt.isNone (.authentication [("reason","revoked_session")])
      let now ← clock
      ensure (now < session.expiresAt) (.authentication [("reason","expired_session")])
      pure session

end

def logoutAccountUser (session : AccountSession) (requestId : Text) : AccountCase Unit := do
  let now ← clock
  perform (.revoke session.id now)
  let id ← nextId
  let now ← clock
  perform (.append ⟨id,.logout,some session.userId,some session.id,requestId,now,none⟩)

def sessionNotOwned : AppError := .authentication [("reason","session_not_owned")]

def revokeAccountSession (actorUserId sessionId : Id) (requestId : Text) : AccountCase Unit := do
  let session ← find (AccountSessions.findById sessionId) sessionNotOwned
  ensure (session.userId = actorUserId) sessionNotOwned
  when session.revokedAt.isNone (do
    let now ← clock
    perform (.revoke session.id now)
    let id ← nextId
    let now ← clock
    perform (.append ⟨id,.sessionRevoked,some actorUserId,some session.id,requestId,now,none⟩))

inductive HttpMethod where
  | get | head | options | post | put
  deriving DecidableEq, Repr

def isCsrfSafeMethod (method : HttpMethod) : Bool := method ∈ [.get,.head,.options]

structure RequestHead where
  method : HttpMethod
  origin : Option Text
  referer : Option Text
  sessionCookie : Option Text
  csrfCookie : Option Text
  csrfHeader : Option Text
  requestId : Text

def blank (text : Option Text) : Bool := text.all (fun text => trim text = [])

def csrfRejected : AppError := .application .authorization [("reason","csrf_rejected")]

def assertCsrfToken (headerToken cookieToken : Option Text) (expectedHash : Digest) (hash : Text → Digest) :
    Except AppError Unit := do
  check (!blank headerToken && !blank cookieToken) csrfRejected
  check (headerToken = cookieToken) csrfRejected
  check (headerToken.map hash = some expectedHash) csrfRejected

section

variable (settings : Settings)

def originFromHeaders (originHeader refererHeader : Option Text) : Option Text :=
  if blank originHeader then
    if blank refererHeader then none else refererHeader.bind settings.refererOrigin
  else originHeader.map trim

def originIsAllowed (originHeader refererHeader : Option Text) : Bool :=
  (originFromHeaders settings originHeader refererHeader).any (fun origin => origin ∈ settings.allowedOrigins)

def requireAllowedOrigin (head : RequestHead) : Except AppError Unit :=
  check (originIsAllowed settings head.origin head.referer) (.validation [("reason","origin_rejected")])

def requireAccountSession (head : RequestHead) : AccountCase AccountSession := resolveAccountSession settings head.sessionCookie

def requireCsrf (head : RequestHead) (session : AccountSession) : Except AppError Unit :=
  if isCsrfSafeMethod head.method then .ok ()
  else assertCsrfToken head.csrfHeader head.csrfCookie session.csrfTokenHash settings.hash

end

/-- `none` when `organizationIdParamSchema` refuses the path. -/
def requireOrganizationMembership (session : AccountSession) (organizationId : Option Id) : AccountCase (AccountUserActor Id) :=
  match organizationId with
  | none => fail (.validation [("field","organizationId"),("reason","invalid")])
  | some organizationId => do
      let membership ← find (findMembership organizationId session.userId)
        (.application .authorization [("reason","organization_membership_missing")])
      pure ⟨session.userId,membership.id,membership.organizationId,membership.role⟩

/-- The PUT of the source goes by its upload token and is none of these. -/
inductive OrganizationRoute where
  | me | createDraft | getDocument | issuePreview | replaceSigners | replaceFields | sendDocument | voidDocument
  | downloadArtifact | rotateSession | revokeSession | verifyDocument | verifyOrganization
  deriving DecidableEq, Repr

namespace OrganizationRoute

def method : OrganizationRoute → HttpMethod
  | .me => .get
  | .getDocument => .get
  | .downloadArtifact => .get
  | .replaceSigners => .put
  | .replaceFields => .put
  | _ => .post

/-- Express answers HEAD with the handler of GET. -/
def accepts (route : OrganizationRoute) (method : HttpMethod) : Bool :=
  method = route.method ∨ (method = .head ∧ route.method = .get)

/-- `requireOrigin` and `requireCsrf` stand before the routes that are no GET. -/
def guarded (route : OrganizationRoute) : Bool := route.method ≠ .get

/-- What the route asserts, or the use case it calls. -/
def action : OrganizationRoute → AuthorizationAction
  | .me => .membershipRead
  | .createDraft => .documentWrite
  | .getDocument => .documentRead
  | .issuePreview => .documentRead
  | .replaceSigners => .documentWrite
  | .replaceFields => .documentWrite
  | .sendDocument => .documentSend
  | .voidDocument => .documentVoid
  | .downloadArtifact => .downloadArtifact
  | .rotateSession => .documentSend
  | .revokeSession => .documentSend
  | .verifyDocument => .auditVerify
  | .verifyOrganization => .auditVerify

end OrganizationRoute

/-- `assertAccountAction`: the resource is the actor's own organization. -/
def assertAccountAction (actor : AccountUserActor Id) (action : AuthorizationAction) : Except AppError Unit :=
  assertAllowed (.accountUser actor) action ⟨actor.organizationId,none,none⟩

/-- A request as Express hands it to a router: `none` stands for a body or a path that
its schema refuses. The last one is an edit of the directory. -/
inductive Request where
  | login (head : RequestHead) (body : Option (Text × Text))
  | logout (head : RequestHead)
  | revoke (head : RequestHead) (sessionId : Option Id)
  | currentUser (head : RequestHead)
  | organization (head : RequestHead) (route : OrganizationRoute) (organizationId : Option Id)
  | directory (users : List AccountUser) (memberships : List OrganizationMembership)

/-- `admitted` is where the handler of an organization route takes over, with the actor it is given. -/
inductive Answer where
  | loggedIn (result : LoginAccountUserResult)
  | loggedOut
  | revoked (cookiesCleared : Bool)
  | currentUser (user : AccountUser) (memberships : List OrganizationMembership)
  | admitted (route : OrganizationRoute) (actor : AccountUserActor Id)
  | edited

section

variable (settings : Settings)

/-- The login limiter is seen through its refusals only. -/
def loginRoute (head : RequestHead) (body : Option (Text × Text)) : AccountCase Answer := do
  lift (requireAllowedOrigin settings head)
  external
  let parsed ← lift (body.elim (.error (.validation [("reason","invalid_login")])) .ok)
  let existing := head.sessionCookie.filter (fun token => token ≠ [])
  let result ← loginAccountUser settings ⟨parsed.1,parsed.2,head.requestId,existing.map settings.hash⟩
  pure (.loggedIn result)

/-- The three middlewares in front of a route that changes something. -/
def requireCaller (head : RequestHead) : AccountCase AccountSession := do
  lift (requireAllowedOrigin settings head)
  let session ← requireAccountSession settings head
  lift (requireCsrf settings head session)
  pure session

def logoutRoute (head : RequestHead) : AccountCase Answer := do
  let session ← requireCaller settings head
  logoutAccountUser session head.requestId
  pure .loggedOut

def revokeRoute (head : RequestHead) (sessionId : Option Id) : AccountCase Answer := do
  let session ← requireCaller settings head
  let sessionId ← lift (sessionId.elim (.error (.validation [("field","sessionId"),("reason","invalid")])) .ok)
  revokeAccountSession session.userId sessionId head.requestId
  pure (.revoked (sessionId = session.id))

def currentUserRoute (head : RequestHead) : AccountCase Answer := do
  let session ← requireAccountSession settings head
  let user ← find (Users.findById session.userId) (.authentication [("reason","account_user_missing")])
  let memberships ← get (fun s _ => Users.listMemberships session.userId s)
  pure (.currentUser user memberships)

/-- What stands before an organization route. -/
def requireFor (head : RequestHead) (route : OrganizationRoute) : AccountCase AccountSession :=
  if route.guarded then requireCaller settings head else requireAccountSession settings head

def organizationRoute (head : RequestHead) (route : OrganizationRoute) (organizationId : Option Id) : AccountCase Answer := do
  let session ← requireFor settings head route
  let actor ← requireOrganizationMembership session organizationId
  lift (assertAccountAction actor route.action)
  pure (.admitted route actor)

def startRequest : Request → AccountCase Answer
  | .login head body => loginRoute settings head body
  | .logout head => logoutRoute settings head
  | .revoke head sessionId => revokeRoute settings head sessionId
  | .currentUser head => currentUserRoute settings head
  | .organization head route organizationId => organizationRoute settings head route organizationId
  | .directory users memberships => do
      perform (.directory users memberships)
      pure .edited

/-- The method a router registered the path for. -/
def admitRequest : Request → Bool
  | .login head _ => head.method = .post
  | .logout head => head.method = .post
  | .revoke head _ => head.method = .post
  | .currentUser head => head.method = .get ∨ head.method = .head
  | .organization head route _ => route.accepts head.method
  | .directory _ _ => true

def gateway : System Store Write Input (Except AppError Unit) Request (Except AppError Answer) where
  exec := Write.exec
  admits _ := admitRequest
  start := startRequest settings

end

end ESign.Accounts
