import ESign.AccountSessions

/-! What the gateway lets through. A closed session lets nobody in again, whoever is let in
is a member of the organization by that moment, and nobody becomes a user without the
secret and the address of that user. -/
namespace ESign.Accounts
open StoreProgram StoreProgram.Outline

/-- The request comes with the token of the session, and is let in by it alone. -/
def Presents (settings : Settings) (row : AccountSession) : Request → Prop
  | .logout head => ∃ token ∈ head.sessionCookie, row.tokenHash = settings.hash token
  | .revoke head _ => ∃ token ∈ head.sessionCookie, row.tokenHash = settings.hash token
  | .currentUser head => ∃ token ∈ head.sessionCookie, row.tokenHash = settings.hash token
  | .organization head _ _ => ∃ token ∈ head.sessionCookie, row.tokenHash = settings.hash token
  | _ => False

section

variable {settings : Settings} {inputs : Input → Prop} {c c' : Serving} {own : List (Performed Write Store Input)}
  {row : AccountSession}

theorem resolveRefused (sound : (anyOutline settings).Sound c) (closed : Closed row c.store) {raw : Option Text}
    (token : ∃ token ∈ raw, row.tokenHash = settings.hash token) {value : Except AppError AccountSession}
    (run : Amid (gateway settings) anyScope inputs c (resolveAccountSession settings raw) own value c') :
    Refused own value := by
  obtain ⟨text,rfl,named⟩ := token
  rcases amidEnsured run with refused | ⟨-,run⟩
  · exact refused
  · rcases amidThenFind run with refused | ⟨session,c₁,later,found,run⟩
    · exact refused
    · rcases amidEnsured run with refused | ⟨open_,-⟩
      · exact refused
      · obtain ⟨sound₁,evolved⟩ := runSound anyStarts sound later
        obtain ⟨row',mem,same,shut⟩ := closed.kept evolved
        have key : session.tokenHash = settings.hash text := by simpa using List.find?_some found
        have last : row' = session := List.inj_on_of_nodup_map sound₁.inv.1.tokens mem (List.mem_of_find?_eq_some found)
          (by rw [same.tokenHash,named,key])
        rw [last] at shut
        rw [Option.isNone_iff_eq_none.mp open_] at shut
        cases shut

theorem callerRefused (sound : (anyOutline settings).Sound c) (closed : Closed row c.store) {head : RequestHead}
    (token : ∃ token ∈ head.sessionCookie, row.tokenHash = settings.hash token) {value : Except AppError AccountSession}
    (run : Amid (gateway settings) anyScope inputs c (requireCaller settings head) own value c') : Refused own value := by
  rcases amidLifted run with refused | ⟨_,-,run⟩
  · exact refused
  · exact refusedFirst run (fun run => resolveRefused sound closed token run)

theorem presenterRefused (sound : (anyOutline settings).Sound c) (closed : Closed row c.store) {request : Request}
    (presents : Presents settings row request) {value : Except AppError Answer}
    (run : Amid (gateway settings) anyScope inputs c (startRequest settings request) own value c') : Refused own value := by
  cases request with
  | login head body => exact presents.elim
  | logout head => exact refusedFirst run (fun run => callerRefused sound closed presents run)
  | revoke head sessionId => exact refusedFirst run (fun run => callerRefused sound closed presents run)
  | currentUser head => exact refusedFirst run (fun run => resolveRefused sound closed presents run)
  | organization head route organizationId =>
    refine refusedFirst run (fun run => ?_)
    unfold requireFor at run
    split at run
    · exact callerRefused sound closed presents run
    · exact resolveRefused sound closed presents run
  | directory users memberships => exact presents.elim

end

/-- A logout, a revocation, or a login over an older session, once it is answered, ends that
session: a request with its token that starts later is refused and writes nothing, whatever
ran meanwhile and whatever runs around it. -/
def EndedForGood (settings : Settings) : Prop :=
  ∀ s, Fresh s → ∀ c, Run (gateway settings) anyScope (initial s) c → ∀ row ∈ c.store.sessions,
    ∀ request, Ends settings row request → ∀ inputs own answer c₁,
      Amid (gateway settings) anyScope inputs c (startRequest settings request) own (.ok answer) c₁ →
    ∀ c₂, Run (gateway settings) anyScope c₁ c₂ → ∀ next, Presents settings row next → ∀ own' value c₃,
      Amid (gateway settings) anyScope inputs c₂ (startRequest settings next) own' value c₃ → Refused own' value

theorem endedForGood (settings : Settings) : EndedForGood settings := by
  intro s fresh c run row mem request ends inputs own answer c₁ ended c₂ later next presents own' value c₃ amid
  have sound := reachedSound fresh run
  have holds := anyEnsures request sound.inv
  obtain ⟨sound₁,-,post⟩ := amidHolds anyStarts (fun _ _ => trivial) sound holds ended
  obtain ⟨sound₂,evolved⟩ := runSound anyStarts sound₁ later
  exact presenterRefused sound₂ ((post answer rfl row mem ends).kept evolved) presents amid

/-- The session and the moment a request was let in with: the row was there, open and not
past its time, and the token was its own. -/
structure LetIn (settings : Settings) (inputs : Input → Prop) (head : RequestHead) (session : AccountSession) (s : Store) :
    Prop where
  row : session ∈ s.sessions
  token : ∃ token ∈ head.sessionCookie, trim token ≠ [] ∧ session.tokenHash = settings.hash token
  open_ : session.revokedAt = none
  inTime : ∃ i, inputs i ∧ i.now < session.expiresAt

/-- What is asked of a request that changes something. -/
structure SameSite (settings : Settings) (head : RequestHead) (session : AccountSession) : Prop where
  origin : originIsAllowed settings head.origin head.referer = true
  csrf : ∃ token, head.csrfHeader = some token ∧ head.csrfCookie = some token ∧ trim token ≠ [] ∧
    settings.hash token = session.csrfTokenHash

section

variable {settings : Settings} {scope : Scope Store Write Request} {inputs : Input → Prop} {c c' : Serving}
  {own : List (Performed Write Store Input)}

theorem resolvedIn {head : RequestHead} {session : AccountSession}
    (run : Amid (gateway settings) scope inputs c (requireAccountSession settings head) own (.ok session) c') :
    own = [] ∧ ∃ c₁, Run (gateway settings) scope c c₁ ∧ Run (gateway settings) scope c₁ c' ∧
      LetIn settings inputs head session c₁.store := by
  unfold requireAccountSession at run
  cases cookie : head.sessionCookie with
  | none =>
    rw [cookie] at run
    cases (amidLift run).2.2
  | some token =>
    rw [cookie] at run
    obtain ⟨solid,run⟩ := amidThenEnsure run
    rcases amidThenFind run with ⟨-,_,same⟩ | ⟨found,c₁,later,mem,run⟩
    · cases same
    · obtain ⟨open_,run⟩ := amidThenEnsure run
      obtain ⟨c₂,i,given,next,run⟩ := amidThenGet run
      obtain ⟨inTime,run⟩ := amidThenEnsure run
      obtain ⟨rfl,rfl,same⟩ := amidLift run
      cases same
      refine ⟨rfl,c₁,later,next,List.mem_of_find?_eq_some mem,⟨token,cookie,of_decide_eq_true solid,?_⟩,?_,i,given,?_⟩
      · simpa using List.find?_some mem
      · exact Option.isNone_iff_eq_none.mp open_
      · exact of_decide_eq_true inTime

theorem assertedCsrf {headerToken cookieToken : Option Text} {expectedHash : Digest} {hash : Text → Digest}
    (ok : assertCsrfToken headerToken cookieToken expectedHash hash = .ok ()) :
    ∃ token, headerToken = some token ∧ cookieToken = some token ∧ trim token ≠ [] ∧ hash token = expectedHash := by
  obtain ⟨_,present,ok⟩ := bindOk.mp ok
  obtain ⟨_,same,ok⟩ := bindOk.mp ok
  have same := of_decide_eq_true (checkOk.mp same)
  have hashed := of_decide_eq_true (checkOk.mp ok)
  obtain ⟨token,header,expected⟩ := Option.map_eq_some_iff.mp hashed
  have solid : trim token ≠ [] := by
    have filled := (Bool.and_eq_true_iff.mp (checkOk.mp present)).1
    simpa [header,blank] using filled
  exact ⟨token,header,by rw [← same]; exact header,solid,expected⟩

theorem csrfHolds {head : RequestHead} {session : AccountSession} (unsafe_ : isCsrfSafeMethod head.method = false)
    (ok : requireCsrf settings head session = .ok ()) :
    ∃ token, head.csrfHeader = some token ∧ head.csrfCookie = some token ∧ trim token ≠ [] ∧
      settings.hash token = session.csrfTokenHash := by
  unfold requireCsrf at ok
  rw [unsafe_] at ok
  exact assertedCsrf ok

theorem csrfPassed {head : RequestHead} {session : AccountSession} (site : SameSite settings head session) :
    requireCsrf settings head session = .ok () := by
  obtain ⟨token,header,cookie,solid,hashed⟩ := site.csrf
  unfold requireCsrf
  split
  · rfl
  · simp [assertCsrfToken,header,cookie,blank,solid,hashed,check,bind,Except.bind]

theorem calledIn {head : RequestHead} {session : AccountSession} (unsafe_ : isCsrfSafeMethod head.method = false)
    (run : Amid (gateway settings) scope inputs c (requireCaller settings head) own (.ok session) c') :
    own = [] ∧ SameSite settings head session ∧ ∃ c₁, Run (gateway settings) scope c c₁ ∧
      Run (gateway settings) scope c₁ c' ∧ LetIn settings inputs head session c₁.store := by
  obtain ⟨_,origin,run⟩ := amidThenLift run
  rcases amidThen run with ⟨_,same,-⟩ | ⟨found,c₁,own₁,own₂,rfl,first,rest⟩
  · cases same
  · obtain ⟨rfl,letIn⟩ := resolvedIn first
    obtain ⟨_,csrf,last⟩ := amidThenLift rest
    obtain ⟨rfl,rfl,same⟩ := amidLift last
    cases same
    exact ⟨rfl,⟨checkOk.mp origin,csrfHolds unsafe_ csrf⟩,letIn⟩

theorem memberIn {session : AccountSession} {organizationId : Option Id} {actor : AccountUserActor Id}
    (run : Amid (gateway settings) scope inputs c (requireOrganizationMembership session organizationId) own (.ok actor) c') :
    own = [] ∧ Run (gateway settings) scope c c' ∧ ∃ membership ∈ c'.store.memberships,
      organizationId = some membership.organizationId ∧ membership.userId = session.userId ∧
        actor = ⟨session.userId,membership.id,membership.organizationId,membership.role⟩ := by
  cases organizationId with
  | none => cases (amidLift run).2.2
  | some id =>
    rcases amidThenFind run with ⟨-,_,same⟩ | ⟨membership,c₁,later,found,run⟩
    · cases same
    · obtain ⟨rfl,rfl,same⟩ := amidLift run
      cases same
      obtain ⟨organization,user⟩ : membership.organizationId = id ∧ membership.userId = session.userId := by
        simpa using List.find?_some found
      exact ⟨rfl,later,membership,List.mem_of_find?_eq_some found,by rw [organization],user,rfl⟩

theorem actionAllowed {actor : AccountUserActor Id} {action : AuthorizationAction} :
    assertAccountAction actor action = .ok () ↔ action ∈ accountUserActions actor.role := by
  unfold assertAccountAction assertAllowed
  constructor
  · intro ok
    obtain ⟨_,-,ok⟩ := bindOk.mp ok
    exact of_decide_eq_true (checkOk.mp ok)
  · intro allowed
    exact bindOk.mpr ⟨(),checkOk.mpr (decide_eq_true rfl),checkOk.mpr (decide_eq_true allowed)⟩

theorem guardedUnsafe {route : OrganizationRoute} {method : HttpMethod} (accepted : route.accepts method = true)
    (guarded : route.guarded = true) : isCsrfSafeMethod method = false := by
  revert accepted guarded
  cases route <;> cases method <;> decide

/-- How an organization route came to be served. -/
structure Passed (settings : Settings) (scope : Scope Store Write Request) (inputs : Input → Prop) (head : RequestHead)
    (route : OrganizationRoute) (organizationId : Option Id) (actor : AccountUserActor Id) (c c' : Serving) : Prop where
  moments : ∃ session c₁, Run (gateway settings) scope c c₁ ∧ Run (gateway settings) scope c₁ c' ∧
    LetIn settings inputs head session c₁.store ∧ (route.guarded = true → SameSite settings head session) ∧
    actor.userId = session.userId
  member : ∃ membership ∈ c'.store.memberships, organizationId = some membership.organizationId ∧
    membership.userId = actor.userId ∧ membership.id = actor.membershipId ∧
    membership.organizationId = actor.organizationId ∧ membership.role = actor.role
  allowed : route.action ∈ accountUserActions actor.role

theorem passedIn {head : RequestHead} {route route' : OrganizationRoute} {organizationId : Option Id}
    {actor : AccountUserActor Id} (accepted : route.accepts head.method = true)
    (run : Amid (gateway settings) scope inputs c (organizationRoute settings head route organizationId) own
      (.ok (.admitted route' actor)) c') :
    own = [] ∧ route' = route ∧ Passed settings scope inputs head route organizationId actor c c' := by
  rcases amidThen run with ⟨_,same,-⟩ | ⟨session,c₁,own₁,own₂,rfl,first,rest⟩
  · cases same
  · have letIn : own₁ = [] ∧ (route.guarded = true → SameSite settings head session) ∧ ∃ c₀,
        Run (gateway settings) scope c c₀ ∧ Run (gateway settings) scope c₀ c₁ ∧
          LetIn settings inputs head session c₀.store := by
      unfold requireFor at first
      split at first
      · rename_i guarded
        obtain ⟨none,site,moment⟩ := calledIn (guardedUnsafe accepted guarded) first
        exact ⟨none,fun _ => site,moment⟩
      · rename_i open_
        obtain ⟨none,moment⟩ := resolvedIn first
        exact ⟨none,fun guarded => absurd guarded open_,moment⟩
    obtain ⟨rfl,site,c₀,before,after,moment⟩ := letIn
    rcases amidThen rest with ⟨_,same,-⟩ | ⟨found,c₂,own₃,own₄,rfl,second,last⟩
    · cases same
    · obtain ⟨rfl,later,membership,mem,organization,user,rfl⟩ := memberIn second
      obtain ⟨_,allowed,returned⟩ := amidThenLift last
      obtain ⟨rfl,rfl,same⟩ := amidLift returned
      cases same
      refine ⟨rfl,rfl,⟨session,c₀,before,after.trans later,moment,site,rfl⟩,?_,actionAllowed.mp allowed⟩
      exact ⟨membership,mem,organization,user,rfl,rfl,rfl⟩

end

/-- The user behind an actor: in a store of the request's own time, with the session it showed. -/
structure Standing (settings : Settings) (inputs : Input → Prop) (head : RequestHead) (route : OrganizationRoute)
    (actor : AccountUserActor Id) (session : AccountSession) (s : Store) : Prop where
  letIn : LetIn settings inputs head session s
  site : route.guarded = true → SameSite settings head session
  owner : session.userId = actor.userId
  user : ∃ user ∈ s.users, user.id = actor.userId
  lifetime : session.expiresAt = session.createdAt + settings.sessionTtlMs
  only : ∀ row ∈ s.sessions, row.tokenHash = session.tokenHash → row = session

/-- Whoever an organization route is served to showed the token of a session that was open
and in the time its login gave it, passed the checks of origin and CSRF where something is
changed, and was by then a member of the organization of the path, in a role that may do
it. Nothing was written. -/
def ServedToMembers (settings : Settings) : Prop :=
  ∀ s, Fresh s → ∀ c, Run (gateway settings) anyScope (initial s) c → ∀ head route organizationId,
    route.accepts head.method = true → ∀ inputs own route' actor c',
      Amid (gateway settings) anyScope inputs c (startRequest settings (.organization head route organizationId)) own
        (.ok (.admitted route' actor)) c' →
      own = [] ∧ route' = route ∧ organizationId = some actor.organizationId ∧ route.action ∈ accountUserActions actor.role ∧
      (∃ session c₁, Run (gateway settings) anyScope c c₁ ∧ Run (gateway settings) anyScope c₁ c' ∧
        Standing settings inputs head route actor session c₁.store ∧ Held session c'.store) ∧
      ∃ membership ∈ c'.store.memberships, membership.userId = actor.userId ∧ membership.id = actor.membershipId ∧
        membership.organizationId = actor.organizationId ∧ membership.role = actor.role

theorem servedToMembers (settings : Settings) : ServedToMembers settings := by
  intro s fresh c run head route organizationId accepted inputs own route' actor c' amid
  obtain ⟨none,same,passed⟩ := passedIn accepted amid
  obtain ⟨session,c₁,before,after,letIn,site,owner⟩ := passed.moments
  obtain ⟨membership,mem,organization,user,id,organization',role⟩ := passed.member
  obtain ⟨sound,-⟩ := runSound anyStarts (reachedSound fresh run) before
  have evolved := (runSound anyStarts sound after).2
  have kept := sound.inv.1
  obtain ⟨row,there,named⟩ := List.mem_map.mp (kept.owners session letIn.row)
  refine ⟨none,same,by rw [organization,organization'],passed.allowed,⟨session,c₁,before,after,?_,?_⟩,?_⟩
  · exact
      { letIn := letIn
        site := site
        owner := owner.symm
        user := ⟨row,there,by rw [owner]; exact named⟩
        lifetime := kept.lifetime session letIn.row
        only := fun row mem same => List.inj_on_of_nodup_map kept.tokens mem letIn.row same }
  · exact Held.kept ⟨session,letIn.row,.refl _⟩ evolved
  · exact ⟨membership,mem,user,id,organization',role⟩

/-- Nothing is written to the session or to the directory. -/
def undisturbed (session : AccountSession) : Scope Store Write Request :=
  ⟨fun _ => True,fun w _ => (∀ date, w ≠ .revoke session.id date) ∧ ∀ users memberships, w ≠ .directory users memberships⟩

section

variable {settings : Settings} {session : AccountSession} {inputs : Input → Prop} {c c' : Serving}
  {own : List (Performed Write Store Input)}

/-- The session is open in the table, and the members are these. -/
def Unchanged (session : AccountSession) (memberships : List OrganizationMembership) (s : Store) : Prop :=
  session ∈ s.sessions ∧ s.memberships = memberships

theorem unchangedRun {memberships : List OrganizationMembership} {w : Write} {s s' : Store}
    (h : Unchanged session memberships s) (cond : (undisturbed session).cond w s) (ok : w.run s = .ok s') :
    Unchanged session memberships s' := by
  obtain ⟨there,same⟩ := h
  cases w with
  | create other =>
    obtain ⟨-,-,-,rfl⟩ := createRun ok
    exact ⟨List.mem_append_left _ there,same⟩
  | revoke sessionId revokedAt =>
    obtain ⟨-,rfl⟩ := revokeRun ok
    refine ⟨(updateManyOf there).2 (decide_eq_false (fun named => ?_)),same⟩
    subst named
    exact cond.1 revokedAt rfl
  | append event =>
    obtain ⟨-,rfl⟩ := appendRun ok
    exact ⟨there,same⟩
  | directory users memberships => exact absurd rfl (cond.2 users memberships)

theorem unchangedExec {memberships : List OrganizationMembership} {w : Write} {s : Store} (i : Input)
    (h : Unchanged session memberships s) (cond : (undisturbed session).cond w s) :
    Unchanged session memberships ((gateway settings).exec w s i).1 := by
  show Unchanged session memberships (w.exec s i).1
  rcases execCases w s i with same | ⟨ok,-⟩
  · rw [same]
    exact h
  · exact unchangedRun h cond ok

theorem unchangedAll (sound : (anyOutline settings).Sound c) (there : session ∈ c.store.sessions)
    (run : Run (gateway settings) (undisturbed session) c c') :
    Kept settings c'.store ∧ Unchanged session c.store.memberships c'.store := by
  have within : (undisturbed session).Within anyScope := ⟨fun _ _ => trivial,fun _ _ _ => trivial⟩
  refine ⟨(runSound anyStarts sound (runWithin within run)).1.inv.1,?_⟩
  exact runKeeps (o := anyOutline settings) (fun _ _ _ => trivial) (fun i _ kept _ cond => unchangedExec i kept cond)
    (fun request s _ admitted inv => anyStarts request s trivial admitted inv) sound ⟨there,rfl⟩ run

/-- A request that shows the session, in time. -/
structure Shows (settings : Settings) (inputs : Input → Prop) (head : RequestHead) (session : AccountSession) : Prop where
  token : ∃ token ∈ head.sessionCookie, trim token ≠ [] ∧ session.tokenHash = settings.hash token
  open_ : session.revokedAt = none
  inTime : ∀ i, inputs i → i.now < session.expiresAt

theorem resolvedAll (sound : (anyOutline settings).Sound c) (there : session ∈ c.store.sessions) {head : RequestHead}
    (shows : Shows settings inputs head session) {value : Except AppError AccountSession}
    (run : Amid (gateway settings) (undisturbed session) inputs c (requireAccountSession settings head) own value c') :
    value = .ok session ∧ Run (gateway settings) (undisturbed session) c c' := by
  obtain ⟨token,cookie,solid,named⟩ := shows.token
  have cookie : head.sessionCookie = some token := cookie
  unfold requireAccountSession at run
  rw [cookie] at run
  have found : ∀ {c₁}, Run (gateway settings) (undisturbed session) c c₁ →
      AccountSessions.findByTokenHash (settings.hash token) c₁.store = some session := by
    intro c₁ later
    obtain ⟨kept,mem,-⟩ := unchangedAll sound there later
    rw [← named]
    cases row : AccountSessions.findByTokenHash session.tokenHash c₁.store with
    | none => exact absurd (List.find?_eq_none.mp row session mem) (by simp)
    | some other => rw [foundByKey kept.tokens mem row]
  obtain ⟨c₁,first,run⟩ := amidMet found (amidPassed (decide_eq_true solid) run)
  obtain ⟨c₂,i,given,second,run⟩ := amidThenGet (amidPassed (Option.isNone_iff_eq_none.mpr shows.open_) run)
  obtain ⟨-,rfl,same⟩ := amidLift (amidPassed (decide_eq_true (shows.inTime i given)) run)
  exact ⟨same,first.trans second⟩

theorem calledAll (sound : (anyOutline settings).Sound c) (there : session ∈ c.store.sessions) {head : RequestHead}
    (shows : Shows settings inputs head session) (site : SameSite settings head session) {value : Except AppError AccountSession}
    (run : Amid (gateway settings) (undisturbed session) inputs c (requireCaller settings head) own value c') :
    value = .ok session ∧ Run (gateway settings) (undisturbed session) c c' := by
  have run := amidPassedOn (checkOk.mpr site.origin) run
  obtain ⟨c₁,_,first,run⟩ := amidReturned (fun run => resolvedAll sound there shows run) run
  have last := amidPassedOn (csrfPassed site) run
  obtain ⟨-,rfl,same⟩ := amidLift last
  exact ⟨same,first⟩

theorem memberAll (sound : (anyOutline settings).Sound c) (there : session ∈ c.store.sessions)
    {membership : OrganizationMembership} (member : membership ∈ c.store.memberships)
    (user : membership.userId = session.userId) {c₁ : Serving}
    (before : Run (gateway settings) (undisturbed session) c c₁) {value : Except AppError (AccountUserActor Id)}
    (run : Amid (gateway settings) (undisturbed session) inputs c₁
      (requireOrganizationMembership session (some membership.organizationId)) own value c') :
    value = .ok ⟨session.userId,membership.id,membership.organizationId,membership.role⟩ ∧
      Run (gateway settings) (undisturbed session) c₁ c' := by
  have found : ∀ {c₂}, Run (gateway settings) (undisturbed session) c₁ c₂ →
      findMembership membership.organizationId session.userId c₂.store = some membership := by
    intro c₂ later
    obtain ⟨kept,-,same⟩ := unchangedAll sound there (before.trans later)
    have member : membership ∈ c₂.store.memberships := by rw [same]; exact member
    cases row : findMembership membership.organizationId session.userId c₂.store with
    | none => exact absurd (List.find?_eq_none.mp row membership member) (by simp [user])
    | some other =>
      have key : other.organizationId = membership.organizationId ∧ other.userId = session.userId := by
        simpa using List.find?_some row
      rw [List.inj_on_of_nodup_map kept.members (List.mem_of_find?_eq_some row) member (by rw [key.1,key.2,user])]
  obtain ⟨c₂,later,last⟩ := amidMet found run
  obtain ⟨-,rfl,same⟩ := amidLift last
  exact ⟨same,later⟩

end

/-- A member whose session is open is served, whatever the others do: they may log in and
out, be refused, or close any other session meanwhile. -/
def MembersServed (settings : Settings) : Prop :=
  ∀ s, Fresh s → ∀ c, Run (gateway settings) anyScope (initial s) c →
    ∀ session ∈ c.store.sessions, ∀ membership ∈ c.store.memberships, membership.userId = session.userId →
    ∀ inputs head route, Shows settings inputs head session → (route.guarded = true → SameSite settings head session) →
      route.action ∈ accountUserActions membership.role → ∀ own value c',
      Amid (gateway settings) (undisturbed session) inputs c
        (startRequest settings (.organization head route (some membership.organizationId))) own value c' →
      value = .ok (.admitted route ⟨session.userId,membership.id,membership.organizationId,membership.role⟩)

theorem membersServed (settings : Settings) : MembersServed settings := by
  intro s fresh c run session there membership member user inputs head route shows site allowed own value c' amid
  have sound := reachedSound fresh run
  have amid : Amid (gateway settings) (undisturbed session) inputs c
      (organizationRoute settings head route (some membership.organizationId)) own value c' := amid
  have gate : ∀ {own : List (Performed Write Store Input)} {value : Except AppError AccountSession} {c₁ : Serving},
      Amid (gateway settings) (undisturbed session) inputs c (requireFor settings head route) own value c₁ →
      value = .ok session ∧ Run (gateway settings) (undisturbed session) c c₁ := by
    intro own value c₁ first
    unfold requireFor at first
    split at first
    · rename_i guarded
      exact calledAll sound there shows (site guarded) first
    · exact resolvedAll sound there shows first
  obtain ⟨c₁,_,before,rest⟩ := amidReturned gate amid
  obtain ⟨c₂,_,later,last⟩ := amidReturned (fun run => memberAll sound there member user before run) rest
  have last := amidPassedOn (actionAllowed.mpr allowed) last
  exact (amidLift last).2.2

/-- Nobody who knows the secret gives an address that comes down to `address`, and the user
keeps that address. -/
def strangers (settings : Settings) (userId : Id) (address : Text) : Scope Store Write Request where
  allow request :=
    match request with
    | .login _ body => ∀ b ∈ body, ∀ sharedSecret, settings.provider = .localProvider sharedSecret →
        settings.hash b.2 = settings.hash sharedSecret → ∀ n, (normalizeAccountEmail settings)^[n+1] b.1 ≠ address
    | _ => True
  cond w _ := ∀ users memberships, w = .directory users memberships → ∀ user ∈ users, user.id = userId → user.email = address

/-- The user has the address, and no session. -/
structure Absent (userId : Id) (address : Text) (s : Store) : Prop where
  address : ∀ user ∈ s.users, user.id = userId → user.email = address
  sessions : ∀ row ∈ s.sessions, row.userId ≠ userId

section

variable {settings : Settings} {userId : Id} {address : Text}

theorem keepAbsent {w : Write} {s s' : Store} (h : Absent userId address s)
    (just : Justified settings (fun id => id ≠ userId) w s) (cond : (strangers settings userId address).cond w s)
    (ok : w.run s = .ok s') : Absent userId address s' := by
  cases w with
  | create session =>
    obtain ⟨-,-,-,rfl⟩ := createRun ok
    exact ⟨h.address,List.forall_mem_append.mpr ⟨h.sessions,List.forall_mem_singleton.mpr just.2⟩⟩
  | revoke sessionId revokedAt =>
    obtain ⟨-,rfl⟩ := revokeRun ok
    refine ⟨h.address,fun row mem => ?_⟩
    obtain ⟨old,mem',later⟩ := revokedFrom mem
    rw [later.userId]
    exact h.sessions old mem'
  | append event =>
    obtain ⟨-,rfl⟩ := appendRun ok
    exact ⟨h.address,h.sessions⟩
  | directory users memberships =>
    obtain ⟨-,rfl⟩ := directoryRun ok
    exact ⟨cond users memberships rfl,h.sessions⟩

abbrev strangersOutline (settings : Settings) (userId : Id) (address : Text) :
    Outline (gateway settings) (strangers settings userId address) :=
  @sessionOutline settings (fun id => id ≠ userId) (strangers settings userId address) (Absent userId address) keepAbsent

theorem strangersStart (request : Request) (s : Store) (allowed : (strangers settings userId address).allow request)
    (inv : (strangersOutline settings userId address).Inv s) :
    (strangersOutline settings userId address).Holds (startRequest settings request) (fun _ _ => True) s := by
  have owned : request.Owned settings (fun id => id ≠ userId) (strangersOutline settings userId address).Inv := by
    cases request with
    | login head body =>
      intro b mem s user inv there opens same
      obtain ⟨sharedSecret,provider,matched,n,named⟩ := opens
      refine allowed b mem sharedSecret provider matched n ?_
      rw [← named]
      exact inv.2.address user there same
    | _ => trivial
  have ensures := ensuresStart (o := strangersOutline settings userId address) (s := s) rfl (fun _ _ step => step)
    (fun _ inv => inv.1) owned
  exact ensuresHolds ensures inv

end

/-- Nobody becomes a user without the secret and the user's own address: while no login
presents both, the user has no session, and no organization route is served in its name. -/
def NobodyElse (settings : Settings) : Prop :=
  ∀ userId address s, Fresh s → (∀ user ∈ s.users, user.id = userId → user.email = address) →
    ∀ c, Run (gateway settings) (strangers settings userId address) (initial s) c →
      (∀ row ∈ c.store.sessions, row.userId ≠ userId) ∧
      ∀ head route organizationId, route.accepts head.method = true → ∀ inputs own route' actor c',
        Amid (gateway settings) (strangers settings userId address) inputs c
          (startRequest settings (.organization head route organizationId)) own (.ok (.admitted route' actor)) c' →
        actor.userId ≠ userId

theorem nobodyElse (settings : Settings) : NobodyElse settings := by
  intro userId address s fresh addressed c run
  have start : (strangersOutline settings userId address).Inv s :=
    ⟨freshKept fresh,addressed,by simp [fresh.sessions]⟩
  have starts : ∀ request s, (strangers settings userId address).allow request →
      (gateway settings).admits s request = true → (strangersOutline settings userId address).Inv s →
      (strangersOutline settings userId address).Holds ((gateway settings).start request) (fun _ _ => True) s :=
    fun request s allowed _ inv => strangersStart request s allowed inv
  have sound := (runSound starts (initialSound start) run).1
  refine ⟨sound.inv.2.sessions,fun head route organizationId accepted inputs own route' actor c' amid same => ?_⟩
  obtain ⟨-,-,passed⟩ := passedIn accepted amid
  obtain ⟨session,c₁,before,-,letIn,-,owner⟩ := passed.moments
  have later := (runSound starts sound before).1
  exact later.inv.2.sessions session letIn.row (by rw [← owner]; exact same)

end ESign.Accounts
