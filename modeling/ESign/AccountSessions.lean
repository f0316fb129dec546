import ESign.AccountGateway

/-! The table of account sessions over whole runs. A session is what one login made of it, it
is closed for good once it is closed, and the security log tells nothing that did not happen. -/
namespace ESign.Accounts
open StoreProgram StoreProgram.Outline

abbrev anyScope : Scope Store Write Request := Scope.of (fun _ => True)

structure Later (row row' : AccountSession) : Prop where
  same : row' = { row with revokedAt := row'.revokedAt }
  closed : row.revokedAt.isSome = true → row'.revokedAt.isSome = true

theorem Later.refl (row : AccountSession) : Later row row := ⟨rfl,id⟩

theorem Later.trans {a b c : AccountSession} (first : Later a b) (second : Later b c) : Later a c := by
  refine ⟨?_,fun closed => second.closed (first.closed closed)⟩
  have last := second.same
  rw [first.same] at last
  exact last

section
variable {row row' : AccountSession} (h : Later row row')
include h

theorem Later.id : row'.id = row.id := by rw [h.same]
theorem Later.userId : row'.userId = row.userId := by rw [h.same]
theorem Later.tokenHash : row'.tokenHash = row.tokenHash := by rw [h.same]
theorem Later.createdAt : row'.createdAt = row.createdAt := by rw [h.same]
theorem Later.expiresAt : row'.expiresAt = row.expiresAt := by rw [h.same]
theorem Later.csrfTokenHash : row'.csrfTokenHash = row.csrfTokenHash := by rw [h.same]

end

structure Evolved (s s' : Store) : Prop where
  sessions : ∀ row ∈ s.sessions, ∃ row' ∈ s'.sessions, Later row row'
  events : s.events <+: s'.events

theorem Evolved.refl (s : Store) : Evolved s s := ⟨fun row mem => ⟨row,mem,.refl row⟩,List.prefix_rfl⟩

theorem Evolved.trans {a b c : Store} (first : Evolved a b) (second : Evolved b c) : Evolved a c := by
  refine ⟨fun row mem => ?_,first.events.trans second.events⟩
  obtain ⟨row',mem',later⟩ := first.sessions row mem
  obtain ⟨row'',mem'',last⟩ := second.sessions row' mem'
  exact ⟨row'',mem'',later.trans last⟩

def AccountSecurityEvent.Names (event : AccountSecurityEvent) (row : AccountSession) : Prop :=
  event.sessionId = some row.id ∧ event.actorUserId = some row.userId

def EventHolds (s : Store) (event : AccountSecurityEvent) : Prop :=
  match event.type with
  | .loginSucceeded => ∃ row ∈ s.sessions, event.Names row ∧ event.occurredAt = row.createdAt
  | .loginFailed => event.sessionId = none ∧ event.actorUserId = none
  | _ => ∃ row ∈ s.sessions, event.Names row ∧ row.revokedAt.isSome = true

theorem Later.names {event : AccountSecurityEvent} {row row' : AccountSession} (h : Later row row') (names : event.Names row) :
    event.Names row' := by
  unfold AccountSecurityEvent.Names
  rw [h.id,h.userId]
  exact names

theorem eventKept {s s' : Store} {event : AccountSecurityEvent} (evolved : Evolved s s') (h : EventHolds s event) :
    EventHolds s' event := by
  unfold EventHolds at *
  split at h
  · obtain ⟨row,mem,names,time⟩ := h
    obtain ⟨row',mem',later⟩ := evolved.sessions row mem
    exact ⟨row',mem',later.names names,by rw [later.createdAt]; exact time⟩
  · exact h
  · obtain ⟨row,mem,names,closed⟩ := h
    obtain ⟨row',mem',later⟩ := evolved.sessions row mem
    exact ⟨row',mem',later.names names,later.closed closed⟩

structure Kept (settings : Settings) (s : Store) : Prop where
  users : (s.users.map AccountUser.id).Nodup
  emails : (s.users.map AccountUser.email).Nodup
  members : (s.memberships.map (fun row => (row.organizationId,row.userId))).Nodup
  ids : (s.sessions.map AccountSession.id).Nodup
  tokens : (s.sessions.map AccountSession.tokenHash).Nodup
  lifetime : ∀ row ∈ s.sessions, row.expiresAt = row.createdAt + settings.sessionTtlMs
  owners : ∀ row ∈ s.sessions, row.userId ∈ s.users.map AccountUser.id
  eventIds : (s.events.map AccountSecurityEvent.id).Nodup
  events : ∀ event ∈ s.events, EventHolds s event

/-- `owner` says whose sessions may be created. -/
def Justified (settings : Settings) (owner : Id → Prop) : Write → Store → Prop
  | .create session, _ => session.expiresAt = session.createdAt + settings.sessionTtlMs ∧ owner session.userId
  | .append event, s => EventHolds s event
  | _, _ => True

variable {settings : Settings} {owner : Id → Prop} {s s' : Store} {i : Input}

theorem execCases (w : Write) (s : Store) (i : Input) :
    (w.exec s i).1 = s ∨ (w.run s = .ok (w.exec s i).1 ∧ (w.exec s i).2 = .ok ()) := by
  unfold Write.exec
  cases i.failure with
  | some error => exact .inl rfl
  | none =>
    cases h : w.run s with
    | ok s' => exact .inr ⟨rfl,rfl⟩
    | error error => exact .inl rfl

theorem execOk {w : Write} (ok : (w.exec s i).2 = .ok ()) : w.run s = .ok (w.exec s i).1 := by
  unfold Write.exec at *
  cases failed : i.failure with
  | some error => rw [failed] at ok; contradiction
  | none =>
    cases h : w.run s with
    | ok s' => rfl
    | error error => rw [failed,h] at ok; contradiction

/-! One inversion lemma a statement. -/

theorem createRun {session : AccountSession} (ok : Write.run (.create session) s = .ok s') :
    session.id ∉ s.sessions.map AccountSession.id ∧ session.tokenHash ∉ s.sessions.map AccountSession.tokenHash ∧
      session.userId ∈ s.users.map AccountUser.id ∧ s' = { s with sessions := s.sessions ++ [session] } := by
  obtain ⟨_,fits,ok⟩ := bindOk.mp ok
  obtain ⟨fresh,token,user⟩ := of_decide_eq_true (checkOk.mp fits)
  cases ok
  exact ⟨fresh,token,user,rfl⟩

def revokedAll (sessionId : Id) (revokedAt : Date) (sessions : List AccountSession) : List AccountSession :=
  updateMany (fun row => row.id = sessionId) (fun row => { row with revokedAt := some revokedAt }) sessions

theorem revokedKeys {β : Type} {key : AccountSession → β} (kept : ∀ row date, key { row with revokedAt := date } = key row)
    (sessionId : Id) (revokedAt : Date) (sessions : List AccountSession) :
    (revokedAll sessionId revokedAt sessions).map key = sessions.map key :=
  updateManyKeys (fun row => kept row (some revokedAt))

theorem revokeRun {sessionId : Id} {revokedAt : Date} (ok : Write.run (.revoke sessionId revokedAt) s = .ok s') :
    sessionId ∈ s.sessions.map AccountSession.id ∧ s' = { s with sessions := revokedAll sessionId revokedAt s.sessions } := by
  obtain ⟨_,fits,ok⟩ := bindOk.mp ok
  cases ok
  exact ⟨of_decide_eq_true (checkOk.mp fits),rfl⟩

theorem appendRun {event : AccountSecurityEvent} (ok : Write.run (.append event) s = .ok s') :
    event.id ∉ s.events.map AccountSecurityEvent.id ∧ s' = { s with events := s.events ++ [event] } := by
  obtain ⟨_,fits,ok⟩ := bindOk.mp ok
  cases ok
  exact ⟨of_decide_eq_true (checkOk.mp fits),rfl⟩

theorem directoryRun {users memberships} (ok : Write.run (.directory users memberships) s = .ok s') :
    directoryFits users memberships s = true ∧ s' = { s with users := users, memberships := memberships } := by
  obtain ⟨_,fits,ok⟩ := bindOk.mp ok
  cases ok
  exact ⟨checkOk.mp fits,rfl⟩

theorem revokedLater (sessionId : Id) (revokedAt : Date) {row : AccountSession} (mem : row ∈ s.sessions) :
    ∃ row' ∈ revokedAll sessionId revokedAt s.sessions, Later row row' ∧ (row.id = sessionId → row'.revokedAt.isSome = true) := by
  unfold revokedAll
  by_cases named : row.id = sessionId
  · exact ⟨_,(updateManyOf mem).1 (decide_eq_true named),⟨rfl,fun _ => rfl⟩,fun _ => rfl⟩
  · exact ⟨row,(updateManyOf mem).2 (decide_eq_false named),.refl row,fun same => absurd same named⟩

theorem revokedFrom {sessionId : Id} {revokedAt : Date} {row' : AccountSession}
    (mem : row' ∈ revokedAll sessionId revokedAt s.sessions) : ∃ row ∈ s.sessions, Later row row' := by
  obtain ⟨row,old,⟨-,rfl⟩ | ⟨-,rfl⟩⟩ := updateManyMem mem
  · exact ⟨row,old,rfl,fun _ => rfl⟩
  · exact ⟨row',old,.refl row'⟩

theorem evolvedRun {w : Write} (ok : w.run s = .ok s') : Evolved s s' := by
  cases w with
  | create session =>
    obtain ⟨-,-,-,rfl⟩ := createRun ok
    exact ⟨fun row mem => ⟨row,List.mem_append_left _ mem,.refl row⟩,List.prefix_rfl⟩
  | revoke sessionId revokedAt =>
    obtain ⟨-,rfl⟩ := revokeRun ok
    refine ⟨fun row mem => ?_,List.prefix_rfl⟩
    obtain ⟨row',mem',later,-⟩ := revokedLater sessionId revokedAt mem
    exact ⟨row',mem',later⟩
  | append event =>
    obtain ⟨-,rfl⟩ := appendRun ok
    exact ⟨fun row mem => ⟨row,mem,.refl row⟩,List.prefix_append _ _⟩
  | directory users memberships =>
    obtain ⟨-,rfl⟩ := directoryRun ok
    exact ⟨fun row mem => ⟨row,mem,.refl row⟩,List.prefix_rfl⟩

theorem keptRun {w : Write} (inv : Kept settings s) (just : Justified settings owner w s) (ok : w.run s = .ok s') :
    Kept settings s' := by
  have evolved := evolvedRun ok
  have events := fun event mem => eventKept evolved (inv.events event mem)
  cases w with
  | create session =>
    obtain ⟨fresh,token,user,rfl⟩ := createRun ok
    refine ⟨inv.users,inv.emails,inv.members,?_,?_,?_,?_,inv.eventIds,events⟩
    · exact keysAppended inv.ids (fun row mem same => fresh (List.mem_map.mpr ⟨row,mem,same⟩))
    · exact keysAppended inv.tokens (fun row mem same => token (List.mem_map.mpr ⟨row,mem,same⟩))
    · exact List.forall_mem_append.mpr ⟨inv.lifetime,List.forall_mem_singleton.mpr just.1⟩
    · exact List.forall_mem_append.mpr ⟨inv.owners,List.forall_mem_singleton.mpr user⟩
  | revoke sessionId revokedAt =>
    obtain ⟨-,rfl⟩ := revokeRun ok
    refine ⟨inv.users,inv.emails,inv.members,?_,?_,fun row mem => ?_,fun row mem => ?_,inv.eventIds,events⟩
    · show ((revokedAll sessionId revokedAt s.sessions).map AccountSession.id).Nodup
      rw [revokedKeys (fun _ _ => rfl)]
      exact inv.ids
    · show ((revokedAll sessionId revokedAt s.sessions).map AccountSession.tokenHash).Nodup
      rw [revokedKeys (fun _ _ => rfl)]
      exact inv.tokens
    · obtain ⟨old,mem',later⟩ := revokedFrom mem
      rw [later.expiresAt,later.createdAt]
      exact inv.lifetime old mem'
    · obtain ⟨old,mem',later⟩ := revokedFrom mem
      rw [later.userId]
      exact inv.owners old mem'
  | append event =>
    obtain ⟨fresh,rfl⟩ := appendRun ok
    refine ⟨inv.users,inv.emails,inv.members,inv.ids,inv.tokens,inv.lifetime,inv.owners,?_,?_⟩
    · exact keysAppended inv.eventIds (fun row mem same => fresh (List.mem_map.mpr ⟨row,mem,same⟩))
    · exact List.forall_mem_append.mpr ⟨events,List.forall_mem_singleton.mpr (eventKept evolved just)⟩
  | directory users memberships =>
    obtain ⟨fits,rfl⟩ := directoryRun ok
    obtain ⟨users,emails,members,-,owned⟩ := of_decide_eq_true fits
    exact ⟨users,emails,members,inv.ids,inv.tokens,inv.lifetime,
      fun row mem => of_decide_eq_true (List.all_eq_true.mp owned row mem),inv.eventIds,events⟩

/-- The outline for a scope that keeps something more of the store. -/
def sessionOutline {scope : Scope Store Write Request} {extra : Store → Prop}
    (kept : ∀ {w s s'}, extra s → Justified settings owner w s → scope.cond w s → w.run s = .ok s' → extra s') :
    Outline (gateway settings) scope where
  Inv s := Kept settings s ∧ extra s
  Rel := Evolved
  Pre := Justified settings owner
  refl := .refl
  trans := .trans
  keep := by
    intro w s i inv just cond
    show (Kept settings (w.exec s i).1 ∧ extra (w.exec s i).1) ∧ Evolved s (w.exec s i).1
    rcases execCases w s i with same | ⟨ok,-⟩
    · rw [same]
      exact ⟨inv,.refl s⟩
    · exact ⟨⟨keptRun inv.1 just ok,kept inv.2 just cond ok⟩,evolvedRun ok⟩

/-- The session is in the table, maybe closed by now. -/
def Held (session : AccountSession) (s : Store) : Prop := ∃ row ∈ s.sessions, Later session row

def Closed (session : AccountSession) (s : Store) : Prop :=
  ∃ row ∈ s.sessions, Later session row ∧ row.revokedAt.isSome = true

theorem Held.kept {session} (h : Held session s) (evolved : Evolved s s') : Held session s' := by
  obtain ⟨row,mem,later⟩ := h
  obtain ⟨row',mem',next⟩ := evolved.sessions row mem
  exact ⟨row',mem',later.trans next⟩

theorem Closed.kept {session} (h : Closed session s) (evolved : Evolved s s') : Closed session s' := by
  obtain ⟨row,mem,later,closed⟩ := h
  obtain ⟨row',mem',next⟩ := evolved.sessions row mem
  exact ⟨row',mem',later.trans next,next.closed closed⟩

theorem Closed.earlier {row session : AccountSession} (h : Closed session s) (later : Later row session) : Closed row s := by
  obtain ⟨row',mem,next,closed⟩ := h
  exact ⟨row',mem,later.trans next,closed⟩

theorem createHolds {session : AccountSession} (ok : Write.run (.create session) s = .ok s') : Held session s' := by
  obtain ⟨-,-,-,rfl⟩ := createRun ok
  exact ⟨session,List.mem_append_right _ (List.mem_singleton_self _),.refl _⟩

theorem Held.loggedIn {session : AccountSession} (h : Held session s) (id : Id) (requestId : Text) (provider : Option String) :
    EventHolds s ⟨id,.loginSucceeded,some session.userId,some session.id,requestId,session.createdAt,provider⟩ := by
  obtain ⟨row,mem,later⟩ := h
  exact ⟨row,mem,⟨by rw [later.id],by rw [later.userId]⟩,later.createdAt.symm⟩

theorem Closed.named {session : AccountSession} (h : Closed session s) {event : AccountSecurityEvent}
    (names : event.Names session) (type : event.type = .logout ∨ event.type = .sessionRevoked) : EventHolds s event := by
  obtain ⟨row,mem,later,closed⟩ := h
  unfold EventHolds
  rcases type with type | type <;> rw [type] <;> exact ⟨row,mem,later.names names,closed⟩

theorem revokeCloses {session : AccountSession} {revokedAt : Date} (held : Held session s)
    (ok : Write.run (.revoke session.id revokedAt) s = .ok s') : Closed session s' := by
  obtain ⟨-,rfl⟩ := revokeRun ok
  obtain ⟨row,mem,later⟩ := held
  obtain ⟨row',mem',next,closed⟩ := revokedLater session.id revokedAt mem
  exact ⟨row',mem',later.trans next,closed later.id⟩

theorem foundByKey {β : Type} [DecidableEq β] {key : AccountSession → β} {row found : AccountSession}
    (keys : (s.sessions.map key).Nodup) (mem : row ∈ s.sessions)
    (ok : s.sessions.find? (fun other => key other = key row) = some found) : found = row :=
  List.inj_on_of_nodup_map keys (List.mem_of_find?_eq_some ok) mem (by simpa using List.find?_some ok)

/-! Every use case keeps to its outline. -/

section

variable {scope : Scope Store Write Request} {o : Outline (gateway settings) scope} (pre : o.Pre = Justified settings owner)
  (rel : ∀ a b, o.Rel a b → Evolved a b) (inv : ∀ a, o.Inv a → Kept settings a)
include pre

theorem ensuresWrite {w : Write} {post : Unit → Store → Prop} (h : ∀ s', o.Past s s' → Justified settings owner w s')
    (after : ∀ s' s'', o.Past s s' → w.run s' = .ok s'' → post () s'') :
    o.Ensures (Fallible.perform w) post s := by
  refine ensuresPerform (fun s' next _ => ⟨by rw [pre]; exact h s' next,fun i ok _ _ => ?_⟩)
  exact after s' _ next (execOk ok)

omit pre in
include rel in
theorem ensuresLater {α : Type} {p : AccountCase α} {post : α → Store → Prop} (h : o.Ensures p post s) :
    o.Ensures p (fun value s' => post value s' ∧ Evolved s s') s := by
  intro start
  have next : ∀ a b, o.Rel a b → Evolved s a → Evolved s b := fun a b step held => held.trans (rel a b step)
  have kept := o.holdsKept next (h start) (.refl s)
  exact o.holdsMono (fun _ s' held => ⟨held.1.1,fun value same => ⟨held.1.2 value same,held.2⟩⟩) kept

theorem ensuresAppendFailed (requestId : Text) : o.Ensures (appendFailedLogin settings requestId) (fun _ _ => True) s := by
  refine ensuresBind (ensuresGet (fun _ _ _ _ => ensuresBind (ensuresGet (fun _ _ _ _ => ?_))))
  exact ensuresWrite pre (fun _ _ => ⟨rfl,rfl⟩) (fun _ _ _ _ => trivial)

include rel in
theorem ensuresRevoke {session : AccountSession} {revokedAt : Date} (held : Held session s) :
    o.Ensures (Fallible.perform (.revoke session.id revokedAt)) (fun _ s' => Closed session s') s :=
  ensuresWrite pre (fun _ _ => trivial) (fun _ _ past ok => revokeCloses (held.kept (rel _ _ past.2)) ok)

include rel in
theorem ensuresClosing {session : AccountSession} {event : AccountSecurityEvent} (closed : Closed session s)
    (names : event.Names session) (type : event.type = .logout ∨ event.type = .sessionRevoked) :
    o.Ensures (Fallible.perform (.append event)) (fun _ s' => Closed session s') s := by
  have logged : o.Ensures (Fallible.perform (.append event)) (fun _ _ => True) s := by
    refine ensuresWrite pre (fun s' past => ?_) (fun _ _ _ _ => trivial)
    exact show EventHolds s' event from (closed.kept (rel _ _ past.2)).named names type
  exact ensuresMono (fun _ s' later => closed.kept later.2) (ensuresLater rel logged)

include rel inv in
theorem ensuresRevokeExisting (existing : Option Digest) :
    o.Ensures (revokeExisting existing) (fun _ s' => ∀ row ∈ s.sessions, existing = some row.tokenHash → Closed row s') s := by
  cases existing with
  | none => exact ensuresPure (fun row _ same => by cases same)
  | some tokenHash =>
    refine ensuresBind (ensuresGet (fun s₁ past inv₁ _ => ?_))
    have same : ∀ row ∈ s.sessions, some tokenHash = some row.tokenHash → ∃ session ∈ s₁.sessions, Later row session ∧
        AccountSessions.findByTokenHash tokenHash s₁ = some session := by
      intro row mem named
      cases named
      obtain ⟨session,mem',later⟩ := (rel _ _ past.2).sessions row mem
      have here : (AccountSessions.findByTokenHash row.tokenHash s₁).isSome = true :=
        List.find?_isSome.mpr ⟨session,mem',decide_eq_true later.tokenHash⟩
      obtain ⟨found,ok⟩ := Option.isSome_iff_exists.mp here
      rw [← later.tokenHash] at ok ⊢
      cases foundByKey (inv s₁ inv₁).tokens mem' ok
      exact ⟨session,mem',later,ok⟩
    split
    · rename_i none
      refine ensuresPure (fun row mem named => ?_)
      obtain ⟨_,_,_,found⟩ := same row mem named
      rw [none] at found
      cases found
    · rename_i session found
      refine ensuresWhen (fun _ => ?_) (fun closed => ?_)
      · refine ensuresBind (ensuresGet (fun s₂ past₂ _ _ => ?_))
        have held : Held session s₂ := Held.kept ⟨session,List.mem_of_find?_eq_some found,.refl _⟩ (rel _ _ past₂.2)
        refine ensuresMono (fun _ s₃ closed row mem named => ?_) (ensuresRevoke pre rel held)
        obtain ⟨session',_,later,found'⟩ := same row mem named
        rw [found] at found'
        cases found'
        exact closed.earlier later
      · intro row mem named
        obtain ⟨session',mem',later,found'⟩ := same row mem named
        rw [found] at found'
        cases found'
        exact ⟨session,mem',later,by simpa using closed⟩

include rel in
theorem ensuresOpenSession (requestId : Text) (user : AccountUser) (own : owner user.id) :
    o.Ensures (openSession settings requestId user) (fun _ _ => True) s := by
  refine ensuresBind (ensuresGet (fun _ _ _ _ => ensuresBind (ensuresGet (fun _ _ _ _ => ?_))))
  refine ensuresBind (ensuresGet (fun _ _ _ _ => ensuresBind (ensuresGet (fun _ _ _ _ => ?_))))
  refine ensuresBind (ensuresWrite pre (fun _ _ => ⟨rfl,own⟩) (fun s₁ s₂ _ ok => ?_))
  have held := createHolds ok
  refine ensuresBind (ensuresGet (fun s₃ past _ _ => ?_))
  refine ensuresBind (ensuresWrite pre (fun s₄ past' => ?_) (fun _ _ _ _ => ensuresPure trivial))
  exact ((held.kept (rel _ _ past.2)).kept (rel _ _ past'.2)).loggedIn _ _ _

/-- Who a secret and an address open an account for. -/
def Opens (settings : Settings) (secret email : Text) (user : AccountUser) : Prop :=
  ∃ sharedSecret, settings.provider = .localProvider sharedSecret ∧ settings.hash secret = settings.hash sharedSecret ∧
    ∃ n, user.email = (normalizeAccountEmail settings)^[n+1] email

omit pre in
theorem foundEmail {email : Text} {user : AccountUser} (found : Users.findByEmail settings email s = some user) :
    user ∈ s.users ∧ user.email = normalizeAccountEmail settings email := by
  unfold Users.findByEmail at found
  exact ⟨List.mem_of_find?_eq_some found,by simpa using List.find?_some found⟩

omit pre in
theorem ensuresAuthenticate (email secret : Text) :
    o.Ensures (authenticate settings email secret)
      (fun identity _ => ∀ address ∈ identity, ∃ sharedSecret, settings.provider = .localProvider sharedSecret ∧
        settings.hash secret = settings.hash sharedSecret ∧ ∃ n, address = (normalizeAccountEmail settings)^[n] email) s := by
  unfold authenticate
  split
  · exact ensuresFail
  · rename_i sharedSecret provider
    refine ensuresBind (ensuresGet (fun s₁ _ _ _ => ensuresPure (fun address mem => ?_)))
    obtain ⟨user,found,same⟩ := Option.bind_eq_some_iff.mp mem
    split at same <;> try contradiction
    rename_i matched
    cases Option.some.inj same
    exact ⟨sharedSecret,provider,matched,2,(foundEmail found).2⟩

include rel inv in
theorem ensuresLogin (input : LoginAccountUserInput)
    (who : ∀ s user, o.Inv s → user ∈ s.users → Opens settings input.secret input.email user → owner user.id) :
    o.Ensures (loginAccountUser settings input)
      (fun _ s' => ∀ row ∈ s.sessions, input.existingSessionTokenHash = some row.tokenHash → Closed row s') s := by
  refine ensuresBind (ensuresMono (fun identity s₁ authenticated => ?_) (ensuresLater rel (ensuresAuthenticate _ _)))
  obtain ⟨opened,first⟩ := authenticated
  cases identity with
  | none => exact ensuresBind (ensuresMono (fun _ _ _ => ensuresFail) (ensuresAppendFailed pre _))
  | some address =>
    obtain ⟨sharedSecret,provider,matched,n,named⟩ := opened address rfl
    refine ensuresBind (ensuresGet (fun s₂ past inv₂ _ => ?_))
    cases found : Users.findByEmail settings address s₂ with
    | none => exact ensuresBind (ensuresMono (fun _ _ _ => ensuresFail) (ensuresAppendFailed pre _))
    | some user =>
      obtain ⟨mem,same⟩ := foundEmail found
      have own : owner user.id := by
        refine who s₂ user inv₂ mem ⟨sharedSecret,provider,matched,n+1,?_⟩
        rw [same,named]
        exact (Function.iterate_succ_apply' _ (n+1) _).symm
      have evolved := first.trans (rel _ _ past.2)
      refine ensuresBind (ensuresMono (fun _ s₃ closed => ?_) (ensuresRevokeExisting pre rel inv input.existingSessionTokenHash))
      refine ensuresMono (fun _ s₄ opened row mem named => ?_) (ensuresLater rel (ensuresOpenSession pre rel _ user own))
      obtain ⟨row',mem',later⟩ := evolved.sessions row mem
      have closed := closed row' mem' (by rw [later.tokenHash]; exact named)
      exact (closed.earlier later).kept opened.2

structure Resolved (settings : Settings) (raw : Option Text) (s : Store) (session : AccountSession) (s' : Store) : Prop where
  presented : ∃ token ∈ raw, session.tokenHash = settings.hash token
  held : Held session s'
  own : ∀ row ∈ s.sessions, (∃ token ∈ raw, row.tokenHash = settings.hash token) → Later row session

omit pre in
include rel inv in
theorem ensuresResolve (raw : Option Text) :
    o.Ensures (resolveAccountSession settings raw) (fun session s' => Resolved settings raw s session s') s := by
  cases raw with
  | none => exact ensuresFail
  | some token =>
    refine ensuresBind (ensuresEnsure (fun _ => ?_))
    refine ensuresBind (ensuresFind (fun s₁ past inv₁ session found => ?_))
    have mem := List.mem_of_find?_eq_some found
    have named : session.tokenHash = settings.hash token := by simpa using List.find?_some found
    refine ensuresBind (ensuresEnsure (fun _ => ?_))
    refine ensuresBind (ensuresGet (fun s₂ past' _ _ => ?_))
    refine ensuresBind (ensuresEnsure (fun _ => ensuresPure ?_))
    refine ⟨⟨token,rfl,named⟩,Held.kept ⟨session,mem,.refl _⟩ (rel _ _ past'.2),?_⟩
    rintro row old ⟨_,same,own⟩
    cases same
    obtain ⟨row',mem',later⟩ := (rel _ _ past.2).sessions row old
    have same : row' = session :=
      List.inj_on_of_nodup_map (inv s₁ inv₁).tokens mem' mem (by rw [later.tokenHash,own,named])
    rw [← same]
    exact later

omit pre in
include rel inv in
theorem ensuresCaller (head : RequestHead) :
    o.Ensures (requireCaller settings head) (fun session s' => Resolved settings head.sessionCookie s session s') s := by
  refine ensuresBind (ensuresLift (fun _ _ => ?_))
  refine ensuresBind (ensuresMono (fun session s' resolved => ?_) (ensuresResolve rel inv head.sessionCookie))
  exact ensuresBind (ensuresLift (fun _ _ => ensuresPure resolved))

include rel in
theorem ensuresLogout {session : AccountSession} (requestId : Text) (held : Held session s) :
    o.Ensures (logoutAccountUser session requestId) (fun _ s' => Closed session s') s := by
  refine ensuresBind (ensuresGet (fun s₁ past _ _ => ?_))
  refine ensuresBind (ensuresMono (fun _ s₂ closed => ?_) (ensuresRevoke pre rel (held.kept (rel _ _ past.2))))
  refine ensuresBind (ensuresGet (fun s₃ past₃ _ _ => ?_))
  refine ensuresBind (ensuresGet (fun s₄ past₄ _ _ => ?_))
  have still := (closed.kept (rel _ _ past₃.2)).kept (rel _ _ past₄.2)
  exact ensuresClosing pre rel still ⟨rfl,rfl⟩ (.inl rfl)

include rel inv in
theorem ensuresRevokeAccountSession (actorUserId sessionId : Id) (requestId : Text) :
    o.Ensures (revokeAccountSession actorUserId sessionId requestId)
      (fun _ s' => ∀ row ∈ s.sessions, sessionId = row.id → Closed row s') s := by
  refine ensuresBind (ensuresFind (fun s₁ past inv₁ session found => ?_))
  have mem := List.mem_of_find?_eq_some found
  have named : session.id = sessionId := by simpa using List.find?_some found
  have own : ∀ row ∈ s.sessions, sessionId = row.id → Later row session := by
    intro row old same
    obtain ⟨row',mem',later⟩ := (rel _ _ past.2).sessions row old
    have same : row' = session := List.inj_on_of_nodup_map (inv s₁ inv₁).ids mem' mem (by rw [later.id,named,same])
    rw [← same]
    exact later
  have held : Held session s₁ := ⟨session,mem,.refl _⟩
  refine ensuresBind (ensuresEnsure (fun actor => ?_))
  refine ensuresWhen (fun _ => ?_) (fun closed row old same => ?_)
  · refine ensuresBind (ensuresGet (fun s₂ past₂ _ _ => ?_))
    refine ensuresBind (ensuresMono (fun _ s₃ closed => ?_) (ensuresRevoke pre rel (held.kept (rel _ _ past₂.2))))
    refine ensuresBind (ensuresGet (fun s₄ past₄ _ _ => ?_))
    refine ensuresBind (ensuresGet (fun s₅ past₅ _ _ => ?_))
    have still := (closed.kept (rel _ _ past₄.2)).kept (rel _ _ past₅.2)
    refine ensuresMono (fun _ s₆ (ended : Closed session s₆) row old same => ended.earlier (own row old same)) ?_
    exact ensuresClosing pre rel still ⟨rfl,congrArg some (of_decide_eq_true actor).symm⟩ (.inr rfl)
  · exact ⟨session,mem,own row old same,by simpa using closed⟩

omit pre in
include rel inv in
theorem ensuresOrganization (head : RequestHead) (route : OrganizationRoute) (organizationId : Option Id) :
    o.Ensures (organizationRoute settings head route organizationId) (fun _ _ => True) s := by
  have gate : o.Ensures (requireFor settings head route) (fun _ _ => True) s := by
    unfold requireFor
    split
    · exact ensuresMono (fun _ _ _ => trivial) (ensuresCaller rel inv head)
    · exact ensuresMono (fun _ _ _ => trivial) (ensuresResolve rel inv _)
  refine ensuresBind (ensuresMono (fun session s' _ => ?_) gate)
  cases organizationId with
  | none => exact ensuresBind ensuresFail
  | some id =>
    refine ensuresBind (ensuresBind (ensuresFind (fun _ _ _ _ _ => ensuresPure ?_)))
    exact ensuresBind (ensuresLift (fun _ _ => ensuresPure trivial))

/-- The request, once it is answered, has closed the session. -/
def Ends (settings : Settings) (row : AccountSession) : Request → Prop
  | .login head _ => ∃ token ∈ head.sessionCookie, token ≠ [] ∧ row.tokenHash = settings.hash token
  | .logout head => ∃ token ∈ head.sessionCookie, row.tokenHash = settings.hash token
  | .revoke _ sessionId => sessionId = some row.id
  | _ => False

/-- A login of the request opens only accounts that may be opened. -/
def Request.Owned (settings : Settings) (owner : Id → Prop) (inv : Store → Prop) : Request → Prop
  | .login _ body => ∀ b ∈ body, ∀ s user, inv s → user ∈ s.users → Opens settings b.2 b.1 user → owner user.id
  | _ => True

include rel inv in
theorem ensuresStart {request : Request} (who : request.Owned settings owner o.Inv) :
    o.Ensures (startRequest settings request)
      (fun _ s' => ∀ row ∈ s.sessions, Ends settings row request → Closed row s') s := by
  cases request with
  | login head body =>
    refine ensuresBind (ensuresLift (fun _ _ => ?_))
    have passed : o.Ensures external (fun _ _ => True) s := fun start s₁ _ inv₁ _ => ⟨inv₁,fun _ _ => trivial⟩
    refine ensuresBind (ensuresMono (fun _ s₁ passed => ?_) (ensuresLater rel passed))
    refine ensuresBind (ensuresLift (fun parsed given => ?_))
    cases body with
    | none => cases given
    | some b =>
      cases given
      refine ensuresBind (ensuresMono (fun result s₂ closed => ensuresPure ?_) (ensuresLogin pre rel inv _ (who parsed rfl)))
      rintro row mem ⟨token,cookie,nonempty,same⟩
      obtain ⟨row',mem',later⟩ := passed.2.sessions row mem
      have cookie : head.sessionCookie = some token := cookie
      refine (closed row' mem' ?_).earlier later
      simp [cookie,Option.filter,nonempty,later.tokenHash,same]
  | logout head =>
    refine ensuresBind (ensuresMono (fun session s₁ resolved => ?_) (ensuresCaller rel inv head))
    refine ensuresBind (ensuresMono (fun _ s₂ closed => ensuresPure ?_) (ensuresLogout pre rel _ resolved.held))
    exact fun row mem own => closed.earlier (resolved.own row mem own)
  | revoke head sessionId =>
    refine ensuresBind (ensuresMono (fun session s₁ caller => ?_) (ensuresLater rel (ensuresCaller rel inv head)))
    refine ensuresBind (ensuresLift (fun id given => ?_))
    refine ensuresBind (ensuresMono (fun _ s₂ closed => ensuresPure ?_) (ensuresRevokeAccountSession pre rel inv _ id _))
    intro row mem named
    cases (show sessionId = some row.id from named)
    cases given
    obtain ⟨row',mem',later⟩ := caller.2.sessions row mem
    exact (closed row' mem' later.id.symm).earlier later
  | currentUser head =>
    refine ensuresBind (ensuresMono (fun session _ _ => ?_) (ensuresResolve rel inv _))
    refine ensuresBind (ensuresFind (fun _ _ _ _ _ => ensuresBind (ensuresGet (fun _ _ _ _ => ?_))))
    exact ensuresPure (fun _ _ ends => ends.elim)
  | organization head route organizationId =>
    exact ensuresMono (fun _ _ _ _ _ ends => ends.elim) (ensuresOrganization rel inv head route organizationId)
  | directory users memberships =>
    exact ensuresBind (ensuresWrite pre (fun _ _ => trivial) (fun _ _ _ _ => ensuresPure (fun _ _ ends => ends.elim)))

end

/-! The runs. -/

theorem nothingMore {w : Write} {s s' : Store} (_ : True) (_ : Justified settings owner w s) (_ : anyScope.cond w s)
    (_ : w.run s = .ok s') : True := trivial

/-- The outline under any interleaving of any requests. -/
abbrev anyOutline (settings : Settings) : Outline (gateway settings) anyScope :=
  @sessionOutline settings (fun _ => True) anyScope (fun _ => True) nothingMore

theorem anyEnsures (request : Request) {s} : (anyOutline settings).Ensures (startRequest settings request)
    (fun _ s' => ∀ row ∈ s.sessions, Ends settings row request → Closed row s') s := by
  have owned : request.Owned settings (fun _ => True) (anyOutline settings).Inv := by
    cases request with
    | login head body => exact fun _ _ _ _ _ _ _ => trivial
    | _ => trivial
  exact ensuresStart (o := anyOutline settings) rfl (fun _ _ step => step) (fun _ inv => inv.1) owned

theorem anyStarts (request : Request) (s : Store) (_ : anyScope.allow request) (_ : (gateway settings).admits s request = true)
    (inv : (anyOutline settings).Inv s) : (anyOutline settings).Holds ((gateway settings).start request) (fun _ _ => True) s :=
  ensuresHolds (anyEnsures request) inv

abbrev Serving := Config Store Write Input (Except AppError Unit) (Except AppError Answer)

structure Fresh (s : Store) : Prop where
  directory : directoryFits s.users s.memberships s = true
  sessions : s.sessions = []
  events : s.events = []

theorem freshKept {s : Store} (fresh : Fresh s) : Kept settings s := by
  obtain ⟨users,emails,members,-⟩ := of_decide_eq_true fresh.directory
  have sessions := fresh.sessions
  have events := fresh.events
  refine ⟨users,emails,members,?_,?_,?_,?_,?_,?_⟩ <;> simp [sessions,events]

theorem reachedSound {s : Store} (fresh : Fresh s) {c : Serving} (run : Run (gateway settings) anyScope (initial s) c) :
    (anyOutline settings).Sound c :=
  (runSound anyStarts (initialSound ⟨freshKept fresh,trivial⟩) run).1

/-- Ids and tokens tell the sessions apart, each lives for as long as its login gave it and
belongs to a user there is; the log has no event twice, a login that is logged has its
session, and a session that is logged as closed is closed. From then on sessions do not
change, but that they are closed, once and for good, and the log only grows. -/
def SessionTableKept (settings : Settings) : Prop :=
  ∀ s, Fresh s → ∀ c c', Run (gateway settings) anyScope (initial s) c → Run (gateway settings) anyScope c c' →
    Kept settings c.store ∧ Evolved c.store c'.store

theorem sessionTableKept (settings : Settings) : SessionTableKept settings := by
  intro s fresh c c' run later
  have sound := reachedSound fresh run
  exact ⟨sound.inv.1,(runSound anyStarts sound later).2⟩

end ESign.Accounts
