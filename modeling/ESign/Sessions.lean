import ESign.Timeline

/-! What a commit does to the session table, row by row. An open session is presented,
exchanged, completed, revoked or expired; a closed one stays as it is; and only a send
and a rotation add rows, each of them issued and unused. -/
namespace ESign
open StoreProgram

def SigningSession.presented (s : SigningSession) (presentedAt : Date) : SigningSession :=
  { s with status := .active, lastPresentedAt := some presentedAt }

def SigningSession.exchanged (s : SigningSession) (u : ExchangeUnit) : SigningSession :=
  { s with
    tokenHash := u.tokenHash
    csrfTokenHash := some u.csrfTokenHash
    consumedAt := some u.now
    status := .active
    lastPresentedAt := some u.now
    version := s.version+1 }

def SigningSession.revokedOn (s : SigningSession) (revokedAt : Date) : SigningSession :=
  { s with status := .revoked, revokedAt := some revokedAt }

inductive SessionChange (s : SigningSession) : Write → SigningSession → Prop where
  | kept {w} : SessionChange s w s
  | presented {w} (isOpen : s.open = true) (presentedAt : Date) : SessionChange s w (s.presented presentedAt)
  | revoked {w} (isOpen : s.open = true) (revokedAt : Date) : SessionChange s w (s.revokedOn revokedAt)
  | expired {w} (isOpen : s.open = true) : SessionChange s w { s with status := .expired }
  | exchanged {u} (isOpen : s.open = true) (unused : s.consumedAt = none) (named : s.id = u.loaded.session.id) :
      SessionChange s (.exchange u) (s.exchanged u)
  | completed {u} (isOpen : s.open = true) (named : s.id = u.loaded.session.id) :
      SessionChange s (.complete u) { s with status := .completed, completedAt := some u.now }

def Write.opens : Write → List SigningSession
  | .send u => u.issued
  | .rotate u => [newSession u.sessionId u.signerId u.tokenHash u.expiresAt]
  | _ => []

/-- What the primary key and the two unique indexes let in. -/
structure Admitted (rows : List SigningSession) (session : SigningSession) : Prop where
  id : ∀ s ∈ rows, s.id ≠ session.id
  token : ∀ s ∈ rows, s.tokenHash ≠ session.tokenHash
  single : session.open = true → ∀ s ∈ rows, s.open = true → s.signerId ≠ session.signerId

inductive Opened (w : Write) : List SigningSession → List SigningSession → Prop where
  | none (rows) : Opened w rows rows
  | more {rows session rows'} (opened : session ∈ w.opens) (admitted : Admitted rows session)
      (rest : Opened w (rows ++ [session]) rows') : Opened w rows rows'

structure SessionsChanged (w : Write) (rows rows' : List SigningSession) : Prop where
  changed : ∃ moved, List.Forall₂ (fun s s' => SessionChange s w s') rows moved ∧ Opened w moved rows'
  tokens : (rows.map SigningSession.tokenHash).Nodup → (rows'.map SigningSession.tokenHash).Nodup

theorem Opened.trans {w rows rows' rows''} (left : Opened w rows rows') (right : Opened w rows' rows'') :
    Opened w rows rows'' := by
  induction left with
  | none => exact right
  | more opened admitted rest ih => exact .more opened admitted (ih right)

theorem Opened.tokens {w rows rows'} (h : Opened w rows rows') (distinct : (rows.map SigningSession.tokenHash).Nodup) :
    (rows'.map SigningSession.tokenHash).Nodup := by
  induction h with
  | none => exact distinct
  | @more rows session rows' opened admitted rest ih =>
    refine ih ?_
    rw [List.map_append,List.nodup_append]
    refine ⟨distinct,List.nodup_singleton _,?_⟩
    intro a old b new
    obtain ⟨s,mem,rfl⟩ := List.mem_map.mp old
    rw [List.map_singleton,List.mem_singleton] at new
    rw [new]
    exact admitted.token s mem

theorem Opened.mem {w rows rows'} (h : Opened w rows rows') : ∀ s ∈ rows', s ∈ rows ∨ s ∈ w.opens := by
  induction h with
  | none rows => exact fun s mem => .inl mem
  | more opened admitted rest ih =>
    intro s mem
    rcases ih s mem with old | new
    · rcases List.mem_append.mp old with old | last
      · exact .inl old
      · rw [List.mem_singleton.mp last]
        exact .inr opened
    · exact .inr new

theorem Opened.kept {w rows rows'} (h : Opened w rows rows') : ∀ s ∈ rows, s ∈ rows' := by
  induction h with
  | none rows => exact fun s mem => mem
  | more opened admitted rest ih => exact fun s mem => ih s (List.mem_append_left _ mem)

theorem SessionsChanged.same {w rows} : SessionsChanged w rows rows :=
  ⟨⟨rows,List.forall₂_same.mpr (fun _ _ => .kept),.none rows⟩,id⟩

theorem changedMap {w : Write} {rows : List SigningSession} {clause : SigningSession → Bool}
    {data : SigningSession → SigningSession} (change : ∀ s ∈ rows, clause s = true → SessionChange s w (data s))
    (token : ∀ s, (data s).tokenHash = s.tokenHash) :
    SessionsChanged w rows (rows.map (fun row => if clause row then data row else row)) := by
  refine ⟨⟨_,?_,.none _⟩,?_⟩
  · rw [List.forall₂_map_right_iff,List.forall₂_same]
    intro s mem
    split
    · rename_i hit
      exact change s mem hit
    · exact .kept
  · have same : (rows.map (fun row => if clause row then data row else row)).map SigningSession.tokenHash =
        rows.map SigningSession.tokenHash := by
      rw [List.map_map]
      refine List.map_congr_left (fun s _ => ?_)
      simp only [Function.comp]
      split
      · exact token s
      · rfl
    rw [same]
    exact id

theorem changedUpdate {w : Write} {rows out : List SigningSession} {clause : SigningSession → Bool}
    {data : SigningSession → SigningSession} {error} (ok : updateOne clause data error rows = .ok out)
    (change : ∀ s, clause s = true → SessionChange s w (data s)) (token : ∀ s, (data s).tokenHash = s.tokenHash) :
    SessionsChanged w rows out := by
  obtain ⟨rfl,-⟩ := updateOneOk ok
  exact changedMap (fun s _ => change s) token

theorem markExpiredChanged {w : Write} {sessionId e e'} (ok : SigningSessions.markExpired sessionId e = .ok e') :
    SessionsChanged w e.sessions e'.sessions := by
  obtain ⟨rows,updated,last⟩ := bindOk.mp ok
  cases last
  refine changedUpdate updated (fun s hit => ?_) (fun _ => rfl)
  rw [Bool.and_eq_true] at hit
  exact .expired hit.2

theorem markPresentedChanged {w : Write} {sessionId presentedAt e e'} (ids : (e.sessions.map SigningSession.id).Nodup)
    (ok : SigningSessions.markPresented sessionId presentedAt e = .ok e') :
    SessionsChanged w e.sessions e'.sessions := by
  unfold SigningSessions.markPresented at ok
  split at ok <;> try contradiction
  rename_i existing found
  split at ok <;> try contradiction
  rename_i presentable
  cases ok
  have mem := List.mem_of_find?_eq_some found
  have named : existing.id = sessionId := by simpa using List.find?_some found
  have changed : SessionsChanged w e.sessions (e.sessions.map (fun row => if decide (row.id = sessionId) then
      row.presented presentedAt else row)) := by
    refine changedMap (fun s other hit => ?_) (fun _ => rfl)
    have equal : s = existing := List.inj_on_of_nodup_map ids other mem (by rw [named]; exact of_decide_eq_true hit)
    subst equal
    exact .presented (by simpa [SigningSession.open] using presentable) presentedAt
  simpa [SigningSession.presented] using changed

theorem consumeChanged {u : ExchangeUnit} {e e'} (ids : (e.sessions.map SigningSession.id).Nodup)
    (ok : SigningSessions.consumeAndRotate u.loaded.session.id
      u.loaded.session.version u.tokenHash u.csrfTokenHash u.now e = .ok e') :
    SessionsChanged (.exchange u) e.sessions e'.sessions := by
  obtain ⟨rows,updated,ok⟩ := bindOk.mp ok
  obtain ⟨_,unused,last⟩ := bindOk.mp ok
  cases last
  obtain ⟨rfl,-⟩ := updateOneOk updated
  have clause : ∀ s : SigningSession, (decide (s.id = u.loaded.session.id) && decide (s.version = u.loaded.session.version) &&
      decide (s.consumedAt = none) && s.open) = true → s.open = true ∧ s.consumedAt = none ∧ s.id = u.loaded.session.id := by
    intro s hit
    simp only [Bool.and_eq_true,decide_eq_true_eq] at hit
    exact ⟨hit.2,hit.1.2,hit.1.1.1⟩
  refine ⟨⟨_,?_,.none _⟩,?_⟩
  · rw [List.forall₂_map_right_iff,List.forall₂_same]
    intro s mem
    split
    · rename_i hit
      obtain ⟨isOpen,unused,named⟩ := clause s hit
      exact .exchanged isOpen unused named
    · exact .kept
  · intro tokens
    rw [List.Nodup,List.pairwise_map] at ids tokens ⊢
    rw [List.pairwise_map]
    have others : ∀ s ∈ e.sessions, s.id ≠ u.loaded.session.id → s.tokenHash ≠ u.tokenHash := by
      intro s mem other
      have free := checkOk.mp unused
      simp only [Bool.not_eq_true',List.any_eq_false,Bool.and_eq_true,decide_eq_true_eq,not_and] at free
      exact free s mem other
    refine (ids.and tokens).imp_of_mem (fun {s t} sMem tMem distinct => ?_)
    obtain ⟨differ,token⟩ := distinct
    split
    · rename_i hit
      have named := (clause s hit).2.2
      rw [named] at differ
      rw [if_neg (fun hit' => differ (clause t hit').2.2.symm)]
      exact (others t tMem (Ne.symm differ)).symm
    · split
      · rename_i hit'
        have named := (clause t hit').2.2
        rw [named] at differ
        exact others s sMem differ
      · exact token

theorem markCompletedChanged {u : CompleteUnit} {e e'}
    (ok : SigningSessions.markCompleted u.loaded.session.id u.now e = .ok e') :
    SessionsChanged (.complete u) e.sessions e'.sessions := by
  unfold SigningSessions.markCompleted at ok
  split at ok
  · cases ok
    exact .same
  · obtain ⟨rows,updated,last⟩ := bindOk.mp ok
    cases last
    refine changedUpdate updated (fun s hit => ?_) (fun _ => rfl)
    rw [Bool.and_eq_true,decide_eq_true_eq] at hit
    exact .completed hit.2 hit.1

/- Revoking twice is revoking once: the second meets a closed row. -/
inductive Withdrawn (s : SigningSession) : SigningSession → Prop where
  | kept : Withdrawn s s
  | revoked (isOpen : s.open = true) (revokedAt : Date) : Withdrawn s (s.revokedOn revokedAt)

theorem Withdrawn.trans (a b c : SigningSession) (left : Withdrawn a b) (right : Withdrawn b c) : Withdrawn a c := by
  cases left with
  | kept => exact right
  | revoked isOpen revokedAt =>
    cases right with
    | kept => exact .revoked isOpen revokedAt
    | revoked again _ => cases again

theorem Withdrawn.change {w s s'} (h : Withdrawn s s') : SessionChange s w s' := by
  cases h with
  | kept => exact .kept
  | revoked isOpen revokedAt => exact .revoked isOpen revokedAt

theorem Withdrawn.token {s s'} (h : Withdrawn s s') : s'.tokenHash = s.tokenHash := by
  cases h <;> rfl

abbrev AllWithdrawn (rows rows' : List SigningSession) : Prop := List.Forall₂ Withdrawn rows rows'

theorem withdrawnTokens {rows rows'} (h : AllWithdrawn rows rows') :
    rows'.map SigningSession.tokenHash = rows.map SigningSession.tokenHash := by
  induction h with
  | nil => rfl
  | cons first _ ih => simp [first.token,ih]

theorem revokeWithdrawn {sessionId revokedAt e e'} (ok : SigningSessions.revoke sessionId revokedAt e = .ok e') :
    AllWithdrawn e.sessions e'.sessions := by
  obtain ⟨rows,updated,last⟩ := bindOk.mp ok
  cases last
  obtain ⟨rfl,-⟩ := updateOneOk updated
  rw [AllWithdrawn,List.forall₂_map_right_iff,List.forall₂_same]
  intro s mem
  split
  · rename_i hit
    rw [Bool.and_eq_true] at hit
    exact .revoked hit.2 revokedAt
  · exact .kept

theorem withdrawnRefl (rows : List SigningSession) : AllWithdrawn rows rows := List.forall₂_same.mpr (fun _ _ => .kept)

theorem revokeOpenWithdrawn {revokedAt list} {e e' : Envelope} (ok : revokeOpen revokedAt list e = .ok e') :
    AllWithdrawn e.sessions e'.sessions := by
  induction list generalizing e with
  | nil =>
    cases ok
    exact withdrawnRefl _
  | cons session rest ih =>
    rw [revokeOpen] at ok
    obtain ⟨mid,first,ok⟩ := bindOk.mp ok
    refine forall₂Trans Withdrawn.trans ?_ (ih ok)
    unfold revokeIfOpen at first
    split at first
    · exact revokeWithdrawn first
    · cases first
      exact withdrawnRefl _

theorem withdrawnChanged {w : Write} {rows rows'} (h : AllWithdrawn rows rows') : SessionsChanged w rows rows' := by
  refine ⟨⟨rows',h.imp (fun _ _ row => row.change),.none rows'⟩,?_⟩
  rw [withdrawnTokens h]
  exact id

theorem revokeAllWithdrawn {u : RotateUnit} {list} {e e' : Envelope} (ok : u.revokeAll list e = .ok e') :
    AllWithdrawn e.sessions e'.sessions := by
  induction list generalizing e with
  | nil =>
    cases ok
    exact withdrawnRefl _
  | cons session rest ih =>
    rw [RotateUnit.revokeAll] at ok
    obtain ⟨first,revoked,ok⟩ := bindOk.mp ok
    obtain ⟨second,logged,ok⟩ := bindOk.mp ok
    have rest := ih ok
    rw [appendEffect logged] at rest
    exact forall₂Trans Withdrawn.trans (revokeWithdrawn revoked) rest

theorem createAdmitted {session e e'} (ok : SigningSessions.create session e = .ok e') :
    e' = { e with sessions := e.sessions ++ [session] } ∧ Admitted e.sessions session := by
  obtain ⟨_,unique,ok⟩ := bindOk.mp ok
  obtain ⟨_,single,ok⟩ := bindOk.mp ok
  obtain ⟨_,_,last⟩ := bindOk.mp ok
  cases last
  have unique := checkOk.mp unique
  simp only [Bool.not_eq_true',List.any_eq_false,Bool.or_eq_true,decide_eq_true_eq,not_or] at unique
  have single := checkOk.mp single
  simp only [Bool.not_eq_true',Bool.and_eq_false_iff,List.any_eq_false,Bool.and_eq_true,decide_eq_true_eq,not_and] at single
  refine ⟨rfl,fun s mem => (unique s mem).1,fun s mem => (unique s mem).2,fun isOpen s mem rowOpen same => ?_⟩
  rcases single with closed | none
  · rw [isOpen] at closed
    cases closed
  · exact none s mem same rowOpen

theorem rotateChanged {u : RotateUnit} {e e'} (ok : u.run e = .ok e') : SessionsChanged (.rotate u) e.sessions e'.sessions := by
  obtain ⟨first,revoked,ok⟩ := bindOk.mp ok
  obtain ⟨second,created,logged⟩ := bindOk.mp ok
  obtain ⟨rfl,admitted⟩ := createAdmitted created
  rw [appendEffect logged]
  have withdrawn := revokeAllWithdrawn revoked
  have opened : Opened (.rotate u) first.sessions
      (first.sessions ++ [newSession u.sessionId u.signerId u.tokenHash u.expiresAt]) :=
    .more List.mem_cons_self admitted (.none _)
  refine ⟨⟨first.sessions,withdrawn.imp (fun _ _ row => row.change),opened⟩,fun tokens => opened.tokens ?_⟩
  rw [withdrawnTokens withdrawn]
  exact tokens

theorem issueOpened {u : SendUnit} {i list n} {e e' : Envelope} (sub : ∀ session ∈ list, session ∈ u.issued)
    (ok : u.issue i list n e = .ok e') : Opened (.send u) e.sessions e'.sessions := by
  induction list generalizing n e with
  | nil =>
    cases ok
    exact .none _
  | cons session rest ih =>
    rw [SendUnit.issue] at ok
    obtain ⟨_,_,ok⟩ := bindOk.mp ok
    obtain ⟨first,created,ok⟩ := bindOk.mp ok
    obtain ⟨second,logged,ok⟩ := bindOk.mp ok
    obtain ⟨third,published,last⟩ := bindOk.mp ok
    obtain ⟨rfl,admitted⟩ := createAdmitted created
    have rest := ih (fun other mem => sub other (List.mem_cons_of_mem _ mem)) last
    rw [publishEffect published,appendEffect logged] at rest
    exact .more (sub session List.mem_cons_self) admitted rest

theorem sendChanged {u : SendUnit} {i e e'} (ok : u.run i e = .ok e') : SessionsChanged (.send u) e.sessions e'.sessions := by
  obtain ⟨first,marked,ok⟩ := bindOk.mp ok
  obtain ⟨second,issued,logged⟩ := bindOk.mp ok
  have opened := issueOpened (fun session mem => mem) issued
  rw [(updateDocumentOk marked).2] at opened
  rw [appendEffect logged]
  exact ⟨⟨e.sessions,List.forall₂_same.mpr (fun _ _ => .kept),opened⟩,opened.tokens⟩

theorem completeChanged {u : CompleteUnit} {i e e'} (ok : u.run i e = .ok e') :
    SessionsChanged (.complete u) e.sessions e'.sessions := by
  obtain ⟨first,fields,ok⟩ := bindOk.mp ok
  obtain ⟨second,signed,ok⟩ := bindOk.mp ok
  obtain ⟨third,completed,ok⟩ := bindOk.mp ok
  obtain ⟨fourth,moved,ok⟩ := bindOk.mp ok
  obtain ⟨fifth,logged,published⟩ := bindOk.mp ok
  obtain ⟨rows,rfl,-⟩ := completeFieldsEffect fields
  obtain ⟨document,rfl,-⟩ := moveDocumentEffect moved
  rw [publishEffect published,appendEffect logged]
  have same : second.sessions = e.sessions := by
    obtain ⟨signers,rfl⟩ := markSignedFrame signed
    rfl
  have changed := markCompletedChanged completed
  rw [same] at changed
  exact changed

theorem voidWithdrawn {u : VoidUnit} {e e'} (ok : u.run e = .ok e') : AllWithdrawn e.sessions e'.sessions := by
  obtain ⟨first,marked,ok⟩ := bindOk.mp ok
  obtain ⟨second,revoked,logged⟩ := bindOk.mp ok
  have withdrawn := revokeOpenWithdrawn revoked
  rw [(updateDocumentOk marked).2] at withdrawn
  rw [appendEffect logged]
  exact withdrawn

theorem declineWithdrawn {u : DeclineUnit} {e e'} (ok : u.run e = .ok e') : AllWithdrawn e.sessions e'.sessions := by
  obtain ⟨first,declined,ok⟩ := bindOk.mp ok
  obtain ⟨second,marked,ok⟩ := bindOk.mp ok
  obtain ⟨third,revoked,logged⟩ := bindOk.mp ok
  obtain ⟨rows,-,last⟩ := bindOk.mp declined
  cases last
  have withdrawn := revokeOpenWithdrawn revoked
  rw [(updateDocumentOk marked).2] at withdrawn
  rw [appendEffect logged]
  exact withdrawn

theorem sessionsChanged {w : Write} {i e e'} (inv : Consistent e) (ok : w.run i e = .ok e') :
    SessionsChanged w e.sessions e'.sessions := by
  have kept : e'.sessions = e.sessions → SessionsChanged w e.sessions e'.sessions := by
    intro same
    rw [same]
    exact .same
  cases w with
  | createIdempotency record =>
    obtain ⟨_,_,last⟩ := bindOk.mp ok
    cases last
    exact .same
  | completeIdempotency recordId response =>
    obtain ⟨_,_,last⟩ := bindOk.mp ok
    cases last
    exact .same
  | markExpired sessionId => exact markExpiredChanged ok
  | markPresented sessionId presentedAt => exact markPresentedChanged inv.sessionIds ok
  | upload u => exact kept (uploadEffect ok).sessions
  | abandon u =>
    obtain ⟨first,marked,logged⟩ := bindOk.mp ok
    obtain ⟨rows,-,last⟩ := bindOk.mp marked
    cases last
    exact kept (by rw [appendEffect logged])
  | inspect u => exact kept (inspectEffect ok).sessions
  | replaceSigners u => exact kept (replaceSignersEffect ok).sessions
  | replaceFields u => exact kept (replaceFieldsEffect ok).sessions
  | send u => exact sendChanged ok
  | void u => exact withdrawnChanged (voidWithdrawn ok)
  | rotate u => exact rotateChanged ok
  | revoke u =>
    obtain ⟨first,revoked,logged⟩ := bindOk.mp ok
    have withdrawn := revokeWithdrawn revoked
    rw [appendEffect logged]
    exact withdrawnChanged withdrawn
  | exchange u =>
    obtain ⟨first,consumed,logged⟩ := bindOk.mp ok
    have changed := consumeChanged inv.sessionIds consumed
    rw [appendEffect logged]
    exact changed
  | viewed u =>
    obtain ⟨first,presented,logged⟩ := bindOk.mp ok
    have changed := @markPresentedChanged (.viewed u) _ _ _ _ inv.sessionIds presented
    rw [appendEffect logged]
    exact changed
  | consent u =>
    obtain ⟨first,created,logged⟩ := bindOk.mp ok
    obtain ⟨_,_,last⟩ := bindOk.mp created
    cases last
    exact kept (by rw [appendEffect logged])
  | decline u => exact withdrawnChanged (declineWithdrawn ok)
  | complete u => exact completeChanged ok
  | takeLease input expectedVersion leaseUntil now current =>
    have ok : Documents.takeLease expectedVersion input.owner leaseUntil now current e = .ok e' := ok
    exact kept (by rw [(updateDocumentOk ok).2])
  | finalizationStarted input occurredAt => exact kept (by rw [appendEffect ok])
  | flatten u => exact kept (flattenEffect ok).sessions
  | persist u =>
    refine kept ?_
    have ok : u.run e = .ok e' := ok
    unfold PersistUnit.run at ok
    split at ok
    · cases ok
      rfl
    · obtain ⟨first,created,logged⟩ := bindOk.mp ok
      obtain ⟨_,_,last⟩ := bindOk.mp created
      cases last
      rw [appendEffect logged]
  | markFinalizationFailed owner =>
    cases ok
    refine kept ?_
    rcases markFinalizationFailedCases owner e with same | ⟨-,changed⟩
    · rw [same]
    · rw [changed]
  | finalizationFailed input code occurredAt => exact kept (by rw [appendEffect ok])
  | releaseLease owner =>
    cases ok
    refine kept ?_
    rcases releaseCases owner e with same | changed
    · rw [same]
    · rw [changed]

end ESign
