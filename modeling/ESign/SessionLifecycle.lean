import ESign.Sessions
import ESign.Fence

/-! Signing sessions over whole runs: no session stays open on a dead document, statuses
follow their table, and a URL token is good for one exchange. -/
namespace ESign
open StoreProgram

/-! Open sessions of dead documents. -/

/-- No rotation is executed on a voided or declined document. -/
def rotatesUnfenced : Scope Envelope Write Request where
  allow _ := True
  cond
    | .rotate _, e => e.document.state.fenced = false
    | _, _ => True

def AllClosed (e : Envelope) : Prop := e.document.state.fenced = true → ∀ s ∈ e.sessions, s.open = false

theorem SessionChange.closed {w s s'} (h : SessionChange s w s') (closed : s.open = false) : s' = s := by
  cases h with
  | kept => rfl
  | presented isOpen => rw [closed] at isOpen; cases isOpen
  | revoked isOpen => rw [closed] at isOpen; cases isOpen
  | expired isOpen => rw [closed] at isOpen; cases isOpen
  | exchanged isOpen => rw [closed] at isOpen; cases isOpen
  | completed isOpen => rw [closed] at isOpen; cases isOpen

theorem SessionsChanged.source {w rows rows'} (h : SessionsChanged w rows rows') :
    ∀ s' ∈ rows', (∃ s ∈ rows, SessionChange s w s') ∨ s' ∈ w.opens := by
  obtain ⟨moved,changed,opened⟩ := h.changed
  intro s' mem
  rcases opened.mem s' mem with old | new
  · exact .inl (forall₂Source changed s' old)
  · exact .inr new

theorem keepClosed {w : Write} {i e e'} (inv : Consistent e) (extra : AllClosed e) (just : Justified Before w e)
    (cond : rotatesUnfenced.cond w e) (ok : w.run i e = .ok e') (done : Committed i e e' w) : AllClosed e' := by
  intro fenced s' mem
  rcases fenceRaised done fenced with before | ⟨u,-,h⟩ | ⟨u,-,h⟩
  · rcases (sessionsChanged inv ok).source s' mem with ⟨s,found,change⟩ | opened
    · have closed := extra before s found
      rw [change.closed closed]
      exact closed
    · cases w with
      | rotate u =>
        rw [show e.document.state.fenced = false from cond] at before
        cases before
      | send u =>
        obtain ⟨atDocument,atRoster,signers,source,-⟩ := just
        rw [(sendEffect (fun session mem => (source.issued session mem).1) ok).document] at fenced
        cases fenced
      | _ => cases opened
  · exact h.closed s' mem
  · exact h.closed s' mem

def closedExtension : Extension rotatesUnfenced where
  Extra := AllClosed
  Also _ _ := True
  refl _ := trivial
  trans _ _ := trivial
  keep inv extra _ just cond ok done _ _ := ⟨keepClosed inv extra just cond ok done,trivial⟩

def NoOpenSession (settings : Settings) (scope : Scope Envelope Write Request) (draft : NewDraft) : Prop :=
  ∀ c, Run (esign settings) scope (initial (createDraftDocument draft)) c →
    (c.store.document.state = .voided ∨ c.store.document.state = .declined) →
    ∀ s ∈ c.store.sessions, s.status ≠ .issued ∧ s.status ≠ .active

theorem deadDocumentClosed (settings : Settings) (draft : NewDraft) : NoOpenSession settings rotatesUnfenced draft := by
  intro c reached dead s mem
  have closed := (closedExtension.run ⟨draftConsistent draft,fun fenced => by cases fenced⟩ reached).inv.2
  exact openStatus.mp (closed (decide_eq_true dead) s mem)

namespace ThreeSigners

def sent : List (Action Input Request) := prepared .parallel ++ served 4 5 13 (.sendDocument ⟨3,none,some 9⟩)

/-- A rotation has read the document as sent when it is voided. -/
def rotatedAfterVoid : List (Action Input Request) :=
  sent ++ served 5 6 5 (.rotateSigningSession 300 3) ++ served 6 7 8 (.voidDocument 3 (some 8)) ++ turns 5 6 1

def rotatedBeforeVoid : List (Action Input Request) :=
  sent ++ served 5 6 7 (.rotateSigningSession 300 3) ++ served 6 7 8 (.voidDocument 3 (some 8))

end ThreeSigners

set_option maxRecDepth 100000 in
/-- The rotation takes no version, so it issues a session on the voided document. -/
theorem issuedAfterVoid : ¬ NoOpenSession ThreeSigners.settings (Scope.of (fun _ => True)) ThreeSigners.draft := by
  intro none
  have evaluated : ((esign ThreeSigners.settings).applyAll (fun _ _ => true) ThreeSigners.start
      ThreeSigners.rotatedAfterVoid).map (fun c => (c.store.document.state,
        c.store.sessions.any (fun s => s.status = .issued))) = some (.voided,true) := by decide +kernel
  obtain ⟨c,reached,states⟩ := Option.map_eq_some_iff.mp evaluated
  rw [Prod.mk.injEq,List.any_eq_true] at states
  obtain ⟨voided,s,mem,issued⟩ := states
  have run : Run (esign ThreeSigners.settings) (Scope.of (fun _ => True)) ThreeSigners.start c :=
    runOfActions (fun _ _ => trivial) (fun _ _ _ => trivial) reached
  exact (none c run (.inl voided) s mem).1 (of_decide_eq_true issued)

def rotatesUnfencedCheck (w : Write) (e : Envelope) : Bool :=
  match w with
  | .rotate _ => !e.document.state.fenced
  | _ => true

theorem rotatesUnfencedChecked (w : Write) (e : Envelope) (ok : rotatesUnfencedCheck w e = true) :
    rotatesUnfenced.cond w e := by
  cases w with
  | rotate u =>
    change e.document.state.fenced = false
    simpa [rotatesUnfencedCheck] using ok
  | _ => trivial

set_option maxRecDepth 100000 in
/-- A rotation in time: the void closes the session it issued, and the three of the send. -/
theorem rotatedThenVoided : ∃ c, Run (esign ThreeSigners.settings) rotatesUnfenced ThreeSigners.start c ∧
    c.store.document.state = .voided ∧ c.store.sessions.length = 4 ∧
    ∀ s ∈ c.store.sessions, s.status ≠ .issued ∧ s.status ≠ .active := by
  have evaluated : ((esign ThreeSigners.settings).applyAll rotatesUnfencedCheck ThreeSigners.start
      ThreeSigners.rotatedBeforeVoid).map (fun c => (c.store.document.state,c.store.sessions.length)) =
      some (.voided,4) := by decide +kernel
  obtain ⟨c,reached,states⟩ := Option.map_eq_some_iff.mp evaluated
  rw [Prod.mk.injEq] at states
  have run := runOfActions (fun _ _ => trivial) rotatesUnfencedChecked reached
  exact ⟨c,run,states.1,states.2,deadDocumentClosed _ ThreeSigners.draft c run (.inl states.1)⟩

/-! The lifecycle of a session. -/

structure SessionsSound (e : Envelope) : Prop where
  tokens : (e.sessions.map SigningSession.tokenHash).Nodup
  used : ∀ s ∈ e.sessions, s.consumedAt.isSome = true → s.status ≠ .issued
  single : e.sessions.Pairwise (fun s t => s.open = true → t.open = true → s.signerId ≠ t.signerId)

/-- A session seen later: it is used once, and its token is the one it was issued with
until then and the one of the exchange from then on. -/
structure SessionFurther (s s' : SigningSession) : Prop where
  id : s'.id = s.id
  used : s.consumedAt.isSome = true → s'.consumedAt = s.consumedAt ∧ s'.tokenHash = s.tokenHash
  unused : s'.consumedAt = none → s'.tokenHash = s.tokenHash

def SessionsFurther (e e' : Envelope) : Prop := ∀ s ∈ e.sessions, ∃ s' ∈ e'.sessions, SessionFurther s s'

theorem SessionFurther.refl (s : SigningSession) : SessionFurther s s := ⟨rfl,fun _ => ⟨rfl,rfl⟩,fun _ => rfl⟩

theorem SessionFurther.trans {a b c} (left : SessionFurther a b) (right : SessionFurther b c) : SessionFurther a c where
  id := right.id.trans left.id
  used := by
    intro used
    obtain ⟨same,token⟩ := left.used used
    obtain ⟨same',token'⟩ := right.used (by rw [same]; exact used)
    exact ⟨same'.trans same,token'.trans token⟩
  unused := by
    intro unused
    have between : b.consumedAt = none := by
      cases used : b.consumedAt with
      | none => rfl
      | some consumedAt =>
        have same := (right.used (by rw [used]; rfl)).1
        rw [unused,used] at same
        cases same
    exact (right.unused unused).trans (left.unused between)

theorem SessionsFurther.trans {a b c} (left : SessionsFurther a b) (right : SessionsFurther b c) : SessionsFurther a c := by
  intro s mem
  obtain ⟨s',mem',first⟩ := left s mem
  obtain ⟨s'',mem'',second⟩ := right s' mem'
  exact ⟨s'',mem'',first.trans second⟩

theorem SessionChange.further {w s s'} (h : SessionChange s w s') : SessionFurther s s' := by
  cases h with
  | exchanged isOpen unused named =>
    refine ⟨rfl,fun used => ?_,fun again => by cases again⟩
    rw [unused] at used
    cases used
  | _ => exact ⟨rfl,fun _ => ⟨rfl,rfl⟩,fun _ => rfl⟩

theorem SessionChange.owner {w s s'} (h : SessionChange s w s') : s'.signerId = s.signerId := by
  cases h <;> rfl

theorem SessionChange.wasOpen {w s s'} (h : SessionChange s w s') (isOpen : s'.open = true) : s.open = true := by
  cases closed : s.open with
  | true => rfl
  | false =>
    rw [h.closed closed,closed] at isOpen
    cases isOpen

theorem SessionChange.used {w s s'} (h : SessionChange s w s') (sound : s.consumedAt.isSome = true → s.status ≠ .issued) :
    s'.consumedAt.isSome = true → s'.status ≠ .issued := by
  cases h with
  | kept => exact sound
  | _ =>
    intro _ issued
    cases issued

theorem pairwiseForall₂ {α : Type} {R P : α → α → Prop} (step : ∀ x x' y y', R x x' → R y y' → P x y → P x' y')
    {rows rows' : List α} (h : List.Forall₂ R rows rows') (pairs : rows.Pairwise P) : rows'.Pairwise P := by
  induction h with
  | nil => exact .nil
  | @cons x x' rows rows' first rest ih =>
    obtain ⟨head,tail⟩ := List.pairwise_cons.mp pairs
    refine List.pairwise_cons.mpr ⟨fun y' mem => ?_,ih tail⟩
    obtain ⟨y,found,row⟩ := forall₂Source rest y' mem
    exact step x x' y y' first row (head y found)

theorem Opened.single {w rows rows'} (h : Opened w rows rows')
    (pairs : rows.Pairwise (fun s t => s.open = true → t.open = true → s.signerId ≠ t.signerId)) :
    rows'.Pairwise (fun s t => s.open = true → t.open = true → s.signerId ≠ t.signerId) := by
  induction h with
  | none => exact pairs
  | more opened admitted rest ih =>
    refine ih (List.pairwise_append.mpr ⟨pairs,List.pairwise_singleton _ _,fun s mem t last => ?_⟩)
    rw [List.mem_singleton.mp last]
    exact fun sOpen tOpen => admitted.single tOpen s mem sOpen

theorem openedUnused {w : Write} {e} (just : Justified Before w e) : ∀ s ∈ w.opens, s.consumedAt = none := by
  intro s mem
  cases w with
  | send u =>
    obtain ⟨atDocument,atRoster,signers,source,-⟩ := just
    exact source.unused s mem
  | rotate u =>
    rw [List.mem_singleton.mp mem]
    rfl
  | _ => cases mem

theorem keepSound {w : Write} {e e' : Envelope} (extra : SessionsSound e) (just : Justified Before w e)
    (h : SessionsChanged w e.sessions e'.sessions) : SessionsSound e' where
  tokens := h.tokens extra.tokens
  used := by
    intro s' mem'
    rcases h.source s' mem' with ⟨s,mem,change⟩ | opened
    · exact change.used (extra.used s mem)
    · intro used
      rw [openedUnused just s' opened] at used
      cases used
  single := by
    obtain ⟨moved,changed,opened⟩ := h.changed
    refine opened.single (pairwiseForall₂ (fun s s' t t' first second differ sOpen tOpen => ?_) changed extra.single)
    rw [first.owner,second.owner]
    exact differ (first.wasOpen sOpen) (second.wasOpen tOpen)

theorem keepFurther {w : Write} {e e' : Envelope} (h : SessionsChanged w e.sessions e'.sessions) : SessionsFurther e e' := by
  obtain ⟨moved,changed,opened⟩ := h.changed
  intro s mem
  obtain ⟨s',found,change⟩ := forall₂Source changed.flip s mem
  exact ⟨s',opened.kept s' found,change.further⟩

def sessionExtension : Extension (Scope.of (fun _ => True)) where
  Extra := SessionsSound
  Also := SessionsFurther
  refl _ s mem := ⟨s,mem,.refl s⟩
  trans := .trans
  keep inv extra _ just _ ok _ _ _ :=
    ⟨keepSound extra just (sessionsChanged inv ok),keepFurther (sessionsChanged inv ok)⟩

theorem draftSound (draft : NewDraft) : SessionsSound (createDraftDocument draft) where
  tokens := List.nodup_nil
  used _ mem := by cases mem
  single := .nil

theorem loadedFurther {l : LoadedSignerSession} {e} (h : Loaded sessionExtension.Past l e) :
    ∃ s ∈ e.sessions, SessionFurther l.session s := by
  obtain ⟨first,second,third,source,later⟩ := h
  exact (source.later.1.2.2.trans (source.later.2.2.2.trans later.2.2)) l.session source.session

theorem loadedSigning {u : CompleteUnit} {e} (past : Justified sessionExtension.Past (.complete u) e) :
    ∃ s ∈ e.sessions, s.id = u.loaded.session.id ∧ s.consumedAt.isSome = true := by
  obtain ⟨atRoster,atFields,atConsent,source,later⟩ := past
  obtain ⟨first,second,third,session,next⟩ := source.loaded
  have loaded : Loaded sessionExtension.Past u.loaded e :=
    ⟨first,second,third,session,next.1,next.2.1.trans (source.later.2.1.trans (source.toConsent.2.1.trans later.2.1)),
      next.2.2.trans (source.later.2.2.trans (source.toConsent.2.2.trans later.2.2))⟩
  obtain ⟨s,mem,further⟩ := loadedFurther loaded
  refine ⟨s,mem,further.id,?_⟩
  rw [(further.used source.exchanged).1]
  exact source.exchanged

/- Completing is the one update that is wider than the table: it takes an issued session,
too. A signing has loaded a used session, and a used session is not issued. -/
theorem changeLawful {w : Write} {e} (inv : Consistent e) (extra : SessionsSound e)
    (past : Justified sessionExtension.Past w e) {s s' : SigningSession} (mem : s ∈ e.sessions) (h : SessionChange s w s') :
    s'.status = s.status ∨ canTransitionSigningSession s.status s'.status = true := by
  have isOpen : s.open = true → s.status = .issued ∨ s.status = .active := fun isOpen => of_decide_eq_true isOpen
  cases h with
  | kept => exact .inl rfl
  | presented running =>
    rcases isOpen running with status | status
    · exact .inr (by rw [status]; rfl)
    · exact .inl status.symm
  | revoked running =>
    refine .inr ?_
    rcases isOpen running with status | status <;> rw [status] <;> rfl
  | expired running =>
    refine .inr ?_
    rcases isOpen running with status | status <;> rw [status] <;> rfl
  | exchanged running =>
    rcases isOpen running with status | status
    · exact .inr (by rw [status]; rfl)
    · exact .inl status.symm
  | completed running named =>
    obtain ⟨t,found,same,used⟩ := loadedSigning past
    rw [sameSession inv found mem (same.trans named.symm)] at used
    rcases isOpen running with status | status
    · exact absurd status (extra.used s mem used)
    · exact .inr (by rw [status]; rfl)

/-! One token. -/

def Write.tokens : Write → List Id
  | .send u => u.issued.map SigningSession.tokenHash
  | .rotate u => [u.tokenHash]
  | .exchange u => [u.tokenHash]
  | _ => []

/-- A token that is not generated any more: generated tokens are fresh. -/
def withoutToken (token : Id) : Scope Envelope Write Request where
  allow _ := True
  cond w _ := token ∉ w.tokens

/-- Nothing is left that the token would open. -/
def Spent (token : Id) (e : Envelope) : Prop :=
  ∀ s ∈ e.sessions, s.tokenHash = token → s.status = .revoked ∨ s.status = .expired

theorem spentClosed {s : SigningSession} (h : s.status = .revoked ∨ s.status = .expired) : s.open = false := by
  unfold SigningSession.open
  rcases h with status | status <;> rw [status] <;> rfl

theorem changedToken {w : Write} {token : Id} (other : token ∉ w.tokens) {s s' : SigningSession}
    (h : SessionChange s w s') (same : s'.tokenHash = token) : s.tokenHash = token := by
  cases h with
  | exchanged isOpen unused named =>
    rw [Write.tokens,List.mem_singleton] at other
    exact absurd same.symm other
  | _ => exact same

theorem openedToken {w : Write} {token : Id} (other : token ∉ w.tokens) : ∀ s ∈ w.opens, s.tokenHash ≠ token := by
  intro s mem same
  cases w with
  | send u => exact other (List.mem_map.mpr ⟨s,mem,same⟩)
  | rotate u =>
    rw [List.mem_singleton.mp mem] at same
    exact other (List.mem_singleton.mpr same.symm)
  | _ => cases mem

theorem keepSpent {w : Write} {token : Id} {e e' : Envelope} (extra : Spent token e) (other : token ∉ w.tokens)
    (h : SessionsChanged w e.sessions e'.sessions) : Spent token e' := by
  intro s' mem' same
  rcases h.source s' mem' with ⟨s,mem,change⟩ | opened
  · have spent := extra s mem (changedToken other change same)
    rw [change.closed (spentClosed spent)]
    exact spent
  · exact absurd same (openedToken other s' opened)

/-- A session is exchanged, revoked or expired between two stores. -/
def Closes (token : Id) (e e' : Envelope) : Prop :=
  ∃ s ∈ e.sessions, s.tokenHash = token ∧ ∃ s' ∈ e'.sessions, s'.id = s.id ∧
    ((s.consumedAt = none ∧ s'.consumedAt.isSome = true) ∨ s'.status = .revoked ∨ s'.status = .expired)

theorem closesSpent {w : Write} {token : Id} {e e' : Envelope} (inv' : Consistent e')
    (extra : SessionsSound e) (other : token ∉ w.tokens) (h : SessionsChanged w e.sessions e'.sessions)
    (closes : Closes token e e') : Spent token e' := by
  obtain ⟨s,mem,named,s',mem',id,outcome⟩ := closes
  intro t' found' same
  rcases h.source t' found' with ⟨t,found,change⟩ | opened
  · have equal : t = s := by
      have hash := changedToken other change same
      exact List.inj_on_of_nodup_map extra.tokens found mem (hash.trans named.symm)
    rw [equal] at change
    have row : s' = t' := sameSession inv' mem' found' (id.trans change.further.id.symm)
    rw [row] at outcome
    rcases outcome with ⟨unused,used⟩ | closed
    · -- only an exchange uses a session, and it brings another token
      cases change with
      | exchanged isOpen unused' named' =>
        rw [Write.tokens,List.mem_singleton] at other
        exact absurd same.symm other
      | _ =>
        have used : s.consumedAt.isSome = true := used
        rw [unused] at used
        cases used
    · exact closed
  · exact absurd same (openedToken other t' opened)

def tokenExtension (token : Id) : Extension (withoutToken token) := sessionExtension.restrict (fun _ _ _ => trivial)

theorem runSpent {settings : Settings} {token : Id} {c c'} (sound : ((tokenExtension token).outline settings).Sound c)
    (spent : Spent token c.store) (run : Run (esign settings) (withoutToken token) c c') :
    ((tokenExtension token).outline settings).Sound c' ∧ Spent token c'.store := by
  induction run with
  | refl => exact ⟨sound,spent⟩
  | tail _ step ih =>
    obtain ⟨sound,spent⟩ := ih
    refine ⟨((tokenExtension token).runLater sound (.single step)).1,?_⟩
    rcases (tokenExtension token).stepRun sound step with same | ⟨w,i,just,cond,ok⟩
    · rw [same]
      exact spent
    · exact keepSpent spent cond (sessionsChanged sound.inv.1 ok)

theorem resultsEnsure {inputs : Input → Prop} {answers : Write → Except AppError Unit → Prop} {α : Type}
    {P : Except AppError α → Prop} {holds : Bool} {error : AppError} {f : Unit → UseCase α}
    (failed : holds = false → P (.error error)) (h : holds = true → Program.Results inputs answers P (f ())) :
    Program.Results inputs answers P (Fallible.bind (Fallible.ensure holds error) f) := by
  cases holds with
  | true => exact h rfl
  | false => exact failed rfl

theorem spentRefused {settings : Settings} {input : LoadSignerSessionInput} {e : Envelope} (spent : Spent input.tokenHash e) :
    (loadSignerSession settings input).ResultsFrom e (fun _ => True) (fun result => result = .error rejectToken) := by
  intro i _
  cases found : SigningSessions.findByTokenHash input.tokenHash e with
  | none => simp only [found,Option.elim,Program.bind,Program.Results]
  | some session =>
    have named : session.tokenHash = input.tokenHash := by simpa using List.find?_some found
    have status := spent session (List.mem_of_find?_eq_some found) named
    have refused : decide (session.status ≠ .revoked ∧ session.status ≠ .expired) = false := by
      rcases status with status | status <;> rw [status] <;> rfl
    simp only [found,Option.elim,Program.bind]
    intro e' i' _
    refine resultsEnsure (fun _ => rfl) (fun passed => ?_)
    rw [refused] at passed
    cases passed

/- An exchange takes the row it has loaded, which has the token it was loaded by until
it is used. -/
theorem exchangedRow {u : ExchangeUnit} {e e'} (inv : Consistent e) (loaded : Loaded sessionExtension.Past u.loaded e)
    (ok : u.run e = .ok e') : ∃ s ∈ e.sessions, s.open = true ∧ s.consumedAt = none ∧
      s.tokenHash = u.loaded.session.tokenHash ∧ s.exchanged u ∈ e'.sessions := by
  obtain ⟨first,taken,logged⟩ := bindOk.mp ok
  obtain ⟨rows,updated,distinct⟩ := bindOk.mp taken
  obtain ⟨-,-,same⟩ := bindOk.mp distinct
  cases same
  cases appendEffect logged
  obtain ⟨rfl,row,mem,clause⟩ := updateOneOk updated
  have taken := clause
  simp only [Bool.and_eq_true,decide_eq_true_eq] at clause
  obtain ⟨⟨⟨named,-⟩,unused⟩,isOpen⟩ := clause
  obtain ⟨s,found,further⟩ := loadedFurther loaded
  rw [sameSession inv found mem (further.id.trans named.symm)] at further
  refine ⟨row,mem,isOpen,unused,further.unused unused,List.mem_map.mpr ⟨row,mem,?_⟩⟩
  rw [if_pos taken]
  rfl

theorem spentExchange {u : ExchangeUnit} {e e'} (inv : Consistent e) (loaded : Loaded sessionExtension.Past u.loaded e)
    (spent : Spent u.loaded.session.tokenHash e) : u.run e ≠ .ok e' := by
  intro ok
  obtain ⟨s,mem,isOpen,-,token,-⟩ := exchangedRow inv loaded ok
  rw [spentClosed (spent s mem token)] at isOpen
  cases isOpen

/-! Expiry by the clock. -/

/-- Whatever the token opens is past its expiry at `instant`. -/
def Overdue (token : Id) (instant : Date) (e : Envelope) : Prop :=
  ∀ s ∈ e.sessions, s.tokenHash = token → s.expiresAt ≤ instant

theorem SessionChange.expiresAt {w s s'} (h : SessionChange s w s') : s'.expiresAt = s.expiresAt := by
  cases h <;> rfl

theorem keepOverdue {w : Write} {token : Id} {instant : Date} {e e' : Envelope} (extra : Overdue token instant e)
    (other : token ∉ w.tokens) (h : SessionsChanged w e.sessions e'.sessions) : Overdue token instant e' := by
  intro s' mem' same
  rcases h.source s' mem' with ⟨s,mem,change⟩ | opened
  · rw [change.expiresAt]
    exact extra s mem (changedToken other change same)
  · exact absurd same (openedToken other s' opened)

theorem failsRejectExpired {inputs : Input → Prop} {α : Type} (found : SigningSession) :
    Program.Results inputs (fun _ _ => True) (fun result => ∃ error, result = .error error) (rejectExpired found : UseCase α) := by
  unfold rejectExpired Fallible.when
  split
  · intro r _
    cases r with
    | ok value => exact ⟨_,rfl⟩
    | error error => exact ⟨_,rfl⟩
  · exact ⟨_,rfl⟩

theorem overdueRefused {settings : Settings} {input : LoadSignerSessionInput} {instant : Date} {e : Envelope}
    (overdue : Overdue input.tokenHash instant e) :
    (loadSignerSession settings input).ResultsFrom e (fun i => instant ≤ i.now)
      (fun result => ∃ error, result = .error error) := by
  intro i _
  cases found : SigningSessions.findByTokenHash input.tokenHash e with
  | none => simp only [found,Option.elim,Program.bind,Program.Results,Except.error.injEq,exists_eq']
  | some session =>
    have named : session.tokenHash = input.tokenHash := by simpa using List.find?_some found
    have expired := overdue session (List.mem_of_find?_eq_some found) named
    simp only [found,Option.elim,Program.bind]
    intro e' i' late
    refine resultsEnsure (fun _ => ⟨_,rfl⟩) (fun _ => resultsEnsure (fun _ => ⟨_,rfl⟩) (fun _ => ?_))
    rw [if_pos (le_trans expired late)]
    exact failsRejectExpired session

theorem runOverdue {settings : Settings} {token : Id} {instant : Date} {c c'}
    (sound : ((tokenExtension token).outline settings).Sound c) (overdue : Overdue token instant c.store)
    (run : Run (esign settings) (withoutToken token) c c') : Overdue token instant c'.store := by
  induction run with
  | refl => exact overdue
  | tail before step ih =>
    have sound := ((tokenExtension token).runLater sound before).1
    rcases (tokenExtension token).stepRun sound step with same | ⟨w,i,just,cond,ok⟩
    · rw [same]
      exact ih
    · exact keepOverdue ih cond (sessionsChanged sound.inv.1 ok)

/-! The whole lifecycle. -/

/-- The token opens nothing any more: a load that starts is refused, and an exchange
that has loaded it already is not committed. -/
structure TokenDead (settings : Settings) (token : Id)
    (c : Config Envelope Write Input (Except AppError Unit) (Except AppError (Option ResponseBody))) : Prop where
  load : ∀ input : LoadSignerSessionInput, input.tokenHash = token →
    (loadSignerSession settings input).ResultsFrom c.store (fun _ => True) (fun result => result = .error rejectToken)
  exchange : ∀ u next, .write (.exchange u) next ∈ c.tasks → u.loaded.session.tokenHash = token →
    ∀ e', u.run c.store ≠ .ok e'

/-- A token closes when its session is exchanged, revoked (by a rotation, too) or marked expired; from then on, and for an
expiry by the clock from that instant on, it is dead, as long as it is not drawn again. -/
structure SessionLifecycle (settings : Settings) (draft : NewDraft) : Prop where
  lawful : ∀ c c', Run (esign settings) anyScope (initial (createDraftDocument draft)) c →
    Step (esign settings) anyScope c c' → ∀ s ∈ c.store.sessions, ∀ s' ∈ c'.store.sessions, s'.id = s.id →
      s'.status = s.status ∨ canTransitionSigningSession s.status s'.status = true
  used : ∀ c, Run (esign settings) anyScope (initial (createDraftDocument draft)) c →
    ∀ s ∈ c.store.sessions, s.consumedAt.isSome = true → s.status ≠ .issued
  single : ∀ c, Run (esign settings) anyScope (initial (createDraftDocument draft)) c →
    ∀ signerId, (SigningSessions.listOpenBySigner signerId c.store).length ≤ 1
  exchanged : ∀ c, Run (esign settings) anyScope (initial (createDraftDocument draft)) c →
    ∀ u next e', .write (.exchange u) next ∈ c.tasks → u.run c.store = .ok e' →
      Closes u.loaded.session.tokenHash c.store e'
  closed : ∀ token c c' c'', Run (esign settings) anyScope (initial (createDraftDocument draft)) c →
    Step (esign settings) (withoutToken token) c c' → Closes token c.store c'.store →
    Run (esign settings) (withoutToken token) c' c'' → TokenDead settings token c''
  overdue : ∀ token instant c c', Run (esign settings) anyScope (initial (createDraftDocument draft)) c →
    ∀ s ∈ c.store.sessions, s.tokenHash = token → s.expiresAt ≤ instant →
    Run (esign settings) (withoutToken token) c c' → ∀ input : LoadSignerSessionInput, input.tokenHash = token →
    (loadSignerSession settings input).ResultsFrom c'.store (fun i => instant ≤ i.now)
      (fun result => ∃ error, result = .error error)

section
variable {settings : Settings} {draft : NewDraft}

theorem reachedSound {c} (run : Run (esign settings) anyScope (initial (createDraftDocument draft)) c) :
    (sessionExtension.outline settings).Sound c := sessionExtension.run ⟨draftConsistent draft,draftSound draft⟩ run

theorem stepLawful {c c'} (sound : (sessionExtension.outline settings).Sound c)
    (step : Step (esign settings) anyScope c c') : ∀ s ∈ c.store.sessions, ∀ s' ∈ c'.store.sessions, s'.id = s.id →
      s'.status = s.status ∨ canTransitionSigningSession s.status s'.status = true := by
  intro s mem s' mem' same
  have inv' := (sessionExtension.runLater sound (.single step)).1.inv.1
  rcases sessionExtension.stepRun sound step with kept | ⟨w,i,past,-,ok⟩
  · rw [kept] at mem'
    rw [sameSession sound.inv.1 mem' mem same]
    exact .inl rfl
  · obtain ⟨moved,changed,opened⟩ := (sessionsChanged sound.inv.1 ok).changed
    obtain ⟨t,found,change⟩ := forall₂Source changed.flip s mem
    have row : s' = t := sameSession inv' mem' (opened.kept t found) (same.trans change.further.id.symm)
    rw [row]
    exact changeLawful sound.inv.1 sound.inv.2 past mem change

theorem openSingle {e : Envelope} (sound : SessionsSound e) (signerId : Id) :
    (SigningSessions.listOpenBySigner signerId e).length ≤ 1 := by
  have pairs := sound.single.filter (fun row => row.signerId = signerId && row.open)
  have all : ∀ s ∈ SigningSessions.listOpenBySigner signerId e, s.signerId = signerId ∧ s.open = true := by
    intro s mem
    simpa using (List.mem_filter.mp mem).2
  change (SigningSessions.listOpenBySigner signerId e).Pairwise _ at pairs
  match rows : SigningSessions.listOpenBySigner signerId e with
  | [] => exact Nat.zero_le 1
  | [_] => exact le_refl 1
  | s :: t :: rest =>
    rw [rows] at pairs all
    have first := all s (by simp)
    have second := all t (by simp)
    exact absurd (first.1.trans second.1.symm) ((List.pairwise_cons.mp pairs).1 t (by simp) first.2 second.2)

theorem tasksLoaded {c} (sound : (sessionExtension.outline settings).Sound c) {u next}
    (pending : .write (.exchange u) next ∈ c.tasks) : Loaded sessionExtension.Past u.loaded c.store :=
  (sound.tasks _ pending c.store ((sessionExtension.outline settings).refl _) sound.inv).1

theorem tokenSound (token : Id) {c} (sound : (sessionExtension.outline settings).Sound c) :
    ((tokenExtension token).outline settings).Sound c := sessionExtension.restricted (fun _ _ _ => trivial) sound

theorem stepSpent {token : Id} {c c'} (sound : ((tokenExtension token).outline settings).Sound c)
    (step : Step (esign settings) (withoutToken token) c c') (closes : Closes token c.store c'.store) :
    Spent token c'.store := by
  have inv' := ((tokenExtension token).runLater sound (.single step)).1.inv.1
  rcases (tokenExtension token).stepRun sound step with same | ⟨w,i,just,cond,ok⟩
  · obtain ⟨s,mem,named,s',mem',id,outcome⟩ := closes
    rw [same] at mem'
    rw [same]
    rw [sameSession sound.inv.1 mem' mem id] at outcome
    intro t found token
    rw [List.inj_on_of_nodup_map sound.inv.2.tokens found mem (token.trans named.symm)]
    rcases outcome with ⟨unused,used⟩ | closed
    · rw [unused] at used
      cases used
    · exact closed
  · exact closesSpent inv' sound.inv.2 cond (sessionsChanged sound.inv.1 ok) closes

end

theorem sessionLifecycle (settings : Settings) (draft : NewDraft) : SessionLifecycle settings draft where
  lawful _ _ run step := stepLawful (reachedSound run) step
  used _ run := (reachedSound run).inv.2.used
  single _ run := openSingle (reachedSound run).inv.2
  exchanged := by
    intro c run u next e' pending ok
    have sound := reachedSound run
    obtain ⟨s,mem,-,unused,token,mem'⟩ := exchangedRow sound.inv.1 (tasksLoaded sound pending) ok
    exact ⟨s,mem,token,s.exchanged u,mem',rfl,.inl ⟨unused,rfl⟩⟩
  closed := by
    intro token c c' c'' run step closes after
    have sound := tokenSound token (reachedSound run)
    have spent := stepSpent sound step closes
    obtain ⟨last,spent⟩ := runSpent ((tokenExtension token).runLater sound (.single step)).1 spent after
    refine ⟨fun input named => ?_,fun u next pending named e' => ?_⟩
    · rw [← named] at spent
      exact spentRefused spent
    · have loaded : Loaded sessionExtension.Past u.loaded c''.store :=
        (last.tasks _ pending c''.store (((tokenExtension token).outline settings).refl _) last.inv).1
      rw [← named] at spent
      exact spentExchange last.inv.1 loaded spent
  overdue := by
    intro token instant c c' run s mem named expired after input same
    have sound := tokenSound token (reachedSound run)
    have overdue : Overdue token instant c.store := by
      intro t found token
      rw [List.inj_on_of_nodup_map sound.inv.2.tokens found mem (token.trans named.symm)]
      exact expired
    have late := runOverdue sound overdue after
    rw [← same] at late
    exact overdueRefused late

namespace ThreeSigners

/-- Two exchanges of one token have loaded it. -/
def exchangedTwice : List (Action Input Request) :=
  sent ++ served 5 6 6 (.exchangeSigningToken 550 none) ++ served 6 7 6 (.exchangeSigningToken 550 none)

end ThreeSigners

/-- Whether `Closes` holds by an exchange. -/
def closesByExchange (token : Id) (e e' : Envelope) : Bool :=
  e.sessions.any (fun s => s.tokenHash = token && s.consumedAt.isNone &&
    e'.sessions.any (fun s' => s'.id = s.id && s'.consumedAt.isSome))

theorem closesChecked {token : Id} {e e' : Envelope} (ok : closesByExchange token e e' = true) : Closes token e e' := by
  obtain ⟨s,mem,row⟩ := List.any_eq_true.mp ok
  simp only [Bool.and_eq_true,decide_eq_true_eq,Option.isNone_iff_eq_none] at row
  obtain ⟨⟨named,unused⟩,used⟩ := row
  obtain ⟨s',mem',row'⟩ := List.any_eq_true.mp used
  simp only [Bool.and_eq_true,decide_eq_true_eq] at row'
  exact ⟨s,mem,named,s',mem',row'.1,.inl ⟨unused,row'.2⟩⟩

set_option maxRecDepth 100000 in
/-- The first of two racing exchanges is committed; the second, and every load, is refused. -/
theorem exchangedOnce : ∃ c c', Run (esign ThreeSigners.settings) anyScope ThreeSigners.start c ∧
    Step (esign ThreeSigners.settings) (withoutToken 550) c c' ∧ Closes 550 c.store c'.store ∧
    TokenDead ThreeSigners.settings 550 c' := by
  have evaluated : (do
      let c ← (esign ThreeSigners.settings).applyAll (fun _ _ => true) ThreeSigners.start ThreeSigners.exchangedTwice
      let c' ← (esign ThreeSigners.settings).apply c (.step 5 (ThreeSigners.input 6))
      pure (c.guards (I := Input) (Q := Request) (fun w _ => !(w.tokens.contains 550)) (.step 5 (ThreeSigners.input 6)),
        closesByExchange 550 c.store c'.store)) = some (true,true) := by decide +kernel
  simp only [bind,Option.bind_eq_some_iff] at evaluated
  obtain ⟨c,reached,c',next,checks⟩ := evaluated
  simp only [pure,Option.some.injEq,Prod.mk.injEq] at checks
  have run : Run (esign ThreeSigners.settings) anyScope ThreeSigners.start c :=
    runOfActions (fun _ _ => trivial) (fun _ _ _ => trivial) reached
  have fresh : ∀ (w : Write) (e : Envelope), (!(w.tokens.contains 550)) = true → (withoutToken 550).cond w e := by
    intro w e ok
    simpa [withoutToken] using ok
  have step : Step (esign ThreeSigners.settings) (withoutToken 550) c c' :=
    stepOfAction (fun _ _ => trivial) fresh checks.1 next
  have closes := closesChecked checks.2
  exact ⟨c,c',run,step,closes,(sessionLifecycle _ ThreeSigners.draft).closed 550 c c' c' run step closes .refl⟩

end ESign
