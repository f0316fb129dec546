import ESign.SessionLifecycle

/-! The deadline of a document and those of its sessions: a session is all a signer's
request is checked against. -/
namespace ESign
open StoreProgram StoreProgram.Fallible

def Write.signing : Write → Option (Id × Date)
  | .exchange u => some (u.loaded.session.id,u.now)
  | .consent u => some (u.loaded.session.id,u.consent.acceptedAt)
  | .decline u => some (u.loaded.session.id,u.now)
  | .complete u => some (u.loaded.session.id,u.now)
  | _ => none

def Request.signs : Request → Bool
  | .exchangeSigningToken .. => true
  | .recordSignerConsent _ => true
  | .declineToSign _ => true
  | .completeSigning _ => true
  | _ => false

/-- Neither a send nor a rotation issues a session that outlives the document, and a signer's
unit of work finds its session in date. -/
def sessionsCapped : Scope Envelope Write Request where
  allow _ := True
  cond
    | .send u, _ => ∀ session ∈ u.issued, ∀ deadline, u.expiresAt = some deadline → session.expiresAt ≤ deadline
    | .rotate u, e => ∀ deadline, e.document.expiresAt = some deadline → u.expiresAt ≤ deadline
    | w, e => ∀ id now, w.signing = some (id,now) →
        ∃ session ∈ e.sessions, session.id = id ∧ now < session.expiresAt

def Timely (e : Envelope) : Prop :=
  ∀ session ∈ e.sessions, ∀ deadline, e.document.expiresAt = some deadline → session.expiresAt ≤ deadline

theorem expiryKept {w : Write} {i e e'} (ok : w.run i e = .ok e') (done : Committed i e e' w) :
    e'.document.expiresAt = e.document.expiresAt ∨ ∃ u, w = .send u ∧ SendEffect u e e' := by
  cases done with
  | still h idle artifact => exact .inl (by rw [h.document])
  | released h => subst h; exact .inl rfl
  | failed state h => subst h; exact .inl rfl
  | leased row frame state revised kept =>
    have taken : Documents.takeLease _ _ _ _ _ e = .ok e' := ok
    obtain ⟨hit,rfl⟩ := updateDocumentOk taken
    exact .inl rfl
  | upload h => exact .inl (by rw [h.document])
  | inspect h =>
    obtain ⟨status,changed⟩ := h.document
    exact .inl (by rw [changed])
  | replaceSigners h =>
    obtain ⟨given,rfl,same | ⟨-,state,-,-,changed⟩⟩ := h.document
    · exact .inl (by rw [same])
    · exact .inl (by rw [changed])
  | replaceFields h =>
    rcases h.document with same | ⟨-,state,-,-,changed⟩
    · exact .inl (by rw [same])
    · exact .inl (by rw [changed])
  | send h => exact .inr ⟨_,rfl,h⟩
  | void h => exact .inl (by rw [h.document])
  | decline h => exact .inl (by rw [h.document])
  | complete h =>
    rcases h.document with ⟨-,-,-,changed⟩ | ⟨-,-,-,-,changed⟩ | ⟨-,-,same⟩
    · exact .inl (by rw [changed])
    · exact .inl (by rw [changed])
    · exact .inl (by rw [same])
  | flatten h => exact .inl (by rw [h.document])

theorem SendSource.idle {u : SendUnit} {e e' atDocument atRoster signers} (inv : Consistent e)
    (just : SendSource Before u atDocument atRoster signers) (later : Before atRoster e) (h : SendEffect u e e') :
    e.sessions = [] := by
  have read : Read Before u.document e := ⟨atDocument,just.document,just.later.1,just.later.2.trans later.2⟩
  have row := read.row h.version
  exact (inv.unsent (by rw [row]; exact just.unlocked)).2.1

theorem keepTimely {w : Write} {i e e'} (inv : Consistent e) (extra : Timely e) (just : Justified Before w e)
    (cond : sessionsCapped.cond w e) (ok : w.run i e = .ok e') (done : Committed i e e' w) : Timely e' := by
  intro session mem deadline due
  rcases (sessionsChanged inv ok).source session mem with ⟨before,old,change⟩ | opened
  · rw [change.expiresAt]
    rcases expiryKept ok done with same | ⟨u,rfl,h⟩
    · rw [same] at due
      exact extra before old deadline due
    · obtain ⟨atDocument,atRoster,signers,source,later⟩ := just
      rw [source.idle inv later h] at old
      cases old
  · cases w with
    | send u =>
      obtain ⟨atDocument,atRoster,signers,source,later⟩ := just
      have h := sendEffect (fun session mem => (source.issued session mem).1) ok
      rw [h.document] at due
      exact cond session opened deadline due
    | rotate u =>
      rw [List.mem_singleton.mp opened]
      rcases expiryKept ok done with same | ⟨u,other,-⟩
      · rw [same] at due
        exact cond deadline due
      · cases other
    | _ => cases opened

theorem keepDeadline {w : Write} {i e e'} (just : Justified Before w e) (ok : w.run i e = .ok e') (done : Committed i e e' w)
    (sent : isPreparationState e.document.state = false) : e'.document.expiresAt = e.document.expiresAt := by
  rcases expiryKept ok done with same | ⟨u,rfl,h⟩
  · exact same
  · obtain ⟨atDocument,atRoster,signers,source,later⟩ := just
    have read : Read Before u.document e := ⟨atDocument,source.document,source.later.1,source.later.2.trans later.2⟩
    have row := read.row h.version
    rw [row,source.unlocked] at sent
    cases sent

structure Deadlined (e : Envelope) : Prop where
  timely : Timely e
  unsent : isPreparationState e.document.state = true → e.document.expiresAt = none

theorem keepDeadlined {w : Write} {i e e'} (inv : Consistent e) (extra : Deadlined e) (just : Justified Before w e)
    (cond : sessionsCapped.cond w e) (ok : w.run i e = .ok e') (done : Committed i e e' w) (later : Later e e') :
    Deadlined e' where
  timely := keepTimely inv extra.timely just cond ok done
  unsent prep := by
    have before : isPreparationState e.document.state = true := by
      rw [prepStage] at prep ⊢
      have := later.stage
      omega
    rcases expiryKept ok done with same | ⟨u,rfl,h⟩
    · rw [same]
      exact extra.unsent before
    · rw [h.document] at prep
      cases prep

def cappedExtension : Extension sessionsCapped where
  Extra := Deadlined
  Also a b := isPreparationState a.document.state = false →
    isPreparationState b.document.state = false ∧ b.document.expiresAt = a.document.expiresAt
  refl _ sent := ⟨sent,rfl⟩
  trans first second sent :=
    ⟨(second (first sent).1).1,(second (first sent).1).2.trans (first sent).2⟩
  keep inv extra _ just cond ok done _ later :=
    ⟨keepDeadlined inv extra just cond ok done later,fun sent => ⟨later.unprep sent,keepDeadline just ok done sent⟩⟩

/-! A signer's request is checked against its session. -/

section

variable {settings : Settings} {scope : Scope Envelope Write Request} {inputs : Input → Prop} {c c' : Running}
  {own : List (Performed Write Envelope Input)}

theorem expiredRefused {α : Type} {found : SigningSession} {value : Except AppError α}
    (run : Amid (esign settings) scope inputs c (rejectExpired found : UseCase α) own value c') :
    ∃ error, value = .error error := by
  unfold rejectExpired at run
  rcases amidThen run with ⟨error,same,-⟩ | ⟨_,_,_,_,-,-,failed⟩
  · exact ⟨error,same⟩
  · exact ⟨_,(amidLift failed).2.2⟩

theorem loadedInDate {input : LoadSignerSessionInput} {loaded : LoadedSignerSession}
    (run : Amid (esign settings) scope inputs c (loadSignerSession settings input) own (.ok loaded) c') :
    ∃ c₁ i, Run (esign settings) scope c c₁ ∧ inputs i ∧ loaded.session ∈ c₁.store.sessions ∧
      i.now < loaded.session.expiresAt := by
  unfold loadSignerSession at run
  rcases amidThenFind run with ⟨-,error,failed⟩ | ⟨found,c₁,first,row,run⟩
  · cases failed
  obtain ⟨c₂,i,given,-,run⟩ := amidThenGet run
  obtain ⟨-,run⟩ := amidThenEnsure run
  obtain ⟨-,run⟩ := amidThenEnsure run
  split at run
  · obtain ⟨error,failed⟩ := expiredRefused run
    cases failed
  · rename_i dated
    obtain ⟨-,run⟩ := amidThenEnsure run
    obtain ⟨c₃,_,-,-,run⟩ := amidThenGet run
    obtain ⟨-,run⟩ := amidThenEnsure run
    rcases amidThenFind run with ⟨-,error,failed⟩ | ⟨signer,c₄,-,-,run⟩
    · cases failed
    obtain ⟨-,run⟩ := amidThenEnsure run
    cases run
    exact ⟨c₁,i,first,given,List.mem_of_find?_eq_some row,not_le.mp dated⟩

theorem inDateThen {α : Type} {input : LoadSignerSessionInput} {f : LoadedSignerSession → UseCase α} {value : α}
    (run : Amid (esign settings) scope inputs c (loadSignerSession settings input >>= f : UseCase α) own (.ok value) c') :
    ∃ c₁ i session, Run (esign settings) scope c c₁ ∧ inputs i ∧ session ∈ c₁.store.sessions ∧ i.now < session.expiresAt := by
  rcases amidThen run with ⟨error,failed,-⟩ | ⟨loaded,_,_,_,-,first,-⟩
  · cases failed
  · obtain ⟨c₁,i,later,given,stored,dated⟩ := loadedInDate first
    exact ⟨c₁,i,loaded.session,later,given,stored,dated⟩

theorem signedInDate {request : Request} (signs : request.signs = true) {value : Option ResponseBody}
    (run : Amid (esign settings) scope inputs c ((esign settings).start request) own (.ok value) c') :
    ∃ c₁ i session, Run (esign settings) scope c c₁ ∧ inputs i ∧ session ∈ c₁.store.sessions ∧ i.now < session.expiresAt := by
  have first : ∀ {α : Type} {p : UseCase α} {f : α → UseCase (Option ResponseBody)},
      Amid (esign settings) scope inputs c (p >>= f : UseCase (Option ResponseBody)) own (.ok value) c' →
      ∃ result c₁ own₁, Amid (esign settings) scope inputs c p own₁ (.ok result) c₁ := by
    intro α p f run
    rcases amidThen run with ⟨error,failed,-⟩ | ⟨result,c₁,own₁,_,-,begun,-⟩
    · cases failed
    · exact ⟨result,c₁,own₁,begun⟩
  cases request with
  | exchangeSigningToken tokenHash accountUserId =>
    obtain ⟨_,_,_,run⟩ := first (p := exchangeSigningToken settings tokenHash accountUserId) run
    exact inDateThen run
  | recordSignerConsent input =>
    obtain ⟨_,_,_,run⟩ := first (p := recordSignerConsent settings input) run
    obtain ⟨-,run⟩ := amidThenEnsure run
    obtain ⟨-,run⟩ := amidThenEnsure run
    obtain ⟨-,run⟩ := amidThenEnsure run
    exact inDateThen run
  | declineToSign input =>
    obtain ⟨_,_,_,run⟩ := first (p := declineToSign settings input) run
    exact inDateThen run
  | completeSigning input =>
    obtain ⟨_,_,_,run⟩ := first (p := completeSigning settings input) run
    obtain ⟨-,run⟩ := amidThenEnsure run
    exact inDateThen run
  | _ => cases signs

end

/-- From the deadline on no request of a signer succeeds, and none of its units of work records
a later time. -/
def ExpiryEndsSigning (settings : Settings) (scope : Scope Envelope Write Request) (draft : NewDraft) : Prop :=
  ∀ c, Run (esign settings) scope (initial (createDraftDocument draft)) c →
    ∀ deadline, c.store.document.expiresAt = some deadline →
      (∀ request, request.signs = true → ∀ own value c',
        Amid (esign settings) scope (fun i => deadline ≤ i.now) c ((esign settings).start request) own value c' →
        ∃ error, value = .error error) ∧
      ∀ w i c', CommitStep settings w i c c' → scope.cond w c.store →
        ∀ id now, w.signing = some (id,now) → now < deadline

theorem signingDated {w : Write} {e : Envelope} (cond : sessionsCapped.cond w e) {id : Id} {now : Date}
    (signing : w.signing = some (id,now)) : ∃ session ∈ e.sessions, session.id = id ∧ now < session.expiresAt := by
  cases w with
  | send u => cases signing
  | rotate u => cases signing
  | _ => exact cond id now signing

theorem sentDeadline {e : Envelope} (extra : Deadlined e) {deadline : Date} (due : e.document.expiresAt = some deadline) :
    isPreparationState e.document.state = false := by
  by_contra prep
  rw [Bool.not_eq_false] at prep
  rw [extra.unsent prep] at due
  cases due

theorem expiryEndsSigning (settings : Settings) (draft : NewDraft) : ExpiryEndsSigning settings sessionsCapped draft := by
  intro c reached deadline due
  have fresh : Deadlined (createDraftDocument draft) := ⟨fun _ mem => (by cases mem),fun _ => rfl⟩
  have sound : (cappedExtension.outline settings).Sound c := cappedExtension.run ⟨draftConsistent draft,fresh⟩ reached
  have extra : Deadlined c.store := sound.inv.2
  refine ⟨?_,?_⟩
  · intro request signs own value c' run
    cases value with
    | error error => exact ⟨error,rfl⟩
    | ok answer =>
      obtain ⟨c₁,i,session,later,passed,stored,dated⟩ := signedInDate signs run
      obtain ⟨next,-,kept⟩ := cappedExtension.runLater sound later
      have timely : Timely c₁.store := next.inv.2.timely
      have same := (kept (sentDeadline extra due)).2
      have capped := timely session stored deadline (by rw [same]; exact due)
      exact absurd (lt_of_lt_of_le dated capped) (not_lt.mpr passed)
  · intro w i c' commits cond id now signing
    obtain ⟨session,stored,-,dated⟩ := signingDated cond signing
    exact lt_of_lt_of_le dated (extra.timely session stored deadline due)

namespace ThreeSigners

def sentUntil (deadline : Date) : List (Action Input Request) :=
  prepared .parallel ++ served 4 5 13 (.sendDocument ⟨3,some (some deadline),some 9⟩)

def givenAt (now : Date) : List Input := List.replicate 7 { input 6 with now := now }

end ThreeSigners

set_option maxRecDepth 100000 in
/-- The sessions of the send are good for 1000 ticks, the document for 4: at its deadline a token
is still exchanged. -/
theorem exchangedAfterExpiry : ¬ ExpiryEndsSigning ThreeSigners.settings anyScope ThreeSigners.draft := by
  intro ends
  have evaluated : ((esign ThreeSigners.settings).applyAll (fun _ _ => true) ThreeSigners.start
      (ThreeSigners.sentUntil 5)).map (fun c => (c.store.document.expiresAt,
        (((esign ThreeSigners.settings).start (.exchangeSigningToken 550 none)).solo Write.exec c.store
          (ThreeSigners.givenAt 5)).map (fun result => result.2.1))) = some (some 5,some (.ok none)) := by decide +kernel
  obtain ⟨c,reached,states⟩ := Option.map_eq_some_iff.mp evaluated
  rw [Prod.mk.injEq] at states
  obtain ⟨due,answered⟩ := states
  obtain ⟨⟨own,value,s⟩,ran,same⟩ := Option.map_eq_some_iff.mp answered
  have same : value = .ok none := same
  have run : Run (esign ThreeSigners.settings) anyScope ThreeSigners.start c :=
    runOfActions (fun _ _ => trivial) (fun _ _ _ => trivial) reached
  have late : ∀ i ∈ ThreeSigners.givenAt 5, (5 : Date) ≤ i.now := by
    intro i among
    rw [List.eq_of_mem_replicate among]
  obtain ⟨error,failed⟩ := (ends c run 5 due).1 (.exchangeSigningToken 550 none) rfl own value _ (amidSolo late ran)
  rw [same] at failed
  cases failed

def sessionsCappedCheck (w : Write) (e : Envelope) : Bool :=
  match w with
  | .send u => u.issued.all fun session => u.expiresAt.all (session.expiresAt ≤ ·)
  | .rotate u => e.document.expiresAt.all (u.expiresAt ≤ ·)
  | w => w.signing.all fun signing => e.sessions.any fun session => session.id = signing.1 ∧ signing.2 < session.expiresAt

theorem sessionsCappedChecked (w : Write) (e : Envelope) (ok : sessionsCappedCheck w e = true) : sessionsCapped.cond w e := by
  have signing : (∀ u, w ≠ .send u) → (∀ u, w ≠ .rotate u) →
      ∀ id now, w.signing = some (id,now) → ∃ session ∈ e.sessions, session.id = id ∧ now < session.expiresAt := by
    intro sends rotates id now same
    have ok : w.signing.all (fun signing => e.sessions.any fun session =>
        decide (session.id = signing.1 ∧ signing.2 < session.expiresAt)) = true := by
      cases w with
      | send u => exact absurd rfl (sends u)
      | rotate u => exact absurd rfl (rotates u)
      | _ => exact ok
    rw [same,Option.all_some,List.any_eq_true] at ok
    obtain ⟨session,stored,dated⟩ := ok
    exact ⟨session,stored,of_decide_eq_true dated⟩
  cases w with
  | send u =>
    intro session among deadline due
    have all := List.all_eq_true.mp (show u.issued.all _ = true from ok) session among
    rw [due,Option.all_some] at all
    exact of_decide_eq_true all
  | rotate u =>
    intro deadline due
    have all : e.document.expiresAt.all (fun deadline => decide (u.expiresAt ≤ deadline)) = true := ok
    rw [due,Option.all_some] at all
    exact of_decide_eq_true all
  | _ => exact signing (fun _ => nofun) (fun _ => nofun)

set_option maxRecDepth 100000 in
/-- Sessions that end with the document: once one is exchanged, at the deadline the next token is refused. -/
theorem refusedAfterExpiry : ∃ c, Run (esign ThreeSigners.settings) sessionsCapped ThreeSigners.start c ∧
    c.store.sessions.any (fun session => session.status = .active) = true ∧
    (∃ own value c', Amid (esign ThreeSigners.settings) sessionsCapped (fun i => 1001 ≤ i.now) c
      ((esign ThreeSigners.settings).start (.exchangeSigningToken 551 none)) own value c') ∧
    ∀ own value c', Amid (esign ThreeSigners.settings) sessionsCapped (fun i => 1001 ≤ i.now) c
      ((esign ThreeSigners.settings).start (.exchangeSigningToken 551 none)) own value c' → ∃ error, value = .error error := by
  have evaluated : ((esign ThreeSigners.settings).applyAll sessionsCappedCheck ThreeSigners.start
      (ThreeSigners.sentUntil 1001 ++ ThreeSigners.served 5 6 7 (.exchangeSigningToken 550 none))).map (fun c =>
        (c.store.document.expiresAt,c.store.sessions.any (fun session => session.status = .active))) =
      some (some 1001,true) := by decide +kernel
  obtain ⟨c,reached,states⟩ := Option.map_eq_some_iff.mp evaluated
  rw [Prod.mk.injEq] at states
  have run := runOfActions (fun _ _ => trivial) sessionsCappedChecked reached
  have late : ∃ i : Input, (1001 : Date) ≤ i.now := ⟨{ ThreeSigners.input 6 with now := 1001 },Int.le_refl _⟩
  exact ⟨c,run,states.2,partlyStarted late _ c,
    (expiryEndsSigning ThreeSigners.settings ThreeSigners.draft c run 1001 states.1).1 (.exchangeSigningToken 551 none) rfl⟩

end ESign
