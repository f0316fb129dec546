import ESign.AuditReplay

/-! The outbox and the log. An event and the job it calls for are written by one unit of
work, so the outbox can be read off the log: no job is lost, none is published twice, and
none comes from nowhere. -/
namespace ESign
open StoreProgram StoreProgram.Outline

/-- The revision a signature is drawn on is not logged. -/
inductive LoggedJob where
  | inspectDocument (revisionId : Id)
  | notifySigner (signerId sessionId : Id)
  | flattenSignature (signerId sessionId : Id)
  deriving DecidableEq, Repr

def JobPayload.logged : JobPayload → LoggedJob
  | .inspectDocument revisionId => .inspectDocument revisionId
  | .notifySigner signerId sessionId => .notifySigner signerId sessionId
  | .flattenSignature signerId sessionId _ => .flattenSignature signerId sessionId

/-- The jobs an event calls for: a revision that was uploaded is inspected, a signer whose
session was issued by a send is notified, and the fields of a signer are drawn. -/
def NewAuditEvent.jobs (event : NewAuditEvent) : List LoggedJob :=
  match event.type with
  | .revisionAdded =>
      if event.actorType = .system then (event.idAt "revisionId").toList.map .inspectDocument else []
  | .sessionIssued =>
      if (event.payload.lookup "reason").isSome then [] else
        match event.idAt "signerId", event.idAt "sessionId" with
        | some signerId, some sessionId => [.notifySigner signerId sessionId]
        | _, _ => []
  | .signerSigned =>
      match event.idAt "signerId", event.idAt "sessionId" with
      | some signerId, some sessionId => [.flattenSignature signerId sessionId]
      | _, _ => []
  | _ => []

def jobsLogged (audit : List NewAuditEvent) : List LoggedJob := audit.flatMap NewAuditEvent.jobs

theorem jobsAppend (audit : List NewAuditEvent) (event : NewAuditEvent) :
    jobsLogged (audit ++ [event]) = jobsLogged audit ++ event.jobs := by
  unfold jobsLogged
  rw [List.flatMap_append,List.flatMap_singleton]

def jobsPublished (outbox : List OutboxEvent) : List LoggedJob := outbox.map (fun row => row.payload.logged)

theorem publishedAppend (outbox : List OutboxEvent) (event : OutboxEvent) :
    jobsPublished (outbox ++ [event]) = jobsPublished outbox ++ [event.payload.logged] := List.map_append

def Called (e : Envelope) : Prop := jobsPublished e.outbox = jobsLogged e.audit

/- Only three kinds of events call for a job. -/
def calls (type : AuditEventType) : Bool := type = .revisionAdded ∨ type = .sessionIssued ∨ type = .signerSigned

theorem quietJobs {event : NewAuditEvent} (quiet : calls event.type = false) : event.jobs = [] := by
  unfold NewAuditEvent.jobs
  unfold calls at quiet
  split <;> simp_all

theorem Events.jobs {types audit audit'} (h : Events types audit audit') (quiet : ∀ type ∈ types, calls type = false) :
    jobsLogged audit' = jobsLogged audit := by
  obtain ⟨events,rfl,all⟩ := h
  unfold jobsLogged
  rw [List.flatMap_append]
  have none : events.flatMap NewAuditEvent.jobs = [] :=
    List.flatMap_eq_nil_iff.mpr (fun event mem => quietJobs (quiet _ (all event mem)))
  rw [none,List.append_nil]

section
variable {e e' : Envelope}

theorem Called.quiet {types} (h : Called e) (outbox : e'.outbox = e.outbox) (audit : Events types e.audit e'.audit)
    (quiet : ∀ type ∈ types, calls type = false) : Called e' := by
  unfold Called
  rw [outbox,audit.jobs quiet]
  exact h

theorem uploadCalled {u : UploadUnit} {i} (h : Called e) (ok : u.run i e = .ok e') : Called e' := by
  obtain ⟨e₁,first,ok⟩ := bindOk.mp ok
  obtain ⟨rfl,-⟩ := createRevisionEffect first
  obtain ⟨e₂,second,ok⟩ := bindOk.mp ok
  obtain ⟨-,rfl⟩ := updateDocumentOk second
  obtain ⟨e₃,third,ok⟩ := bindOk.mp ok
  obtain ⟨rows,-,last⟩ := bindOk.mp third
  cases last
  obtain ⟨e₄,fourth,ok⟩ := bindOk.mp ok
  cases appendEffect fourth
  cases publishEffect ok
  unfold Called
  rw [publishedAppend,jobsAppend]
  exact congrArg (· ++ [LoggedJob.inspectDocument u.revision.id]) h

theorem issueCalled {u : SendUnit} {i list n} (h : Called e) (ok : u.issue i list n e = .ok e') : Called e' := by
  induction list generalizing n e with
  | nil =>
    cases ok
    exact h
  | cons session rest ih =>
    rw [SendUnit.issue] at ok
    obtain ⟨_,_,ok⟩ := bindOk.mp ok
    obtain ⟨e₁,first,ok⟩ := bindOk.mp ok
    rw [(createAdmitted first).1] at ok
    obtain ⟨e₂,second,ok⟩ := bindOk.mp ok
    cases appendEffect second
    obtain ⟨e₃,third,ok⟩ := bindOk.mp ok
    cases publishEffect third
    refine ih ?_ ok
    unfold Called
    rw [publishedAppend,jobsAppend]
    exact congrArg (· ++ [LoggedJob.notifySigner session.signerId session.id]) h

theorem sendCalled {u : SendUnit} {i} (h : Called e) (ok : u.run i e = .ok e') : Called e' := by
  obtain ⟨e₁,first,ok⟩ := bindOk.mp ok
  obtain ⟨-,rfl⟩ := updateDocumentOk first
  obtain ⟨e₂,second,ok⟩ := bindOk.mp ok
  have issued : Called e₂ := issueCalled (by exact h) second
  cases appendEffect ok
  exact issued.quiet rfl (show Events [.documentSent] _ _ from .one _ (by simp)) (by decide)

theorem completeCalled {u : CompleteUnit} {i} (h : Called e) (effect : CompleteEffect u i e e') : Called e' := by
  unfold Called
  rw [effect.outbox,effect.audit,publishedAppend,jobsAppend,show jobsPublished e.outbox = jobsLogged e.audit from h]
  rfl

theorem rotateCalled {u : RotateUnit} (h : Called e) (ok : u.run e = .ok e') : Called e' := by
  have still := (rotateStill ok).1
  obtain ⟨e₁,first,ok⟩ := bindOk.mp ok
  have revoked : Appended [.sessionRevoked] e e₁ := revokeAllAppended (by simp) first
  obtain ⟨e₂,second,ok⟩ := bindOk.mp ok
  have created : Appended [] e₁ e₂ := createdAppended second
  unfold Called
  rw [still.outbox]
  cases appendEffect ok
  rw [jobsAppend,created.audit.jobs (by simp),revoked.audit.jobs (by decide)]
  refine Eq.trans h ?_
  rw [show NewAuditEvent.jobs _ = [] from rfl,List.append_nil]

theorem flattenCalled {u : FlattenUnit} (h : Called e) (ok : u.run e = .ok e') : Called e' := by
  have outbox := (flattenEffect ok).outbox
  obtain ⟨e₁,first,ok⟩ := bindOk.mp ok
  obtain ⟨e₂,second,ok⟩ := bindOk.mp ok
  have drawn : jobsLogged e₁.audit = jobsLogged e.audit := by
    unfold FlattenUnit.addRevision at first
    split at first
    · obtain ⟨e₃,created,first⟩ := bindOk.mp first
      obtain ⟨rfl,-⟩ := createRevisionEffect created
      obtain ⟨e₄,marked,first⟩ := bindOk.mp first
      cases markAllFlattenedEffect marked
      cases appendEffect first
      rw [jobsAppend,show NewAuditEvent.jobs _ = [] from rfl,List.append_nil]
    · cases first
      rfl
  have moved : Appended [] e₁ e₂ := documentAppended second
  have made : Appended [.documentFinalized] e₂ e' := by
    unfold FlattenUnit.addArtifact at ok
    split at ok
    · obtain ⟨e₃,created,ok⟩ := bindOk.mp ok
      exact (createArtifactAppended created).trans (appendAppended ok (List.mem_singleton.mpr rfl))
    · cases ok
      exact .kept rfl rfl
  unfold Called
  rw [outbox,made.audit.jobs (by decide),moved.audit.jobs (by simp),drawn]
  exact h

end

theorem Committed.published {w : Write} {i e e'} (done : Committed i e e' w) :
    (∃ u, w = .upload u) ∨ (∃ u, w = .send u) ∨ (∃ u, w = .complete u) ∨ e'.outbox = e.outbox := by
  cases done with
  | still h idle artifact => exact .inr (.inr (.inr h.outbox))
  | released h => subst h; exact .inr (.inr (.inr rfl))
  | failed state h => subst h; exact .inr (.inr (.inr rfl))
  | leased row frame state revised kept => exact .inr (.inr (.inr (by rw [frame])))
  | upload h => exact .inl ⟨_,rfl⟩
  | inspect h => exact .inr (.inr (.inr h.outbox))
  | replaceSigners h => exact .inr (.inr (.inr h.outbox))
  | replaceFields h => exact .inr (.inr (.inr h.outbox))
  | send h => exact .inr (.inl ⟨_,rfl⟩)
  | void h => exact .inr (.inr (.inr h.outbox))
  | decline h => exact .inr (.inr (.inr h.outbox))
  | complete h => exact .inr (.inr (.inl ⟨_,rfl⟩))
  | flatten h => exact .inr (.inr (.inr h.outbox))

theorem quietCalled {w : Write} {i e e'} (inv : Consistent e) (h : Called e) (ok : w.run i e = .ok e') (done : Committed i e e' w)
    (quiet : ∀ type ∈ w.eventTypes, calls type = false)
    (other : (∀ u, w ≠ .upload u) ∧ (∀ u, w ≠ .send u) ∧ ∀ u, w ≠ .complete u) : Called e' := by
  rcases done.published with ⟨u,same⟩ | ⟨u,same⟩ | ⟨u,same⟩ | outbox
  · exact absurd same (other.1 u)
  · exact absurd same (other.2.1 u)
  · exact absurd same (other.2.2 u)
  · rcases appended inv ok with grown | ⟨u,-,grown⟩
    · exact h.quiet outbox grown.audit quiet
    · exact h.quiet outbox grown.audit (by decide)

theorem keepCalled {w : Write} {i e e'} (inv : Consistent e) (h : Called e) (ok : w.run i e = .ok e')
    (done : Committed i e e' w) : Called e' := by
  cases w with
  | upload u => exact uploadCalled h ok
  | send u => exact sendCalled h ok
  | complete u => exact completeCalled h (completeEffect inv.signerIds ok)
  | rotate u => exact rotateCalled h ok
  | flatten u => exact flattenCalled h ok
  | _ => exact quietCalled inv h ok done (by simp [Write.eventTypes,calls]) (by simp)

def calledExtension : Extension anyScope where
  Extra := Called
  Also _ _ := True
  refl _ := trivial
  trans _ _ := trivial
  keep inv extra _ _ _ ok done _ _ := ⟨keepCalled inv extra ok done,trivial⟩

/-- In every store of every run the outbox holds the jobs the log calls for, each once and
in the order of the log: an inspection for each uploaded revision, a notification for each
session a send has issued, a job that draws for each signing. -/
def OutboxFollowsLog (settings : Settings) (draft : NewDraft) : Prop :=
  ∀ c, Run (esign settings) anyScope (initial (createDraftDocument draft)) c →
    jobsPublished c.store.outbox = jobsLogged c.store.audit

theorem outboxFollowsLog (settings : Settings) (draft : NewDraft) : OutboxFollowsLog settings draft := fun _ run =>
  (calledExtension.run ⟨draftConsistent draft,rfl⟩ run).inv.2

end ESign
