import ESign.Records
import ESign.SessionLifecycle

/-! The evidence of a signing. It is spread over five tables: the signer, its session, the
consent, the event and the job. Whoever has signed has all of it, and a job finds it
when it is run, however late. -/
namespace ESign
open StoreProgram StoreProgram.Outline

/-- The event names the signer, the session and the consent copy. -/
structure NewAuditEvent.Signs (event : NewAuditEvent) (signerId sessionId consentCopyId : Id) : Prop where
  type : event.type = .signerSigned
  signer : ("signerId",.id (some signerId)) ∈ event.payload
  session : ("sessionId",.id (some sessionId)) ∈ event.payload
  consent : ("consentCopyId",.id (some consentCopyId)) ∈ event.payload

/-- The rows that stand behind a signed signer. -/
structure Evidence (e : Envelope) (signerId : Id) (session : SigningSession) (consent : ConsentRecord) : Prop where
  stored : session ∈ e.sessions
  owner : session.signerId = signerId
  completed : session.status = .completed
  consumed : session.consumedAt.isSome = true
  recorded : consent ∈ e.consents ∧ consent.sessionId = session.id
  event : ∃ event ∈ e.audit, event.Signs signerId session.id consent.consentCopyId
  job : ∃ job ∈ e.outbox, ∃ revisionId, job.payload = .flattenSignature signerId session.id revisionId

structure JobBacked (e : Envelope) (signerId sessionId : Id) : Prop where
  signer : ∃ s ∈ e.signers, s.id = signerId
  session : ∃ session ∈ e.sessions, session.id = sessionId ∧ session.signerId = signerId
  consent : ∃ consent ∈ e.consents, consent.sessionId = sessionId

structure Evidenced (e : Envelope) : Prop where
  sound : SessionsSound e
  distinct : (e.consents.map ConsentRecord.sessionId).Nodup
  signed : ∀ s ∈ e.signers, s.status = .signed → ∃ session consent, Evidence e s.id session consent
  jobs : ∀ job ∈ e.outbox, ∀ signerId sessionId revisionId, job.payload = .flattenSignature signerId sessionId revisionId →
    JobBacked e signerId sessionId

structure RecordsKept (e e' : Envelope) : Prop where
  sessions : SessionsFurther e e'
  consents : ∀ row ∈ e.consents, row ∈ e'.consents
  outbox : ∀ job ∈ e.outbox, job ∈ e'.outbox

theorem RecordsKept.refl (e : Envelope) : RecordsKept e e := ⟨fun s mem => ⟨s,mem,.refl s⟩,fun _ h => h,fun _ h => h⟩

theorem RecordsKept.trans {a b c} (left : RecordsKept a b) (right : RecordsKept b c) : RecordsKept a c :=
  ⟨left.sessions.trans right.sessions,fun row mem => right.consents row (left.consents row mem),
    fun job mem => right.outbox job (left.outbox job mem)⟩

theorem Committed.outboxKept {w : Write} {i e e'} (done : Committed i e e' w) : ∀ job ∈ e.outbox, job ∈ e'.outbox := by
  intro job mem
  rcases done.outbox with ⟨u,-,h⟩ | ⟨jobs,grown,-⟩
  · rw [h.outbox]
    exact List.mem_append_left _ mem
  · rw [grown]
    exact List.mem_append_left _ mem

theorem signedSource {w : Write} {i e e'} (inv : Consistent e) (just : Justified Before w e) (done : Committed i e e' w)
    (inv' : Consistent e') {s' : Signer} (mem' : s' ∈ e'.signers) (signed : s'.status = .signed) :
    (∃ s ∈ e.signers, s.id = s'.id ∧ s.status = .signed) ∨
    ∃ u, w = .complete u ∧ CompleteEffect u i e e' ∧ s'.id = u.loaded.signer.id := by
  rcases done.signers with ⟨same,-⟩ | ⟨u,rfl,h⟩ | ⟨u,rfl,h⟩ | ⟨u,rfl,h⟩
  · rw [same] at mem'
    exact .inl ⟨s',mem',rfl,signed⟩
  · -- in preparation nobody has signed
    have read := just.document.row h.version
    have prep : isPreparationState e.document.state = true := by rw [read]; exact just.unlocked
    have pending := (inv'.unsent (h.preparation prep (inv.unsent prep).2.2).2.1).1 s' mem'
    rw [pending] at signed
    cases signed
  · rw [h.signers] at mem'
    obtain ⟨s,mem,⟨-,rfl⟩ | ⟨-,rfl⟩⟩ := actMem mem'
    · cases signed
    · exact .inl ⟨s',mem,rfl,signed⟩
  · rcases h.signers with ⟨same,-⟩ | ⟨acted,-⟩
    · rw [same] at mem'
      exact .inl ⟨s',mem',rfl,signed⟩
    · rw [acted] at mem'
      obtain ⟨s,mem,⟨named,rfl⟩ | ⟨-,rfl⟩⟩ := actMem mem'
      · exact .inr ⟨u,rfl,h,named⟩
      · exact .inl ⟨s',mem,rfl,signed⟩

/- What stood behind a signer still does: its session is closed, and the rest only grows. -/
theorem Evidence.kept {w : Write} {i e e' signerId session consent} (h : Evidence e signerId session consent)
    (inv : Consistent e) (ok : w.run i e = .ok e') (done : Committed i e e' w) : Evidence e' signerId session consent where
  stored := by
    obtain ⟨moved,changed,opened⟩ := (sessionsChanged inv ok).changed
    obtain ⟨t,found,change⟩ := forall₂Source changed.flip session h.stored
    have closed : session.open = false := by
      rw [openStatus,h.completed]
      exact ⟨by simp,by simp⟩
    rw [change.closed closed] at found
    exact opened.kept session found
  owner := h.owner
  completed := h.completed
  consumed := h.consumed
  recorded := ⟨consentsKept inv ok consent h.recorded.1,h.recorded.2⟩
  event := by
    obtain ⟨event,mem,signs⟩ := h.event
    exact ⟨event,auditKept inv ok event mem,signs⟩
  job := by
    obtain ⟨job,mem,payload⟩ := h.job
    exact ⟨job,done.outboxKept job mem,payload⟩

theorem JobBacked.kept {w : Write} {i e e' signerId sessionId} (h : JobBacked e signerId sessionId) (inv : Consistent e)
    (ok : w.run i e = .ok e') (later : Later e e') : JobBacked e' signerId sessionId where
  signer := by
    obtain ⟨session,mem,-⟩ := h.session
    have left : isPreparationState e.document.state = false := by
      cases prep : isPreparationState e.document.state with
      | false => rfl
      | true =>
        rw [(inv.unsent prep).2.1] at mem
        cases mem
    obtain ⟨s,found,named⟩ := h.signer
    obtain ⟨s',found',next⟩ := (later.signers left).mem s found
    exact ⟨s',found',next.id.trans named⟩
  session := by
    obtain ⟨session,mem,named,owner⟩ := h.session
    obtain ⟨session',mem',next⟩ := later.sessions session mem
    exact ⟨session',mem',next.id.trans named,next.signerId.trans owner⟩
  consent := by
    obtain ⟨consent,mem,named⟩ := h.consent
    exact ⟨consent,consentsKept inv ok consent mem,named⟩

/-! A signing. -/

theorem completedRow {u : CompleteUnit} {i e e'} (ok : u.run i e = .ok e') :
    ∃ s ∈ e.sessions, s.id = u.loaded.session.id ∧ ∃ s' ∈ e'.sessions, s'.id = s.id ∧ s'.signerId = s.signerId ∧
      s'.consumedAt = s.consumedAt ∧ s'.status = .completed := by
  obtain ⟨e₁,first,ok⟩ := bindOk.mp ok
  obtain ⟨rows,rfl,-⟩ := completeFieldsEffect first
  obtain ⟨e₂,second,ok⟩ := bindOk.mp ok
  have sessions : e₂.sessions = e.sessions := by
    obtain ⟨signers,rfl⟩ := markSignedFrame second
    rfl
  obtain ⟨e₃,third,ok⟩ := bindOk.mp ok
  obtain ⟨e₄,fourth,ok⟩ := bindOk.mp ok
  obtain ⟨document,rfl,-⟩ := moveDocumentEffect fourth
  obtain ⟨e₅,fifth,ok⟩ := bindOk.mp ok
  cases appendEffect fifth
  cases publishEffect ok
  unfold SigningSessions.markCompleted at third
  split at third
  · rename_i already
    cases third
    cases found : SigningSessions.findById u.loaded.session.id e₂ with
    | none =>
      rw [found] at already
      cases already
    | some row =>
      rw [found,Option.any_some,decide_eq_true_eq] at already
      have named : row.id = u.loaded.session.id := by simpa using List.find?_some found
      have mem := List.mem_of_find?_eq_some found
      rw [sessions] at mem
      exact ⟨row,mem,named,row,by rw [← sessions] at mem; exact mem,rfl,rfl,rfl,already⟩
  · obtain ⟨rows',updated,last⟩ := bindOk.mp third
    cases last
    obtain ⟨rfl,row,mem,clause⟩ := updateOneOk updated
    have named : row.id = u.loaded.session.id := by
      rw [Bool.and_eq_true,decide_eq_true_eq] at clause
      exact clause.1
    refine ⟨row,by rw [← sessions]; exact mem,named,_,List.mem_map.mpr ⟨row,mem,rfl⟩,?_⟩
    rw [if_pos clause]
    exact ⟨rfl,rfl,rfl,rfl⟩

/-- The stores of a run that lead up to the present one. -/
abbrev EvidencedBefore (a b : Envelope) : Prop := (Consistent a ∧ Evidenced a) ∧ Later a b ∧ RecordsKept a b

theorem EvidencedBefore.session (a b : Envelope) (h : EvidencedBefore a b) : sessionExtension.Past a b :=
  ⟨⟨h.1.1,h.1.2.sound⟩,h.2.1,h.2.2.sessions⟩

theorem consentFound {u : CompleteUnit} {e} (past : Justified EvidencedBefore (.complete u) e) :
    ∃ consent ∈ e.consents, consent.sessionId = u.loaded.session.id ∧ consent.consentCopyId = u.consentCopyId := by
  obtain ⟨atRoster,atFields,atConsent,source,later⟩ := past
  have found := source.consent
  cases row : ConsentRecords.findBySession u.loaded.session.id atConsent with
  | none =>
    rw [row] at found
    cases found
  | some consent =>
    rw [row] at found
    have named : consent.sessionId = u.loaded.session.id := by simpa using List.find?_some row
    exact ⟨consent,later.2.2.consents consent (List.mem_of_find?_eq_some row),named,Option.some.inj found⟩

theorem completeActor {u : CompleteUnit} {e} (just : Justified Before (.complete u) e) : ActorNow u.loaded e := by
  obtain ⟨atRoster,atFields,atConsent,source,later⟩ := just
  exact (source.loaded.before (source.later.trans (source.toConsent.trans later))).now (actorPending source.turn)

theorem completeEvidence {u : CompleteUnit} {i e e'} (inv : Consistent e) (past : Justified EvidencedBefore (.complete u) e)
    (just : Justified Before (.complete u) e) (ok : u.run i e = .ok e') (h : CompleteEffect u i e e') :
    ∃ session consent, Evidence e' u.loaded.signer.id session consent ∧ session.id = u.loaded.session.id := by
  obtain ⟨s,mem,named,s',mem',id,owner,consumed,completed⟩ := completedRow ok
  obtain ⟨consent,recorded,ofSession,copy⟩ := consentFound past
  have actor := completeActor just
  obtain ⟨t,found,same,used⟩ := loadedSigning (past.weaken EvidencedBefore.session)
  obtain ⟨t',found',next⟩ := actor.session
  rw [sameSession inv found mem (same.trans named.symm)] at used
  rw [sameSession inv found' mem (next.id.trans named.symm)] at next
  refine ⟨s',consent,⟨mem',?_,completed,by rw [consumed]; exact used,⟨?_,?_⟩,?_,?_⟩,id.trans named⟩
  · rw [owner,next.signerId,actor.named]
  · exact consentsKept (w := .complete u) inv ok consent recorded
  · rw [id,named]
    exact ofSession
  · refine ⟨u.signed,by rw [h.audit]; exact List.mem_append_right _ List.mem_cons_self,⟨rfl,?_,?_,?_⟩⟩
    · simp [CompleteUnit.signed]
    · simp [CompleteUnit.signed,id,named]
    · simp [CompleteUnit.signed,copy]
  · refine ⟨u.job i,by rw [h.outbox]; exact List.mem_append_right _ List.mem_cons_self,u.sourceRevisionId,?_⟩
    rw [id,named]
    rfl

theorem Evidence.backed {e signerId session consent} (h : Evidence e signerId session consent)
    (signer : ∃ s ∈ e.signers, s.id = signerId) : JobBacked e signerId session.id where
  signer := signer
  session := ⟨session,h.stored,rfl,h.owner⟩
  consent := ⟨consent,h.recorded⟩

theorem completeSigner {u : CompleteUnit} {i e e'} (inv : Consistent e) (h : CompleteEffect u i e e') :
    ∃ s ∈ e'.signers, s.id = u.loaded.signer.id := by
  have acting : ∃ s ∈ e.signers, s.id = u.loaded.signer.id := by
    rcases h.signers with ⟨-,row,mem,named,-⟩ | ⟨-,row,mem,named,-⟩
    · exact ⟨row,mem,named⟩
    · exact ⟨row,mem,named⟩
  obtain ⟨s,mem,named⟩ := acting
  obtain ⟨s',mem',next⟩ := (completeSigners inv h).mem s mem
  exact ⟨s',mem',next.id.trans named⟩

theorem keepEvidenced {w : Write} {i e e'} (inv : Consistent e) (extra : Evidenced e) (past : Justified EvidencedBefore w e)
    (just : Justified Before w e) (ok : w.run i e = .ok e') (done : Committed i e e' w) (inv' : Consistent e')
    (later : Later e e') : Evidenced e' where
  sound := keepSound extra.sound just (sessionsChanged inv ok)
  distinct := consentsDistinct inv ok extra.distinct
  signed := by
    intro s' mem' signed
    rcases signedSource inv just done inv' mem' signed with ⟨s,mem,id,status⟩ | ⟨u,rfl,h,named⟩
    · obtain ⟨session,consent,evidence⟩ := extra.signed s mem status
      rw [← id]
      exact ⟨session,consent,evidence.kept inv ok done⟩
    · obtain ⟨session,consent,evidence,-⟩ := completeEvidence inv past just ok h
      rw [named]
      exact ⟨session,consent,evidence⟩
  jobs := by
    intro job mem' signerId sessionId revisionId payload
    have old : job ∈ e.outbox → JobBacked e' signerId sessionId :=
      fun mem => (extra.jobs job mem signerId sessionId revisionId payload).kept inv ok later
    rcases done.outbox with ⟨u,rfl,h⟩ | ⟨jobs,grown,other⟩
    · rw [h.outbox] at mem'
      rcases List.mem_append.mp mem' with mem | new
      · exact old mem
      · obtain ⟨session,consent,evidence,named⟩ := completeEvidence inv past just ok h
        rw [List.mem_singleton.mp new] at payload
        cases payload
        rw [← named]
        exact evidence.backed (completeSigner inv h)
    · rw [grown] at mem'
      rcases List.mem_append.mp mem' with mem | new
      · exact old mem
      · exact absurd payload (other job new signerId sessionId revisionId)

def evidenceExtension : Extension anyScope where
  Extra := Evidenced
  Also := RecordsKept
  refl := .refl
  trans := .trans
  keep inv extra past just _ ok done inv' later := ⟨keepEvidenced inv extra past just ok done inv' later,
    ⟨keepFurther (sessionsChanged inv ok),consentsKept inv ok,done.outboxKept⟩⟩

theorem draftEvidenced (draft : NewDraft) : Evidenced (createDraftDocument draft) where
  sound := draftSound draft
  distinct := List.nodup_nil
  signed _ mem := by cases mem
  jobs _ mem := by cases mem

/-! What a job finds. -/

def signerMissing : AppError := finalizationError .invalidSignatureField [("resource","signer")]
def sessionMissing : AppError := finalizationError .invalidSignatureField [("resource","session")]
def consentMissing : AppError := finalizationError .invalidSignatureField [("resource","consent")]

theorem JobBacked.lookups {e signerId sessionId} (h : JobBacked e signerId sessionId) (inv : Consistent e) :
    (Signers.findById signerId e).isSome = true ∧
    (∃ session, SigningSessions.findById sessionId e = some session ∧ session.id = sessionId ∧
      session.signerId = signerId) ∧
    (ConsentRecords.findBySession sessionId e).isSome = true := by
  obtain ⟨s,mem,named⟩ := h.signer
  obtain ⟨session,found,id,owner⟩ := h.session
  obtain ⟨consent,recorded,ofSession⟩ := h.consent
  refine ⟨?_,?_,?_⟩
  · exact List.find?_isSome.mpr ⟨s,mem,by simpa using named⟩
  · cases row : SigningSessions.findById sessionId e with
    | none =>
      have none := List.find?_eq_none.mp row session found
      simp [id] at none
    | some session' =>
      have same : session'.id = sessionId := by simpa using List.find?_some row
      rw [sameSession inv (List.mem_of_find?_eq_some row) found (same.trans id.symm)]
      exact ⟨session,rfl,id,owner⟩
  · exact List.find?_isSome.mpr ⟨consent,recorded,by simpa using ofSession⟩

section
variable {settings : Settings}

/- The lookups of a published job are made one after the other, each in a store that has
the rows. -/
theorem workLookups (input : FlattenInput) {e} {job : OutboxEvent}
    (published : job ∈ e.outbox)
    (payload : job.payload = .flattenSignature input.signerId input.sessionId input.revisionId) :
    (evidenceExtension.outline settings).Yields (loadAuthorizedWork input)
      (fun result _ => ∀ error, result = .error error → error ∉ [signerMissing,sessionMissing,consentMissing]) e := by
  have backed : ∀ e', (evidenceExtension.outline settings).Past e e' → (evidenceExtension.outline settings).Inv e' →
      JobBacked e' input.signerId input.sessionId :=
    fun e' next inv' => inv'.2.jobs job (next.2.2.outbox job published) _ _ _ payload
  unfold loadAuthorizedWork
  refine yieldsBind (yieldsGet (fun e₁ to₁ inv₁ _ => ?_))
  refine yieldsBind (yieldsGet (fun e₂ to₂ inv₂ _ => ?_))
  have to₂ := to₁.trans to₂
  dsimp only
  split
  · exact yieldsLift (fun error failed => by cases failed)
  refine yieldsBind (yieldsFind (fun e₃ to₃ inv₃ signer found => ?_) (fun e₃ to₃ inv₃ missing => ?_))
  swap
  · have row := ((backed e₃ (to₂.trans to₃) inv₃).lookups inv₃.1).1
    rw [missing] at row
    cases row
  have to₃ := to₂.trans to₃
  have signerId : signer.id = input.signerId := by simpa using List.find?_some found
  refine yieldsBind (yieldsFind (fun e₄ to₄ inv₄ session found => ?_) (fun e₄ to₄ inv₄ missing => ?_))
  swap
  · obtain ⟨session,row,-⟩ := ((backed e₄ (to₃.trans to₄) inv₄).lookups inv₄.1).2.1
    rw [missing] at row
    cases row
  have to₄ := to₃.trans to₄
  obtain ⟨session',row,sessionId,owner⟩ := ((backed e₄ to₄ inv₄).lookups inv₄.1).2.1
  cases Option.some.inj (found.symm.trans row)
  refine yieldsBind (yieldsEnsure (fun _ => ?_) (fun foreign => ?_))
  swap
  · rw [owner,signerId,decide_eq_false_iff_not] at foreign
    exact absurd rfl foreign
  refine yieldsBind (yieldsFind (fun e₅ to₅ inv₅ consent found => ?_) (fun e₅ to₅ inv₅ missing => ?_))
  swap
  · have row := ((backed e₅ (to₄.trans to₅) inv₅).lookups inv₅.1).2.2
    rw [← sessionId,missing] at row
    cases row
  -- what can still be missing is the revision, or a field of the signer
  refine yieldsBind (yieldsFind (fun e₆ to₆ inv₆ revision found => ?_) (fun e₆ to₆ inv₆ missing => ?_))
  swap
  · rintro error ⟨⟩
    decide
  refine yieldsBind (yieldsGet (fun e₇ to₇ inv₇ _ => ?_))
  refine yieldsBind (yieldsGet (fun e₈ to₈ inv₈ _ => ?_))
  refine yieldsBind (yieldsEnsure (fun _ => ?_) (fun empty => ?_))
  swap
  · rintro error ⟨⟩
    decide
  refine yieldsBind (yieldsGet (fun e₉ to₉ inv₉ _ => ?_))
  exact yieldsLift (fun error failed => by cases failed)

end

/-- Every signed signer has its evidence, with one consent for the session; and a job that
is in the outbox finds its signer, its session and the consent, whenever it is run and
whatever runs beside it. -/
def SigningEvidence (settings : Settings) (draft : NewDraft) : Prop :=
  ∀ c, Run (esign settings) anyScope (initial (createDraftDocument draft)) c →
    (∀ s ∈ c.store.signers, s.status = .signed → ∃ session consent, Evidence c.store s.id session consent ∧
      c.store.consents.filter (fun row => row.sessionId = session.id) = [consent]) ∧
    ∀ job ∈ c.store.outbox, ∀ signerId sessionId revisionId, job.payload = .flattenSignature signerId sessionId revisionId →
      ∀ owner own error c', Amid (esign settings) anyScope (fun _ => True) c
        (loadAuthorizedWork ⟨signerId,sessionId,revisionId,job.jobId,job.id,owner⟩) own (.error error) c' →
      error ∉ [signerMissing,sessionMissing,consentMissing]

theorem singleConsent {consents : List ConsentRecord} {consent : ConsentRecord}
    (distinct : (consents.map ConsentRecord.sessionId).Nodup) (mem : consent ∈ consents) :
    consents.filter (fun row => row.sessionId = consent.sessionId) = [consent] := by
  induction consents with
  | nil => cases mem
  | cons row rest ih =>
    obtain ⟨fresh,distinct⟩ := List.nodup_cons.mp distinct
    rcases List.mem_cons.mp mem with rfl | mem
    · have others : ∀ other ∈ rest, other.sessionId ≠ consent.sessionId := by
        intro other found same
        exact fresh (List.mem_map.mpr ⟨other,found,same⟩)
      rw [List.filter_cons_of_pos (by simp),List.filter_eq_nil_iff.mpr (by simpa using others)]
    · have other : row.sessionId ≠ consent.sessionId := by
        intro same
        exact fresh (List.mem_map.mpr ⟨consent,mem,same.symm⟩)
      rw [List.filter_cons_of_neg (by simpa using other)]
      exact ih distinct mem

theorem signingEvidence (settings : Settings) (draft : NewDraft) : SigningEvidence settings draft := by
  intro c run
  have sound := evidenceExtension.run ⟨draftConsistent draft,draftEvidenced draft⟩ run
  refine ⟨?_,?_⟩
  · intro s mem signed
    obtain ⟨session,consent,evidence⟩ := sound.inv.2.signed s mem signed
    refine ⟨session,consent,evidence,?_⟩
    rw [← evidence.recorded.2]
    exact singleConsent sound.inv.2.distinct evidence.recorded.1
  · intro job published signerId sessionId revisionId payload owner own error c' amid
    have held := workLookups ⟨signerId,sessionId,revisionId,job.jobId,job.id,owner⟩ published payload sound.inv
    exact (amidHolds evidenceExtension.starts (fun _ _ => trivial) sound held amid).2.2 error rfl

end ESign
