import ESign.AuditReplay
import ESign.WriteSites

/-! Every unit of work writes its rows and its events together: after it the replayed log
agrees with the rows again. -/
namespace ESign
open StoreProgram StoreProgram.Outline

structure SameRows (e e' : Envelope) : Prop where
  document : e'.document = e.document
  signers : e'.signers = e.signers
  sessions : e'.sessions = e.sessions
  consents : e'.consents = e.consents
  revisions : e'.revisions = e.revisions
  uploadSessions : e'.uploadSessions = e.uploadSessions

theorem RevisionsTold.kept {ids : List Id} {abandoned : Nat} {e e' : Envelope} (h : RevisionsTold ids abandoned e)
    (revisions : e'.revisions = e.revisions)
    (current : e'.document.currentRevisionId = e.document.currentRevisionId)
    (upload : e'.uploadSessions = e.uploadSessions) : RevisionsTold ids abandoned e' where
  revisions := by rw [revisions]; exact h.revisions
  current := by rw [current]; exact h.current
  upload := by rw [upload]; exact h.upload
  once := h.once

theorem Told.same {told : AuditView} {e e' : Envelope} (h : Told told e) (rows : SameRows e e') : Told told e' where
  document := by rw [rows.document]; exact h.document
  signers := by rw [rows.signers]; exact h.signers
  sessions := by rw [rows.sessions]; exact h.sessions
  consents := by rw [rows.consents]; exact h.consents
  revisions := h.revisions.kept rows.revisions (by rw [rows.document]) rows.uploadSessions

theorem Told.moved {told : AuditView} {e e' : Envelope} (h : Told told e) (frame : e' = { e with document := e'.document })
    (phase : e'.document.state.phase = e.document.state.phase)
    (sent : e'.document.signingRevisionId = e.document.signingRevisionId)
    (inspections : e'.document.inspectionStatus = e.document.inspectionStatus)
    (current : e'.document.currentRevisionId = e.document.currentRevisionId) : Told told e' where
  document := h.document.kept phase sent inspections
  signers := by rw [frame]; exact h.signers
  sessions := by rw [frame]; exact h.sessions
  consents := by rw [frame]; exact h.consents
  revisions := h.revisions.kept (by rw [frame]) current (by rw [frame])

theorem quietEvent {v : AuditView} {event : NewAuditEvent}
    (quiet : event.type = .documentViewed ∨ event.type = .fieldsUpdated ∨ event.type = .finalizationStarted ∨
      event.type = .finalizationFailed) : v.apply event = v := by
  unfold AuditView.apply
  rcases quiet with type | type | type | type <;> rw [type]

section
variable {e e' : Envelope}

theorem uploadTold {u : UploadUnit} {i} (just : Justified Before (.upload u) e) (h : Told (replay e.audit) e)
    (ok : u.run i e = .ok e') : Told (replay e'.audit) e' := by
  obtain ⟨e₁,first,ok⟩ := bindOk.mp ok
  obtain ⟨rfl,-⟩ := createRevisionEffect first
  obtain ⟨e₂,second,ok⟩ := bindOk.mp ok
  obtain ⟨hit,rfl⟩ := updateDocumentOk second
  obtain ⟨e₃,third,ok⟩ := bindOk.mp ok
  obtain ⟨rows,updated,last⟩ := bindOk.mp third
  cases last
  obtain ⟨e₄,fourth,ok⟩ := bindOk.mp ok
  cases appendEffect fourth
  cases publishEffect ok
  obtain ⟨rfl,hitRow,mem,clause⟩ := updateOneOk updated
  obtain ⟨read,-,none,-⟩ := just
  have row := read.row (of_decide_eq_true hit)
  -- the draft that was read had no revision
  have bare : (replay e.audit).revisions = [] := by
    have current := h.revisions.current
    rw [row,none] at current
    exact List.getLast?_eq_none_iff.mp current.symm
  obtain ⟨session,only,status,revisionId⟩ := h.revisions.upload
  have clause := of_decide_eq_true clause
  have only : e.uploadSessions = [session] := only
  rw [only,List.mem_singleton] at mem
  subst mem
  have unabandoned : (replay e.audit).abandoned = 0 := by
    by_contra some
    rw [clause.2,uploadStatus,if_neg (by simp [bare]),if_pos some] at status
    cases status
  rw [replayAppend]
  refine ⟨h.document.kept rfl rfl rfl,h.signers,h.sessions,h.consents,?_⟩
  constructor
  · show (replay e.audit).revisions ++ [u.revision.id] = List.map _ (e.revisions ++ [u.revision])
    rw [h.revisions.revisions,List.map_append]
    rfl
  · show some u.revision.id = ((replay e.audit).revisions ++ [u.revision.id]).getLast?
    rw [List.getLast?_concat]
  · refine ⟨{ hitRow with status := .completed, revisionId := some u.revision.id },?_,?_,?_⟩
    · show e.uploadSessions.map _ = _
      rw [only,List.map_singleton,if_pos (decide_eq_true clause)]
    · rw [uploadStatus,if_pos]
      show (replay e.audit).revisions ++ [u.revision.id] ≠ []
      simp
    · show some u.revision.id = ((replay e.audit).revisions ++ [u.revision.id]).head?
      rw [bare]
      rfl
  · exact ⟨h.revisions.once.1,fun some => absurd unabandoned some⟩

theorem abandonTold {u : AbandonUnit} (h : Told (replay e.audit) e) (ok : u.run e = .ok e') : Told (replay e'.audit) e' := by
  obtain ⟨e₁,first,ok⟩ := bindOk.mp ok
  obtain ⟨rows,updated,last⟩ := bindOk.mp first
  cases last
  cases appendEffect ok
  obtain ⟨rfl,hitRow,mem,clause⟩ := updateOneOk updated
  obtain ⟨session,only,status,revisionId⟩ := h.revisions.upload
  have clause := of_decide_eq_true clause
  rw [only,List.mem_singleton] at mem
  subst mem
  -- an upload that is still issued has no revision, and was not abandoned
  rw [clause.2] at status
  have bare : (replay e.audit).revisions = [] := by
    by_contra some
    rw [uploadStatus,if_pos some] at status
    cases status
  have unabandoned : (replay e.audit).abandoned = 0 := by
    by_contra some
    rw [uploadStatus,if_neg (by simp [bare]),if_pos some] at status
    cases status
  rw [replayAppend]
  refine ⟨h.document,h.signers,h.sessions,h.consents,h.revisions.revisions,h.revisions.current,?_,?_⟩
  · refine ⟨{ hitRow with status := .abandoned },?_,?_,revisionId⟩
    · show e.uploadSessions.map _ = _
      rw [only,List.map_singleton,if_pos (decide_eq_true clause)]
    · show _ = uploadStatus (replay e.audit).revisions ((replay e.audit).abandoned+1)
      rw [uploadStatus,if_neg (by simp [bare]),if_pos (by simp)]
  · show (replay e.audit).abandoned+1 ≤ 1 ∧ ((replay e.audit).abandoned+1 ≠ 0 → (replay e.audit).revisions = [])
    exact ⟨by rw [unabandoned],fun _ => bare⟩

theorem inspectTold {u : InspectUnit} (just : Justified Before (.inspect u) e) (h : Told (replay e.audit) e)
    (ok : u.run e = .ok e') : Told (replay e'.audit) e' := by
  obtain ⟨e₁,first,ok⟩ := bindOk.mp ok
  obtain ⟨hit,rfl⟩ := updateDocumentOk first
  cases appendEffect ok
  have row := just.document.row (of_decide_eq_true hit)
  have pending : e.document.inspectionStatus = .pending := by rw [row]; exact just.pending
  rw [replayAppend]
  cases u.accepted with
  | true =>
    refine ⟨?_,h.signers,h.sessions,h.consents,h.revisions.kept rfl rfl rfl⟩
    exact h.document.inspected pending (by decide) (by simp) rfl rfl
  | false =>
    refine ⟨?_,h.signers,h.sessions,h.consents,h.revisions.kept rfl rfl rfl⟩
    exact h.document.inspected pending (by decide) (by simp) rfl rfl

theorem DocumentTold.prepared {told : LoggedDocument} {given before after : Document} (h : DocumentTold told before)
    (row : before.version = given.version → before = given) (prep : isPreparationState given.state = true)
    (document : Prepared given before after) : DocumentTold told after := by
  rcases document with same | ⟨version,state,either,-,changed⟩
  · rw [same]
    exact h
  · rw [changed]
    refine h.kept ?_ rfl rfl
    rw [row version,prepPhase.mp prep]
    rcases either with rfl | rfl <;> rfl

theorem preparedCurrent {given before after : Document} (document : Prepared given before after) :
    after.currentRevisionId = before.currentRevisionId := by
  rcases document with same | ⟨-,state,-,-,changed⟩
  · rw [same]
  · rw [changed]

theorem replaceSignersTold {u : ReplaceSignersUnit} (inv : Consistent e) (just : ReplaceSignersSource Before u e)
    (inv' : Consistent e') (h : Told (replay e.audit) e) (ok : u.run e = .ok e') : Told (replay e'.audit) e' := by
  have effect := replaceSignersEffect ok
  obtain ⟨⟨e₁,replaced⟩,first,ok⟩ := bindOk.mp ok
  obtain ⟨_,_,last⟩ := bindOk.mp first
  cases last
  obtain ⟨e₂,second,ok⟩ := bindOk.mp ok
  obtain ⟨rows,rfl,-⟩ := keepFieldsEffect second
  obtain ⟨e₃,third,ok⟩ := bindOk.mp ok
  obtain ⟨hit,rfl⟩ := updateDocumentOk third
  obtain ⟨e₄,fourth,ok⟩ := bindOk.mp ok
  obtain ⟨after,rfl,-⟩ := maybeMarkPreparedEffect fourth
  cases appendEffect ok
  have read := just.document.row (of_decide_eq_true hit)
  have prep : isPreparationState e.document.state = true := by rw [read]; exact just.unlocked
  have unsent := inv.unsent prep
  have pending' := (inv'.unsent (effect.preparation prep unsent.2.2).2.1).1
  obtain ⟨given,same,prepared⟩ := effect.document
  have kept : DocumentTold (replay e.audit).document given := by
    rw [same]
    exact h.document.kept rfl rfl rfl
  rw [replayAppend]
  refine ⟨kept.prepared (fun _ => rfl) (by rw [same]; exact prep) prepared,?_,h.sessions,h.consents,h.revisions.kept rfl ?_ rfl⟩
  · exact h.signers.replaced unsent.1 pending'
  · rw [preparedCurrent prepared,same]

theorem replaceFieldsTold {u : ReplaceFieldsUnit} (just : ReplaceFieldsSource Before u e) (h : Told (replay e.audit) e)
    (ok : u.run e = .ok e') : Told (replay e'.audit) e' := by
  obtain ⟨e₁,first,ok⟩ := bindOk.mp ok
  obtain ⟨_,_,last⟩ := bindOk.mp first
  cases last
  obtain ⟨e₂,second,ok⟩ := bindOk.mp ok
  obtain ⟨after,rfl,prepared,-⟩ := maybeMarkPreparedEffect second
  cases appendEffect ok
  rw [replayAppend,quietEvent (.inr (.inl rfl))]
  refine ⟨?_,h.signers,h.sessions,h.consents,h.revisions.kept rfl (preparedCurrent prepared) rfl⟩
  exact h.document.prepared just.document.row just.unlocked prepared

theorem issueTold {u : SendUnit} {i list n} (issued : ∀ s ∈ list, s.status = .issued ∧ s.consumedAt = none)
    (sessions : List.Forall₂ SessionTold (replay e.audit).sessions e.sessions) (ok : u.issue i list n e = .ok e') :
    List.Forall₂ SessionTold (replay e'.audit).sessions e'.sessions ∧
      replay e'.audit = { replay e.audit with sessions := (replay e'.audit).sessions } ∧
      e' = { e with sessions := e'.sessions, audit := e'.audit, outbox := e'.outbox } := by
  induction list generalizing n e with
  | nil =>
    cases ok
    exact ⟨sessions,rfl,rfl⟩
  | cons session rest ih =>
    rw [SendUnit.issue] at ok
    obtain ⟨_,_,ok⟩ := bindOk.mp ok
    obtain ⟨e₁,first,ok⟩ := bindOk.mp ok
    obtain ⟨fresh,unused⟩ := issued session List.mem_cons_self
    have created := createdTold unused fresh sessions first
    have same := (createAdmitted first).1
    obtain ⟨e₂,second,ok⟩ := bindOk.mp ok
    cases appendEffect second
    obtain ⟨e₃,third,ok⟩ := bindOk.mp ok
    cases publishEffect third
    rw [same] at ok created
    obtain ⟨told,view,frame⟩ := ih (fun s mem => issued s (List.mem_cons_of_mem _ mem))
      (by rw [replayAppend]; exact created) ok
    rw [replayAppend] at view
    refine ⟨told,?_,?_⟩
    · rw [view]
      rfl
    · rw [frame]

theorem sendTold {u : SendUnit} {i} (just : Justified Before (.send u) e) (h : Told (replay e.audit) e)
    (ok : u.run i e = .ok e') : Told (replay e'.audit) e' := by
  obtain ⟨atDocument,atRoster,signers,source,later⟩ := just
  obtain ⟨e₁,first,ok⟩ := bindOk.mp ok
  obtain ⟨hit,rfl⟩ := updateDocumentOk first
  obtain ⟨e₂,second,ok⟩ := bindOk.mp ok
  obtain ⟨sessions,view,frame⟩ := issueTold (fun s mem => ⟨(source.issued s mem).1,source.unused s mem⟩)
    (by exact h.sessions) second
  cases appendEffect ok
  have read : Read Before u.document e := ⟨atDocument,source.document,source.later.trans later⟩
  have prep : isPreparationState e.document.state = true := by
    rw [read.row (of_decide_eq_true hit)]
    exact source.unlocked
  have sent : DocumentTold { (replay e.audit).document with sent := (replay e.audit).document.sent ++ [u.revisionId] }
      e₂.document :=
    h.document.sending prep (by rw [frame]) (by rw [frame]) (by rw [frame])
  rw [replayAppend]
  refine ⟨?_,?_,sessions,?_,?_⟩
  · show DocumentTold { (replay e₂.audit).document with sent := (replay e₂.audit).document.sent ++ [u.revisionId] } _
    rw [view]
    exact sent
  · show SignersTold (replay e₂.audit).roster (replay e₂.audit).signed (replay e₂.audit).document.declined e₂.signers
    rw [view,frame]
    exact h.signers
  · show (replay e₂.audit).consents = _
    rw [view,frame]
    exact h.consents
  · show RevisionsTold (replay e₂.audit).revisions (replay e₂.audit).abandoned _
    rw [view]
    exact h.revisions.kept (by rw [frame]) (by rw [frame]) (by rw [frame])

theorem voidTold {u : VoidUnit} (ids : (e.sessions.map SigningSession.id).Nodup) (h : Told (replay e.audit) e)
    (ok : u.run e = .ok e') : Told (replay e'.audit) e' := by
  obtain ⟨e₁,first,ok⟩ := bindOk.mp ok
  obtain ⟨hit,rfl⟩ := updateDocumentOk first
  obtain ⟨-,running⟩ := of_decide_eq_true hit
  obtain ⟨e₂,second,ok⟩ := bindOk.mp ok
  have sessions := voidedTold (by exact ids) (by exact h.sessions) second
  obtain ⟨rows,rfl,-⟩ := revokeOpenEffect second
  cases appendEffect ok
  rw [replayAppend]
  exact ⟨h.document.voiding running rfl rfl rfl,h.signers,sessions,h.consents,h.revisions.kept rfl rfl rfl⟩

theorem declineTold {u : DeclineUnit} (ids : (e.signers.map Signer.id).Nodup) (h : Told (replay e.audit) e)
    (ok : u.run e = .ok e') : Told (replay e'.audit) e' := by
  obtain ⟨e₁,first,ok⟩ := bindOk.mp ok
  obtain ⟨rfl,row,mem,named,-,pending⟩ := markDeclinedEffect ids first
  obtain ⟨e₂,second,ok⟩ := bindOk.mp ok
  obtain ⟨hit,rfl⟩ := updateDocumentOk second
  obtain ⟨-,running⟩ := of_decide_eq_true hit
  obtain ⟨e₃,third,ok⟩ := bindOk.mp ok
  have sessions := declinedTold (by exact h.sessions) third
  obtain ⟨rows,rfl,-⟩ := revokeOpenEffect third
  cases appendEffect ok
  rw [replayAppend]
  refine ⟨h.document.declining running rfl rfl rfl,?_,sessions,h.consents,h.revisions.kept rfl rfl rfl⟩
  exact h.signers.declining ids ⟨row,mem,named,pending⟩

theorem revokeEventTold {sessionId : Id} {revokedAt : Date} {event : NewAuditEvent} (type : event.type = .sessionRevoked)
    (names : event.idAt "sessionId" = some sessionId) (ids : (e.sessions.map SigningSession.id).Nodup)
    (h : Told (replay e.audit) e) {e₁} (first : SigningSessions.revoke sessionId revokedAt e = .ok e₁)
    (ok : Audit.append event e₁ = .ok e') : Told (replay e'.audit) e' := by
  have sessions := revokedTold ids h.sessions first
  obtain ⟨rows,rfl,-⟩ := revokeEffect first
  cases appendEffect ok
  have view : (replay e.audit).apply event =
      { replay e.audit with sessions := (replay e.audit).sessions.map (LoggedSession.close .revoked [sessionId]) } := by
    unfold AuditView.apply
    rw [type,names]
    rfl
  rw [replayAppend]
  show Told ((replay e.audit).apply event) _
  rw [view]
  exact ⟨h.document,h.signers,sessions,h.consents,h.revisions.kept rfl rfl rfl⟩

theorem revokeTold {u : RevokeUnit} (ids : (e.sessions.map SigningSession.id).Nodup) (h : Told (replay e.audit) e)
    (ok : u.run e = .ok e') : Told (replay e'.audit) e' := by
  obtain ⟨e₁,first,ok⟩ := bindOk.mp ok
  exact revokeEventTold rfl rfl ids h first ok

theorem revokeAllTold {u : RotateUnit} {list} (ids : (e.sessions.map SigningSession.id).Nodup) (h : Told (replay e.audit) e)
    (ok : u.revokeAll list e = .ok e') : Told (replay e'.audit) e' := by
  induction list generalizing e with
  | nil =>
    cases ok
    exact h
  | cons session rest ih =>
    rw [RotateUnit.revokeAll] at ok
    obtain ⟨e₁,first,ok⟩ := bindOk.mp ok
    obtain ⟨e₂,second,ok⟩ := bindOk.mp ok
    have moved := (revokeEffect first).logged second rfl
    exact ih (moved.1.sessions.distinct ids) (revokeEventTold rfl rfl ids h first second) ok

theorem rotateTold {u : RotateUnit} (ids : (e.sessions.map SigningSession.id).Nodup) (h : Told (replay e.audit) e)
    (ok : u.run e = .ok e') : Told (replay e'.audit) e' := by
  obtain ⟨e₁,first,ok⟩ := bindOk.mp ok
  have revoked := revokeAllTold ids h first
  obtain ⟨e₂,second,ok⟩ := bindOk.mp ok
  have created := createdTold rfl rfl revoked.sessions second
  have same := (createAdmitted second).1
  rw [same] at ok created
  cases appendEffect ok
  rw [replayAppend]
  exact ⟨revoked.document,revoked.signers,created,revoked.consents,revoked.revisions.kept rfl rfl rfl⟩

theorem exchangeTold {u : ExchangeUnit} (ids : (e.sessions.map SigningSession.id).Nodup) (h : Told (replay e.audit) e)
    (ok : u.run e = .ok e') : Told (replay e'.audit) e' := by
  obtain ⟨e₁,first,ok⟩ := bindOk.mp ok
  have sessions := exchangedTold ids h.sessions first
  obtain ⟨rows,rfl,-⟩ := consumeEffect first
  cases appendEffect ok
  rw [replayAppend]
  exact ⟨h.document,h.signers,sessions,h.consents,h.revisions.kept rfl rfl rfl⟩

theorem viewedTold {u : ViewedUnit} (ids : (e.sessions.map SigningSession.id).Nodup) (h : Told (replay e.audit) e)
    (ok : u.run e = .ok e') : Told (replay e'.audit) e' := by
  obtain ⟨e₁,first,ok⟩ := bindOk.mp ok
  have sessions := presentedTold ids h.sessions first
  obtain ⟨rows,rfl,-⟩ := markPresentedEffect ids first
  cases appendEffect ok
  rw [replayAppend,quietEvent (.inl rfl)]
  exact ⟨h.document,h.signers,sessions,h.consents,h.revisions.kept rfl rfl rfl⟩

theorem consentTold {u : ConsentUnit} (source : u.consent.sessionId = u.loaded.session.id) (h : Told (replay e.audit) e)
    (ok : u.run e = .ok e') : Told (replay e'.audit) e' := by
  obtain ⟨e₁,first,ok⟩ := bindOk.mp ok
  obtain ⟨_,_,last⟩ := bindOk.mp first
  cases last
  cases appendEffect ok
  rw [replayAppend]
  refine ⟨h.document,h.signers,h.sessions,?_,h.revisions.kept rfl rfl rfl⟩
  show (replay e.audit).consents ++ [(u.loaded.session.id,u.consent.consentCopyId)] = List.map _ (e.consents ++ [u.consent])
  rw [h.consents,List.map_append,← source]
  rfl

theorem DocumentTold.advanced {told : LoggedDocument} {row row' : Document} (h : DocumentTold told row)
    (running : row.state ∈ [.sent,.inProgress]) (state : row'.state = .completed ∨ row'.state = .inProgress)
    (sent : row'.signingRevisionId = row.signingRevisionId) (inspections : row'.inspectionStatus = row.inspectionStatus) :
    DocumentTold told row' := by
  refine h.kept ?_ sent inspections
  simp only [List.mem_cons,List.not_mem_nil,or_false] at running
  rcases running with before | before <;> rcases state with after | after <;> rw [before,after] <;> rfl

theorem completeTold {u : CompleteUnit} {i} (inv : Consistent e) (h : Told (replay e.audit) e) (ok : u.run i e = .ok e') :
    Told (replay e'.audit) e' := by
  obtain ⟨e₁,first,ok⟩ := bindOk.mp ok
  obtain ⟨rows,rfl,-⟩ := completeFieldsEffect first
  obtain ⟨e₂,second,ok⟩ := bindOk.mp ok
  have signers : SignersTold (replay e.audit).roster ((replay e.audit).signed ++ [u.loaded.signer.id])
      (replay e.audit).document.declined e₂.signers ∧ e₂.sessions = e.sessions := by
    rcases markSignedEffect (by exact inv.signerIds) second with ⟨rfl,acted⟩ | ⟨rfl,row,mem,named,-,pending⟩
    · exact ⟨h.signers.again acted,rfl⟩
    · exact ⟨h.signers.signing inv.signerIds ⟨row,mem,named,pending⟩,rfl⟩
  obtain ⟨signerRows,rfl⟩ := markSignedFrame second
  obtain ⟨e₃,third,ok⟩ := bindOk.mp ok
  have sessions := completedTold (by exact inv.sessionIds) (by exact h.sessions) third
  obtain ⟨sessionRows,rfl,-⟩ := markCompletedEffect third
  obtain ⟨e₄,fourth,ok⟩ := bindOk.mp ok
  obtain ⟨document,rfl,moved⟩ := moveDocumentEffect fourth
  obtain ⟨e₅,fifth,ok⟩ := bindOk.mp ok
  cases appendEffect fifth
  cases publishEffect ok
  rw [replayAppend]
  have current : document.currentRevisionId = e.document.currentRevisionId := by
    rcases moved with ⟨-,-,-,rfl⟩ | ⟨-,-,-,-,rfl⟩ | ⟨-,-,rfl⟩ <;> rfl
  refine ⟨?_,signers.1,sessions,h.consents,h.revisions.kept rfl current rfl⟩
  rcases moved with ⟨-,-,running,rfl⟩ | ⟨-,-,-,running,rfl⟩ | ⟨-,-,rfl⟩
  · exact h.document.advanced running (.inl rfl) rfl rfl
  · exact h.document.advanced running (.inr rfl) rfl rfl
  · exact h.document

theorem takeLeaseTold {input expectedVersion leaseUntil now current i}
    (just : Read Before current e ∧ Documents.leasable expectedVersion input.owner now current = true)
    (h : Told (replay e.audit) e) (ok : (Write.takeLease input expectedVersion leaseUntil now current).run i e = .ok e') :
    Told (replay e'.audit) e' := by
  have taken := takeEffect ok
  obtain ⟨found,states,-⟩ := of_decide_eq_true just.2
  have row := just.1.row (taken.version.trans found.symm)
  have audit : e'.audit = e.audit := by rw [taken.frame]
  rw [audit]
  refine h.moved taken.frame ?_ (by rw [taken.document]) (by rw [taken.document]) (by rw [taken.document])
  rw [taken.state,row]
  simp only [List.mem_cons,List.not_mem_nil,or_false] at states
  rcases states with state | state | state | state | state <;> rw [state] <;> rfl

theorem addRevisionTold {u : FlattenUnit} (ok : u.addRevision e = .ok e') :
    ∃ added, replay e'.audit = { replay e.audit with revisions := (replay e.audit).revisions ++ added } ∧
      e'.revisions.map DocumentRevision.id = e.revisions.map DocumentRevision.id ++ added ∧
      e' = { e with revisions := e'.revisions, fields := e'.fields, audit := e'.audit } ∧
      (added = [u.revisionId] ∨ (added = [] ∧ u.loaded.pendingFields = [])) := by
  unfold FlattenUnit.addRevision at ok
  split at ok
  · obtain ⟨e₁,first,ok⟩ := bindOk.mp ok
    obtain ⟨rfl,-⟩ := createRevisionEffect first
    obtain ⟨e₂,second,ok⟩ := bindOk.mp ok
    cases markAllFlattenedEffect second
    cases appendEffect ok
    refine ⟨[u.revisionId],?_,?_,rfl,.inl rfl⟩
    · rw [replayAppend]
      rfl
    · rw [List.map_append]
      rfl
  · rename_i empty
    cases ok
    exact ⟨[],by rw [List.append_nil],by rw [List.append_nil],rfl,.inr ⟨rfl,by simpa using empty⟩⟩

theorem addArtifactTold {u : FlattenUnit} (ok : u.addArtifact e = .ok e') :
    replay e'.audit = { replay e.audit with document := { (replay e.audit).document with
      finalizations := (replay e.audit).document.finalizations + if u.finalize then 1 else 0 } } ∧
      e' = { e with artifact := e'.artifact, audit := e'.audit } := by
  unfold FlattenUnit.addArtifact at ok
  split at ok
  · rename_i final
    obtain ⟨e₁,first,ok⟩ := bindOk.mp ok
    have made : e₁ = { e with artifact := e₁.artifact } := by
      unfold FlattenUnit.createArtifact at first
      split at first
      · cases first
        rfl
      · obtain ⟨_,_,last⟩ := bindOk.mp first
        cases last
        rfl
    cases appendEffect ok
    rw [made]
    refine ⟨?_,rfl⟩
    rw [replayAppend,if_pos final]
    rfl
  · rename_i open_
    cases ok
    rw [if_neg open_]
    exact ⟨rfl,rfl⟩

theorem DocumentTold.committed {told : LoggedDocument} {row row' : Document} {finalize : Bool} (h : DocumentTold told row)
    (unfinal : row.state ≠ .finalized) (state : row'.state = if finalize then .finalized else row.state)
    (sent : row'.signingRevisionId = row.signingRevisionId) (inspections : row'.inspectionStatus = row.inspectionStatus) :
    DocumentTold { told with finalizations := told.finalizations + if finalize then 1 else 0 } row' := by
  cases finalize with
  | true => exact h.finalizing unfinal state sent inspections
  | false => exact h.kept (congrArg DocumentState.phase state) sent inspections

/- The row that was leased is the row that is met, so the revision a job has drawn on is
the current one still. -/
theorem flattenTold {u : FlattenUnit} (inv : Consistent e) (extra : Inspected e) (past : Justified InspectedBefore (.flatten u) e)
    (h : Told (replay e.audit) e) (ok : u.run e = .ok e') : Told (replay e'.audit) e' := by
  have effect := flattenEffect ok
  have unfinal := leasedUnfinal inv effect
  have sent := flattenSent (fun _ _ h => ⟨h.1.2.arranged.sent,h.2.1⟩) past
  obtain ⟨revisionId,current⟩ := Option.isSome_iff_exists.mp (extra.accepted sent).2
  obtain ⟨atDocument,atRoster,atFields,found,taken,reread,atRevision,source,last⟩ := past
  have row : e.document = u.leased := by
    have later : Later reread e := source.toRevision.2.1.trans last.2.1
    rw [source.leased]
    exact later.row (by rw [← source.leased]; exact effect.version)
  obtain ⟨e₁,first,ok⟩ := bindOk.mp ok
  obtain ⟨added,view,ids,frame,either⟩ := addRevisionTold first
  obtain ⟨e₂,second,ok⟩ := bindOk.mp ok
  obtain ⟨hit,rfl⟩ := updateDocumentOk second
  obtain ⟨view',frame'⟩ := addArtifactTold ok
  have some : (replay e.audit).revisions ≠ [] := by
    intro empty
    have last := h.revisions.current
    rw [current,empty] at last
    cases last
  have document : e₁.document = e.document := by rw [frame]
  rw [view',view]
  constructor
  · refine h.document.committed unfinal ?_ ?_ ?_
    · rw [effect.document]
    · rw [effect.document]
    · rw [effect.document]
  · rw [effect.signers]
    exact h.signers
  · rw [effect.sessions]
    exact h.sessions
  · rw [frame',frame]
    exact h.consents
  · constructor
    · show (replay e.audit).revisions ++ added = _
      rw [frame',ids,h.revisions.revisions]
    · show e'.document.currentRevisionId = ((replay e.audit).revisions ++ added).getLast?
      rw [effect.document]
      rcases either with rfl | ⟨rfl,empty⟩
      · rw [List.getLast?_concat]
      · rw [List.append_nil,← h.revisions.current,current,source.same empty]
        have named : u.revision.id = u.leased.currentRevisionId.getD u.loaded.revision.id := by
          simpa using List.find?_some source.revision
        rw [named,← row,current]
        rfl
    · obtain ⟨session,only,status,revision⟩ := h.revisions.upload
      refine ⟨session,by rw [frame',frame]; exact only,?_,?_⟩
      · rw [status,uploadStatus,uploadStatus,if_pos some,if_pos (by simp [some])]
      · rw [revision,List.head?_append_of_ne_nil _ some]
    · exact ⟨h.revisions.once.1,fun abandoned => absurd (h.revisions.once.2 abandoned) some⟩

end

abbrev ToldBefore (a b : Envelope) : Prop :=
  (Consistent a ∧ Final a ∧ Inspected a ∧ Told (replay a.audit) a) ∧ Later a b ∧ FinalKept a b

theorem ToldBefore.final (a b : Envelope) (h : ToldBefore a b) : FinalBefore a b := ⟨⟨h.1.1,h.1.2.1⟩,h.2⟩

theorem ToldBefore.inspected (a b : Envelope) (h : ToldBefore a b) : InspectedBefore a b :=
  ⟨⟨h.1.1,h.1.2.2.1⟩,h.2.1,h.2.2.revisions⟩

theorem keepTold {w : Write} {i e e'} (inv : Consistent e) (extra : Inspected e) (h : Told (replay e.audit) e)
    (past : Justified ToldBefore w e) (just : Justified Before w e) (own : w.own) (ok : w.run i e = .ok e')
    (inv' : Consistent e') : Told (replay e'.audit) e' := by
  cases w with
  | createIdempotency record =>
    obtain ⟨_,_,last⟩ := bindOk.mp ok
    cases last
    exact h.same ⟨rfl,rfl,rfl,rfl,rfl,rfl⟩
  | completeIdempotency recordId response =>
    obtain ⟨_,_,last⟩ := bindOk.mp ok
    cases last
    exact h.same ⟨rfl,rfl,rfl,rfl,rfl,rfl⟩
  | markExpired sessionId =>
    have sessions := expiredTold h.sessions ok
    obtain ⟨rows,rfl,-⟩ := markExpiredEffect ok
    exact ⟨h.document,h.signers,sessions,h.consents,h.revisions.kept rfl rfl rfl⟩
  | markPresented sessionId presentedAt =>
    have sessions := presentedTold inv.sessionIds h.sessions ok
    obtain ⟨rows,rfl,-⟩ := markPresentedEffect inv.sessionIds ok
    exact ⟨h.document,h.signers,sessions,h.consents,h.revisions.kept rfl rfl rfl⟩
  | upload u => exact uploadTold just h ok
  | abandon u => exact abandonTold h ok
  | inspect u => exact inspectTold just h ok
  | replaceSigners u => exact replaceSignersTold inv just inv' h ok
  | replaceFields u => exact replaceFieldsTold just h ok
  | send u => exact sendTold just h ok
  | void u => exact voidTold inv.sessionIds h ok
  | rotate u => exact rotateTold inv.sessionIds h ok
  | revoke u => exact revokeTold inv.sessionIds h ok
  | exchange u => exact exchangeTold inv.sessionIds h ok
  | viewed u => exact viewedTold inv.sessionIds h ok
  | consent u => exact consentTold own.1 h ok
  | decline u => exact declineTold inv.signerIds h ok
  | complete u => exact completeTold inv h ok
  | takeLease input expectedVersion leaseUntil now current => exact takeLeaseTold just h ok
  | finalizationStarted input occurredAt =>
    cases appendEffect ok
    rw [replayAppend,quietEvent (.inr (.inr (.inl rfl)))]
    exact h.same ⟨rfl,rfl,rfl,rfl,rfl,rfl⟩
  | flatten u => exact flattenTold inv extra (past.weaken ToldBefore.inspected) h ok
  | persist u => exact absurd (past.weaken ToldBefore.final) unpersisted
  | markFinalizationFailed owner =>
    cases ok
    rcases markFinalizationFailedCases owner e with same | ⟨state,changed⟩
    · rw [same]
      exact h
    · rw [changed]
      exact h.moved rfl (by rw [state]; rfl) rfl rfl rfl
  | finalizationFailed input code occurredAt =>
    cases appendEffect ok
    rw [replayAppend,quietEvent (.inr (.inr (.inr rfl)))]
    exact h.same ⟨rfl,rfl,rfl,rfl,rfl,rfl⟩
  | releaseLease owner =>
    cases ok
    rcases releaseCases owner e with same | changed
    · rw [same]
      exact h
    · rw [changed]
      exact h.moved rfl rfl rfl rfl rfl

def toldExtension : Extension ownScope where
  Extra e := Final e ∧ Inspected e ∧ Told (replay e.audit) e
  Also := FinalKept
  refl := .refl
  trans := .trans
  keep := by
    rintro w i e e' inv ⟨final,inspected,told⟩ past just own ok done inv' later
    have finalPast := past.weaken ToldBefore.final
    refine ⟨⟨keepFinal inv final finalPast just ok done later,?_,?_⟩,keepFinalKept inv final finalPast done⟩
    · exact keepInspected inv inspected (past.weaken ToldBefore.inspected) just done ok later
    · exact keepTold inv inspected told past just own ok inv'

/-- The log alone tells the rows: whoever replays it knows the roster, who has signed and
who has declined, every session with its owner and what became of it, every consent, the
revisions and which of them is current, the inspection, and how far the document is. -/
def LogTellsRows (settings : Settings) (draft : NewDraft) : Prop :=
  ∀ c, Run (esign settings) anyScope (initial (createDraftDocument draft)) c → Told (replay c.store.audit) c.store

theorem logTellsRows (settings : Settings) (draft : NewDraft) : LogTellsRows settings draft := by
  intro c run
  have start : Consistent (createDraftDocument draft) ∧ Final (createDraftDocument draft) ∧
      Inspected (createDraftDocument draft) ∧ Told (replay (createDraftDocument draft).audit) (createDraftDocument draft) :=
    ⟨draftConsistent draft,draftFinal draft,draftInspected draft,draftTold draft⟩
  exact (toldExtension.run start (ownRun run)).inv.2.2.2

end ESign
