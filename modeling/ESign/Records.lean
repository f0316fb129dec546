import ESign.Sessions

/-! The tables that only grow: the audit log, the consent records and the outbox. Which
write adds which events is said once for all of them. -/
namespace ESign

/-- The types of the events a write can append. -/
def Write.eventTypes : Write → List AuditEventType
  | .upload _ => [.revisionAdded]
  | .abandon _ => [.uploadAbandoned]
  | .inspect _ => [.inspectionAccepted,.inspectionRejected]
  | .replaceSigners _ => [.signersUpdated]
  | .replaceFields _ => [.fieldsUpdated]
  | .send _ => [.sessionIssued,.documentSent]
  | .void _ => [.documentVoided]
  | .rotate _ => [.sessionRevoked,.sessionIssued]
  | .revoke _ => [.sessionRevoked]
  | .exchange _ => [.sessionExchanged]
  | .viewed _ => [.documentViewed]
  | .consent _ => [.consentRecorded]
  | .decline _ => [.signerDeclined]
  | .complete _ => [.signerSigned]
  | .finalizationStarted _ _ => [.finalizationStarted]
  | .flatten u => if u.finalize then [.revisionAdded,.documentFinalized] else [.revisionAdded]
  | .persist _ => [.documentFinalized]
  | .finalizationFailed _ _ _ => [.finalizationFailed]
  | _ => []

def Events (types : List AuditEventType) (audit audit' : List NewAuditEvent) : Prop :=
  ∃ events, audit' = audit ++ events ∧ ∀ event ∈ events, event.type ∈ types

theorem Events.refl {types} (audit : List NewAuditEvent) : Events types audit audit := ⟨[],by simp,by simp⟩

theorem Events.one {types event} (audit : List NewAuditEvent) (type : event.type ∈ types) :
    Events types audit (audit ++ [event]) := ⟨[event],rfl,by simpa using type⟩

theorem Events.trans {types a b c} (left : Events types a b) (right : Events types b c) : Events types a c := by
  obtain ⟨events,rfl,first⟩ := left
  obtain ⟨events',rfl,second⟩ := right
  refine ⟨events ++ events',List.append_assoc _ _ _,?_⟩
  intro event mem
  rcases List.mem_append.mp mem with h | h
  · exact first event h
  · exact second event h

/-- What statements other than the consent leave of the log and of the consents. -/
structure Appended (types : List AuditEventType) (e e' : Envelope) : Prop where
  audit : Events types e.audit e'.audit
  consents : e'.consents = e.consents

theorem Appended.kept {types} {e e' : Envelope} (audit : e'.audit = e.audit) (consents : e'.consents = e.consents) :
    Appended types e e' := ⟨by rw [audit]; exact .refl _,consents⟩

theorem Appended.trans {types a b c} (left : Appended types a b) (right : Appended types b c) : Appended types a c :=
  ⟨left.audit.trans right.audit,right.consents.trans left.consents⟩

theorem Appended.after {types} {e e₁ e' : Envelope} (h : Appended types e₁ e') (audit : e₁.audit = e.audit)
    (consents : e₁.consents = e.consents) : Appended types e e' := (Appended.kept audit consents).trans h

theorem appendAppended {types event e e'} (ok : Audit.append event e = .ok e') (type : event.type ∈ types) :
    Appended types e e' := by
  cases appendEffect ok
  exact ⟨.one _ type,rfl⟩

theorem publishAppended {types event e e'} (ok : Jobs.publish event e = .ok e') : Appended types e e' := by
  cases publishEffect ok
  exact .kept rfl rfl

theorem documentAppended {types clause data error e e'} (ok : updateDocument clause data error e = .ok e') :
    Appended types e e' := by
  obtain ⟨-,rfl⟩ := updateDocumentOk ok
  exact .kept rfl rfl

theorem SessionEffect.appended {types e e'} (h : SessionEffect e e') : Appended types e e' := by
  obtain ⟨rows,rfl,-⟩ := h
  exact .kept rfl rfl

theorem presentedAppended {types sessionId presentedAt e e'}
    (ok : SigningSessions.markPresented sessionId presentedAt e = .ok e') : Appended types e e' := by
  unfold SigningSessions.markPresented at ok
  split at ok <;> try contradiction
  split at ok <;> try contradiction
  cases ok
  exact .kept rfl rfl

theorem createdAppended {types session e e'} (ok : SigningSessions.create session e = .ok e') : Appended types e e' := by
  rw [(createAdmitted ok).1]
  exact .kept rfl rfl

theorem uploadAppended {types} {u : UploadUnit} {i e e'} (type : .revisionAdded ∈ types) (ok : u.run i e = .ok e') :
    Appended types e e' := by
  obtain ⟨e₁,first,ok⟩ := bindOk.mp ok
  obtain ⟨rfl,-⟩ := createRevisionEffect first
  obtain ⟨e₂,second,ok⟩ := bindOk.mp ok
  obtain ⟨e₃,third,ok⟩ := bindOk.mp ok
  obtain ⟨rows,-,last⟩ := bindOk.mp third
  cases last
  obtain ⟨e₄,fourth,ok⟩ := bindOk.mp ok
  have attached : Appended types e e₂ := (documentAppended second).after rfl rfl
  have completed : Appended types e₂ { e₂ with uploadSessions := rows } := .kept rfl rfl
  exact attached.trans (completed.trans ((appendAppended fourth type).trans (publishAppended ok)))

theorem inspectAppended {types} {u : InspectUnit} {e e'} (types' : .inspectionAccepted ∈ types ∧ .inspectionRejected ∈ types)
    (ok : u.run e = .ok e') : Appended types e e' := by
  obtain ⟨e₁,first,ok⟩ := bindOk.mp ok
  refine (documentAppended first).trans (appendAppended ok ?_)
  cases u.accepted with
  | true => exact types'.1
  | false => exact types'.2

theorem preparedAppended {types document signers fields e e'} (ok : maybeMarkPrepared document signers fields e = .ok e') :
    Appended types e e' := by
  obtain ⟨after,rfl,-⟩ := maybeMarkPreparedEffect ok
  exact .kept rfl rfl

theorem replaceSignersAppended {types} {u : ReplaceSignersUnit} {e e'} (type : .signersUpdated ∈ types)
    (ok : u.run e = .ok e') : Appended types e e' := by
  obtain ⟨⟨e₁,replaced⟩,first,ok⟩ := bindOk.mp ok
  obtain ⟨_,_,last⟩ := bindOk.mp first
  cases last
  obtain ⟨e₂,second,ok⟩ := bindOk.mp ok
  obtain ⟨rows,rfl,-⟩ := keepFieldsEffect second
  obtain ⟨e₃,third,ok⟩ := bindOk.mp ok
  obtain ⟨e₄,fourth,ok⟩ := bindOk.mp ok
  have roster : Appended types e e₃ := (documentAppended third).after rfl rfl
  exact roster.trans ((preparedAppended fourth).trans (appendAppended ok type))

theorem replaceFieldsAppended {types} {u : ReplaceFieldsUnit} {e e'} (type : .fieldsUpdated ∈ types)
    (ok : u.run e = .ok e') : Appended types e e' := by
  obtain ⟨e₁,first,ok⟩ := bindOk.mp ok
  obtain ⟨_,_,last⟩ := bindOk.mp first
  cases last
  obtain ⟨e₂,second,ok⟩ := bindOk.mp ok
  have placed : Appended types e e₂ := (preparedAppended second).after rfl rfl
  exact placed.trans (appendAppended ok type)

theorem issueAppended {types} {u : SendUnit} {i list n} {e e' : Envelope} (type : .sessionIssued ∈ types)
    (ok : u.issue i list n e = .ok e') : Appended types e e' := by
  induction list generalizing n e with
  | nil =>
    cases ok
    exact .kept rfl rfl
  | cons session rest ih =>
    rw [SendUnit.issue] at ok
    obtain ⟨-,-,ok⟩ := bindOk.mp ok
    obtain ⟨e₁,first,ok⟩ := bindOk.mp ok
    obtain ⟨e₂,second,ok⟩ := bindOk.mp ok
    obtain ⟨e₃,third,ok⟩ := bindOk.mp ok
    exact (createdAppended first).trans ((appendAppended second type).trans ((publishAppended third).trans (ih ok)))

theorem sendAppended {types} {u : SendUnit} {i e e'} (issued : .sessionIssued ∈ types) (sent : .documentSent ∈ types)
    (ok : u.run i e = .ok e') : Appended types e e' := by
  obtain ⟨e₁,first,ok⟩ := bindOk.mp ok
  obtain ⟨e₂,second,ok⟩ := bindOk.mp ok
  exact (documentAppended first).trans ((issueAppended issued second).trans (appendAppended ok sent))

theorem voidAppended {types} {u : VoidUnit} {e e'} (type : .documentVoided ∈ types) (ok : u.run e = .ok e') :
    Appended types e e' := by
  obtain ⟨e₁,first,ok⟩ := bindOk.mp ok
  obtain ⟨e₂,second,ok⟩ := bindOk.mp ok
  exact (documentAppended first).trans ((revokeOpenEffect second).appended.trans (appendAppended ok type))

theorem declineAppended {types} {u : DeclineUnit} {e e'} (ids : (e.signers.map Signer.id).Nodup)
    (type : .signerDeclined ∈ types) (ok : u.run e = .ok e') : Appended types e e' := by
  obtain ⟨e₁,first,ok⟩ := bindOk.mp ok
  obtain ⟨rfl,-⟩ := markDeclinedEffect ids first
  obtain ⟨e₂,second,ok⟩ := bindOk.mp ok
  obtain ⟨e₃,third,ok⟩ := bindOk.mp ok
  have declined : Appended types e e₂ := (documentAppended second).after rfl rfl
  exact declined.trans ((revokeOpenEffect third).appended.trans (appendAppended ok type))

theorem revokeAllAppended {types} {u : RotateUnit} {list} {e e' : Envelope} (type : .sessionRevoked ∈ types)
    (ok : u.revokeAll list e = .ok e') : Appended types e e' := by
  induction list generalizing e with
  | nil =>
    cases ok
    exact .kept rfl rfl
  | cons session rest ih =>
    rw [RotateUnit.revokeAll] at ok
    obtain ⟨e₁,first,ok⟩ := bindOk.mp ok
    obtain ⟨e₂,second,ok⟩ := bindOk.mp ok
    exact (revokeEffect first).appended.trans ((appendAppended second type).trans (ih ok))

theorem rotateAppended {types} {u : RotateUnit} {e e'} (revoked : .sessionRevoked ∈ types) (issued : .sessionIssued ∈ types)
    (ok : u.run e = .ok e') : Appended types e e' := by
  obtain ⟨e₁,first,ok⟩ := bindOk.mp ok
  obtain ⟨e₂,second,ok⟩ := bindOk.mp ok
  exact (revokeAllAppended revoked first).trans ((createdAppended second).trans (appendAppended ok issued))

theorem completeAppended {types} {u : CompleteUnit} {i e e'} (ids : (e.signers.map Signer.id).Nodup)
    (type : .signerSigned ∈ types) (ok : u.run i e = .ok e') : Appended types e e' := by
  obtain ⟨e₁,first,ok⟩ := bindOk.mp ok
  obtain ⟨rows,rfl,-⟩ := completeFieldsEffect first
  obtain ⟨e₂,second,ok⟩ := bindOk.mp ok
  obtain ⟨e₃,third,ok⟩ := bindOk.mp ok
  obtain ⟨sessions,rfl,-⟩ := markCompletedEffect third
  obtain ⟨e₄,fourth,ok⟩ := bindOk.mp ok
  obtain ⟨document,rfl,-⟩ := moveDocumentEffect fourth
  obtain ⟨e₅,fifth,ok⟩ := bindOk.mp ok
  have moved : Appended types e { { e₂ with sessions := sessions } with document := document } := by
    rcases markSignedEffect (by exact ids) second with ⟨rfl,-⟩ | ⟨rfl,-⟩
    · exact .kept rfl rfl
    · exact .kept rfl rfl
  exact moved.trans ((appendAppended fifth type).trans (publishAppended ok))

theorem addRevisionAppended {types} {u : FlattenUnit} {e e'} (added : .revisionAdded ∈ types)
    (ok : u.addRevision e = .ok e') : Appended types e e' := by
  unfold FlattenUnit.addRevision at ok
  split at ok
  · obtain ⟨e₁,created,ok⟩ := bindOk.mp ok
    obtain ⟨rfl,-⟩ := createRevisionEffect created
    obtain ⟨e₂,marked,ok⟩ := bindOk.mp ok
    cases markAllFlattenedEffect marked
    exact (appendAppended ok added).after rfl rfl
  · cases ok
    exact .kept rfl rfl

theorem createArtifactAppended {types} {u : FlattenUnit} {e e'} (ok : u.createArtifact e = .ok e') : Appended types e e' := by
  unfold FlattenUnit.createArtifact at ok
  split at ok
  · cases ok
    exact .kept rfl rfl
  · obtain ⟨_,_,last⟩ := bindOk.mp ok
    cases last
    exact .kept rfl rfl

theorem flattenAppended {types} {u : FlattenUnit} {e e'} (added : .revisionAdded ∈ types)
    (final : u.finalize = true → .documentFinalized ∈ types) (ok : u.run e = .ok e') : Appended types e e' := by
  obtain ⟨e₁,first,ok⟩ := bindOk.mp ok
  obtain ⟨e₂,second,ok⟩ := bindOk.mp ok
  have made : Appended types e₂ e' := by
    unfold FlattenUnit.addArtifact at ok
    split at ok
    · rename_i finalizes
      obtain ⟨e₃,created,ok⟩ := bindOk.mp ok
      exact (createArtifactAppended created).trans (appendAppended ok (final finalizes))
    · cases ok
      exact .kept rfl rfl
  exact (addRevisionAppended added first).trans ((documentAppended second).trans made)

theorem persistAppended {types} {u : PersistUnit} {e e'} (type : .documentFinalized ∈ types) (ok : u.run e = .ok e') :
    Appended types e e' := by
  unfold PersistUnit.run at ok
  split at ok
  · cases ok
    exact .kept rfl rfl
  · obtain ⟨e₁,first,ok⟩ := bindOk.mp ok
    obtain ⟨_,_,last⟩ := bindOk.mp first
    cases last
    exact (appendAppended ok type).after rfl rfl

structure Consented (u : ConsentUnit) (e e' : Envelope) : Prop where
  audit : Events [.consentRecorded] e.audit e'.audit
  consents : e'.consents = e.consents ++ [u.consent]
  fresh : ∀ row ∈ e.consents, row.sessionId ≠ u.consent.sessionId

theorem consentConsented {u : ConsentUnit} {e e'} (ok : u.run e = .ok e') : Consented u e e' := by
  obtain ⟨e₁,first,ok⟩ := bindOk.mp ok
  obtain ⟨_,fresh,last⟩ := bindOk.mp first
  cases last
  cases appendEffect ok
  have fresh := checkOk.mp fresh
  simp at fresh
  exact ⟨.one _ (by simp),rfl,fun row mem => (fresh row mem).2⟩

theorem appended {w : Write} {i e e'} (inv : Consistent e) (ok : w.run i e = .ok e') :
    Appended w.eventTypes e e' ∨ ∃ u, w = .consent u ∧ Consented u e e' := by
  cases w with
  | consent u => exact .inr ⟨u,rfl,consentConsented ok⟩
  | createIdempotency record =>
    obtain ⟨_,_,last⟩ := bindOk.mp ok
    cases last
    exact .inl (.kept rfl rfl)
  | completeIdempotency recordId response =>
    obtain ⟨_,_,last⟩ := bindOk.mp ok
    cases last
    exact .inl (.kept rfl rfl)
  | markExpired sessionId => exact .inl (markExpiredEffect ok).appended
  | markPresented sessionId presentedAt => exact .inl (presentedAppended ok)
  | upload u => exact .inl (uploadAppended (by simp [Write.eventTypes]) ok)
  | abandon u =>
    obtain ⟨e₁,first,ok⟩ := bindOk.mp ok
    obtain ⟨_,_,last⟩ := bindOk.mp first
    cases last
    exact .inl ((appendAppended ok (by simp [Write.eventTypes])).after rfl rfl)
  | inspect u => exact .inl (inspectAppended (by simp [Write.eventTypes]) ok)
  | replaceSigners u => exact .inl (replaceSignersAppended (by simp [Write.eventTypes]) ok)
  | replaceFields u => exact .inl (replaceFieldsAppended (by simp [Write.eventTypes]) ok)
  | send u => exact .inl (sendAppended (by simp [Write.eventTypes]) (by simp [Write.eventTypes]) ok)
  | void u => exact .inl (voidAppended (by simp [Write.eventTypes]) ok)
  | rotate u => exact .inl (rotateAppended (by simp [Write.eventTypes]) (by simp [Write.eventTypes]) ok)
  | revoke u =>
    obtain ⟨e₁,first,ok⟩ := bindOk.mp ok
    exact .inl ((revokeEffect first).appended.trans (appendAppended ok (by simp [Write.eventTypes])))
  | exchange u =>
    obtain ⟨e₁,first,ok⟩ := bindOk.mp ok
    exact .inl ((consumeEffect first).appended.trans (appendAppended ok (by simp [Write.eventTypes])))
  | viewed u =>
    obtain ⟨e₁,first,ok⟩ := bindOk.mp ok
    exact .inl ((presentedAppended first).trans (appendAppended ok (by simp [Write.eventTypes])))
  | decline u => exact .inl (declineAppended inv.signerIds (by simp [Write.eventTypes]) ok)
  | complete u => exact .inl (completeAppended inv.signerIds (by simp [Write.eventTypes]) ok)
  | takeLease input expectedVersion leaseUntil now current =>
    change Documents.takeLease expectedVersion input.owner leaseUntil now current e = .ok e' at ok
    exact .inl (documentAppended ok)
  | finalizationStarted input occurredAt => exact .inl (appendAppended ok (by simp [Write.eventTypes]))
  | flatten u =>
    refine .inl (flattenAppended ?_ ?_ ok)
    · simp only [Write.eventTypes]
      split <;> simp
    · intro final
      simp [Write.eventTypes,final]
  | persist u => exact .inl (persistAppended (by simp [Write.eventTypes]) ok)
  | markFinalizationFailed owner =>
    cases ok
    rcases markFinalizationFailedCases owner e with same | ⟨-,same⟩ <;> rw [same] <;> exact .inl (.kept rfl rfl)
  | finalizationFailed input code occurredAt => exact .inl (appendAppended ok (by simp [Write.eventTypes]))
  | releaseLease owner =>
    cases ok
    rcases releaseCases owner e with same | same <;> rw [same] <;> exact .inl (.kept rfl rfl)

theorem auditKept {w : Write} {i e e'} (inv : Consistent e) (ok : w.run i e = .ok e') : ∀ event ∈ e.audit, event ∈ e'.audit := by
  intro event mem
  rcases appended inv ok with h | ⟨u,-,h⟩
  · obtain ⟨events,grown,-⟩ := h.audit
    rw [grown]
    exact List.mem_append_left _ mem
  · obtain ⟨events,grown,-⟩ := h.audit
    rw [grown]
    exact List.mem_append_left _ mem

theorem consentsKept {w : Write} {i e e'} (inv : Consistent e) (ok : w.run i e = .ok e') :
    ∀ row ∈ e.consents, row ∈ e'.consents := by
  intro row mem
  rcases appended inv ok with h | ⟨u,-,h⟩
  · rw [h.consents]
    exact mem
  · rw [h.consents]
    exact List.mem_append_left _ mem

theorem consentsDistinct {w : Write} {i e e'} (inv : Consistent e) (ok : w.run i e = .ok e')
    (distinct : (e.consents.map ConsentRecord.sessionId).Nodup) : (e'.consents.map ConsentRecord.sessionId).Nodup := by
  rcases appended inv ok with h | ⟨u,-,h⟩
  · rw [h.consents]
    exact distinct
  · rw [h.consents]
    exact keysAppended distinct h.fresh

theorem Committed.outbox {w : Write} {i e e'} (done : Committed i e e' w) :
    (∃ u, w = .complete u ∧ CompleteEffect u i e e') ∨ ∃ jobs, e'.outbox = e.outbox ++ jobs ∧
      ∀ job ∈ jobs, ∀ signerId sessionId revisionId, job.payload ≠ .flattenSignature signerId sessionId revisionId := by
  cases done with
  | still h idle artifact => exact .inr ⟨[],by rw [h.outbox,List.append_nil],by simp⟩
  | released h => exact .inr ⟨[],by rw [h,List.append_nil],by simp⟩
  | failed state h => exact .inr ⟨[],by rw [h,List.append_nil],by simp⟩
  | leased row frame state revised kept => exact .inr ⟨[],by rw [frame,List.append_nil],by simp⟩
  | upload h =>
    obtain ⟨jobs,published,inspect⟩ := h.outbox
    refine .inr ⟨jobs,published,fun job mem signerId sessionId revisionId same => ?_⟩
    obtain ⟨_,payload⟩ := inspect job mem
    rw [payload] at same
    cases same
  | inspect h => exact .inr ⟨[],by rw [h.outbox,List.append_nil],by simp⟩
  | replaceSigners h => exact .inr ⟨[],by rw [h.outbox,List.append_nil],by simp⟩
  | replaceFields h => exact .inr ⟨[],by rw [h.outbox,List.append_nil],by simp⟩
  | send h =>
    obtain ⟨jobs,published,notify⟩ := h.outbox
    refine .inr ⟨jobs,published,fun job mem signerId sessionId revisionId same => ?_⟩
    obtain ⟨_,_,payload⟩ := notify job mem
    rw [payload] at same
    cases same
  | void h => exact .inr ⟨[],by rw [h.outbox,List.append_nil],by simp⟩
  | decline h => exact .inr ⟨[],by rw [h.outbox,List.append_nil],by simp⟩
  | complete h => exact .inl ⟨_,rfl,h⟩
  | flatten h => exact .inr ⟨[],by rw [h.outbox,List.append_nil],by simp⟩

end ESign
