import ESign.Finality
import ESign.Inspection

/-! What the audit log says of a document. Replaying the log gives an account of the
document that owes nothing to the rows: who is on the roster, what was sent, which
sessions were issued, exchanged, completed or withdrawn, who has signed or declined,
which revisions there are. -/
namespace ESign

inductive Standing where
  | live | completed | revoked
  deriving DecidableEq, Repr

structure LoggedSession where
  id : Id
  signerId : Id
  exchanged : Bool
  standing : Standing
  deriving DecidableEq, Repr

structure LoggedDocument where
  sent : List Id
  inspections : List DocumentInspectionStatus
  voids : Nat
  declined : List Id
  finalizations : Nat
  deriving DecidableEq, Repr

structure AuditView where
  document : LoggedDocument
  roster : List Id
  signed : List Id
  sessions : List LoggedSession
  consents : List (Id × Id)
  revisions : List Id
  abandoned : Nat
  deriving DecidableEq, Repr

def AuditView.empty : AuditView where
  document := ⟨[],[],0,[],0⟩
  roster := []
  signed := []
  sessions := []
  consents := []
  revisions := []
  abandoned := 0

namespace NewAuditEvent

def idAt (event : NewAuditEvent) (key : String) : Option Id :=
  match event.payload.lookup key with
  | some (.id value) => value
  | _ => none

def idsAt (event : NewAuditEvent) (key : String) : List Id :=
  match event.payload.lookup key with
  | some (.ids values) => values
  | _ => []

end NewAuditEvent

namespace LoggedSession

def exchange (sessionId : Option Id) (row : LoggedSession) : LoggedSession :=
  if some row.id = sessionId then { row with exchanged := true } else row

def close (standing : Standing) (ids : List Id) (row : LoggedSession) : LoggedSession :=
  if row.id ∈ ids then { row with standing := standing } else row

def withdraw (row : LoggedSession) : LoggedSession :=
  if row.standing = .live then { row with standing := .revoked } else row

end LoggedSession

namespace AuditView

def issue (v : AuditView) (signerId sessionId : Option Id) : AuditView :=
  match signerId, sessionId with
  | some signerId, some sessionId => { v with sessions := v.sessions ++ [⟨sessionId,signerId,false,.live⟩] }
  | _, _ => v

def consent (v : AuditView) (sessionId consentCopyId : Option Id) : AuditView :=
  match sessionId, consentCopyId with
  | some sessionId, some consentCopyId => { v with consents := v.consents ++ [(sessionId,consentCopyId)] }
  | _, _ => v

def apply (v : AuditView) (event : NewAuditEvent) : AuditView :=
  match event.type with
  | .revisionAdded => { v with revisions := v.revisions ++ (event.idAt "revisionId").toList }
  | .uploadAbandoned => { v with abandoned := v.abandoned+1 }
  | .inspectionAccepted =>
      { v with document := { v.document with inspections := v.document.inspections ++ [.accepted] } }
  | .inspectionRejected =>
      { v with document := { v.document with inspections := v.document.inspections ++ [.rejected] } }
  | .signersUpdated => { v with roster := event.idsAt "signerIds" }
  | .documentSent =>
      { v with document := { v.document with sent := v.document.sent ++ (event.idAt "signingRevisionId").toList } }
  | .sessionIssued => v.issue (event.idAt "signerId") (event.idAt "sessionId")
  | .sessionExchanged => { v with sessions := v.sessions.map (LoggedSession.exchange (event.idAt "sessionId")) }
  | .sessionRevoked =>
      { v with sessions := v.sessions.map (LoggedSession.close .revoked (event.idAt "sessionId").toList) }
  | .consentRecorded => v.consent (event.idAt "sessionId") (event.idAt "consentCopyId")
  | .signerSigned =>
      { v with
        signed := v.signed ++ (event.idAt "signerId").toList
        sessions := v.sessions.map (LoggedSession.close .completed (event.idAt "sessionId").toList) }
  | .signerDeclined =>
      { v with
        document := { v.document with declined := v.document.declined ++ (event.idAt "signerId").toList }
        sessions := v.sessions.map LoggedSession.withdraw }
  | .documentVoided =>
      { v with
        document := { v.document with voids := v.document.voids+1 }
        sessions := v.sessions.map (LoggedSession.close .revoked (event.idsAt "sessionIds")) }
  | .documentFinalized =>
      { v with document := { v.document with finalizations := v.document.finalizations+1 } }
  | _ => v

end AuditView

def replay (audit : List NewAuditEvent) : AuditView := audit.foldl AuditView.apply .empty

theorem replayAppend (audit : List NewAuditEvent) (event : NewAuditEvent) :
    replay (audit ++ [event]) = (replay audit).apply event := List.foldl_append

/-! What the replay has to do with the rows. A session that has expired is marked by no
event: the log takes it as live, or as revoked when a signer has declined since. -/

def Standing.admits : Standing → SigningSessionStatus → Bool
  | .live, status => status = .issued ∨ status = .active ∨ status = .expired
  | .completed, status => status = .completed
  | .revoked, status => status = .revoked ∨ status = .expired

structure SessionTold (told : LoggedSession) (row : SigningSession) : Prop where
  id : told.id = row.id
  signerId : told.signerId = row.signerId
  exchanged : told.exchanged = row.consumedAt.isSome
  standing : told.standing.admits row.status = true

/-- What the log can tell of the state: the steps between the send and the finalization
are not all logged. -/
inductive Phase where
  | preparing | underway | voided | declined | finalized | expired
  deriving DecidableEq, Repr

def DocumentState.phase : DocumentState → Phase
  | .draft => .preparing
  | .prepared => .preparing
  | .sent => .underway
  | .inProgress => .underway
  | .completed => .underway
  | .finalizing => .underway
  | .finalizationFailed => .underway
  | .voided => .voided
  | .declined => .declined
  | .finalized => .finalized
  | .expired => .expired

def LoggedDocument.phase (d : LoggedDocument) : Phase :=
  if d.finalizations ≠ 0 then .finalized
  else if d.voids ≠ 0 then .voided
  else if d.declined ≠ [] then .declined
  else if d.sent ≠ [] then .underway
  else .preparing

def inspectionsOf : DocumentInspectionStatus → List DocumentInspectionStatus
  | .pending => []
  | status => [status]

structure DocumentTold (told : LoggedDocument) (row : Document) : Prop where
  phase : told.phase = row.state.phase
  sent : told.sent = row.signingRevisionId.toList
  inspections : told.inspections = inspectionsOf row.inspectionStatus
  ended : told.voids+told.declined.length ≤ 1
  finalized : told.finalizations ≤ 1

structure SignersTold (listed acted refused : List Id) (rows : List Signer) : Prop where
  roster : ∀ id, id ∈ listed ↔ id ∈ rows.map Signer.id
  signed : ∀ id, id ∈ acted ↔ ∃ s ∈ rows, s.id = id ∧ s.status = .signed
  declined : ∀ id, id ∈ refused ↔ ∃ s ∈ rows, s.id = id ∧ s.status = .declined

def uploadStatus (revisions : List Id) (abandoned : Nat) : UploadSessionStatus :=
  if revisions ≠ [] then .completed else if abandoned ≠ 0 then .abandoned else .issued

/-- The source is the first revision, and the last one is current. -/
structure RevisionsTold (ids : List Id) (abandoned : Nat) (e : Envelope) : Prop where
  revisions : ids = e.revisions.map DocumentRevision.id
  current : e.document.currentRevisionId = ids.getLast?
  upload : ∃ row, e.uploadSessions = [row] ∧ row.status = uploadStatus ids abandoned ∧ row.revisionId = ids.head?
  once : abandoned ≤ 1 ∧ (abandoned ≠ 0 → ids = [])

structure Told (told : AuditView) (e : Envelope) : Prop where
  document : DocumentTold told.document e.document
  signers : SignersTold told.roster told.signed told.document.declined e.signers
  sessions : List.Forall₂ SessionTold told.sessions e.sessions
  consents : told.consents = e.consents.map (fun row => (row.sessionId,row.consentCopyId))
  revisions : RevisionsTold told.revisions told.abandoned e

theorem draftTold (draft : NewDraft) : Told (replay (createDraftDocument draft).audit) (createDraftDocument draft) where
  document := ⟨rfl,rfl,rfl,Nat.zero_le _,Nat.zero_le _⟩
  signers :=
    { roster := fun _ => Iff.rfl
      signed := fun id => by simp [createDraftDocument,replay,AuditView.apply,AuditView.empty]
      declined := fun id => by simp [createDraftDocument,replay,AuditView.apply,AuditView.empty] }
  sessions := .nil
  consents := rfl
  revisions := ⟨rfl,rfl,⟨_,rfl,rfl,rfl⟩,Nat.zero_le _,fun _ => rfl⟩

/-! The sessions, one statement and its event at a time. -/

theorem forall₂Mapped {α β : Type} {R : α → β → Prop} {f : α → α} {g : β → β} {left : List α} {right : List β}
    (h : List.Forall₂ R left right) (each : ∀ a b, b ∈ right → R a b → R (f a) (g b)) :
    List.Forall₂ R (left.map f) (right.map g) := by
  induction h with
  | nil => exact .nil
  | @cons a b _ _ first _ ih =>
    exact .cons (each a b List.mem_cons_self first) (ih (fun a b mem => each a b (List.mem_cons_of_mem _ mem)))

theorem SessionTold.live {told row} (h : SessionTold told row) (isOpen : row.open = true) : told.standing = .live := by
  have standing := h.standing
  simp only [SigningSession.open,decide_eq_true_eq] at isOpen
  cases same : told.standing with
  | live => rfl
  | completed =>
    rw [same] at standing
    rcases isOpen with status | status <;> simp [Standing.admits,status] at standing
  | revoked =>
    rw [same] at standing
    rcases isOpen with status | status <;> simp [Standing.admits,status] at standing

theorem SessionTold.moved {told row row'} (h : SessionTold told row) (isOpen : row.open = true) (id : row'.id = row.id)
    (signerId : row'.signerId = row.signerId) (consumedAt : row'.consumedAt = row.consumedAt)
    (status : row'.status = .issued ∨ row'.status = .active ∨ row'.status = .expired) : SessionTold told row' where
  id := by rw [id]; exact h.id
  signerId := by rw [signerId]; exact h.signerId
  exchanged := by rw [consumedAt]; exact h.exchanged
  standing := by rw [h.live isOpen]; exact decide_eq_true status

theorem SessionTold.closed {told row} (h : SessionTold told row) {standing : Standing} {ids : List Id} {row' : SigningSession}
    (mem : row.id ∈ ids) (id : row'.id = row.id) (signerId : row'.signerId = row.signerId)
    (consumedAt : row'.consumedAt = row.consumedAt) (status : standing.admits row'.status = true) :
    SessionTold (told.close standing ids) row' := by
  unfold LoggedSession.close
  rw [if_pos (by rw [h.id]; exact mem)]
  exact ⟨h.id.trans id.symm,h.signerId.trans signerId.symm,by rw [consumedAt]; exact h.exchanged,status⟩

theorem SessionTold.unclosed {told row} (h : SessionTold told row) {standing : Standing} {ids : List Id}
    (other : row.id ∉ ids) : SessionTold (told.close standing ids) row := by
  unfold LoggedSession.close
  rw [if_neg (by rw [h.id]; exact other)]
  exact h

section
variable {told : List LoggedSession} {e e' : Envelope}

theorem onlyHit {sessionId : Id} {clause : SigningSession → Bool} {data error rows out}
    (ids : (List.map SigningSession.id rows).Nodup) (named : ∀ row, clause row = true → row.id = sessionId)
    (ok : updateOne clause data error rows = .ok out) : ∀ row ∈ rows, row.id = sessionId → clause row = true := by
  obtain ⟨-,hit,mem,holds⟩ := updateOneOk ok
  intro row found same
  have equal : row = hit := List.inj_on_of_nodup_map ids found mem (same.trans (named hit holds).symm)
  rw [equal]
  exact holds

theorem expiredTold {sessionId} (h : List.Forall₂ SessionTold told e.sessions)
    (ok : SigningSessions.markExpired sessionId e = .ok e') : List.Forall₂ SessionTold told e'.sessions := by
  obtain ⟨rows,updated,last⟩ := bindOk.mp ok
  cases last
  obtain ⟨rfl,-⟩ := updateOneOk updated
  rw [← List.map_id told]
  refine forall₂Mapped h (fun t s _ row => ?_)
  split
  · rename_i hit
    rw [Bool.and_eq_true] at hit
    exact row.moved hit.2 rfl rfl rfl (.inr (.inr rfl))
  · exact row

theorem presentedTold {sessionId presentedAt} (ids : (e.sessions.map SigningSession.id).Nodup)
    (h : List.Forall₂ SessionTold told e.sessions)
    (ok : SigningSessions.markPresented sessionId presentedAt e = .ok e') : List.Forall₂ SessionTold told e'.sessions := by
  unfold SigningSessions.markPresented at ok
  split at ok <;> try contradiction
  rename_i existing found
  split at ok <;> try contradiction
  rename_i presentable
  cases ok
  have named : existing.id = sessionId := by simpa using List.find?_some found
  rw [← List.map_id told]
  refine forall₂Mapped h (fun t s mem row => ?_)
  split
  · rename_i same
    have equal : s = existing :=
      List.inj_on_of_nodup_map ids mem (List.mem_of_find?_eq_some found) (same.trans named.symm)
    refine row.moved ?_ rfl rfl rfl (.inr (.inl rfl))
    rw [equal]
    exact decide_eq_true presentable
  · exact row

theorem revokedTold {sessionId revokedAt} (ids : (e.sessions.map SigningSession.id).Nodup)
    (h : List.Forall₂ SessionTold told e.sessions) (ok : SigningSessions.revoke sessionId revokedAt e = .ok e') :
    List.Forall₂ SessionTold (told.map (LoggedSession.close .revoked [sessionId])) e'.sessions := by
  obtain ⟨rows,updated,last⟩ := bindOk.mp ok
  cases last
  have only := onlyHit ids (fun row hit => (of_decide_eq_true (Bool.and_eq_true_iff.mp hit).1)) updated
  obtain ⟨rfl,-⟩ := updateOneOk updated
  refine forall₂Mapped h (fun t s mem row => ?_)
  split
  · rename_i hit
    have named : s.id = sessionId := of_decide_eq_true (Bool.and_eq_true_iff.mp hit).1
    exact row.closed (List.mem_singleton.mpr named) rfl rfl rfl rfl
  · rename_i miss
    exact row.unclosed (fun named => miss (only s mem (List.mem_singleton.mp named)))

theorem exchangedTold {sessionId version tokenHash csrfTokenHash consumedAt} (ids : (e.sessions.map SigningSession.id).Nodup)
    (h : List.Forall₂ SessionTold told e.sessions)
    (ok : SigningSessions.consumeAndRotate sessionId version tokenHash csrfTokenHash consumedAt e = .ok e') :
    List.Forall₂ SessionTold (told.map (LoggedSession.exchange (some sessionId))) e'.sessions := by
  obtain ⟨rows,updated,ok⟩ := bindOk.mp ok
  obtain ⟨_,_,last⟩ := bindOk.mp ok
  cases last
  have only := onlyHit ids (fun row hit => by simp at hit; exact hit.1.1.1) updated
  obtain ⟨rfl,-⟩ := updateOneOk updated
  refine forall₂Mapped h (fun t s mem row => ?_)
  unfold LoggedSession.exchange
  split
  · rename_i named
    have named : s.id = sessionId := by rw [← row.id]; exact Option.some.inj named
    have hit := only s mem named
    rw [if_pos hit]
    have isOpen : s.open = true := by simp at hit; exact hit.2
    exact ⟨row.id,row.signerId,rfl,by simp [row.live isOpen,Standing.admits]⟩
  · rename_i other
    rw [if_neg]
    · exact row
    · intro hit
      simp at hit
      exact other (by rw [row.id,hit.1.1.1])

theorem completedTold {sessionId completedAt} (ids : (e.sessions.map SigningSession.id).Nodup)
    (h : List.Forall₂ SessionTold told e.sessions) (ok : SigningSessions.markCompleted sessionId completedAt e = .ok e') :
    List.Forall₂ SessionTold (told.map (LoggedSession.close .completed [sessionId])) e'.sessions := by
  unfold SigningSessions.markCompleted at ok
  split at ok
  · rename_i done
    cases ok
    rw [← List.map_id e.sessions]
    refine forall₂Mapped h (fun t s mem row => ?_)
    by_cases named : s.id = sessionId
    · cases found : SigningSessions.findById sessionId e with
      | none =>
        rw [found] at done
        cases done
      | some existing =>
        rw [found,Option.any_some,decide_eq_true_eq] at done
        have own : existing.id = sessionId := by simpa using List.find?_some found
        have equal : s = existing :=
          List.inj_on_of_nodup_map ids mem (List.mem_of_find?_eq_some found) (named.trans own.symm)
        refine row.closed (List.mem_singleton.mpr named) rfl rfl rfl ?_
        rw [id_eq,equal,done]
        rfl
    · exact row.unclosed (by simpa using named)
  · obtain ⟨rows,updated,last⟩ := bindOk.mp ok
    cases last
    have only := onlyHit ids (fun row hit => (of_decide_eq_true (Bool.and_eq_true_iff.mp hit).1)) updated
    obtain ⟨rfl,-⟩ := updateOneOk updated
    refine forall₂Mapped h (fun t s mem row => ?_)
    split
    · rename_i hit
      have named : s.id = sessionId := of_decide_eq_true (Bool.and_eq_true_iff.mp hit).1
      exact row.closed (List.mem_singleton.mpr named) rfl rfl rfl rfl
    · rename_i miss
      exact row.unclosed (fun named => miss (only s mem (List.mem_singleton.mp named)))

theorem createdTold {session} (unused : session.consumedAt = none) (issued : session.status = .issued)
    (h : List.Forall₂ SessionTold told e.sessions) (ok : SigningSessions.create session e = .ok e') :
    List.Forall₂ SessionTold (told ++ [⟨session.id,session.signerId,false,.live⟩]) e'.sessions := by
  rw [(createAdmitted ok).1]
  refine List.rel_append h (.cons ⟨rfl,rfl,?_,?_⟩ .nil)
  · rw [unused]
    rfl
  · rw [issued]
    rfl

end

theorem revokeOpenRows {revokedAt list} {e e' : Envelope} (ok : revokeOpen revokedAt list e = .ok e') :
    e' = { e with sessions := e.sessions.map (fun row =>
      if row.open ∧ row.id ∈ (list.filter SigningSession.open).map SigningSession.id then row.revokedOn revokedAt else row) } := by
  induction list generalizing e with
  | nil =>
    cases ok
    simp
  | cons session rest ih =>
    rw [revokeOpen] at ok
    obtain ⟨mid,first,ok⟩ := bindOk.mp ok
    rw [ih ok]
    unfold revokeIfOpen at first
    split at first
    · rename_i isOpen
      obtain ⟨rows,updated,last⟩ := bindOk.mp first
      cases last
      obtain ⟨rfl,-⟩ := updateOneOk updated
      rw [List.filter_cons_of_pos isOpen,List.map_cons]
      simp only [List.map_map,Envelope.mk.injEq,true_and,and_true]
      refine List.map_congr_left (fun row _ => ?_)
      simp only [Function.comp]
      by_cases named : row.id = session.id
      · cases rowOpen : row.open with
        | true => simp [named,SigningSession.revokedOn,SigningSession.open]
        | false => simp [named,rowOpen]
      · have miss : ¬ (decide (row.id = session.id) && row.open) = true := by simp [named]
        simp only [if_neg miss,List.mem_cons,or_iff_right named]
    · rename_i closed
      cases first
      rw [List.filter_cons_of_neg closed]

theorem voidedTold {told : List LoggedSession} {revokedAt} {e e' : Envelope} (ids : (e.sessions.map SigningSession.id).Nodup)
    (h : List.Forall₂ SessionTold told e.sessions) (ok : revokeOpen revokedAt e.sessions e = .ok e') :
    List.Forall₂ SessionTold (told.map (LoggedSession.close .revoked
      ((e.sessions.filter SigningSession.open).map SigningSession.id))) e'.sessions := by
  rw [revokeOpenRows ok]
  refine forall₂Mapped h (fun t s mem row => ?_)
  split
  · rename_i hit
    exact row.closed hit.2 rfl rfl rfl rfl
  · rename_i miss
    refine row.unclosed (fun named => ?_)
    obtain ⟨other,found,same⟩ := List.mem_map.mp named
    obtain ⟨mem',isOpen⟩ := List.mem_filter.mp found
    rw [List.inj_on_of_nodup_map ids mem' mem same] at isOpen
    exact miss ⟨isOpen,named⟩

theorem declinedTold {told : List LoggedSession} {revokedAt} {e e' : Envelope}
    (h : List.Forall₂ SessionTold told e.sessions) (ok : revokeOpen revokedAt e.sessions e = .ok e') :
    List.Forall₂ SessionTold (told.map LoggedSession.withdraw) e'.sessions := by
  rw [revokeOpenRows ok]
  refine forall₂Mapped h (fun t s mem row => ?_)
  have standing := row.standing
  split
  · rename_i hit
    unfold LoggedSession.withdraw
    rw [if_pos (row.live hit.1)]
    exact ⟨row.id,row.signerId,row.exchanged,rfl⟩
  · rename_i miss
    have closed : s.open = false := by
      cases isOpen : s.open with
      | false => rfl
      | true => exact absurd ⟨isOpen,List.mem_map.mpr ⟨s,List.mem_filter.mpr ⟨mem,isOpen⟩,rfl⟩⟩ miss
    rw [openStatus] at closed
    unfold LoggedSession.withdraw
    split
    · rename_i live
      -- an expired session, which the log has as live
      rw [live] at standing
      refine ⟨row.id,row.signerId,row.exchanged,?_⟩
      simp [Standing.admits] at standing ⊢
      exact .inr ((standing.resolve_left closed.1).resolve_left closed.2)
    · exact row

/-! The document row. -/

theorem DocumentTold.kept {told : LoggedDocument} {row row' : Document} (h : DocumentTold told row)
    (phase : row'.state.phase = row.state.phase) (sent : row'.signingRevisionId = row.signingRevisionId)
    (inspections : row'.inspectionStatus = row.inspectionStatus) : DocumentTold told row' where
  phase := by rw [phase]; exact h.phase
  sent := by rw [sent]; exact h.sent
  inspections := by rw [inspections]; exact h.inspections
  ended := h.ended
  finalized := h.finalized

theorem prepPhase {state : DocumentState} : isPreparationState state = true ↔ state.phase = .preparing := by
  cases state <;> decide

theorem preparingTold {told : LoggedDocument} (phase : told.phase = .preparing) :
    told.sent = [] ∧ told.voids = 0 ∧ told.declined = [] ∧ told.finalizations = 0 := by
  unfold LoggedDocument.phase at phase
  split at phase <;> try contradiction
  split at phase <;> try contradiction
  split at phase <;> try contradiction
  split at phase <;> try contradiction
  rename_i final voids declined sent
  exact ⟨not_not.mp sent,not_not.mp voids,not_not.mp declined,not_not.mp final⟩

theorem underwayTold {told : LoggedDocument} (phase : told.phase = .underway) :
    told.sent ≠ [] ∧ told.voids = 0 ∧ told.declined = [] ∧ told.finalizations = 0 := by
  unfold LoggedDocument.phase at phase
  split at phase <;> try contradiction
  split at phase <;> try contradiction
  split at phase <;> try contradiction
  split at phase <;> try contradiction
  rename_i final voids declined sent
  exact ⟨sent,not_not.mp voids,not_not.mp declined,not_not.mp final⟩

theorem unfinalizedTold {told : LoggedDocument} (phase : told.phase ≠ .finalized) : told.finalizations = 0 := by
  unfold LoggedDocument.phase at phase
  split at phase
  · exact absurd rfl phase
  · rename_i final
    exact not_not.mp final

theorem runningTold {told : LoggedDocument} {state : DocumentState} (phase : told.phase = state.phase)
    (running : state ∈ [.draft,.prepared,.sent,.inProgress]) :
    told.voids = 0 ∧ told.declined = [] ∧ told.finalizations = 0 := by
  simp only [List.mem_cons,List.not_mem_nil,or_false] at running
  rcases running with rfl | rfl | rfl | rfl
  · exact (preparingTold phase).2
  · exact (preparingTold phase).2
  · exact (underwayTold phase).2
  · exact (underwayTold phase).2

theorem DocumentTold.inspected {told : LoggedDocument} {row row' : Document} {status : DocumentInspectionStatus}
    (h : DocumentTold told row) (pending : row.inspectionStatus = .pending) (decided : status ≠ .pending)
    (written : row'.inspectionStatus = status) (state : row'.state = row.state)
    (sent : row'.signingRevisionId = row.signingRevisionId) :
    DocumentTold { told with inspections := told.inspections ++ [status] } row' where
  phase := by rw [state]; exact h.phase
  sent := by rw [sent]; exact h.sent
  inspections := by
    show told.inspections ++ [status] = _
    rw [h.inspections,pending,written]
    cases status with
    | pending => exact absurd rfl decided
    | accepted => rfl
    | rejected => rfl
  ended := h.ended
  finalized := h.finalized

theorem DocumentTold.sending {told : LoggedDocument} {row row' : Document} {revisionId : Id} (h : DocumentTold told row)
    (prep : isPreparationState row.state = true) (state : row'.state = .sent)
    (sent : row'.signingRevisionId = some revisionId) (inspections : row'.inspectionStatus = row.inspectionStatus) :
    DocumentTold { told with sent := told.sent ++ [revisionId] } row' := by
  obtain ⟨unsent,voids,declined,final⟩ := preparingTold (h.phase.trans (prepPhase.mp prep))
  refine ⟨?_,?_,by rw [inspections]; exact h.inspections,h.ended,h.finalized⟩
  · rw [state]
    simp [LoggedDocument.phase,DocumentState.phase,voids,declined,final]
  · rw [sent]
    simp [unsent]

theorem DocumentTold.voiding {told : LoggedDocument} {row row' : Document} (h : DocumentTold told row)
    (running : row.state ∈ [.draft,.prepared,.sent,.inProgress]) (state : row'.state = .voided)
    (sent : row'.signingRevisionId = row.signingRevisionId) (inspections : row'.inspectionStatus = row.inspectionStatus) :
    DocumentTold { told with voids := told.voids+1 } row' := by
  obtain ⟨voids,declined,final⟩ := runningTold h.phase running
  refine ⟨?_,by rw [sent]; exact h.sent,by rw [inspections]; exact h.inspections,?_,h.finalized⟩
  · rw [state]
    simp [LoggedDocument.phase,DocumentState.phase,final]
  · simp [voids,declined]

theorem DocumentTold.declining {told : LoggedDocument} {row row' : Document} {signerId : Id} (h : DocumentTold told row)
    (running : row.state ∈ [.sent,.inProgress]) (state : row'.state = .declined)
    (sent : row'.signingRevisionId = row.signingRevisionId) (inspections : row'.inspectionStatus = row.inspectionStatus) :
    DocumentTold { told with declined := told.declined ++ [signerId] } row' := by
  obtain ⟨voids,declined,final⟩ := runningTold h.phase (by simp at running ⊢; exact .inr (.inr running))
  refine ⟨?_,by rw [sent]; exact h.sent,by rw [inspections]; exact h.inspections,?_,h.finalized⟩
  · rw [state]
    simp [LoggedDocument.phase,DocumentState.phase,final,voids]
  · simp [voids,declined]

theorem DocumentTold.finalizing {told : LoggedDocument} {row row' : Document} (h : DocumentTold told row)
    (unfinal : row.state ≠ .finalized) (state : row'.state = .finalized)
    (sent : row'.signingRevisionId = row.signingRevisionId) (inspections : row'.inspectionStatus = row.inspectionStatus) :
    DocumentTold { told with finalizations := told.finalizations+1 } row' := by
  have none : told.finalizations = 0 := by
    refine unfinalizedTold ?_
    rw [h.phase]
    cases same : row.state <;> simp_all [DocumentState.phase]
  refine ⟨?_,by rw [sent]; exact h.sent,by rw [inspections]; exact h.inspections,h.ended,by simp [none]⟩
  rw [state]
  simp [LoggedDocument.phase,DocumentState.phase]

/-! The signer rows. -/

theorem upsertAllNamed (rows list : List Signer) :
    (∀ id, id ∈ (Signers.upsertAll rows list).1.map Signer.id ↔ id ∈ rows.map Signer.id ∨ id ∈ list.map Signer.id) ∧
      (Signers.upsertAll rows list).2.map Signer.id = list.map Signer.id := by
  induction list generalizing rows with
  | nil => exact ⟨by simp [Signers.upsertAll],rfl⟩
  | cons signer rest ih =>
    obtain ⟨ids,returned⟩ := ih (Signers.upsert rows signer)
    have upserted : ∀ id, id ∈ (Signers.upsert rows signer).map Signer.id ↔ id ∈ rows.map Signer.id ∨ id = signer.id := by
      intro id
      unfold Signers.upsert
      split
      · rename_i present
        have same : (rows.map (fun row => if row.id = signer.id then
            { row with routingOrder := signer.routingOrder, email := signer.email, displayName := signer.displayName }
            else row)).map Signer.id = rows.map Signer.id := by
          rw [List.map_map]
          refine List.map_congr_left (fun row _ => ?_)
          simp only [Function.comp]
          split <;> rfl
        rw [same]
        refine ⟨.inl,fun either => either.elim (fun mem => mem) (fun own => ?_)⟩
        obtain ⟨row,mem,named⟩ := List.any_eq_true.mp present
        rw [own,← of_decide_eq_true named]
        exact List.mem_map_of_mem mem
      · rw [List.map_append,List.mem_append,List.map_singleton,List.mem_singleton]
    refine ⟨fun id => ?_,?_⟩
    · rw [List.map_cons,List.mem_cons,← or_assoc,← upserted id]
      exact ids id
    · show _ :: _ = _ :: _
      rw [returned]
      congr 1
      cases found : (Signers.upsert rows signer).find? (fun row => row.id = signer.id) with
      | none => rfl
      | some row => simpa using List.find?_some found

theorem SignersTold.replaced {roster signed declined : List Id} {rows list : List Signer}
    (h : SignersTold roster signed declined rows)
    (pending : ∀ s ∈ rows, s.status = .pending)
    (pending' : ∀ s ∈ (Signers.upsertAll (rows.filter (fun row => row.id ∈ list.map Signer.id)) list).1, s.status = .pending) :
    SignersTold ((Signers.upsertAll (rows.filter (fun row => row.id ∈ list.map Signer.id)) list).2.map Signer.id)
      signed declined (Signers.upsertAll (rows.filter (fun row => row.id ∈ list.map Signer.id)) list).1 where
  roster := by
    intro id
    obtain ⟨ids,returned⟩ := upsertAllNamed (rows.filter (fun row => row.id ∈ list.map Signer.id)) list
    rw [ids id]
    rw [returned]
    refine ⟨.inr,fun either => either.elim (fun mem => ?_) (fun mem => mem)⟩
    obtain ⟨row,kept,rfl⟩ := List.mem_map.mp mem
    exact of_decide_eq_true (List.mem_filter.mp kept).2
  signed := by
    intro id
    constructor
    · intro mem
      obtain ⟨s,found,-,signed⟩ := (h.signed id).mp mem
      rw [pending s found] at signed
      cases signed
    · rintro ⟨s,mem,-,signed⟩
      rw [pending' s mem] at signed
      cases signed
  declined := by
    intro id
    constructor
    · intro mem
      obtain ⟨s,found,-,declined⟩ := (h.declined id).mp mem
      rw [pending s found] at declined
      cases declined
    · rintro ⟨s,mem,-,declined⟩
      rw [pending' s mem] at declined
      cases declined

theorem actedStatus (data : Signer → Signer) {rows : List Signer} {signerId : Id} {status : SignerStatus}
    (named : ∀ row, (data row).id = row.id) (acts : ∀ row, (data row).status = status)
    (pending : ∃ row ∈ rows, row.id = signerId ∧ row.status = .pending) (ids : (rows.map Signer.id).Nodup)
    (other : SignerStatus) (notPending : other ≠ .pending) (id : Id) :
    (∃ s ∈ act signerId data rows, s.id = id ∧ s.status = other) ↔
      (∃ s ∈ rows, s.id = id ∧ s.status = other) ∨ (other = status ∧ id = signerId) := by
  obtain ⟨actor,mem,own,waiting⟩ := pending
  constructor
  · rintro ⟨s',found,rfl,rfl⟩
    obtain ⟨s,old,⟨same,rfl⟩ | ⟨-,rfl⟩⟩ := actMem found
    · exact .inr ⟨acts s,(named s).trans same⟩
    · exact .inl ⟨s',old,rfl,rfl⟩
  · rintro (⟨s,old,rfl,rfl⟩ | ⟨rfl,rfl⟩)
    · refine ⟨s,List.mem_map.mpr ⟨s,old,if_neg (fun same => ?_)⟩,rfl,rfl⟩
      rw [List.inj_on_of_nodup_map ids old mem (same.trans own.symm)] at notPending
      exact notPending waiting
    · exact ⟨data actor,List.mem_map.mpr ⟨actor,mem,if_pos own⟩,(named actor).trans own,acts actor⟩

theorem actIds (data : Signer → Signer) {rows : List Signer} {signerId : Id} (named : ∀ row, (data row).id = row.id) :
    (act signerId data rows).map Signer.id = rows.map Signer.id := by
  unfold act
  rw [List.map_map]
  refine List.map_congr_left (fun row _ => ?_)
  simp only [Function.comp]
  split
  · exact named row
  · rfl

theorem SignersTold.signing {roster signed declined : List Id} {rows : List Signer} {signerId : Id} {now : Date}
    (h : SignersTold roster signed declined rows) (ids : (rows.map Signer.id).Nodup) (pending : ∃ row ∈ rows, row.id = signerId ∧ row.status = .pending) :
    SignersTold roster (signed ++ [signerId]) declined (act signerId (signedRow now) rows) where
  roster id := by rw [actIds (signedRow now) (fun _ => rfl)]; exact h.roster id
  signed id := by
    rw [actedStatus (signedRow now) (fun _ => rfl) (fun _ => rfl) pending ids .signed (by decide) id,← h.signed id]
    simp
  declined id := by
    rw [actedStatus (signedRow now) (fun _ => rfl) (fun _ => rfl) pending ids .declined (by decide) id,← h.declined id]
    simp

theorem SignersTold.again {roster signed declined : List Id} {rows : List Signer} {signerId : Id}
    (h : SignersTold roster signed declined rows) (acted : ∃ row ∈ rows, row.id = signerId ∧ row.status = .signed) :
    SignersTold roster (signed ++ [signerId]) declined rows where
  roster := h.roster
  signed id := by
    rw [List.mem_append,List.mem_singleton,h.signed id]
    refine ⟨fun either => either.elim (fun old => old) (fun own => ?_),.inl⟩
    rw [own]
    exact acted
  declined := h.declined

theorem SignersTold.declining {roster signed declined : List Id} {rows : List Signer} {signerId : Id} {now : Date}
    (h : SignersTold roster signed declined rows) (ids : (rows.map Signer.id).Nodup) (pending : ∃ row ∈ rows, row.id = signerId ∧ row.status = .pending) :
    SignersTold roster signed (declined ++ [signerId]) (act signerId (declinedRow now) rows) where
  roster id := by rw [actIds (declinedRow now) (fun _ => rfl)]; exact h.roster id
  signed id := by
    rw [actedStatus (declinedRow now) (fun _ => rfl) (fun _ => rfl) pending ids .signed (by decide) id,← h.signed id]
    simp
  declined id := by
    rw [actedStatus (declinedRow now) (fun _ => rfl) (fun _ => rfl) pending ids .declined (by decide) id,← h.declined id]
    simp

end ESign
