import ESign.Completion
import ESign.Inspection
import ESign.ServedAlone
import ESign.Sessions
import ESign.SignerSubmission

/-! Nobody is locked out of signing. Whatever requests ran before, and wherever they stopped,
the signers who are still pending can be given new sessions and sign, one after the other:
what each of the four requests of a visit asks of the rows is what the requests before it,
and the invariants of every run, have left there. -/
namespace ESign
open StoreProgram StoreProgram.Fallible

/-! Statements that hit the row they are meant for. -/

theorem countOne {α β : Type} {key : α → β} {rows : List α} {row : α} {clause : α → Bool} (keys : (rows.map key).Nodup)
    (mem : row ∈ rows) (hit : clause row = true) (only : ∀ r ∈ rows, clause r = true → key r = key row) :
    rows.countP clause = 1 := by
  have unique : ∀ r ∈ rows, clause r = true → r = row :=
    fun r found same => List.inj_on_of_nodup_map keys found mem (only r found same)
  have once : rows.Nodup := keys.of_map
  rw [List.countP_eq_length_filter]
  have filtered : rows.filter clause = [row] := by
    refine List.perm_singleton.mp
      ((List.perm_ext_iff_of_nodup (once.filter _) (List.nodup_singleton row)).mpr fun r => ?_)
    rw [List.mem_filter,List.mem_singleton]
    exact ⟨fun found => unique r found.1 found.2,by rintro rfl; exact ⟨mem,hit⟩⟩
  rw [filtered]
  rfl

theorem updatesOne {α β : Type} {key : α → β} {rows : List α} {row : α} (clause : α → Bool) (data : α → α)
    (error : AppError)
    (keys : (rows.map key).Nodup) (mem : row ∈ rows) (hit : clause row = true)
    (only : ∀ r ∈ rows, clause r = true → key r = key row) :
    updateOne clause data error rows = .ok (updateMany clause data rows) := if_pos (countOne keys mem hit only)

theorem appends (event : NewAuditEvent) (approved : ∀ entry ∈ event.payload, entry.2.approved = .ok ()) (e : Envelope) :
    Audit.append event e = .ok { e with audit := e.audit ++ [event] } :=
  bindOk.mpr ⟨PUnit.unit,loopOk.mpr approved,rfl⟩

theorem publishes {event : OutboxEvent} {e : Envelope} (fresh : ∀ row ∈ e.outbox, row.id ≠ event.id) :
    Jobs.publish event e = .ok { e with outbox := e.outbox ++ [event] } := by
  refine thenOk.mpr ⟨checkOk.mpr ?_,rfl⟩
  simpa using fresh

theorem executes {w : Write} {e e' : Envelope} {i : Input} (passed : i.failure = none) (ok : w.run i e = .ok e') :
    w.exec e i = (e',.ok ()) := by
  unfold Write.exec
  rw [passed,ok]

/-! Ids that no row has. -/

/-- Every id, hash and key of the tables that new rows are compared with is below `n`. -/
structure Unused (n : Nat) (e : Envelope) : Prop where
  sessions : ∀ s ∈ e.sessions, s.id < n ∧ s.tokenHash < n
  consents : ∀ r ∈ e.consents, r.id < n ∧ r.sessionId < n
  outbox : ∀ o ∈ e.outbox, o.id < n
  records : ∀ r ∈ e.idempotency, r.id < n ∧ r.key < n
  revisions : ∀ r ∈ e.revisions, r.id < n

theorem boundedBy {α : Type} (f : α → Nat) (rows : List α) : ∃ n, ∀ row ∈ rows, f row < n := by
  induction rows with
  | nil => exact ⟨0,fun _ mem => (nomatch mem)⟩
  | cons row rest ih =>
    obtain ⟨n,bound⟩ := ih
    refine ⟨max n (f row + 1),List.forall_mem_cons.mpr ⟨by omega,fun other mem => ?_⟩⟩
    have := bound other mem
    omega

theorem unusedExists (e : Envelope) : ∃ n, Unused n e := by
  obtain ⟨a,sessions⟩ := boundedBy (fun s : SigningSession => max s.id s.tokenHash) e.sessions
  obtain ⟨b,consents⟩ := boundedBy (fun r : ConsentRecord => max r.id r.sessionId) e.consents
  obtain ⟨c,outbox⟩ := boundedBy OutboxEvent.id e.outbox
  obtain ⟨d,records⟩ := boundedBy (fun r : IdempotencyRecord => max r.id r.key) e.idempotency
  obtain ⟨f,revisions⟩ := boundedBy DocumentRevision.id e.revisions
  have both : ∀ {x y k : Nat}, max x y < k → k ≤ a+b+c+d+f → x < a+b+c+d+f ∧ y < a+b+c+d+f := by omega
  exact ⟨a+b+c+d+f,fun s mem => both (sessions s mem) (by omega),fun r mem => both (consents r mem) (by omega),
    fun o mem => (outbox o mem).trans_le (by omega),fun r mem => both (records r mem) (by omega),
    fun r mem => (revisions r mem).trans_le (by omega)⟩

/-- What a request is given at an instant, when nothing fails: ids and tokens from `n` on. -/
def suppliedAt (now : Date) (n pageCount : Nat) : Input :=
  ⟨now,fun k => n+k,fun k => n+k,none,⟨0,[]⟩,fun _ => (true,none),pageCount⟩

/-- The tables that only one of the four requests touches. -/
structure Aside (e e' : Envelope) : Prop where
  consents : e'.consents = e.consents
  records : e'.idempotency = e.idempotency
  artifact : e'.artifact = e.artifact

/-! A new session: what is open is revoked first. -/

theorem revokesAll {u : RotateUnit} {list : List SigningSession} {e : Envelope}
    (ids : (e.sessions.map SigningSession.id).Nodup)
    (distinct : (list.map SigningSession.id).Nodup) (present : ∀ s ∈ list, s ∈ e.sessions ∧ s.open = true) :
    ∃ e', u.revokeAll list e = .ok e' ∧ Aside e e' ∧
      e'.sessions = updateMany (fun row => row.id ∈ list.map SigningSession.id)
      (fun row => row.revokedOn u.now) e.sessions := by
  induction list generalizing e with
  | nil => exact ⟨e,rfl,⟨rfl,rfl,rfl⟩,(updateManyNone (by simp)).symm⟩
  | cons session rest ih =>
    rw [List.map_cons,List.nodup_cons] at distinct
    obtain ⟨mem,isOpen⟩ := present session List.mem_cons_self
    have hit := updatesOne (fun row : SigningSession => row.id = session.id && row.open)
      (fun row => row.revokedOn u.now) SigningSessions.sessionNotOpen ids mem (by simp [isOpen])
      (fun r _ hit => by simp at hit; exact hit.1)
    have only : updateMany (fun row : SigningSession => row.id = session.id && row.open) (fun row => row.revokedOn u.now)
      e.sessions =
        updateMany (fun row => row.id = session.id) (fun row => row.revokedOn u.now) e.sessions := by
      refine updateManyCongr fun row found => ?_
      by_cases same : row.id = session.id
      · rw [List.inj_on_of_nodup_map ids found mem same,isOpen]
        simp
      · simp [same]
    rw [only] at hit
    have revoked : SigningSessions.revoke session.id u.now e = .ok { e with
        sessions := updateMany (fun row => row.id = session.id) (fun row => row.revokedOn u.now) e.sessions } :=
      bindOk.mpr ⟨_,hit,rfl⟩
    have logged := appends (⟨.sessionRevoked,.accountUser,some u.userId,u.now,
        [("signerId",.id (some u.signerId)),("sessionId",.id (some session.id)),("reason",.code "rotated")]⟩)
      (by simp [PayloadValue.approved]) { e with
        sessions := updateMany (fun row => row.id = session.id) (fun row => row.revokedOn u.now) e.sessions }
    have kept : ∀ s ∈ rest, s ∈ updateMany (fun row : SigningSession => row.id = session.id)
      (fun row => row.revokedOn u.now)
        e.sessions ∧ s.open = true := by
      intro s later
      obtain ⟨old,stillOpen⟩ := present s (List.mem_cons_of_mem _ later)
      refine ⟨(updateManyOf old).2 (decide_eq_false fun same => distinct.1 ?_),stillOpen⟩
      rw [← same]
      exact List.mem_map_of_mem later
    have keys :
      (updateMany (fun row : SigningSession => row.id = session.id) (fun row => row.revokedOn u.now) e.sessions).map
        SigningSession.id = e.sessions.map SigningSession.id := updateManyKeys fun _ => rfl
    obtain ⟨e',others,aside,rows⟩ := ih (e := { e with
        sessions := updateMany (fun row => row.id = session.id) (fun row => row.revokedOn u.now) e.sessions,
        audit := e.audit ++ [_] }) (keys.symm ▸ ids) distinct.2 kept
    refine ⟨e',?_,⟨aside.consents,aside.records,aside.artifact⟩,?_⟩
    · rw [RotateUnit.revokeAll]
      exact bindOk.mpr ⟨_,revoked,bindOk.mpr ⟨_,logged,others⟩⟩
    · rw [rows]
      unfold updateMany
      rw [List.map_map]
      refine List.map_congr_left fun row _ => ?_
      by_cases first : row.id = session.id
      · simp [first,SigningSession.revokedOn]
      · simp [first]

structure Signable (e : Envelope) : Prop where
  signerIds : (e.signers.map Signer.id).Nodup
  sessionIds : (e.sessions.map SigningSession.id).Nodup
  fieldIds : (e.fields.map SignatureField.id).Nodup
  few : e.fields.length ≤ maxKeys
  revision : (e.document.currentRevisionId <|> e.document.signingRevisionId).isSome = true
  available : isAvailableForSigning e.document = true

theorem Signable.still {e e'} (h : Signable e) (still : Still e e') : Signable e' where
  signerIds := by rw [still.signers]; exact h.signerIds
  sessionIds := still.sessions.distinct h.sessionIds
  fieldIds := by rw [still.fields]; exact h.fieldIds
  few := by rw [still.fields]; exact h.few
  revision := by rw [still.document]; exact h.revision
  available := by rw [still.document]; exact h.available

theorem foundSigner {e : Envelope} (h : Signable e) {signer : Signer} (mem : signer ∈ e.signers) :
    Signers.findById signer.id e = some signer :=
  findsKeyed Signer.id h.signerIds mem

theorem rotateRuns {u : RotateUnit} {e : Envelope} (h : Signable e) {n : Nat} (unused : Unused n e) (id : u.sessionId = n)
    (token : u.tokenHash = n) (owner : ∃ s ∈ e.signers, s.id = u.signerId) :
    ∃ e', u.run e = .ok e' ∧ Aside e e' ∧ newSession n u.signerId n u.expiresAt ∈ e'.sessions ∧
      SigningSessions.findByTokenHash n e' = some (newSession n u.signerId n u.expiresAt) := by
  have listed : ∀ s ∈ SigningSessions.listOpenBySigner u.signerId e, s ∈ e.sessions ∧ s.open = true := by
    intro s mem
    obtain ⟨found,hit⟩ := List.mem_filter.mp mem
    rw [Bool.and_eq_true] at hit
    exact ⟨found,hit.2⟩
  obtain ⟨e₁,revoked,aside,rows⟩ := revokesAll (u := u) h.sessionIds
    (h.sessionIds.sublist (List.filter_sublist.map _)) listed
  obtain ⟨quiet,-⟩ := revokeAllQuiet revoked
  have old : ∀ s ∈ e₁.sessions, s.id ≠ n ∧ s.tokenHash ≠ n := by
    intro s mem
    rw [rows] at mem
    obtain ⟨r,found,⟨-,rfl⟩ | ⟨-,rfl⟩⟩ := updateManyMem mem
    · exact ⟨(unused.sessions r found).1.ne,(unused.sessions r found).2.ne⟩
    · exact ⟨(unused.sessions s found).1.ne,(unused.sessions s found).2.ne⟩
  have closed : ∀ s ∈ e₁.sessions, s.signerId = u.signerId → s.open = false := by
    intro s mem own
    rw [rows] at mem
    obtain ⟨r,found,⟨-,rfl⟩ | ⟨miss,rfl⟩⟩ := updateManyMem mem
    · rfl
    · cases isOpen : s.open with
      | false => rfl
      | true =>
        refine absurd (List.mem_map_of_mem (List.mem_filter.mpr ⟨found,?_⟩)) (of_decide_eq_false miss)
        simp [own,isOpen]
  have created : SigningSessions.create (newSession u.sessionId u.signerId u.tokenHash u.expiresAt) e₁ =
      .ok { e₁ with sessions := e₁.sessions ++ [newSession n u.signerId n u.expiresAt] } := by
    rw [id,token]
    refine thenOk.mpr ⟨checkOk.mpr ?_,thenOk.mpr ⟨checkOk.mpr ?_,thenOk.mpr ⟨checkOk.mpr ?_,rfl⟩⟩⟩
    · rw [Bool.not_eq_true',List.any_eq_false]
      intro s mem
      simp [newSession,old s mem]
    · rw [Bool.not_eq_true',Bool.and_eq_false_imp,List.any_eq_false]
      intro _ s mem
      rw [Bool.and_eq_true,not_and,Bool.not_eq_true]
      exact fun own => closed s mem (of_decide_eq_true own)
    · rw [quiet.signers,List.any_eq_true]
      obtain ⟨s,mem,same⟩ := owner
      exact ⟨s,mem,decide_eq_true same⟩
  refine ⟨_,bindOk.mpr ⟨e₁,revoked,bindOk.mpr ⟨_,created,appends _ ?_ _⟩⟩,
    ⟨aside.consents,aside.records,aside.artifact⟩,List.mem_append_right _ (by simp),?_⟩
  · simp [PayloadValue.approved]
  · refine findsOnly (List.mem_append_right _ (by simp)) (by simp [newSession]) fun s mem hit => ?_
    rcases List.mem_append.mp mem with before | new
    · exact absurd (of_decide_eq_true hit) (old s before).2
    · exact List.mem_singleton.mp new

section
variable {settings : Settings}

theorem rotates (settings : Settings) {e : Envelope} (h : Signable e) {signer : Signer} (mem : signer ∈ e.signers)
    {n : Nat} (unused : Unused n e)
    (now : Date) (userId : Id) : ∃ e', Gives Write.exec (suppliedAt now n 1) e
    (rotateSigningSession settings signer.id userId) () e' ∧
      Still e e' ∧ Aside e e' ∧
      SigningSessions.findByTokenHash n e' = some (newSession n signer.id n (now + settings.sessionTtlMs)) := by
  obtain ⟨e',ran,aside,-,found⟩ := rotateRuns (u := ⟨e.document,signer.id,n,n,now + settings.sessionTtlMs,userId,now⟩)
    h unused rfl rfl ⟨signer,mem,rfl⟩
  refine ⟨e',?_,(rotateStill ran).1,aside,found⟩
  refine givesBind (givesGet _ e) (givesBind (givesEnsure h.available) (givesBind (givesFind (foundSigner h mem)) ?_))
  refine givesBind (givesGet _ e) (givesBind (givesGet _ e) (givesBind (givesGet _ e) ?_))
  exact givesBind (givesPerform (executes rfl ran)) rfl

/-- A session that its signer can present, and the signer. -/
structure Presentable (session : SigningSession) (signer : Signer) (exchanged : Bool) (now : Date)
    (e : Envelope) : Prop where
  found : SigningSessions.findByTokenHash session.tokenHash e = some session
  owner : session.signerId = signer.id
  signer : signer ∈ e.signers
  isOpen : session.open = true
  used : session.consumedAt.isSome = exchanged
  inDate : now < session.expiresAt

theorem loads {e : Envelope} (h : Signable e) (public_ : settings.requiresAccountAuth = false) {session : SigningSession}
    {signer : Signer} {exchanged allowCompleted : Bool} {i : Input}
    (presented : Presentable session signer exchanged i.now e) :
    Gives Write.exec i e (loadSignerSession settings ⟨session.tokenHash,exchanged,allowCompleted,none⟩)
      ⟨session,e.document,signer⟩ e := by
  have status := presented.isOpen
  simp only [SigningSession.open,Bool.decide_or,Bool.or_eq_true,decide_eq_true_eq] at status
  refine givesBind (givesFind presented.found) (givesBind (givesGet _ e) ?_)
  refine givesBind (givesEnsure ?_) (givesBind (givesEnsure ?_) ?_)
  · rcases status with s | s <;> simp [s]
  · rcases status with s | s <;> simp [s]
  · rw [if_neg (not_le.mpr presented.inDate)]
    refine givesBind (givesEnsure (by simpa using presented.used)) (givesBind (givesGet _ e) ?_)
    have own : Signers.findById session.signerId e = some signer := by
      rw [presented.owner]
      exact foundSigner h presented.signer
    refine givesBind (givesEnsure (by simp [h.available])) (givesBind (givesFind own) ?_)
    exact givesBind (givesEnsure (by simp [accountAllowed,public_])) (givesPure _ e)

/-- The row `consumeAndRotate` is meant for. -/
def ExchangeUnit.hits (u : ExchangeUnit) (row : SigningSession) : Bool :=
  row.id = u.loaded.session.id && row.version = u.loaded.session.version && row.consumedAt = none && row.open

theorem exchangeRuns {u : ExchangeUnit} {e : Envelope} (h : Signable e) {n : Nat} (unused : Unused n e)
    (token : u.tokenHash = n)
    (mem : u.loaded.session ∈ e.sessions) (isOpen : u.loaded.session.open = true)
    (fresh : u.loaded.session.consumedAt = none) :
    ∃ e', u.run e = .ok e' ∧ Aside e e' ∧ SigningSessions.findByTokenHash n e' = some (u.loaded.session.exchanged u) := by
  have hit : u.hits u.loaded.session = true := by simp [ExchangeUnit.hits,isOpen,fresh]
  have only : ∀ r ∈ e.sessions, u.hits r = true → r.id = u.loaded.session.id := by
    intro r _ hit
    simp only [ExchangeUnit.hits,Bool.and_eq_true,decide_eq_true_eq] at hit
    exact hit.1.1.1
  have consumed : SigningSessions.consumeAndRotate u.loaded.session.id u.loaded.session.version u.tokenHash
      u.csrfTokenHash u.now e = .ok { e with sessions := updateMany u.hits (fun row => row.exchanged u) e.sessions } := by
    refine bindOk.mpr
      ⟨_,updatesOne _ (fun row : SigningSession => row.exchanged u) _ h.sessionIds mem hit only,thenOk.mpr
        ⟨checkOk.mpr ?_,rfl⟩⟩
    rw [Bool.not_eq_true',List.any_eq_false]
    intro s found
    simp [token,(unused.sessions s found).2.ne]
  refine ⟨_,bindOk.mpr ⟨_,consumed,appends _ ?_ _⟩,⟨rfl,rfl,rfl⟩,?_⟩
  · simp [PayloadValue.approved]
  · refine findsOnly ((updateManyOf mem).1 hit) (by simp [SigningSession.exchanged,token]) fun s found named => ?_
    obtain ⟨r,old,⟨same,rfl⟩ | ⟨-,rfl⟩⟩ := updateManyMem found
    · rw [List.inj_on_of_nodup_map h.sessionIds old mem (only r old same)]
    · exact absurd (of_decide_eq_true named) (unused.sessions s old).2.ne

theorem exchanges {e : Envelope} (h : Signable e) (public_ : settings.requiresAccountAuth = false)
    {session : SigningSession}
    {signer : Signer} {now : Date} {n : Nat} (unused : Unused n e) (presented : Presentable session signer false now e) :
    ∃ e' session', Gives Write.exec (suppliedAt now n 1) e (exchangeSigningToken settings session.tokenHash none) () e' ∧
      Still e e' ∧ Aside e e' ∧ session'.id = session.id ∧ session'.tokenHash = n ∧
      Presentable session' signer true now e' := by
  have fresh : session.consumedAt = none := by simpa using presented.used
  obtain ⟨e',ran,aside,found⟩ := exchangeRuns (u := ⟨⟨session,e.document,signer⟩,n,n+1,now⟩) h unused rfl
    (List.mem_of_find?_eq_some presented.found) presented.isOpen fresh
  obtain ⟨quiet,-⟩ := exchangeQuiet ran
  refine ⟨e',session.exchanged
    ⟨⟨session,e.document,signer⟩,n,n+1,now⟩,?_,quiet.toStill,aside,rfl,rfl,found,presented.owner,
    ?_,rfl,rfl,presented.inDate⟩
  · refine givesBind (loads h public_ presented) (givesBind (givesGet _ e) (givesBind (givesGet _ e) ?_))
    exact givesPerform (executes rfl ran)
  · rw [quiet.signers]
    exact presented.signer

theorem consents {e : Envelope} (h : Signable e) (public_ : settings.requiresAccountAuth = false)
    (known : settings.currentDisclosure ∈ settings.disclosures) {session : SigningSession} {signer : Signer} {now : Date}
    {n : Nat} (unused : Unused n e) (presented : Presentable session signer true now e)
    (unasked : ∀ r ∈ e.consents, r.sessionId ≠ session.id) :
    ∃ e', Gives Write.exec (suppliedAt now n 1) e
        (recordSignerConsent settings ⟨session.tokenHash,settings.currentDisclosure,true,none,none,none⟩) () e' ∧
      Still e e' ∧ e'.artifact = e.artifact ∧ Presentable session signer true now e' ∧
      ConsentRecords.findBySession session.id e' =
        some ⟨n,signer.id,session.id,settings.currentDisclosure,now,none,none⟩ := by
  have none_ : ConsentRecords.findBySession session.id e = none :=
    List.find?_eq_none.mpr fun r mem => by simpa using unasked r mem
  have created : ConsentRecords.create ⟨n,signer.id,session.id,settings.currentDisclosure,now,none,none⟩ e =
      .ok { e with consents := e.consents ++ [⟨n,signer.id,session.id,settings.currentDisclosure,now,none,none⟩] } := by
    refine thenOk.mpr ⟨checkOk.mpr ?_,rfl⟩
    rw [Bool.not_eq_true',List.any_eq_false]
    intro r mem
    simp [(unused.consents r mem).1.ne,unasked r mem]
  have ran : ConsentUnit.run
    ⟨⟨session,e.document,signer⟩,⟨n,signer.id,session.id,settings.currentDisclosure,now,none,none⟩⟩ e =
      .ok _ := bindOk.mpr ⟨_,created,appends _ (by simp [PayloadValue.approved]) _⟩
  obtain ⟨quiet,-⟩ := consentQuiet ran
  refine ⟨_,?_,quiet.toStill,rfl,⟨presented.found,presented.owner,presented.signer,presented.isOpen,presented.used,
    presented.inDate⟩,?_⟩
  · refine givesBind (givesEnsure rfl)
      (givesBind (givesEnsure (decide_eq_true known)) (givesBind (givesEnsure (by simp)) ?_))
    refine givesBind (loads h public_ presented) (givesBind (givesGet _ e) ?_)
    rw [none_]
    exact givesBind (givesGet _ e) (givesBind (givesGet _ e) (givesPerform (executes rfl ran)))
  · show (e.consents ++ [_]).find? _ = _
    unfold ConsentRecords.findBySession at none_
    rw [List.find?_append,none_]
    simp

end

/-! The signing itself. -/

theorem completesFields {u : CompleteUnit} {list : List SignatureField} {e : Envelope}
    (ids : (e.fields.map SignatureField.id).Nodup)
    (present : ∀ f ∈ list, f.id ∈ e.fields.map SignatureField.id) :
    ∃ rows, u.completeFields list e = .ok { e with fields := rows } := by
  induction list generalizing e with
  | nil => exact ⟨e.fields,rfl⟩
  | cons field rest ih =>
    obtain ⟨row,mem,same⟩ := List.mem_map.mp (present field List.mem_cons_self)
    have updated := updatesOne (fun r : SignatureField => r.id = field.id)
      (fun r => { r with completion := some (u.completion field) }) SignatureFields.fieldNotFound ids mem
      (decide_eq_true same) (fun r _ hit => (of_decide_eq_true hit).trans same.symm)
    have keys : (updateMany (fun r : SignatureField => r.id = field.id)
        (fun r => { r with completion := some (u.completion field) }) e.fields).map SignatureField.id =
        e.fields.map SignatureField.id := updateManyKeys fun _ => rfl
    obtain ⟨rows,others⟩ := ih (e := { e with fields := _ }) (keys.symm ▸ ids)
      (fun f later => keys.symm ▸ present f (List.mem_cons_of_mem _ later))
    exact ⟨rows,bindOk.mpr ⟨_,bindOk.mpr ⟨_,updated,rfl⟩,others⟩⟩

theorem marksSigned {e : Envelope} (ids : (e.signers.map Signer.id).Nodup) {signer : Signer} (mem : signer ∈ e.signers)
    (pending : signer.status = .pending) (completedAt : Date) :
    ∃ rows, Signers.markSigned signer.id signer.version completedAt e = .ok { e with signers := rows } := by
  have found : Signers.findById signer.id e = some signer := findsKeyed Signer.id ids mem
  have updated := updatesOne
    (fun row : Signer => row.id = signer.id ∧ row.version = signer.version ∧ row.status = .pending)
    (fun row => { row with status := .signed, completedAt := some completedAt, version := row.version+1 })
    (.conflict [("reason","signer_version")]) ids mem (by simp [pending]) (fun r _ hit => (of_decide_eq_true hit).1)
  have unsigned : ¬ (Signers.findById signer.id e).any (fun row => row.status = .signed) = true := by
    rw [found]
    simp [pending]
  exact ⟨_,(if_neg unsigned).trans (bindOk.mpr ⟨_,updated,rfl⟩)⟩

theorem marksCompleted {e : Envelope} (ids : (e.sessions.map SigningSession.id).Nodup) {session : SigningSession}
    (mem : session ∈ e.sessions) (isOpen : session.open = true) (completedAt : Date) :
    ∃ rows, SigningSessions.markCompleted session.id completedAt e = .ok { e with sessions := rows } := by
  have found : SigningSessions.findById session.id e = some session := findsKeyed SigningSession.id ids mem
  have status : session.status ≠ .completed := by
    intro done
    rw [SigningSession.open,done] at isOpen
    exact absurd isOpen (by decide)
  have updated := updatesOne (fun row : SigningSession => row.id = session.id && row.open)
    (fun row => { row with status := .completed, completedAt := some completedAt })
    (.conflict [("reason","session_not_completable")]) ids mem (by simp [isOpen])
    (fun r _ hit => by simp at hit; exact hit.1)
  have running : ¬ (SigningSessions.findById session.id e).any (fun row => row.status = .completed) = true := by
    rw [found]
    simp [status]
  exact ⟨_,(if_neg running).trans (bindOk.mpr ⟨_,updated,rfl⟩)⟩

theorem movesDocument {u : CompleteUnit} {e : Envelope} (version : e.document.version = u.loaded.document.version)
    (available : e.document.state = .sent ∨ e.document.state = .inProgress) :
    ∃ document, u.moveDocument e = .ok { e with document := document } := by
  have state : e.document.state ∈ [.sent,.inProgress] := by simpa using available
  unfold CompleteUnit.moveDocument
  split
  · exact ⟨_,if_pos (by simp [version,available])⟩
  · split
    · exact ⟨_,if_pos (by simp [version,available])⟩
    · exact ⟨e.document,rfl⟩

theorem completeRuns {u : CompleteUnit} {i : Input} {e : Envelope} (h : Signable e) (signer : u.loaded.signer ∈ e.signers)
    (pending : u.loaded.signer.status = .pending) (session : u.loaded.session ∈ e.sessions)
    (isOpen : u.loaded.session.open = true) (document : u.loaded.document = e.document)
    (selected : u.selected.Sublist e.fields) (fresh : ∀ row ∈ e.outbox, row.id ≠ i.ids 0) :
    ∃ e', u.run i e = .ok e' ∧ Aside e e' := by
  obtain ⟨fields,first⟩ := completesFields (u := u) h.fieldIds (fun f mem => List.mem_map_of_mem (selected.subset mem))
  obtain ⟨signers,second⟩ := marksSigned (e := { e with fields := fields }) h.signerIds signer pending u.now
  obtain ⟨sessions,third⟩ := marksCompleted (e := { e with fields := fields, signers := signers }) h.sessionIds session
    isOpen u.now
  obtain ⟨document,fourth⟩ := movesDocument (u := u)
    (e := { e with fields := fields, signers := signers, sessions := sessions })
    (congrArg Document.version document.symm) (availableState h.available)
  have few : u.selected.length ≤ maxKeys := selected.length_le.trans h.few
  have logged := appends u.signed (by simp [CompleteUnit.signed,PayloadValue.approved,few])
    { e with fields := fields, signers := signers, sessions := sessions, document := document }
  exact ⟨_,bindOk.mpr ⟨_,first,bindOk.mpr ⟨_,second,bindOk.mpr ⟨_,third,bindOk.mpr ⟨_,fourth,
    bindOk.mpr ⟨_,logged,publishes fresh⟩⟩⟩⟩⟩,rfl,rfl,rfl⟩

section
variable {settings : Settings}

theorem givesExternal {i : Input} (passed : i.failure = none) (e : Envelope) : Gives Write.exec i e external () e := by
  show (e,i.failure.elim (Except.ok ()) Except.error) = _
  rw [passed]
  rfl

/-- A signer who gives ink and signs all its fields. -/
def signAll (settings : Settings) (tokenHash : Id) (fieldIds : List Id) (ink : Ink) (key : Id) : CompleteSigningInput :=
  ⟨tokenHash,settings.currentDisclosure,true,fieldIds,some (.ok ink),some (.ok ink),some key,none⟩

def ownFields (signer : Signer) (e : Envelope) : List SignatureField :=
  e.fields.filter (fun field => field.signerId = signer.id)

def signAllUnit (settings : Settings) (e : Envelope) (session : SigningSession) (signer : Signer) (ink : Ink)
    (sourceRevisionId : Id) (now : Date) : CompleteUnit where
  loaded := ⟨session,e.document,signer⟩
  roster := Signers.listByDocument e
  selected := ownFields signer e
  signature := some ink
  initials := some ink
  consentCopyId := settings.currentDisclosure
  sourceRevisionId := sourceRevisionId
  now := now

theorem signs {e : Envelope} (h : Signable e) (public_ : settings.requiresAccountAuth = false) {session : SigningSession}
    {signer : Signer} {now : Date} {n : Nat} (unused : Unused n e) (presented : Presentable session signer true now e)
    (turn : canSignerActNow e.document.signingMode signer (Signers.listByDocument e) = true)
    (consented : (ConsentRecords.findBySession session.id e).map ConsentRecord.consentCopyId =
    some settings.currentDisclosure)
    (ink : Ink) : ∃ e₁ e₂ e' sourceRevisionId, Still e e₁ ∧ Still e₂ e' ∧ e'.consents = e.consents ∧
    e'.artifact = e.artifact ∧
      (signAllUnit settings e session signer ink sourceRevisionId now).run (suppliedAt now n 1) e₁ = .ok e₂ ∧
      Gives Write.exec (suppliedAt now n 1) e
        (completeSigning settings (signAll settings session.tokenHash ((ownFields signer e).map SignatureField.id) ink n))
        (.complete (signAllUnit settings e session signer ink sourceRevisionId now).documentCompleted signer.id) e' := by
  obtain ⟨sourceRevisionId,source⟩ := Option.isSome_iff_exists.mp h.revision
  have pending := actorPending turn
  let record : IdempotencyRecord := ⟨n,signer.id,.completeSigning,n,.complete signer.id settings.currentDisclosure
    (sortedIds ((ownFields signer e).map SignatureField.id)) true true,none,
    now + settings.idempotencyTtlMs⟩
  have unbegun : Idempotency.find signer.id .completeSigning n e = none :=
    List.find?_eq_none.mpr fun r mem => by simp [(unused.records r mem).2.ne]
  have begun : Idempotency.create record e = .ok { e with idempotency := e.idempotency ++ [record] } := by
    refine thenOk.mpr ⟨checkOk.mpr ?_,rfl⟩
    rw [Bool.not_eq_true',List.any_eq_false]
    intro r mem
    simp [record,(unused.records r mem).1.ne,(unused.records r mem).2.ne]
  have still : Still e { e with idempotency := e.idempotency ++ [record] } := ⟨rfl,rfl,rfl,rfl,.refl _,rfl,.refl _⟩
  obtain ⟨e₂,ran,aside⟩ := completeRuns (u := signAllUnit settings e session signer ink sourceRevisionId now)
    (i := suppliedAt now n 1) (h.still still) presented.signer pending (List.mem_of_find?_eq_some presented.found)
    presented.isOpen rfl List.filter_sublist (fun row mem => (unused.outbox row mem).ne)
  have once : e₂.idempotency.countP (fun row => row.id = n) = 1 := by
    have none_ : e.idempotency.countP (fun row => row.id = n) = 0 :=
      List.countP_eq_zero.mpr fun r mem => by simp [(unused.records r mem).1.ne]
    rw [aside.records]
    show (e.idempotency ++ [record]).countP _ = 1
    rw [List.countP_append,none_]
    simp [record]
  have answered : ∃ e', Idempotency.complete n (.complete (signAllUnit settings e session signer ink sourceRevisionId
      now).documentCompleted signer.id) e₂ = .ok e' ∧ Still e₂ e' ∧ e'.consents = e₂.consents ∧ e'.artifact =
        e₂.artifact :=
    ⟨_,bindOk.mpr ⟨_,if_pos once,rfl⟩,⟨rfl,rfl,rfl,rfl,.refl _,rfl,.refl _⟩,rfl,rfl⟩
  obtain ⟨e',answered,still',consents,artifact⟩ := answered
  refine ⟨_,e₂,e',sourceRevisionId,still,still',consents.trans aside.consents,artifact.trans aside.artifact,ran,?_⟩
  refine givesBind (givesEnsure rfl)
    (givesBind (loads h public_ presented) (givesBind (givesGet _ e) (givesBind (givesGet _ e) ?_)))
  rw [if_neg (by rw [pending]; decide)]
  refine givesBind (givesEnsure turn) (givesBind (givesGet _ e) (givesBind (givesEnsure (decide_eq_true consented)) ?_))
  refine givesBind (givesLift (selectsAll (h.fieldIds.sublist (List.filter_sublist.map _)))) ?_
  refine givesBind (givesLift rfl)
    (givesBind (givesLift rfl) (givesBind (givesLift (inkForFields.mpr ⟨fun _ => rfl,fun _ => rfl⟩)) ?_))
  refine givesBind (givesLift rfl) (givesBind (givesGet _ e) ?_)
  have begins : Gives Write.exec (suppliedAt now n 1) e (replayOrBeginIdempotency settings ⟨signer.id,.completeSigning,n,
      record.request,now,true⟩) (.record n) { e with idempotency := e.idempotency ++ [record] } := by
    refine givesBind (givesGet _ e) ?_
    simp only [unbegun]
    exact givesBind (givesGet _ e) (givesBind (givesPerform (executes rfl begun)) rfl)
  refine givesBind begins ?_
  have known : (e.document.currentRevisionId <|> e.document.signingRevisionId).elim
      (.error (AppError.validation [("reason","missing_revision")])) Except.ok = .ok sourceRevisionId := by
    rw [source]
    rfl
  refine givesBind (givesGet _ _) (givesBind (givesExternal rfl _) (givesBind (givesLift known) ?_))
  exact givesBind (givesPerform (executes rfl ran)) (givesBind (givesPerform (executes rfl answered)) (givesPure _ _))

end

end ESign
