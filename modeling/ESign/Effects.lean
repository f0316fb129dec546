import ESign.UnitsOfWork

/-! What the units of work do to the rows. Each statement is described by the one
table it changes; each unit by the relation between the tables before and after.
Sessions and signers only move forward: a closed session and a signer who has
acted are never changed again. -/
namespace ESign

structure SessionLater (s s' : SigningSession) : Prop where
  id : s'.id = s.id
  signerId : s'.signerId = s.signerId
  closed : s.open = false → s'.status = s.status

/-- How session rows move under everything but a completed signing. -/
structure SessionsMoved (rows rows' : List SigningSession) : Prop where
  later : ∀ s ∈ rows, ∃ s' ∈ rows', SessionLater s s'
  completed : ∀ s' ∈ rows', s'.status = .completed → ∃ s ∈ rows, s.status = .completed ∧ s.signerId = s'.signerId
  distinct : (rows.map SigningSession.id).Nodup → (rows'.map SigningSession.id).Nodup

theorem SessionLater.refl (s : SigningSession) : SessionLater s s := ⟨rfl,rfl,fun _ => rfl⟩

theorem openStatus {s : SigningSession} : s.open = false ↔ s.status ≠ .issued ∧ s.status ≠ .active := by
  unfold SigningSession.open
  cases s.status <;> simp

theorem SessionLater.trans {a b c} (left : SessionLater a b) (right : SessionLater b c) : SessionLater a c := by
  refine ⟨right.id.trans left.id,right.signerId.trans left.signerId,fun closed => ?_⟩
  have same := left.closed closed
  rw [← same]
  exact right.closed (by rw [openStatus] at closed ⊢; rwa [same])

theorem SessionsMoved.refl (rows : List SigningSession) : SessionsMoved rows rows :=
  ⟨fun s mem => ⟨s,mem,.refl s⟩,fun s mem done => ⟨s,mem,done,rfl⟩,id⟩

theorem SessionsMoved.trans {a b c} (left : SessionsMoved a b) (right : SessionsMoved b c) : SessionsMoved a c where
  later := by
    intro s mem
    obtain ⟨s',mem',first⟩ := left.later s mem
    obtain ⟨s'',mem'',second⟩ := right.later s' mem'
    exact ⟨s'',mem'',first.trans second⟩
  completed := by
    intro s'' mem'' done
    obtain ⟨s',mem',done',same'⟩ := right.completed s'' mem'' done
    obtain ⟨s,mem,done,same⟩ := left.completed s' mem' done'
    exact ⟨s,mem,done,same.trans same'⟩
  distinct := fun h => right.distinct (left.distinct h)

theorem sessionsMapped {rows : List SigningSession} {clause : SigningSession → Bool} {data : SigningSession → SigningSession}
    (onlyOpen : ∀ s ∈ rows, clause s = true → s.open = true)
    (kept : ∀ s, (data s).id = s.id ∧ (data s).signerId = s.signerId ∧ (data s).status ≠ .completed) :
    SessionsMoved rows (rows.map (fun row => if clause row then data row else row)) where
  later := by
    intro s mem
    refine ⟨_,List.mem_map_of_mem mem,?_⟩
    split
    · rename_i hit
      obtain ⟨id,signerId,-⟩ := kept s
      exact ⟨id,signerId,fun closed => by rw [onlyOpen s mem hit] at closed; cases closed⟩
    · exact .refl s
  completed := by
    intro s' mem' done
    obtain ⟨s,mem,rfl⟩ := List.mem_map.mp mem'
    split at done
    · exact absurd done (kept s).2.2
    · rename_i miss
      exact ⟨s,mem,done,by rw [if_neg miss]⟩
  distinct := by
    have same : (rows.map (fun row => if clause row then data row else row)).map SigningSession.id =
        rows.map SigningSession.id := by
      rw [List.map_map]
      refine List.map_congr_left (fun s _ => ?_)
      simp only [Function.comp]
      split
      · exact (kept s).1
      · rfl
    rw [same]
    exact id

/-- Only session rows change, and none is added. -/
def SessionEffect (e e' : Envelope) : Prop :=
  ∃ rows, e' = { e with sessions := rows } ∧ SessionsMoved e.sessions rows ∧ (e.sessions = [] → rows = [])

theorem SessionEffect.refl (e : Envelope) : SessionEffect e e := ⟨e.sessions,rfl,.refl _,id⟩

theorem SessionEffect.trans {a b c} (left : SessionEffect a b) (right : SessionEffect b c) : SessionEffect a c := by
  obtain ⟨rows,rfl,first,idle⟩ := left
  obtain ⟨rows',rfl,second,idle'⟩ := right
  exact ⟨rows',rfl,first.trans second,fun empty => idle' (idle empty)⟩

theorem sessionUpdated {clause : SigningSession → Bool} {data error e rows}
    (ok : updateOne clause data error e.sessions = .ok rows) (onlyOpen : ∀ s, clause s = true → s.open = true)
    (kept : ∀ s, (data s).id = s.id ∧ (data s).signerId = s.signerId ∧ (data s).status ≠ .completed) :
    SessionEffect e { e with sessions := rows } := by
  obtain ⟨rfl,-⟩ := updateOneOk ok
  exact ⟨_,rfl,sessionsMapped (fun s _ => onlyOpen s) kept,fun empty => by simp [empty]⟩

theorem revokeEffect {sessionId revokedAt e e'} (ok : SigningSessions.revoke sessionId revokedAt e = .ok e') :
    SessionEffect e e' := by
  obtain ⟨rows,updated,last⟩ := bindOk.mp ok
  cases last
  exact sessionUpdated updated (fun s hit => by simp_all) (fun s => by simp)

theorem markExpiredEffect {sessionId e e'} (ok : SigningSessions.markExpired sessionId e = .ok e') :
    SessionEffect e e' := by
  obtain ⟨rows,updated,last⟩ := bindOk.mp ok
  cases last
  exact sessionUpdated updated (fun s hit => by simp_all) (fun s => by simp)

theorem consumeEffect {sessionId version tokenHash csrfTokenHash consumedAt e e'}
    (ok : SigningSessions.consumeAndRotate sessionId version tokenHash csrfTokenHash consumedAt e = .ok e') :
    SessionEffect e e' := by
  obtain ⟨rows,updated,ok⟩ := bindOk.mp ok
  obtain ⟨_,_,last⟩ := bindOk.mp ok
  cases last
  exact sessionUpdated updated (fun s hit => by simp_all) (fun s => by simp)

/- `markPresented` writes by id alone, after it looked at the row it found: the row
is the only one with that id. -/
theorem markPresentedEffect {sessionId presentedAt e e'} (ids : (e.sessions.map SigningSession.id).Nodup)
    (ok : SigningSessions.markPresented sessionId presentedAt e = .ok e') : SessionEffect e e' := by
  unfold SigningSessions.markPresented at ok
  split at ok <;> try contradiction
  rename_i existing found
  split at ok <;> try contradiction
  rename_i presentable
  cases ok
  have mem := List.mem_of_find?_eq_some found
  have named : existing.id = sessionId := by simpa using List.find?_some found
  have onlyOpen : ∀ s ∈ e.sessions, decide (s.id = sessionId) = true → s.open = true := by
    intro s other same
    have equal : s = existing := List.inj_on_of_nodup_map ids other mem (by rw [named]; exact of_decide_eq_true same)
    subst equal
    simpa [SigningSession.open] using presentable
  have moved : SessionsMoved e.sessions (e.sessions.map (fun row => if decide (row.id = sessionId) then
      { row with status := .active, lastPresentedAt := some presentedAt } else row)) :=
    sessionsMapped onlyOpen (fun s => by simp)
  refine ⟨_,rfl,?_,fun empty => by simp [empty]⟩
  simpa using moved

theorem createSessionEffect {session e e'} (status : session.status = .issued)
    (ok : SigningSessions.create session e = .ok e') :
    ∃ rows, e' = { e with sessions := rows } ∧ SessionsMoved e.sessions rows := by
  obtain ⟨_,first,ok⟩ := bindOk.mp ok
  obtain ⟨_,_,ok⟩ := bindOk.mp ok
  obtain ⟨_,_,last⟩ := bindOk.mp ok
  cases last
  have fresh : ∀ s ∈ e.sessions, s.id ≠ session.id := by
    intro s mem same
    have := checkOk.mp first
    simp at this
    exact (this s mem).1 same
  refine ⟨_,rfl,⟨?_,?_,?_⟩⟩
  · exact fun s mem => ⟨s,List.mem_append_left _ mem,.refl s⟩
  · intro s mem done
    rcases List.mem_append.mp mem with old | new
    · exact ⟨s,old,done,rfl⟩
    · rw [List.mem_singleton.mp new,status] at done
      cases done
  · exact fun distinct => keysAppended distinct fresh

theorem revokeIfOpenEffect {revokedAt session e e'} (ok : revokeIfOpen revokedAt session e = .ok e') :
    SessionEffect e e' := by
  unfold revokeIfOpen at ok
  split at ok
  · exact revokeEffect ok
  · cases ok; exact .refl _

theorem revokeOpenEffect {revokedAt list} {e e' : Envelope} (ok : revokeOpen revokedAt list e = .ok e') :
    SessionEffect e e' := by
  induction list generalizing e with
  | nil => cases ok; exact .refl _
  | cons session rest ih =>
    rw [revokeOpen] at ok
    obtain ⟨mid,first,ok⟩ := bindOk.mp ok
    exact (revokeIfOpenEffect first).trans (ih ok)

theorem revokeOpenCloses {revokedAt list} {e e' : Envelope} (ok : revokeOpen revokedAt list e = .ok e')
    (covered : ∀ s ∈ e.sessions, s.open = true → ∃ x ∈ list, x.id = s.id ∧ x.open = true) :
    ∀ s ∈ e'.sessions, s.open = false := by
  induction list generalizing e with
  | nil =>
    cases ok
    intro s mem
    cases isOpen : s.open with
    | false => rfl
    | true => obtain ⟨x,none,_⟩ := covered s mem isOpen; cases none
  | cons session rest ih =>
    rw [revokeOpen] at ok
    obtain ⟨mid,first,ok⟩ := bindOk.mp ok
    refine ih ok ?_
    unfold revokeIfOpen at first
    split at first
    · obtain ⟨rows,updated,last⟩ := bindOk.mp first
      cases last
      obtain ⟨rfl,-⟩ := updateOneOk updated
      intro s mem isOpen
      obtain ⟨old,oldMem,rfl⟩ := List.mem_map.mp mem
      by_cases hit : (decide (old.id = session.id) && old.open) = true
      · rw [if_pos hit] at isOpen
        simp [SigningSession.open] at isOpen
      · rw [if_neg hit] at isOpen ⊢
        obtain ⟨x,xMem,same,xOpen⟩ := covered old oldMem isOpen
        rcases List.mem_cons.mp xMem with rfl | later
        · simp [same,isOpen] at hit
        · exact ⟨x,later,same,xOpen⟩
    · rename_i notOpen
      cases first
      intro s mem isOpen
      obtain ⟨x,xMem,same,xOpen⟩ := covered s mem isOpen
      rcases List.mem_cons.mp xMem with rfl | later
      · exact absurd xOpen notOpen
      · exact ⟨x,later,same,xOpen⟩

/-- How a completed signing moves the session rows: `sessionId` was open, or was
completed before and nothing moves. -/
structure SessionsCompleted (sessionId : Id) (rows rows' : List SigningSession) : Prop where
  later : ∀ s ∈ rows, ∃ s' ∈ rows', SessionLater s s'
  completed : ∀ s' ∈ rows', s'.status = .completed →
    ∃ s ∈ rows, s.signerId = s'.signerId ∧ (s.id = sessionId ∨ s.status = .completed)
  found : ∃ s ∈ rows, s.id = sessionId ∧ (s.open = true ∨ s.status = .completed)
  distinct : (rows.map SigningSession.id).Nodup → (rows'.map SigningSession.id).Nodup

theorem markCompletedEffect {sessionId completedAt e e'}
    (ok : SigningSessions.markCompleted sessionId completedAt e = .ok e') :
    ∃ rows, e' = { e with sessions := rows } ∧ SessionsCompleted sessionId e.sessions rows := by
  unfold SigningSessions.markCompleted at ok
  split at ok
  · rename_i done
    cases ok
    refine ⟨e.sessions,rfl,fun s mem => ⟨s,mem,.refl s⟩,fun s mem h => ⟨s,mem,rfl,.inr h⟩,?_,id⟩
    cases found : SigningSessions.findById sessionId e with
    | none => rw [found] at done; cases done
    | some row =>
      rw [found] at done
      exact ⟨row,List.mem_of_find?_eq_some found,by simpa using List.find?_some found,.inr (by simpa using done)⟩
  · obtain ⟨rows,updated,last⟩ := bindOk.mp ok
    cases last
    obtain ⟨rfl,row,mem,hit⟩ := updateOneOk updated
    simp only [Bool.and_eq_true,decide_eq_true_eq] at hit
    refine ⟨_,rfl,?_,?_,⟨row,mem,hit.1,.inl hit.2⟩,?_⟩
    · intro s mem
      refine ⟨_,List.mem_map_of_mem mem,?_⟩
      split
      · rename_i hit
        exact ⟨rfl,rfl,fun closed => by simp [closed] at hit⟩
      · exact .refl s
    · intro s' mem' done
      obtain ⟨s,mem,rfl⟩ := List.mem_map.mp mem'
      split at done
      · rename_i hit
        simp only [Bool.and_eq_true,decide_eq_true_eq] at hit
        exact ⟨s,mem,by simp [hit],.inl hit.1⟩
      · rename_i miss
        exact ⟨s,mem,by rw [if_neg miss],.inr done⟩
    · intro distinct
      rw [List.map_map]
      have same : e.sessions.map (SigningSession.id ∘ fun row => if decide (row.id = sessionId) && row.open then
          { row with status := .completed, completedAt := some completedAt } else row) =
          e.sessions.map SigningSession.id := by
        refine List.map_congr_left (fun s _ => ?_)
        simp only [Function.comp]
        split <;> rfl
      rw [same]
      exact distinct

structure SignerLater (s s' : Signer) : Prop where
  id : s'.id = s.id
  routingOrder : s'.routingOrder = s.routingOrder
  identity : s'.accountUserId = s.accountUserId ∧ s'.email = s.email ∧ s'.displayName = s.displayName
  acted : s.status ≠ .pending → s' = s

theorem SignerLater.refl (s : Signer) : SignerLater s s := ⟨rfl,rfl,⟨rfl,rfl,rfl⟩,fun _ => rfl⟩

theorem SignerLater.trans {a b c} (left : SignerLater a b) (right : SignerLater b c) : SignerLater a c where
  id := right.id.trans left.id
  routingOrder := right.routingOrder.trans left.routingOrder
  identity := ⟨right.identity.1.trans left.identity.1,right.identity.2.1.trans left.identity.2.1,
    right.identity.2.2.trans left.identity.2.2⟩
  acted := by
    intro acted
    have same := left.acted acted
    subst same
    exact right.acted acted

abbrev SignersLater (rows rows' : List Signer) : Prop := List.Forall₂ SignerLater rows rows'

theorem SignersLater.refl (rows : List Signer) : SignersLater rows rows := List.forall₂_same.mpr (fun s _ => .refl s)

theorem SignersLater.trans {a b c} (left : SignersLater a b) (right : SignersLater b c) : SignersLater a c := by
  induction left generalizing c with
  | nil => cases right; exact .nil
  | cons first _ ih => cases right with
    | cons second rest => exact .cons (first.trans second) (ih rest)

theorem SignersLater.mem {rows rows'} (h : SignersLater rows rows') : ∀ s ∈ rows, ∃ s' ∈ rows', SignerLater s s' := by
  induction h with
  | nil => simp
  | cons first _ ih =>
    intro s mem
    rcases List.mem_cons.mp mem with rfl | mem
    · exact ⟨_,List.mem_cons_self,first⟩
    · obtain ⟨s',mem',later⟩ := ih s mem
      exact ⟨s',List.mem_cons_of_mem _ mem',later⟩

theorem SignersLater.source {rows rows'} (h : SignersLater rows rows') : ∀ s' ∈ rows', ∃ s ∈ rows, SignerLater s s' := by
  induction h with
  | nil => simp
  | cons first _ ih =>
    intro s' mem
    rcases List.mem_cons.mp mem with rfl | mem
    · exact ⟨_,List.mem_cons_self,first⟩
    · obtain ⟨s,mem',later⟩ := ih s' mem
      exact ⟨s,List.mem_cons_of_mem _ mem',later⟩

theorem SignersLater.ids {rows rows'} (h : SignersLater rows rows') : rows'.map Signer.id = rows.map Signer.id := by
  induction h with
  | nil => rfl
  | cons first _ ih => simp [first.id,ih]

theorem SignersLater.empty {rows rows'} (h : SignersLater rows rows') : rows' = [] ↔ rows = [] := by
  cases h <;> simp

/-- The signer rows after `signerId`, and nobody else, has acted. -/
def act (signerId : Id) (data : Signer → Signer) (rows : List Signer) : List Signer :=
  rows.map (fun row => if row.id = signerId then data row else row)

theorem updatedById {signerId : Id} {version : Nat} {data error} {rows out : List Signer}
    (ids : (rows.map Signer.id).Nodup)
    (ok : updateOne (fun row => row.id = signerId ∧ row.version = version ∧ row.status = .pending) data error rows = .ok out) :
    out = act signerId data rows ∧ ∃ row ∈ rows, row.id = signerId ∧ row.version = version ∧ row.status = .pending := by
  obtain ⟨rfl,row,mem,hit⟩ := updateOneOk ok
  have named := of_decide_eq_true hit
  refine ⟨List.map_congr_left (fun other otherMem => ?_),row,mem,named⟩
  by_cases same : other.id = signerId
  · have equal : other = row := List.inj_on_of_nodup_map ids otherMem mem (by rw [same,named.1])
    subst equal
    simp [named]
  · simp [same]

def signedRow (completedAt : Date) (row : Signer) : Signer :=
  { row with status := .signed, completedAt := some completedAt, version := row.version+1 }

def declinedRow (declinedAt : Date) (row : Signer) : Signer :=
  { row with status := .declined, declinedAt := some declinedAt, version := row.version+1 }

theorem markSignedFrame {signerId version completedAt e e'} (ok : Signers.markSigned signerId version completedAt e = .ok e') :
    ∃ rows, e' = { e with signers := rows } := by
  unfold Signers.markSigned at ok
  split at ok
  · cases ok
    exact ⟨e.signers,rfl⟩
  · obtain ⟨rows,-,last⟩ := bindOk.mp ok
    cases last
    exact ⟨rows,rfl⟩

theorem markSignedEffect {signerId version completedAt e e'} (ids : (e.signers.map Signer.id).Nodup)
    (ok : Signers.markSigned signerId version completedAt e = .ok e') :
    (e' = e ∧ ∃ row ∈ e.signers, row.id = signerId ∧ row.status = .signed) ∨
    (e' = { e with signers := act signerId (signedRow completedAt) e.signers } ∧
      ∃ row ∈ e.signers, row.id = signerId ∧ row.version = version ∧ row.status = .pending) := by
  unfold Signers.markSigned at ok
  split at ok
  · rename_i done
    cases ok
    refine .inl ⟨rfl,?_⟩
    cases found : Signers.findById signerId e with
    | none => rw [found] at done; cases done
    | some row =>
      rw [found] at done
      exact ⟨row,List.mem_of_find?_eq_some found,by simpa using List.find?_some found,by simpa using done⟩
  · obtain ⟨rows,updated,last⟩ := bindOk.mp ok
    cases last
    obtain ⟨rfl,row⟩ := updatedById ids updated
    exact .inr ⟨rfl,row⟩

theorem markDeclinedEffect {signerId version declinedAt e e'} (ids : (e.signers.map Signer.id).Nodup)
    (ok : Signers.markDeclined signerId version declinedAt e = .ok e') :
    e' = { e with signers := act signerId (declinedRow declinedAt) e.signers } ∧
      ∃ row ∈ e.signers, row.id = signerId ∧ row.version = version ∧ row.status = .pending := by
  obtain ⟨rows,updated,last⟩ := bindOk.mp ok
  cases last
  obtain ⟨rfl,row⟩ := updatedById ids updated
  exact ⟨rfl,row⟩

theorem actLater {signerId : Id} {data rows} (ids : (rows.map Signer.id).Nodup)
    (pending : ∃ row ∈ rows, row.id = signerId ∧ row.status = .pending)
    (kept : ∀ row, (data row).id = row.id ∧ (data row).routingOrder = row.routingOrder ∧
      (data row).accountUserId = row.accountUserId ∧ (data row).email = row.email ∧
      (data row).displayName = row.displayName) : SignersLater rows (act signerId data rows) := by
  unfold act SignersLater
  rw [List.forall₂_map_right_iff,List.forall₂_same]
  intro s mem
  split
  · rename_i same
    obtain ⟨id,order,user,email,name⟩ := kept s
    refine ⟨id,order,⟨user,email,name⟩,fun acted => ?_⟩
    obtain ⟨row,rowMem,named,isPending⟩ := pending
    have equal : s = row := List.inj_on_of_nodup_map ids mem rowMem (by rw [same,named])
    subst equal
    exact absurd isPending acted
  · exact .refl s

theorem actMem {signerId : Id} {data rows} {s' : Signer} (mem : s' ∈ act signerId data rows) :
    ∃ s ∈ rows, (s.id = signerId ∧ s' = data s) ∨ (s.id ≠ signerId ∧ s' = s) := by
  obtain ⟨s,found,rfl⟩ := List.mem_map.mp mem
  by_cases same : s.id = signerId
  · exact ⟨s,found,.inl ⟨same,if_pos same⟩⟩
  · exact ⟨s,found,.inr ⟨same,if_neg same⟩⟩

def marks (type : AuditEventType) : Bool := type = .signerSigned ∨ type = .signerDeclined ∨ type = .documentVoided

def Logged (audit audit' : List NewAuditEvent) : Prop :=
  ∃ events, audit' = audit ++ events ∧ ∀ event ∈ events, marks event.type = false

theorem Logged.refl (audit : List NewAuditEvent) : Logged audit audit := ⟨[],by simp,by simp⟩

theorem Logged.trans {a b c} (left : Logged a b) (right : Logged b c) : Logged a c := by
  obtain ⟨first,rfl,quiet⟩ := left
  obtain ⟨second,rfl,quiet'⟩ := right
  refine ⟨first ++ second,by simp,?_⟩
  intro event mem
  rcases List.mem_append.mp mem with h | h
  · exact quiet event h
  · exact quiet' event h

theorem appendEffect {event e e'} (ok : Audit.append event e = .ok e') :
    e' = { e with audit := e.audit ++ [event] } := by
  obtain ⟨_,_,last⟩ := bindOk.mp ok
  cases last
  rfl

theorem publishEffect {event e e'} (ok : Jobs.publish event e = .ok e') :
    e' = { e with outbox := e.outbox ++ [event] } := by
  obtain ⟨_,_,last⟩ := bindOk.mp ok
  cases last
  rfl

theorem updateDocumentOk {clause data error e e'} (ok : updateDocument clause data error e = .ok e') :
    clause e.document = true ∧
      e' = { e with document := { data e.document with version := e.document.version+1 } } := by
  unfold updateDocument at ok
  split at ok <;> try contradiction
  rename_i hit
  cases ok
  exact ⟨hit,rfl⟩

/-- Nothing moves but sessions, the log, and tables that no rule reads. -/
structure Still (e e' : Envelope) : Prop where
  document : e'.document = e.document
  revisions : e'.revisions = e.revisions
  signers : e'.signers = e.signers
  fields : e'.fields = e.fields
  sessions : SessionsMoved e.sessions e'.sessions
  outbox : e'.outbox = e.outbox
  audit : Logged e.audit e'.audit

structure Quiet (e e' : Envelope) : Prop extends Still e e' where
  idle : e.sessions = [] → e'.sessions = []

theorem Still.trans {a b c} (left : Still a b) (right : Still b c) : Still a c :=
  ⟨right.document.trans left.document,right.revisions.trans left.revisions,right.signers.trans left.signers,
    right.fields.trans left.fields,left.sessions.trans right.sessions,right.outbox.trans left.outbox,
    left.audit.trans right.audit⟩

theorem Quiet.refl (e : Envelope) : Quiet e e := ⟨⟨rfl,rfl,rfl,rfl,.refl _,rfl,.refl _⟩,id⟩

theorem Quiet.trans {a b c} (left : Quiet a b) (right : Quiet b c) : Quiet a c :=
  ⟨left.toStill.trans right.toStill,fun empty => right.idle (left.idle empty)⟩

theorem SessionEffect.quiet {e e'} (h : SessionEffect e e') : Quiet e e' := by
  obtain ⟨rows,rfl,moved,idle⟩ := h
  exact ⟨⟨rfl,rfl,rfl,rfl,moved,rfl,.refl _⟩,idle⟩

theorem SessionEffect.artifact {e e'} (h : SessionEffect e e') : e'.artifact = e.artifact := by
  obtain ⟨rows,rfl,-⟩ := h
  rfl

theorem appendQuiet {event e e'} (ok : Audit.append event e = .ok e') (unmarked : marks event.type = false) :
    Quiet e e' ∧ e'.artifact = e.artifact := by
  cases appendEffect ok
  exact ⟨⟨⟨rfl,rfl,rfl,rfl,.refl _,rfl,⟨[event],rfl,by simpa using unmarked⟩⟩,id⟩,rfl⟩

theorem revokeAllQuiet {u : RotateUnit} {list e e'} (ok : u.revokeAll list e = .ok e') :
    Quiet e e' ∧ e'.artifact = e.artifact := by
  induction list generalizing e with
  | nil => cases ok; exact ⟨.refl _,rfl⟩
  | cons session rest ih =>
    rw [RotateUnit.revokeAll] at ok
    obtain ⟨e₁,first,ok⟩ := bindOk.mp ok
    obtain ⟨e₂,second,ok⟩ := bindOk.mp ok
    obtain ⟨logged,same⟩ := appendQuiet second rfl
    obtain ⟨rest,same'⟩ := ih ok
    exact ⟨(revokeEffect first).quiet.trans (logged.trans rest),
      same'.trans (same.trans (revokeEffect first).artifact)⟩

theorem rotateStill {u : RotateUnit} {e e'} (ok : u.run e = .ok e') : Still e e' ∧ e'.artifact = e.artifact := by
  obtain ⟨e₁,first,ok⟩ := bindOk.mp ok
  obtain ⟨revoked,same⟩ := revokeAllQuiet first
  obtain ⟨e₂,second,ok⟩ := bindOk.mp ok
  obtain ⟨rows,rfl,moved⟩ := createSessionEffect rfl second
  obtain ⟨logged,same'⟩ := appendQuiet ok rfl
  have created : Still e₁ { e₁ with sessions := rows } := ⟨rfl,rfl,rfl,rfl,moved,rfl,.refl _⟩
  exact ⟨revoked.toStill.trans (created.trans logged.toStill),same'.trans same⟩

theorem SessionEffect.logged {e e₁ e' : Envelope} {event} (first : SessionEffect e e₁)
    (ok : Audit.append event e₁ = .ok e') (unmarked : marks event.type = false) :
    Quiet e e' ∧ e'.artifact = e.artifact := by
  obtain ⟨logged,same⟩ := appendQuiet ok unmarked
  exact ⟨first.quiet.trans logged,same.trans first.artifact⟩

theorem revokeQuiet {u : RevokeUnit} {e e'} (ok : u.run e = .ok e') : Quiet e e' ∧ e'.artifact = e.artifact := by
  obtain ⟨e₁,first,ok⟩ := bindOk.mp ok
  exact (revokeEffect first).logged ok rfl

theorem exchangeQuiet {u : ExchangeUnit} {e e'} (ok : u.run e = .ok e') : Quiet e e' ∧ e'.artifact = e.artifact := by
  obtain ⟨e₁,first,ok⟩ := bindOk.mp ok
  exact (consumeEffect first).logged ok rfl

theorem viewedQuiet {u : ViewedUnit} {e e'} (ids : (e.sessions.map SigningSession.id).Nodup)
    (ok : u.run e = .ok e') : Quiet e e' ∧ e'.artifact = e.artifact := by
  obtain ⟨e₁,first,ok⟩ := bindOk.mp ok
  exact (markPresentedEffect ids first).logged ok rfl

theorem consentQuiet {u : ConsentUnit} {e e'} (ok : u.run e = .ok e') : Quiet e e' ∧ e'.artifact = e.artifact := by
  obtain ⟨e₁,first,ok⟩ := bindOk.mp ok
  obtain ⟨_,_,last⟩ := bindOk.mp first
  cases last
  cases appendEffect ok
  exact ⟨⟨⟨rfl,rfl,rfl,rfl,.refl _,rfl,⟨_,rfl,by simp [marks]⟩⟩,id⟩,rfl⟩

theorem abandonQuiet {u : AbandonUnit} {e e'} (ok : u.run e = .ok e') : Quiet e e' ∧ e'.artifact = e.artifact := by
  obtain ⟨e₁,first,ok⟩ := bindOk.mp ok
  obtain ⟨rows,_,last⟩ := bindOk.mp first
  cases last
  cases appendEffect ok
  exact ⟨⟨⟨rfl,rfl,rfl,rfl,.refl _,rfl,⟨_,rfl,by simp [marks]⟩⟩,id⟩,rfl⟩

theorem persistQuiet {u : PersistUnit} {e e'} (ok : u.run e = .ok e') :
    Quiet e e' ∧ (e'.artifact = e.artifact ∨ e.artifact = none) := by
  unfold PersistUnit.run at ok
  split at ok
  · cases ok; exact ⟨.refl _,.inl rfl⟩
  · rename_i missing
    obtain ⟨e₁,first,ok⟩ := bindOk.mp ok
    obtain ⟨_,_,last⟩ := bindOk.mp first
    cases last
    cases appendEffect ok
    exact ⟨⟨⟨rfl,rfl,rfl,rfl,.refl _,rfl,⟨_,rfl,by simp [marks]⟩⟩,id⟩,.inr missing⟩

/-- A field row before and after the fields in `ids` were completed. -/
structure FieldCompleted (ids : List Id) (f f' : SignatureField) : Prop where
  kept : f' = { f with completion := f'.completion }
  only : f.id ∉ ids → f' = f

structure CompleteEffect (u : CompleteUnit) (i : Input) (e e' : Envelope) : Prop where
  fields : List.Forall₂ (FieldCompleted (u.selected.map SignatureField.id)) e.fields e'.fields
  revisions : e'.revisions = e.revisions
  artifact : e'.artifact = e.artifact
  audit : e'.audit = e.audit ++ [u.signed]
  outbox : e'.outbox = e.outbox ++ [u.job i]
  sessions : SessionsCompleted u.loaded.session.id e.sessions e'.sessions
  signers : (e'.signers = e.signers ∧ ∃ row ∈ e.signers, row.id = u.loaded.signer.id ∧ row.status = .signed) ∨
    (e'.signers = act u.loaded.signer.id (signedRow u.now) e.signers ∧
      ∃ row ∈ e.signers, row.id = u.loaded.signer.id ∧ row.version = u.loaded.signer.version ∧ row.status = .pending)
  document : (u.documentCompleted = true ∧ e.document.version = u.loaded.document.version ∧
      e.document.state ∈ [.sent,.inProgress] ∧
      e'.document = { e.document with state := .completed, version := e.document.version+1 }) ∨
    (u.documentCompleted = false ∧ u.loaded.document.state = .sent ∧ e.document.version = u.loaded.document.version ∧
      e.document.state ∈ [.sent,.inProgress] ∧
      e'.document = { e.document with state := .inProgress, version := e.document.version+1 }) ∨
    (u.documentCompleted = false ∧ u.loaded.document.state ≠ .sent ∧ e'.document = e.document)

theorem forall₂Trans {α : Type} {P Q R : α → α → Prop} (compose : ∀ a b c, P a b → Q b c → R a c) {l₁ l₂ l₃ : List α}
    (left : List.Forall₂ P l₁ l₂) (right : List.Forall₂ Q l₂ l₃) : List.Forall₂ R l₁ l₃ := by
  induction left generalizing l₃ with
  | nil => cases right; exact .nil
  | cons first _ ih => cases right with
    | cons second rest => exact .cons (compose _ _ _ first second) (ih rest)

theorem forall₂Source {α : Type} {R : α → α → Prop} {rows rows' : List α} (h : List.Forall₂ R rows rows') :
    ∀ s' ∈ rows', ∃ s ∈ rows, R s s' := by
  induction h with
  | nil => simp
  | cons first _ ih =>
    intro s' mem
    rcases List.mem_cons.mp mem with rfl | mem
    · exact ⟨_,List.mem_cons_self,first⟩
    · obtain ⟨s,found,row⟩ := ih s' mem
      exact ⟨s,List.mem_cons_of_mem _ found,row⟩

theorem fieldUpdated {fieldId : Id} {completion : FieldCompletion} {error} {rows out : List SignatureField}
    (ok : updateOne (fun row => row.id = fieldId) (fun row => { row with completion := some completion }) error rows = .ok out) :
    List.Forall₂ (FieldCompleted [fieldId]) rows out := by
  obtain ⟨rfl,-⟩ := updateOneOk ok
  rw [List.forall₂_map_right_iff,List.forall₂_same]
  intro f _
  by_cases same : f.id = fieldId
  · exact ⟨by simp [same],fun other => absurd (by simp [same]) other⟩
  · exact ⟨by simp [same],fun _ => by simp [same]⟩

theorem FieldCompleted.trans {ids ids' all : List Id} (left : ∀ id ∈ ids, id ∈ all) (right : ∀ id ∈ ids', id ∈ all)
    (a b c : SignatureField) (first : FieldCompleted ids a b) (second : FieldCompleted ids' b c) :
    FieldCompleted all a c := by
  refine ⟨?_,fun other => ?_⟩
  · rw [second.kept,first.kept]
  · have same := first.only (fun mem => other (left _ mem))
    subst same
    exact second.only (fun mem => other (right _ mem))

theorem completeFieldsEffect {u : CompleteUnit} {list e e'} (ok : u.completeFields list e = .ok e') :
    ∃ rows, e' = { e with fields := rows } ∧
      List.Forall₂ (FieldCompleted (list.map SignatureField.id)) e.fields rows := by
  induction list generalizing e with
  | nil => cases ok; exact ⟨_,rfl,List.forall₂_same.mpr (fun f _ => ⟨rfl,fun _ => rfl⟩)⟩
  | cons field rest ih =>
    rw [CompleteUnit.completeFields] at ok
    obtain ⟨e₁,first,ok⟩ := bindOk.mp ok
    obtain ⟨rows,updated,last⟩ := bindOk.mp first
    cases last
    obtain ⟨rows',rfl,later⟩ := ih ok
    exact ⟨rows',rfl,forall₂Trans (FieldCompleted.trans (by simp) (fun _ mem => List.mem_cons_of_mem _ mem))
      (fieldUpdated updated) later⟩

theorem moveDocumentEffect {u : CompleteUnit} {e e'} (ok : u.moveDocument e = .ok e') :
    ∃ document, e' = { e with document := document } ∧
      ((u.documentCompleted = true ∧ e.document.version = u.loaded.document.version ∧
          e.document.state ∈ [.sent,.inProgress] ∧
          document = { e.document with state := .completed, version := e.document.version+1 }) ∨
        (u.documentCompleted = false ∧ u.loaded.document.state = .sent ∧
          e.document.version = u.loaded.document.version ∧ e.document.state ∈ [.sent,.inProgress] ∧
          document = { e.document with state := .inProgress, version := e.document.version+1 }) ∨
        (u.documentCompleted = false ∧ u.loaded.document.state ≠ .sent ∧ document = e.document)) := by
  unfold CompleteUnit.moveDocument at ok
  split at ok
  · rename_i done
    obtain ⟨hit,rfl⟩ := updateDocumentOk ok
    obtain ⟨version,state⟩ := of_decide_eq_true hit
    exact ⟨_,rfl,.inl ⟨done,version,state,rfl⟩⟩
  · rename_i open_
    have unfinished : u.documentCompleted = false := by simpa using open_
    split at ok
    · rename_i sent
      obtain ⟨hit,rfl⟩ := updateDocumentOk ok
      obtain ⟨version,state⟩ := of_decide_eq_true hit
      exact ⟨_,rfl,.inr (.inl ⟨unfinished,sent,version,state,rfl⟩)⟩
    · rename_i moved
      cases ok
      exact ⟨_,rfl,.inr (.inr ⟨unfinished,moved,rfl⟩)⟩

theorem completeEffect {u : CompleteUnit} {i e e'} (ids : (e.signers.map Signer.id).Nodup)
    (ok : u.run i e = .ok e') : CompleteEffect u i e e' := by
  obtain ⟨e₁,first,ok⟩ := bindOk.mp ok
  obtain ⟨rows,rfl,fields⟩ := completeFieldsEffect first
  obtain ⟨e₂,second,ok⟩ := bindOk.mp ok
  obtain ⟨e₃,third,ok⟩ := bindOk.mp ok
  obtain ⟨sessions,rfl,completed⟩ := markCompletedEffect third
  obtain ⟨e₄,fourth,ok⟩ := bindOk.mp ok
  obtain ⟨document,rfl,moved⟩ := moveDocumentEffect fourth
  obtain ⟨e₅,fifth,ok⟩ := bindOk.mp ok
  cases appendEffect fifth
  cases publishEffect ok
  rcases markSignedEffect (by exact ids) second with ⟨rfl,row⟩ | ⟨rfl,row⟩
  · exact ⟨fields,rfl,rfl,rfl,rfl,completed,.inl ⟨rfl,row⟩,moved⟩
  · exact ⟨fields,rfl,rfl,rfl,rfl,completed,.inr ⟨rfl,row⟩,moved⟩

structure DeclineEffect (u : DeclineUnit) (e e' : Envelope) : Prop where
  revisions : e'.revisions = e.revisions
  fields : e'.fields = e.fields
  artifact : e'.artifact = e.artifact
  outbox : e'.outbox = e.outbox
  audit : ∃ event : NewAuditEvent, event.type = .signerDeclined ∧ e'.audit = e.audit ++ [event]
  sessions : SessionsMoved e.sessions e'.sessions
  closed : ∀ s ∈ e'.sessions, s.open = false
  signers : e'.signers = act u.loaded.signer.id (declinedRow u.now) e.signers
  actor : ∃ row ∈ e.signers, row.id = u.loaded.signer.id ∧ row.version = u.loaded.signer.version ∧ row.status = .pending
  version : e.document.version = u.loaded.document.version
  state : e.document.state ∈ [.sent,.inProgress]
  document : e'.document = { e.document with state := .declined, version := e.document.version+1 }

theorem declineEffect {u : DeclineUnit} {e e'} (ids : (e.signers.map Signer.id).Nodup)
    (ok : u.run e = .ok e') : DeclineEffect u e e' := by
  obtain ⟨e₁,first,ok⟩ := bindOk.mp ok
  obtain ⟨rfl,actor⟩ := markDeclinedEffect ids first
  obtain ⟨e₂,second,ok⟩ := bindOk.mp ok
  obtain ⟨hit,rfl⟩ := updateDocumentOk second
  obtain ⟨version,state⟩ := of_decide_eq_true hit
  obtain ⟨e₃,third,ok⟩ := bindOk.mp ok
  have closed := revokeOpenCloses third (fun s mem isOpen => ⟨s,mem,rfl,isOpen⟩)
  obtain ⟨rows,rfl,moved,-⟩ := revokeOpenEffect third
  cases appendEffect ok
  exact ⟨rfl,rfl,rfl,rfl,⟨_,rfl,rfl⟩,moved,closed,rfl,actor,version,state,rfl⟩

structure VoidEffect (u : VoidUnit) (e e' : Envelope) : Prop where
  revisions : e'.revisions = e.revisions
  signers : e'.signers = e.signers
  fields : e'.fields = e.fields
  artifact : e'.artifact = e.artifact
  outbox : e'.outbox = e.outbox
  audit : ∃ event : NewAuditEvent, event.type = .documentVoided ∧ e'.audit = e.audit ++ [event]
  sessions : SessionsMoved e.sessions e'.sessions
  closed : ∀ s ∈ e'.sessions, s.open = false
  version : e.document.version = u.document.version
  state : e.document.state ∈ [.draft,.prepared,.sent,.inProgress]
  document : e'.document = { e.document with state := .voided, version := e.document.version+1 }

theorem voidEffect {u : VoidUnit} {e e'} (ok : u.run e = .ok e') : VoidEffect u e e' := by
  obtain ⟨e₁,first,ok⟩ := bindOk.mp ok
  obtain ⟨hit,rfl⟩ := updateDocumentOk first
  obtain ⟨version,state⟩ := of_decide_eq_true hit
  obtain ⟨e₂,second,ok⟩ := bindOk.mp ok
  have closed := revokeOpenCloses second (fun s mem isOpen => ⟨s,mem,rfl,isOpen⟩)
  obtain ⟨rows,rfl,moved,-⟩ := revokeOpenEffect second
  cases appendEffect ok
  exact ⟨rfl,rfl,rfl,rfl,rfl,⟨_,rfl,rfl⟩,moved,closed,version,state,rfl⟩

/-- Sessions, the log and the outbox after the sessions of a send were issued. -/
structure Issued (e e' : Envelope) : Prop where
  document : e'.document = e.document
  revisions : e'.revisions = e.revisions
  signers : e'.signers = e.signers
  fields : e'.fields = e.fields
  artifact : e'.artifact = e.artifact
  sessions : SessionsMoved e.sessions e'.sessions
  audit : Logged e.audit e'.audit
  outbox : ∃ jobs, e'.outbox = e.outbox ++ jobs ∧ ∀ job ∈ jobs, ∃ signerId sessionId, job.payload = .notifySigner signerId sessionId

theorem issueEffect {u : SendUnit} {i list n e e'} (issued : ∀ session ∈ list, session.status = .issued)
    (ok : u.issue i list n e = .ok e') : Issued e e' := by
  induction list generalizing n e with
  | nil => cases ok; exact ⟨rfl,rfl,rfl,rfl,rfl,.refl _,.refl _,⟨[],by simp,by simp⟩⟩
  | cons session rest ih =>
    rw [SendUnit.issue] at ok
    obtain ⟨_,_,ok⟩ := bindOk.mp ok
    obtain ⟨e₁,first,ok⟩ := bindOk.mp ok
    obtain ⟨rows,rfl,moved⟩ := createSessionEffect (issued session List.mem_cons_self) first
    obtain ⟨e₂,second,ok⟩ := bindOk.mp ok
    cases appendEffect second
    obtain ⟨e₃,third,ok⟩ := bindOk.mp ok
    cases publishEffect third
    have rest := ih (fun s mem => issued s (List.mem_cons_of_mem _ mem)) ok
    obtain ⟨events,grown,quiet⟩ := rest.audit
    obtain ⟨jobs,published,notify⟩ := rest.outbox
    refine ⟨rest.document,rest.revisions,rest.signers,rest.fields,rest.artifact,moved.trans rest.sessions,?_,?_⟩
    · exact Logged.trans ⟨_,rfl,by simp [marks]⟩ rest.audit
    · refine ⟨_ :: jobs,by rw [published,List.append_assoc]; rfl,?_⟩
      simpa using notify

structure SendEffect (u : SendUnit) (e e' : Envelope) : Prop where
  revisions : e'.revisions = e.revisions
  signers : e'.signers = e.signers
  fields : e'.fields = e.fields
  artifact : e'.artifact = e.artifact
  sessions : SessionsMoved e.sessions e'.sessions
  audit : Logged e.audit e'.audit
  outbox : ∃ jobs, e'.outbox = e.outbox ++ jobs ∧ ∀ job ∈ jobs, ∃ signerId sessionId, job.payload = .notifySigner signerId sessionId
  version : e.document.version = u.document.version
  document : e'.document = { e.document with
    state := .sent
    signingRevisionId := some u.revisionId
    expiresAt := u.expiresAt
    version := e.document.version+1 }

theorem sendEffect {u : SendUnit} {i e e'} (issued : ∀ session ∈ u.issued, session.status = .issued)
    (ok : u.run i e = .ok e') : SendEffect u e e' := by
  obtain ⟨e₁,first,ok⟩ := bindOk.mp ok
  obtain ⟨hit,rfl⟩ := updateDocumentOk first
  obtain ⟨e₂,second,ok⟩ := bindOk.mp ok
  have steps := issueEffect issued second
  cases appendEffect ok
  exact ⟨steps.revisions,steps.signers,steps.fields,steps.artifact,steps.sessions,
    steps.audit.trans ⟨_,rfl,by simp [marks]⟩,steps.outbox,of_decide_eq_true hit,steps.document⟩

/-- What `maybeMarkPrepared` leaves of the document: the state is only written along
the table and under the version it was given. -/
def Prepared (given before after : Document) : Prop :=
  after = before ∨ (before.version = given.version ∧
    ∃ state, (state = .draft ∨ state = .prepared) ∧ canTransitionDocument given.state state = true ∧
      after = { before with state := state, version := before.version+1 })

/-- The version was compared: the state that is wanted is another one, and allowed. -/
def Versioned (given : Document) (signers : List Signer) (fields : List SignatureField) (before : Document) : Prop :=
  given.state ≠ nextPreparationState given signers fields →
    canTransitionDocument given.state (nextPreparationState given signers fields) = true → before.version = given.version

theorem maybeMarkPreparedEffect {document signers fields e e'}
    (ok : maybeMarkPrepared document signers fields e = .ok e') :
    ∃ after, e' = { e with document := after } ∧ Prepared document e.document after ∧
      Versioned document signers fields e.document := by
  unfold maybeMarkPrepared at ok
  simp only at ok
  split at ok
  · rename_i same
    cases ok
    exact ⟨_,rfl,.inl rfl,fun other => absurd same other⟩
  · split at ok
    · rename_i _ refused
      cases ok
      exact ⟨_,rfl,.inl rfl,fun _ allowed => by simp [allowed] at refused⟩
    · rename_i _ allowed
      obtain ⟨hit,rfl⟩ := updateDocumentOk ok
      have version := of_decide_eq_true hit
      refine ⟨_,rfl,.inr ⟨version,_,?_,by simpa using allowed,rfl⟩,fun _ _ => version⟩
      unfold nextPreparationState
      split <;> simp

structure ReplaceSignersEffect (u : ReplaceSignersUnit) (e e' : Envelope) : Prop where
  revisions : e'.revisions = e.revisions
  sessions : e'.sessions = e.sessions
  artifact : e'.artifact = e.artifact
  outbox : e'.outbox = e.outbox
  audit : Logged e.audit e'.audit
  fields : e'.fields.Sublist e.fields
  signers : e'.signers =
    (Signers.upsertAll (e.signers.filter (fun row => row.id ∈ u.signers.map Signer.id)) u.signers).1
  version : e.document.version = u.document.version
  document : ∃ given, given = { e.document with signingMode := u.signingMode, version := e.document.version+1 } ∧
    Prepared given given e'.document

theorem keepFieldsEffect {replaced e e'} (ok : ReplaceSignersUnit.keepFields replaced e = .ok e') :
    ∃ rows, e' = { e with fields := rows } ∧ rows.Sublist e.fields := by
  unfold ReplaceSignersUnit.keepFields at ok
  split at ok
  · obtain ⟨_,_,last⟩ := bindOk.mp ok
    cases last
    exact ⟨_,rfl,List.filter_sublist⟩
  · cases ok
    exact ⟨_,rfl,.refl _⟩

theorem replaceSignersEffect {u : ReplaceSignersUnit} {e e'} (ok : u.run e = .ok e') : ReplaceSignersEffect u e e' := by
  obtain ⟨⟨e₁,replaced⟩,first,ok⟩ := bindOk.mp ok
  obtain ⟨_,_,last⟩ := bindOk.mp first
  cases last
  obtain ⟨e₂,second,ok⟩ := bindOk.mp ok
  obtain ⟨rows,rfl,kept⟩ := keepFieldsEffect second
  obtain ⟨e₃,third,ok⟩ := bindOk.mp ok
  obtain ⟨hit,rfl⟩ := updateDocumentOk third
  obtain ⟨e₄,fourth,ok⟩ := bindOk.mp ok
  obtain ⟨after,rfl,prepared,-⟩ := maybeMarkPreparedEffect fourth
  cases appendEffect ok
  refine ⟨rfl,rfl,rfl,rfl,⟨_,rfl,by simp [marks]⟩,?_,rfl,of_decide_eq_true hit,⟨_,rfl,prepared⟩⟩
  exact kept.trans List.filter_sublist

structure ReplaceFieldsEffect (u : ReplaceFieldsUnit) (e e' : Envelope) : Prop where
  revisions : e'.revisions = e.revisions
  signers : e'.signers = e.signers
  sessions : e'.sessions = e.sessions
  artifact : e'.artifact = e.artifact
  outbox : e'.outbox = e.outbox
  audit : Logged e.audit e'.audit
  fields : e'.fields = u.fields
  ids : (u.fields.map SignatureField.id).Nodup
  document : Prepared u.document e.document e'.document
  versioned : Versioned u.document u.signers u.fields e.document

theorem replaceFieldsEffect {u : ReplaceFieldsUnit} {e e'} (ok : u.run e = .ok e') : ReplaceFieldsEffect u e e' := by
  obtain ⟨e₁,first,ok⟩ := bindOk.mp ok
  obtain ⟨_,distinct,last⟩ := bindOk.mp first
  cases last
  obtain ⟨e₂,second,ok⟩ := bindOk.mp ok
  obtain ⟨after,rfl,prepared,versioned⟩ := maybeMarkPreparedEffect second
  cases appendEffect ok
  have distinct := checkOk.mp distinct
  simp only [Bool.and_eq_true,decide_eq_true_eq] at distinct
  exact ⟨rfl,rfl,rfl,rfl,rfl,⟨_,rfl,by simp [marks]⟩,rfl,distinct.1,prepared,versioned⟩

structure UploadEffect (u : UploadUnit) (e e' : Envelope) : Prop where
  signers : e'.signers = e.signers
  fields : e'.fields = e.fields
  sessions : e'.sessions = e.sessions
  artifact : e'.artifact = e.artifact
  audit : Logged e.audit e'.audit
  outbox : ∃ jobs, e'.outbox = e.outbox ++ jobs ∧ ∀ job ∈ jobs, ∃ revisionId, job.payload = .inspectDocument revisionId
  revisions : e'.revisions = e.revisions ++ [u.revision]
  fresh : ∀ row ∈ e.revisions, row.id ≠ u.revision.id
  version : e.document.version = u.document.version
  document : e'.document = { e.document with
    currentRevisionId := some u.revision.id
    version := e.document.version+1 }

theorem createRevisionEffect {revision e e'} (ok : Revisions.create revision e = .ok e') :
    e' = { e with revisions := e.revisions ++ [revision] } ∧ ∀ row ∈ e.revisions, row.id ≠ revision.id := by
  obtain ⟨_,fresh,last⟩ := bindOk.mp ok
  cases last
  have fresh := checkOk.mp fresh
  simp at fresh
  exact ⟨rfl,fresh⟩

theorem uploadEffect {u : UploadUnit} {i e e'} (ok : u.run i e = .ok e') : UploadEffect u e e' := by
  obtain ⟨e₁,first,ok⟩ := bindOk.mp ok
  obtain ⟨rfl,fresh⟩ := createRevisionEffect first
  obtain ⟨e₂,second,ok⟩ := bindOk.mp ok
  obtain ⟨hit,rfl⟩ := updateDocumentOk second
  obtain ⟨e₃,third,ok⟩ := bindOk.mp ok
  obtain ⟨rows,_,last⟩ := bindOk.mp third
  cases last
  obtain ⟨e₄,fourth,ok⟩ := bindOk.mp ok
  cases appendEffect fourth
  cases publishEffect ok
  exact ⟨rfl,rfl,rfl,rfl,⟨_,rfl,by simp [marks]⟩,⟨_,rfl,by simp⟩,rfl,fresh,of_decide_eq_true hit,rfl⟩

structure InspectEffect (u : InspectUnit) (e e' : Envelope) : Prop where
  revisions : e'.revisions = e.revisions
  signers : e'.signers = e.signers
  fields : e'.fields = e.fields
  sessions : e'.sessions = e.sessions
  artifact : e'.artifact = e.artifact
  outbox : e'.outbox = e.outbox
  audit : Logged e.audit e'.audit
  version : e.document.version = u.document.version
  document : ∃ status, e'.document = { e.document with inspectionStatus := status, version := e.document.version+1 }
  status : e'.document.inspectionStatus = if u.accepted then .accepted else .rejected

theorem inspectEffect {u : InspectUnit} {e e'} (ok : u.run e = .ok e') : InspectEffect u e e' := by
  obtain ⟨e₁,first,ok⟩ := bindOk.mp ok
  obtain ⟨hit,rfl⟩ := updateDocumentOk first
  cases appendEffect ok
  refine ⟨rfl,rfl,rfl,rfl,rfl,rfl,⟨_,rfl,?_⟩,of_decide_eq_true hit,⟨_,rfl⟩,rfl⟩
  simp only [List.mem_singleton,forall_eq]
  split <;> rfl

/-- The field rows after those in `ids` were drawn into `revisionId`. -/
def flattened (ids : List Id) (revisionId : Id) (rows : List SignatureField) : List SignatureField :=
  rows.map (fun row => if row.id ∈ ids then { row with flattenedRevisionId := some revisionId } else row)

theorem markAllFlattenedEffect {revisionId list e e'} (ok : markAllFlattened revisionId list e = .ok e') :
    e' = { e with fields := flattened (list.map SignatureField.id) revisionId e.fields } := by
  induction list generalizing e with
  | nil => cases ok; simp [flattened]
  | cons field rest ih =>
    rw [markAllFlattened] at ok
    obtain ⟨e₁,first,ok⟩ := bindOk.mp ok
    obtain ⟨rows,updated,last⟩ := bindOk.mp first
    cases last
    obtain ⟨rfl,-⟩ := updateOneOk updated
    rw [ih ok]
    congr 1
    unfold flattened
    rw [List.map_map]
    refine List.map_congr_left (fun row _ => ?_)
    by_cases same : row.id = field.id
    · simp [same]
    · simp [same]

/-- Only the columns of the lease and the state change. -/
structure TakeEffect (owner : Id) (expectedVersion : Nat) (current : Document) (e e' : Envelope) : Prop where
  frame : e' = { e with document := e'.document }
  version : e.document.version = expectedVersion
  state : e'.document.state = Documents.leasedState current.state
  leaseOwner : e'.document.leaseOwner = some owner
  document : e'.document = { e.document with
    state := e'.document.state
    leaseOwner := e'.document.leaseOwner
    leaseUntil := e'.document.leaseUntil
    finalizationAttemptCount := e'.document.finalizationAttemptCount
    version := e.document.version+1 }

theorem takeEffect {input expectedVersion leaseUntil now current i e e'}
    (ok : (Write.takeLease input expectedVersion leaseUntil now current).run i e = .ok e') :
    TakeEffect input.owner expectedVersion current e e' := by
  have ok : Documents.takeLease expectedVersion input.owner leaseUntil now current e = .ok e' := ok
  obtain ⟨hit,rfl⟩ := updateDocumentOk ok
  exact ⟨rfl,(of_decide_eq_true hit).1,rfl,rfl,rfl⟩

structure FlattenEffect (u : FlattenUnit) (e e' : Envelope) : Prop where
  signers : e'.signers = e.signers
  sessions : e'.sessions = e.sessions
  outbox : e'.outbox = e.outbox
  audit : Logged e.audit e'.audit
  version : e.document.version = u.leased.version
  owner : e.document.leaseOwner = some u.input.owner
  document : e'.document = { e.document with
    state := if u.finalize then .finalized else e.document.state
    currentRevisionId := some u.revisionId
    leaseOwner := none
    leaseUntil := none
    version := e.document.version+1 }
  fields : e'.fields = flattened (u.loaded.pendingFields.map SignatureField.id) u.revisionId e.fields
  revisions : (u.loaded.pendingFields = [] ∧ e'.revisions = e.revisions) ∨
    (e'.revisions = e.revisions ++ [⟨u.revisionId,.intermediate,u.output,u.pageCount⟩] ∧
      ∀ row ∈ e.revisions, row.id ≠ u.revisionId)
  artifact : e'.artifact = if u.finalize then e.artifact <|> some ⟨u.artifactId,u.output⟩ else e.artifact

theorem addRevisionEffect {u : FlattenUnit} {e e'} (ok : u.addRevision e = .ok e') :
    ∃ rows events, e' = { e with
        revisions := rows
        fields := flattened (u.loaded.pendingFields.map SignatureField.id) u.revisionId e.fields
        audit := e.audit ++ events } ∧
      (∀ event ∈ events, marks event.type = false) ∧
      ((u.loaded.pendingFields = [] ∧ rows = e.revisions) ∨
        (rows = e.revisions ++ [⟨u.revisionId,.intermediate,u.output,u.pageCount⟩] ∧
          ∀ row ∈ e.revisions, row.id ≠ u.revisionId)) := by
  unfold FlattenUnit.addRevision at ok
  split at ok
  · obtain ⟨e₁,first,ok⟩ := bindOk.mp ok
    obtain ⟨rfl,fresh⟩ := createRevisionEffect first
    obtain ⟨e₂,second,ok⟩ := bindOk.mp ok
    cases markAllFlattenedEffect second
    cases appendEffect ok
    exact ⟨_,_,rfl,by simp [marks],.inr ⟨rfl,fresh⟩⟩
  · rename_i empty
    have none : u.loaded.pendingFields = [] := by simpa using empty
    cases ok
    exact ⟨_,[],by simp [none,flattened],by simp,.inl ⟨none,rfl⟩⟩

theorem addArtifactEffect {u : FlattenUnit} {e e'} (ok : u.addArtifact e = .ok e') :
    ∃ events, e' = { e with
        artifact := if u.finalize then e.artifact <|> some ⟨u.artifactId,u.output⟩ else e.artifact
        audit := e.audit ++ events } ∧ ∀ event ∈ events, marks event.type = false := by
  unfold FlattenUnit.addArtifact at ok
  split at ok
  · rename_i final
    obtain ⟨e₁,first,ok⟩ := bindOk.mp ok
    unfold FlattenUnit.createArtifact at first
    split at first
    · rename_i artifact found
      cases first
      cases appendEffect ok
      exact ⟨[u.finalized],by simp [final,found],by simp [marks,FlattenUnit.finalized]⟩
    · rename_i missing
      obtain ⟨_,_,last⟩ := bindOk.mp first
      cases last
      cases appendEffect ok
      exact ⟨[u.finalized],by simp [final,missing],by simp [marks,FlattenUnit.finalized]⟩
  · rename_i open_
    cases ok
    exact ⟨[],by simp [open_],by simp⟩

theorem flattenEffect {u : FlattenUnit} {e e'} (ok : u.run e = .ok e') : FlattenEffect u e e' := by
  obtain ⟨e₁,first,ok⟩ := bindOk.mp ok
  obtain ⟨rows,events,rfl,quiet,revisions⟩ := addRevisionEffect first
  obtain ⟨e₂,second,ok⟩ := bindOk.mp ok
  obtain ⟨hit,rfl⟩ := updateDocumentOk second
  obtain ⟨version,owner⟩ := of_decide_eq_true hit
  obtain ⟨events',rfl,quiet'⟩ := addArtifactEffect ok
  exact ⟨rfl,rfl,rfl,Logged.trans ⟨_,rfl,quiet⟩ ⟨_,rfl,quiet'⟩,version,owner,rfl,rfl,revisions,rfl⟩

end ESign
