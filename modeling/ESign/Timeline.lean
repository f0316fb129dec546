import ESign.Effects
import ESign.Provenance

/-! What holds of the rows of a document in every store, and how a later store
relates to an earlier one, whatever requests and jobs run in between. A document
row is known by its version; once a document has left preparation its roster is
fixed and signers only act; a session that is closed stays closed, and a decline
or a void closes all of them. -/
namespace ESign
open StoreProgram StoreProgram.Outline

def DocumentState.stage : DocumentState → Nat
  | .draft => 0
  | .prepared => 0
  | .sent => 1
  | .inProgress => 2
  | .completed => 3
  | .voided => 3
  | .expired => 3
  | .declined => 3
  | .finalizing => 4
  | .finalizationFailed => 4
  | .finalized => 5

theorem prepStage {state} : isPreparationState state = true ↔ state.stage = 0 := by
  cases state <;> decide

theorem unprepStage {state} : isPreparationState state = false ↔ state.stage ≠ 0 := by
  cases state <;> decide

/-- Someone has declined, or the document was voided: both leave an event behind. -/
def Envelope.ended (e : Envelope) : Bool :=
  e.audit.any (fun event => event.type = .documentVoided ∨ event.type = .signerDeclined)

theorem Logged.ended {e e' : Envelope} (h : Logged e.audit e'.audit) : e'.ended = e.ended := by
  obtain ⟨events,grown,quiet⟩ := h
  unfold Envelope.ended
  rw [grown,List.any_append]
  have none : events.any (fun event => event.type = .documentVoided ∨ event.type = .signerDeclined) = false := by
    rw [List.any_eq_false]
    intro event mem
    have unmarked := quiet event mem
    simp [marks] at unmarked
    simp [unmarked]
  rw [none,Bool.or_false]

structure Consistent (e : Envelope) : Prop where
  signerIds : (e.signers.map Signer.id).Nodup
  sessionIds : (e.sessions.map SigningSession.id).Nodup
  unsent : isPreparationState e.document.state = true →
    (∀ s ∈ e.signers, s.status = .pending) ∧ e.sessions = [] ∧ e.document.signingRevisionId = none
  roster : e.document.signingRevisionId.isSome = true → e.signers ≠ []
  completed : ∀ session ∈ e.sessions, session.status = .completed →
    ∀ s ∈ e.signers, s.id = session.signerId → s.status = .signed
  running : e.document.state.stage ≤ 2 → e.ended = false
  declined : ∀ s ∈ e.signers, s.status = .declined → e.ended = true
  lease : e.document.state = .finalizationFailed ∨ e.document.state = .finalized → e.document.leaseOwner = none

structure Later (e e' : Envelope) : Prop where
  version : e.document.version ≤ e'.document.version
  row : e'.document.version = e.document.version → e'.document = e.document
  stage : e.document.state.stage ≤ e'.document.state.stage
  sent : e.document.signingRevisionId.isSome = true → e'.document.signingRevisionId.isSome = true
  ended : e.ended = true → e'.ended = true
  mode : isPreparationState e.document.state = false → e'.document.signingMode = e.document.signingMode
  signers : isPreparationState e.document.state = false → SignersLater e.signers e'.signers
  roster : isPreparationState e.document.state = true → e'.document.version = e.document.version → e'.signers = e.signers
  sessions : ∀ s ∈ e.sessions, ∃ s' ∈ e'.sessions, SessionLater s s'
  closed : e.ended = false → e'.ended = true → ∀ s ∈ e.sessions, ∃ s' ∈ e'.sessions, SessionLater s s' ∧ s'.open = false

theorem Later.refl (e : Envelope) : Later e e where
  version := le_refl _
  row _ := rfl
  stage := le_refl _
  sent := id
  ended := id
  mode _ := rfl
  signers _ := .refl _
  roster _ _ := rfl
  sessions s mem := ⟨s,mem,.refl s⟩
  closed before after := by rw [before] at after; cases after

theorem Later.unprep {e e'} (h : Later e e') (left : isPreparationState e.document.state = false) :
    isPreparationState e'.document.state = false := by
  rw [unprepStage] at left ⊢
  have := h.stage
  omega

theorem SessionLater.closes {s s'} (h : SessionLater s s') (closed : s.open = false) : s'.open = false := by
  rw [openStatus,h.closed closed,← openStatus]
  exact closed

theorem Later.trans {a b c} (left : Later a b) (right : Later b c) : Later a c where
  version := left.version.trans right.version
  row same := by
    have first := left.version
    have second := right.version
    rw [right.row (by omega),left.row (by omega)]
  stage := left.stage.trans right.stage
  sent h := right.sent (left.sent h)
  ended h := right.ended (left.ended h)
  mode h := (right.mode (left.unprep h)).trans (left.mode h)
  signers h := (left.signers h).trans (right.signers (left.unprep h))
  roster prep same := by
    have first := left.version
    have second := right.version
    have between : b.document = a.document := left.row (by omega)
    rw [right.roster (by rw [between]; exact prep) (by omega),left.roster prep (by omega)]
  sessions s mem := by
    obtain ⟨s',mem',first⟩ := left.sessions s mem
    obtain ⟨s'',mem'',second⟩ := right.sessions s' mem'
    exact ⟨s'',mem'',first.trans second⟩
  closed before after s mem := by
    cases between : b.ended with
    | true =>
      obtain ⟨s',mem',first,closed⟩ := left.closed before between s mem
      obtain ⟨s'',mem'',second⟩ := right.sessions s' mem'
      exact ⟨s'',mem'',first.trans second,second.closes closed⟩
    | false =>
      obtain ⟨s',mem',first⟩ := left.sessions s mem
      obtain ⟨s'',mem'',second,closed⟩ := right.closed between after s' mem'
      exact ⟨s'',mem'',first.trans second,closed⟩

/-- The stores of a run that lead up to the present one. -/
def Before (e e' : Envelope) : Prop := Consistent e ∧ Later e e'

theorem Read.row {document e} (h : Read Before document e) (same : e.document.version = document.version) :
    e.document = document := by
  obtain ⟨first,rfl,-,later⟩ := h
  exact later.row same

theorem completedKept {e e' : Envelope} (inv : Consistent e) (signers : SignersLater e.signers e'.signers)
    {signerId} (done : ∃ session ∈ e.sessions, session.status = .completed ∧ session.signerId = signerId) :
    ∀ s ∈ e'.signers, s.id = signerId → s.status = .signed := by
  intro s' mem' named
  obtain ⟨session,mem,completed,same⟩ := done
  obtain ⟨s,found,later⟩ := signers.source s' mem'
  have signed := inv.completed session mem completed s found (by rw [same,← named,later.id])
  rw [later.acted (by rw [signed]; decide)]
  exact signed

theorem keepStill {e e'} (inv : Consistent e) (document : e'.document = e.document) (signers : e'.signers = e.signers)
    (sessions : SessionsMoved e.sessions e'.sessions) (audit : Logged e.audit e'.audit)
    (idle : isPreparationState e.document.state = true → e'.sessions = []) : Consistent e' ∧ Later e e' := by
  have ended : e'.ended = e.ended := audit.ended
  constructor
  · constructor
    · rw [signers]; exact inv.signerIds
    · exact sessions.distinct inv.sessionIds
    · intro prep
      rw [document] at prep ⊢
      obtain ⟨pending,-,none⟩ := inv.unsent prep
      exact ⟨by rw [signers]; exact pending,idle prep,none⟩
    · rw [document,signers]; exact inv.roster
    · intro session' mem' completed
      obtain ⟨session,mem,done,same⟩ := sessions.completed session' mem' completed
      exact completedKept inv (by rw [signers]; exact .refl _) ⟨session,mem,done,same⟩
    · rw [document,ended]; exact inv.running
    · rw [signers,ended]; exact inv.declined
    · rw [document]; exact inv.lease
  · constructor
    · rw [document]
    · exact fun _ => document
    · rw [document]
    · rw [document]; exact id
    · rw [ended]; exact id
    · exact fun _ => by rw [document]
    · exact fun _ => by rw [signers]; exact .refl _
    · exact fun _ _ => signers
    · exact sessions.later
    · intro before after
      rw [ended,before] at after
      cases after

/-- A new version of the document row, of the same or a later stage. -/
structure Revised (d d' : Document) : Prop where
  version : d'.version = d.version+1
  stage : d.state.stage ≤ d'.state.stage
  signingMode : d'.signingMode = d.signingMode
  signingRevisionId : d'.signingRevisionId = d.signingRevisionId
  lease : d'.state = .finalizationFailed ∨ d'.state = .finalized → d'.leaseOwner = none

theorem keepRevised {e e'} (inv : Consistent e) (document : Revised e.document e'.document)
    (signers : e'.signers = e.signers) (sessions : e'.sessions = e.sessions) (audit : Logged e.audit e'.audit) :
    Consistent e' ∧ Later e e' := by
  have ended : e'.ended = e.ended := audit.ended
  have stage := document.stage
  have version := document.version
  constructor
  · constructor
    · rw [signers]; exact inv.signerIds
    · rw [sessions]; exact inv.sessionIds
    · intro prep
      have before : isPreparationState e.document.state = true := by
        rw [prepStage] at prep ⊢
        omega
      rw [signers,sessions,document.signingRevisionId]
      exact inv.unsent before
    · rw [document.signingRevisionId,signers]; exact inv.roster
    · rw [signers,sessions]; exact inv.completed
    · intro early
      rw [ended]
      exact inv.running (by omega)
    · rw [signers,ended]; exact inv.declined
    · exact document.lease
  · constructor
    · omega
    · intro same; omega
    · exact stage
    · rw [document.signingRevisionId]; exact id
    · rw [ended]; exact id
    · exact fun _ => document.signingMode
    · exact fun _ => by rw [signers]; exact .refl _
    · exact fun _ _ => signers
    · exact fun s mem => ⟨s,by rw [sessions]; exact mem,.refl s⟩
    · intro before after
      rw [ended,before] at after
      cases after

theorem leasedStage {state} : state.stage ≤ (Documents.leasedState state).stage := by
  cases state <;> decide

theorem markFinalizationFailedCases (owner : Id) (e : Envelope) :
    Documents.markFinalizationFailed owner e = e ∨
      (e.document.state = .finalizing ∧
        Documents.markFinalizationFailed owner e = { e with document := { e.document with
          state := .finalizationFailed
          leaseOwner := none
          leaseUntil := none
          version := e.document.version+1 } }) := by
  unfold Documents.markFinalizationFailed
  split
  · rename_i hit
    exact .inr ⟨hit.2,rfl⟩
  · exact .inl rfl

theorem releaseCases (owner : Id) (e : Envelope) :
    Documents.releaseProcessingLease owner e = e ∨
      Documents.releaseProcessingLease owner e =
        { e with document := { e.document with leaseOwner := none, leaseUntil := none, version := e.document.version+1 } } := by
  unfold Documents.releaseProcessingLease
  split
  · exact .inr rfl
  · exact .inl rfl

theorem keepPrepared {e e'} (inv : Consistent e) {given : Document}
    (row : e.document.version = given.version → e.document = given) (prep : isPreparationState given.state = true)
    (document : Prepared given e.document e'.document) (signers : e'.signers = e.signers)
    (sessions : e'.sessions = e.sessions) (audit : Logged e.audit e'.audit) : Consistent e' ∧ Later e e' := by
  rcases document with same | ⟨version,state,either,-,changed⟩
  · exact keepStill inv same signers (by rw [sessions]; exact .refl _) audit
      (fun prep => by rw [sessions]; exact (inv.unsent prep).2.1)
  · refine keepRevised inv ?_ signers sessions audit
    rw [changed]
    rw [← row version,prepStage] at prep
    refine ⟨rfl,by simp [prep],rfl,rfl,fun final => ?_⟩
    rcases either with rfl | rfl <;> simp at final

theorem upsertPending {rows : List Signer} {signer : Signer} (pending : ∀ s ∈ rows, s.status = .pending)
    (fresh : signer.status = .pending) : ∀ s ∈ Signers.upsert rows signer, s.status = .pending := by
  unfold Signers.upsert
  split
  · intro s mem
    obtain ⟨row,found,rfl⟩ := List.mem_map.mp mem
    split
    · exact pending row found
    · exact pending row found
  · intro s mem
    rcases List.mem_append.mp mem with old | new
    · exact pending s old
    · rw [List.mem_singleton.mp new]; exact fresh

theorem upsertIds {rows : List Signer} {signer : Signer} (ids : (rows.map Signer.id).Nodup) :
    ((Signers.upsert rows signer).map Signer.id).Nodup := by
  unfold Signers.upsert
  split
  · have same : (rows.map (fun row => if row.id = signer.id then
        { row with routingOrder := signer.routingOrder, email := signer.email, displayName := signer.displayName }
        else row)).map Signer.id = rows.map Signer.id := by
      rw [List.map_map]
      refine List.map_congr_left (fun row _ => ?_)
      simp only [Function.comp]
      split <;> rfl
    rw [same]
    exact ids
  · rename_i absent
    rw [List.map_append,List.nodup_append]
    refine ⟨ids,by simp,?_⟩
    intro a old b new
    obtain ⟨row,found,rfl⟩ := List.mem_map.mp old
    simp only [List.map_cons,List.map_nil,List.mem_singleton] at new
    rw [new]
    simp only [List.any_eq_true,decide_eq_true_eq,not_exists,not_and] at absent
    exact absent row found

theorem upsertAllKept {list rows : List Signer} (ids : (rows.map Signer.id).Nodup)
    (pending : ∀ s ∈ rows, s.status = .pending) (fresh : ∀ s ∈ list, s.status = .pending) :
    ((Signers.upsertAll rows list).1.map Signer.id).Nodup ∧
      ∀ s ∈ (Signers.upsertAll rows list).1, s.status = .pending := by
  induction list generalizing rows with
  | nil => exact ⟨ids,pending⟩
  | cons signer rest ih =>
    exact ih (upsertIds ids) (upsertPending pending (fresh signer List.mem_cons_self))
      (fun s mem => fresh s (List.mem_cons_of_mem _ mem))

theorem ReplaceSignersEffect.preparation {u : ReplaceSignersUnit} {e e'} (h : ReplaceSignersEffect u e e')
    (prep : isPreparationState e.document.state = true) (unsigned : e.document.signingRevisionId = none) :
    e.document.version < e'.document.version ∧ isPreparationState e'.document.state = true ∧
      e'.document.signingRevisionId = none := by
  obtain ⟨given,rfl,prepared⟩ := h.document
  rcases prepared with same | ⟨-,state,either,-,changed⟩
  · rw [same]; exact ⟨Nat.lt_succ_self _,prep,unsigned⟩
  · rw [changed]
    refine ⟨?_,?_,unsigned⟩
    · simp only; omega
    · rcases either with rfl | rfl <;> rfl

theorem keepReplaceSigners {u : ReplaceSignersUnit} {e e'} (inv : Consistent e)
    (just : ReplaceSignersSource Before u e) (h : ReplaceSignersEffect u e e') : Consistent e' ∧ Later e e' := by
  have row := just.document.row h.version
  have prep : isPreparationState e.document.state = true := by rw [row]; exact just.unlocked
  obtain ⟨pending,idle,unsigned⟩ := inv.unsent prep
  have ended : e'.ended = e.ended := h.audit.ended
  have keptIds : ((e.signers.filter (fun row => row.id ∈ u.signers.map Signer.id)).map Signer.id).Nodup :=
    inv.signerIds.sublist (List.filter_sublist.map _)
  obtain ⟨ids,pending'⟩ := upsertAllKept keptIds (fun s mem => pending s (List.mem_filter.mp mem).1) just.fresh
  rw [← h.signers] at ids pending'
  obtain ⟨newer,prep',unsigned'⟩ := h.preparation prep unsigned
  have stage := prepStage.mp prep
  have stage' := prepStage.mp prep'
  constructor
  · constructor
    · exact ids
    · rw [h.sessions]; exact inv.sessionIds
    · exact fun _ => ⟨pending',by rw [h.sessions]; exact idle,unsigned'⟩
    · rw [unsigned']; intro sent; cases sent
    · rw [h.sessions,idle]; intro session mem; cases mem
    · intro _
      rw [ended]
      exact inv.running (by omega)
    · intro s mem declined
      rw [pending' s mem] at declined
      cases declined
    · intro final
      rcases final with final | final <;> rw [final] at stage' <;> cases stage'
  · constructor
    · omega
    · intro same; omega
    · omega
    · rw [unsigned]; intro sent; cases sent
    · rw [ended]; exact id
    · rw [prep]; intro h; cases h
    · rw [prep]; intro h; cases h
    · intro _ same; omega
    · rw [idle]; intro s mem; cases mem
    · rw [idle]; intro _ _ s mem; cases mem

theorem keepSend {u : SendUnit} {e e' atDocument atRoster signers} (inv : Consistent e)
    (just : SendSource Before u atDocument atRoster signers) (later : Before atRoster e) (h : SendEffect u e e') :
    Consistent e' ∧ Later e e' := by
  have read : Read Before u.document e := ⟨atDocument,just.document,just.later.1,just.later.2.trans later.2⟩
  have row := read.row h.version
  have prep : isPreparationState e.document.state = true := by rw [row]; exact just.unlocked
  obtain ⟨pending,idle,none⟩ := inv.unsent prep
  have ended : e'.ended = e.ended := h.audit.ended
  have stage := prepStage.mp prep
  -- the roster that was read is the roster that is met: the version did not move
  have nonempty : e.signers ≠ [] := by
    have first := just.later.2.version
    have second := later.2.version
    have same : atRoster.document = atDocument.document :=
      just.later.2.row (by have := h.version; rw [just.document] at this; omega)
    have equal : e.signers = atRoster.signers := by
      refine later.2.roster ?_ ?_
      · rw [same,← just.document]; exact just.unlocked
      · rw [same,← just.document]; exact h.version
    rw [equal]
    intro empty
    apply just.nonempty
    rw [just.roster,Signers.listByDocument,empty]
    rfl
  constructor
  · constructor
    · rw [h.signers]; exact inv.signerIds
    · exact h.sessions.distinct inv.sessionIds
    · rw [h.document]; intro prep; cases prep
    · rw [h.signers]; exact fun _ => nonempty
    · intro session' mem' completed
      obtain ⟨session,mem,done,same⟩ := h.sessions.completed session' mem' completed
      rw [idle] at mem
      cases mem
    · intro _
      rw [ended]
      exact inv.running (by omega)
    · rw [h.signers,ended]; exact inv.declined
    · rw [h.document]; intro final; rcases final with final | final <;> cases final
  · constructor
    · rw [h.document]; simp
    · rw [h.document]; intro same; simp at same
    · rw [h.document,stage]; exact Nat.zero_le _
    · rw [h.document]; exact fun _ => rfl
    · rw [ended]; exact id
    · exact fun _ => by rw [h.document]
    · exact fun _ => by rw [h.signers]; exact .refl _
    · exact fun _ _ => h.signers
    · exact h.sessions.later
    · intro before after
      rw [ended,before] at after
      cases after

theorem endedAppend {e e' : Envelope} {event : NewAuditEvent} (grown : e'.audit = e.audit ++ [event])
    (type : event.type = .documentVoided ∨ event.type = .signerDeclined) : e'.ended = true := by
  unfold Envelope.ended
  rw [grown,List.any_append]
  simp [type]

theorem keepVoid {u : VoidUnit} {e e'} (inv : Consistent e) (h : VoidEffect u e e') : Consistent e' ∧ Later e e' := by
  obtain ⟨event,type,grown⟩ := h.audit
  have ended := endedAppend grown (.inl type)
  constructor
  · constructor
    · rw [h.signers]; exact inv.signerIds
    · exact h.sessions.distinct inv.sessionIds
    · rw [h.document]; intro prep; cases prep
    · rw [h.document,h.signers]; exact inv.roster
    · intro session' mem' completed
      obtain ⟨session,mem,done,same⟩ := h.sessions.completed session' mem' completed
      exact completedKept inv (by rw [h.signers]; exact .refl _) ⟨session,mem,done,same⟩
    · rw [h.document]; intro early; simp [DocumentState.stage] at early
    · exact fun _ _ _ => ended
    · rw [h.document]; intro final; rcases final with final | final <;> cases final
  · constructor
    · rw [h.document]; simp
    · rw [h.document]; intro same; simp at same
    · have := h.state
      rw [h.document]
      simp only [List.mem_cons,List.not_mem_nil,or_false] at this
      rcases this with s | s | s | s <;> simp [s,DocumentState.stage]
    · rw [h.document]; exact id
    · exact fun _ => ended
    · exact fun _ => by rw [h.document]
    · exact fun _ => by rw [h.signers]; exact .refl _
    · exact fun _ _ => h.signers
    · exact h.sessions.later
    · intro _ _ s mem
      obtain ⟨s',mem',later⟩ := h.sessions.later s mem
      exact ⟨s',mem',later,h.closed s' mem'⟩

theorem keepDecline {u : DeclineUnit} {e e'} (inv : Consistent e) (h : DeclineEffect u e e') :
    Consistent e' ∧ Later e e' := by
  obtain ⟨event,type,grown⟩ := h.audit
  have ended := endedAppend grown (.inr type)
  obtain ⟨row,mem,named,-,pending⟩ := h.actor
  have signers : SignersLater e.signers e'.signers := by
    rw [h.signers]
    exact actLater inv.signerIds ⟨row,mem,named,pending⟩ (fun _ => ⟨rfl,rfl,rfl,rfl,rfl⟩)
  have state := h.state
  simp only [List.mem_cons,List.not_mem_nil,or_false] at state
  constructor
  · constructor
    · rw [signers.ids]; exact inv.signerIds
    · exact h.sessions.distinct inv.sessionIds
    · rw [h.document]; intro prep; cases prep
    · rw [h.document]; intro sent empty; exact inv.roster sent (signers.empty.mp empty)
    · intro session' mem' completed
      obtain ⟨session,mem,done,same⟩ := h.sessions.completed session' mem' completed
      exact completedKept inv signers ⟨session,mem,done,same⟩
    · rw [h.document]; intro early; simp [DocumentState.stage] at early
    · exact fun _ _ _ => ended
    · rw [h.document]; intro final; rcases final with final | final <;> cases final
  · constructor
    · rw [h.document]; simp
    · rw [h.document]; intro same; simp at same
    · rw [h.document]; rcases state with s | s <;> simp [s,DocumentState.stage]
    · rw [h.document]; exact id
    · exact fun _ => ended
    · exact fun _ => by rw [h.document]
    · exact fun _ => signers
    · intro prep; rcases state with s | s <;> rw [s] at prep <;> cases prep
    · exact h.sessions.later
    · intro _ _ s mem
      obtain ⟨s',mem',later⟩ := h.sessions.later s mem
      exact ⟨s',mem',later,h.closed s' mem'⟩

theorem Before.trans {a b c} (left : Before a b) (right : Before b c) : Before a c := ⟨left.1,left.2.trans right.2⟩

theorem Loaded.before {l e e'} (h : Loaded Before l e) (next : Before e e') : Loaded Before l e' := by
  obtain ⟨first,second,third,source,later⟩ := h
  exact ⟨first,second,third,source,later.trans next⟩

/-- A signer who was pending when its session was loaded, seen from a later store. -/
structure ActorNow (l : LoadedSignerSession) (e : Envelope) : Prop where
  unprep : isPreparationState e.document.state = false
  named : l.signer.id = l.session.signerId
  available : l.document.state = .sent ∨ l.document.state = .inProgress
  stage : l.document.state.stage ≤ e.document.state.stage
  row : e.document.version = l.document.version → e.document = l.document
  mode : e.document.signingMode = l.document.signingMode
  signer : ∃ s ∈ e.signers, SignerLater l.signer s
  session : ∃ s ∈ e.sessions, SessionLater l.session s
  closed : e.ended = true → ∃ s ∈ e.sessions, SessionLater l.session s ∧ s.open = false

theorem availableState {document} (ok : isAvailableForSigning document = true) :
    document.state = .sent ∨ document.state = .inProgress := by
  simp only [isAvailableForSigning,Bool.and_eq_true,decide_eq_true_eq] at ok
  exact ok.2

theorem Loaded.now {l e} (h : Loaded Before l e) (pending : l.signer.status = .pending) : ActorNow l e := by
  obtain ⟨first,second,third,source,-,last⟩ := h
  obtain ⟨⟨inv₁,step₁⟩,inv₂,step₂⟩ := source.later
  have unprep : isPreparationState first.document.state = false := by
    cases prep : isPreparationState first.document.state with
    | false => rfl
    | true =>
      have mem := source.session
      rw [(inv₁.unsent prep).2.1] at mem
      cases mem
  have found := List.mem_of_find?_eq_some source.signer
  have named : l.signer.id = l.session.signerId := by simpa using List.find?_some source.signer
  have unprep₂ := step₁.unprep unprep
  have unprep₃ := step₂.unprep unprep₂
  -- a completed session belongs to a signer who has signed
  have running : l.session.status ≠ .completed := by
    intro completed
    have signers := (step₁.signers unprep).trans (step₂.signers unprep₂)
    have signed := completedKept inv₁ signers ⟨l.session,source.session,completed,rfl⟩ l.signer found named
    rw [pending] at signed
    cases signed
  have available := availableState (source.available.resolve_left running)
  have whole := step₁.trans (step₂.trans last)
  have fromDocument := step₂.trans last
  have open_ : first.ended = false := by
    have early : second.ended = false := by
      refine inv₂.running ?_
      rw [← source.document]
      rcases available with s | s <;> rw [s] <;> decide
    cases before : first.ended with
    | false => rfl
    | true => rw [step₁.ended before] at early; cases early
  exact
    { unprep := whole.unprep unprep
      named := named
      available := available
      stage := by rw [source.document]; exact fromDocument.stage
      row := fun same => by rw [source.document] at same ⊢; exact fromDocument.row same
      mode := by rw [source.document]; exact fromDocument.mode unprep₂
      signer := (last.signers unprep₃).mem l.signer found
      session := whole.sessions l.session source.session
      closed := fun after => whole.closed open_ after l.session source.session }

theorem sameSession {e : Envelope} (inv : Consistent e) {s t : SigningSession} (sMem : s ∈ e.sessions)
    (tMem : t ∈ e.sessions) (same : s.id = t.id) : s = t := List.inj_on_of_nodup_map inv.sessionIds sMem tMem same

theorem sameSigner {e : Envelope} (inv : Consistent e) {s t : Signer} (sMem : s ∈ e.signers)
    (tMem : t ∈ e.signers) (same : s.id = t.id) : s = t := List.inj_on_of_nodup_map inv.signerIds sMem tMem same

theorem completeSigners {u : CompleteUnit} {i e e'} (inv : Consistent e) (h : CompleteEffect u i e e') :
    SignersLater e.signers e'.signers := by
  rcases h.signers with ⟨same,-⟩ | ⟨acted,row,mem,named,-,pending⟩
  · rw [same]; exact .refl _
  · rw [acted]
    exact actLater inv.signerIds ⟨row,mem,named,pending⟩ (fun _ => ⟨rfl,rfl,rfl,rfl,rfl⟩)

theorem completeEnded {u : CompleteUnit} {i e e'} (h : CompleteEffect u i e e') : e'.ended = e.ended := by
  unfold Envelope.ended
  rw [h.audit,List.any_append]
  simp [CompleteUnit.signed]

theorem completeSigned {u : CompleteUnit} {i e e'} (inv : Consistent e) (h : CompleteEffect u i e e') :
    ∀ s ∈ e'.signers, s.id = u.loaded.signer.id → s.status = .signed := by
  intro s' mem' named'
  rcases h.signers with ⟨same,row,mem,named,signed⟩ | ⟨acted,-⟩
  · rw [same] at mem'
    rw [sameSigner inv mem' mem (named'.trans named.symm)]
    exact signed
  · rw [acted] at mem'
    obtain ⟨s,found,⟨-,rfl⟩ | ⟨other,rfl⟩⟩ := actMem mem'
    · rfl
    · exact absurd named' other

theorem keepComplete {u : CompleteUnit} {i e e'} (inv : Consistent e) (actor : ActorNow u.loaded e)
    (h : CompleteEffect u i e e') : Consistent e' ∧ Later e e' := by
  have signers := completeSigners inv h
  have ended := completeEnded h
  have unprep := actor.unprep
  have document : e'.document = e.document ∨ (e.document.state ∈ [.sent,.inProgress] ∧
      ∃ state, (state = .completed ∨ state = .inProgress) ∧
        e'.document = { e.document with state := state, version := e.document.version+1 }) := by
    rcases h.document with ⟨-,-,state,moved⟩ | ⟨-,-,-,state,moved⟩ | ⟨-,-,same⟩
    · exact .inr ⟨state,.completed,.inl rfl,moved⟩
    · exact .inr ⟨state,.inProgress,.inr rfl,moved⟩
    · exact .inl same
  have stage : e.document.state.stage ≤ e'.document.state.stage := by
    rcases document with same | ⟨state,next,either,moved⟩
    · rw [same]
    · rw [moved]
      simp only [List.mem_cons,List.not_mem_nil,or_false] at state
      rcases state with s | s <;> rcases either with rfl | rfl <;> simp [s,DocumentState.stage]
  have unprep' : isPreparationState e'.document.state = false := by
    rw [unprepStage] at unprep ⊢
    omega
  have kept : e'.document.signingRevisionId = e.document.signingRevisionId ∧
      e'.document.signingMode = e.document.signingMode := by
    rcases document with same | ⟨-,next,-,moved⟩
    · rw [same]; exact ⟨rfl,rfl⟩
    · rw [moved]; exact ⟨rfl,rfl⟩
  constructor
  · constructor
    · rw [signers.ids]; exact inv.signerIds
    · exact h.sessions.distinct inv.sessionIds
    · rw [unprep']; intro prep; cases prep
    · rw [kept.1]; intro sent empty; exact inv.roster sent (signers.empty.mp empty)
    · intro session' mem' completed s' found' named'
      obtain ⟨session,mem,same,own | done⟩ := h.sessions.completed session' mem' completed
      · obtain ⟨now,nowMem,later⟩ := actor.session
        have equal : session = now := sameSession inv mem nowMem (by rw [own,later.id])
        refine completeSigned inv h s' found' ?_
        rw [named',← same,equal,later.signerId,actor.named]
      · exact completedKept inv signers ⟨session,mem,done,same⟩ s' found' named'
    · intro early
      rw [ended]
      exact inv.running (by omega)
    · intro s' mem' declined
      obtain ⟨s,found,later⟩ := signers.source s' mem'
      rw [ended]
      by_cases pending : s.status = .pending
      · rcases h.signers with ⟨same,-⟩ | ⟨acted,-⟩
        · rw [same] at mem'; exact inv.declined s' mem' declined
        · rw [acted] at mem'
          obtain ⟨t,tMem,⟨-,rfl⟩ | ⟨-,rfl⟩⟩ := actMem mem'
          · cases declined
          · exact inv.declined _ tMem declined
      · rw [later.acted pending] at declined
        exact inv.declined s found declined
    · intro final
      rcases document with same | ⟨-,next,either,moved⟩
      · rw [same] at final ⊢; exact inv.lease final
      · rw [moved] at final
        rcases either with rfl | rfl <;> rcases final with final | final <;> cases final
  · constructor
    · rcases document with same | ⟨-,next,-,moved⟩
      · rw [same]
      · rw [moved]; simp
    · intro same
      rcases document with kept | ⟨-,next,-,moved⟩
      · exact kept
      · rw [moved] at same; simp at same
    · exact stage
    · rw [kept.1]; exact id
    · rw [ended]; exact id
    · exact fun _ => kept.2
    · exact fun _ => signers
    · rw [unprep]; intro prep; cases prep
    · exact h.sessions.later
    · intro before after
      rw [ended,before] at after
      cases after

/-- What a write can do, once for all of them: most leave the document row alone,
two give a lease back, and the rest are described by their unit of work. -/
inductive Committed (i : Input) (e e' : Envelope) : Write → Prop where
  | still {w} (h : Still e e') (idle : isPreparationState e.document.state = true → e'.sessions = [])
      (artifact : e'.artifact = e.artifact ∨ (e.artifact = none ∧ ∃ u, w = .persist u)) : Committed i e e' w
  | released {w} (h : e' = { e with document := { e.document with
      leaseOwner := none, leaseUntil := none, version := e.document.version+1 } }) : Committed i e e' w
  | failed {w} (state : e.document.state = .finalizing) (h : e' = { e with document := { e.document with
      state := .finalizationFailed, leaseOwner := none, leaseUntil := none, version := e.document.version+1 } }) :
      Committed i e e' w
  | leased {input expectedVersion leaseUntil now current} (row : e.document = current)
      (frame : e' = { e with document := e'.document })
      (state : e'.document.state = Documents.leasedState e.document.state) (revised : Revised e.document e'.document)
      (kept : e'.document.currentRevisionId = e.document.currentRevisionId) :
      Committed i e e' (.takeLease input expectedVersion leaseUntil now current)
  | upload {u} (h : UploadEffect u e e') : Committed i e e' (.upload u)
  | inspect {u} (h : InspectEffect u e e') : Committed i e e' (.inspect u)
  | replaceSigners {u} (h : ReplaceSignersEffect u e e') : Committed i e e' (.replaceSigners u)
  | replaceFields {u} (h : ReplaceFieldsEffect u e e') : Committed i e e' (.replaceFields u)
  | send {u} (h : SendEffect u e e') : Committed i e e' (.send u)
  | void {u} (h : VoidEffect u e e') : Committed i e e' (.void u)
  | decline {u} (h : DeclineEffect u e e') : Committed i e e' (.decline u)
  | complete {u} (h : CompleteEffect u i e e') : Committed i e e' (.complete u)
  | flatten {u} (h : FlattenEffect u e e') : Committed i e e' (.flatten u)

theorem takeLeaseCommitted {input expectedVersion leaseUntil now current i e e'}
    (just : Read Before current e ∧ Documents.leasable expectedVersion input.owner now current = true)
    (ok : (Write.takeLease input expectedVersion leaseUntil now current).run i e = .ok e') :
    Committed i e e' (.takeLease input expectedVersion leaseUntil now current) := by
  have ok : Documents.takeLease expectedVersion input.owner leaseUntil now current e = .ok e' := ok
  obtain ⟨hit,rfl⟩ := updateDocumentOk ok
  obtain ⟨found,states,-⟩ := of_decide_eq_true just.2
  have row := just.1.row ((of_decide_eq_true hit).1.trans found.symm)
  refine .leased row rfl (by rw [row]) ⟨rfl,?_,rfl,rfl,?_⟩ rfl
  · rw [row]; exact leasedStage
  · intro final
    simp only [List.mem_cons,List.not_mem_nil,or_false] at states
    rcases states with h | h | h | h | h <;> simp [h,Documents.leasedState] at final

theorem Committed.quiet {w i e e'} (inv : Consistent e) (h : Quiet e e') (artifact : e'.artifact = e.artifact) :
    Committed i e e' w := .still h.toStill (fun prep => h.idle (inv.unsent prep).2.1) (.inl artifact)

theorem committed {w : Write} {i e e'} (inv : Consistent e) (just : Justified Before w e) (ok : w.run i e = .ok e') :
    Committed i e e' w := by
  cases w with
  | createIdempotency record =>
    obtain ⟨_,_,last⟩ := bindOk.mp ok
    cases last
    exact .quiet inv ⟨⟨rfl,rfl,rfl,rfl,.refl _,rfl,.refl _⟩,id⟩ rfl
  | completeIdempotency recordId response =>
    obtain ⟨_,_,last⟩ := bindOk.mp ok
    cases last
    exact .quiet inv ⟨⟨rfl,rfl,rfl,rfl,.refl _,rfl,.refl _⟩,id⟩ rfl
  | markExpired sessionId => exact .quiet inv (markExpiredEffect ok).quiet (markExpiredEffect ok).artifact
  | markPresented sessionId presentedAt =>
    have h := markPresentedEffect inv.sessionIds ok
    exact .quiet inv h.quiet h.artifact
  | upload u => exact .upload (uploadEffect ok)
  | abandon u => exact .quiet inv (abandonQuiet ok).1 (abandonQuiet ok).2
  | inspect u => exact .inspect (inspectEffect ok)
  | replaceSigners u => exact .replaceSigners (replaceSignersEffect ok)
  | replaceFields u => exact .replaceFields (replaceFieldsEffect ok)
  | send u =>
    obtain ⟨atDocument,atRoster,signers,source,later⟩ := just
    exact .send (sendEffect (fun s mem => (source.issued s mem).1) ok)
  | void u => exact .void (voidEffect ok)
  | rotate u =>
    obtain ⟨h,artifact⟩ := rotateStill ok
    refine .still h (fun prep => ?_) (.inl artifact)
    obtain ⟨⟨first,same,-,later⟩,available⟩ := just
    have unprep : isPreparationState first.document.state = false := by
      rw [← same]
      rcases availableState available with s | s <;> rw [s] <;> rfl
    rw [later.unprep unprep] at prep
    cases prep
  | revoke u => exact .quiet inv (revokeQuiet ok).1 (revokeQuiet ok).2
  | exchange u => exact .quiet inv (exchangeQuiet ok).1 (exchangeQuiet ok).2
  | viewed u =>
    have h := viewedQuiet inv.sessionIds ok
    exact .quiet inv h.1 h.2
  | consent u => exact .quiet inv (consentQuiet ok).1 (consentQuiet ok).2
  | decline u => exact .decline (declineEffect inv.signerIds ok)
  | complete u => exact .complete (completeEffect inv.signerIds ok)
  | takeLease input expectedVersion leaseUntil now current => exact takeLeaseCommitted just ok
  | finalizationStarted input occurredAt =>
    have h := appendQuiet ok rfl
    exact .quiet inv h.1 h.2
  | flatten u => exact .flatten (flattenEffect ok)
  | persist u =>
    obtain ⟨h,artifact⟩ := persistQuiet ok
    refine .still h.toStill (fun prep => h.idle (inv.unsent prep).2.1) ?_
    exact artifact.imp id (fun missing => ⟨missing,u,rfl⟩)
  | markFinalizationFailed owner =>
    cases ok
    rcases markFinalizationFailedCases owner e with same | ⟨state,changed⟩
    · rw [same]; exact .quiet inv (.refl e) rfl
    · exact .failed state changed
  | finalizationFailed input code occurredAt =>
    have h := appendQuiet ok rfl
    exact .quiet inv h.1 h.2
  | releaseLease owner =>
    cases ok
    rcases releaseCases owner e with same | changed
    · rw [same]; exact .quiet inv (.refl e) rfl
    · exact .released changed

theorem Committed.signers {w : Write} {i e e'} (done : Committed i e e' w) :
    (e'.signers = e.signers ∧ e'.document.signingMode = e.document.signingMode) ∨
    (∃ u, w = .replaceSigners u ∧ ReplaceSignersEffect u e e') ∨
    (∃ u, w = .decline u ∧ DeclineEffect u e e') ∨ (∃ u, w = .complete u ∧ CompleteEffect u i e e') := by
  cases done with
  | still h idle artifact => exact .inl ⟨h.signers,by rw [h.document]⟩
  | released h => subst h; exact .inl ⟨rfl,rfl⟩
  | failed state h => subst h; exact .inl ⟨rfl,rfl⟩
  | leased row frame state revised kept => exact .inl ⟨by rw [frame],revised.signingMode⟩
  | upload h => exact .inl ⟨h.signers,by rw [h.document]⟩
  | inspect h =>
    obtain ⟨status,changed⟩ := h.document
    exact .inl ⟨h.signers,by rw [changed]⟩
  | replaceSigners h => exact .inr (.inl ⟨_,rfl,h⟩)
  | replaceFields h =>
    refine .inl ⟨h.signers,?_⟩
    rcases h.document with same | ⟨-,state,-,-,changed⟩
    · rw [same]
    · rw [changed]
  | send h => exact .inl ⟨h.signers,by rw [h.document]⟩
  | void h => exact .inl ⟨h.signers,by rw [h.document]⟩
  | decline h => exact .inr (.inr (.inl ⟨_,rfl,h⟩))
  | complete h => exact .inr (.inr (.inr ⟨_,rfl,h⟩))
  | flatten h => exact .inl ⟨h.signers,by rw [h.document]⟩

theorem Committed.fields {w : Write} {i e e'} (done : Committed i e e' w) :
    e'.fields = e.fields ∨
    (∃ u, w = .replaceSigners u ∧ ReplaceSignersEffect u e e') ∨
    (∃ u, w = .replaceFields u ∧ ReplaceFieldsEffect u e e') ∨
    (∃ u, w = .complete u ∧ CompleteEffect u i e e') ∨ (∃ u, w = .flatten u ∧ FlattenEffect u e e') := by
  cases done with
  | still h idle artifact => exact .inl h.fields
  | released h => subst h; exact .inl rfl
  | failed state h => subst h; exact .inl rfl
  | leased row frame state revised kept => exact .inl (by rw [frame])
  | upload h => exact .inl h.fields
  | inspect h => exact .inl h.fields
  | replaceSigners h => exact .inr (.inl ⟨_,rfl,h⟩)
  | replaceFields h => exact .inr (.inr (.inl ⟨_,rfl,h⟩))
  | send h => exact .inl h.fields
  | void h => exact .inl h.fields
  | decline h => exact .inl h.fields
  | complete h => exact .inr (.inr (.inr (.inl ⟨_,rfl,h⟩)))
  | flatten h => exact .inr (.inr (.inr (.inr ⟨_,rfl,h⟩)))

/-- One write, whatever its program read before: the rows stay consistent and the
new store is later than the old one. -/
theorem keepConsistent {w : Write} {i e e'} (inv : Consistent e) (just : Justified Before w e)
    (done : Committed i e e' w) : Consistent e' ∧ Later e e' := by
  cases done with
  | still h idle artifact => exact keepStill inv h.document h.signers h.sessions h.audit idle
  | released h =>
    subst h
    exact keepRevised inv ⟨rfl,le_refl _,rfl,rfl,fun _ => rfl⟩ rfl rfl (.refl _)
  | failed state h =>
    subst h
    refine keepRevised inv ⟨rfl,?_,rfl,rfl,fun _ => rfl⟩ rfl rfl (.refl _)
    simp [state,DocumentState.stage]
  | leased row frame state revised kept =>
    refine keepRevised inv revised ?_ ?_ ?_
    · rw [frame]
    · rw [frame]
    · rw [frame]; exact .refl _
  | upload h =>
    refine keepRevised inv ?_ h.signers h.sessions h.audit
    rw [h.document]
    exact ⟨rfl,le_refl _,rfl,rfl,inv.lease⟩
  | inspect h =>
    obtain ⟨status,changed⟩ := h.document
    refine keepRevised inv ?_ h.signers h.sessions h.audit
    rw [changed]
    exact ⟨rfl,le_refl _,rfl,rfl,inv.lease⟩
  | replaceSigners h => exact keepReplaceSigners inv just h
  | replaceFields h =>
    exact keepPrepared inv just.document.row just.unlocked h.document h.signers h.sessions h.audit
  | send h =>
    obtain ⟨atDocument,atRoster,signers,source,later⟩ := just
    exact keepSend inv source later h
  | void h => exact keepVoid inv h
  | decline h => exact keepDecline inv h
  | complete h =>
    obtain ⟨atRoster,atFields,atConsent,source,later⟩ := just
    have loaded := ((source.loaded.before source.later).before source.toConsent).before later
    exact keepComplete inv (loaded.now (actorPending source.turn)) h
  | flatten h =>
    refine keepRevised inv ?_ h.signers h.sessions h.audit
    rw [h.document]
    refine ⟨rfl,?_,rfl,rfl,fun _ => rfl⟩
    simp only
    split
    · cases e.document.state <;> decide
    · exact le_refl _

theorem draftConsistent (draft : NewDraft) : Consistent (createDraftDocument draft) where
  signerIds := List.nodup_nil
  sessionIds := List.nodup_nil
  unsent _ := ⟨fun _ mem => (by cases mem),rfl,rfl⟩
  roster sent := by cases sent
  completed _ mem := by cases mem
  running _ := rfl
  declined _ mem := by cases mem
  lease final := by rcases final with final | final <;> cases final

/-- A step by which a request commits the write it has come to. -/
structure CommitStep (settings : Settings) (w : Write) (i : Input) (c c' : Running) : Prop where
  step : ∃ index next, c.tasks[index]? = some (.write w next) ∧ (esign settings).apply c (.step index i) = some c'
  run : w.run i c.store = .ok c'.store

/-- Every request, and every write it comes to. -/
abbrev anyScope : Scope Envelope Write Request := Scope.of (fun _ => True)

/-- A property of stores, and one of pairs of stores, that the writes of a scope
keep on top of what every write keeps. -/
structure Extension (scope : Scope Envelope Write Request) where
  Extra : Envelope → Prop
  Also : Envelope → Envelope → Prop
  refl : ∀ e, Also e e
  trans : ∀ {a b c}, Also a b → Also b c → Also a c
  keep : ∀ {w i e e'}, Consistent e → Extra e →
    Justified (fun a b => (Consistent a ∧ Extra a) ∧ Later a b ∧ Also a b) w e → Justified Before w e →
    scope.cond w e → w.run i e = .ok e' → Committed i e e' w → Consistent e' → Later e e' → Extra e' ∧ Also e e'

namespace Extension

variable {settings : Settings} {scope : Scope Envelope Write Request} (x : Extension scope)

def Past (a b : Envelope) : Prop := (Consistent a ∧ x.Extra a) ∧ Later a b ∧ x.Also a b

theorem past (a b : Envelope) (h : x.Past a b) : Before a b := ⟨h.1.1,h.2.1⟩

theorem step {w : Write} {i e e'} (inv : Consistent e ∧ x.Extra e) (just : Justified x.Past w e)
    (cond : scope.cond w e) (ok : w.run i e = .ok e') : (Consistent e' ∧ x.Extra e') ∧ Later e e' ∧ x.Also e e' := by
  have done := committed inv.1 (just.weaken x.past) ok
  obtain ⟨consistent,later⟩ := keepConsistent inv.1 (just.weaken x.past) done
  obtain ⟨extra,also⟩ := x.keep inv.1 inv.2 just (just.weaken x.past) cond ok done consistent later
  exact ⟨⟨consistent,extra⟩,later,also⟩

def outline (settings : Settings) : Outline (esign settings) scope where
  Inv e := Consistent e ∧ x.Extra e
  Rel a b := Later a b ∧ x.Also a b
  Pre := Justified x.Past
  refl e := ⟨.refl e,x.refl e⟩
  trans left right := ⟨left.1.trans right.1,x.trans left.2 right.2⟩
  keep := by
    intro w e i inv just cond
    rcases Write.execCases w e i with same | ok
    · show (Consistent (w.exec e i).1 ∧ x.Extra (w.exec e i).1) ∧ Later e (w.exec e i).1 ∧ x.Also e (w.exec e i).1
      rw [same]
      exact ⟨inv,.refl e,x.refl e⟩
    · exact x.step inv just cond ok

theorem starts (request : Request) (e : Envelope) (_ : scope.allow request) (_ : (esign settings).admits e request = true)
    (inv : (x.outline settings).Inv e) :
    (x.outline settings).Holds ((esign settings).start request) (fun _ _ => True) e :=
  startsJustified rfl request e inv

theorem run {start c} (inv : Consistent start ∧ x.Extra start) (reached : Run (esign settings) scope (initial start) c) :
    (x.outline settings).Sound c := (runSound x.starts (initialSound inv) reached).1

theorem runLater {c c'} (sound : (x.outline settings).Sound c) (reached : Run (esign settings) scope c c') :
    (x.outline settings).Sound c' ∧ Later c.store c'.store ∧ x.Also c.store c'.store := runSound x.starts sound reached

theorem stepCommits {c c'} (sound : (x.outline settings).Sound c) (next : Step (esign settings) scope c c') :
    c'.store = c.store ∨ ∃ w i, CommitStep settings w i c c' ∧ Justified x.Past w c.store ∧ scope.cond w c.store := by
  rcases stepWrote sound next with same | ⟨index,w,next,i,found,applied,just,cond,stored⟩
  · exact .inl same
  · have stored : c'.store = (w.exec c.store i).1 := stored
    rcases Write.execCases w c.store i with same | ok
    · exact .inl (stored.trans same)
    · rw [← stored] at ok
      exact .inr ⟨w,i,⟨⟨index,next,found,applied⟩,ok⟩,just,cond⟩

theorem stepRun {c c'} (sound : (x.outline settings).Sound c) (next : Step (esign settings) scope c c') :
    c'.store = c.store ∨ ∃ w i, Justified x.Past w c.store ∧ scope.cond w c.store ∧ w.run i c.store = .ok c'.store := by
  rcases x.stepCommits sound next with same | ⟨w,i,commits,just,cond⟩
  · exact .inl same
  · exact .inr ⟨w,i,just,cond,commits.run⟩

theorem stepCases {c c'} (sound : (x.outline settings).Sound c) (next : Step (esign settings) scope c c') :
    c'.store = c.store ∨ ∃ w i, Justified x.Past w c.store ∧ scope.cond w c.store ∧ Committed i c.store c'.store w := by
  rcases x.stepRun sound next with same | ⟨w,i,just,cond,ok⟩
  · exact .inl same
  · exact .inr ⟨w,i,just,cond,committed sound.inv.1 (just.weaken x.past) ok⟩

def restrict {scope' : Scope Envelope Write Request} (sub : ∀ w e, scope'.cond w e → scope.cond w e) : Extension scope' where
  Extra := x.Extra
  Also := x.Also
  refl := x.refl
  trans := x.trans
  keep inv extra past just cond ok done inv' later := x.keep inv extra past just (sub _ _ cond) ok done inv' later

theorem restricted {scope' : Scope Envelope Write Request} (sub : ∀ w e, scope'.cond w e → scope.cond w e) {c}
    (sound : (x.outline settings).Sound c) : ((x.restrict sub).outline settings).Sound c := soundRestrict sub sound

end Extension

/-- Every write of every run is under no condition. -/
def anyExtension : Extension anyScope where
  Extra _ := True
  Also _ _ := True
  refl _ := trivial
  trans _ _ := trivial
  keep _ _ _ _ _ _ _ _ _ := ⟨trivial,trivial⟩


end ESign
