import ESign.Completion
import ESign.Preparation

/-! One completed signing for each signer. A request that finds its signer signed
returns early, but the check is on the row it read. Of two requests that both read
the signer as pending the second is stopped by the document, if it has to write it,
or by a session that was closed in the meantime; `markSigned` and `markCompleted`
let it pass, and `complete` writes the field rows again. -/
namespace ESign
open StoreProgram

def Envelope.hasSigned (e : Envelope) (signerId : Id) : Bool :=
  e.signers.any (fun s => s.id = signerId ∧ s.status = .signed)

def signings (signerId : Id) (audit : List NewAuditEvent) : Nat :=
  audit.countP (fun event => event.type = .signerSigned ∧ event.actorId = some signerId)

def OutboxEvent.flattens (signerId : Id) (event : OutboxEvent) : Bool :=
  match event.payload with
  | .flattenSignature owner _ _ => owner = signerId
  | _ => false

def flattenJobs (signerId : Id) (outbox : List OutboxEvent) : Nat := outbox.countP (OutboxEvent.flattens signerId)

/-- The completion columns of a signer's fields. -/
def completions (signerId : Id) (fields : List SignatureField) : List (Id × Option FieldCompletion) :=
  (fields.filter (fun field => field.signerId = signerId)).map (fun field => (field.id,field.completion))

/-- The unit writes the document, and its compare-and-set fails. -/
def CompleteUnit.documentMoved (u : CompleteUnit) (e : Envelope) : Prop :=
  (u.documentCompleted = true ∨ u.loaded.document.state = .sent) ∧
    ¬ (e.document.version = u.loaded.document.version ∧ e.document.state ∈ [.sent,.inProgress])

def CompleteUnit.sessionClosed (u : CompleteUnit) (e : Envelope) : Prop :=
  ∀ session ∈ e.sessions, session.id = u.loaded.session.id → session.open = false ∧ session.status ≠ .completed

/-- A signing that meets its signer already signed is refused for another reason. -/
def SignsOnce : Write → Envelope → Prop
  | .complete u, e => e.hasSigned u.loaded.signer.id = true → u.documentMoved e ∨ u.sessionClosed e
  | _, _ => True

def signsOnce : Scope Envelope Write Request := ⟨fun _ => True,fun w e => FrozenAfterSend w e ∧ SignsOnce w e⟩

theorem hasSignedOk {e : Envelope} {signerId} :
    e.hasSigned signerId = true ↔ ∃ s ∈ e.signers, s.id = signerId ∧ s.status = .signed := by
  simp [Envelope.hasSigned]

theorem signingsQuiet {audit audit' : List NewAuditEvent} {signerId} (h : Logged audit audit') :
    signings signerId audit' = signings signerId audit := by
  obtain ⟨events,rfl,quiet⟩ := h
  unfold signings
  rw [List.countP_append]
  have none : events.countP (fun event => event.type = .signerSigned ∧ event.actorId = some signerId) = 0 := by
    rw [List.countP_eq_zero]
    intro event mem
    have unmarked := quiet event mem
    simp [marks] at unmarked
    simp [unmarked]
  omega

theorem signingsOther {audit audit' : List NewAuditEvent} {signerId}
    (h : ∃ event : NewAuditEvent, event.type ≠ .signerSigned ∧ audit' = audit ++ [event]) :
    signings signerId audit' = signings signerId audit := by
  obtain ⟨event,other,rfl⟩ := h
  simp [signings,List.countP_append,other]

theorem flattenJobsOther {outbox outbox' : List OutboxEvent} {signerId}
    (h : ∃ jobs, outbox' = outbox ++ jobs ∧ ∀ job ∈ jobs, job.flattens signerId = false) :
    flattenJobs signerId outbox' = flattenJobs signerId outbox := by
  obtain ⟨jobs,rfl,other⟩ := h
  unfold flattenJobs
  rw [List.countP_append]
  have none : jobs.countP (OutboxEvent.flattens signerId) = 0 := by
    rw [List.countP_eq_zero]
    intro job mem
    simp [other job mem]
  omega

/- Only a completed signing leaves a `signer_signed` event and a job to flatten it. -/
theorem Committed.signings {w : Write} {i e e'} (done : Committed i e e' w) (signerId : Id) :
    (∃ u, w = .complete u ∧ CompleteEffect u i e e') ∨
    (ESign.signings signerId e'.audit = ESign.signings signerId e.audit ∧
      flattenJobs signerId e'.outbox = flattenJobs signerId e.outbox) := by
  cases done with
  | still h idle artifact => exact .inr ⟨signingsQuiet h.audit,by rw [h.outbox]⟩
  | released h => subst h; exact .inr ⟨rfl,rfl⟩
  | failed state h => subst h; exact .inr ⟨rfl,rfl⟩
  | leased row frame state revised kept => exact .inr ⟨by rw [frame],by rw [frame]⟩
  | upload h =>
    refine .inr ⟨signingsQuiet h.audit,flattenJobsOther ?_⟩
    obtain ⟨jobs,published,inspect⟩ := h.outbox
    refine ⟨jobs,published,fun job mem => ?_⟩
    obtain ⟨revisionId,payload⟩ := inspect job mem
    rw [OutboxEvent.flattens,payload]
  | inspect h => exact .inr ⟨signingsQuiet h.audit,by rw [h.outbox]⟩
  | replaceSigners h => exact .inr ⟨signingsQuiet h.audit,by rw [h.outbox]⟩
  | replaceFields h => exact .inr ⟨signingsQuiet h.audit,by rw [h.outbox]⟩
  | send h =>
    refine .inr ⟨signingsQuiet h.audit,flattenJobsOther ?_⟩
    obtain ⟨jobs,published,notify⟩ := h.outbox
    refine ⟨jobs,published,fun job mem => ?_⟩
    obtain ⟨owner,sessionId,payload⟩ := notify job mem
    rw [OutboxEvent.flattens,payload]
  | void h =>
    obtain ⟨event,type,grown⟩ := h.audit
    exact .inr ⟨signingsOther ⟨event,by rw [type]; decide,grown⟩,by rw [h.outbox]⟩
  | decline h =>
    obtain ⟨event,type,grown⟩ := h.audit
    exact .inr ⟨signingsOther ⟨event,by rw [type]; decide,grown⟩,by rw [h.outbox]⟩
  | complete h => exact .inl ⟨_,rfl,h⟩
  | flatten h => exact .inr ⟨signingsQuiet h.audit,by rw [h.outbox]⟩

theorem hasSignedKept {e e'} (inv : Consistent e) (later : Later e e') {signerId}
    (signed : e.hasSigned signerId = true) : e'.hasSigned signerId = true := by
  obtain ⟨s,mem,named,status⟩ := hasSignedOk.mp signed
  have unprep : isPreparationState e.document.state = false := by
    cases prep : isPreparationState e.document.state with
    | false => rfl
    | true => rw [(inv.unsent prep).1 s mem] at status; cases status
  obtain ⟨s',mem',moved⟩ := (later.signers unprep).mem s mem
  have same := moved.acted (by rw [status]; decide)
  exact hasSignedOk.mpr ⟨s',mem',by rw [same]; exact named,by rw [same]; exact status⟩

/-- At most one event and one job for each signer, and none before it has signed. -/
structure Once (e : Envelope) : Prop where
  arranged : Arranged e
  signedSent : ∀ s ∈ e.signers, s.status = .signed → e.sent = true
  atMost : ∀ signerId, signings signerId e.audit ≤ 1 ∧ flattenJobs signerId e.outbox ≤ 1
  unsigned : ∀ signerId, e.hasSigned signerId = false →
    signings signerId e.audit = 0 ∧ flattenJobs signerId e.outbox = 0

/-- Later stores have the same preparation, and what a signed signer has completed. -/
structure Kept (e e' : Envelope) : Prop where
  frozen : Frozen e e'
  signed : ∀ signerId, e.hasSigned signerId = true → e'.hasSigned signerId = true ∧
    completions signerId e'.fields = completions signerId e.fields

theorem Kept.refl (e : Envelope) : Kept e e := ⟨.refl e,fun _ signed => ⟨signed,rfl⟩⟩

theorem Kept.trans {a b c} (left : Kept a b) (right : Kept b c) : Kept a c := by
  refine ⟨left.frozen.trans right.frozen,fun signerId signed => ?_⟩
  obtain ⟨between,first⟩ := left.signed signerId signed
  obtain ⟨after,second⟩ := right.signed signerId between
  exact ⟨after,second.trans first⟩

theorem completesUnsigned {u : CompleteUnit} {i e e'} (cond : SignsOnce (.complete u) e) (h : CompleteEffect u i e e') :
    e.hasSigned u.loaded.signer.id = false := by
  cases signed : e.hasSigned u.loaded.signer.id with
  | false => rfl
  | true =>
    rcases cond signed with ⟨writes,moved⟩ | closed
    · rcases h.document with ⟨-,version,state,-⟩ | ⟨-,-,version,state,-⟩ | ⟨open_,early,-⟩
      · exact absurd ⟨version,state⟩ moved
      · exact absurd ⟨version,state⟩ moved
      · rw [open_] at writes
        rcases writes with done | sent
        · cases done
        · exact absurd sent early
    · obtain ⟨session,mem,named,live⟩ := h.sessions.found
      obtain ⟨notOpen,running⟩ := closed session mem named
      rcases live with isOpen | completed
      · rw [notOpen] at isOpen; cases isOpen
      · exact absurd completed running

theorem completionsKept {rows rows' : List SignatureField} {signerId}
    (h : List.Forall₂ (fun f f' => f'.id = f.id ∧ f'.signerId = f.signerId ∧
      (f.signerId = signerId → f'.completion = f.completion)) rows rows') :
    completions signerId rows' = completions signerId rows := by
  unfold completions
  induction h with
  | nil => rfl
  | cons first _ ih =>
    obtain ⟨id,owner,completion⟩ := first
    rw [List.filter_cons,List.filter_cons,owner]
    split
    · rename_i own
      rw [List.map_cons,List.map_cons,ih,id,completion (of_decide_eq_true own)]
    · exact ih

theorem flattenedCompletions {ids revisionId rows signerId} :
    completions signerId (flattened ids revisionId rows) = completions signerId rows := by
  refine completionsKept ?_
  unfold flattened
  rw [List.forall₂_map_right_iff,List.forall₂_same]
  intro f _
  split <;> exact ⟨rfl,rfl,fun _ => rfl⟩

/- The fields a signing selected are still its signer's: the preparation has not
moved since they were read, and ids are distinct. -/
theorem selectedOwned {u : CompleteUnit} {atFields e : Envelope} (ids : (e.fields.map SignatureField.id).Nodup)
    (same : e.preparation = atFields.preparation)
    (selected : ∀ field ∈ u.selected, field ∈ atFields.fields ∧ field.signerId = u.loaded.signer.id) :
    ∀ f ∈ e.fields, f.id ∈ u.selected.map SignatureField.id → f.signerId = u.loaded.signer.id := by
  intro f mem named
  obtain ⟨g,chosen,gId⟩ := List.mem_map.mp named
  obtain ⟨found,owner⟩ := selected g chosen
  have rows : e.fields.map SignatureField.prepared = atFields.fields.map SignatureField.prepared :=
    congrArg Preparation.fields same
  have there : g.prepared ∈ e.fields.map SignatureField.prepared := by
    rw [rows]
    exact List.mem_map_of_mem found
  obtain ⟨k,kMem,kSame⟩ := List.mem_map.mp there
  have kId : k.id = g.id := congrArg PreparedField.id kSame
  have kOwner : k.signerId = g.signerId := congrArg PreparedField.signerId kSame
  have equal : f = k := List.inj_on_of_nodup_map ids mem kMem (by rw [kId,gId])
  rw [equal,kOwner,owner]

theorem completeCompletions {u : CompleteUnit} {i e e'} (h : CompleteEffect u i e e')
    (owned : ∀ f ∈ e.fields, f.id ∈ u.selected.map SignatureField.id → f.signerId = u.loaded.signer.id)
    {signerId} (other : signerId ≠ u.loaded.signer.id) :
    completions signerId e'.fields = completions signerId e.fields := by
  refine completionsKept ?_
  refine ((List.forall₂_and_left _ _).mpr ⟨owned,h.fields⟩).imp (fun f f' row => ?_)
  obtain ⟨own,completed⟩ := row
  have kept := completed.kept
  refine ⟨by rw [kept],by rw [kept],fun named => ?_⟩
  rw [completed.only (fun chosen => other (named.symm.trans (own chosen)))]

theorem completeSignings {u : CompleteUnit} {i e e'} (h : CompleteEffect u i e e') (signerId : Id) :
    signings signerId e'.audit = signings signerId e.audit + (if u.loaded.signer.id = signerId then 1 else 0) ∧
    flattenJobs signerId e'.outbox = flattenJobs signerId e.outbox + (if u.loaded.signer.id = signerId then 1 else 0) := by
  rw [h.audit,h.outbox]
  constructor
  · simp [signings,List.countP_append,List.countP_cons,CompleteUnit.signed]
  · simp [flattenJobs,List.countP_append,List.countP_cons,OutboxEvent.flattens,CompleteUnit.job]

theorem keepOnce {w : Write} {i e e'} (inv : Consistent e) (extra : Once e)
    (past : Justified (fun a b => (Consistent a ∧ Once a) ∧ Later a b ∧ Kept a b) w e) (just : Justified Before w e)
    (cond : SignsOnce w e) (done : Committed i e e' w) (inv' : Consistent e') (later : Later e e') : Once e' := by
  have arranged := keepArranged (fun a b h => ⟨⟨h.1.1,h.1.2.arranged.sent⟩,h.2.1⟩) extra.arranged past done later
  have unsignedBefore : ∀ signerId, e'.hasSigned signerId = false → e.hasSigned signerId = false := by
    intro signerId unsigned
    cases signed : e.hasSigned signerId with
    | false => rfl
    | true => rw [hasSignedKept inv later signed] at unsigned; cases unsigned
  have signedSent : ∀ s ∈ e'.signers, s.status = .signed → e'.sent = true := by
    intro s' mem' status
    rcases done.signers with ⟨same,-⟩ | ⟨u,rfl,h⟩ | ⟨u,rfl,h⟩ | ⟨u,rfl,h⟩
    · rw [same] at mem'
      exact later.sent (extra.signedSent s' mem' status)
    · have row := just.document.row h.version
      have prep : isPreparationState e.document.state = true := by rw [row]; exact just.unlocked
      have prep' := (h.preparation prep (inv.unsent prep).2.2).2.1
      rw [(inv'.unsent prep').1 s' mem'] at status
      cases status
    · rw [h.signers] at mem'
      obtain ⟨s,mem,⟨-,rfl⟩ | ⟨-,rfl⟩⟩ := actMem mem'
      · cases status
      · exact later.sent (extra.signedSent _ mem status)
    · obtain ⟨atRoster,atFields,atConsent,source,last⟩ := past
      have sent := completeSent (fun a b h => ⟨⟨h.1.1,h.1.2.arranged.sent⟩,h.2.1⟩) source.loaded (actorPending source.turn)
      exact (source.later.2.1.trans (source.toConsent.2.1.trans (last.2.1.trans later))).sent sent
  constructor
  · exact arranged
  · exact signedSent
  · intro signerId
    rcases done.signings signerId with ⟨u,rfl,h⟩ | ⟨events,jobs⟩
    · obtain ⟨events,jobs⟩ := completeSignings h signerId
      rw [events,jobs]
      split
      · rename_i named
        obtain ⟨first,second⟩ := extra.unsigned signerId (named ▸ completesUnsigned cond h)
        omega
      · exact extra.atMost signerId
    · rw [events,jobs]
      exact extra.atMost signerId
  · intro signerId unsigned
    obtain ⟨first,second⟩ := extra.unsigned signerId (unsignedBefore signerId unsigned)
    rcases done.signings signerId with ⟨u,rfl,h⟩ | ⟨events,jobs⟩
    · obtain ⟨events,jobs⟩ := completeSignings h signerId
      have other : u.loaded.signer.id ≠ signerId := by
        rintro rfl
        have present : ∃ s ∈ e'.signers, s.id = u.loaded.signer.id := by
          have signers := completeSigners inv h
          have row : ∃ s ∈ e.signers, s.id = u.loaded.signer.id := by
            rcases h.signers with ⟨-,row,mem,named,-⟩ | ⟨-,row,mem,named,-⟩ <;> exact ⟨row,mem,named⟩
          obtain ⟨s,mem,named⟩ := row
          obtain ⟨s',mem',moved⟩ := signers.mem s mem
          exact ⟨s',mem',moved.id.trans named⟩
        obtain ⟨s',mem',named⟩ := present
        rw [hasSignedOk.mpr ⟨s',mem',named,completeSigned inv h s' mem' named⟩] at unsigned
        cases unsigned
      rw [events,jobs,if_neg other]
      exact ⟨first,second⟩
    · rw [events,jobs]
      exact ⟨first,second⟩

theorem keepKept {w : Write} {i e e'} (inv : Consistent e) (extra : Once e)
    (past : Justified (fun a b => (Consistent a ∧ Once a) ∧ Later a b ∧ Kept a b) w e) (just : Justified Before w e)
    (cond : FrozenAfterSend w e ∧ SignsOnce w e) (done : Committed i e e' w) (later : Later e e') : Kept e e' := by
  refine ⟨keepFrozen inv just cond.1 done later,fun signerId signed => ⟨hasSignedKept inv later signed,?_⟩⟩
  have sent : e.sent = true := by
    obtain ⟨s,mem,-,status⟩ := hasSignedOk.mp signed
    exact extra.signedSent s mem status
  rcases done.fields with same | ⟨u,rfl,h⟩ | ⟨u,rfl,h⟩ | ⟨u,rfl,h⟩ | ⟨u,rfl,h⟩
  · rw [same]
  · rw [replaceSignersUnsent inv just h] at sent; cases sent
  · rw [replaceFieldsUnsent inv just cond.1 h] at sent; cases sent
  · have other : signerId ≠ u.loaded.signer.id := by
      rintro rfl
      rw [completesUnsigned cond.2 h] at signed
      cases signed
    obtain ⟨atRoster,atFields,atConsent,source,last⟩ := past
    have rosterSent := completeSent (fun a b h => ⟨⟨h.1.1,h.1.2.arranged.sent⟩,h.2.1⟩) source.loaded (actorPending source.turn)
    have frozen := ((source.toConsent.2.2.trans last.2.2).frozen (source.later.2.1.sent rosterSent)).2
    exact completeCompletions h (selectedOwned extra.arranged.fieldIds frozen source.selected) other
  · rw [h.fields]; exact flattenedCompletions

def onceExtension : Extension signsOnce where
  Extra := Once
  Also := Kept
  refl := .refl
  trans := .trans
  keep inv extra past just cond _ done inv' later :=
    ⟨keepOnce inv extra past just cond.2 done inv' later,keepKept inv extra past just cond done later⟩

/-- A signer signs once at most, and what was completed then stays. -/
def SignedOnce (settings : Settings) (scope : Scope Envelope Write Request) (draft : NewDraft) : Prop :=
  ∀ c, Run (esign settings) scope (initial (createDraftDocument draft)) c →
    (∀ signerId, signings signerId c.store.audit ≤ 1 ∧ flattenJobs signerId c.store.outbox ≤ 1) ∧
    ∀ c', Run (esign settings) scope c c' → ∀ s ∈ c.store.signers, s.status = .signed →
      completions s.id c'.store.fields = completions s.id c.store.fields

theorem draftOnce (draft : NewDraft) : Once (createDraftDocument draft) where
  arranged := draftArranged draft
  signedSent _ mem := by cases mem
  atMost signerId := by simp [createDraftDocument,signings,flattenJobs]
  unsigned signerId _ := by simp [createDraftDocument,signings,flattenJobs]

/-- From a fresh draft, under any interleaving, duplication and retry of requests, as
long as a signing that meets its signer signed has another reason to be refused. -/
theorem oneCompletionPerSigner (settings : Settings) (draft : NewDraft) : SignedOnce settings signsOnce draft := by
  intro c reached
  have sound := onceExtension.run ⟨draftConsistent draft,draftOnce draft⟩ reached
  refine ⟨sound.inv.2.atMost,fun c' after s mem signed => ?_⟩
  exact ((onceExtension.runLater sound after).2.2.signed s.id (hasSignedOk.mpr ⟨s,mem,rfl,signed⟩)).2

/-- The first signer has signed; two requests of the second read everything before
either commits, with other keys and other ink. -/
def ThreeSigners.signedTwice : List (Action Input Request) :=
  consented .parallel ++ served 11 12 15 (complete 650 400 61) ++
  served 12 13 6 (complete 750 401 62) ++ served 13 14 6 (complete 750 401 63) ++ turns 12 13 9

set_option maxRecDepth 100000 in
theorem completedTwice : ¬ SignedOnce ThreeSigners.settings (Scope.of (fun _ => True)) ThreeSigners.draft := by
  intro claimed
  have evaluated : ((esign ThreeSigners.settings).applyAll (fun _ _ => true) ThreeSigners.start
      (ThreeSigners.signedTwice ++ ThreeSigners.turns 13 14 9)).map (fun c =>
        (signings 301 c.store.audit,flattenJobs 301 c.store.outbox)) = some (2,2) := by decide +kernel
  obtain ⟨c,reached,counts⟩ := Option.map_eq_some_iff.mp evaluated
  simp only [Prod.mk.injEq] at counts
  have run : Run (esign ThreeSigners.settings) (Scope.of (fun _ => True)) ThreeSigners.start c :=
    runOfActions (fun _ _ => trivial) (fun _ _ _ => trivial) reached
  have once := ((claimed c run).1 301).1
  omega

set_option maxRecDepth 100000 in
/- The second commit also replaces the ink of a signer who had signed. -/
example : (do
    let c ← (esign ThreeSigners.settings).applyAll (fun _ _ => true) ThreeSigners.start ThreeSigners.signedTwice
    let c' ← (esign ThreeSigners.settings).applyAll (fun _ _ => true) c (ThreeSigners.turns 13 14 9)
    pure (c.store.hasSigned 301,(completions 301 c.store.fields).map Prod.snd,(completions 301 c'.store.fields).map Prod.snd)) =
    some (true,[some ⟨1,some (.signatures 62),some 1,some 62⟩],[some ⟨1,some (.signatures 63),some 1,some 63⟩]) := by
  decide +kernel

instance (u : CompleteUnit) (e : Envelope) : Decidable (u.documentMoved e) :=
  inferInstanceAs (Decidable ((_ ∨ _) ∧ ¬ (_ ∧ _)))

instance (u : CompleteUnit) (e : Envelope) : Decidable (u.sessionClosed e) :=
  inferInstanceAs (Decidable (∀ session ∈ e.sessions, _ → _))

def signsOnceCheck (w : Write) (e : Envelope) : Bool :=
  frozenAfterSendCheck w e && match w with
  | .complete u => !e.hasSigned u.loaded.signer.id || u.documentMoved e || u.sessionClosed e
  | _ => true

theorem signsOnceChecked (w : Write) (e : Envelope) (ok : signsOnceCheck w e = true) : signsOnce.cond w e := by
  simp only [signsOnceCheck,Bool.and_eq_true] at ok
  refine ⟨frozenAfterSendChecked w e ok.1,?_⟩
  cases w with
  | complete u =>
    intro signed
    simpa [signed] using ok.2
  | _ => trivial

set_option maxRecDepth 100000 in
/-- Everyone signs in turn, and a request that is sent again after the first of its
kind has read the document as `sent` is refused by the document's version. -/
theorem orderlySignedOnce : ∃ c c', Run (esign ThreeSigners.settings) signsOnce ThreeSigners.start c ∧
    Run (esign ThreeSigners.settings) signsOnce c c' ∧ signings 300 c.store.audit = 1 ∧
    c'.store.document.state = .completed ∧ signings 300 c'.store.audit ≤ 1 ∧
    completions 300 c'.store.fields = completions 300 c.store.fields := by
  have evaluated : (do
      let c ← (esign ThreeSigners.settings).applyAll signsOnceCheck ThreeSigners.start
        (ThreeSigners.consented .parallel ++ ThreeSigners.served 11 12 6 (ThreeSigners.complete 650 400 61) ++
          ThreeSigners.served 12 13 15 (ThreeSigners.complete 650 400 64))
      let c' ← (esign ThreeSigners.settings).applyAll signsOnceCheck c
        (ThreeSigners.turns 11 12 8 ++ ThreeSigners.served 13 14 15 (ThreeSigners.complete 750 401 62) ++
          ThreeSigners.served 14 15 15 (ThreeSigners.complete 850 402 63))
      pure (signings 300 c.store.audit,c.store.signers.any (fun s => s.id = 300 ∧ s.status = .signed),
        c'.store.document.state)) = some (1,true,.completed) := by decide +kernel
  simp only [bind,Option.bind_eq_some_iff] at evaluated
  obtain ⟨c,reached,c',after,rows⟩ := evaluated
  simp only [pure,Option.some.injEq,Prod.mk.injEq] at rows
  have first := runOfActions (fun _ _ => trivial) signsOnceChecked reached
  have second := runOfActions (fun _ _ => trivial) signsOnceChecked after
  obtain ⟨s,mem,named,signed⟩ := hasSignedOk.mp rows.2.1
  have whole := (oneCompletionPerSigner _ ThreeSigners.draft c' (first.trans second)).1 300
  have kept := (oneCompletionPerSigner _ ThreeSigners.draft c first).2 c' second s mem signed
  rw [named] at kept
  exact ⟨c,c',first,second,rows.1,rows.2.2,whole.1,kept⟩

end ESign
