import ESign.StateTransitions

/-! What a document is prepared with, and until when it may be replaced. The lock
is checked on the document that was read; inside the unit of work only the version
stands for it. `replaceDocumentSigners` always writes the document and so always
compares it. `replaceDocumentFields` writes it when the new fields change the state
the document is in, and otherwise commits whatever has happened to it since. -/
namespace ESign
open StoreProgram

/-- The columns of a signer that belong to the roster, without its progress. -/
structure PreparedSigner where
  id : Id
  accountUserId : Option Id
  routingOrder : Int
  email : Text
  displayName : Text
  deriving DecidableEq, Repr

structure PreparedField where
  id : Id
  signerId : Id
  type : SignatureFieldType
  box : FieldBox
  required : Bool
  deriving DecidableEq, Repr

structure Preparation where
  signingMode : SigningMode
  signers : List PreparedSigner
  fields : List PreparedField
  deriving DecidableEq, Repr

def Signer.prepared (s : Signer) : PreparedSigner := ⟨s.id,s.accountUserId,s.routingOrder,s.email,s.displayName⟩

def SignatureField.prepared (f : SignatureField) : PreparedField := ⟨f.id,f.signerId,f.type,f.box,f.required⟩

def Envelope.preparation (e : Envelope) : Preparation :=
  ⟨e.document.signingMode,e.signers.map Signer.prepared,e.fields.map SignatureField.prepared⟩

/-- The document has been sent, whatever became of it afterwards. -/
def Envelope.sent (e : Envelope) : Bool := e.document.signingRevisionId.isSome

/-- A replacement of fields that meets a sent document changes the state of the
document it was given, and so compares the version. -/
def FrozenAfterSend : Write → Envelope → Prop
  | .replaceFields u, e => e.sent = true → u.document.state ≠ nextPreparationState u.document u.signers u.fields
  | _, _ => True

def frozenAfterSend : Scope Envelope Write Request := ⟨fun _ => True,FrozenAfterSend⟩

theorem sentUnprep {e} (inv : Consistent e) (sent : e.sent = true) : isPreparationState e.document.state = false := by
  cases prep : isPreparationState e.document.state with
  | false => rfl
  | true =>
    unfold Envelope.sent at sent
    rw [(inv.unsent prep).2.2] at sent
    cases sent

theorem preparedMap {rows rows' : List Signer} (h : SignersLater rows rows') :
    rows'.map Signer.prepared = rows.map Signer.prepared := by
  induction h with
  | nil => rfl
  | cons first _ ih =>
    obtain ⟨user,email,name⟩ := first.identity
    simp [Signer.prepared,first.id,first.routingOrder,user,email,name,ih]

theorem completedPrepared {ids rows rows'} (h : List.Forall₂ (FieldCompleted ids) rows rows') :
    rows'.map SignatureField.prepared = rows.map SignatureField.prepared := by
  induction h with
  | nil => rfl
  | cons first _ ih =>
    rw [List.map_cons,List.map_cons,ih,first.kept]
    rfl

theorem flattenedPrepared {ids revisionId rows} :
    (flattened ids revisionId rows).map SignatureField.prepared = rows.map SignatureField.prepared := by
  unfold flattened
  rw [List.map_map]
  refine List.map_congr_left (fun row _ => ?_)
  simp only [Function.comp]
  split <;> rfl

theorem replaceFieldsUnsent {u : ReplaceFieldsUnit} {e e'} (inv : Consistent e)
    (just : ReplaceFieldsSource Before u e) (cond : FrozenAfterSend (.replaceFields u) e)
    (h : ReplaceFieldsEffect u e e') : e.sent = false := by
  cases sent : e.sent with
  | false => rfl
  | true =>
    have changes := cond sent
    have allowed : canTransitionDocument u.document.state (nextPreparationState u.document u.signers u.fields) = true := by
      have prep := just.unlocked
      simp only [isPreparationState,decide_eq_true_eq] at prep
      have wanted : nextPreparationState u.document u.signers u.fields = .draft ∨
          nextPreparationState u.document u.signers u.fields = .prepared := by
        unfold nextPreparationState
        split <;> simp
      rcases prep with s | s <;> rcases wanted with n | n <;> rw [s,n] at changes ⊢ <;>
        first | rfl | exact absurd rfl changes
    have row := just.document.row (h.versioned changes allowed)
    have unprep := sentUnprep inv sent
    rw [row,just.unlocked] at unprep
    cases unprep

theorem replaceSignersUnsent {u : ReplaceSignersUnit} {e e'} (inv : Consistent e)
    (just : ReplaceSignersSource Before u e) (h : ReplaceSignersEffect u e e') : e.sent = false := by
  cases sent : e.sent with
  | false => rfl
  | true =>
    have unprep := sentUnprep inv sent
    rw [just.document.row h.version,just.unlocked] at unprep
    cases unprep

theorem keepPreparation {w : Write} {i e e'} (inv : Consistent e) (just : Justified Before w e)
    (cond : FrozenAfterSend w e) (done : Committed i e e' w) (later : Later e e') (sent : e.sent = true) :
    e'.preparation = e.preparation := by
  have unprep := sentUnprep inv sent
  have fields : e'.fields.map SignatureField.prepared = e.fields.map SignatureField.prepared := by
    rcases done.fields with same | ⟨u,rfl,h⟩ | ⟨u,rfl,h⟩ | ⟨u,rfl,h⟩ | ⟨u,rfl,h⟩
    · rw [same]
    · rw [replaceSignersUnsent inv just h] at sent; cases sent
    · rw [replaceFieldsUnsent inv just cond h] at sent; cases sent
    · exact completedPrepared h.fields
    · rw [h.fields]; exact flattenedPrepared
  unfold Envelope.preparation
  rw [later.mode unprep,preparedMap (later.signers unprep),fields]

/-- The states a document can only be in after it was sent. -/
def DocumentState.signing : DocumentState → Bool
  | .sent => true
  | .inProgress => true
  | .completed => true
  | .finalizing => true
  | .finalizationFailed => true
  | .finalized => true
  | _ => false

theorem leasedSigning {state} : (Documents.leasedState state).signing = state.signing := by
  cases state <;> rfl

theorem signableSigning {state : DocumentState} (signable : state ∈ [.sent,.inProgress]) : state.signing = true := by
  simp only [List.mem_cons,List.not_mem_nil,or_false] at signable
  rcases signable with rfl | rfl <;> rfl

theorem prepSigning {state} (prep : isPreparationState state = true) : state.signing = false := by
  cases state <;> first | rfl | cases prep

theorem leasableSigning {expectedVersion owner now document}
    (h : Documents.leasable expectedVersion owner now document = true) : document.state.signing = true := by
  obtain ⟨-,states,-⟩ := of_decide_eq_true h
  simp only [List.mem_cons,List.not_mem_nil,or_false] at states
  rcases states with s | s | s | s | s <;> rw [s] <;> rfl

/-- Only a document that was sent is ever signed or finalized. -/
def SigningSent (e : Envelope) : Prop := e.document.state.signing = true → e.sent = true

theorem SigningSent.prep {e} (prep : isPreparationState e.document.state = true) : SigningSent e := by
  intro signing
  rw [prepSigning prep] at signing
  cases signing

theorem SigningSent.kept {e e'} (h : SigningSent e) (state : e'.document.state.signing = e.document.state.signing)
    (revision : e'.document.signingRevisionId = e.document.signingRevisionId) : SigningSent e' := by
  intro signing
  rw [state] at signing
  unfold Envelope.sent
  rw [revision]
  exact h signing

/- A finalizing commit need not meet a state that is signed in, but its lease was
taken on one. -/
theorem flattenSent {past : Envelope → Envelope → Prop} {u : FlattenUnit} {e}
    (before : ∀ a b, past a b → SigningSent a ∧ Later a b) (just : Justified past (.flatten u) e) : e.sent = true := by
  obtain ⟨atDocument,atRoster,atFields,found,taken,reread,atRevision,source,later⟩ := just
  obtain ⟨now,leasable⟩ := source.leasable
  obtain ⟨sent,toTaken⟩ := before _ _ source.toTaken
  have toEnd := (toTaken.trans (before _ _ source.toReread).2).trans ((before _ _ source.toRevision).2.trans (before _ _ later).2)
  exact toEnd.sent (sent (leasableSigning leasable))

theorem keepSigningSent {past : Envelope → Envelope → Prop} {w : Write} {i e e'}
    (before : ∀ a b, past a b → SigningSent a ∧ Later a b) (h : SigningSent e) (just : Justified past w e)
    (done : Committed i e e' w) : SigningSent e' := by
  cases done with
  | still h' idle artifact => exact h.kept (by rw [h'.document]) (by rw [h'.document])
  | released h' => subst h'; exact h
  | failed state h' => subst h'; exact h.kept (by simp [state,DocumentState.signing]) rfl
  | leased row frame state revised kept => exact h.kept (by rw [state,leasedSigning]) revised.signingRevisionId
  | upload h' => exact h.kept (by rw [h'.document]) (by rw [h'.document])
  | inspect h' =>
    obtain ⟨status,changed⟩ := h'.document
    exact h.kept (by rw [changed]) (by rw [changed])
  | replaceSigners h' =>
    obtain ⟨given,same,rfl | ⟨-,state,either,-,changed⟩⟩ := h'.document
    · exact h.kept (by rw [same]) (by rw [same])
    · refine .prep ?_
      rw [changed]
      rcases either with rfl | rfl <;> rfl
  | replaceFields h' =>
    rcases h'.document with same | ⟨-,state,either,-,changed⟩
    · exact h.kept (by rw [same]) (by rw [same])
    · refine .prep ?_
      rw [changed]
      rcases either with rfl | rfl <;> rfl
  | send h' => intro _; unfold Envelope.sent; rw [h'.document]; rfl
  | void h' => intro signing; rw [h'.document] at signing; cases signing
  | decline h' => intro signing; rw [h'.document] at signing; cases signing
  | complete h' =>
    rcases h'.document with ⟨-,-,state,moved⟩ | ⟨-,-,-,state,moved⟩ | ⟨-,-,same⟩
    · exact h.kept (by rw [moved,signableSigning state]; rfl) (by rw [moved])
    · exact h.kept (by rw [moved,signableSigning state]; rfl) (by rw [moved])
    · exact h.kept (by rw [same]) (by rw [same])
  | flatten h' =>
    intro _
    have sent := flattenSent before just
    unfold Envelope.sent at *
    rw [h'.document]
    exact sent

theorem completeSent {past : Envelope → Envelope → Prop} {u : CompleteUnit} {atRoster}
    (before : ∀ a b, past a b → (Consistent a ∧ SigningSent a) ∧ Later a b) (loaded : Loaded past u.loaded atRoster)
    (pending : u.loaded.signer.status = .pending) : atRoster.sent = true := by
  have available := ((loaded.weaken (fun a b h => ⟨(before a b h).1.1,(before a b h).2⟩)).now pending).available
  obtain ⟨first,second,third,source,last⟩ := loaded
  obtain ⟨⟨-,sent⟩,toThird⟩ := before _ _ source.later.2
  refine (toThird.trans (before _ _ last).2).sent (sent ?_)
  rw [← source.document]
  rcases available with s | s <;> rw [s] <;> rfl

/-- What the field rows are before and after the send. -/
structure Arranged (e : Envelope) : Prop where
  sent : SigningSent e
  fieldIds : (e.fields.map SignatureField.id).Nodup
  blank : e.sent = false → ∀ field ∈ e.fields, field.completion = none ∧ field.flattenedRevisionId = none

theorem idsOfPrepared {rows rows' : List SignatureField}
    (same : rows'.map SignatureField.prepared = rows.map SignatureField.prepared) :
    rows'.map SignatureField.id = rows.map SignatureField.id := by
  have ids := congrArg (List.map PreparedField.id) same
  simpa [Function.comp_def,SignatureField.prepared] using ids

theorem keepArranged {past : Envelope → Envelope → Prop} {w : Write} {i e e'}
    (before : ∀ a b, past a b → (Consistent a ∧ SigningSent a) ∧ Later a b) (h : Arranged e) (just : Justified past w e)
    (done : Committed i e e' w) (later : Later e e') : Arranged e' := by
  have earlier : e'.sent = false → e.sent = false := by
    intro unsent
    cases sent : e.sent with
    | false => rfl
    | true => rw [Envelope.sent,later.sent sent] at unsent; cases unsent
  refine ⟨keepSigningSent (fun a b h => ⟨(before a b h).1.2,(before a b h).2⟩) h.sent just done,?_,?_⟩
  · rcases done.fields with same | ⟨u,rfl,h'⟩ | ⟨u,rfl,h'⟩ | ⟨u,rfl,h'⟩ | ⟨u,rfl,h'⟩
    · rw [same]; exact h.fieldIds
    · exact h.fieldIds.sublist (h'.fields.map _)
    · rw [h'.fields]; exact h'.ids
    · rw [idsOfPrepared (completedPrepared h'.fields)]; exact h.fieldIds
    · rw [h'.fields,idsOfPrepared flattenedPrepared]; exact h.fieldIds
  · intro unsent
    have blank := h.blank (earlier unsent)
    rcases done.fields with same | ⟨u,rfl,h'⟩ | ⟨u,rfl,h'⟩ | ⟨u,rfl,h'⟩ | ⟨u,rfl,h'⟩
    · rw [same]; exact blank
    · exact fun field mem => blank field (h'.fields.subset mem)
    · rw [h'.fields]; exact just.fresh
    · obtain ⟨atRoster,atFields,atConsent,source,last⟩ := just
      have sent := completeSent before source.loaded (actorPending source.turn)
      have toCommit := (before _ _ source.toConsent).2.trans (before _ _ last).2
      have sent : e.sent = true := ((before _ _ source.later).2.trans toCommit).sent sent
      rw [earlier unsent] at sent
      cases sent
    · have sent := flattenSent (fun a b h => ⟨(before a b h).1.2,(before a b h).2⟩) just
      rw [earlier unsent] at sent
      cases sent

theorem draftArranged (draft : NewDraft) : Arranged (createDraftDocument draft) where
  sent := .prep rfl
  fieldIds := List.nodup_nil
  blank _ _ mem := by cases mem

/-- From a sent store on, the preparation is the one it was sent with. -/
def Frozen (e e' : Envelope) : Prop := e.sent = true → e'.sent = true ∧ e'.preparation = e.preparation

theorem Frozen.refl (e : Envelope) : Frozen e e := fun sent => ⟨sent,rfl⟩

theorem Frozen.trans {a b c} (left : Frozen a b) (right : Frozen b c) : Frozen a c := by
  intro sent
  obtain ⟨between,first⟩ := left sent
  obtain ⟨after,second⟩ := right between
  exact ⟨after,second.trans first⟩

theorem keepFrozen {w : Write} {i e e'} (inv : Consistent e) (just : Justified Before w e)
    (cond : FrozenAfterSend w e) (done : Committed i e e' w) (later : Later e e') : Frozen e e' :=
  fun sent => ⟨later.sent sent,keepPreparation inv just cond done later sent⟩

def preparationExtension : Extension frozenAfterSend where
  Extra := SigningSent
  Also := Frozen
  refl := .refl
  trans := .trans
  keep := by
    intro w i e e' inv extra past just cond _ done inv' later
    exact ⟨keepSigningSent (fun a b h => ⟨h.1.2,h.2.1⟩) extra past done,keepFrozen inv just cond done later⟩

def PreparationFrozen (settings : Settings) (scope : Scope Envelope Write Request) (draft : NewDraft) : Prop :=
  ∀ c c', Run (esign settings) scope (initial (createDraftDocument draft)) c → c.store.document.state = .sent →
    Run (esign settings) scope c c' → c'.store.preparation = c.store.preparation

/-- From a fresh draft, under any interleaving of requests and jobs, requests that
were started before the send included. -/
theorem preparationFrozenBySend (settings : Settings) (draft : NewDraft) :
    PreparationFrozen settings frozenAfterSend draft := by
  intro c c' reached state after
  have sound := preparationExtension.run ⟨draftConsistent draft,.prep rfl⟩ reached
  have sent : c.store.sent = true := sound.inv.2 (by rw [state]; rfl)
  exact ((preparationExtension.runLater sound after).2.2 sent).2

namespace ThreeSigners

def fieldsAgain : Request := .replaceDocumentFields ⟨3,.allow,[fieldRow 300,fieldRow 301,fieldRow 302]⟩

/-- The fields are placed once more; the request has read the prepared document when
the document is sent. -/
def sentMeanwhile : List (Action Input Request) :=
  prepared .parallel ++ served 4 5 5 fieldsAgain ++ served 5 6 13 (.sendDocument ⟨3,none,some 9⟩)

end ThreeSigners

set_option maxRecDepth 100000 in
/-- The replacement leaves the document prepared, so it compares nothing and commits
on the sent document: every field row is replaced by another. -/
theorem fieldsReplacedAfterSend :
    ¬ PreparationFrozen ThreeSigners.settings (Scope.of (fun _ => True)) ThreeSigners.draft := by
  intro claimed
  have evaluated : (do
      let c ← (esign ThreeSigners.settings).applyAll (fun _ _ => true) ThreeSigners.start ThreeSigners.sentMeanwhile
      let c' ← (esign ThreeSigners.settings).apply c (.step 4 (ThreeSigners.input 5))
      pure (c.store.document.state,c.store.fields.map SignatureField.id,c'.store.document.state,
        c'.store.fields.map SignatureField.id)) = some (.sent,[400,401,402],.sent,[500,501,502]) := by decide +kernel
  simp only [bind,Option.bind_eq_some_iff] at evaluated
  obtain ⟨c,reached,c',next,rows⟩ := evaluated
  simp only [pure,Option.some.injEq,Prod.mk.injEq] at rows
  have run : Run (esign ThreeSigners.settings) (Scope.of (fun _ => True)) ThreeSigners.start c :=
    runOfActions (fun _ _ => trivial) (fun _ _ _ => trivial) reached
  have step : Step (esign ThreeSigners.settings) (Scope.of (fun _ => True)) c c' :=
    ⟨.step 4 (ThreeSigners.input 5),fun _ _ _ => trivial,next⟩
  have same := congrArg (fun p => p.fields.map PreparedField.id) (claimed c c' run rows.1 (.single step))
  have ids : ∀ e : Envelope, e.preparation.fields.map PreparedField.id = e.fields.map SignatureField.id := by
    intro e
    simp [Envelope.preparation,SignatureField.prepared,Function.comp_def]
  simp only [ids,rows] at same
  simp at same

def frozenAfterSendCheck (w : Write) (e : Envelope) : Bool :=
  match w with
  | .replaceFields u => !e.sent || u.document.state ≠ nextPreparationState u.document u.signers u.fields
  | _ => true

theorem frozenAfterSendChecked (w : Write) (e : Envelope) (ok : frozenAfterSendCheck w e = true) :
    FrozenAfterSend w e := by
  cases w with
  | replaceFields u =>
    intro sent
    simpa [frozenAfterSendCheck,sent] using ok
  | _ => trivial

set_option maxRecDepth 100000 in
theorem orderlyFrozen : ∃ c c', Run (esign ThreeSigners.settings) frozenAfterSend ThreeSigners.start c ∧
    c.store.document.state = .sent ∧ Run (esign ThreeSigners.settings) frozenAfterSend c c' ∧
    c'.store.document.state = .finalized ∧ c'.store.preparation = c.store.preparation := by
  have evaluated : (do
      let c ← (esign ThreeSigners.settings).applyAll frozenAfterSendCheck ThreeSigners.start
        (ThreeSigners.consented .parallel)
      let c' ← (esign ThreeSigners.settings).applyAll frozenAfterSendCheck c ThreeSigners.signedInTurn
      pure (c.store.document.state,c'.store.document.state)) = some (.sent,.finalized) := by decide +kernel
  simp only [bind,Option.bind_eq_some_iff] at evaluated
  obtain ⟨c,reached,c',after,states⟩ := evaluated
  simp only [pure,Option.some.injEq,Prod.mk.injEq] at states
  have first : Run (esign ThreeSigners.settings) frozenAfterSend ThreeSigners.start c :=
    runOfActions (fun _ _ => trivial) frozenAfterSendChecked reached
  have second : Run (esign ThreeSigners.settings) frozenAfterSend c c' :=
    runOfActions (fun _ _ => trivial) frozenAfterSendChecked after
  exact ⟨c,c',first,states.1,second,states.2,preparationFrozenBySend _ ThreeSigners.draft c c' first states.1 second⟩

end ESign
