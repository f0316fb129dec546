import ESign.StateTransitions

/-! A void and a decline as a fence. What was read before them may still be on its way:
a signing is stopped by its session, which the fence has closed; everything that writes the
document is stopped by the version. A job that reads its lease back after the fence holds
the version of the fenced row, and `commitFlattenedRevision` asks for nothing else. -/
namespace ESign
open StoreProgram

def DocumentState.fenced (state : DocumentState) : Bool := state = .voided ∨ state = .declined

/-- A job does not commit on a row it has read back as voided or declined. -/
def leasedUnfenced : Scope Envelope Write Request where
  allow _ := True
  cond
    | .flatten u, _ => u.leased.state.fenced = false
    | _, _ => True

structure Fenced (e e' : Envelope) : Prop where
  state : e'.document.state = e.document.state
  currentRevisionId : e'.document.currentRevisionId = e.document.currentRevisionId
  signers : e'.signers = e.signers
  drawn : ∀ f' ∈ e'.fields, f'.flattenedRevisionId.isSome = true →
    ∃ f ∈ e.fields, f.id = f'.id ∧ f.flattenedRevisionId = f'.flattenedRevisionId

def Fence (e e' : Envelope) : Prop := e.document.state.fenced = true → Fenced e e'

theorem Fenced.refl (e : Envelope) : Fenced e e := ⟨rfl,rfl,rfl,fun f mem _ => ⟨f,mem,rfl,rfl⟩⟩

theorem Fence.trans {a b c} (left : Fence a b) (right : Fence b c) : Fence a c := by
  intro fenced
  have first := left fenced
  have second := right (by rw [first.state]; exact fenced)
  refine ⟨second.state.trans first.state,second.currentRevisionId.trans first.currentRevisionId,
    second.signers.trans first.signers,fun f'' mem'' drawn => ?_⟩
  obtain ⟨f',mem',id',same'⟩ := second.drawn f'' mem'' drawn
  obtain ⟨f,mem,id,same⟩ := first.drawn f' mem' (by rw [same']; exact drawn)
  exact ⟨f,mem,id.trans id',same.trans same'⟩

theorem fencedCases {state : DocumentState} (fenced : state.fenced = true) : state = .voided ∨ state = .declined :=
  of_decide_eq_true fenced

theorem fencedUnprepared {state : DocumentState} (fenced : state.fenced = true) : isPreparationState state = false := by
  rcases fencedCases fenced with rfl | rfl <;> rfl

theorem fencedUnsigned {state : DocumentState} (fenced : state.fenced = true) : state ∉ [.sent,.inProgress] := by
  rcases fencedCases fenced with rfl | rfl <;> decide

/-- A fenced document has an event that says so. -/
def FenceLogged (e : Envelope) : Prop := e.document.state.fenced = true → e.ended = true

/- A signing that meets a fence finds its session closed: it was completed before, and
then its signer had signed. -/
theorem signingFenced {u : CompleteUnit} {i e e'} (inv : Consistent e) (ended : e.ended = true)
    (actor : ActorNow u.loaded e) (h : CompleteEffect u i e e') : e'.signers = e.signers := by
  rcases h.signers with ⟨same,-⟩ | ⟨-,row,mem,named,-,pending⟩
  · exact same
  · obtain ⟨closed,closedMem,later,shut⟩ := actor.closed ended
    obtain ⟨found,foundMem,same,isOpen | completed⟩ := h.sessions.found
    · rw [sameSession inv foundMem closedMem (by rw [same,later.id]),shut] at isOpen
      cases isOpen
    · have signed := inv.completed found foundMem completed row mem ?_
      · rw [pending] at signed
        cases signed
      · rw [named,actor.named,← later.signerId,sameSession inv foundMem closedMem (by rw [same,later.id])]

theorem keptFields {ids : List Id} {rows rows' : List SignatureField} (h : List.Forall₂ (FieldCompleted ids) rows rows') :
    ∀ f' ∈ rows', ∃ f ∈ rows, f.id = f'.id ∧ f.flattenedRevisionId = f'.flattenedRevisionId := by
  induction h with
  | nil => simp
  | @cons f f' rows rows' first rest ih =>
    intro g mem
    rcases List.mem_cons.mp mem with rfl | mem
    · refine ⟨f,List.mem_cons_self,?_⟩
      rw [first.kept]
      exact ⟨rfl,rfl⟩
    · obtain ⟨f,found,same⟩ := ih g mem
      exact ⟨f,List.mem_cons_of_mem _ found,same⟩

theorem keepFence {w : Write} {i e e'} (inv : Consistent e) (extra : FenceLogged e) (just : Justified Before w e)
    (cond : leasedUnfenced.cond w e) (done : Committed i e e' w) : Fence e e' := by
  intro fenced
  have unprepared := fencedUnprepared fenced
  have unsigned := fencedUnsigned fenced
  have ended := extra fenced
  have sameFields : e'.fields = e.fields → ∀ f' ∈ e'.fields, f'.flattenedRevisionId.isSome = true →
      ∃ f ∈ e.fields, f.id = f'.id ∧ f.flattenedRevisionId = f'.flattenedRevisionId := by
    intro same f mem _
    rw [same] at mem
    exact ⟨f,mem,rfl,rfl⟩
  cases done with
  | still h idle artifact => exact ⟨by rw [h.document],by rw [h.document],h.signers,sameFields h.fields⟩
  | released h =>
    subst h
    exact ⟨rfl,rfl,rfl,sameFields rfl⟩
  | failed state h =>
    rw [state] at fenced
    cases fenced
  | leased row frame state revised kept =>
    refine ⟨?_,kept,by rw [frame],sameFields (by rw [frame])⟩
    rw [state]
    rcases fencedCases fenced with s | s <;> rw [s] <;> rfl
  | upload h =>
    have row := just.1.row h.version
    rw [row,just.2.1] at unprepared
    cases unprepared
  | inspect h =>
    obtain ⟨status,changed⟩ := h.document
    exact ⟨by rw [changed],by rw [changed],h.signers,sameFields h.fields⟩
  | replaceSigners h =>
    have row := just.document.row h.version
    rw [row,just.unlocked] at unprepared
    cases unprepared
  | replaceFields h =>
    have document : e'.document = e.document := by
      rcases h.document with same | ⟨version,-⟩
      · exact same
      · have row := just.document.row version
        rw [row,just.unlocked] at unprepared
        cases unprepared
    refine ⟨by rw [document],by rw [document],h.signers,fun f mem drawn => ?_⟩
    rw [h.fields] at mem
    rw [(just.fresh f mem).2] at drawn
    cases drawn
  | @send u h =>
    obtain ⟨atDocument,atRoster,signers,source,later⟩ := just
    have read : Read Before u.document e := ⟨atDocument,source.document,source.later.1,source.later.2.trans later.2⟩
    rw [read.row h.version,source.unlocked] at unprepared
    cases unprepared
  | void h =>
    have state := h.state
    rcases fencedCases fenced with s | s <;> rw [s] at state <;> simp at state
  | decline h => exact absurd h.state unsigned
  | complete h =>
    obtain ⟨atRoster,atFields,atConsent,source,later⟩ := just
    have loaded := ((source.loaded.before source.later).before source.toConsent).before later
    have signers := signingFenced inv ended (loaded.now (actorPending source.turn)) h
    rcases h.document with ⟨-,-,state,-⟩ | ⟨-,-,-,state,-⟩ | ⟨-,-,same⟩
    · exact absurd state unsigned
    · exact absurd state unsigned
    · exact ⟨by rw [same],by rw [same],signers,fun f mem _ => keptFields h.fields f mem⟩
  | @flatten u h =>
    obtain ⟨atDocument,atRoster,atFields,found,taken,reread,atRevision,source,later⟩ := just
    have row : e.document = u.leased := by
      rw [source.leased]
      refine (source.toRevision.2.trans later.2).row ?_
      rw [← source.leased]
      exact h.version
    rw [row] at fenced
    rw [show u.leased.state.fenced = false from cond] at fenced
    cases fenced

theorem fenceRaised {w : Write} {i e e'} (done : Committed i e e' w) (fenced : e'.document.state.fenced = true) :
    e.document.state.fenced = true ∨ (∃ u, w = .void u ∧ VoidEffect u e e') ∨ (∃ u, w = .decline u ∧ DeclineEffect u e e') := by
  cases done with
  | still h idle artifact =>
    rw [h.document] at fenced
    exact .inl fenced
  | released h =>
    subst h
    exact .inl fenced
  | failed state h =>
    subst h
    cases fenced
  | leased row frame state revised kept =>
    rw [state] at fenced
    refine .inl ?_
    revert fenced
    cases e.document.state <;> simp [Documents.leasedState,DocumentState.fenced]
  | upload h =>
    rw [h.document] at fenced
    exact .inl fenced
  | inspect h =>
    obtain ⟨status,changed⟩ := h.document
    rw [changed] at fenced
    exact .inl fenced
  | replaceSigners h =>
    obtain ⟨given,same,prepared⟩ := h.document
    rcases prepared with kept | ⟨-,state,either,-,changed⟩
    · rw [kept,same] at fenced
      exact .inl fenced
    · rw [changed] at fenced
      rcases either with rfl | rfl <;> cases fenced
  | replaceFields h =>
    rcases h.document with kept | ⟨-,state,either,-,changed⟩
    · rw [kept] at fenced
      exact .inl fenced
    · rw [changed] at fenced
      rcases either with rfl | rfl <;> cases fenced
  | send h =>
    rw [h.document] at fenced
    cases fenced
  | void h => exact .inr (.inl ⟨_,rfl,h⟩)
  | decline h => exact .inr (.inr ⟨_,rfl,h⟩)
  | complete h =>
    rcases h.document with ⟨-,-,-,moved⟩ | ⟨-,-,-,-,moved⟩ | ⟨-,-,same⟩
    · rw [moved] at fenced
      cases fenced
    · rw [moved] at fenced
      cases fenced
    · rw [same] at fenced
      exact .inl fenced
  | @flatten u h =>
    rw [h.document] at fenced
    cases final : u.finalize with
    | true =>
      rw [final] at fenced
      cases fenced
    | false =>
      rw [final] at fenced
      exact .inl fenced

theorem keepFenceLogged {w : Write} {i e e'} (extra : FenceLogged e) (done : Committed i e e' w) (later : Later e e') :
    FenceLogged e' := by
  intro fenced
  rcases fenceRaised done fenced with before | ⟨u,-,h⟩ | ⟨u,-,h⟩
  · exact later.ended (extra before)
  · obtain ⟨event,type,grown⟩ := h.audit
    exact endedAppend grown (.inl type)
  · obtain ⟨event,type,grown⟩ := h.audit
    exact endedAppend grown (.inr type)

def fenceExtension : Extension leasedUnfenced where
  Extra := FenceLogged
  Also := Fence
  refl e _ := .refl e
  trans := .trans
  keep inv extra _ just cond _ done _ later :=
    ⟨keepFenceLogged extra done later,keepFence inv extra just cond done⟩

def FenceHolds (settings : Settings) (scope : Scope Envelope Write Request) (draft : NewDraft) : Prop :=
  ∀ c c', Run (esign settings) scope (initial (createDraftDocument draft)) c → c.store.document.state.fenced = true →
    Run (esign settings) scope c c' → Fenced c.store c'.store

theorem fenceHolds (settings : Settings) (draft : NewDraft) : FenceHolds settings leasedUnfenced draft := by
  intro c c' reached fenced next
  have sound := fenceExtension.run ⟨draftConsistent draft,fun fenced => by cases fenced⟩ reached
  exact (fenceExtension.runLater sound next).2.2 fenced

namespace ThreeSigners

/-- The job of the first signer has taken the lease when the document is voided. -/
def voidedUnderLease : List (Action Input Request) :=
  consented .parallel ++ served 11 12 15 (complete 650 400 61) ++ served 12 13 12 (job 12 300 500 100) ++
  served 13 14 8 (.voidDocument 3 (some 8))

/-- The job has committed before the void, and a signer comes too late. -/
def voidedAfterJob : List (Action Input Request) :=
  consented .parallel ++ served 11 12 15 (complete 650 400 61) ++ served 12 13 21 (job 12 300 500 100) ++
  served 13 14 8 (complete 750 401 62) ++ served 14 15 8 (.voidDocument 3 (some 8))

end ThreeSigners

set_option maxRecDepth 100000 in
/-- The lease is read back after the void: the job draws its field, and commits. -/
theorem drawnAfterVoid : ¬ FenceHolds ThreeSigners.settings (Scope.of (fun _ => True)) ThreeSigners.draft := by
  intro holds
  have evaluated : (do
      let c ← (esign ThreeSigners.settings).applyAll (fun _ _ => true) ThreeSigners.start ThreeSigners.voidedUnderLease
      let c' ← (esign ThreeSigners.settings).applyAll (fun _ _ => true) c (ThreeSigners.turns 12 13 9)
      pure (c.store.document.state,c.store.document.currentRevisionId,c'.store.document.currentRevisionId)) =
      some (.voided,some 100,some 1300) := by decide +kernel
  simp only [bind,Option.bind_eq_some_iff] at evaluated
  obtain ⟨c,reached,c',next,states⟩ := evaluated
  simp only [pure,Option.some.injEq,Prod.mk.injEq] at states
  have run : Run (esign ThreeSigners.settings) (Scope.of (fun _ => True)) ThreeSigners.start c :=
    runOfActions (fun _ _ => trivial) (fun _ _ _ => trivial) reached
  have rest : Run (esign ThreeSigners.settings) (Scope.of (fun _ => True)) c c' :=
    runOfActions (fun _ _ => trivial) (fun _ _ _ => trivial) next
  have same := (holds c c' run (by rw [states.1]; rfl) rest).currentRevisionId
  rw [states.2.1,states.2.2] at same
  cases same

def leasedUnfencedCheck (w : Write) (_ : Envelope) : Bool :=
  match w with
  | .flatten u => !u.leased.state.fenced
  | _ => true

theorem leasedUnfencedChecked (w : Write) (e : Envelope) (ok : leasedUnfencedCheck w e = true) :
    leasedUnfenced.cond w e := by
  cases w with
  | flatten u =>
    change u.leased.state.fenced = false
    simpa [leasedUnfencedCheck] using ok
  | _ => trivial

set_option maxRecDepth 100000 in
theorem lateSigningFenced : ∃ c c', Run (esign ThreeSigners.settings) leasedUnfenced ThreeSigners.start c ∧
    Run (esign ThreeSigners.settings) leasedUnfenced c c' ∧ c.store.document.state = .voided ∧
    c.store.document.currentRevisionId = some 1300 ∧ Fenced c.store c'.store := by
  have evaluated : (do
      let c ← (esign ThreeSigners.settings).applyAll leasedUnfencedCheck ThreeSigners.start ThreeSigners.voidedAfterJob
      let c' ← (esign ThreeSigners.settings).applyAll leasedUnfencedCheck c (ThreeSigners.turns 13 14 6)
      pure (c.store.document.state,c.store.document.currentRevisionId,c'.tasks.length)) =
      some (.voided,some 1300,15) := by decide +kernel
  simp only [bind,Option.bind_eq_some_iff] at evaluated
  obtain ⟨c,reached,c',next,states⟩ := evaluated
  simp only [pure,Option.some.injEq,Prod.mk.injEq] at states
  have run := runOfActions (fun _ _ => trivial) leasedUnfencedChecked reached
  have rest := runOfActions (fun _ _ => trivial) leasedUnfencedChecked next
  have fenced : c.store.document.state.fenced = true := by rw [states.1]; rfl
  exact ⟨c,c',run,rest,states.1,states.2.1,fenceHolds _ ThreeSigners.draft c c' run fenced rest⟩

end ESign
