import ESign.Timeline

/-! The state column against the transition table. No repository write consults
the table. What stands in for it is the version: an unconditional write meets the
row its use case checked. The lease is the exception: `commitFlattenedRevision`
compares version and owner with a row that was read back after the lease was
taken, and has no condition on the state. -/
namespace ESign
open StoreProgram

def DocumentState.lawful (source target : DocumentState) : Prop :=
  target = source ∨ canTransitionDocument source target = true

theorem lawfulRefl (state : DocumentState) : state.lawful state := .inl rfl

theorem leasedLawful {state : DocumentState} : state.lawful (Documents.leasedState state) := by
  cases state <;> simp [DocumentState.lawful,canTransitionDocument,DocumentState.transitions,Documents.leasedState]

theorem preparedLawful {given before after : Document} (row : before.version = given.version → before = given)
    (h : Prepared given before after) : before.state.lawful after.state := by
  rcases h with rfl | ⟨version,state,-,allowed,rfl⟩
  · exact lawfulRefl _
  · rw [← row version] at allowed
    exact .inr allowed

theorem signableLawful {state target : DocumentState} (signable : state ∈ [.sent,.inProgress])
    (next : target = .inProgress ∨ target = .completed ∨ target = .declined) : state.lawful target := by
  simp only [List.mem_cons,List.not_mem_nil,or_false] at signable
  rcases signable with rfl | rfl <;> rcases next with rfl | rfl | rfl <;>
    simp [DocumentState.lawful,canTransitionDocument,DocumentState.transitions]

/- Every write but the commit of a flattened revision moves the state along the
table, for any reads its use case made. -/
theorem writeLawful {w : Write} {i e e'} (just : Justified Before w e) (done : Committed i e e' w)
    (commit : ∀ u, w = .flatten u → FlattenEffect u e e' → u.finalize = true → e.document.state = .finalizing) :
    e.document.state.lawful e'.document.state := by
  cases done with
  | still h idle artifact => rw [h.document]; exact lawfulRefl _
  | released h => subst h; exact lawfulRefl _
  | failed state h =>
    subst h
    simp [state,DocumentState.lawful,canTransitionDocument,DocumentState.transitions]
  | leased row frame state revised kept => rw [state]; exact leasedLawful
  | upload h => rw [h.document]; exact lawfulRefl _
  | inspect h =>
    obtain ⟨status,changed⟩ := h.document
    rw [changed]
    exact lawfulRefl _
  | replaceSigners h =>
    obtain ⟨given,same,prepared⟩ := h.document
    have state : given.state = e.document.state := by rw [same]
    rw [← state]
    exact preparedLawful (fun _ => rfl) prepared
  | replaceFields h => exact preparedLawful just.document.row h.document
  | @send u h =>
    obtain ⟨atDocument,atRoster,signers,source,later⟩ := just
    have read : Read Before u.document e := ⟨atDocument,source.document,source.later.1,source.later.2.trans later.2⟩
    have prep : isPreparationState e.document.state = true := by rw [read.row h.version]; exact source.unlocked
    rw [h.document]
    simp only [isPreparationState,decide_eq_true_eq] at prep
    rcases prep with s | s <;> simp [s,DocumentState.lawful,canTransitionDocument,DocumentState.transitions]
  | void h =>
    have state := h.state
    rw [h.document]
    simp only [List.mem_cons,List.not_mem_nil,or_false] at state
    rcases state with s | s | s | s <;> simp [s,DocumentState.lawful,canTransitionDocument,DocumentState.transitions]
  | decline h => rw [h.document]; exact signableLawful h.state (.inr (.inr rfl))
  | complete h =>
    rcases h.document with ⟨-,-,state,moved⟩ | ⟨-,-,-,state,moved⟩ | ⟨-,-,same⟩
    · rw [moved]; exact signableLawful state (.inr (.inl rfl))
    · rw [moved]; exact signableLawful state (.inl rfl)
    · rw [same]; exact lawfulRefl _
  | @flatten u h =>
    rw [h.document]
    cases final : u.finalize with
    | true => simp [commit u rfl h final,DocumentState.lawful,canTransitionDocument,DocumentState.transitions]
    | false => exact lawfulRefl _

/-- A job that finds everyone signed has read a document that signing had completed. -/
def completedBeforeFinalize : Scope Envelope Write Request where
  allow _ := True
  cond
    | .flatten u, _ => u.finalize = true → u.loaded.document.state ∉ [.sent,.inProgress]
    | _, _ => True

/- A job that leases a completed document leaves it finalizing, and from there the
row it read back can only be finalizing while the lease is its own. -/
theorem commitFinalizing {u : FlattenUnit} {e e'} (inv : Consistent e) (just : Justified Before (.flatten u) e)
    (completed : u.loaded.document.state ∉ [.sent,.inProgress]) (h : FlattenEffect u e e') :
    e.document.state = .finalizing := by
  obtain ⟨atDocument,atRoster,atFields,found,taken,reread,atRevision,source,later⟩ := just
  obtain ⟨now,leasable⟩ := source.leasable
  obtain ⟨version,states,-⟩ := of_decide_eq_true leasable
  have toFound := source.work.toRoster.2.trans (source.work.toFields.2.trans source.toFound.2)
  have row : found.document = u.loaded.document := by
    rw [source.work.document] at version ⊢
    exact toFound.row version
  have taken4 : taken.document.state.stage = 4 := by
    rw [source.state]
    rw [← row] at completed
    simp only [List.mem_cons,List.not_mem_nil,or_false,not_or] at completed states
    rcases states with s | s | s | s | s
    · exact absurd s completed.1
    · exact absurd s completed.2
    all_goals rw [s]; rfl
  have same : e.document = reread.document := by
    refine (source.toRevision.2.trans later.2).row ?_
    rw [← source.leased]
    exact h.version
  have stage : 4 ≤ e.document.state.stage := by
    rw [same,← taken4]
    exact source.toReread.2.stage
  have leased : e.document.leaseOwner ≠ none := by rw [h.owner]; simp
  cases state : e.document.state with
  | finalizing => rfl
  | finalizationFailed => exact absurd (inv.lease (.inl state)) leased
  | finalized => exact absurd (inv.lease (.inr state)) leased
  | _ => rw [state] at stage; simp [DocumentState.stage] at stage

def transitionsExtension : Extension completedBeforeFinalize where
  Extra _ := True
  Also _ _ := True
  refl _ := trivial
  trans _ _ := trivial
  keep _ _ _ _ _ _ _ _ _ := ⟨trivial,trivial⟩

def FollowsTable (settings : Settings) (scope : Scope Envelope Write Request) (draft : NewDraft) : Prop :=
  ∀ c c', Run (esign settings) scope (initial (createDraftDocument draft)) c → Step (esign settings) scope c c' →
    c.store.document.state.lawful c'.store.document.state ∧
    (c.store.document.state ∈ [.finalized,.voided,.declined,.expired] →
      c'.store.document.state = c.store.document.state) ∧
    (c'.store.document.state = .finalized → c.store.document.state = .finalizing ∨ c.store.document.state = .finalized)

theorem lawfulConsequences {source target : DocumentState} (h : source.lawful target) :
    (source ∈ [.finalized,.voided,.declined,.expired] → target = source) ∧
    (target = .finalized → source = .finalizing ∨ source = .finalized) := by
  rcases h with rfl | allowed
  · exact ⟨fun _ => rfl,fun final => .inr final⟩
  · refine ⟨fun terminal => ?_,fun final => ?_⟩
    · simp only [List.mem_cons,List.not_mem_nil,or_false] at terminal
      rcases terminal with rfl | rfl | rfl | rfl <;> simp [canTransitionDocument,DocumentState.transitions] at allowed
    · subst final
      cases source <;> simp [canTransitionDocument,DocumentState.transitions] at allowed ⊢

/-- From a fresh draft, under any interleaving of requests and jobs, crashes and
redeliveries included, as long as no job finds everyone signed on a document it
read as still being signed. -/
theorem statesFollowTable (settings : Settings) (draft : NewDraft) :
    FollowsTable settings completedBeforeFinalize draft := by
  intro c c' reached next
  have sound := transitionsExtension.run ⟨draftConsistent draft,trivial⟩ reached
  have lawful : c.store.document.state.lawful c'.store.document.state := by
    rcases transitionsExtension.stepCases sound next with same | ⟨w,i,just,cond,done⟩
    · rw [same]; exact lawfulRefl _
    · have just := just.weaken transitionsExtension.past
      refine writeLawful just done (fun u isFlatten h final => ?_)
      subst isFlatten
      exact commitFinalizing sound.inv.1 just (cond final) h
  exact ⟨lawful,lawfulConsequences lawful⟩

/-! A document with three signers who sign side by side. -/

namespace ThreeSigners

def settings : Settings := ⟨1000,1000,1000,false,[7],7,id⟩

def draft : NewDraft := ⟨1,2,100,3,0⟩

/-- What the environment hands to the steps of one task: its clock stands still and
its ids are its own. -/
def input (n : Nat) : Input := ⟨1,fun k => 100*n+k,fun k => 100*n+50+k,none,⟨77,[]⟩,fun _ => (true,none),1⟩

def turns (task n count : Nat) : List (Action Input Request) := List.replicate count (.step task (input n))

def served (task n count : Nat) (request : Request) : List (Action Input Request) :=
  .spawn request :: turns task n count

def signerRow (n : Nat) (order : Int) : SignerRow := ⟨none,[Char.ofNat (96+n),'@','b','.','c'],['x'],order⟩

def fieldRow (signerId : Id) : FieldRow := ⟨signerId,some .signature,⟨1,0,0,1/4,1/4⟩,none⟩

def complete (tokenHash fieldId key : Id) : Request :=
  .completeSigning ⟨tokenHash,7,true,[fieldId],some (.ok ⟨key,1⟩),none,some key,none⟩

def consent (tokenHash : Id) : Request := .recordSignerConsent ⟨tokenHash,7,true,none,none,none⟩

/-- The job that the completed signing served with input `n` published. -/
def job (n signerId sessionId revisionId : Id) : Request :=
  .flattenSignature ⟨100*n,100*n+1,.flattenSignature signerId sessionId revisionId⟩ 1

def rows : SigningMode → List SignerRow
  | .parallel => [signerRow 1 1,signerRow 2 1,signerRow 3 1]
  | .ordered => [signerRow 1 1,signerRow 2 2,signerRow 3 3]

def prepared (mode : SigningMode) : List (Action Input Request) :=
  served 0 1 7 (.completeSourceUpload ⟨2,77,.ok ()⟩) ++
  served 1 2 8 (.inspectDocument ⟨100,101,.inspectDocument 100⟩) ++
  served 2 3 5 (.replaceDocumentSigners ⟨3,mode,rows mode⟩) ++
  served 3 4 6 (.replaceDocumentFields ⟨3,.allow,[fieldRow 300,fieldRow 301,fieldRow 302]⟩)

/-- Sent, and every signer has exchanged the token and consented. -/
def consented (mode : SigningMode) : List (Action Input Request) :=
  prepared mode ++ served 4 5 13 (.sendDocument ⟨3,none,some 9⟩) ++
  served 5 6 7 (.exchangeSigningToken 550 none) ++
  served 6 7 7 (.exchangeSigningToken 551 none) ++
  served 7 8 7 (.exchangeSigningToken 552 none) ++
  served 8 9 8 (consent 650) ++ served 9 10 8 (consent 750) ++ served 10 11 8 (consent 850)

/-- Everyone signs alone, and each job runs before the next signer signs. -/
def signedInTurn : List (Action Input Request) :=
  served 11 12 15 (complete 650 400 61) ++ served 12 13 21 (job 12 300 500 100) ++
  served 13 14 15 (complete 750 401 62) ++ served 14 15 21 (job 14 301 501 1300) ++
  served 15 16 15 (complete 850 402 63) ++ served 16 17 23 (job 16 302 502 1500)

def orderly : List (Action Input Request) := consented .parallel ++ signedInTurn

/-- The first signs alone; the other two have read the roster when they commit, so
neither moves the document on. -/
def allSigned : List (Action Input Request) :=
  consented .parallel ++ served 11 12 15 (complete 650 400 61) ++
  served 12 13 6 (complete 750 401 62) ++ served 13 14 6 (complete 850 402 63) ++ turns 12 13 9 ++ turns 13 14 9

def start : Config Envelope Write Input (Except AppError Unit) (Except AppError (Option ResponseBody)) :=
  initial (createDraftDocument draft)

end ThreeSigners

set_option maxRecDepth 100000 in
/-- Two signers who share a stale roster leave the document in progress; the first
job then takes it to `finalized`, which the table does not have. -/
theorem finalizedWithoutFinalizing :
    ¬ FollowsTable ThreeSigners.settings (Scope.of (fun _ => True)) ThreeSigners.draft := by
  intro follows
  have evaluated : (do
      let c ← (esign ThreeSigners.settings).applyAll (fun _ _ => true) ThreeSigners.start
        (ThreeSigners.allSigned ++ ThreeSigners.served 14 15 21 (ThreeSigners.job 12 300 500 100))
      let c' ← (esign ThreeSigners.settings).apply c (.step 14 (ThreeSigners.input 15))
      pure (c.store.document.state,c'.store.document.state)) = some (.inProgress,.finalized) := by decide +kernel
  simp only [bind,Option.bind_eq_some_iff] at evaluated
  obtain ⟨c,reached,c',next,states⟩ := evaluated
  have run : Run (esign ThreeSigners.settings) (Scope.of (fun _ => True)) ThreeSigners.start c :=
    runOfActions (fun _ _ => trivial) (fun _ _ _ => trivial) reached
  have lawful := (follows c c' run ⟨.step 14 (ThreeSigners.input 15),fun _ _ _ => trivial,next⟩).1
  simp only [pure,Option.some.injEq,Prod.mk.injEq] at states
  rw [states.1,states.2] at lawful
  rcases lawful with same | allowed
  · cases same
  · cases allowed

def completedBeforeFinalizeCheck (w : Write) (_ : Envelope) : Bool :=
  match w with
  | .flatten u => !u.finalize || u.loaded.document.state ∉ [.sent,.inProgress]
  | _ => true

theorem completedBeforeFinalizeChecked (w : Write) (e : Envelope) (ok : completedBeforeFinalizeCheck w e = true) :
    completedBeforeFinalize.cond w e := by
  cases w with
  | flatten u =>
    intro final
    simpa [completedBeforeFinalizeCheck,final] using ok
  | _ => trivial

set_option maxRecDepth 100000 in
/-- The orderly run of three signers stays within the condition, up to its artifact. -/
theorem orderlyFinalized : ∃ c c', Run (esign ThreeSigners.settings) completedBeforeFinalize ThreeSigners.start c ∧
    Step (esign ThreeSigners.settings) completedBeforeFinalize c c' ∧ c.store.document.state = .finalizing ∧
    c'.store.document.state = .finalized ∧ c.store.document.state.lawful c'.store.document.state := by
  have evaluated : (do
      let c ← (esign ThreeSigners.settings).applyAll completedBeforeFinalizeCheck ThreeSigners.start
        ThreeSigners.orderly.dropLast
      let c' ← (esign ThreeSigners.settings).apply c (.step 16 (ThreeSigners.input 17))
      pure (c.store.document.state,c'.store.document.state,
        c.guards (Q := Request) completedBeforeFinalizeCheck (.step 16 (ThreeSigners.input 17)))) =
      some (.finalizing,.finalized,true) := by decide +kernel
  simp only [bind,Option.bind_eq_some_iff] at evaluated
  obtain ⟨c,reached,c',next,states⟩ := evaluated
  simp only [pure,Option.some.injEq,Prod.mk.injEq] at states
  have run := runOfActions (fun _ _ => trivial) completedBeforeFinalizeChecked reached
  have step := stepOfAction (fun _ _ => trivial) completedBeforeFinalizeChecked states.2.2 next
  exact ⟨c,c',run,step,states.1,states.2.1,(statesFollowTable _ ThreeSigners.draft c c' run step).1⟩

end ESign
