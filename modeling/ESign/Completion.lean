import ESign.Routing

/-! When the document is complete. `completeSigning` decides it from the roster it
read, with itself taken as signed, and writes the document only when it becomes
complete or leaves `sent`. Signers that commit on a document already in progress
do not see each other: if the last of them read the roster before the others
committed, nobody moves the document on. -/
namespace ESign
open StoreProgram

def DocumentState.done : DocumentState → Bool
  | .completed => true
  | .finalizing => true
  | .finalizationFailed => true
  | .finalized => true
  | _ => false

def AllSigned (rows : List Signer) : Prop := ∀ s ∈ rows, s.status = .signed

theorem AllSigned.later {rows rows'} (h : AllSigned rows) (later : SignersLater rows rows') : AllSigned rows' := by
  intro s' mem'
  obtain ⟨s,mem,moved⟩ := later.source s' mem'
  have signed := h s mem
  rw [moved.acted (by rw [signed]; decide)]
  exact signed

theorem allRequiredSignedOk {signers} : allRequiredSigned signers = true ↔ AllSigned signers := by
  simp [allRequiredSigned,AllSigned]

/-- The signer of the unit is the last one who has not signed. -/
def LastToSign (u : CompleteUnit) (e : Envelope) : Prop :=
  (∃ s ∈ e.signers, s.id = u.loaded.signer.id ∧ s.status = .pending) ∧
    ∀ s ∈ e.signers, s.id ≠ u.loaded.signer.id → s.status = .signed

/-- The roster the unit was given shows everyone else as signed. -/
def SawOthersSigned (u : CompleteUnit) : Prop := ∀ s ∈ u.roster, s.id ≠ u.loaded.signer.id → s.status = .signed

def lastSawOthers : Scope Envelope Write Request where
  allow _ := True
  cond
    | .complete u, e => LastToSign u e → SawOthersSigned u
    | _, _ => True

theorem documentCompletedOk {u : CompleteUnit} : u.documentCompleted = true ↔ SawOthersSigned u := by
  unfold CompleteUnit.documentCompleted CompleteUnit.remaining
  rw [allRequiredSignedOk]
  constructor
  · intro all s mem other
    have := all _ (List.mem_map_of_mem mem)
    simpa [other] using this
  · intro others s' mem'
    obtain ⟨s,mem,rfl⟩ := List.mem_map.mp mem'
    split
    · rfl
    · rename_i other
      exact others s mem other

theorem completedAll {u : CompleteUnit} {i atRoster e e'} (inv : Consistent e) (loaded : Loaded Before u.loaded atRoster)
    (roster : u.roster = Signers.listByDocument atRoster) (pending : u.loaded.signer.status = .pending)
    (later : Before atRoster e) (next : Later e e') (h : CompleteEffect u i e e') (saw : SawOthersSigned u) :
    AllSigned e'.signers := by
  intro s' mem'
  have unprep := (loaded.now pending).unprep
  obtain ⟨s,mem,moved⟩ := ((later.2.trans next).signers unprep).source s' mem'
  by_cases own : s.id = u.loaded.signer.id
  · exact completeSigned inv h s' mem' (by rw [moved.id,own])
  · have signed := saw s (by rw [roster]; exact mem_listByDocument.mpr mem) own
    rw [moved.acted (by rw [signed]; decide)]
    exact signed

theorem flattenAllSigned {u : FlattenUnit} {e} (just : Justified Before (.flatten u) e) (final : u.finalize = true) :
    AllSigned e.signers := by
  obtain ⟨atDocument,atRoster,atFields,found,taken,reread,atRevision,source,later⟩ := just
  obtain ⟨now,leasable⟩ := source.leasable
  obtain ⟨version,states,-⟩ := of_decide_eq_true leasable
  have toFound := source.work.toRoster.2.trans (source.work.toFields.2.trans source.toFound.2)
  have row : found.document = atDocument.document := by
    rw [source.work.document] at version
    exact toFound.row version
  have unprep : isPreparationState atDocument.document.state = false := by
    rw [← row]
    simp only [List.mem_cons,List.not_mem_nil,or_false] at states
    rcases states with s | s | s | s | s <;> rw [s] <;> rfl
  have toEnd := source.work.toFields.2.trans (source.toFound.2.trans (source.toTaken.2.trans
    (source.toReread.2.trans (source.toRevision.2.trans later.2))))
  have seen : AllSigned atRoster.signers := by
    have read := source.work.roster
    rw [show u.loaded.allSignersComplete = true from final] at read
    intro s mem
    exact allRequiredSignedOk.mp read.symm s (mem_listByDocument.mpr mem)
  exact seen.later (toEnd.signers (source.work.toRoster.2.unprep unprep))

structure CompleteIffSigned (e : Envelope) : Prop where
  signed : e.document.state.done = true → AllSigned e.signers
  complete : e.document.signingRevisionId.isSome = true → AllSigned e.signers → e.document.state.done = true

theorem prepNotDone {state} (prep : isPreparationState state = true) : state.done = false := by
  cases state <;> simp_all [isPreparationState,DocumentState.done]

theorem CompleteIffSigned.prep {e} (inv : Consistent e) (prep : isPreparationState e.document.state = true) :
    CompleteIffSigned e where
  signed done := by rw [prepNotDone prep] at done; cases done
  complete sent := by rw [(inv.unsent prep).2.2] at sent; cases sent

/- Writes that leave signers and the sent mark alone, and neither enter nor leave the
completed states. -/
theorem CompleteIffSigned.kept {e e' : Envelope} (h : CompleteIffSigned e) (signers : e'.signers = e.signers)
    (sent : e'.document.signingRevisionId = e.document.signingRevisionId)
    (state : e'.document.state.done = e.document.state.done) :
    e'.document.signingRevisionId.isSome = true → AllSigned e'.signers → e'.document.state.done = true := by
  intro isSent all
  rw [state]
  exact h.complete (sent ▸ isSent) (signers ▸ all)

theorem leasedDone {state} : (Documents.leasedState state).done = state.done := by
  cases state <;> rfl

theorem signableNotDone {state : DocumentState} (signable : state ∈ [.sent,.inProgress]) : state.done = false := by
  simp only [List.mem_cons,List.not_mem_nil,or_false] at signable
  rcases signable with rfl | rfl <;> rfl

theorem allSignedWhenComplete {u : CompleteUnit} {i e e'} (inv : Consistent e)
    (signed : e.document.state.done = true → AllSigned e.signers) (just : Justified Before (.complete u) e) (next : Later e e')
    (h : CompleteEffect u i e e') (done : e'.document.state.done = true) : AllSigned e'.signers := by
  obtain ⟨atRoster,atFields,atConsent,source,later⟩ := just
  have whole := source.later.trans (source.toConsent.trans later)
  rcases h.document with ⟨completed,-,-,-⟩ | ⟨-,-,-,-,moved⟩ | ⟨-,-,same⟩
  · exact completedAll inv source.loaded source.roster (actorPending source.turn) whole next h (documentCompletedOk.mp completed)
  · rw [moved] at done; cases done
  · rw [same] at done
    exact (signed done).later (completeSigners inv h)

theorem keepCompleteIff {u : CompleteUnit} {i e e'} (iff : CompleteIffSigned e)
    (cond : LastToSign u e → SawOthersSigned u) (h : CompleteEffect u i e e')
    (sent : e'.document.signingRevisionId.isSome = true) (signed : AllSigned e'.signers) : e'.document.state.done = true := by
  have saw : u.documentCompleted = true ∨ e.document.state.done = true := by
    rcases h.signers with ⟨same,-⟩ | ⟨acted,row,mem,named,-,waiting⟩
    · right
      refine iff.complete ?_ (same ▸ signed)
      rcases h.document with ⟨-,-,-,moved⟩ | ⟨-,-,-,-,moved⟩ | ⟨-,-,kept⟩
      · rw [moved] at sent; exact sent
      · rw [moved] at sent; exact sent
      · rw [kept] at sent; exact sent
    · left
      refine documentCompletedOk.mpr (cond ⟨⟨row,mem,named,waiting⟩,fun s found other => ?_⟩)
      refine signed s ?_
      rw [acted]
      exact List.mem_map.mpr ⟨s,found,if_neg other⟩
  rcases h.document with ⟨-,-,-,moved⟩ | ⟨open_,-,-,state,moved⟩ | ⟨open_,-,same⟩
  · rw [moved]; rfl
  · rw [open_] at saw
    rcases saw with saw | done
    · cases saw
    · rw [signableNotDone state] at done; cases done
  · rw [open_] at saw
    rcases saw with saw | done
    · cases saw
    · rw [same]; exact done

theorem sentUnsigned {u : SendUnit} {e e'} (inv : Consistent e) (inv' : Consistent e') (just : Justified Before (.send u) e)
    (h : SendEffect u e e') (sent : e'.document.signingRevisionId.isSome = true) : ¬ AllSigned e'.signers := by
  intro all
  obtain ⟨atDocument,atRoster,signers,source,before⟩ := just
  have read : Read Before _ e := ⟨atDocument,source.document,source.later.1,source.later.2.trans before.2⟩
  have prep : isPreparationState e.document.state = true := by rw [read.row h.version]; exact source.unlocked
  obtain ⟨s,mem⟩ := List.exists_mem_of_ne_nil _ (inv'.roster sent)
  have signed := all s mem
  rw [h.signers] at mem
  rw [(inv.unsent prep).1 s mem] at signed
  cases signed

theorem declinedUnsigned {u : DeclineUnit} {e e'} (h : DeclineEffect u e e') : ¬ AllSigned e'.signers := by
  intro all
  obtain ⟨row,mem,named,-,-⟩ := h.actor
  have signed := all (declinedRow _ row) (by rw [h.signers]; exact List.mem_map.mpr ⟨row,mem,if_pos named⟩)
  cases signed

theorem keepAllSigned {w : Write} {i e e'} (inv : Consistent e) (signed : e.document.state.done = true → AllSigned e.signers)
    (just : Justified Before w e) (committed : Committed i e e' w) (later : Later e e') (done : e'.document.state.done = true) :
    AllSigned e'.signers := by
  cases committed with
  | still h idle artifact =>
    rw [h.document] at done
    rw [h.signers]
    exact signed done
  | released h => subst h; exact signed done
  | failed state h => subst h; exact signed (by rw [state]; rfl)
  | leased row frame state revised kept =>
    rw [state,leasedDone] at done
    rw [frame]
    exact signed done
  | upload h =>
    rw [h.document] at done
    rw [h.signers]
    exact signed done
  | inspect h =>
    obtain ⟨status,changed⟩ := h.document
    rw [changed] at done
    rw [h.signers]
    exact signed done
  | replaceSigners h =>
    have prep : isPreparationState e.document.state = true := by rw [just.document.row h.version]; exact just.unlocked
    rw [prepNotDone (h.preparation prep (inv.unsent prep).2.2).2.1] at done
    cases done
  | replaceFields h =>
    rw [h.signers]
    rcases h.document with same | ⟨-,state,either,-,changed⟩
    · rw [same] at done
      exact signed done
    · rw [changed] at done
      rcases either with rfl | rfl <;> cases done
  | send h => rw [h.document] at done; cases done
  | void h => rw [h.document] at done; cases done
  | decline h => rw [h.document] at done; cases done
  | complete h => exact allSignedWhenComplete inv signed just later h done
  | @flatten u h =>
    rw [h.signers]
    cases final : u.finalize with
    | true => exact flattenAllSigned just final
    | false =>
      rw [h.document] at done
      exact signed (by simpa [final] using done)

def completionExtension : Extension lastSawOthers where
  Extra := CompleteIffSigned
  Also _ _ := True
  refl _ := trivial
  trans _ _ := trivial
  keep := by
    intro w i e e' inv iff _ just cond _ done inv' later
    refine ⟨⟨keepAllSigned inv iff.signed just done later,?_⟩,trivial⟩
    cases done with
    | still h idle artifact => exact iff.kept h.signers (by rw [h.document]) (by rw [h.document])
    | released h => subst h; exact iff.complete
    | failed state h => subst h; exact iff.kept rfl rfl (by rw [state]; rfl)
    | leased row frame state revised kept =>
      exact iff.kept (by rw [frame]) revised.signingRevisionId (by rw [state,leasedDone])
    | upload h => exact iff.kept h.signers (by rw [h.document]) (by rw [h.document])
    | inspect h =>
      obtain ⟨status,changed⟩ := h.document
      exact iff.kept h.signers (by rw [changed]) (by rw [changed])
    | replaceSigners h =>
      have prep : isPreparationState e.document.state = true := by
        rw [just.document.row h.version]; exact just.unlocked
      exact (CompleteIffSigned.prep inv' (h.preparation prep (inv.unsent prep).2.2).2.1).complete
    | replaceFields h =>
      rcases h.document with same | ⟨-,state,either,-,changed⟩
      · exact iff.kept h.signers (by rw [same]) (by rw [same])
      · refine (CompleteIffSigned.prep inv' ?_).complete
        rw [changed]
        rcases either with rfl | rfl <;> rfl
    | send h =>
      exact fun sent all => (sentUnsigned inv inv' just h sent all).elim
    | void h =>
      intro sent all
      rw [h.document] at sent
      have completed := iff.complete sent (h.signers ▸ all)
      have state := h.state
      simp only [List.mem_cons,List.not_mem_nil,or_false] at state
      rcases state with s | s | s | s <;> rw [s] at completed <;> cases completed
    | decline h => exact fun _ all => (declinedUnsigned h all).elim
    | complete h => exact keepCompleteIff iff cond h
    | @flatten u h =>
      cases final : u.finalize with
      | true => exact fun _ _ => by rw [h.document]; simp [final,DocumentState.done]
      | false => exact iff.kept h.signers (by rw [h.document]) (by rw [h.document]; simp [final])

/-- Once it was sent, a document has completed its signing exactly when everyone has signed. -/
def NoLostCompletion (settings : Settings) (scope : Scope Envelope Write Request) (draft : NewDraft) : Prop :=
  ∀ c, Run (esign settings) scope (initial (createDraftDocument draft)) c →
    c.store.document.signingRevisionId.isSome = true →
    (AllSigned c.store.signers ↔
      c.store.document.state ∈ [.completed,.finalizing,.finalizationFailed,.finalized])

theorem doneStates {state : DocumentState} :
    state.done = true ↔ state ∈ [.completed,.finalizing,.finalizationFailed,.finalized] := by
  cases state <;> simp [DocumentState.done]

/-- Under any interleaving of requests and jobs from a fresh draft, as long as the
last signer to sign has seen that it is the last. -/
theorem completedWhenAllSigned (settings : Settings) (draft : NewDraft) :
    NoLostCompletion settings lastSawOthers draft := by
  intro c reached sent
  have inv := draftConsistent draft
  have sound := completionExtension.run ⟨inv,.prep inv rfl⟩ reached
  rw [← doneStates]
  exact ⟨sound.inv.2.complete sent,sound.inv.2.signed⟩

set_option maxRecDepth 100000 in
theorem completionLost : ¬ NoLostCompletion ThreeSigners.settings (Scope.of (fun _ => True)) ThreeSigners.draft := by
  intro claimed
  have evaluated : ((esign ThreeSigners.settings).applyAll (fun _ _ => true) ThreeSigners.start
      ThreeSigners.allSigned).map (fun c => (c.store.document.signingRevisionId.isSome,
        allRequiredSigned c.store.signers,c.store.document.state)) = some (true,true,.inProgress) := by decide +kernel
  obtain ⟨c,reached,rows⟩ := Option.map_eq_some_iff.mp evaluated
  simp only [Prod.mk.injEq] at rows
  have run : Run (esign ThreeSigners.settings) (Scope.of (fun _ => True)) ThreeSigners.start c :=
    runOfActions (fun _ _ => trivial) (fun _ _ _ => trivial) reached
  have done := (claimed c run rows.1).mp (allRequiredSignedOk.mp rows.2.1)
  rw [rows.2.2] at done
  simp at done

def lastSawOthersCheck (w : Write) (e : Envelope) : Bool :=
  match w with
  | .complete u => u.roster.all (fun s => s.id = u.loaded.signer.id ∨ s.status = .signed) ||
      e.signers.any (fun s => s.id ≠ u.loaded.signer.id ∧ s.status ≠ .signed)
  | _ => true

theorem lastSawOthersChecked (w : Write) (e : Envelope) (ok : lastSawOthersCheck w e = true) :
    lastSawOthers.cond w e := by
  cases w with
  | complete u =>
    intro last s mem other
    simp only [lastSawOthersCheck,Bool.or_eq_true,List.all_eq_true,List.any_eq_true,decide_eq_true_eq] at ok
    rcases ok with saw | ⟨t,found,unsigned⟩
    · exact (saw s mem).resolve_left other
    · exact absurd (last.2 t found unsigned.1) unsigned.2
  | _ => trivial

set_option maxRecDepth 100000 in
theorem orderlyCompleted : ∃ c, Run (esign ThreeSigners.settings) lastSawOthers ThreeSigners.start c ∧
    c.store.document.state = .finalized ∧ AllSigned c.store.signers := by
  have evaluated : ((esign ThreeSigners.settings).applyAll lastSawOthersCheck ThreeSigners.start
      ThreeSigners.orderly).map (fun c => (c.store.document.signingRevisionId.isSome,c.store.document.state)) =
      some (true,.finalized) := by decide +kernel
  obtain ⟨c,reached,rows⟩ := Option.map_eq_some_iff.mp evaluated
  simp only [Prod.mk.injEq] at rows
  have run := runOfActions (fun _ _ => trivial) lastSawOthersChecked reached
  refine ⟨c,run,rows.2,(completedWhenAllSigned _ ThreeSigners.draft c run rows.1).mpr ?_⟩
  simp [rows.2]

end ESign
