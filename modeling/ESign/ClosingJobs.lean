import ESign.Completion
import ESign.Finalization
import ESign.Linearity

/-! What a flatten job does to a document that everyone has signed. A job that starts on such a
document returns only when the document is finalized. A job that started before may return
sooner, but the version it has read is then one of a document that was not completed, and the
lease of a document whose finalization has failed is not taken on that version. -/
namespace ESign
open StoreProgram StoreProgram.Fallible StoreProgram.Outline

def SignedUp (e : Envelope) : Prop := e.sent = true ∧ AllSigned e.signers

theorem SignedUp.later {e e'} (h : SignedUp e) (inv : Consistent e) (later : Later e e') : SignedUp e' := by
  have unprep : isPreparationState e.document.state = false := by
    cases prep : isPreparationState e.document.state with
    | false => rfl
    | true =>
      have sent := h.1
      rw [Envelope.sent,(inv.unsent prep).2.2] at sent
      cases sent
  exact ⟨later.sent h.1,h.2.later (later.signers unprep)⟩

def signedUpExtension : Extension anyScope where
  Extra e := SigningSent e ∧ (e.document.state.done = true → AllSigned e.signers)
  Also _ _ := True
  refl _ := trivial
  trans _ _ := trivial
  keep := by
    intro w i e e' inv extra past just _ _ done _ later
    refine ⟨⟨keepSigningSent (fun a b h => ⟨h.1.2.1,h.2.1⟩) extra.1 past done,?_⟩,trivial⟩
    exact keepAllSigned inv extra.2 just done later

theorem draftSignedUp (draft : NewDraft) : Consistent (createDraftDocument draft) ∧
    signedUpExtension.Extra (createDraftDocument draft) :=
  ⟨draftConsistent draft,.prep rfl,fun done => (by cases done)⟩

variable {settings : Settings}

/-- What is known of a document in every run. -/
abbrev signedUp (settings : Settings) : Outline (esign settings) anyScope := signedUpExtension.outline settings

theorem doneSignedUp {e} (inv : (signedUp settings).Inv e) (done : e.document.state.done = true) : SignedUp e := by
  refine ⟨inv.2.1 ?_,inv.2.2 done⟩
  revert done
  cases e.document.state <;> decide

/- The roster that the job reads is that of a document signed by all, so its commit finalizes. -/
theorem ensuresFinalized (input : FlattenInput) {e} (signed : SignedUp e) :
    (signedUp settings).Ensures (flattenSignature settings input) (fun _ e' => e'.document.state = .finalized) e := by
  refine ensuresBind (ensuresMono (fun work e₁ source => ?_) (ensuresWorkFrom input))
  obtain ⟨nothing,something⟩ := source
  cases work with
  | none =>
    obtain ⟨atDocument,-,final,later⟩ := nothing rfl
    exact ensuresPure (finalizedStays later.2.1 final)
  | some loaded =>
    obtain ⟨atDocument,atRoster,atFields,step₁,work,step₂⟩ := something loaded rfl
    have toRoster := step₁.trans work.toRoster
    have all : loaded.allSignersComplete = true := by
      rw [work.roster,allRequiredSignedOk]
      exact fun s mem => (signed.later toRoster.1.1 toRoster.2.1).2 s (mem_listByDocument.mp mem)
    simp only
    split
    · rename_i final
      have read := work.toRoster.trans (work.toFields.trans step₂)
      have now : e₁.document.state = .finalized := finalizedStays read.2.1 (by rw [← work.document]; exact final)
      intro inv
      refine (signedUp settings).holdsMono ?_ ((signedUp settings).holdsKept (fun _ _ later => finalizedStays later.1)
        (ensuresPersist rfl work final read inv) now)
      exact fun _ _ held => ⟨held.1.1,fun _ _ => held.2⟩
    · refine ensuresBind (ensuresClock (fun e₂ step₃ inv₂ now => ?_))
      refine ensuresBind (ensuresAttempt (ensuresMono (fun leased reread claim => ?_) (ensuresClaim rfl _ _ _ _))
        (fun _ _ => ensuresFail))
      obtain ⟨found,taken,leasable,state,rfl,step₄,step₅,step₆,inv₃⟩ := claim
      have closes : (signedUp settings).Ensures (afterClaim input loaded now reread.document)
          (fun _ e' => loaded.allSignersComplete = true → e'.document.state = .finalized) reread :=
        ensuresAfterClaim rfl work leasable state (step₂.trans (step₃.trans step₄)) step₅ step₆ inv₃
      exact ensuresMono (fun _ _ finalized => finalized all) closes

theorem workFrom (input : FlattenInput) (e : Envelope) : Program.ResultsFrom e (fun _ => True)
    (fun result => ∀ loaded, result = .ok (some loaded) → loaded.document = e.document) (loadAuthorizedWork input) := by
  have failed : ∀ error : AppError, ∀ loaded,
      (Except.error error : Except AppError (Option LoadedWork)) = .ok (some loaded) → loaded.document = e.document :=
    fun _ _ same => by cases same
  intro i _
  refine resultsThen failed (Fallible.get (fun (e : Envelope) (_ : Input) => e.artifact)) (fun artifact => ?_)
  split
  · exact fun _ same => by cases same
  · refine resultsThen failed _ (fun signer => resultsThen failed _ (fun session => ?_))
    refine resultsThen failed _ (fun _ => resultsThen failed _ (fun consent => ?_))
    refine resultsThen failed _ (fun revision => resultsThen failed _ (fun signers => ?_))
    refine resultsThen failed _ (fun fields => resultsThen failed _ (fun _ => resultsThen failed _ (fun now => ?_)))
    rintro loaded ⟨⟩
    rfl

def Write.expects (version : Nat) : Write → Prop
  | .takeLease _ expectedVersion _ _ _ => expectedVersion = version
  | _ => True

theorem expectsOther {version : Nat} {w : Write} (other : w.takes = false) : w.expects version := by
  cases w <;> trivial

def flattenTask (settings : Settings) (input : FlattenInput) : UseCase (Option ResponseBody) := do
  flattenSignature settings input
  pure none

theorem expectsFrom (input : FlattenInput) (e : Envelope) :
    Program.WritesFrom e (Write.expects e.document.version) (flattenTask settings input) := by
  have signature : Program.WritesFrom e (Write.expects e.document.version) (flattenSignature settings input) := by
    refine Program.writesFromResults (writesWork input) (workFrom input e) ?_
    intro result read
    match result with
    | .error _ => trivial
    | .ok none => trivial
    | .ok (some loaded) =>
      have document := read loaded rfl
      simp only
      split
      · refine writesThen writesExternal (fun _ => writesThen writesGet (fun _ => writesThen writesGet (fun _ => ?_)))
        exact writesAttempt (writesPerform trivial) (fun _ => trivial)
      · refine writesThen writesGet (fun now => writesThen (writesAttempt ?_ (fun _ => trivial)) (fun leased => ?_))
        · refine writesThen writesFind (fun current => ?_)
          refine writesThen (writesPerform (congrArg Document.version document)) (fun _ => ?_)
          exact writesThen writesExternal (fun _ => writesGet)
        · exact Program.writesMono (fun w working => expectsOther (workingTakes working))
            (writesAfterClaim input loaded now leased)
  refine Program.writesFromBind signature (fun result => ?_)
  cases result <;> trivial

/-- The task returns only when the document is finalized. -/
def Closing (settings : Settings) (task : UseCase (Option ResponseBody)) (e : Envelope) : Prop :=
  (signedUp settings).Holds task (fun result e' => ∀ value, result = .ok value → e'.document.state = .finalized) e

inductive Handling (settings : Settings) (task : UseCase (Option ResponseBody)) (e : Envelope) : Prop where
  | fresh (input : FlattenInput) (same : task = flattenTask settings input)
  | closing (h : Closing settings task e)
  | stale (version : Nat) (expects : Program.Writes (Write.expects version) task) (read : version ≤ e.document.version)
      (before : e.document.version = version → e.document.state.done = false)

theorem closingStart (input : FlattenInput) {e} (inv : (signedUp settings).Inv e) (signed : SignedUp e) :
    Closing settings (flattenTask settings input) e := by
  have task : (signedUp settings).Ensures (flattenTask settings input) (fun _ e' => e'.document.state = .finalized) e :=
    ensuresBind (ensuresMono (fun _ _ final => ensuresPure final) (ensuresFinalized input signed))
  exact (signedUp settings).holdsMono (fun _ _ held => held.2) (task inv)

theorem Closing.later {task : UseCase (Option ResponseBody)} {e e'} (h : Closing settings task e) (later : Later e e') :
    Closing settings task e' :=
  (signedUp settings).holdsAfter (fun _ returned value same => finalizedStays later (returned value same))
    ⟨later,trivial⟩ h

theorem Handling.later {task : UseCase (Option ResponseBody)} {e e'} (h : Handling settings task e) (later : Later e e') :
    Handling settings task e' := by
  cases h with
  | fresh input same => exact .fresh input same
  | closing h => exact .closing (h.later later)
  | stale version expects read before =>
    refine .stale version expects (read.trans later.version) (fun same => ?_)
    have bound := later.version
    have still : e'.document = e.document := later.row (by omega)
    rw [still] at same ⊢
    exact before same

theorem Closing.readNext {next : Envelope → Input → UseCase (Option ResponseBody)} {e} (inv : (signedUp settings).Inv e)
    (h : Closing settings (.read next) e) (i : Input) : Closing settings (next e i) e :=
  h e ((signedUp settings).refl e) inv i

theorem Closing.writeNext {w : Write} {next : Except AppError Unit → UseCase (Option ResponseBody)} {e}
    (inv : (signedUp settings).Inv e) (h : Closing settings (.write w next) e) (i : Input) :
    Closing settings (next (w.exec e i).2) (w.exec e i).1 := (h e ((signedUp settings).refl e) inv).2 trivial i

theorem Handling.readNext {next : Envelope → Input → UseCase (Option ResponseBody)} {e} (inv : (signedUp settings).Inv e)
    (h : Handling settings (.read next) e) (i : Input) : Handling settings (next e i) e := by
  cases h with
  | fresh input same =>
    cases done : e.document.state.done with
    | true =>
      have closing : Closing settings (flattenTask settings input) e := closingStart input inv (doneSignedUp inv done)
      rw [← same] at closing
      exact .closing (closing.readNext inv i)
    | false =>
      have expects : Program.WritesFrom e (Write.expects e.document.version) (flattenTask settings input) :=
        expectsFrom input e
      rw [← same] at expects
      exact .stale e.document.version (expects i) (le_refl _) (fun _ => done)
  | closing h => exact .closing (h.readNext inv i)
  | stale version expects read before => exact .stale version (expects e i) read before

theorem Handling.writeNext {w : Write} {next : Except AppError Unit → UseCase (Option ResponseBody)} {e}
    (inv : (signedUp settings).Inv e) (h : Handling settings (.write w next) e) (i : Input)
    (later : Later e (w.exec e i).1) : Handling settings (next (w.exec e i).2) (w.exec e i).1 := by
  cases h with
  | fresh input same => cases same
  | closing h => exact .closing (h.writeNext inv i)
  | stale version expects read before =>
    exact (Handling.stale version (expects.2 _) read before : Handling settings (next (w.exec e i).2) e).later later

theorem Handling.retakes {w : Write} {next : Except AppError Unit → UseCase (Option ResponseBody)} {i e e'}
    (h : Handling settings (.write w next) e) (takes : w.takes = true) (ok : w.run i e = .ok e')
    (failed : e.document.state = .finalizationFailed) : Closing settings (.write w next) e := by
  cases h with
  | fresh input same => cases same
  | closing h => exact h
  | stale version expects read before =>
    cases w with
    | takeLease input expectedVersion leaseUntil now current =>
      obtain ⟨hit,-⟩ := updateDocumentOk (show Documents.takeLease _ _ _ _ _ e = .ok e' from ok)
      have version : e.document.version = version := (of_decide_eq_true hit).1.trans expects.1
      have undone := before version
      rw [failed] at undone
      cases undone
    | _ => cases takes

/-- Everyone has signed, and the document shows neither an end nor a failure. -/
def Awaiting (e : Envelope) : Prop :=
  SignedUp e ∧ e.document.state ≠ .finalized ∧ e.document.state ≠ .finalizationFailed

theorem Awaiting.kept {e e' : Envelope} (h : Awaiting e') (signers : e'.signers = e.signers)
    (sent : e'.document.signingRevisionId = e.document.signingRevisionId)
    (state : e.document.state = .finalized ∨ e.document.state = .finalizationFailed →
      e'.document.state = e.document.state) :
    Awaiting e := by
  obtain ⟨⟨isSent,all⟩,unfinal,unfailed⟩ := h
  unfold Envelope.sent at isSent
  rw [sent] at isSent
  refine ⟨⟨isSent,signers ▸ all⟩,fun final => unfinal ?_,fun failed => unfailed ?_⟩
  · rw [state (.inl final),final]
  · rw [state (.inr failed),failed]

/- A document comes to wait for its jobs when its last signer signs, or when one of them takes it
back from a failure. -/
theorem Awaiting.source {w : Write} {i e e'} (inv : Consistent e) (inv' : Consistent e') (just : Justified Before w e)
    (done : Committed i e e' w) (h : Awaiting e') : Awaiting e ∨ (∃ u, w = .complete u ∧ CompleteEffect u i e e') ∨
      (w.takes = true ∧ e.document.state = .finalizationFailed) := by
  have unprep : isPreparationState e'.document.state = false := by
    cases prep : isPreparationState e'.document.state with
    | false => rfl
    | true =>
      have sent := h.1.1
      rw [Envelope.sent,(inv'.unsent prep).2.2] at sent
      cases sent
  cases done with
  | still h' idle artifact => exact .inl (h.kept h'.signers (by rw [h'.document]) (fun _ => by rw [h'.document]))
  | released h' => subst h'; exact .inl (h.kept rfl rfl (fun _ => rfl))
  | failed state h' => subst h'; exact absurd rfl h.2.2
  | leased row frame state revised kept =>
    by_cases failed : e.document.state = .finalizationFailed
    · exact .inr (.inr ⟨rfl,failed⟩)
    · refine .inl (h.kept (by rw [frame]) revised.signingRevisionId (fun ends => ?_))
      rw [state,ends.resolve_right failed]
      rfl
  | upload h' => exact .inl (h.kept h'.signers (by rw [h'.document]) (fun _ => by rw [h'.document]))
  | inspect h' =>
    obtain ⟨status,changed⟩ := h'.document
    exact .inl (h.kept h'.signers (by rw [changed]) (fun _ => by rw [changed]))
  | replaceSigners h' =>
    have prep : isPreparationState e.document.state = true := by rw [just.document.row h'.version]; exact just.unlocked
    rw [(h'.preparation prep (inv.unsent prep).2.2).2.1] at unprep
    cases unprep
  | replaceFields h' =>
    rcases h'.document with same | ⟨-,state,either,-,changed⟩
    · exact .inl (h.kept h'.signers (by rw [same]) (fun _ => by rw [same]))
    · rw [changed] at unprep
      rcases either with rfl | rfl <;> cases unprep
  | send h' => exact absurd h.1.2 (sentUnsigned inv inv' just h' h.1.1)
  | void h' =>
    refine .inl (h.kept h'.signers (by rw [h'.document]) (fun ends => ?_))
    have state := h'.state
    simp only [List.mem_cons,List.not_mem_nil,or_false] at state
    rcases ends with ends | ends <;> rw [ends] at state <;> simp at state
  | decline h' => exact absurd h.1.2 (declinedUnsigned h')
  | complete h' => exact .inr (.inl ⟨_,rfl,h'⟩)
  | @flatten u h' =>
    cases final : u.finalize with
    | true => exact absurd (by rw [h'.document]; simp [final]) h.2.1
    | false => exact .inl (h.kept h'.signers (by rw [h'.document]) (fun _ => by rw [h'.document]; simp [final]))

end ESign
