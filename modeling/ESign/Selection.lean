import ESign.Preparation

/-! What a signing selects and what its job draws. The ink is asked for the fields that are
selected; the job draws every field of the signer that is not drawn yet, selected or not. -/
namespace ESign
open StoreProgram StoreProgram.Outline

/-- The fields of a signer that a job would draw. -/
def Envelope.pendingFields (e : Envelope) (signerId : Id) : List SignatureField :=
  (e.fields.filter (fun field => field.signerId = signerId)).filter (fun field => field.flattenedRevisionId = none)

/-- What the job that a signing published is run with. -/
def CompleteUnit.jobInput (u : CompleteUnit) (i : Input) (owner : Id) : FlattenInput :=
  ⟨u.loaded.signer.id,u.loaded.session.id,u.sourceRevisionId,(u.job i).jobId,(u.job i).id,owner⟩

def imageError (details : List (String × String)) : AppError := finalizationError .invalidSignatureImage details

/-- The images that a job draws for a signer. -/
def Envelope.images (e : Envelope) (signerId : Id) : List Digest :=
  ((e.pendingFields signerId).filter (fun field => isInk field.type)).filterMap
    (fun field => field.completion.bind FieldCompletion.completionSha256Digest)

/-- The images in `takes` are those that the worker's PNG check and the PDF library take. With
the objects as they were stored, a call fails for an image only if one of those to be drawn is
not taken. -/
def imageFaults (takes : Digest → Bool) (images : List Digest) (i : Input) : Prop :=
  ∀ details, i.failure = some (imageError details) → ∃ digest ∈ images, takes digest = false

def imageless (i : Input) : Prop := ∀ details, i.failure ≠ some (imageError details)

theorem faultsNone {takes : Digest → Bool} {images : List Digest} (taken : ∀ digest ∈ images, takes digest = true) :
    imageFaults takes images = imageless := by
  funext i
  refine propext ⟨fun given details failed => ?_,fun given details failed => absurd failed (given details)⟩
  obtain ⟨digest,mem,refused⟩ := given details failed
  rw [taken digest mem] at refused
  cases refused

def alone : Scope Envelope Write Request := ⟨fun _ => False,fun _ _ => True⟩

/-- In the store that a signing leads to, the job it published draws the fields that were
selected and no others, and no run of it ends with the error for an image. -/
structure DrawsSelection (settings : Settings) (takes : Digest → Bool) (u : CompleteUnit) (i : Input) (e : Envelope) : Prop where
  drawn : ∀ fieldId, fieldId ∈ (e.pendingFields u.loaded.signer.id).map SignatureField.id ↔
    fieldId ∈ u.selected.map SignatureField.id
  work : ∀ owner own loaded c, Amid (esign settings) alone (fun _ => True) (initial e)
    (loadAuthorizedWork (u.jobInput i owner)) own (.ok (some loaded)) c → loaded.pendingFields = e.pendingFields u.loaded.signer.id
  image : ∀ owner own error c, Amid (esign settings) alone (imageFaults takes (e.images u.loaded.signer.id)) (initial e)
    (flattenSignature settings (u.jobInput i owner)) own (.error error) c → ∀ details, error ≠ imageError details

/-! Which errors a job can end with. -/

def Clean {α : Type} (result : Except AppError α) : Prop := ∀ details, result ≠ .error (imageError details)

theorem cleanOk {α : Type} (value : α) : Clean (Except.ok value : Except AppError α) := by
  intro details failed
  cases failed

theorem cleanThen {α β : Type} {x : Except AppError α} {f : α → Except AppError β} (first : Clean x)
    (second : ∀ value, x = .ok value → Clean (f value)) : Clean (x >>= f) := by
  cases x with
  | ok value => exact second value rfl
  | error error =>
    intro details failed
    refine first details ?_
    cases failed
    rfl

theorem cleanIf {α : Type} {holds : Prop} [Decidable holds] {value : α} {error : AppError}
    (other : ∀ details, error ≠ imageError details) : Clean (if holds then .ok value else .error error) := by
  intro details failed
  split at failed
  · cases failed
  · exact other details (Except.error.inj failed)

theorem databaseOther (details : List (String × String)) : databaseError ≠ imageError details := by
  intro same
  cases same

theorem leaseOther (details : List (String × String)) : documentLease ≠ imageError details := by
  intro same
  cases same

theorem fieldOther (details : List (String × String)) : SignatureFields.fieldNotFound ≠ imageError details := by
  intro same
  cases same

theorem cleanApproved (value : PayloadValue) : Clean value.approved := by
  unfold PayloadValue.approved
  split
  · refine cleanIf (fun details same => ?_)
    simp [imageError,finalizationError,AppError.validation] at same
  · refine cleanIf (fun details same => ?_)
    simp [imageError,finalizationError,AppError.validation] at same
  · exact cleanOk ()

theorem cleanEntries (payload : List (String × PayloadValue)) :
    Clean (forIn payload PUnit.unit (fun entry _ => do entry.2.approved; pure (.yield PUnit.unit))) := by
  induction payload with
  | nil => exact cleanOk _
  | cons entry rest ih =>
    rw [List.forIn_cons]
    refine cleanThen (cleanThen (cleanApproved entry.2) (fun _ _ => cleanOk _)) (fun next ok => ?_)
    obtain ⟨_,_,same⟩ := bindOk.mp ok
    cases same
    exact ih

theorem cleanAppend (event : NewAuditEvent) (e : Envelope) : Clean (Audit.append event e) :=
  cleanThen (cleanEntries event.payload) (fun _ _ => cleanOk _)

theorem cleanMarked (revisionId : Id) (list : List SignatureField) (e : Envelope) :
    Clean (markAllFlattened revisionId list e) := by
  induction list generalizing e with
  | nil => exact cleanOk e
  | cons field rest ih =>
    exact cleanThen (cleanThen (cleanIf fieldOther) (fun _ _ => cleanOk _)) (fun next _ => ih next)

theorem cleanFlatten (u : FlattenUnit) (e : Envelope) : Clean (u.run e) := by
  have drawn : ∀ e, Clean (u.addRevision e) := by
    intro e
    unfold FlattenUnit.addRevision
    split
    · exact cleanThen (cleanThen (cleanIf databaseOther) (fun _ _ => cleanOk _))
        (fun _ _ => cleanThen (cleanMarked _ _ _) (fun _ _ => cleanAppend _ _))
    · exact cleanOk e
  have made : ∀ e, Clean (u.createArtifact e) := by
    intro e
    unfold FlattenUnit.createArtifact
    split
    · exact cleanOk e
    · exact cleanThen (cleanIf databaseOther) (fun _ _ => cleanOk _)
  have finished : ∀ e, Clean (u.addArtifact e) := by
    intro e
    unfold FlattenUnit.addArtifact
    split
    · exact cleanThen (made e) (fun _ _ => cleanAppend _ _)
    · exact cleanOk e
  exact cleanThen (drawn e) (fun e₁ _ => cleanThen (cleanIf leaseOther) (fun e₂ _ => finished e₂))

theorem cleanPersist (u : PersistUnit) (e : Envelope) : Clean (u.run e) := by
  unfold PersistUnit.run
  split
  · exact cleanOk e
  · exact cleanThen (cleanThen (cleanIf databaseOther) (fun _ _ => cleanOk _)) (fun _ _ => cleanAppend _ _)

/-- The statements and units of work of a flatten job. -/
def Write.ofJob : Write → Bool
  | .takeLease _ _ _ _ _ => true
  | .finalizationStarted _ _ => true
  | .flatten _ => true
  | .persist _ => true
  | .markFinalizationFailed _ => true
  | .finalizationFailed _ _ _ => true
  | .releaseLease _ => true
  | _ => false

theorem cleanRun {w : Write} (ofJob : w.ofJob = true) (i : Input) (e : Envelope) : Clean (w.run i e) := by
  cases w with
  | takeLease input expectedVersion leaseUntil now current => exact cleanIf leaseOther
  | finalizationStarted input occurredAt => exact cleanAppend _ e
  | flatten u => exact cleanFlatten u e
  | persist u => exact cleanPersist u e
  | markFinalizationFailed owner => exact cleanOk _
  | finalizationFailed input code occurredAt => exact cleanAppend _ e
  | releaseLease owner => exact cleanOk _
  | _ => cases ofJob

theorem cleanExec {w : Write} (ofJob : w.ofJob = true) {i : Input} (given : imageless i) (e : Envelope) :
    Clean (w.exec e i).2 := by
  unfold Write.exec
  cases failed : i.failure with
  | some error =>
    intro details same
    exact given details (by rw [failed,Except.error.inj same])
  | none =>
    have run := cleanRun ofJob i e
    cases ran : w.run i e with
    | ok e' => exact cleanOk ()
    | error error =>
      rw [ran] at run
      intro details same
      exact run details (by rw [Except.error.inj same])

/-! The programs of a job. -/

def jobAnswers (w : Write) (answer : Except AppError Unit) : Prop := w.ofJob = true → Clean answer

/-- Unless a call fails for an image, the program does not end with that error. -/
def Cleanly {α : Type} (p : UseCase α) : Prop := Program.Results imageless jobAnswers Clean p

section
variable {α β : Type}

theorem cleanlyBind {p : UseCase α} {f : α → UseCase β} (first : Cleanly p) (second : ∀ value, Cleanly (f value)) :
    Cleanly (p >>= f) := by
  refine Program.resultsBind (Program.resultsMono ?_ first)
  intro result clean
  cases result with
  | ok value => exact second value
  | error error =>
    intro details failed
    cases failed
    exact clean details rfl

theorem cleanlyLift {result : Except AppError α} (clean : Clean result) : Cleanly (Fallible.lift result : UseCase α) := clean

theorem cleanlyPure (value : α) : Cleanly (pure value : UseCase α) := cleanOk value

theorem cleanlyFail {error : AppError} (other : ∀ details, error ≠ imageError details) :
    Cleanly (Fallible.fail error : UseCase α) := by
  intro details failed
  exact other details (Except.error.inj failed)

theorem cleanlyEnsure {holds : Bool} {error : AppError} (other : ∀ details, error ≠ imageError details) :
    Cleanly (Fallible.ensure holds error : UseCase Unit) := by
  cases holds with
  | true => exact cleanlyPure ()
  | false => exact cleanlyFail other

theorem cleanlyGet (f : Envelope → Input → α) : Cleanly (Fallible.get f : UseCase α) := fun _ _ _ => cleanOk _

theorem cleanlyFind {f : Envelope → Option α} {error : AppError} (other : ∀ details, error ≠ imageError details) :
    Cleanly (Fallible.find f error : UseCase α) := by
  intro e i given
  change Clean ((f e).elim (.error error) .ok)
  cases f e with
  | none =>
    intro details failed
    exact other details (Except.error.inj failed)
  | some value => exact cleanOk value

theorem cleanlyExternal : Cleanly external := by
  intro e i given
  change Clean (i.failure.elim (.ok ()) .error)
  cases failed : i.failure with
  | none => exact cleanOk ()
  | some error =>
    intro details same
    exact given details (by rw [failed,Except.error.inj same])

theorem cleanlyPerform {w : Write} (ofJob : w.ofJob = true) : Cleanly (Fallible.perform w : UseCase Unit) :=
  fun _ answered => answered ofJob

theorem cleanlyWhen {holds : Bool} {p : UseCase Unit} (clean : Cleanly p) : Cleanly (Fallible.when holds p) := by
  cases holds with
  | true => exact clean
  | false => exact cleanlyPure ()

theorem cleanlyAttempt {p : UseCase α} {handler : AppError → UseCase α} (clean : Cleanly p)
    (caught : ∀ error, (∀ details, error ≠ imageError details) → Cleanly (handler error)) :
    Cleanly (Fallible.attempt p handler) := by
  refine Program.resultsBind (Program.resultsMono ?_ clean)
  intro result ended
  cases result with
  | ok value => exact cleanOk value
  | error error => exact caught error (fun details same => ended details (by rw [same]))

end

theorem otherCode {code : FinalizationFailureCode} (other : code.name ≠ "INVALID_SIGNATURE_IMAGE")
    (details' details : List (String × String)) : finalizationError code details' ≠ imageError details := by
  intro same
  simp only [imageError,finalizationError,AppError.application.injEq,List.cons.injEq,Prod.mk.injEq] at same
  exact other same.2.1.2

theorem cleanlyWork (input : FlattenInput) : Cleanly (loadAuthorizedWork input) := by
  refine cleanlyBind (cleanlyGet _) (fun document => cleanlyBind (cleanlyGet _) (fun artifact => ?_))
  split
  · exact cleanlyPure none
  refine cleanlyBind (cleanlyFind (otherCode (by decide) _)) (fun signer => ?_)
  refine cleanlyBind (cleanlyFind (otherCode (by decide) _)) (fun session => ?_)
  refine cleanlyBind (cleanlyEnsure (otherCode (by decide) _)) (fun _ => ?_)
  refine cleanlyBind (cleanlyFind (otherCode (by decide) _)) (fun consent => ?_)
  refine cleanlyBind (cleanlyFind (otherCode (by decide) _)) (fun revision => ?_)
  refine cleanlyBind (cleanlyGet _) (fun signers => cleanlyBind (cleanlyGet _) (fun fields => ?_))
  refine cleanlyBind (cleanlyEnsure (otherCode (by decide) _)) (fun _ => ?_)
  exact cleanlyBind (cleanlyGet _) (fun now => cleanlyPure _)

theorem leaseErrorOther {error : AppError} (other : ∀ details, error ≠ imageError details) :
    ∀ details, leaseError error ≠ imageError details := by
  intro details
  unfold leaseError
  split
  · exact otherCode (by decide) _ details
  · exact other details

theorem commitErrorOther {error : AppError} (other : ∀ details, error ≠ imageError details) :
    ∀ details, commitError error ≠ imageError details := by
  intro details
  unfold commitError
  split
  · exact otherCode (by decide) _ details
  · exact otherCode (by decide) _ details
  · exact other details
  · exact otherCode (by decide) _ details

theorem cleanlyRecord (input : FlattenInput) {error : AppError} (other : ∀ details, error ≠ imageError details) :
    Cleanly (recordFailure input error) := by
  unfold recordFailure
  split
  · exact cleanlyBind (cleanlyPerform rfl) (fun _ => cleanlyFail other)
  · refine cleanlyBind (cleanlyPerform rfl) (fun _ => cleanlyBind cleanlyExternal (fun _ => ?_))
    refine cleanlyBind (cleanlyGet _) (fun occurredAt => ?_)
    exact cleanlyBind (cleanlyPerform rfl) (fun _ => cleanlyFail other)

/-- Every pending field can be drawn: those that want ink have it. -/
def Inked (input : FlattenInput) (loaded : LoadedWork) : Prop :=
  ∀ pageCount, Clean (assertDrawable input pageCount loaded.pendingFields)

theorem cleanlyDraw {input : FlattenInput} {loaded : LoadedWork} (inked : Inked input loaded) (leased : Document) :
    Cleanly (drawAndCommit input loaded leased) := by
  refine cleanlyBind (cleanlyFind (otherCode (by decide) _)) (fun revision => cleanlyBind ?_ (fun output => ?_))
  · unfold outputOf
    split
    · refine cleanlyBind cleanlyExternal (fun _ => cleanlyBind (cleanlyLift (inked revision.pageCount)) (fun _ => ?_))
      exact cleanlyBind cleanlyExternal (fun _ => cleanlyBind (cleanlyGet _) (fun pageCount => cleanlyPure _))
    · exact cleanlyBind cleanlyExternal (fun _ => cleanlyPure _)
  · refine cleanlyBind (cleanlyGet _) (fun ids => cleanlyBind (cleanlyGet _) (fun occurredAt => ?_))
    refine cleanlyBind (cleanlyWhen cleanlyExternal) (fun _ => ?_)
    exact cleanlyAttempt (cleanlyPerform rfl) (fun error other => cleanlyFail (commitErrorOther other))

theorem cleanlyRest (settings : Settings) {input : FlattenInput} {loaded : LoadedWork} (inked : Inked input loaded) :
    Cleanly (if loaded.document.state = .finalized then persistMissingFinalArtifact input loaded
      else do
        let now ← clock
        let leased ← Fallible.attempt (claimProcessingLease input loaded.document.version (now + settings.leaseMs) now)
          (fun error => Fallible.fail (leaseError error))
        Fallible.when (leased.state = .finalizing) (Fallible.perform (.finalizationStarted input now))
        Fallible.attempt (drawAndCommit input loaded leased) (recordFailure input)) := by
  split
  · refine cleanlyBind cleanlyExternal (fun _ => cleanlyBind (cleanlyGet _) (fun artifactId => ?_))
    refine cleanlyBind (cleanlyGet _) (fun occurredAt => ?_)
    exact cleanlyAttempt (cleanlyPerform rfl) (fun error other => cleanlyFail (commitErrorOther other))
  · refine cleanlyBind (cleanlyGet _) (fun now => cleanlyBind (cleanlyAttempt ?_ ?_) (fun leased => ?_))
    · refine cleanlyBind (cleanlyFind leaseOther) (fun current => cleanlyBind (cleanlyPerform rfl) (fun _ => ?_))
      exact cleanlyBind cleanlyExternal (fun _ => cleanlyGet _)
    · exact fun error other => cleanlyFail (leaseErrorOther other)
    · refine cleanlyBind (cleanlyWhen (cleanlyPerform rfl)) (fun _ => ?_)
      exact cleanlyAttempt (cleanlyDraw inked leased) (fun error other => cleanlyRecord input other)

/-! What a signing leaves of the fields it selected. -/

theorem completedFields {u : CompleteUnit} {list : List SignatureField} {e e'} (ok : u.completeFields list e = .ok e') :
    ∀ f' ∈ e'.fields, f'.id ∈ list.map SignatureField.id → ∃ g ∈ list, g.id = f'.id ∧ f'.completion = some (u.completion g) := by
  induction list generalizing e with
  | nil =>
    intro f' _ none
    cases none
  | cons field rest ih =>
    rw [CompleteUnit.completeFields] at ok
    obtain ⟨e₁,first,ok⟩ := bindOk.mp ok
    intro f' mem named
    by_cases again : f'.id ∈ rest.map SignatureField.id
    · obtain ⟨g,found,same,completed⟩ := ih ok f' mem again
      exact ⟨g,List.mem_cons_of_mem _ found,same,completed⟩
    · have own : f'.id = field.id := by
        rcases List.mem_cons.mp named with same | later
        · exact same
        · exact absurd later again
      obtain ⟨rows,rfl,kept⟩ := completeFieldsEffect ok
      obtain ⟨f,found,row⟩ := forall₂Source kept f' mem
      have id : f'.id = f.id := by rw [row.kept]
      rw [row.only (by rw [← id]; exact again)]
      obtain ⟨rows',updated,last⟩ := bindOk.mp first
      cases last
      obtain ⟨rfl,-⟩ := updateOneOk updated
      obtain ⟨old,oldMem,rfl⟩ := List.mem_map.mp found
      by_cases hit : old.id = field.id
      · refine ⟨field,List.mem_cons_self,?_,?_⟩ <;> simp [hit]
      · rw [if_neg (by simpa using hit)] at id
        exact absurd (id.symm.trans own) hit

theorem completedSelection {u : CompleteUnit} {i e e'} (ok : u.run i e = .ok e') :
    ∀ f' ∈ e'.fields, f'.id ∈ u.selected.map SignatureField.id →
      ∃ g ∈ u.selected, g.id = f'.id ∧ f'.completion = some (u.completion g) := by
  obtain ⟨e₁,first,ok⟩ := bindOk.mp ok
  obtain ⟨e₂,second,ok⟩ := bindOk.mp ok
  have fields : e₂.fields = e₁.fields := by
    obtain ⟨signers,rfl⟩ := markSignedFrame second
    rfl
  obtain ⟨e₃,third,ok⟩ := bindOk.mp ok
  obtain ⟨sessions,rfl,-⟩ := markCompletedEffect third
  obtain ⟨e₄,fourth,ok⟩ := bindOk.mp ok
  obtain ⟨document,rfl,-⟩ := moveDocumentEffect fourth
  obtain ⟨e₅,fifth,ok⟩ := bindOk.mp ok
  cases appendEffect fifth
  cases publishEffect ok
  rw [show e₂.fields = e₁.fields from fields]
  exact completedFields first

/-- Every field of the signer is selected, but for those an earlier job has drawn. -/
def SelectsPending (u : CompleteUnit) (e : Envelope) : Prop :=
  ∀ f ∈ e.fields, f.signerId = u.loaded.signer.id →
    (f.id ∈ u.selected.map SignatureField.id ↔ f.flattenedRevisionId = none)

/-- The stores of a run that lead up to the present one. -/
abbrev ArrangedBefore (a b : Envelope) : Prop := (Consistent a ∧ Arranged a) ∧ Later a b ∧ Frozen a b

def arrangedExtension : Extension frozenAfterSend where
  Extra := Arranged
  Also := Frozen
  refl := .refl
  trans := .trans
  keep inv extra past just cond _ done _ later :=
    ⟨keepArranged (fun _ _ h => ⟨⟨h.1.1,h.1.2.sent⟩,h.2.1⟩) extra past done later,keepFrozen inv just cond done later⟩

theorem selectedRow {u : CompleteUnit} {e} (past : Justified ArrangedBefore (.complete u) e) :
    ∀ g ∈ u.selected, g.signerId = u.loaded.signer.id ∧ ∃ f ∈ e.fields, f.prepared = g.prepared := by
  obtain ⟨atRoster,atFields,atConsent,source,later⟩ := past
  have sent : atRoster.sent = true :=
    completeSent (fun _ _ h => ⟨⟨h.1.1,h.1.2.sent⟩,h.2.1⟩) source.loaded (actorPending source.turn)
  have frozen := (source.toConsent.2.2.trans later.2.2) (source.later.2.2 sent).1
  have rows : e.fields.map SignatureField.prepared = atFields.fields.map SignatureField.prepared :=
    congrArg Preparation.fields frozen.2
  intro g mem
  obtain ⟨found,owner⟩ := source.selected g mem
  have kept : g.prepared ∈ e.fields.map SignatureField.prepared := by
    rw [rows]
    exact List.mem_map_of_mem found
  obtain ⟨f,fMem,same⟩ := List.mem_map.mp kept
  exact ⟨owner,f,fMem,same⟩

theorem inkGiven {u : CompleteUnit} (ink : assertInkForFields u.selected u.signature.isSome u.initials.isSome = .ok ())
    {g : SignatureField} (mem : g ∈ u.selected) (wanted : isInk g.type = true) :
    (u.completion g).completionObjectKey.isSome = true := by
  obtain ⟨_,first,second⟩ := bindOk.mp ink
  have signature := checkOk.mp first
  have initials := checkOk.mp second
  have either : g.type = .signature ∨ g.type = .initials := of_decide_eq_true wanted
  rw [Bool.or_eq_true,Bool.not_eq_true',List.any_eq_false] at signature initials
  rcases either with type | type
  · have given : u.signature.isSome = true := by
      rcases signature with none | given
      · exact absurd (decide_eq_true type) (none g mem)
      · exact given
    obtain ⟨png,drawn⟩ := Option.isSome_iff_exists.mp given
    simp [CompleteUnit.completion,type,drawn]
  · have given : u.initials.isSome = true := by
      rcases initials with none | given
      · exact absurd (decide_eq_true type) (none g mem)
      · exact given
    obtain ⟨png,drawn⟩ := Option.isSome_iff_exists.mp given
    simp [CompleteUnit.completion,type,drawn]

theorem drawableClean (input : FlattenInput) (pageCount : Nat) {list : List SignatureField}
    (each : ∀ f ∈ list, isInk f.type = true → (f.completion.bind FieldCompletion.completionObjectKey).isSome = true) :
    Clean (assertDrawable input pageCount list) := by
  induction list with
  | nil => exact cleanOk ()
  | cons field rest ih =>
    rw [assertDrawable]
    refine cleanThen (cleanIf (otherCode (by decide) _)) (fun _ _ => ?_)
    refine cleanThen (cleanIf (otherCode (by decide) _)) (fun _ _ => cleanThen ?_ (fun _ _ => ?_))
    · have has : (!isInk field.type || (field.completion.bind FieldCompletion.completionObjectKey).isSome) = true := by
        cases wanted : isInk field.type with
        | false => rfl
        | true => simpa using each field List.mem_cons_self wanted
      rw [has]
      exact cleanOk ()
    · exact ih (fun f mem => each f (List.mem_cons_of_mem _ mem))

theorem pendingAfter {u : CompleteUnit} {i e e'} (h : CompleteEffect u i e e') (fieldId : Id) :
    fieldId ∈ (e'.pendingFields u.loaded.signer.id).map SignatureField.id ↔
      ∃ f ∈ e.fields, f.id = fieldId ∧ f.signerId = u.loaded.signer.id ∧ f.flattenedRevisionId = none := by
  simp only [Envelope.pendingFields,List.mem_map,List.mem_filter,decide_eq_true_eq]
  refine ⟨?_,?_⟩
  · rintro ⟨f',⟨⟨mem',owner⟩,pending⟩,named⟩
    obtain ⟨f,mem,row⟩ := forall₂Source h.fields f' mem'
    rw [row.kept] at named owner pending
    exact ⟨f,mem,named,owner,pending⟩
  · rintro ⟨f,mem,named,owner,pending⟩
    obtain ⟨f',mem',row⟩ := forall₂Source h.fields.flip f mem
    exact ⟨f',⟨⟨mem',by rw [row.kept]; exact owner⟩,by rw [row.kept]; exact pending⟩,by rw [row.kept]; exact named⟩

theorem sameField {e : Envelope} (ids : (e.fields.map SignatureField.id).Nodup) {f g : SignatureField}
    (fMem : f ∈ e.fields) (gMem : g ∈ e.fields) (same : f.id = g.id) : f = g := List.inj_on_of_nodup_map ids fMem gMem same

/- The fields the job draws are the selected ones, if and only if the pending ones were selected. -/
theorem drawnIff {u : CompleteUnit} {i e e'} (extra : Arranged e) (past : Justified ArrangedBefore (.complete u) e)
    (h : CompleteEffect u i e e') :
    (∀ fieldId, fieldId ∈ (e'.pendingFields u.loaded.signer.id).map SignatureField.id ↔
      fieldId ∈ u.selected.map SignatureField.id) ↔ SelectsPending u e := by
  refine ⟨fun drawn f mem owner => ?_,fun selects fieldId => ?_⟩
  · rw [← drawn f.id,pendingAfter h]
    refine ⟨?_,fun pending => ⟨f,mem,rfl,owner,pending⟩⟩
    rintro ⟨g,found,same,-,pending⟩
    rw [sameField extra.fieldIds mem found same.symm]
    exact pending
  · rw [pendingAfter h]
    refine ⟨?_,fun selected => ?_⟩
    · rintro ⟨f,mem,rfl,owner,pending⟩
      exact (selects f mem owner).mpr pending
    · obtain ⟨g,found,rfl⟩ := List.mem_map.mp selected
      obtain ⟨owner,f,mem,same⟩ := selectedRow past g found
      have id : f.id = g.id := congrArg PreparedField.id same
      have signer : f.signerId = u.loaded.signer.id := (congrArg PreparedField.signerId same).trans owner
      rw [← id] at selected
      exact ⟨f,mem,id,signer,(selects f mem signer).mp selected⟩

theorem pendingInked {u : CompleteUnit} {i e e'} (extra : Arranged e) (past : Justified ArrangedBefore (.complete u) e)
    (ok : u.run i e = .ok e') (h : CompleteEffect u i e e')
    (drawn : ∀ fieldId ∈ (e'.pendingFields u.loaded.signer.id).map SignatureField.id,
      fieldId ∈ u.selected.map SignatureField.id) :
    ∀ f' ∈ e'.pendingFields u.loaded.signer.id, isInk f'.type = true →
      (f'.completion.bind FieldCompletion.completionObjectKey).isSome = true := by
  intro f' pending wanted
  have mem' : f' ∈ e'.fields := (List.mem_filter.mp (List.mem_filter.mp pending).1).1
  obtain ⟨g,found,same,completed⟩ := completedSelection ok f' mem' (drawn f'.id (List.mem_map_of_mem pending))
  obtain ⟨f,mem,row⟩ := forall₂Source h.fields f' mem'
  obtain ⟨-,t,tMem,kept⟩ := selectedRow past g found
  have id : t.id = f.id := by
    have named : f'.id = f.id := by rw [row.kept]
    exact (congrArg PreparedField.id kept).trans (same.trans named)
  rw [sameField extra.fieldIds tMem mem id] at kept
  have type : f'.type = g.type := by
    rw [row.kept]
    exact congrArg PreparedField.type kept
  obtain ⟨atRoster,atFields,atConsent,source,-⟩ := past
  rw [completed]
  exact inkGiven source.ink found (by rw [← type]; exact wanted)

/-- Every image that the request gives to a selected field is taken. -/
def ImagesTaken (takes : Digest → Bool) (u : CompleteUnit) : Prop :=
  ∀ field ∈ u.selected, ∀ digest, (u.completion field).completionSha256Digest = some digest → takes digest = true

theorem imagesTaken {takes : Digest → Bool} {u : CompleteUnit} {i e e'} (ok : u.run i e = .ok e') (taken : ImagesTaken takes u)
    (drawn : ∀ fieldId ∈ (e'.pendingFields u.loaded.signer.id).map SignatureField.id,
      fieldId ∈ u.selected.map SignatureField.id) :
    ∀ digest ∈ e'.images u.loaded.signer.id, takes digest = true := by
  intro digest mem
  obtain ⟨f',inked,image⟩ := List.mem_filterMap.mp mem
  have pending : f' ∈ e'.pendingFields u.loaded.signer.id := (List.mem_filter.mp inked).1
  have mem' : f' ∈ e'.fields := (List.mem_filter.mp (List.mem_filter.mp pending).1).1
  obtain ⟨g,found,-,completed⟩ := completedSelection ok f' mem' (drawn f'.id (List.mem_map_of_mem pending))
  rw [completed] at image
  exact taken g found digest image

/-! The job, when nothing else runs. -/

section
variable {settings : Settings}

/-- Nothing is written, and the store stays what it is. -/
def stillOutline (settings : Settings) (e : Envelope) : Outline (esign settings) alone where
  Inv s := s = e
  Rel _ _ := True
  Pre _ _ := False
  refl _ := trivial
  trans _ _ := trivial
  keep _ _ never _ := never.elim

theorem aloneWork {inputs : Input → Prop} {input : FlattenInput} {loaded : LoadedWork} {e : Envelope} {own c}
    (run : Amid (esign settings) alone inputs (initial e) (loadAuthorizedWork input) own (.ok (some loaded)) c) :
    loaded.pendingFields = e.pendingFields input.signerId := by
  have held := ensuresWork (o := stillOutline settings e) input (e := e) rfl
  obtain ⟨atDocument,atRoster,atFields,source,last⟩ :=
    (amidHolds (fun _ _ allowed => False.elim allowed) (fun _ _ => trivial) (initialSound rfl) held run).2.2 _ rfl loaded rfl
  have same : atFields = e := last.1
  rw [LoadedWork.pendingFields,source.fields,same]
  rfl

theorem aloneImage {input : FlattenInput} {error : AppError} {e : Envelope} {own c}
    (inked : ∀ pageCount, Clean (assertDrawable input pageCount (e.pendingFields input.signerId)))
    (run : Amid (esign settings) alone imageless (initial e) (flattenSignature settings input) own (.error error) c) :
    ∀ details, error ≠ imageError details := by
  have answered : ∀ (w : Write) (s : Envelope) (i : Input), imageless i → jobAnswers w ((esign settings).exec w s i).2 :=
    fun w s i given ofJob => cleanExec ofJob given s
  obtain ⟨work,c₁,own₁,own₂,-,first,second⟩ := amidBind run
  cases work with
  | error failed =>
    cases second
    intro details same
    exact amidResults answered (cleanlyWork input) first details (by rw [same])
  | ok work =>
    cases work with
    | none => cases second
    | some loaded =>
      have pending := aloneWork first
      have rest : Inked input loaded := fun pageCount => by
        rw [pending]
        exact inked pageCount
      intro details same
      exact amidResults answered (cleanlyRest settings rest) second details (by rw [same])

end

/-- The signings that are about to be committed in a configuration, and what they lead to. -/
def Commits (c : Config Envelope Write Input (Except AppError Unit) (Except AppError (Option ResponseBody)))
    (u : CompleteUnit) (i : Input) (e : Envelope) : Prop :=
  (∃ next, .write (.complete u) next ∈ c.tasks) ∧ u.run i c.store = .ok e

def signingAt (c : Config Envelope Write Input (Except AppError Unit) (Except AppError (Option ResponseBody))) (n : Nat) :
    Option CompleteUnit :=
  match c.tasks[n]? with
  | some (.write (.complete u) _) => some u
  | _ => none

theorem signingTask {c n u} (found : signingAt c n = some u) : ∃ next, .write (.complete u) next ∈ c.tasks := by
  unfold signingAt at found
  split at found <;> try contradiction
  rename_i next task
  cases Option.some.inj found
  exact ⟨next,List.mem_of_getElem? task⟩

def selectsPendingCheck (u : CompleteUnit) (e : Envelope) : Bool :=
  e.fields.all (fun f => f.signerId ≠ u.loaded.signer.id ||
    decide (f.id ∈ u.selected.map SignatureField.id) == decide (f.flattenedRevisionId = none))

theorem selectsPendingChecked {u e} (ok : selectsPendingCheck u e = true) : SelectsPending u e := by
  intro f mem owner
  have row := List.all_eq_true.mp ok f mem
  simpa [owner] using row

/-- The job of every signing that any run commits draws what was selected. -/
def DrawsWhatWasSigned (settings : Settings) (takes : Digest → Bool) (draft : NewDraft) : Prop :=
  ∀ c, Run (esign settings) anyScope (initial (createDraftDocument draft)) c → ∀ u i e', Commits c u i e' →
    DrawsSelection settings takes u i e'

/-- A task has ended with the error for an image. -/
def imageMissing (c : Config Envelope Write Input (Except AppError Unit) (Except AppError (Option ResponseBody))) (n : Nat) :
    Bool :=
  match c.tasks[n]? with
  | some (.done (.error error)) => error = imageError []
  | _ => false

namespace ThreeSigners

/-- The first signer has a second signature field, which is optional. -/
def withOptional : List (Action Input Request) :=
  served 0 1 7 (.completeSourceUpload ⟨2,77,.ok ()⟩) ++
  served 1 2 8 (.inspectDocument ⟨100,101,.inspectDocument 100⟩) ++
  served 2 3 5 (.replaceDocumentSigners ⟨3,.parallel,rows .parallel⟩) ++
  served 3 4 6 (.replaceDocumentFields ⟨3,.allow,[fieldRow 300,fieldRow 301,fieldRow 302,
    { fieldRow 300 with required := some false }]⟩) ++
  served 4 5 13 (.sendDocument ⟨3,none,some 9⟩) ++
  served 5 6 7 (.exchangeSigningToken 550 none) ++ served 6 7 8 (consent 650)

end ThreeSigners

set_option maxRecDepth 100000 in
/-- The only field is selected, and the library does not take its image. -/
example : ((esign ThreeSigners.settings).applyAll (fun _ _ => true) ThreeSigners.start
    (ThreeSigners.consented .parallel ++ ThreeSigners.served 11 12 15 (ThreeSigners.complete 650 400 61) ++
      ThreeSigners.served 12 13 16 (ThreeSigners.job 12 300 500 100) ++
      .step 12 { ThreeSigners.input 13 with failure := some (imageError []) } :: ThreeSigners.turns 12 13 4)).map
      (fun c => imageMissing c 12) = some true := by
  decide +kernel

end ESign
