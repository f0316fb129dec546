import ESign.Effects
import ESign.KeyedRequests

/-! What an idempotency key does to the requests that carry it. A request that has created the
record is alone in having it: the record is unique, and only its creator completes it. -/
namespace ESign.Keyed
open JsText StoreProgram StoreProgram.Answering

inductive Stage where
  | free
  | replaying (body : Json)
  | begun (recordId : Id)
  | acted (recordId : Id)
  | completed (recordId : Id) (body : Json)

def Stage.recordId : Stage → Option Id
  | .free => none
  | .replaying _ => none
  | .begun recordId => some recordId
  | .acted recordId => some recordId
  | .completed recordId _ => some recordId

def OfficeWrite.isUnit : OfficeWrite → Bool
  | .createDraft _ => true
  | .send _ _ _ => true
  | .void _ _ _ => true
  | _ => false

def noKey : AppError := .unknown "no_key"

section
variable (settings : OfficeSettings)

/-- What is checked of a request before its record is looked for. -/
def inputOf : OfficeRequest → Except AppError IdempotencyInput
  | .createDraftDocument input => do
      let key ← requireIdempotencyKey input.idempotencyKey
      let _ ← sanitizeDisplayFilename input.filename
      check (1 ≤ (JsText.trim input.title).length ∧ (JsText.trim input.title).length ≤ 200)
        (.validation [("field","title"),("reason","invalid")])
      .ok ⟨⟨input.organizationId,input.userId,createDocumentRoute,key⟩,createRequest (JsText.trim input.title) input.filename⟩
  | .sendDocument input => do
      let key ← requireIdempotencyKey input.idempotencyKey
      .ok ⟨⟨input.organizationId,input.userId,sendDocumentRoute,key⟩,sendRequest input.documentId input.expiresAt⟩
  | .voidDocument input => do
      let key ← requireIdempotencyKey input.idempotencyKey
      .ok ⟨⟨input.organizationId,input.userId,voidDocumentRoute,key⟩,voidRequest input.documentId⟩
  | .rows _ _ _ => .error noKey

def keyOf (q : OfficeRequest) : Option RecordKey := (inputOf q).toOption.map IdempotencyInput.unique

def replayOf (q : OfficeRequest) (body : Option Json) : Except AppError OfficeResponse :=
  match q with
  | .createDraftDocument _ => .created <$> replayCreateResponse settings.columns settings.uploadTokenHeader body
  | .sendDocument _ => .sent <$> replaySendResponse body
  | .voidDocument _ => .voided <$> replayVoidResponse settings.columns body
  | .rows _ _ _ => .error noKey

end

def OfficeResponse.stored : OfficeResponse → Option Json
  | .created result => some result.stored
  | .sent result => some result.stored
  | .voided result => some result.stored
  | .written => none

section
variable (settings : OfficeSettings)

/-- Whether a replay takes the body: only that of a voided document is checked. -/
def accepted (q : OfficeRequest) (body : Json) : Bool :=
  match q with
  | .voidDocument _ => (publicDocumentSchema settings.columns).accepts body
  | _ => true

/-- The body is what is kept of a response, and a replay of it comes to such a response. -/
def Restores (q : OfficeRequest) (body : Json) : Prop := ∃ response : OfficeResponse, response.stored = some body ∧
  replayOf settings q (some body) = if accepted settings q body then .ok response else .error missingBody

/-- The record was made for what the request asks for. -/
def IsRecord (q : OfficeRequest) (record : IdempotencyRecord) : Prop :=
  ∃ input, inputOf q = .ok input ∧ record.unique = input.unique ∧ record.requestHash = input.requestHash settings

def Learns (q : OfficeRequest) (stage : Stage) (s : Office) (stage' : Stage) : Prop :=
  stage' = stage ∨ (stage = .free ∧ ∃ record ∈ s.records, ∃ body, IsRecord settings q record ∧
    record.responseBody = some body ∧ stage' = .replaying body)

/-- A task writes nothing about a record but what its stage is for. -/
def Allows (q : OfficeRequest) : Stage → OfficeWrite → Prop
  | .free, .createRecord record =>
      ∃ input id now, inputOf q = .ok input ∧ record = newRecord settings input id now
  | .free, .rows _ _ _ => True
  | .begun _, w => w.isUnit = true
  | .acted recordId, .completeRecord _ recordId' _ body => recordId' = recordId ∧ Restores settings q body
  | _, _ => False

def after : Stage → OfficeWrite → Except AppError (Option Document) → Stage
  | .free, .createRecord record, .ok _ => .begun record.id
  | .begun recordId, _, .ok _ => .acted recordId
  | .acted recordId, .completeRecord _ _ _ body, .ok _ => .completed recordId body
  | stage, _, _ => stage

/-- The unit of work that voids a document returns a voided one. -/
def Answers : OfficeWrite → Except AppError (Option Document) → Prop
  | .void _ _ _, .ok answer => ∀ document, answer = some document → document.state = .voided
  | _, _ => True

def keyed : Conduct Office OfficeWrite (Except AppError (Option Document)) OfficeRequest where
  Stage := Stage
  first := .free
  answers := Answers
  learns := Learns settings
  idle _ _ _ := .inl rfl
  allows := Allows settings
  after _ := after

def Closes (q : OfficeRequest) (stage : Stage) (result : Except AppError OfficeResponse) : Prop :=
  ∀ response, result = .ok response →
    match stage with
    | .replaying body => replayOf settings q (some body) = .ok response
    | .completed _ body => response.stored = some body
    | _ => keyOf q = none

end

theorem bindAssoc {α β γ : Type} (p : OfficeUseCase α) (f : α → OfficeUseCase β) (g : β → OfficeUseCase γ) :
    ((p >>= f) >>= g : OfficeUseCase γ) = p >>= fun value => f value >>= g := by
  induction p with
  | done result => cases result <;> rfl
  | read next ih => exact congrArg Program.read (funext fun s => funext fun i => ih s i)
  | write w next ih => exact congrArg (Program.write w) (funext fun r => ih r)

/-- A request with a key, from the search for its record on. -/
def withRecord (settings : OfficeSettings) (q : OfficeRequest) (input : IdempotencyInput)
    (acts : IdempotencyRecord → OfficeUseCase OfficeResponse) : OfficeUseCase OfficeResponse := do
  let now ← clock
  let begun ← replayOrBeginIdempotency settings input now false
  match begun with
  | .replay record => lift (replayOf settings q record.responseBody)
  | .record record => acts record

section
variable {settings : OfficeSettings} {α : Type}

theorem shaped {q : OfficeRequest} {input : IdempotencyInput} {replay : Option Json → Except AppError α}
    {acts : IdempotencyRecord → OfficeUseCase α} {respond : α → OfficeResponse}
    (same : ∀ body, replayOf settings q body = respond <$> replay body) :
    ((do
      let now ← clock
      let begun ← replayOrBeginIdempotency settings input now false
      match begun with
      | .replay record => lift (replay record.responseBody)
      | .record record => acts record : OfficeUseCase α) >>= fun result => pure (respond result) :
        OfficeUseCase OfficeResponse) =
    withRecord settings q input (fun record => acts record >>= fun result => pure (respond result)) := by
  rw [withRecord,bindAssoc]
  refine congrArg (clock >>= ·) (funext fun now => ?_)
  rw [bindAssoc]
  refine congrArg (_ >>= ·) (funext fun begun => ?_)
  cases begun with
  | record record => rfl
  | replay record =>
    show (lift (replay record.responseBody) >>= _ : OfficeUseCase OfficeResponse) =
      lift (replayOf settings q record.responseBody)
    rw [same]
    cases replay record.responseBody <;> rfl

/-- What a request does once it has created its record. -/
def actsOf (settings : OfficeSettings) (displayName : Utf16) (record : IdempotencyRecord) :
    OfficeRequest → OfficeUseCase OfficeResponse
  | .createDraftDocument input => do
      pure (.created (← commitDraft settings input (JsText.trim input.title) displayName record.id))
  | .sendDocument input => do pure (.sent (← commitSend settings input record.id))
  | .voidDocument input => do pure (.voided (← commitVoid settings input record.id))
  | .rows _ _ _ => lift (.error noKey)

/-- The name that a new document is shown under. -/
def sourceName : OfficeRequest → Utf16
  | .createDraftDocument input => ((sanitizeDisplayFilename input.filename).toOption).getD []
  | _ => []

theorem startForm {q : OfficeRequest} {input : IdempotencyInput} (begins : inputOf q = .ok input) :
    startOffice settings q = withRecord settings q input (fun record => actsOf settings (sourceName q) record q) := by
  cases q with
  | createDraftDocument input' =>
    simp only [inputOf,bindOk] at begins
    obtain ⟨key,keyed,displayName,named,_,titled,same⟩ := begins
    cases same
    have titled := checkOk.mp titled
    refine Eq.trans ?_ (shaped (fun _ => rfl))
    simp only [startOffice,createDraftDocument,sourceName]
    rw [keyed,named,titled]
    rfl
  | sendDocument input' =>
    simp only [inputOf,bindOk] at begins
    obtain ⟨key,keyed,same⟩ := begins
    cases same
    refine Eq.trans ?_ (shaped (fun _ => rfl))
    simp only [startOffice,sendDocument]
    rw [keyed]
    rfl
  | voidDocument input' =>
    simp only [inputOf,bindOk] at begins
    obtain ⟨key,keyed,same⟩ := begins
    cases same
    refine Eq.trans ?_ (shaped (fun _ => rfl))
    simp only [startOffice,voidDocument]
    rw [keyed]
    rfl
  | rows organizationId documentId w => cases begins

/-! Every request keeps to the conduct. -/

/-- The end of a request that has completed its record. -/
def Completes (stored : α → Json) (stage : Stage) (result : Except AppError α) : Prop :=
  ∀ value, result = .ok value → ∃ recordId, stage = .completed recordId (stored value)

theorem completesError {stored : α → Json} {stage : Stage} (error : AppError) : Completes stored stage (.error error) := nofun

theorem closesError {q : OfficeRequest} {stage : Stage} (error : AppError) : Closes settings q stage (.error error) := nofun

theorem createRestored (input : CreateDraftDocumentInput) (draft : StoredDocument) (expiresAt : Date) (token : Id) :
    Restores settings (.createDraftDocument input) (createdResult settings draft expiresAt token).stored := by
  refine ⟨.created (createdResult settings draft expiresAt token).withoutToken,rfl,?_⟩
  have replayed := replayedCreate settings.columns draft.id draft.title draft.sourceDisplayName draft.envelope.document none [] []
    (createdResult settings draft expiresAt token).upload.url (isoString expiresAt) pdfContentType settings.uploadTokenHeader
    settings.uploadTokenHeader (.ofInt settings.maxUploadBytes) (some token)
  exact congrArg (Functor.map OfficeResponse.created) replayed

theorem sendRestored (input : SendDocumentInput) (found : StoredDocument) (sent : Document) (revision : DocumentRevision)
    (signers : List Signer) (fields : List SignatureField) (issued : List SigningSession) :
    Restores settings (.sendDocument input) (sentResult settings found sent revision signers fields issued).stored := by
  let result := sentResult settings found sent revision signers fields issued
  have kept : result.withoutTokens.stored = result.stored := by
    simp only [result,SendDocumentResult.withoutTokens,SendDocumentResult.stored,List.map_map]
    rfl
  refine ⟨.sent result.withoutTokens,congrArg some kept,?_⟩
  have replayed := replayedSend settings.columns found.id found.title found.sourceDisplayName sent (some revision) signers fields
    (issued.map (invitationOf settings))
  exact congrArg (Functor.map OfficeResponse.sent) replayed

theorem voidRestored (input : VoidDocumentInput) (found : StoredDocument) {voided : Document}
    (state : voided.state = .voided) (revision : Option DocumentRevision) (signers : List Signer) (fields : List SignatureField) :
    Restores settings (.voidDocument input) (toPublicDocument settings.columns found.id found.title found.sourceDisplayName
      voided revision signers fields).stored := by
  refine ⟨.voided (toPublicDocument settings.columns found.id found.title found.sourceDisplayName voided revision signers
    fields),rfl,?_⟩
  have replayed := replayedVoid settings.columns found.id found.title found.sourceDisplayName voided revision signers fields state
  simp only [replayOf,replayed,accepted]
  rw [apply_ite (Functor.map OfficeResponse.voided)]
  rfl

theorem quietFindById {organizationId : Id} {documentId : Utf16} :
    (findById organizationId documentId).Writes (fun _ => False) := quietThen quietLift (fun _ => quietFind)

theorem quietEnsure {holds : Bool} {error : AppError} : (ensure holds error : OfficeUseCase Unit).Writes (fun _ => False) :=
  quietLift

theorem quietExternal : external.Writes (fun _ => False) := fun _ _ => trivial

theorem quietNotify : ∀ sessions, (notifyAll sessions).Writes (fun _ => False)
  | [] => trivial
  | _ :: rest => quietThen quietExternal (fun _ => quietNotify rest)

theorem followsComplete {q : OfficeRequest} {organizationId recordId : Id} {status : Nat} {stored : α → Json} {value : α}
    (restores : Restores settings q (stored value)) :
    (keyed settings).Follows q (Completes stored) (.acted recordId)
      (do let _ ← perform (.completeRecord organizationId recordId status (stored value)); pure value : OfficeUseCase α) := by
  refine followsThen (followsPerform ⟨rfl,restores⟩ (fun r _ => ?_))
  cases r with
  | error error => exact completesError error
  | ok answer =>
    intro other same
    cases same
    exact ⟨recordId,rfl⟩

theorem followsChanged {q : OfficeRequest} {recordId : Id} {w : OfficeWrite} (unit : w.isUnit = true) {stored : α → Json}
    {f : Document → OfficeUseCase α}
    (rest : ∀ document, Answers w (.ok (some document)) →
      (keyed settings).Follows q (Completes stored) (.acted recordId) (f document)) :
    (keyed settings).Follows q (Completes stored) (.begun recordId) (changed w >>= f : OfficeUseCase α) := by
  rw [changed,bindAssoc]
  refine followsThen (followsPerform unit (fun r answers => ?_))
  cases r with
  | error error => exact completesError error
  | ok answer =>
    cases answer with
    | none => exact completesError documentVersion
    | some document => exact rest document answers

theorem followsDraft (input : CreateDraftDocumentInput) (title displayName : Utf16) (recordId : Id) :
    (keyed settings).Follows (.createDraftDocument input) (Completes CreateDraftDocumentResult.stored) (.begun recordId)
      (commitDraft settings input title displayName recordId) := by
  unfold commitDraft
  refine followsAfter quietGet completesError (fun now => followsAfter quietGet completesError (fun ids =>
    followsAfter quietGet completesError (fun token => ?_)))
  refine followsThen (followsPerform rfl (fun r _ => ?_))
  cases r with
  | error error => exact completesError error
  | ok answer => exact followsComplete (createRestored input _ _ _)

theorem followsSend (input : SendDocumentInput) (recordId : Id) :
    (keyed settings).Follows (.sendDocument input) (Completes SendDocumentResult.stored) (.begun recordId)
      (commitSend settings input recordId) := by
  unfold commitSend
  refine followsAfter quietFindById completesError (fun found => followsAfter quietLift completesError (fun _ =>
    followsAfter quietGet completesError (fun current => followsAfter quietLift completesError (fun revision => ?_))))
  refine followsAfter quietGet completesError (fun signers => followsAfter quietGet completesError (fun fields =>
    followsAfter quietEnsure completesError (fun _ => followsAfter quietGet completesError (fun now => ?_))))
  refine followsAfter quietLift completesError (fun expiresAt => followsAfter quietGet completesError (fun issued => ?_))
  refine followsChanged rfl (fun sent _ => followsAfter (quietNotify issued) completesError (fun _ => ?_))
  exact followsComplete (sendRestored input found sent revision signers fields issued)

theorem followsVoid (input : VoidDocumentInput) (recordId : Id) :
    (keyed settings).Follows (.voidDocument input) (Completes PublicDocument.stored) (.begun recordId)
      (commitVoid settings input recordId) := by
  unfold commitVoid
  refine followsAfter quietFindById completesError (fun found => followsAfter quietLift completesError (fun _ =>
    followsAfter quietGet completesError (fun now => followsChanged rfl (fun voided answers => ?_))))
  refine followsAfter quietGet completesError (fun revision => followsAfter quietGet completesError (fun signers =>
    followsAfter quietGet completesError (fun fields => ?_)))
  exact followsComplete (voidRestored input found (answers voided rfl) revision signers fields)

theorem followsRespond {q : OfficeRequest} {stored : α → Json} {respond : α → OfficeResponse}
    (kept : ∀ value, (respond value).stored = some (stored value)) {stage : Stage} {p : OfficeUseCase α}
    (follows : (keyed settings).Follows q (Completes stored) stage p) :
    (keyed settings).Follows q (Closes settings q) stage
      (p >>= fun value => pure (respond value) : OfficeUseCase OfficeResponse) := by
  refine followsThen (Conduct.followsMono (fun stage result completes => ?_) follows)
  cases result with
  | error error => exact closesError _
  | ok value =>
    intro response same
    cases same
    obtain ⟨recordId,rfl⟩ := completes value rfl
    exact kept value

theorem followsActs {q : OfficeRequest} (displayName : Utf16) (record : IdempotencyRecord) :
    (keyed settings).Follows q (Closes settings q) (.begun record.id) (actsOf settings displayName record q) := by
  cases q with
  | createDraftDocument input => exact followsRespond (fun _ => rfl) (followsDraft input _ _ _)
  | sendDocument input => exact followsRespond (fun _ => rfl) (followsSend input _)
  | voidDocument input => exact followsRespond (fun _ => rfl) (followsVoid input _)
  | rows organizationId documentId w => exact closesError _

theorem isRecordOf {q : OfficeRequest} {input : IdempotencyInput} (begins : inputOf q = .ok input)
    {record : IdempotencyRecord} : IsRecord settings q record ↔ record.unique = input.unique ∧ record.requestHash = input.requestHash settings := by
  constructor
  · rintro ⟨other,begins',unique,hash⟩
    rw [begins] at begins'
    cases begins'
    exact ⟨unique,hash⟩
  · exact fun ⟨unique,hash⟩ => ⟨input,begins,unique,hash⟩

theorem foundRecord {s : Office} {unique : RecordKey} {record : IdempotencyRecord}
    (found : s.findRecord unique = some record) :
    record ∈ s.records ∧ record.unique = unique := by
  have found : s.records.find? (fun record => record.unique = unique) = some record := found
  have hit := List.find?_some found
  exact ⟨List.mem_of_find?_eq_some found,of_decide_eq_true hit⟩

theorem followsWithRecord {q : OfficeRequest} {input : IdempotencyInput} (begins : inputOf q = .ok input)
    {acts : IdempotencyRecord → OfficeUseCase OfficeResponse}
    (follows : ∀ record, (keyed settings).Follows q (Closes settings q) (.begun record.id) (acts record)) :
    (keyed settings).Follows q (Closes settings q) .free (withRecord settings q input acts) := by
  refine followsAfter quietGet closesError (fun now => ?_)
  rw [replayOrBeginIdempotency,bindAssoc]
  refine followsThen (fun s i => ?_)
  cases found : s.findRecord input.unique with
  | none =>
    refine ⟨.free,.inl rfl,?_⟩
    show (keyed settings).Follows q (Closes settings q) .free _
    simp only [found,bindAssoc]
    refine followsAfter quietGet closesError (fun id => followsThen (followsPerform ⟨input,id,now,begins,rfl⟩ ?_))
    intro r _
    cases r with
    | error error => exact closesError _
    | ok answer => exact follows (newRecord settings input id now)
  | some record =>
    obtain ⟨among,unique⟩ := foundRecord found
    by_cases same : record.requestHash = input.requestHash settings
    · cases body : record.responseBody with
      | none =>
        refine ⟨.free,.inl rfl,?_⟩
        show (keyed settings).Follows q (Closes settings q) .free _
        simp only [found,same,body]
        exact closesError _
      | some body' =>
        refine ⟨.replaying body',.inr ⟨rfl,record,among,body',(isRecordOf begins).mpr ⟨unique,same⟩,body,rfl⟩,?_⟩
        show (keyed settings).Follows q (Closes settings q) (.replaying body') _
        simp only [found,same]
        cases status : record.responseStatus with
        | none =>
          simp only [body]
          exact closesError _
        | some status' =>
          simp only [body]
          intro response replayed
          rw [body] at replayed
          exact replayed
    · refine ⟨.free,.inl rfl,?_⟩
      show (keyed settings).Follows q (Closes settings q) .free _
      simp only [found,same]
      exact closesError _

theorem startRefused {q : OfficeRequest} {error : AppError} (refused : inputOf q = .error error) :
    (∃ organizationId documentId w, q = .rows organizationId documentId w) ∨ startOffice settings q = lift (.error error) := by
  cases q with
  | rows organizationId documentId w => exact .inl ⟨organizationId,documentId,w,rfl⟩
  | createDraftDocument input =>
    refine .inr ?_
    simp only [inputOf] at refused
    simp only [startOffice,createDraftDocument]
    cases keyed : requireIdempotencyKey input.idempotencyKey with
    | error e =>
      rw [keyed] at refused
      cases refused
      rfl
    | ok key =>
      cases named : sanitizeDisplayFilename input.filename with
      | error e =>
        rw [keyed,named] at refused
        cases refused
        rfl
      | ok displayName =>
        rw [keyed,named] at refused
        cases titled : decide (1 ≤ (JsText.trim input.title).length ∧ (JsText.trim input.title).length ≤ 200) with
        | true =>
          rw [titled] at refused
          cases refused
        | false =>
          rw [titled] at refused
          cases refused
          rfl
  | sendDocument input =>
    refine .inr ?_
    simp only [inputOf] at refused
    simp only [startOffice,sendDocument]
    cases keyed : requireIdempotencyKey input.idempotencyKey with
    | error e =>
      rw [keyed] at refused
      cases refused
      rfl
    | ok key =>
      rw [keyed] at refused
      cases refused
  | voidDocument input =>
    refine .inr ?_
    simp only [inputOf] at refused
    simp only [startOffice,voidDocument]
    cases keyed : requireIdempotencyKey input.idempotencyKey with
    | error e =>
      rw [keyed] at refused
      cases refused
      rfl
    | ok key =>
      rw [keyed] at refused
      cases refused

theorem followsStart (q : OfficeRequest) : (keyed settings).Follows q (Closes settings q) .free (startOffice settings q) := by
  cases begins : inputOf q with
  | ok input =>
    rw [startForm begins]
    exact followsWithRecord begins (fun record => followsActs (sourceName q) record)
  | error error =>
    have refused : _ ∨ startOffice settings q = _ := startRefused begins
    rcases refused with ⟨organizationId,documentId,w,rfl⟩ | same
    · refine followsThen (followsPerform trivial (fun r _ => ?_))
      cases r with
      | error error => exact closesError _
      | ok answer =>
        intro response same
        cases same
        rfl
    · rw [same]
      exact closesError _

end

end ESign.Keyed
