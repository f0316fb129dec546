import ESign.OncePerKey

/-! What a retry under an idempotency key meets once everything else has ended. It is answered
from the record that a request has completed, or makes the record itself; a record that was made
and never completed stops it, at any later time. -/
namespace ESign.Keyed
open JsText StoreProgram StoreProgram.Answering

section
variable (settings : OfficeSettings)

def retry (q : OfficeRequest) (s : Office) (inputs : List Input) :
    Option (List (Performed OfficeWrite Office Input) × Except AppError OfficeResponse × Office) :=
  (startOffice settings q).solo OfficeWrite.exec s inputs

/-- The retry writes nothing, and returns what the committed request has kept. -/
def Replays (ms : List Mark) (s : Office) (q q' : OfficeRequest) : Prop :=
  ∃ response recordId body, response.stored = some body ∧ .kept q' recordId body ∈ ms ∧
    ∀ i i' rest, retry settings q s (i :: i' :: rest) = some ([],.ok response,s)

/-- The retry makes the record and goes on from there, or is refused before it looks for a record. -/
def Afresh (s : Office) (q : OfficeRequest) : Prop :=
  match inputOf q with
  | .error error => ∀ inputs, retry settings q s inputs = some ([],.error error,s)
  | .ok input => ∀ i i' i'' rest, retry settings q s (i :: i' :: i'' :: rest) =
      (do let _ ← perform (.createRecord (newRecord settings input (i''.ids 0) i.now))
          actsOf settings (sourceName q) (newRecord settings input (i''.ids 0) i.now) q :
        OfficeUseCase OfficeResponse).solo OfficeWrite.exec s rest

/-- A retry returns the result of the committed request, or is executed when there is none. -/
def Retried (ms : List Mark) (s : Office) (q : OfficeRequest) : Prop :=
  (∀ q', .committed q' ∈ ms → keyOf q' = keyOf q → Replays settings ms s q q') ∧
  ((∀ q', .committed q' ∈ ms → keyOf q' ≠ keyOf q) → Afresh settings s q)

/-- A request can be retried once all the others have ended. -/
def NeverStuck : Prop :=
  ∀ documents h c, Traced (office settings) (initial ⟨documents,[]⟩) h c → (∀ t ∈ c.tasks, ∃ result, t = .done result) →
    ∀ q, (∀ organizationId documentId w, q ≠ .rows organizationId documentId w) →
      (∀ q' record, .made q' record ∈ marks h → keyOf q' = keyOf q → inputOf q' = inputOf q) →
      Retried settings (marks h) c.store q

/-- Every record made under the key of the request was completed, with a body that a replay takes. -/
def Finished (ms : List Mark) (q : OfficeRequest) : Prop :=
  ∀ q' record, .made q' record ∈ ms → keyOf q' = keyOf q →
    ∃ q'' body, .kept q'' record.id body ∈ ms ∧ accepted settings q body = true

end

def idempotencyInProgress : AppError := .conflict [("reason","idempotency_in_progress")]

section
variable {settings : OfficeSettings} {q : OfficeRequest} {input : IdempotencyInput} {s : Office}

theorem retryNone (begins : inputOf q = .ok input) (missing : s.findRecord input.unique = none) : Afresh settings s q := by
  rw [Afresh,begins]
  intro i i' i'' rest
  rw [retry,startForm begins,withRecord,clock,soloGet,replayOrBeginIdempotency,bindAssoc,soloGet]
  simp only [missing]
  rw [bindAssoc,soloGet]
  simp only [bindAssoc]
  rfl

theorem retryFound (begins : inputOf q = .ok input) {record : IdempotencyRecord}
    (found : s.findRecord input.unique = some record) (own : record.requestHash = input.requestHash settings) (i i' : Input) (rest : List Input) :
    retry settings q s (i :: i' :: rest) = some ([],
      if record.responseBody.isSome && record.responseStatus.isSome then replayOf settings q record.responseBody
      else .error idempotencyInProgress,s) := by
  rw [retry,startForm begins,withRecord,clock,soloGet,replayOrBeginIdempotency,bindAssoc,soloGet]
  simp only [found,own]
  cases record.responseBody.isSome && record.responseStatus.isSome
  · rfl
  · rfl

theorem retryRefused (keyed : ∀ organizationId documentId w, q ≠ .rows organizationId documentId w) {error : AppError}
    (refused : inputOf q = .error error) : Afresh settings s q := by
  rw [Afresh,refused]
  intro inputs
  have ends : startOffice settings q = Answering.lift (.error error) := by
    rcases startRefused refused with ⟨organizationId,documentId,w,same⟩ | ends
    · exact absurd same (keyed organizationId documentId w)
    · exact ends
  rw [retry,ends]
  rfl

end

section
variable {settings : OfficeSettings} {records : List IdempotencyRecord} {ms : List Mark}
  {accounts : List (OfficeRequest × Stage)} {q q' : OfficeRequest} {row : IdempotencyRecord} {body : Json}

theorem Accounted.committer (acc : Accounted settings records ms accounts) (committed : .committed q ∈ ms)
    (committed' : .committed q' ∈ ms) (same : keyOf q = keyOf q') : q = q' := by
  obtain ⟨row,-,own⟩ := acc.shown _ committed
  have key := keyOfRecord own
  have apart := List.pairwise_filterMap.mp acc.once
  have symmetric : Std.Symm (fun mark mark' : Mark =>
      ∀ key, mark.committedKey = some key → ∀ key', mark'.committedKey = some key' → key ≠ key') := ⟨fun _ _ apart key at' key' at'' same => apart key' at'' key at' same.symm⟩
  by_contra other
  exact apart.forall committed committed' (fun same => other (Mark.committed.inj same)) row.unique key row.unique
    (same.symm.trans key) rfl

theorem Accounted.recordAt (acc : Accounted settings records ms accounts) (stored : row ∈ records)
    (documents : List StoredDocument) : Office.findRecord row.unique ⟨documents,records⟩ = some row := by
  cases found : Office.findRecord row.unique ⟨documents,records⟩ with
  | none =>
    have none := List.find?_eq_none.mp found row stored
    exact absurd (decide_eq_true rfl) none
  | some row' =>
    obtain ⟨stored',same⟩ := foundRecord found
    rw [acc.sameKey stored' stored same]

theorem ownRecord (identical : ∀ q' record, .made q' record ∈ ms → keyOf q' = keyOf q → inputOf q' = inputOf q)
    (acc : Accounted settings records ms accounts) (stored : row ∈ records) (same : keyOf q = some row.unique) :
    IsRecord settings q row ∧ ∃ q' record, .made q' record ∈ ms ∧ keyOf q' = keyOf q ∧ record.id = row.id := by
  obtain ⟨q',record,made,id,own⟩ := acc.madeBy row stored
  have key := (keyOfRecord own).trans same.symm
  obtain ⟨input,begins,rest⟩ := own
  exact ⟨⟨input,(identical q' record made key).symm.trans begins,rest⟩,q',record,made,key,id⟩

theorem settledReplay (settled : Settled settings ms row body) (own : IsRecord settings q row) :
    ∃ q' response, .committed q' ∈ ms ∧ .kept q' row.id body ∈ ms ∧ keyOf q' = keyOf q ∧ response.stored = some body ∧
      replayOf settings q (some body) = if accepted settings q body then .ok response else .error missingBody := by
  obtain ⟨-,q',own',⟨response,answer,replayed⟩,committed,keeps⟩ := settled
  have key := (keyOfRecord own').trans (keyOfRecord own).symm
  obtain ⟨input,begins,unique,-⟩ := own
  obtain ⟨input',begins',unique',-⟩ := own'
  obtain ⟨replays,accepts⟩ := (sameRoute begins begins' (congrArg RecordKey.route (unique.symm.trans unique'))).replays body
  refine ⟨q',response,committed,keeps,key,answer,?_⟩
  rw [replays,accepts,replayed]

end

section
variable {settings : OfficeSettings} {documents : List StoredDocument} {h : List OfficeWritten}
  {c : OfficeConfig}
  {q : OfficeRequest}

theorem finishedRetried {records : List IdempotencyRecord} {ms : List Mark} {accounts : List (OfficeRequest × Stage)}
    (acc : Accounted settings records ms accounts)
    (keyed : ∀ organizationId documentId w, q ≠ .rows organizationId documentId w)
    (identical : ∀ q' record, .made q' record ∈ ms → keyOf q' = keyOf q → inputOf q' = inputOf q)
    (finished : Finished settings ms q) : Retried settings ms ⟨documents,records⟩ q := by
  have answered : ∀ row ∈ records, keyOf q = some row.unique →
      ∃ q' response body, .committed q' ∈ ms ∧ .kept q' row.id body ∈ ms ∧ keyOf q' = keyOf q ∧ response.stored = some body ∧
      ∀ i i' rest, retry settings q ⟨documents,records⟩ (i :: i' :: rest) = some ([],.ok response,⟨documents,records⟩) := by
    intro row stored same
    obtain ⟨own,q₀,record,made,key,id⟩ := ownRecord identical acc stored same
    obtain ⟨q₁,body,keeps,takes⟩ := finished q₀ record made key
    obtain ⟨row',stored',id',has⟩ := acc.shown _ keeps
    cases acc.sameId stored' stored (id'.trans id)
    have settled := acc.settled row stored body has
    obtain ⟨q',response,committed,keeps',key',answer,replayed⟩ := settledReplay settled own
    refine ⟨q',response,body,committed,keeps',key',answer,fun i i' rest => ?_⟩
    obtain ⟨input,begins,unique,hash⟩ := own
    rw [retryFound begins (unique ▸ acc.recordAt stored documents) hash,has,settled.1,replayed,takes]
    rfl
  refine ⟨fun q' committed same => ?_,fun uncommitted => ?_⟩
  · obtain ⟨row,stored,own⟩ := acc.shown _ committed
    obtain ⟨q₁,response,body,committed',keeps,key,answer,runs⟩ := answered row stored (same.symm.trans (keyOfRecord own))
    cases acc.committer committed' committed (key.trans same.symm)
    exact ⟨response,row.id,body,answer,keeps,runs⟩
  · cases begins : inputOf q with
    | error error => exact retryRefused keyed begins
    | ok input =>
      cases found : Office.findRecord input.unique ⟨documents,records⟩ with
      | none => exact retryNone begins found
      | some row =>
        obtain ⟨stored,unique⟩ := foundRecord found
        have key : keyOf q = some row.unique := by
          rw [keyOf,begins,unique]
          rfl
        obtain ⟨q',-,-,committed,-,same,-⟩ := answered row stored key
        exact absurd same (uncommitted q' committed)

theorem retriedFinished {records : List IdempotencyRecord} {ms : List Mark} {accounts : List (OfficeRequest × Stage)}
    (acc : Accounted settings records ms accounts)
    (identical : ∀ q' record, .made q' record ∈ ms → keyOf q' = keyOf q → inputOf q' = inputOf q) (i : Input)
    (retried : Retried settings ms ⟨documents,records⟩ q) : Finished settings ms q := by
  intro q₀ record made key
  obtain ⟨row,stored,id,own⟩ := acc.shown _ made
  have own : IsRecord settings q row := by
    obtain ⟨input,begins,rest⟩ := own
    exact ⟨input,(identical q₀ record made key).symm.trans begins,rest⟩
  have ⟨input,begins,unique,hash⟩ := own
  have ran := retryFound begins (unique ▸ acc.recordAt stored documents) hash i i
  cases has : row.responseBody with
  | none =>
    rw [has] at ran
    by_cases any : ∃ q', .committed q' ∈ ms ∧ keyOf q' = keyOf q
    · obtain ⟨q',committed,same⟩ := any
      obtain ⟨response,_,_,_,_,replays⟩ := retried.1 q' committed same
      cases (ran []).symm.trans (replays i i [])
    · have afresh := retried.2 (fun q' committed same => any ⟨q',committed,same⟩)
      rw [Afresh,begins] at afresh
      cases (ran [i]).symm.trans (afresh i i i [])
  | some body =>
    have settled := acc.settled row stored body has
    obtain ⟨q',response,committed,keeps,same,answer,replayed⟩ := settledReplay settled own
    obtain ⟨response',_,_,_,_,replays⟩ := retried.1 q' committed same
    refine ⟨q',body,id ▸ keeps,?_⟩
    rw [has,settled.1,replayed] at ran
    cases takes : accepted settings q body with
    | true => rfl
    | false =>
      rw [takes] at ran
      cases (ran []).symm.trans (replays i i [])

/- Once everything else has ended, or at any other moment: a retry of a request is answered with what was committed,
or executed, exactly when every record that was made under its key was completed. -/
theorem retriedIff (run : Traced (office settings) (initial ⟨documents,[]⟩) h c)
    (keyed : ∀ organizationId documentId w, q ≠ .rows organizationId documentId w)
    (identical : ∀ q' record, .made q' record ∈ marks h → keyOf q' = keyOf q → inputOf q' = inputOf q) :
    Retried settings (marks h) c.store q ↔ Finished settings (marks h) q := by
  obtain ⟨entries,kept⟩ := accountedRun run
  exact ⟨retriedFinished kept.inv identical (SmallOffice.input 0),finishedRetried kept.inv keyed identical⟩

end

namespace SmallOffice

/-- A draft that has no revision yet is not ready to be sent. -/
def unprepared : StoredDocument :=
  ⟨1,settings.columns.idText 9,utf16 "Lease",none,ESign.createDraftDocument ⟨5,6,1000,2,0⟩⟩

def sending : SendDocumentInput := ⟨1,2,settings.columns.idText 9,none,some (utf16 "key-00000001")⟩

def sendingInput : IdempotencyInput :=
  ⟨⟨1,2,sendDocumentRoute,utf16 "key-00000001"⟩,sendRequest sending.documentId none⟩

def record : IdempotencyRecord := newRecord settings sendingInput 100 1

theorem sendingBegins : inputOf (.sendDocument sending) = .ok sendingInput := rfl

set_option maxRecDepth 100000 in
theorem refusedRun : ∃ h c, Traced (office settings) (initial ⟨[unprepared],[]⟩) h c ∧
    marks h = [.made (.sendDocument sending) record] ∧ c.store = ⟨[unprepared],[record]⟩ ∧
    ∀ t ∈ c.tasks, ∃ result, t = .done result := by
  have ran : (office settings).trace (initial ⟨[unprepared],[]⟩)
    (.spawn (.sendDocument sending) :: turns 0 1 5) = some (_,_) := rfl
  refine ⟨_,_,traced ran,rfl,rfl,?_⟩
  intro t mem
  rw [List.mem_singleton.mp mem]
  exact ⟨_,rfl⟩

theorem sendingKeyed (organizationId : Id) (documentId : Utf16) (w : Write) :
    OfficeRequest.sendDocument sending ≠ .rows organizationId documentId w := by
  intro same
  cases same

theorem refusedForGood (i i' : Input) (rest : List Input) :
    retry settings (.sendDocument sending) ⟨[unprepared],[record]⟩ (i :: i' :: rest) =
      some ([],.error idempotencyInProgress,⟨[unprepared],[record]⟩) := by
  have found : Office.findRecord sendingInput.unique ⟨[unprepared],[record]⟩ = some record :=
    List.find?_cons_of_pos (decide_eq_true rfl)
  rw [retryFound sendingBegins found rfl]
  rfl

theorem unpreparedStuck : ¬ NeverStuck settings := by
  intro claimed
  obtain ⟨h,c,run,made,store,ended⟩ := refusedRun
  have retried := claimed _ h c run ended (.sendDocument sending) sendingKeyed (fun q' record mem _ => by
    rw [made,List.mem_singleton] at mem
    cases mem
    rfl)
  have afresh := retried.2 (fun q' committed _ => by
    rw [made,List.mem_singleton] at committed
    cases committed)
  rw [store,Afresh,sendingBegins] at afresh
  cases (refusedForGood (input 2) (input 2) [input 2]).symm.trans (afresh (input 2) (input 2) (input 2) [])

def drafting : OfficeRequest := .createDraftDocument (draft "Lease")

set_option maxRecDepth 100000 in
theorem answeredRun : ∃ h c, Traced (office settings) (initial ⟨[],[]⟩) h c ∧ ∃ record body,
    marks h = [.made drafting record,.committed drafting,.kept drafting record.id body] ∧
      accepted settings drafting body = true := by
  have ran : (office settings).trace (initial ⟨[],[]⟩) (.spawn drafting :: turns 0 1 9) = some (_,_) := rfl
  exact ⟨_,_,traced ran,_,_,rfl,by decide +kernel⟩

theorem draftingKeyed (organizationId : Id) (documentId : Utf16) (w : Write) : drafting ≠ .rows organizationId documentId w := by
  intro same
  cases same

theorem sendingJudged : (∃ h c, Traced (office settings) (initial ⟨[unprepared],[]⟩) h c ∧
    (Retried settings (marks h) c.store (.sendDocument sending) ↔ Finished settings (marks h) (.sendDocument sending)) ∧
    ¬ Finished settings (marks h) (.sendDocument sending)) ∧
    ∃ h c, Traced (office settings) (initial ⟨[],[]⟩) h c ∧
      (Retried settings (marks h) c.store drafting ↔ Finished settings (marks h) drafting) ∧
      Replays settings (marks h) c.store drafting drafting := by
  constructor
  · obtain ⟨h,c,run,made,-⟩ := refusedRun
    refine ⟨h,c,run,retriedIff run sendingKeyed (fun q' record mem _ => ?_),fun finished => ?_⟩
    · rw [made,List.mem_singleton] at mem
      cases mem
      rfl
    · obtain ⟨q,body,keeps,-⟩ := finished (.sendDocument sending) record (made ▸ List.mem_cons_self) rfl
      rw [made,List.mem_singleton] at keeps
      cases keeps
  · obtain ⟨h,c,run,record,body,made,taken⟩ := answeredRun
    have iff := retriedIff run draftingKeyed (fun q' record' mem _ => by
      rw [made] at mem
      simp only [List.mem_cons,List.not_mem_nil,Mark.made.injEq,reduceCtorEq,or_false] at mem
      rw [mem.1])
    have finished : Finished settings (marks h) drafting := by
      intro q' record' mem _
      rw [made] at mem ⊢
      simp only [List.mem_cons,List.not_mem_nil,Mark.made.injEq,reduceCtorEq,or_false] at mem
      exact ⟨drafting,body,by simp [mem.2],taken⟩
    exact ⟨h,c,run,iff,(iff.mpr finished).1 drafting (by rw [made]; simp) rfl⟩

end SmallOffice

end ESign.Keyed
