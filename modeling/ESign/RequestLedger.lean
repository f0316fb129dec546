import Mathlib.Data.List.Perm.Basic
import ESign.IdempotencyKeys

/-! What the requests with a key have come to: the records they made, the units of work they committed
and the bodies they kept. One invariant ties these marks to the stored records and to the stages of
all tasks, and every write of a request extends it by one mark. -/
namespace ESign.Keyed
open JsText StoreProgram

/-- What a write that returned has done for its key. -/
inductive Mark where
  | made (q : OfficeRequest) (record : IdempotencyRecord)
  | committed (q : OfficeRequest)
  | kept (q : OfficeRequest) (recordId : Id) (body : Json)

def OfficeWrite.mark (q : OfficeRequest) : OfficeWrite → Option Mark
  | .createRecord record => some (.made q record)
  | .completeRecord _ recordId _ body => some (.kept q recordId body)
  | .createDraft _ => some (.committed q)
  | .send _ _ _ => some (.committed q)
  | .void _ _ _ => some (.committed q)
  | .rows _ _ _ => none

abbrev OfficeWritten := Performed (OfficeRequest × OfficeWrite) Office Input

abbrev OfficeTask := Program Office (OfficeRequest × OfficeWrite) Input (Except AppError (Option Document))
  (OfficeRequest × Except AppError OfficeResponse)

abbrev OfficeConfig := Config Office (OfficeRequest × OfficeWrite) Input (Except AppError (Option Document))
  (OfficeRequest × Except AppError OfficeResponse)

def markOf (p : OfficeWritten) : Option Mark :=
  match (p.write.2.exec p.before p.input).2 with
  | .ok _ => p.write.2.mark p.write.1
  | .error _ => none

def marks (h : List OfficeWritten) : List Mark := h.filterMap markOf

def Mark.committedKey : Mark → Option RecordKey
  | .committed q => keyOf q
  | _ => none

/-- The keys that units of work were committed for, as often as they were. -/
def committedKeys (ms : List Mark) : List RecordKey := ms.filterMap Mark.committedKey

theorem committedKeyMem {ms : List Mark} {key : RecordKey} :
    key ∈ committedKeys ms ↔ ∃ q, .committed q ∈ ms ∧ keyOf q = some key := by
  refine List.mem_filterMap.trans ⟨?_,fun ⟨q,mem,key⟩ => ⟨_,mem,key⟩⟩
  rintro ⟨mark,mem,key⟩
  cases mark with
  | committed q => exact ⟨q,mem,key⟩
  | made q record => cases key
  | kept q recordId body => cases key

theorem committedKeysMark (ms : List Mark) (mark : Mark) :
    committedKeys (ms ++ [mark]) = committedKeys ms ++ mark.committedKey.toList := by
  rw [committedKeys,List.filterMap_append]
  cases key : mark.committedKey <;> simp [committedKeys,key]

def holds (account : OfficeRequest × Stage) : Option Id := account.2.recordId

section
variable (settings : OfficeSettings)

/-- A record of the request is stored, with this body. -/
def Held (records : List IdempotencyRecord) (q : OfficeRequest) (recordId : Id) (body : Option Json) : Prop :=
  ∃ row ∈ records, row.id = recordId ∧ IsRecord settings q row ∧ row.responseBody = body

def Backed (records : List IdempotencyRecord) (ms : List Mark) (q : OfficeRequest) : Stage → Prop
  | .free => True
  | .replaying body => ∃ recordId, Held settings records q recordId (some body)
  | .begun recordId => Held settings records q recordId none ∧ ∀ key, keyOf q = some key → key ∉ committedKeys ms
  | .acted recordId => Held settings records q recordId none ∧ .committed q ∈ ms
  | .completed recordId body => Held settings records q recordId (some body)

/-- A body that is stored was kept by the request whose unit of work was committed. -/
def Settled (ms : List Mark) (row : IdempotencyRecord) (body : Json) : Prop :=
  row.responseStatus.isSome ∧ ∃ q, IsRecord settings q row ∧ Restores settings q body ∧
    .committed q ∈ ms ∧ .kept q row.id body ∈ ms

/-- What a mark leaves in the stored records. -/
def Mark.Shown (records : List IdempotencyRecord) : Mark → Prop
  | .made q record => ∃ row ∈ records, row.id = record.id ∧ IsRecord settings q row
  | .committed q => ∃ row ∈ records, IsRecord settings q row
  | .kept _ recordId body => ∃ row ∈ records, row.id = recordId ∧ row.responseBody = some body

/-- The stored records, the marks and the stages of all tasks agree. -/
structure Accounted (records : List IdempotencyRecord) (ms : List Mark) (accounts : List (OfficeRequest × Stage)) :
    Prop where
  keys : (records.map IdempotencyRecord.unique).Nodup
  ids : (records.map IdempotencyRecord.id).Nodup
  held : (accounts.filterMap holds).Nodup
  backed : ∀ a ∈ accounts, Backed settings records ms a.1 a.2
  once : (committedKeys ms).Nodup
  shown : ∀ mark ∈ ms, mark.Shown settings records
  madeBy : ∀ row ∈ records, ∃ q record, .made q record ∈ ms ∧ record.id = row.id ∧ IsRecord settings q row
  settled : ∀ row ∈ records, ∀ body, row.responseBody = some body → Settled settings ms row body

end

section
variable {settings : OfficeSettings} {records records' : List IdempotencyRecord} {ms : List Mark} {q q' : OfficeRequest}
  {accounts others : List (OfficeRequest × Stage)} {recordId : Id} {body : Json}

theorem keyOfRecord {row : IdempotencyRecord} (own : IsRecord settings q row) : keyOf q = some row.unique := by
  obtain ⟨input,begins,unique,-⟩ := own
  rw [keyOf,begins,unique]
  rfl

theorem Held.grown {body : Option Json} {record : IdempotencyRecord} (held : Held settings records q recordId body) :
    Held settings (records ++ [record]) q recordId body := by
  obtain ⟨row,mem,rest⟩ := held
  exact ⟨row,List.mem_append_left _ mem,rest⟩

theorem Backed.holds {stage : Stage} (backed : Backed settings records ms q stage) (has : stage.recordId = some recordId) :
    ∃ row ∈ records, row.id = recordId ∧ IsRecord settings q row := by
  cases stage with
  | free => cases has
  | replaying body => cases has
  | begun id =>
    cases has
    obtain ⟨⟨row,mem,same,own,-⟩,-⟩ := backed
    exact ⟨row,mem,same,own⟩
  | acted id =>
    cases has
    obtain ⟨⟨row,mem,same,own,-⟩,-⟩ := backed
    exact ⟨row,mem,same,own⟩
  | completed id body =>
    cases has
    obtain ⟨row,mem,same,own,-⟩ := backed
    exact ⟨row,mem,same,own⟩

/- What a stage rests on is kept by a write that keeps the records and the keys of its request. -/
theorem Backed.moved {ms' : List Mark} {stage : Stage} (backed : Backed settings records ms q stage)
    (held : ∀ recordId body, stage.recordId = some recordId ∨ body ≠ none → Held settings records q recordId body →
      Held settings records' q recordId body)
    (committed : .committed q ∈ ms → .committed q ∈ ms')
    (keys : stage.recordId ≠ none → ∀ key, keyOf q = some key → key ∉ committedKeys ms → key ∉ committedKeys ms') :
    Backed settings records' ms' q stage := by
  cases stage with
  | free => exact trivial
  | replaying body =>
    obtain ⟨recordId,found⟩ := backed
    exact ⟨recordId,held recordId _ (.inr (Option.some_ne_none body)) found⟩
  | begun recordId =>
    refine ⟨held recordId none (.inl rfl) backed.1,fun key own => ?_⟩
    exact keys (Option.some_ne_none recordId) key own (backed.2 key own)
  | acted recordId => exact ⟨held recordId none (.inl rfl) backed.1,committed backed.2⟩
  | completed recordId body => exact held recordId _ (.inl rfl) backed

/- The records are carried over to others, with their ids, their owners and their bodies. -/
theorem Mark.Shown.carried {mark : Mark} (shown : mark.Shown settings records)
    (carried : ∀ row ∈ records, ∃ row' ∈ records', row'.id = row.id ∧ (∀ q, IsRecord settings q row → IsRecord settings q row') ∧
      ∀ body, row.responseBody = some body → row'.responseBody = some body) : mark.Shown settings records' := by
  cases mark with
  | made q record =>
    obtain ⟨row,stored,id,own⟩ := shown
    obtain ⟨row',stored',same,owned,-⟩ := carried row stored
    exact ⟨row',stored',same.trans id,owned q own⟩
  | committed q =>
    obtain ⟨row,stored,own⟩ := shown
    obtain ⟨row',stored',-,owned,-⟩ := carried row stored
    exact ⟨row',stored',owned q own⟩
  | kept q recordId body =>
    obtain ⟨row,stored,id,has⟩ := shown
    obtain ⟨row',stored',same,-,filled⟩ := carried row stored
    exact ⟨row',stored',same.trans id,filled body has⟩

theorem Settled.marked {row : IdempotencyRecord} {mark : Mark} (settled : Settled settings ms row body) :
    Settled settings (ms ++ [mark]) row body := by
  obtain ⟨status,q,own,restores,committed,kept⟩ := settled
  exact ⟨status,q,own,restores,List.mem_append_left _ committed,List.mem_append_left _ kept⟩

/-- What the completion of a record writes to it. -/
def withResponse (responseStatus : Nat) (responseBody : Json) (record : IdempotencyRecord) : IdempotencyRecord :=
  { record with responseStatus := some responseStatus, responseBody := some responseBody }

theorem isRecordId {organizationId : Id} {row : IdempotencyRecord}
    (hit : Office.isRecord organizationId recordId row = true) : row.id = recordId := by
  simp only [Office.isRecord,decide_eq_true_eq] at hit
  exact hit.1

namespace Accounted

theorem nothing : Accounted settings [] [] [] where
  keys := List.nodup_nil
  ids := List.nodup_nil
  held := List.nodup_nil
  backed _ mem := absurd mem List.not_mem_nil
  once := List.nodup_nil
  shown _ mem := absurd mem List.not_mem_nil
  madeBy _ mem := absurd mem List.not_mem_nil
  settled _ mem := absurd mem List.not_mem_nil

theorem stages (acc : Accounted settings records ms accounts)
    (held : (others.filterMap holds).Nodup)
    (backed : ∀ a ∈ others, Backed settings records ms a.1 a.2) : Accounted settings records ms others :=
  { acc with held := held, backed := backed }

theorem perm (acc : Accounted settings records ms accounts) (same : accounts.Perm others) :
    Accounted settings records ms others :=
  acc.stages ((same.filterMap _).nodup_iff.mp acc.held) (fun a mem => acc.backed a (same.mem_iff.mpr mem))

theorem sublist (acc : Accounted settings records ms accounts) (part : others.Sublist accounts) :
    Accounted settings records ms others :=
  acc.stages ((part.filterMap _).nodup acc.held) (fun a mem => acc.backed a (part.subset mem))

theorem opened (acc : Accounted settings records ms accounts) (q : OfficeRequest) :
    Accounted settings records ms (accounts ++ [(q,.free)]) := by
  refine acc.stages ?_ (fun a mem => ?_)
  · have nothing : holds (q,.free) = none := rfl
    rw [List.filterMap_append,List.filterMap_cons_none nothing,List.filterMap_nil,List.append_nil]
    exact acc.held
  · rcases List.mem_append.mp mem with old | new
    · exact acc.backed a old
    · rw [List.mem_singleton.mp new]
      exact trivial

theorem otherHolds {stage : Stage} (acc : Accounted settings records ms ((q,stage) :: others))
    (has : stage.recordId = some recordId) {a : OfficeRequest × Stage} (mem : a ∈ others) : holds a ≠ some recordId := by
  have held := acc.held
  rw [List.filterMap_cons_some (show holds (q,stage) = some recordId from has)] at held
  intro again
  exact (List.nodup_cons.mp held).1 (List.mem_filterMap.mpr ⟨a,mem,again⟩)

theorem sameId (acc : Accounted settings records ms accounts) {row row' : IdempotencyRecord} (mem : row ∈ records)
    (mem' : row' ∈ records) (same : row.id = row'.id) : row = row' :=
  List.inj_on_of_nodup_map acc.ids mem mem' same

theorem sameKey (acc : Accounted settings records ms accounts) {row row' : IdempotencyRecord} (mem : row ∈ records)
    (mem' : row' ∈ records) (same : row.unique = row'.unique) : row = row' :=
  List.inj_on_of_nodup_map acc.keys mem mem' same

theorem found (acc : Accounted settings records ms ((q,.free) :: others))
    (held : Held settings records q recordId (some body)) :
    Accounted settings records ms ((q,.replaying body) :: others) := by
  refine acc.stages acc.held (fun a mem => ?_)
  rcases List.mem_cons.mp mem with rfl | other
  · exact ⟨recordId,held⟩
  · exact acc.backed a (List.mem_cons_of_mem _ other)

theorem uncommitted (acc : Accounted settings records ms accounts) {key : RecordKey}
    (fresh : ∀ row ∈ records, row.unique ≠ key) : key ∉ committedKeys ms := by
  intro mem
  obtain ⟨q,committed,same⟩ := committedKeyMem.mp mem
  obtain ⟨row,stored,own⟩ := acc.shown _ committed
  rw [keyOfRecord own] at same
  exact fresh row stored (Option.some.inj same)

theorem made (acc : Accounted settings records ms ((q,.free) :: others)) {record : IdempotencyRecord}
    (own : IsRecord settings q record) (empty : record.responseBody = none)
    (fresh : ∀ row ∈ records, row.unique ≠ record.unique ∧ row.id ≠ record.id) :
    Accounted settings (records ++ [record]) (ms ++ [.made q record]) ((q,.begun record.id) :: others) := by
  have sameKeys : committedKeys (ms ++ [.made q record]) = committedKeys ms := by
    rw [committedKeysMark]
    exact List.append_nil _
  have last : record ∈ records ++ [record] := List.mem_append_right _ (List.mem_singleton_self record)
  have old : ∀ {mark}, mark ∈ ms → mark ∈ ms ++ [.made q record] := List.mem_append_left _
  refine ⟨keysAppended acc.keys (fun row mem => (fresh row mem).1),keysAppended acc.ids (fun row mem => (fresh row mem).2),
    ?_,?_,sameKeys ▸ acc.once,?_,?_,?_⟩
  · rw [List.filterMap_cons_some (show holds (q,.begun record.id) = some record.id from rfl)]
    refine List.nodup_cons.mpr ⟨?_,acc.held⟩
    intro again
    obtain ⟨a,mem,has⟩ := List.mem_filterMap.mp again
    obtain ⟨row,stored,same,-⟩ := (acc.backed a (List.mem_cons_of_mem _ mem)).holds has
    exact (fresh row stored).2 same
  · intro a mem
    rcases List.mem_cons.mp mem with rfl | other
    · refine ⟨⟨record,last,rfl,own,empty⟩,fun key same => ?_⟩
      rw [keyOfRecord own] at same
      rw [sameKeys,← Option.some.inj same]
      exact acc.uncommitted (fun row stored => (fresh row stored).1)
    · exact (acc.backed a (List.mem_cons_of_mem _ other)).moved (fun _ _ _ held => held.grown) old
        (fun _ key _ none => sameKeys ▸ none)
  · intro mark mem
    rcases List.mem_append.mp mem with before | new
    · exact (acc.shown mark before).carried
        (fun row stored => ⟨row,List.mem_append_left _ stored,rfl,fun _ own => own,fun _ has => has⟩)
    · rw [List.mem_singleton.mp new]
      exact ⟨record,last,rfl,own⟩
  · intro row stored
    rcases List.mem_append.mp stored with before | new
    · obtain ⟨q',record',made,rest⟩ := acc.madeBy row before
      exact ⟨q',record',old made,rest⟩
    · rw [List.mem_singleton.mp new]
      exact ⟨q,record,List.mem_append_right _ (List.mem_singleton_self _),rfl,own⟩
  · intro row stored body has
    rcases List.mem_append.mp stored with before | new
    · exact (acc.settled row before body has).marked
    · rw [List.mem_singleton.mp new,empty] at has
      cases has

theorem committed (acc : Accounted settings records ms ((q,.begun recordId) :: others)) :
    Accounted settings records (ms ++ [.committed q]) ((q,.acted recordId) :: others) := by
  obtain ⟨⟨row,stored,same,own,empty⟩,none⟩ := acc.backed _ List.mem_cons_self
  have key := keyOfRecord own
  have keys : committedKeys (ms ++ [.committed q]) = committedKeys ms ++ [row.unique] := by
    rw [committedKeysMark]
    exact congrArg (fun key => committedKeys ms ++ key.toList) key
  have old : ∀ {mark}, mark ∈ ms → mark ∈ ms ++ [.committed q] := List.mem_append_left _
  refine ⟨acc.keys,acc.ids,acc.held,?_,?_,?_,?_,?_⟩
  · intro a mem
    rcases List.mem_cons.mp mem with rfl | other
    · exact ⟨⟨row,stored,same,own,empty⟩,List.mem_append_right _ (List.mem_singleton_self _)⟩
    · have backed := acc.backed a (List.mem_cons_of_mem _ other)
      refine backed.moved (fun _ _ _ held => held) old (fun holding key' own' absent => ?_)
      rw [keys,List.mem_append,List.mem_singleton]
      rintro (before | rfl)
      · exact absent before
      · -- the other task has a record of this key, which is the same record
        obtain ⟨recordId',has⟩ := Option.ne_none_iff_exists'.mp holding
        obtain ⟨row',stored',same',ownRow⟩ := backed.holds has
        have one : row' = row := acc.sameKey stored' stored (Option.some.inj ((keyOfRecord ownRow).symm.trans own'))
        refine acc.otherHolds rfl other (has.trans (congrArg some ?_))
        rw [← same',one,same]
  · rw [keys]
    refine List.nodup_append.mpr ⟨acc.once,List.nodup_singleton _,?_⟩
    rintro key' mem _ last rfl
    rw [List.mem_singleton.mp last] at mem
    exact none _ key mem
  · intro mark mem
    rcases List.mem_append.mp mem with before | new
    · exact acc.shown mark before
    · rw [List.mem_singleton.mp new]
      exact ⟨row,stored,own⟩
  · intro row stored
    obtain ⟨q',record,made,rest⟩ := acc.madeBy row stored
    exact ⟨q',record,old made,rest⟩
  · exact fun row stored body has => (acc.settled row stored body has).marked

theorem kept (acc : Accounted settings records ms ((q,.acted recordId) :: others)) {organizationId : Id} {status : Nat}
    (found : records.any (Office.isRecord organizationId recordId) = true) (restores : Restores settings q body) :
    Accounted settings (updateMany (Office.isRecord organizationId recordId) (withResponse status body) records)
      (ms ++ [.kept q recordId body]) ((q,.completed recordId body) :: others) := by
  obtain ⟨⟨row,stored,same,own,empty⟩,committed⟩ := acc.backed _ List.mem_cons_self
  have hit : Office.isRecord organizationId recordId row = true := by
    obtain ⟨row',stored',hit⟩ := List.any_eq_true.mp found
    exact acc.sameId stored' stored ((isRecordId hit).trans same.symm) ▸ hit
  have updated : withResponse status body row ∈
      updateMany (Office.isRecord organizationId recordId) (withResponse status body) records := (updateManyOf stored).1 hit
  have kept : ∀ {row'}, row' ∈ records → row'.id ≠ recordId →
      row' ∈ updateMany (Office.isRecord organizationId recordId) (withResponse status body) records :=
    fun stored' other => (updateManyOf stored').2 (Bool.eq_false_iff.mpr (fun hit => other (isRecordId hit)))
  have sameKeys : committedKeys (ms ++ [.kept q recordId body]) = committedKeys ms := by
    rw [committedKeysMark]
    exact List.append_nil _
  have old : ∀ {mark}, mark ∈ ms → mark ∈ ms ++ [.kept q recordId body] := List.mem_append_left _
  have last : .kept q recordId body ∈ ms ++ [.kept q recordId body] := List.mem_append_right _ (List.mem_singleton_self _)
  refine ⟨?_,?_,acc.held,?_,sameKeys ▸ acc.once,?_,?_,?_⟩
  · rw [updateManyKeys]
    · exact acc.keys
    · exact fun _ => rfl
  · rw [updateManyKeys]
    · exact acc.ids
    · exact fun _ => rfl
  · intro a mem
    rcases List.mem_cons.mp mem with rfl | other
    · exact ⟨_,updated,same,own,rfl⟩
    · refine (acc.backed a (List.mem_cons_of_mem _ other)).moved (fun id body' which held => ?_) old
        (fun _ key _ absent => sameKeys ▸ absent)
      obtain ⟨row',stored',same',rest⟩ := held
      refine ⟨row',kept stored' (fun target => ?_),same',rest⟩
      rcases which with has | filled
      · exact acc.otherHolds rfl other (has.trans (congrArg some (same'.symm.trans target)))
      · rw [acc.sameId stored' stored (target.trans same.symm)] at rest
        exact filled (rest.2.symm.trans empty)
  · intro mark mem
    rcases List.mem_append.mp mem with before | new
    · refine (acc.shown mark before).carried (fun row' stored' => ?_)
      by_cases target : row'.id = recordId
      · rw [acc.sameId stored' stored (target.trans same.symm)]
        exact ⟨_,updated,rfl,fun _ own => own,fun _ has => by rw [empty] at has; cases has⟩
      · exact ⟨row',kept stored' target,rfl,fun _ own => own,fun _ has => has⟩
    · rw [List.mem_singleton.mp new]
      exact ⟨_,updated,same,rfl⟩
  · intro row'' mem
    obtain ⟨row',stored',rest⟩ := updateManyMem mem
    obtain ⟨q',record,made,id,own'⟩ := acc.madeBy row' stored'
    rcases rest with ⟨-,rfl⟩ | ⟨-,rfl⟩
    · exact ⟨q',record,old made,id,own'⟩
    · exact ⟨q',record,old made,id,own'⟩
  · intro row'' mem body' has
    obtain ⟨row',stored',⟨hit',rfl⟩ | ⟨-,rfl⟩⟩ := updateManyMem mem
    · cases acc.sameId stored' stored ((isRecordId hit').trans same.symm)
      cases has
      exact ⟨rfl,q,own,restores,old committed,same ▸ last⟩
    · exact (acc.settled row'' stored' body' has).marked

end Accounted

end

/-! The writes make these marks. -/

section
variable {w : OfficeWrite} {s s' : Office} {i : Input}

theorem mapOk {α β : Type} {x : Except AppError α} {f : α → β} {r : β} : f <$> x = .ok r ↔ ∃ a, x = .ok a ∧ f a = r := by
  cases x with
  | ok a =>
    refine ⟨fun same => ⟨a,rfl,Except.ok.inj same⟩,fun ⟨_,same,value⟩ => ?_⟩
    cases same
    exact congrArg Except.ok value
  | error error => exact ⟨fun same => (by cases same),fun ⟨_,same,_⟩ => (by cases same)⟩

theorem execFailed {error : AppError} (failed : (w.exec s i).2 = .error error) : (w.exec s i).1 = s := by
  unfold OfficeWrite.exec at failed ⊢
  cases none : i.failure with
  | some error => rfl
  | none =>
    simp only [none] at failed
    cases ran : w.run i s with
    | ok result =>
      rw [ran] at failed
      cases failed
    | error error => rfl

theorem execReturned {answer : Option Document} (returned : (w.exec s i).2 = .ok answer) :
    w.run i s = .ok (answer,(w.exec s i).1) := by
  unfold OfficeWrite.exec at returned ⊢
  cases none : i.failure with
  | some error =>
    rw [none] at returned
    cases returned
  | none =>
    simp only [none] at returned ⊢
    cases ran : w.run i s with
    | ok result =>
      rw [ran] at returned
      cases returned
      rfl
    | error error =>
      rw [ran] at returned
      cases returned

theorem createdRecord {record : IdempotencyRecord} {answer : Option Document}
    (ran : (OfficeWrite.createRecord record).run i s = .ok (answer,s')) :
    (∀ row ∈ s.records, row.unique ≠ record.unique ∧ row.id ≠ record.id) ∧ s'.records = s.records ++ [record] := by
  obtain ⟨_,created,same⟩ := mapOk.mp ran
  cases same
  obtain ⟨_,free,same⟩ := bindOk.mp created
  cases same
  have free := checkOk.mp free
  refine ⟨fun row mem => ?_,rfl⟩
  simpa using List.all_eq_true.mp free row mem

theorem completedRecord {organizationId recordId : Id} {status : Nat} {body : Json} {answer : Option Document}
    (ran : (OfficeWrite.completeRecord organizationId recordId status body).run i s = .ok (answer,s')) :
    s.records.any (Office.isRecord organizationId recordId) = true ∧
      s'.records = updateMany (Office.isRecord organizationId recordId) (withResponse status body) s.records := by
  obtain ⟨_,completed,same⟩ := mapOk.mp ran
  cases same
  obtain ⟨_,found,same⟩ := bindOk.mp completed
  cases same
  exact ⟨checkOk.mp found,rfl⟩

theorem changeRecords {organizationId : Id} {documentId : Utf16} {unit : Envelope → Except AppError Envelope}
    {answer : Option Document} (changed : s.change organizationId documentId unit = .ok (answer,s')) :
    s'.records = s.records := by
  simp only [Office.change] at changed
  split at changed
  · cases changed
  · obtain ⟨_,_,same⟩ := bindOk.mp changed
    cases same
    rfl

theorem recordsKept {answer : Option Document} (ran : w.run i s = .ok (answer,s'))
    (documents : w.isUnit = true ∨ ∃ organizationId documentId rows, w = .rows organizationId documentId rows) :
    s'.records = s.records := by
  cases w with
  | createRecord record => rcases documents with unit | ⟨_,_,_,same⟩ <;> contradiction
  | completeRecord organizationId recordId status body => rcases documents with unit | ⟨_,_,_,same⟩ <;> contradiction
  | createDraft document =>
    obtain ⟨_,created,same⟩ := mapOk.mp ran
    cases same
    obtain ⟨_,_,same⟩ := bindOk.mp created
    cases same
    rfl
  | send organizationId documentId u => exact changeRecords ran
  | void organizationId documentId u => exact changeRecords ran
  | rows organizationId documentId rows => exact changeRecords ran

theorem unitMark {q : OfficeRequest} (unit : w.isUnit = true) : w.mark q = some (.committed q) := by
  cases w with
  | createDraft document => rfl
  | send organizationId documentId u => rfl
  | void organizationId documentId u => rfl
  | createRecord record => cases unit
  | completeRecord organizationId recordId status body => cases unit
  | rows organizationId documentId rows => cases unit

theorem execAnswers : Answers w (w.exec s i).2 := by
  cases w with
  | void organizationId documentId u =>
    cases returned : ((OfficeWrite.void organizationId documentId u).exec s i).2 with
    | error error => exact trivial
    | ok answer =>
      intro document same
      have changed : s.change organizationId documentId u.run = _ := execReturned returned
      simp only [Office.change] at changed
      split at changed
      · cases changed
      · obtain ⟨e,ran,stored⟩ := bindOk.mp changed
        cases same
        cases congrArg (fun r => r.toOption.bind Prod.fst) stored
        rw [(voidEffect ran).document]
  | createRecord record => exact trivial
  | completeRecord organizationId recordId status body => exact trivial
  | createDraft document => exact trivial
  | send organizationId documentId u => exact trivial
  | rows organizationId documentId rows => exact trivial

end

theorem marksAppend (h : List OfficeWritten) (p : OfficeWritten) : marks (h ++ [p]) = marks h ++ (markOf p).toList := by
  rw [marks,List.filterMap_append]
  cases mark : markOf p <;> simp [marks,mark]

theorem marksFailed {h : List OfficeWritten} {q : OfficeRequest} {w : OfficeWrite} {s : Office} {i : Input}
    {error : AppError} (failed : (w.exec s i).2 = .error error) : marks (h ++ [⟨(q,w),s,i⟩]) = marks h := by
  have mark : markOf ⟨(q,w),s,i⟩ = none := by
    simp only [markOf,failed]
  rw [marksAppend,mark]
  exact List.append_nil _

theorem marksReturned {h : List OfficeWritten} {q : OfficeRequest} {w : OfficeWrite} {s : Office} {i : Input}
    {answer : Option Document} (returned : (w.exec s i).2 = .ok answer) :
    marks (h ++ [⟨(q,w),s,i⟩]) = marks h ++ (w.mark q).toList := by
  have mark : markOf ⟨(q,w),s,i⟩ = w.mark q := by
    simp only [markOf,returned]
  rw [marksAppend,mark]

theorem afterError {stage : Stage} {w : OfficeWrite} {error : AppError} : after stage w (.error error) = stage := by
  cases stage <;> cases w <;> rfl

theorem accountsAt {accounts : List (OfficeRequest × Stage)} {n : Nat} {a : OfficeRequest × Stage}
    (found : accounts[n]? = some a) :
    accounts.Perm (a :: accounts.eraseIdx n) ∧ ∀ b, (accounts.set n b).Perm (b :: accounts.eraseIdx n) := by
  obtain ⟨inside,rfl⟩ := List.getElem?_eq_some_iff.mp found
  exact ⟨(List.getElem_cons_eraseIdx_perm inside).symm,List.set_perm_cons_eraseIdx inside⟩

theorem accountedWrite {settings : OfficeSettings} {s : Office} {ms : List Mark} {q : OfficeRequest} {stage : Stage}
    {others : List (OfficeRequest × Stage)} {w : OfficeWrite} {i : Input} {answer : Option Document}
    (acc : Accounted settings s.records ms ((q,stage) :: others)) (allowed : Allows settings q stage w)
    (returned : (w.exec s i).2 = .ok answer) :
    Accounted settings (w.exec s i).1.records (ms ++ (w.mark q).toList) ((q,after stage w (.ok answer)) :: others) := by
  have ran : w.run i s = _ := execReturned returned
  cases stage with
  | free =>
    cases w with
    | createRecord record =>
      obtain ⟨input,id,now,begins,rfl⟩ := allowed
      obtain ⟨fresh,records⟩ := createdRecord ran
      rw [records]
      exact acc.made ((isRecordOf begins).mpr ⟨rfl,rfl⟩) rfl fresh
    | rows organizationId documentId rows =>
      rw [recordsKept ran (.inr ⟨_,_,_,rfl⟩)]
      exact (List.append_nil ms).symm ▸ acc
    | completeRecord organizationId recordId status body => exact allowed.elim
    | createDraft document => exact allowed.elim
    | send organizationId documentId u => exact allowed.elim
    | void organizationId documentId u => exact allowed.elim
  | begun recordId =>
    rw [recordsKept ran (.inl allowed),unitMark allowed]
    exact acc.committed
  | acted recordId =>
    cases w with
    | completeRecord organizationId recordId' status body =>
      obtain ⟨rfl,restores⟩ := allowed
      obtain ⟨found,records⟩ := completedRecord ran
      rw [records]
      exact acc.kept found restores
    | createRecord record => exact allowed.elim
    | rows organizationId documentId rows => exact allowed.elim
    | createDraft document => exact allowed.elim
    | send organizationId documentId u => exact allowed.elim
    | void organizationId documentId u => exact allowed.elim
  | replaying body => cases w <;> exact allowed.elim
  | completed recordId body => cases w <;> exact allowed.elim

theorem accountedExec {settings : OfficeSettings} {s : Office} {h : List OfficeWritten} {q : OfficeRequest} {stage : Stage}
    {others : List (OfficeRequest × Stage)} {w : OfficeWrite} {i : Input}
    (acc : Accounted settings s.records (marks h) ((q,stage) :: others)) (allowed : Allows settings q stage w) :
    Accounted settings (w.exec s i).1.records (marks (h ++ [⟨(q,w),s,i⟩])) ((q,after stage w (w.exec s i).2) :: others) := by
  cases outcome : (w.exec s i).2 with
  | error error =>
    rw [execFailed outcome,marksFailed outcome,afterError]
    exact acc
  | ok answer =>
    rw [marksReturned outcome]
    exact accountedWrite acc allowed outcome

def ledger (settings : OfficeSettings) : Custody (keyed settings) OfficeWrite.exec where
  Inv s h accounts := Accounted settings s.records (marks h) accounts
  opened q inv := inv.opened q
  learned inv found learns := by
    obtain ⟨taken,put⟩ := accountsAt found
    rcases learns with rfl | ⟨rfl,record,stored,body,own,has,rfl⟩
    · exact (inv.perm taken).perm (put _).symm
    · exact ((inv.perm taken).found ⟨record,stored,rfl,own,has⟩).perm (put _).symm
  wrote i inv found allowed := by
    obtain ⟨taken,put⟩ := accountsAt found
    exact (accountedExec (inv.perm taken) allowed).perm (put _).symm
  dropped n inv := inv.sublist (List.eraseIdx_sublist _ n)
  answered w s i := execAnswers

theorem accountedRun {settings : OfficeSettings} {documents : List StoredDocument} {h : List OfficeWritten}
    {c : OfficeConfig}
    (run : Traced (office settings) (initial ⟨documents,[]⟩) h c) :
    ∃ entries : List (Entry (keyed settings) Input (Except AppError OfficeResponse)),
      Kept (ledger settings) (Closes settings) c h entries :=
  keptRun followsStart Accounted.nothing run

end ESign.Keyed
