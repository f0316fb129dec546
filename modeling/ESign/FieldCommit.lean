import ESign.AuditPayload
import ESign.FieldStorage
import ESign.RosterReplacement

/-! Replacing the fields of a document, as the database commits it: the rows are rounded
and checked when they are stored, and the payload of the event passes the audit policy
in the same transaction. -/
namespace ESign
open StoreProgram StoreProgram.Fallible JsText

/-- A field as its row holds it, or the refusal of a CHECK. -/
def storedField (field : SignatureField) : Except AppError SignatureField := do
  let box ← (storedBox field.box).elim (.error databaseError) .ok
  check (1 ≤ box.pageNumber && normalizedBox box) databaseError
  pure {field with box}

/-- The unit of work on the rows that the table returned. -/
def ReplaceFieldsUnit.commit (u : ReplaceFieldsUnit) (e : Envelope) : Except AppError Envelope := do
  let fields ← u.fields.mapM storedField
  ReplaceFieldsUnit.run {u with fields} e

abbrev Uuid := {text : Utf16 // text.length = 36}

/-- `{ fieldIds }`, under the names that the ids have. -/
def fieldsUpdatedPayload (uuid : Id → Uuid) (fieldIds : List Id) : List (Utf16 × JsValue) :=
  [(utf16 "fieldIds",.array (fieldIds.map fun id => .string (uuid id).1))]

theorem fieldIdsApproved {uuid : Id → Uuid} {fieldIds : List Id} :
    assertApprovedAuditPayload (fieldsUpdatedPayload uuid fieldIds) 0 = .ok () ↔ fieldIds.length ≤ maxKeys := by
  have key : isForbiddenKey (utf16 "fieldIds") = false := by decide +kernel
  have depth : ∀ n, n ≤ 2 → n ≤ maxDepth := fun n small => small.trans (by decide)
  have texts : ∀ item ∈ fieldIds.map (fun id => JsValue.string (uuid id).1), assertApprovedValue item 2 = .ok () := by
    intro item mem
    obtain ⟨id,-,rfl⟩ := List.mem_map.mp mem
    simp only [assertApprovedValue,thenOk,checkOk,decide_eq_true_eq,(uuid id).2]
    exact ⟨depth 2 (le_refl 2),by decide⟩
  simp only [assertApprovedAuditPayload,checkObject,thenOk,checkOk,decide_eq_true_eq,fieldsUpdatedPayload,approvedMembers,
    List.forall_mem_singleton,approvedArray,key,List.length_map]
  constructor
  · rintro ⟨-,-,approved⟩
    exact (approved (by simp)).2.1
  · intro few
    have width : [(utf16 "fieldIds",JsValue.array (fieldIds.map fun id => .string (uuid id).1))].length ≤ maxKeys := by
      rw [List.length_singleton]
      decide
    exact ⟨⟨depth 0 (by decide),decide_eq_true width⟩,trivial,fun _ => ⟨depth 1 (by decide),few,texts⟩⟩

theorem fieldsAppended {u : ReplaceFieldsUnit} {e : Envelope} :
    (∃ e', Audit.append ⟨.fieldsUpdated,.accountUser,some u.userId,u.now,
        [("fieldIds",.ids (u.fields.map SignatureField.id))]⟩ e = .ok e') ↔ u.fields.length ≤ maxKeys := by
  unfold Audit.append
  by_cases few : u.fields.length ≤ maxKeys
  · exact iff_of_true ⟨_,by simp [PayloadValue.approved,check,few]; rfl⟩ few
  · exact iff_of_false (by simp [PayloadValue.approved,check,few]) few

theorem storedFieldIff {field : SignatureField} {pageCount : Nat}
    (onPage : assertFieldOnPage field.box pageCount = .ok ()) {row : SignatureField} :
    storedField field = .ok row ↔ field.box.Survives ∧ row = {field with box := field.box.rounded} := by
  have page : decide (1 ≤ field.box.rounded.pageNumber) = true := decide_eq_true (onPageIff.mp onPage).1.1
  have survives := roundedNormalized onPage
  rw [storedField,storedRounded onPage,Option.elim_some,← survives]
  show (check _ _ >>= fun _ => pure _) = Except.ok row ↔ _
  rw [thenOk,checkOk,page,Bool.true_and]
  exact and_congr_right fun _ => ⟨fun same => (Except.ok.inj same).symm,fun same => congrArg Except.ok same.symm⟩

theorem mapMOk {α β : Type} {f : α → Except AppError β} {g : α → β} {xs : List α} (each : ∀ x ∈ xs, f x = .ok (g x)) :
    xs.mapM f = .ok (xs.map g) := by
  induction xs with
  | nil => rfl
  | cons x rest ih =>
    rw [List.mapM_cons,each x List.mem_cons_self,ih fun x mem => each x (List.mem_cons_of_mem _ mem)]
    rfl

theorem mapMEach {α β : Type} {f : α → Except AppError β} {xs : List α} {ys : List β} (ok : xs.mapM f = .ok ys) :
    ∀ x ∈ xs, ∃ y, f x = .ok y := by
  induction xs generalizing ys with
  | nil => exact fun _ mem => nomatch mem
  | cons x rest ih =>
    rw [List.mapM_cons] at ok
    obtain ⟨y,first,ok⟩ := bindOk.mp ok
    obtain ⟨others,second,-⟩ := bindOk.mp ok
    exact List.forall_mem_cons.mpr ⟨⟨y,first⟩,ih second⟩

theorem preparedRuns {document : Document} {signers fields} {e : Envelope} (version : e.document.version = document.version) :
    ∃ e', maybeMarkPrepared document signers fields e = .ok e' := by
  simp only [maybeMarkPrepared]
  split
  · exact ⟨e,rfl⟩
  · split
    · exact ⟨e,rfl⟩
    · exact ⟨_,if_pos (decide_eq_true version)⟩

/-- What the unit finds in place: the document that was read, its signers, new ids. -/
structure ReplaceFieldsUnit.Meets (u : ReplaceFieldsUnit) (e : Envelope) : Prop where
  version : e.document.version = u.document.version
  owned : ∀ field ∈ u.fields, field.signerId ∈ e.signers.map Signer.id
  distinct : (u.fields.map SignatureField.id).Nodup

theorem ReplaceFieldsUnit.Meets.runs {u : ReplaceFieldsUnit} {e : Envelope} (meets : u.Meets e) :
    (∃ e', u.run e = .ok e') ↔ u.fields.length ≤ maxKeys := by
  have owned : u.fields.all (fun field => e.signers.any fun row => row.id = field.signerId) = true := by
    simpa [List.any_eq_true] using meets.owned
  have first : SignatureFields.replaceAll u.fields e = .ok {e with fields := u.fields} := by
    simp [SignatureFields.replaceAll,check,meets.distinct,owned]
  obtain ⟨e₁,second⟩ := @preparedRuns u.document u.signers u.fields {e with fields := u.fields} meets.version
  rw [ReplaceFieldsUnit.run,first]
  show (∃ e', (maybeMarkPrepared _ _ _ _ >>= _) = Except.ok e') ↔ _
  rw [second]
  exact fieldsAppended

def SignatureField.rounded (field : SignatureField) : SignatureField := {field with box := field.box.rounded}

theorem ReplaceFieldsUnit.Meets.rounded {u : ReplaceFieldsUnit} {e : Envelope} (meets : u.Meets e) :
    ReplaceFieldsUnit.Meets {u with fields := u.fields.map SignatureField.rounded} e where
  version := meets.version
  owned := by
    intro field mem
    obtain ⟨given,found,rfl⟩ := List.mem_map.mp mem
    exact meets.owned given found
  distinct := by
    show ((u.fields.map SignatureField.rounded).map SignatureField.id).Nodup
    rw [List.map_map]
    exact meets.distinct

/-- Of a unit that finds everything in place: it commits exactly when every row passes the
CHECK and the ids fit into the payload. -/
theorem ReplaceFieldsUnit.Meets.commits {u : ReplaceFieldsUnit} {e : Envelope} {pageCount : Nat} (meets : u.Meets e)
    (onPage : ∀ field ∈ u.fields, assertFieldOnPage field.box pageCount = .ok ()) :
    (∃ e', u.commit e = .ok e') ↔ u.fields.length ≤ maxKeys ∧ ∀ field ∈ u.fields, field.box.Survives := by
  have runs := meets.rounded.runs
  rw [List.length_map] at runs
  have stored : (∀ field ∈ u.fields, field.box.Survives) →
      u.fields.mapM storedField = .ok (u.fields.map SignatureField.rounded) :=
    fun survive => mapMOk fun field mem => (storedFieldIff (onPage field mem)).mpr ⟨survive field mem,rfl⟩
  constructor
  · rintro ⟨e',ok⟩
    obtain ⟨rows,given,ran⟩ := bindOk.mp ok
    have survive : ∀ field ∈ u.fields, field.box.Survives := by
      intro field mem
      obtain ⟨row,same⟩ := mapMEach given field mem
      exact ((storedFieldIff (onPage field mem)).mp same).1
    rw [stored survive,Except.ok.injEq] at given
    rw [← given] at ran
    exact ⟨runs.mp ⟨e',ran⟩,survive⟩
  · rintro ⟨few,survive⟩
    rw [ReplaceFieldsUnit.commit,stored survive]
    exact runs.mpr few

/-! The request. -/

/-- The body `{ fields }` has between 1 and 200 of them. -/
def replaceFieldsRequestSchema (request : ReplaceFieldsInput) : Bool :=
  1 ≤ request.fields.length && request.fields.length ≤ 200

theorem eachOnPage {boxes : List FieldBox} {pageCount : Nat} {policy : FieldOverlapPolicy}
    (ok : assertFieldLayout boxes pageCount policy = .ok ()) : ∀ box ∈ boxes, assertFieldOnPage box pageCount = .ok () := by
  obtain ⟨-,ok⟩ := thenOk.mp ok
  obtain ⟨_,loop,-⟩ := bindOk.mp ok
  exact loopOk.mp loop

theorem toFieldOk {signerIds id row field} (ok : toField signerIds id row = .ok field) :
    field.id = id ∧ field.box = row.box ∧ field.signerId = row.signerId ∧ row.signerId ∈ signerIds := by
  obtain ⟨owned,ok⟩ := thenOk.mp ok
  obtain ⟨_,_,ok⟩ := bindOk.mp ok
  cases ok
  exact ⟨rfl,rfl,rfl,by simpa using owned⟩

theorem fieldsDrawn {signerIds i rows fields} (ok : toFields signerIds i rows = .ok fields) :
    fields.map SignatureField.id = rows.zipIdx.map (fun row => i.ids row.2) ∧
      fields.map SignatureField.box = rows.map FieldRow.box ∧ ∀ field ∈ fields, field.signerId ∈ signerIds := by
  refine ⟨mapMMap (fun row field built => (toFieldOk built).1) ok,?_,mapMForall (fun row field built => ?_) ok⟩
  · have boxes := mapMMap (g := SignatureField.box) (h := fun row => row.1.box)
      (fun row field built => (toFieldOk built).2.1) ok
    rw [boxes]
    conv_rhs => rw [← List.zipIdx_map_fst 0 rows,List.map_map]
    rfl
  · obtain ⟨-,-,same,owned⟩ := toFieldOk built
    rwa [same]

def DistinctIds (i : Input) : Prop := Function.Injective i.ids

theorem drawnNodup {rows : List FieldRow} {i : Input} (distinct : DistinctIds i) :
    (rows.zipIdx.map fun row => i.ids row.2).Nodup := by
  have numbers : rows.zipIdx.map (fun row => i.ids row.2) = (List.range' 0 rows.length).map i.ids := by
    rw [← List.zipIdx_map_snd 0 rows,List.map_map]
    rfl
  rw [numbers]
  exact List.Nodup.map distinct List.nodup_range'

/-- A request that reached its unit of work, and the store that the unit met. -/
structure AdmittedFields (input : ReplaceFieldsInput) (u : ReplaceFieldsUnit) (e : Envelope) : Prop where
  boxes : u.fields.map SignatureField.box = input.fields.map FieldRow.box
  onPage : ∃ pageCount, ∀ field ∈ u.fields, assertFieldOnPage field.box pageCount = .ok ()
  unlocked : isPreparationState u.document.state = true
  meets : e.document.version = u.document.version → u.Meets e

theorem admittedRun {settings : Settings} {input : ReplaceFieldsInput} {c c' : Running} {own value}
    (sound : (anyExtension.outline settings).Sound c)
    (run : Amid (esign settings) anyScope DistinctIds c (replaceDocumentFields input) own value c')
    {u : ReplaceFieldsUnit} {e : Envelope} {i : Input} (unit : ⟨.replaceFields u,e,i⟩ ∈ own) : AdmittedFields input u e := by
  have wrote : own ≠ [] := List.ne_nil_of_mem unit
  obtain ⟨c₁,_,-,to₁,run⟩ := amidThenGet run
  rcases amidLifted run with ⟨none,-⟩ | ⟨_,unlocked,run⟩
  · exact absurd none wrote
  rcases amidThenFind run with ⟨none,-⟩ | ⟨revision,c₂,to₂,-,run⟩
  · exact absurd none wrote
  obtain ⟨c₃,_,-,to₃,run⟩ := amidThenGet run
  rcases amidEnsured run with ⟨none,-⟩ | ⟨-,run⟩
  · exact absurd none wrote
  obtain ⟨c₄,_,-,to₄,run⟩ := amidThenGet run
  obtain ⟨c₅,i,distinct,to₅,run⟩ := amidThenGet run
  rcases amidLifted run with ⟨none,-⟩ | ⟨fields,drawn,run⟩
  · exact absurd none wrote
  rcases amidLifted run with ⟨none,-⟩ | ⟨_,layout,run⟩
  · exact absurd none wrote
  rcases amidLifted run with ⟨none,-⟩ | ⟨_,-,run⟩
  · exact absurd none wrote
  obtain ⟨c₆,j,to₆,rfl,-,-⟩ := amidPerform run
  cases List.mem_singleton.mp unit
  obtain ⟨ids,boxes,owned⟩ := fieldsDrawn drawn
  have sound₁ := anyExtension.runLater sound to₁
  have sound₃ := anyExtension.runLater sound₁.1 (to₂.trans to₃)
  have sound₆ := anyExtension.runLater sound₃.1 (to₄.trans (to₅.trans to₆))
  refine ⟨boxes,⟨revision.pageCount,?_⟩,unlockedState unlocked,fun unchanged => ⟨unchanged,?_,?_⟩⟩
  · have each := eachOnPage layout
    rwa [List.forall_mem_map] at each
  · have up := sound₃.2.1.version
    have top := sound₆.2.1.version
    have unchanged : c₆.store.document.version = c₁.store.document.version := unchanged
    have same : c₃.store.document = c₁.store.document := sound₃.2.1.row (by omega)
    have unlocked : isPreparationState c₃.store.document.state = true := same ▸ unlockedState unlocked
    have roster : c₆.store.signers = c₃.store.signers := sound₆.2.1.roster unlocked (by omega)
    intro field mem
    rw [roster]
    exact ((List.perm_insertionSort _ _).map Signer.id).mem_iff.mp (owned field mem)
  · show (fields.map SignatureField.id).Nodup
    rw [ids]
    exact drawnNodup distinct

/-- For every request that passed its checks, in every state of every run: its unit, when it
finds the document as it was read, commits if and only if the payload of its event is approved
and every row passes the CHECK. -/
theorem preparationCommitsIff (settings : Settings) (draft : NewDraft) (uuid : Id → Uuid) (input : ReplaceFieldsInput) :
    ∀ c, Run (esign settings) anyScope (initial (createDraftDocument draft)) c → ∀ own value c',
      Amid (esign settings) anyScope DistinctIds c (replaceDocumentFields input) own value c' →
      ∀ u e i, ⟨.replaceFields u,e,i⟩ ∈ own → e.document.version = u.document.version →
      ((∃ e', u.commit e = .ok e') ↔ input.fields.length ≤ maxKeys ∧ ∀ row ∈ input.fields, row.box.Survives) ∧
        (assertApprovedAuditPayload (fieldsUpdatedPayload uuid (u.fields.map SignatureField.id)) 0 = .ok () ↔
          input.fields.length ≤ maxKeys) := by
  intro c reached own value c' run u e i unit unchanged
  have sound : (anyExtension.outline settings).Sound c := anyExtension.run ⟨draftConsistent draft,trivial⟩ reached
  have admitted := admittedRun sound run unit
  obtain ⟨pageCount,onPage⟩ := admitted.onPage
  have length : u.fields.length = input.fields.length := by
    have lengths := congrArg List.length admitted.boxes
    rwa [List.length_map,List.length_map] at lengths
  have boxes : (∀ field ∈ u.fields, field.box.Survives) ↔ ∀ row ∈ input.fields, row.box.Survives := by
    have mapped : (∀ box ∈ u.fields.map SignatureField.box, box.Survives) ↔
        ∀ box ∈ input.fields.map FieldRow.box, box.Survives := by rw [admitted.boxes]
    rwa [List.forall_mem_map,List.forall_mem_map] at mapped
  rw [(admitted.meets unchanged).commits onPage,length,boxes,fieldIdsApproved,List.length_map,length]
  exact ⟨Iff.rfl,Iff.rfl⟩

/-! One signer, who is given a number of fields. -/

namespace ThreeSigners

def fieldsFor (count : Nat) : ReplaceFieldsInput := ⟨3,.allow,List.replicate count (fieldRow 300)⟩

def oneSigner : List (Action Input Request) :=
  served 0 1 7 (.completeSourceUpload ⟨2,77,.ok ()⟩) ++
  served 1 2 8 (.inspectDocument ⟨100,101,.inspectDocument 100⟩) ++
  served 2 3 5 (.replaceDocumentSigners ⟨3,.parallel,[signerRow 1 1]⟩)

/-- The request with the store to itself: whether its unit met the document as it was read,
and whether it commits. -/
def committedAlone (request : ReplaceFieldsInput) : Option (Bool × Bool) := do
  let c ← (esign settings).applyAll (fun _ _ => true) start oneSigner
  let result ← (replaceDocumentFields request).solo (esign settings).exec c.store (List.replicate 6 (input 4))
  match result.1 with
  | [⟨.replaceFields u,e,_⟩] => pure (e.document.version = u.document.version,(u.commit e).isOk)
  | _ => none

theorem fieldsEvaluated : committedAlone (fieldsFor 2) = some (true,true) ∧
    committedAlone (fieldsFor 65) = some (true,false) := by
  decide +kernel

theorem fieldsAmid {request : ReplaceFieldsInput} {commits : Bool} (evaluated : committedAlone request = some (true,commits)) :
    ∃ c own value c' u e i, Run (esign settings) anyScope start c ∧
      Amid (esign settings) anyScope DistinctIds c (replaceDocumentFields request) own value c' ∧
      ⟨.replaceFields u,e,i⟩ ∈ own ∧ e.document.version = u.document.version ∧ (u.commit e).isOk = commits := by
  simp only [committedAlone,Bind.bind,Option.bind_eq_some_iff] at evaluated
  obtain ⟨c,reached,⟨own,value,s⟩,solo,same⟩ := evaluated
  have distinct : DistinctIds (input 4) := fun k m same => by simpa [input] using same
  have amid : Amid (esign settings) anyScope DistinctIds c (replaceDocumentFields request) own value _ :=
    amidSolo (fun i mem => (List.mem_replicate.mp mem).2 ▸ distinct) solo
  split at same
  · next u e i unit =>
    simp only [pure,Option.some.injEq,Prod.mk.injEq,decide_eq_true_eq] at same
    have unit : own = [⟨.replaceFields u,e,i⟩] := unit
    exact ⟨c,own,value,_,u,e,i,runOfActions (fun _ _ => trivial) (fun _ _ _ => trivial) reached,amid,
      by rw [unit]; exact List.mem_singleton_self _,same⟩
  · cases same

def uuid (id : Id) : Uuid := ⟨List.replicate 36 (UInt16.ofNat id),List.length_replicate⟩

theorem fewFieldsCommit : ∃ c own value c' u e i, Run (esign settings) anyScope start c ∧
    Amid (esign settings) anyScope DistinctIds c (replaceDocumentFields (fieldsFor 2)) own value c' ∧
    ⟨.replaceFields u,e,i⟩ ∈ own ∧ ∃ e', u.commit e = .ok e' := by
  obtain ⟨c,own,value,c',u,e,i,reached,amid,unit,unchanged,-⟩ := fieldsAmid fieldsEvaluated.1
  have commits := (preparationCommitsIff settings draft uuid (fieldsFor 2) c reached own value c' amid u e i unit unchanged).1
  have survives : (fieldRow 300).box.Survives :=
    ⟨⟨by norm_num [fieldRow],by norm_num [fieldRow]⟩,⟨by norm_num [fieldRow],by norm_num [fieldRow]⟩⟩
  exact ⟨c,own,value,c',u,e,i,reached,amid,unit,
    commits.mpr ⟨by decide,fun row mem => (List.mem_replicate.mp mem).2 ▸ survives⟩⟩

theorem manyFieldsRefused : ¬ ∀ (input : ReplaceFieldsInput) c, replaceFieldsRequestSchema input = true →
    Run (esign settings) anyScope start c → ∀ own value c',
    Amid (esign settings) anyScope DistinctIds c (replaceDocumentFields input) own value c' →
    ∀ u e i, ⟨.replaceFields u,e,i⟩ ∈ own → e.document.version = u.document.version → ∃ e', u.commit e = .ok e' := by
  intro commits
  obtain ⟨c,own,value,c',u,e,i,reached,amid,unit,unchanged,refused⟩ := fieldsAmid fieldsEvaluated.2
  obtain ⟨e',ok⟩ := commits (fieldsFor 65) c (by decide) reached own value c' amid u e i unit unchanged
  rw [ok] at refused
  cases refused

end ThreeSigners
end ESign
