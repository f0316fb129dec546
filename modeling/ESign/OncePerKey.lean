import ESign.RequestLedger

/-! One effect for each idempotency key: whatever the requests of a key do at once and wherever they
stop, one unit of work is committed for it at most, and every success is an answer to one request. -/
namespace ESign.Keyed
open JsText StoreProgram

inductive Asked where
  | draft (title filename : Utf16)
  | sending (documentId : Utf16) (expiresAt : Option Utf16)
  | voiding (documentId : Utf16)
  | rows

def asked : OfficeRequest → Asked
  | .createDraftDocument input => .draft (JsText.trim input.title) input.filename
  | .sendDocument input => .sending input.documentId input.expiresAt
  | .voidDocument input => .voiding input.documentId
  | .rows _ _ _ => .rows

section
variable {settings : OfficeSettings} {q q' : OfficeRequest} {input input' : IdempotencyInput}

theorem createInput {r : CreateDraftDocumentInput} (begins : inputOf (.createDraftDocument r) = .ok input) :
    input.unique.route = createDocumentRoute ∧ input.request = createRequest (JsText.trim r.title) r.filename := by
  simp only [inputOf,bindOk] at begins
  obtain ⟨_,_,_,_,_,_,same⟩ := begins
  cases same
  exact ⟨rfl,rfl⟩

theorem sendInput {r : SendDocumentInput} (begins : inputOf (.sendDocument r) = .ok input) :
    input.unique.route = sendDocumentRoute ∧ input.request = sendRequest r.documentId r.expiresAt := by
  simp only [inputOf,bindOk] at begins
  obtain ⟨_,_,same⟩ := begins
  cases same
  exact ⟨rfl,rfl⟩

theorem voidInput {r : VoidDocumentInput} (begins : inputOf (.voidDocument r) = .ok input) :
    input.unique.route = voidDocumentRoute ∧ input.request = voidRequest r.documentId := by
  simp only [inputOf,bindOk] at begins
  obtain ⟨_,_,same⟩ := begins
  cases same
  exact ⟨rfl,rfl⟩

inductive SameRoute : OfficeRequest → OfficeRequest → Prop where
  | create (r r' : CreateDraftDocumentInput) : SameRoute (.createDraftDocument r) (.createDraftDocument r')
  | send (r r' : SendDocumentInput) : SameRoute (.sendDocument r) (.sendDocument r')
  | void (r r' : VoidDocumentInput) : SameRoute (.voidDocument r) (.voidDocument r')

theorem routesDiffer : createDocumentRoute ≠ sendDocumentRoute ∧ createDocumentRoute ≠ voidDocumentRoute ∧
    sendDocumentRoute ≠ voidDocumentRoute := by decide

theorem sameRoute (begins : inputOf q = .ok input) (begins' : inputOf q' = .ok input')
    (route : input.unique.route = input'.unique.route) : SameRoute q q' := by
  obtain ⟨createSend,createVoid,sendVoid⟩ := routesDiffer
  cases q with
  | createDraftDocument r =>
    rw [(createInput begins).1] at route
    cases q' with
    | createDraftDocument r' => exact .create r r'
    | sendDocument r' => exact absurd (route.trans (sendInput begins').1) createSend
    | voidDocument r' => exact absurd (route.trans (voidInput begins').1) createVoid
    | rows organizationId documentId w => cases begins'
  | sendDocument r =>
    rw [(sendInput begins).1] at route
    cases q' with
    | createDraftDocument r' => exact absurd (route.trans (createInput begins').1).symm createSend
    | sendDocument r' => exact .send r r'
    | voidDocument r' => exact absurd (route.trans (voidInput begins').1) sendVoid
    | rows organizationId documentId w => cases begins'
  | voidDocument r =>
    rw [(voidInput begins).1] at route
    cases q' with
    | createDraftDocument r' => exact absurd (route.trans (createInput begins').1).symm createVoid
    | sendDocument r' => exact absurd (route.trans (sendInput begins').1).symm sendVoid
    | voidDocument r' => exact .void r r'
    | rows organizationId documentId w => cases begins'
  | rows organizationId documentId w => cases begins

theorem SameRoute.replays (same : SameRoute q q') (body : Json) :
    replayOf settings q (some body) = replayOf settings q' (some body) ∧
      accepted settings q body = accepted settings q' body := by
  cases same <;> exact ⟨rfl,rfl⟩

theorem sortedCreate (title filename : Utf16) : sortKeys (createRequest title filename) =
    [(utf16 "filename",.string filename),(utf16 "title",.string title)] := rfl

theorem sortedSend (documentId : Utf16) (expiresAt : Option Utf16) : sortKeys (sendRequest documentId expiresAt) =
    [(utf16 "documentId",.string documentId),(utf16 "expiresAt",textOrNull expiresAt)] := rfl

theorem sortedVoid (documentId : Utf16) : sortKeys (voidRequest documentId) =
    [(utf16 "documentId",.string documentId)] := rfl

theorem textOrNullInjective {text text' : Option Utf16} (same : textOrNull text = textOrNull text') : text = text' := by
  cases text <;> cases text' <;> cases same <;> rfl

theorem stableJsonInjective {members members' : List (Utf16 × Json)} (same : stableJson members = stableJson members') :
    sortKeys members = sortKeys members' := Json.object.inj (Json.stringifyInjective same)

theorem sameAsked (begins : inputOf q = .ok input) (begins' : inputOf q' = .ok input')
    (route : input.unique.route = input'.unique.route) (text : stableJson input.request = stableJson input'.request) :
    asked q = asked q' := by
  have members := stableJsonInjective text
  cases sameRoute begins begins' route with
  | create r r' =>
    rw [(createInput begins).2,(createInput begins').2,sortedCreate,sortedCreate] at members
    simp only [List.cons.injEq,Prod.mk.injEq,Json.string.injEq,true_and,and_true] at members
    rw [asked,asked,members.1,members.2]
  | send r r' =>
    rw [(sendInput begins).2,(sendInput begins').2,sortedSend,sortedSend] at members
    simp only [List.cons.injEq,Prod.mk.injEq,Json.string.injEq,true_and,and_true] at members
    rw [asked,asked,members.1,textOrNullInjective members.2]
  | void r r' =>
    rw [(voidInput begins).2,(voidInput begins').2,sortedVoid,sortedVoid] at members
    simp only [List.cons.injEq,Prod.mk.injEq,Json.string.injEq,true_and,and_true] at members
    rw [asked,asked,members]

end

section
variable {settings : OfficeSettings} {documents : List StoredDocument} {h : List OfficeWritten}
  {c : OfficeConfig}
  {q : OfficeRequest} {response : OfficeResponse} {key : RecordKey}

theorem succeeded (run : Traced (office settings) (initial ⟨documents,[]⟩) h c)
    (done : Program.done (q,.ok response) ∈ c.tasks) (own : keyOf q = some key) : ∃ row ∈ c.store.records, IsRecord settings q row ∧
      ∃ body, response.stored = some body ∧ row.responseBody = some body := by
  obtain ⟨entries,kept⟩ := accountedRun run
  obtain ⟨stage,account,closes⟩ := keptDone kept done
  have backed := kept.inv.backed _ account
  have closes := closes response rfl
  cases stage with
  | free => cases own.symm.trans closes
  | begun recordId => cases own.symm.trans closes
  | acted recordId => cases own.symm.trans closes
  | completed recordId body =>
    obtain ⟨row,stored,-,own,has⟩ := backed
    exact ⟨row,stored,own,body,closes,has⟩
  | replaying body =>
    obtain ⟨recordId,row,stored,-,owner,has⟩ := backed
    obtain ⟨-,q',own',⟨response',same,replayed⟩,-,-⟩ := kept.inv.settled row stored body has
    have ⟨input,begins,unique,_⟩ := owner
    obtain ⟨input',begins',unique',-⟩ := own'
    obtain ⟨replays,-⟩ := (sameRoute begins begins' (congrArg RecordKey.route (unique.symm.trans unique'))).replays body
    rw [← replays,closes] at replayed
    split at replayed
    · cases replayed
      exact ⟨row,stored,owner,body,same,has⟩
    · cases replayed

theorem recordAsked (injective : Function.Injective settings.sha256Hex) {q' : OfficeRequest} {row row' : IdempotencyRecord}
    (own : IsRecord settings q row) (own' : IsRecord settings q' row') (same : row = row') : asked q = asked q' := by
  subst same
  obtain ⟨input,begins,unique,hash⟩ := own
  obtain ⟨input',begins',unique',hash'⟩ := own'
  exact sameAsked begins begins' (congrArg RecordKey.route (unique.symm.trans unique')) (injective (hash.symm.trans hash'))

/- However the requests interleave and stop: one unit of work is committed for a key at most, a success returns
what the request that committed it has kept, and asks for what the key was first used for. A title is what is left
of it without the white space around it. -/
theorem oneEffectPerKey (injective : Function.Injective settings.sha256Hex)
    (run : Traced (office settings) (initial ⟨documents,[]⟩) h c) :
    (committedKeys (marks h)).Nodup ∧
    ∀ q response key, Program.done (q,.ok response) ∈ c.tasks → keyOf q = some key →
      (∃ q' recordId body, .committed q' ∈ marks h ∧ keyOf q' = some key ∧ .kept q' recordId body ∈ marks h ∧
        response.stored = some body) ∧
      ∀ q' record, .made q' record ∈ marks h → keyOf q' = some key → asked q = asked q' := by
  obtain ⟨entries,kept⟩ := accountedRun run
  refine ⟨kept.inv.once,fun q response key done own => ?_⟩
  obtain ⟨row,stored,owner,body,answer,has⟩ := succeeded run done own
  have unique : row.unique = key := Option.some.inj ((keyOfRecord owner).symm.trans own)
  constructor
  · obtain ⟨-,q',own',-,committed,keeps⟩ := kept.inv.settled row stored body has
    exact ⟨q',row.id,body,committed,(keyOfRecord own').trans (congrArg some unique),keeps,answer⟩
  · intro q' record made own'
    obtain ⟨row',stored',-,owner'⟩ := kept.inv.shown _ made
    have unique' : row'.unique = key := Option.some.inj ((keyOfRecord owner').symm.trans own')
    exact recordAsked injective owner owner' (kept.inv.sameKey stored stored' (unique.trans unique'.symm))

end

/-- Requests of one key that succeed have one title. -/
def TitlesAgree (settings : OfficeSettings) : Prop :=
  ∀ h c, Traced (office settings) (initial ⟨[],[]⟩) h c →
    ∀ (r r' : CreateDraftDocumentInput) (response response' : OfficeResponse),
    Program.done (.createDraftDocument r,.ok response) ∈ c.tasks →
    Program.done (.createDraftDocument r',.ok response') ∈ c.tasks →
    keyOf (.createDraftDocument r) = keyOf (.createDraftDocument r') → r.title = r'.title

namespace SmallOffice

def settings : OfficeSettings where
  rows := ⟨1000,1000,1000,false,[7],7,id⟩
  columns :=
    { idText := fun id => utf16 "10000000-0000-4000-8000-" ++ pad 12 id
      sizeBytes := fun _ => 1
      sha256Digest := fun _ => List.replicate 64 48
      revisionDisplayName := fun _ => utf16 "source.pdf"
      coordinate := fun _ => .zero
      parseNumber := fun _ => none
      uuid := isOpaqueId
      email := fun _ => true }
  sha256Hex := id
  parseDate := fun _ => none
  maxUploadBytes := 1000
  uploadTtlMs := 1000
  uploadTokenHeader := utf16 "x-upload-token"

def input (n : Nat) : Input := ⟨n,fun k => 100*n+k,fun k => 100*n+50+k,none,⟨77,[]⟩,fun _ => (true,none),1⟩

def turns (task n count : Nat) : List (Action Input OfficeRequest) := List.replicate count (.step task (input n))

def draft (title : String) : CreateDraftDocumentInput := ⟨1,2,utf16 title,utf16 "lease.pdf",some (utf16 "key-00000001")⟩

/-- One draft, and the same draft again under a title with white space around it. -/
def padded : List (Action Input OfficeRequest) :=
  .spawn (.createDraftDocument (draft "Lease")) :: turns 0 1 9 ++
    .spawn (.createDraftDocument (draft " Lease ")) :: turns 1 2 2

/-- The title that a success was asked for under, and its key. -/
def granted : OfficeTask → Option (Option RecordKey × Utf16)
  | .done (.createDraftDocument r,.ok _) => some (keyOf (.createDraftDocument r),r.title)
  | _ => none

def key : RecordKey := ⟨1,2,createDocumentRoute,utf16 "key-00000001"⟩

set_option maxRecDepth 100000 in
theorem paddedRun : ∃ h c, Traced (office settings) (initial ⟨[],[]⟩) h c ∧
    c.tasks.map granted = [some (some key,utf16 "Lease"),some (some key,utf16 " Lease ")] := by
  have evaluated : ((office settings).trace (initial ⟨[],[]⟩) padded).map (fun r => r.2.tasks.map granted) =
      some [some (some key,utf16 "Lease"),some (some key,utf16 " Lease ")] := by decide +kernel
  obtain ⟨⟨h,c⟩,ran,both⟩ := Option.map_eq_some_iff.mp evaluated
  exact ⟨h,c,traced ran,both⟩

theorem grantedDone {c : OfficeConfig} {found : Option RecordKey × Utf16} (mem : some found ∈ c.tasks.map granted) :
    ∃ r response, Program.done (.createDraftDocument r,.ok response) ∈ c.tasks ∧
      keyOf (.createDraftDocument r) = found.1 ∧ r.title = found.2 := by
  obtain ⟨t,among,same⟩ := List.mem_map.mp mem
  unfold granted at same
  split at same
  · rename_i r response
    cases same
    exact ⟨r,response,among,rfl,rfl⟩
  · cases same

theorem titlesTrimmed : ¬ TitlesAgree settings := by
  intro claimed
  obtain ⟨h,c,run,both⟩ := paddedRun
  obtain ⟨r,response,done,own,title⟩ := grantedDone (both ▸ List.mem_cons_self)
  obtain ⟨r',response',done',own',title'⟩ := grantedDone (both ▸ List.mem_cons_of_mem _ List.mem_cons_self)
  have same := claimed h c run r r' response response' done done' (own.trans own'.symm)
  rw [title,title'] at same
  exact absurd same (by decide)

theorem leaseOnce : ∃ h c, Traced (office settings) (initial ⟨[],[]⟩) h c ∧ (committedKeys (marks h)).Nodup ∧
    ∃ r response, Program.done (.createDraftDocument r,.ok response) ∈ c.tasks ∧ r.title = utf16 " Lease " ∧
      ∃ q recordId body, .committed q ∈ marks h ∧ keyOf q = some key ∧ .kept q recordId body ∈ marks h ∧
        response.stored = some body := by
  obtain ⟨h,c,run,both⟩ := paddedRun
  obtain ⟨r,response,done,own,title⟩ := grantedDone (both ▸ List.mem_cons_of_mem _ List.mem_cons_self)
  obtain ⟨once,succeeds⟩ := oneEffectPerKey Function.injective_id run
  exact ⟨h,c,run,once,r,response,done,title,(succeeds _ response key done own).1⟩

end SmallOffice

end ESign.Keyed
