import ESign.AuditWriter

/-! The verification of all documents of an organization, and the worker's scheduled run over
the organizations, with the objects in an S3 bucket. The rows and the objects stand still
while a run reads them. -/
namespace ESign
open JsText ObjectCheckpointStore

def unsafeSegment : AppError := .integrity [("reason","object_key_unsafe_segment")]

def assertSafeObjectKeySegments (key : Utf16) : Except AppError Unit := do
  check (!key.contains 92 && !key.contains 0) unsafeSegment
  let forCheck := if key.getLast? = some 47 then key.dropLast else key
  check (forCheck ≠ [] && forCheck.head? ≠ some 47) unsafeSegment
  check ((forCheck.splitOn 47).all (fun segment => segment ≠ [] && segment ≠ [46] && segment ≠ [46,46])) unsafeSegment

def assertTenantObjectKey (organizationId : OpaqueId) (key : Utf16) : Except AppError Unit := do
  assertSafeObjectKeySegments key
  check ((tenantObjectKeyPrefix organizationId).isPrefixOf key) (.integrity [("reason","object_key_not_tenant_prefixed")])

structure S3Object where
  body : List UInt8
  sha256Digest : Option Utf16
  deriving DecidableEq

abbrev Bucket := Utf16 → Option S3Object

/-- The bucket is reachable: nothing but the key and the object decides. -/
def s3GetObject (sha256Body : List UInt8 → Utf16) (bucket : Bucket) (organizationId : OpaqueId) (key : Utf16) :
    Except AppError (Option (List UInt8)) := do
  assertTenantObjectKey organizationId key
  match bucket key with
  | none => .ok none
  | some object => do
      check (object.sha256Digest.all (fun metaDigest => metaDigest = sha256Body object.body))
        (.integrity [("reason","object_digest_mismatch"),("code","FINAL_OBJECT_INTEGRITY_FAILURE")])
      .ok (some object.body)

inductive MembershipRole where
  | owner | admin | member | readOnly
  deriving DecidableEq, Repr

def MembershipRole.text : MembershipRole → String
  | .owner => "owner"
  | .admin => "admin"
  | .member => "member"
  | .readOnly => "read_only"

def AuthorizationAction.name : AuthorizationAction → String
  | .membershipRead => "organization.membership.read"
  | .documentRead => "document.read"
  | .documentWrite => "document.write"
  | .documentSend => "document.send"
  | .documentVoid => "document.void"
  | .downloadArtifact => "document.download_artifact"
  | .sessionAct => "signing.session.act"
  | .jobProcess => "job.process"
  | .auditVerify => "audit.verify"

structure AccountUserActor (I : Type) where
  userId : I
  membershipId : I
  organizationId : I
  role : MembershipRole
  deriving DecidableEq, Repr

inductive RequestActor (I : Type) where
  | accountUser (actor : AccountUserActor I)
  | signer (organizationId documentId signerId sessionId : I)
  | worker (jobId organizationId : I)
  | system
  deriving DecidableEq, Repr

structure AuthorizationResource (I : Type) where
  organizationId : I
  documentId : Option I
  signerId : Option I

def accountUserActions : MembershipRole → List AuthorizationAction
  | .owner => [.membershipRead,.documentRead,.documentWrite,.documentSend,.documentVoid,.downloadArtifact,.auditVerify]
  | .admin => [.membershipRead,.documentRead,.documentWrite,.documentSend,.documentVoid,.downloadArtifact,.auditVerify]
  | .member => [.membershipRead,.documentRead,.documentWrite,.documentSend]
  | .readOnly => [.membershipRead,.documentRead]

def deny (reason : String) (action : AuthorizationAction) (details : List (String × String)) : AppError :=
  .application .authorization ([("reason",reason),("action",action.name)] ++ details)

def assertAllowed {I : Type} [DecidableEq I] (actor : RequestActor I) (action : AuthorizationAction)
    (resource : AuthorizationResource I) : Except AppError Unit :=
  match actor with
  | .accountUser actor => do
      check (actor.organizationId = resource.organizationId) (deny "organization_mismatch" action [])
      check (action ∈ accountUserActions actor.role) (deny "role_denied" action [("role",actor.role.text)])
  | .signer organizationId documentId signerId _ => do
      check (action = .sessionAct) (deny "signer_action_denied" action [])
      check (organizationId = resource.organizationId) (deny "organization_mismatch" action [])
      check (resource.documentId.all (fun id => id = documentId)) (deny "document_mismatch" action [])
      check (resource.signerId.all (fun id => id = signerId)) (deny "signer_mismatch" action [])
  | .worker _ organizationId => do
      check (action = .jobProcess) (deny "worker_action_denied" action [])
      check (organizationId = resource.organizationId) (deny "organization_mismatch" action [])
  | .system => check (action = .jobProcess) (deny "system_action_denied" action [])

def RequestActor.type {I : Type} : RequestActor I → AuditActorType
  | .accountUser _ => .accountUser
  | .signer _ _ _ _ => .signer
  | .worker _ _ => .worker
  | .system => .system

/-- Of the uuid column `id` any text can come, also one that no opaque id has. -/
structure DocumentRow where
  id : Utf16
  organizationId : OpaqueId
  createdAt : Int

structure FinalizedArtifactRow where
  organizationId : OpaqueId
  documentId : OpaqueId
  artifact : ArtifactRow

structure AuditTables where
  organizations : List OpaqueId
  documents : List DocumentRow
  auditLogs : List AuditEvent
  artifacts : List FinalizedArtifactRow

def AuditTables.listByOrganization (t : AuditTables) (organizationId : OpaqueId) : List DocumentRow :=
  (t.documents.filter (fun row => row.organizationId = organizationId)).insertionSort
    (fun left right => right.createdAt ≤ left.createdAt)

def AuditTables.findById (t : AuditTables) (organizationId documentId : OpaqueId) : Option DocumentRow :=
  t.documents.find? (fun row => row.organizationId = organizationId && row.id = documentId.text)

def AuditTables.listByDocument (t : AuditTables) (organizationId documentId : OpaqueId) : List AuditEvent :=
  sortEvents (rowsOf organizationId documentId t.auditLogs)

def AuditTables.findByDocument (t : AuditTables) (organizationId documentId : OpaqueId) : Option ArtifactRow :=
  (t.artifacts.find? (fun row => row.organizationId = organizationId && row.documentId = documentId)).map
    FinalizedArtifactRow.artifact

/-- `readings` are the two that the verification of a document takes from the clock. -/
structure SweepDeps where
  tables : AuditTables
  bucket : Bucket
  sha256Body : List UInt8 → Utf16
  readings : OpaqueId → Int × Int
  checkedAt : OpaqueId → Int

def SweepDeps.verify (d : SweepDeps) (organizationId : OpaqueId) (actor : Option (RequestActor OpaqueId)) (documentId : OpaqueId) :
    VerifyDeps where
  assertAllowed _ action :=
    match actor with
    | some actor => assertAllowed actor action ⟨organizationId,some documentId,none⟩
    | none => .ok ()
  documentExists := (d.tables.findById organizationId documentId).isSome
  events := d.tables.listByDocument organizationId documentId
  artifact := d.tables.findByDocument organizationId documentId
  getObject := s3GetObject d.sha256Body d.bucket organizationId
  sha256Body := d.sha256Body
  checkedAt := (d.readings documentId).1
  anchoredAt := (d.readings documentId).2
  notify _ := .ok ()

structure OrganizationAuditVerificationReport where
  ok : Bool
  organizationId : OpaqueId
  documentCount : Nat
  failedDocumentCount : Nat
  checkedAt : Utf16
  reports : List AuditVerificationReport

def AuditVerificationReport.alert (report : AuditVerificationReport) : Option AuditVerificationAlert :=
  if report.ok then none
  else some ⟨report.organizationId,report.documentId,report.failures.map AuditVerificationFailure.code,
    (report.failures.head?.bind AuditVerificationFailure.sequence).or report.headSequence⟩

/-- What a run leaves behind, returned or thrown: the reports that were completed and the
alerts that were sent for them. -/
structure Sweep (σ α : Type) where
  reports : List AuditVerificationReport
  result : Except AppError α
  state : σ

def Sweep.alerts {σ α : Type} (s : Sweep σ α) : List AuditVerificationAlert :=
  s.reports.filterMap AuditVerificationReport.alert

section
variable (sha256Hex : Utf16 → Utf16) {σ : Type} (store : ImmutableCheckpointStore σ) (d : SweepDeps)

def verifyDocument (organizationId : OpaqueId) (actor : Option (RequestActor OpaqueId)) (documentId : OpaqueId) (state : σ) :
    Except AppError AuditVerificationReport × σ :=
  verifyAuditChain sha256Hex store (d.verify organizationId actor documentId)
    ⟨organizationId,documentId,actor.map RequestActor.type⟩ state

def authorizeSweep (organizationId : OpaqueId) (actor : Option (RequestActor OpaqueId)) : Except AppError Unit :=
  match actor with
  | some actor => authorize (d.verify organizationId (some actor) organizationId) actor.type
  | none => .ok ()

/-- The id of a listed row goes into `findById` again, which refuses a uuid that is no opaque id. -/
def verifyListed (organizationId : OpaqueId) (actor : Option (RequestActor OpaqueId)) (id : Utf16) (state : σ) :
    Except AppError AuditVerificationReport × σ :=
  match opaqueId? id with
  | some documentId => verifyDocument sha256Hex store d organizationId actor documentId state
  | none => (do authorizeSweep d organizationId actor; .error (.validation [("field","documentId"),("reason","invalid")]),state)

/-- The loop over the documents: an exception ends it. -/
def verifyDocuments (organizationId : OpaqueId) (actor : Option (RequestActor OpaqueId)) : List Utf16 → σ → Sweep σ Unit
  | [], state => ⟨[],.ok (),state⟩
  | id :: rest, state =>
      match verifyListed sha256Hex store d organizationId actor id state with
      | (.error error,state) => ⟨[],.error error,state⟩
      | (.ok report,state) =>
          let others := verifyDocuments organizationId actor rest state
          { others with reports := report :: others.reports }

def organizationReport (organizationId : OpaqueId) (reports : List AuditVerificationReport) :
    OrganizationAuditVerificationReport :=
  let failedDocumentCount := (reports.filter (fun report => !report.ok)).length
  ⟨failedDocumentCount = 0,organizationId,reports.length,failedDocumentCount,isoString (d.checkedAt organizationId),reports⟩

/-- The documents that are to be verified, for a caller who may. -/
def sweptDocuments (organizationId : OpaqueId) (actor : Option (RequestActor OpaqueId)) (documentId : Option OpaqueId) :
    Except AppError (List Utf16) := do
  authorizeSweep d organizationId actor
  match documentId with
  | none => .ok ((d.tables.listByOrganization organizationId).map DocumentRow.id)
  | some documentId =>
      match d.tables.findById organizationId documentId with
      | some document => .ok [document.id]
      | none => .error (.notFound [("resource","document")])

def verifyOrganizationAuditChains (organizationId : OpaqueId) (actor : Option (RequestActor OpaqueId)) (documentId : Option OpaqueId)
    (state : σ) : Sweep σ OrganizationAuditVerificationReport :=
  match sweptDocuments d organizationId actor documentId with
  | .error error => ⟨[],.error error,state⟩
  | .ok documents =>
      let sweep := verifyDocuments sha256Hex store d organizationId actor documents state
      ⟨sweep.reports,sweep.result.map (fun _ => organizationReport d organizationId sweep.reports),sweep.state⟩

/-! The worker's run. -/

/-- `take: 25, orderBy: { id: 'asc' }`. -/
def listOrganizationIds : List OpaqueId :=
  (d.tables.organizations.insertionSort (fun left right => left.text ≤ right.text)).take 25

structure ScheduledAuditVerificationResult where
  organizationCount : Nat
  documentCount : Nat
  failedDocumentCount : Nat
  checkedAt : Utf16

/-- The loop over the organizations, with the two sums. -/
def verifyOrganizations : List OpaqueId → σ → Sweep σ (Nat × Nat)
  | [], state => ⟨[],.ok (0,0),state⟩
  | organizationId :: rest, state =>
      let sweep := verifyOrganizationAuditChains sha256Hex store d organizationId (some .system) none state
      match sweep.result with
      | .error error => ⟨sweep.reports,.error error,sweep.state⟩
      | .ok report =>
          let others := verifyOrganizations rest sweep.state
          ⟨sweep.reports ++ others.reports,
            others.result.map (fun sums => (report.documentCount+sums.1,report.failedDocumentCount+sums.2)),others.state⟩

def runScheduledAuditVerification (checkedAt : Int) (state : σ) : Sweep σ ScheduledAuditVerificationResult :=
  let organizationIds := listOrganizationIds d
  let sweep := verifyOrganizations sha256Hex store d organizationIds state
  ⟨sweep.reports,sweep.result.map (fun sums => ⟨organizationIds.length,sums.1,sums.2,isoString checkedAt⟩),sweep.state⟩

end

/-! The keys of artifacts are safe. -/

structure PlainSegment (segment : Utf16) : Prop where
  some : segment ≠ []
  named : segment ≠ [46] ∧ segment ≠ [46,46]
  units : ∀ u ∈ segment, u ≠ 47 ∧ u ≠ 92 ∧ u ≠ 0

/-- What a key joined from plain segments is like. -/
structure PlainKey (key : Utf16) : Prop where
  some : key ≠ []
  first : key.head? ≠ .some 47
  last : key.getLast? ≠ .some 47
  units : ∀ u ∈ key, u ≠ 92 ∧ u ≠ 0

theorem joinedPlain {segments : List Utf16} (some : segments ≠ []) (plain : ∀ segment ∈ segments, PlainSegment segment) :
    PlainKey ([47].intercalate segments) := by
  induction segments with
  | nil => exact absurd rfl some
  | cons segment rest ih =>
    have here := plain segment List.mem_cons_self
    cases rest with
    | nil =>
      rw [List.intercalate_singleton]
      refine ⟨here.some,fun first => ?_,fun last => ?_,fun u mem => (here.units u mem).2⟩
      · exact (here.units 47 (List.mem_of_mem_head? first)).1 rfl
      · exact (here.units 47 (List.mem_of_getLast? last)).1 rfl
    | cons next rest =>
      have others := ih (List.cons_ne_nil _ _) (fun segment mem => plain segment (List.mem_cons_of_mem _ mem))
      rw [List.intercalate_cons_cons]
      refine ⟨?_,fun first => ?_,fun last => ?_,fun u mem => ?_⟩
      · simp [here.some]
      · obtain ⟨u,units,rfl⟩ := List.exists_cons_of_ne_nil here.some
        simp only [List.cons_append,List.head?_cons,Option.some.injEq] at first
        exact (here.units u List.mem_cons_self).1 first
      · rw [List.getLast?_append_of_ne_nil _ others.some] at last
        exact others.last last
      · rcases List.mem_append.mp mem with left' | right'
        · rcases List.mem_append.mp left' with own | slash
          · exact (here.units u own).2
          · rw [List.mem_singleton.mp slash]
            decide
        · exact others.units u right'

theorem joinedSafe {segments : List Utf16} (some : segments ≠ []) (plain : ∀ segment ∈ segments, PlainSegment segment) :
    assertSafeObjectKeySegments ([47].intercalate segments) = .ok () := by
  have key := joinedPlain some plain
  have split : ([47].intercalate segments).splitOn 47 = segments :=
    List.splitOn_intercalate 47 (fun segment mem slash => ((plain segment mem).units 47 slash).1 rfl) some
  have clean : ∀ u : UInt16, u = 92 ∨ u = 0 → u ∉ [47].intercalate segments := by
    intro u bad mem
    rcases bad with rfl | rfl
    · exact (key.units _ mem).1 rfl
    · exact (key.units _ mem).2 rfl
  simp only [assertSafeObjectKeySegments,thenOk,checkOk,if_neg key.last,split]
  refine ⟨?_,?_,?_⟩
  · simp [clean 92,clean 0]
  · simp [key.some,key.first]
  · rw [List.all_eq_true]
    intro segment mem
    have here := plain segment mem
    simp [here.some,here.named.1,here.named.2]

/-- None of the units that segments are told apart by. -/
def isPlainUnit (u : UInt16) : Bool := 45 ≤ u.toNat && u.toNat ≠ 46 && u.toNat ≠ 47 && u.toNat ≠ 92

theorem hexPlain {text : Utf16} (long : 2 < text.length) (units : text.all isPlainUnit = true) : PlainSegment text := by
  refine ⟨?_,⟨?_,?_⟩,fun u mem => ?_⟩
  · rintro rfl
    simp at long
  · rintro rfl
    simp at long
  · rintro rfl
    simp at long
  · have plain := List.all_eq_true.mp units u mem
    simp only [isPlainUnit,Bool.and_eq_true,decide_eq_true_eq] at plain
    obtain ⟨⟨⟨above,-⟩,slash⟩,backslash⟩ := plain
    refine ⟨?_,?_,?_⟩
    · rintro rfl
      exact slash rfl
    · rintro rfl
      exact backslash rfl
    · rintro rfl
      simp at above

theorem opaqueIdPlain (id : OpaqueId) : PlainSegment id.text := by
  refine hexPlain (by rw [opaqueIdLength]; decide) (List.all_eq_true.mpr (fun u mem => ?_))
  have valid := id.valid
  rw [isOpaqueId,Bool.and_eq_true,List.all_eq_true] at valid
  obtain ⟨i,found⟩ := List.getElem?_of_mem mem
  have unit := valid.2 (u,i) (List.mk_mem_zipIdx_iff_getElem?.mpr found)
  simp only at unit
  split at unit
  · rw [of_decide_eq_true unit]
    rfl
  · simp only [isPlainUnit,Bool.and_eq_true,decide_eq_true_eq]
    split at unit
    · rw [Bool.and_eq_true,decide_eq_true_eq,decide_eq_true_eq] at unit
      omega
    · split at unit
      · simp only [Bool.or_eq_true,decide_eq_true_eq] at unit
        rcases unit with ((((rfl | rfl) | rfl) | rfl) | rfl) | rfl <;> simp
      · simp only [isHexUnit,isDigit,Bool.or_eq_true,Bool.and_eq_true,decide_eq_true_eq] at unit
        omega

theorem digestPlain {digest : Utf16} (hex : isSha256Hex digest = true) : PlainSegment digest := by
  rw [isSha256Hex,Bool.and_eq_true,decide_eq_true_eq,List.all_eq_true] at hex
  refine hexPlain (by rw [hex.1]; decide) (List.all_eq_true.mpr (fun u mem => ?_))
  have unit := hex.2 u mem
  simp only [isDigit,isPlainUnit,Bool.or_eq_true,Bool.and_eq_true,decide_eq_true_eq] at unit ⊢
  omega

/-- Where the bytes of an artifact stand when its row does not say. -/
def contentKey (organizationId : OpaqueId) (sha256Digest : Utf16) : Utf16 :=
  tenantObjectKey organizationId (utf16 "artifacts/" ++ sha256Digest)

theorem contentKeySafe (organizationId : OpaqueId) {digest : Utf16} (hex : isSha256Hex digest = true) :
    assertTenantObjectKey organizationId (contentKey organizationId digest) = .ok () := by
  have joined : contentKey organizationId digest =
      [47].intercalate [utf16 "org",organizationId.text,utf16 "artifacts",digest] := by
    have parts : utf16 "org/" = utf16 "org" ++ [47] ∧ utf16 "artifacts/" = utf16 "artifacts" ++ [47] ∧ utf16 "/" = [47] := by
      decide
    simp [contentKey,tenantObjectKey,tenantObjectKeyPrefix,parts.1,parts.2.1,parts.2.2,List.intercalate]
  rw [assertTenantObjectKey,thenOk,checkOk]
  refine ⟨?_,?_⟩
  · rw [joined]
    refine joinedSafe (List.cons_ne_nil _ _) ?_
    have org : PlainSegment (utf16 "org") := hexPlain (by decide) (by decide)
    have artifacts : PlainSegment (utf16 "artifacts") := hexPlain (by decide) (by decide)
    simp [org,artifacts,opaqueIdPlain,digestPlain hex]
  · rw [List.isPrefixOf_iff_prefix]
    exact List.prefix_append _ _

/-! What a document's verification needs of its artifact. -/

section
variable (d : SweepDeps) (organizationId : OpaqueId)

/-- An object that has not been exchanged behind its own metadata. -/
def Unspoiled (key : Utf16) : Prop :=
  ∀ object, d.bucket key = some object → ∀ digest, object.sha256Digest = some digest → digest = d.sha256Body object.body

structure Fetchable (artifact : ArtifactRow) : Prop where
  tenant : assertTenantObjectKey organizationId artifact.objectKey = .ok ()
  unspoiled : Unspoiled d artifact.objectKey
  fallback : d.bucket artifact.objectKey = none →
    isSha256Hex artifact.sha256Digest = true ∧ Unspoiled d (contentKey organizationId artifact.sha256Digest)

/-- The bytes of an artifact, wherever they are looked for. -/
def storedBytes (artifact : ArtifactRow) : Option (List UInt8) :=
  match d.bucket artifact.objectKey with
  | some object => some object.body
  | none => (d.bucket (contentKey organizationId artifact.sha256Digest)).map S3Object.body

variable {d organizationId} in
theorem getObjectOk {key : Utf16} {read : Option (List UInt8)} :
    s3GetObject d.sha256Body d.bucket organizationId key = .ok read ↔
      assertTenantObjectKey organizationId key = .ok () ∧ Unspoiled d key ∧ read = (d.bucket key).map S3Object.body := by
  rw [s3GetObject,thenOk,Unspoiled]
  refine and_congr Iff.rfl ?_
  cases d.bucket key with
  | none => simp [eq_comm]
  | some object =>
    simp only [thenOk,checkOk,Option.all_eq_true,decide_eq_true_eq,Except.ok.injEq,Option.map_some,Option.some.injEq,
      forall_eq']
    exact and_congr Iff.rfl eq_comm

theorem fetchIff (actor : Option (RequestActor OpaqueId)) (documentId : OpaqueId) {artifact : ArtifactRow}
    {input : VerifyAuditChainInput} (same : input.organizationId = organizationId) {read : Option (List UInt8)} :
    artifactBody (d.verify organizationId actor documentId) input artifact = .ok read ↔
      Fetchable d organizationId artifact ∧ read = storedBytes d organizationId artifact := by
  have content : ∀ key, artifactObjectKey input.organizationId artifact.sha256Digest = .ok key ↔
      isSha256Hex artifact.sha256Digest = true ∧ contentKey organizationId artifact.sha256Digest = key := by
    intro key
    rw [artifactObjectKey,thenOk,checkOk,same,Except.ok.injEq]
    rfl
  rw [artifactBody,bindOk,storedBytes]
  simp only [SweepDeps.verify,getObjectOk]
  cases found : d.bucket artifact.objectKey with
  | some object =>
    constructor
    · rintro ⟨stored,⟨tenant,unspoiled,rfl⟩,last⟩
      exact ⟨⟨tenant,unspoiled,fun none => by rw [found] at none; cases none⟩,(Except.ok.inj last).symm⟩
    · rintro ⟨fetchable,rfl⟩
      exact ⟨_,⟨fetchable.tenant,fetchable.unspoiled,rfl⟩,rfl⟩
  | none =>
    constructor
    · rintro ⟨stored,⟨tenant,unspoiled,rfl⟩,last⟩
      obtain ⟨key,named,read⟩ := bindOk.mp last
      obtain ⟨hex,rfl⟩ := (content key).mp named
      obtain ⟨-,unspoiled',rfl⟩ := getObjectOk.mp read
      exact ⟨⟨tenant,unspoiled,fun _ => ⟨hex,unspoiled'⟩⟩,rfl⟩
    · rintro ⟨fetchable,rfl⟩
      obtain ⟨hex,unspoiled'⟩ := fetchable.fallback found
      refine ⟨_,⟨fetchable.tenant,fetchable.unspoiled,rfl⟩,bindOk.mpr ⟨_,(content _).mpr ⟨hex,rfl⟩,?_⟩⟩
      exact getObjectOk.mpr ⟨contentKeySafe organizationId hex,unspoiled',rfl⟩

end

/-! When a verification returns its report. -/

section
variable {sha256Hex : Utf16 → Utf16} {σ : Type} {store : ImmutableCheckpointStore σ}

section
variable {deps : VerifyDeps} {input : VerifyAuditChainInput}

theorem eventsReturn {before : Option AuditEvent} {events : List AuditEvent} :
    (∃ found, verifyEvents sha256Hex deps input before events = .ok found) ↔
      ∀ event ∈ events, ∃ failures, eventArtifact deps input event = .ok failures := by
  induction events generalizing before with
  | nil => simp [verifyEvents]
  | cons event rest ih =>
    rw [List.forall_mem_cons,← @ih (some event)]
    simp only [verifyEvents,bindOk]
    constructor
    · rintro ⟨found,failures,here,others,later,-⟩
      exact ⟨⟨failures,here⟩,others,later⟩
    · rintro ⟨⟨failures,here⟩,others,later⟩
      exact ⟨_,failures,here,others,later,rfl⟩

theorem eventsFound {before : Option AuditEvent} {events : List AuditEvent} {found : List AuditVerificationFailure}
    (run : verifyEvents sha256Hex deps input before events = .ok found) {event : AuditEvent} (mem : event ∈ events)
    {failures : List AuditVerificationFailure} (here : eventArtifact deps input event = .ok failures) : failures ⊆ found := by
  induction events generalizing before found with
  | nil => cases mem
  | cons first rest ih =>
    simp only [verifyEvents,bindOk] at run
    obtain ⟨artifact,ran,others,later,last⟩ := run
    rw [← Except.ok.inj last]
    rcases List.mem_cons.mp mem with rfl | mem
    · rw [here] at ran
      rw [Except.ok.inj ran]
      exact fun item itemMem => List.mem_append_left _ (List.mem_append_right _ itemMem)
    · exact fun item itemMem => List.mem_append_right _ (ih later mem itemMem)

theorem chainReturns (quiet : ∀ alert, deps.notify alert = .ok ()) {state : σ} :
    (∃ report, (verifyAuditChain sha256Hex store deps input state).1 = .ok report) ↔
      admitCaller deps input = .ok () ∧ ∀ event ∈ deps.events, ∃ failures, eventArtifact deps input event = .ok failures := by
  have sent : ∀ report, publish deps report = .ok report := by
    intro report
    rw [publish,publishOutcome,quiet]
    split <;> rfl
  have sorted : (∀ event ∈ sortEvents deps.events, ∃ failures, eventArtifact deps input event = .ok failures) ↔
      ∀ event ∈ deps.events, ∃ failures, eventArtifact deps input event = .ok failures := by
    simp only [sortEvents,List.mem_insertionSort]
  rw [← sorted,← @eventsReturn sha256Hex deps input none]
  cases admitted : admitCaller deps input with
  | error error => simp [verifyAuditChain,admitted]
  | ok admission =>
    by_cases empty : deps.events = []
    · simp [verifyAuditChain,admitted,empty,sent,sortEvents,verifyEvents]
    · cases events : verifyEvents sha256Hex deps input none (sortEvents deps.events) with
      | error error => simp [verifyAuditChain,admitted,empty,events]
      | ok found => simp [verifyAuditChain,admitted,empty,events,sent]

end

variable {d : SweepDeps} {organizationId : OpaqueId}

def RequestActor.action {I : Type} : RequestActor I → AuthorizationAction
  | .accountUser _ => .auditVerify
  | .signer _ _ _ _ => .auditVerify
  | .worker _ _ => .jobProcess
  | .system => .jobProcess

def Permitted (organizationId : OpaqueId) (actor : Option (RequestActor OpaqueId)) : Prop :=
  ∀ caller ∈ actor, assertAllowed caller caller.action ⟨organizationId,none,none⟩ = .ok ()

theorem systemPermitted : Permitted organizationId (some .system) := by
  intro caller same
  cases same
  rfl

theorem authorizeCaller {caller : RequestActor OpaqueId} {documentId : OpaqueId} :
    authorize (d.verify organizationId (some caller) documentId) caller.type =
      assertAllowed caller caller.action ⟨organizationId,none,none⟩ := by
  cases caller <;> rfl

variable (d organizationId) in
/-- No finalized event of the document leads to a read that raises. -/
def Readable (documentId : OpaqueId) : Prop :=
  ∀ event ∈ d.tables.listByDocument organizationId documentId, event.type = .documentFinalized →
    ∀ artifact, d.tables.findByDocument organizationId documentId = some artifact → Fetchable d organizationId artifact

theorem artifactReturns {actor : Option (RequestActor OpaqueId)} {input : VerifyAuditChainInput} {documentId : OpaqueId} {event : AuditEvent}
    (same : input.organizationId = organizationId) :
    (∃ failures, eventArtifact (d.verify organizationId actor documentId) input event = .ok failures) ↔
      (event.type = .documentFinalized → ∀ artifact, d.tables.findByDocument organizationId documentId = some artifact →
        Fetchable d organizationId artifact) := by
  rw [eventArtifact]
  by_cases final : event.type = .documentFinalized
  · rw [if_pos final,verifyFinalizedArtifact]
    have row : (d.verify organizationId actor documentId).artifact = d.tables.findByDocument organizationId documentId := rfl
    rw [row]
    cases d.tables.findByDocument organizationId documentId with
    | none => simp
    | some artifact =>
      simp only [final,forall_const,Option.some.injEq,forall_eq']
      constructor
      · rintro ⟨failures,ran⟩
        obtain ⟨body,read,-⟩ := bindOk.mp ran
        exact ((fetchIff d organizationId actor documentId same).mp read).1
      · intro fetchable
        have read := (fetchIff d organizationId actor documentId same).mpr ⟨fetchable,rfl⟩
        cases bytes : storedBytes d organizationId artifact with
        | none => exact ⟨_,bindOk.mpr ⟨_,read,by rw [bytes]⟩⟩
        | some body => exact ⟨_,bindOk.mpr ⟨_,read,by rw [bytes]⟩⟩
  · simp [final]

variable (sha256Hex store) in
theorem documentReturns {actor : Option (RequestActor OpaqueId)} (permitted : Permitted organizationId actor) {documentId : OpaqueId}
    (known : (d.tables.findById organizationId documentId).isSome = true) (state : σ) :
    (∃ report, (verifyDocument sha256Hex store d organizationId actor documentId state).1 = .ok report) ↔
      Readable d organizationId documentId := by
  have admitted : admitCaller (d.verify organizationId actor documentId)
      ⟨organizationId,documentId,actor.map RequestActor.type⟩ = .ok () := by
    unfold admitCaller
    cases actor with
    | none => exact thenOk.mpr ⟨rfl,checkOk.mpr known⟩
    | some caller => exact thenOk.mpr ⟨authorizeCaller.trans (permitted caller rfl),checkOk.mpr known⟩
  rw [verifyDocument,chainReturns (fun _ => rfl),and_iff_right admitted]
  exact forall₂_congr (fun event _ => artifactReturns rfl)

theorem listedKnown {document : DocumentRow} (listed : document ∈ d.tables.listByOrganization organizationId) :
    document ∈ d.tables.documents ∧ document.organizationId = organizationId ∧
      ∀ documentId : OpaqueId, documentId.text = document.id → (d.tables.findById organizationId documentId).isSome = true := by
  rw [AuditTables.listByOrganization,List.mem_insertionSort,List.mem_filter,decide_eq_true_eq] at listed
  refine ⟨listed.1,listed.2,fun documentId named => List.find?_isSome.mpr ⟨document,listed.1,?_⟩⟩
  simp [listed.2,named]

theorem opaqueIff {value : Utf16} {id : OpaqueId} : opaqueId? value = some id ↔ id.text = value := by
  constructor
  · intro found
    unfold opaqueId? at found
    split at found <;> cases found
    rfl
  · rintro rfl
    exact opaqueIdText id

variable (d organizationId) in
/-- The id of the row is one that can be looked up, and no read raises. -/
def Listable (id : Utf16) : Prop := ∃ documentId : OpaqueId, documentId.text = id ∧ Readable d organizationId documentId

/- A report is about the document that was to be verified, and ok when it has no failure. -/
theorem reportNames {actor : Option (RequestActor OpaqueId)} {documentId : OpaqueId} {state : σ} {report : AuditVerificationReport}
    (ran : (verifyDocument sha256Hex store d organizationId actor documentId state).1 = .ok report) :
    report.organizationId = organizationId ∧ report.documentId = documentId ∧ report.ok = report.failures.isEmpty := by
  rw [verifyDocument,verifyAuditChain] at ran
  split at ran
  · cases ran
  · split at ran
    · rw [published ran]
      exact ⟨rfl,rfl,rfl⟩
    · split at ran
      · cases ran
      · rw [published ran]
        exact ⟨rfl,rfl,rfl⟩

section
variable {actor : Option (RequestActor OpaqueId)}

theorem listedReported {id : Utf16} {state : σ} {report : AuditVerificationReport}
    (ran : (verifyListed sha256Hex store d organizationId actor id state).1 = .ok report) :
    report.documentId.text = id ∧ (verifyDocument sha256Hex store d organizationId actor report.documentId state).1 = .ok report := by
  unfold verifyListed at ran
  split at ran
  · rename_i documentId required
    have named := reportNames ran
    rw [named.2.1]
    exact ⟨opaqueIff.mp required,ran⟩
  · obtain ⟨_,-,failed⟩ := bindOk.mp ran
    cases failed

theorem listedReturns (permitted : Permitted organizationId actor) {id : Utf16}
    (known : ∀ documentId : OpaqueId, documentId.text = id → (d.tables.findById organizationId documentId).isSome = true)
    (state : σ) :
    (∃ report, (verifyListed sha256Hex store d organizationId actor id state).1 = .ok report) ↔ Listable d organizationId id := by
  constructor
  · rintro ⟨report,ran⟩
    obtain ⟨named,ran⟩ := listedReported ran
    exact ⟨_,named,(documentReturns sha256Hex store permitted (known _ named) state).mp ⟨report,ran⟩⟩
  · rintro ⟨documentId,named,readable⟩
    rw [verifyListed,opaqueIff.mpr named]
    exact (documentReturns sha256Hex store permitted (known _ named) state).mpr readable

theorem documentsReturn (permitted : Permitted organizationId actor) {documents : List Utf16}
    (known : ∀ id ∈ documents, ∀ documentId : OpaqueId, documentId.text = id →
      (d.tables.findById organizationId documentId).isSome = true) {state : σ} :
    (verifyDocuments sha256Hex store d organizationId actor documents state).result = .ok () ↔
      ∀ id ∈ documents, Listable d organizationId id := by
  induction documents generalizing state with
  | nil => simp [verifyDocuments]
  | cons id rest ih =>
    obtain ⟨here,known⟩ := List.forall_mem_cons.mp known
    rw [List.forall_mem_cons,← listedReturns permitted here state,verifyDocuments]
    rcases ran : verifyListed sha256Hex store d organizationId actor id state with ⟨error | report,after⟩
    · simp
    · simpa using ih known

theorem documentsNamed {documents : List Utf16} {state : σ}
    (ran : (verifyDocuments sha256Hex store d organizationId actor documents state).result = .ok ()) :
    (verifyDocuments sha256Hex store d organizationId actor documents state).reports.map (fun report => report.documentId.text) =
      documents := by
  induction documents generalizing state with
  | nil => rfl
  | cons id rest ih =>
    rw [verifyDocuments] at ran ⊢
    rcases here : verifyListed sha256Hex store d organizationId actor id state with ⟨error | report,after⟩
    · rw [here] at ran
      cases ran
    · rw [here] at ran
      have named := listedReported (congrArg Prod.fst here)
      simp only [List.map_cons,named.1,ih ran]

theorem documentsReported {documents : List Utf16} {state : σ} {report : AuditVerificationReport}
    (mem : report ∈ (verifyDocuments sha256Hex store d organizationId actor documents state).reports) :
    report.documentId.text ∈ documents ∧
      ∃ state, (verifyDocument sha256Hex store d organizationId actor report.documentId state).1 = .ok report := by
  induction documents generalizing state with
  | nil => cases mem
  | cons id rest ih =>
    rw [verifyDocuments] at mem
    rcases here : verifyListed sha256Hex store d organizationId actor id state with ⟨error | first,after⟩
    · rw [here] at mem
      cases mem
    · rw [here] at mem
      rcases List.mem_cons.mp mem with rfl | later
      · obtain ⟨named,ran⟩ := listedReported (congrArg Prod.fst here)
        exact ⟨named ▸ List.mem_cons_self,state,ran⟩
      · obtain ⟨otherMem,ran⟩ := ih later
        exact ⟨List.mem_cons_of_mem _ otherMem,ran⟩

end

/-! Damaged bytes are found, where the sweep gets to them. -/

section

variable (d organizationId)

/-- A digest is recorded for the document: it has a finalized event, or an artifact. -/
def DigestRecorded (documentId : OpaqueId) : Prop :=
  (∃ event ∈ d.tables.listByDocument organizationId documentId, event.type = .documentFinalized) ∨
    ∃ artifact, d.tables.findByDocument organizationId documentId = some artifact

/-- There are no bytes of the digests that the artifact and the finalized events record. -/
def Damaged (documentId : OpaqueId) : Prop :=
  DigestRecorded d organizationId documentId ∧
    ¬ ∃ artifact body, d.tables.findByDocument organizationId documentId = some artifact ∧
      storedBytes d organizationId artifact = some body ∧ d.sha256Body body = artifact.sha256Digest ∧
      ∀ event ∈ d.tables.listByDocument organizationId documentId, event.type = .documentFinalized →
        ∀ digest, finalizedSha256 event = some digest → d.sha256Body body = digest

/-- An artifact that no finalized event tells of has its bytes. -/
def Vouched (documentId : OpaqueId) : Prop :=
  ∀ artifact, d.tables.findByDocument organizationId documentId = some artifact →
    (∃ event ∈ d.tables.listByDocument organizationId documentId, event.type = .documentFinalized) ∨
      ∃ body, storedBytes d organizationId artifact = some body ∧ d.sha256Body body = artifact.sha256Digest

end

theorem Damaged.event {documentId : OpaqueId} (damaged : Damaged d organizationId documentId)
    (vouched : Vouched d organizationId documentId) :
    ∃ event ∈ d.tables.listByDocument organizationId documentId, event.type = .documentFinalized ∧
      ¬ ∃ artifact body, d.tables.findByDocument organizationId documentId = some artifact ∧
        storedBytes d organizationId artifact = some body ∧ d.sha256Body body = artifact.sha256Digest ∧
        ∀ digest, finalizedSha256 event = some digest → d.sha256Body body = digest := by
  obtain ⟨recorded,lost⟩ := damaged
  by_contra none
  have each : ∀ event ∈ d.tables.listByDocument organizationId documentId, event.type = .documentFinalized →
      ∃ artifact body, d.tables.findByDocument organizationId documentId = some artifact ∧
        storedBytes d organizationId artifact = some body ∧ d.sha256Body body = artifact.sha256Digest ∧
        ∀ digest, finalizedSha256 event = some digest → d.sha256Body body = digest := by
    intro event mem final
    by_contra odd
    exact none ⟨event,mem,final,odd⟩
  have told : ∃ artifact body, d.tables.findByDocument organizationId documentId = some artifact ∧
      storedBytes d organizationId artifact = some body ∧ d.sha256Body body = artifact.sha256Digest := by
    rcases recorded with ⟨event,mem,final⟩ | ⟨artifact,row⟩
    · obtain ⟨artifact,body,row,stored,bytes,-⟩ := each event mem final
      exact ⟨artifact,body,row,stored,bytes⟩
    · rcases vouched artifact row with ⟨event,mem,final⟩ | ⟨body,stored,bytes⟩
      · obtain ⟨artifact,body,row,stored,bytes,-⟩ := each event mem final
        exact ⟨artifact,body,row,stored,bytes⟩
      · exact ⟨artifact,body,row,stored,bytes⟩
  obtain ⟨artifact,body,row,stored,bytes⟩ := told
  refine lost ⟨artifact,body,row,stored,bytes,fun event mem final digest named => ?_⟩
  obtain ⟨other,body',row',stored',-,digests⟩ := each event mem final
  cases row.symm.trans row'
  cases stored.symm.trans stored'
  exact digests digest named

theorem damagedReported {actor : Option (RequestActor OpaqueId)} {documentId : OpaqueId} {state : σ} {report : AuditVerificationReport}
    (ran : (verifyDocument sha256Hex store d organizationId actor documentId state).1 = .ok report)
    (vouched : Vouched d organizationId documentId)
    (damaged : Damaged d organizationId documentId) : ∃ item ∈ report.failures, item.code ∈ artifactCodes := by
  obtain ⟨event,eventMem,final,lost⟩ := damaged.event vouched
  have some' : (d.verify organizationId actor documentId).events ≠ [] := List.ne_nil_of_mem eventMem
  obtain ⟨found,run⟩ := verified (Prod.ext ran rfl) some'
  obtain ⟨failures,here⟩ := eventsReturn.mp ⟨found,run.events⟩ event (List.mem_insertionSort _ |>.mpr eventMem)
  have nonempty : failures ≠ [] := by
    rintro rfl
    obtain ⟨artifact,body,row,recorded,read,bytes⟩ := eventArtifactNil.mp here final
    have stored := ((fetchIff d organizationId actor documentId rfl).mp read).2
    exact lost ⟨artifact,body,row,stored.symm,bytes,fun digest named => bytes.trans (recorded digest named)⟩
  obtain ⟨item,itemMem⟩ := List.exists_mem_of_ne_nil failures nonempty
  have listed : item ∈ allFailures store (d.verify organizationId actor documentId)
      ⟨organizationId,documentId,actor.map RequestActor.type⟩ state found :=
    List.mem_append_left _ (List.mem_append_right _
      (eventsFound run.events (List.mem_insertionSort _ |>.mpr eventMem) here itemMem))
  obtain ⟨other,otherMem,same⟩ := (dedupeCode _ item.code).mpr ⟨item,listed,rfl⟩
  rw [eventArtifact,if_pos final] at here
  refine ⟨other,?_,same ▸ artifactListed here item itemMem⟩
  rw [run.returned]
  exact otherMem

/-! Without a finalized event nothing is said of an artifact. -/

theorem chainApart {failures : List AuditVerificationFailure} (listed : ∀ item ∈ failures, item.code ∈ chainCodes) :
    Free artifactCodes failures := by
  intro item mem
  have apart : ∀ code ∈ chainCodes, code ∉ artifactCodes := by decide
  exact apart _ (listed item mem)

theorem eventApart {sha256Hex : Utf16 → Utf16} {input : VerifyAuditChainInput} {before : Option AuditEvent} {event : AuditEvent} :
    Free artifactCodes (eventFailures sha256Hex input before event) := by
  have payload : Free artifactCodes (payloadFailures input event) := by
    intro item mem
    rw [payloadCode item mem]
    decide
  exact freeAppend.mpr ⟨freeAppend.mpr ⟨freeAppend.mpr ⟨chainApart versionListed,chainApart linkListed⟩,payload⟩,chainApart hashListed⟩

theorem eventsApart {sha256Hex : Utf16 → Utf16} {deps : VerifyDeps} {input : VerifyAuditChainInput} {before : Option AuditEvent}
    {events : List AuditEvent} {found : List AuditVerificationFailure}
    (unlogged : ∀ event ∈ events, event.type ≠ .documentFinalized)
    (run : verifyEvents sha256Hex deps input before events = .ok found) : Free artifactCodes found := by
  induction events generalizing before found with
  | nil =>
    cases run
    exact freeNil _
  | cons event rest ih =>
    obtain ⟨here,unlogged⟩ := List.forall_mem_cons.mp unlogged
    obtain ⟨artifact,checked,run⟩ := bindOk.mp run
    obtain ⟨others,next,last⟩ := bindOk.mp run
    cases last
    rw [eventArtifact,if_neg here] at checked
    cases checked
    exact freeAppend.mpr ⟨freeAppend.mpr ⟨eventApart,freeNil _⟩,ih unlogged next⟩

theorem checkpointApart {deps : VerifyDeps} {input : VerifyAuditChainInput} {state : σ} :
    Free artifactCodes (compareCheckpoint store deps input state).1 := by
  intro item mem
  rw [checkpointCode item mem]
  decide

theorem unloggedSilent {actor : Option (RequestActor OpaqueId)} {documentId : OpaqueId} {state : σ} {report : AuditVerificationReport}
    (unlogged : ∀ event ∈ d.tables.listByDocument organizationId documentId, event.type ≠ .documentFinalized)
    (ran : (verifyDocument sha256Hex store d organizationId actor documentId state).1 = .ok report) :
    Free artifactCodes report.failures := by
  by_cases empty : (d.verify organizationId actor documentId).events = []
  · unfold verifyDocument verifyAuditChain at ran
    rw [if_pos empty] at ran
    split at ran
    · cases ran
    · rw [published ran]
      intro item mem
      rw [List.mem_singleton.mp mem]
      simp [failure,artifactCodes]
  · obtain ⟨found,run⟩ := verified (Prod.ext ran rfl) empty
    rw [run.returned]
    refine freeDedupe.mpr (freeAppend.mpr ⟨freeAppend.mpr ⟨chainApart sequencesListed,?_⟩,checkpointApart⟩)
    exact eventsApart (fun event mem => unlogged event (List.mem_insertionSort _ |>.mp mem)) run.events

theorem failedAlert {actor : Option (RequestActor OpaqueId)} {documentId : OpaqueId} {state : σ} {report : AuditVerificationReport}
    (ran : (verifyDocument sha256Hex store d organizationId actor documentId state).1 = .ok report)
    {item : AuditVerificationFailure} (mem : item ∈ report.failures) :
    ∃ alert, report.alert = some alert ∧ alert.documentId = report.documentId ∧ item.code ∈ alert.failureCodes := by
  have failed : report.ok = false := by
    rw [(reportNames ran).2.2,List.isEmpty_eq_false_iff]
    exact List.ne_nil_of_mem mem
  rw [AuditVerificationReport.alert,failed]
  exact ⟨_,rfl,rfl,List.mem_map_of_mem mem⟩

theorem sweptAll {actor : Option (RequestActor OpaqueId)} (permitted : Permitted organizationId actor) :
    sweptDocuments d organizationId actor none = .ok ((d.tables.listByOrganization organizationId).map DocumentRow.id) := by
  unfold sweptDocuments
  cases actor with
  | none => rfl
  | some caller => exact thenOk.mpr ⟨authorizeCaller.trans (permitted caller rfl),rfl⟩

variable (sha256Hex store) in
theorem sweepReturns {actor : Option (RequestActor OpaqueId)} (permitted : Permitted organizationId actor) (state : σ) :
    (verifyDocuments sha256Hex store d organizationId actor
        ((d.tables.listByOrganization organizationId).map DocumentRow.id) state).result = .ok () ↔
      ∀ document ∈ d.tables.listByOrganization organizationId, Listable d organizationId document.id := by
  have known : ∀ id ∈ (d.tables.listByOrganization organizationId).map DocumentRow.id, ∀ documentId : OpaqueId,
      documentId.text = id → (d.tables.findById organizationId documentId).isSome = true := by
    rw [List.forall_mem_map]
    exact fun document listed => (listedKnown listed).2.2
  rw [documentsReturn permitted known,List.forall_mem_map]

variable (sha256Hex store d) in
theorem sweepLoop {actor : Option (RequestActor OpaqueId)} (permitted : Permitted organizationId actor) (state : σ) :
    let sweep := verifyDocuments sha256Hex store d organizationId actor
      ((d.tables.listByOrganization organizationId).map DocumentRow.id) state
    verifyOrganizationAuditChains sha256Hex store d organizationId actor none state =
      ⟨sweep.reports,sweep.result.map (fun _ => organizationReport d organizationId sweep.reports),sweep.state⟩ := by
  rw [verifyOrganizationAuditChains,sweptAll permitted]

theorem returnedReports {actor : Option (RequestActor OpaqueId)} {documentId : Option OpaqueId} {state : σ}
    {report : OrganizationAuditVerificationReport}
    (returned : (verifyOrganizationAuditChains sha256Hex store d organizationId actor documentId state).result = .ok report) :
    report.reports = (verifyOrganizationAuditChains sha256Hex store d organizationId actor documentId state).reports := by
  unfold verifyOrganizationAuditChains at returned ⊢
  split at returned
  · cases returned
  · next documents _ =>
    simp only at returned ⊢
    cases ran : (verifyDocuments sha256Hex store d organizationId actor documents state).result with
    | error error =>
      rw [ran] at returned
      cases returned
    | ok done =>
      rw [ran] at returned
      rw [← Except.ok.inj returned]
      rfl

variable (sha256Hex store d organizationId) in
/-- One report for every document, and damaged bytes are reported and alerted. -/
structure FaultIsolated (actor : Option (RequestActor OpaqueId)) (state : σ) (report : OrganizationAuditVerificationReport) : Prop where
  returned : (verifyOrganizationAuditChains sha256Hex store d organizationId actor none state).result = .ok report
  reports : report.reports.map (fun found => found.documentId.text) =
    (d.tables.listByOrganization organizationId).map DocumentRow.id
  damaged : ∀ document ∈ d.tables.listByOrganization organizationId, ∀ documentId : OpaqueId, documentId.text = document.id →
    Damaged d organizationId documentId →
    ∃ found ∈ report.reports, found.documentId = documentId ∧
      ∃ item ∈ found.failures, item.code ∈ artifactCodes ∧
        ∃ alert ∈ (verifyOrganizationAuditChains sha256Hex store d organizationId actor none state).alerts,
          alert.documentId = documentId ∧ item.code ∈ alert.failureCodes

theorem sameText {left right : OpaqueId} (same : left.text = right.text) : left = right := by
  cases left
  cases right
  cases same
  rfl

variable (sha256Hex store) in
theorem listedRun {actor : Option (RequestActor OpaqueId)} (permitted : Permitted organizationId actor) (state : σ)
    (listable : ∀ document ∈ d.tables.listByOrganization organizationId, Listable d organizationId document.id) :
    ∃ report, (verifyOrganizationAuditChains sha256Hex store d organizationId actor none state).result = .ok report ∧
      report.reports.map (fun found => found.documentId.text) =
        (d.tables.listByOrganization organizationId).map DocumentRow.id := by
  have returned := (sweepReturns sha256Hex store permitted state).mpr listable
  have run := sweepLoop sha256Hex store d permitted state
  simp only [returned,Except.map] at run
  exact ⟨_,by rw [run],documentsNamed returned⟩

theorem reportedBy {actor : Option (RequestActor OpaqueId)} (permitted : Permitted organizationId actor) {state : σ}
    {found : AuditVerificationReport}
    (mem : found ∈ (verifyOrganizationAuditChains sha256Hex store d organizationId actor none state).reports) :
    ∃ state', (verifyDocument sha256Hex store d organizationId actor found.documentId state').1 = .ok found := by
  rw [sweepLoop sha256Hex store d permitted] at mem
  exact (documentsReported mem).2

variable (sha256Hex store) in
theorem isolatedReadable {actor : Option (RequestActor OpaqueId)} (permitted : Permitted organizationId actor) (state : σ)
    (listable : ∀ document ∈ d.tables.listByOrganization organizationId, Listable d organizationId document.id)
    (vouched : ∀ document ∈ d.tables.listByOrganization organizationId, ∀ documentId : OpaqueId,
      documentId.text = document.id → Vouched d organizationId documentId) :
    ∃ report, FaultIsolated sha256Hex store d organizationId actor state report := by
  obtain ⟨report,returned,named⟩ := listedRun sha256Hex store permitted state listable
  refine ⟨report,returned,named,fun document listed documentId text damaged => ?_⟩
  have mem : document.id ∈ (d.tables.listByOrganization organizationId).map DocumentRow.id := List.mem_map_of_mem listed
  rw [← named] at mem
  obtain ⟨found,foundMem,same⟩ := List.mem_map.mp mem
  obtain rfl := sameText (text.trans same.symm)
  have reported := returnedReports returned ▸ foundMem
  obtain ⟨state',ran⟩ := reportedBy permitted reported
  obtain ⟨item,itemMem,listed'⟩ := damagedReported ran (vouched document listed _ text) damaged
  obtain ⟨alert,sent,about,code⟩ := failedAlert ran itemMem
  exact ⟨found,foundMem,rfl,item,itemMem,listed',alert,List.mem_filterMap.mpr ⟨found,reported,sent⟩,about,code⟩

theorem readableIsolated {actor : Option (RequestActor OpaqueId)} (permitted : Permitted organizationId actor) {state : σ}
    {report : OrganizationAuditVerificationReport}
    (isolated : FaultIsolated sha256Hex store d organizationId actor state report) :
    ∀ document ∈ d.tables.listByOrganization organizationId, Listable d organizationId document.id := by
  have returned := isolated.returned
  rw [sweepLoop sha256Hex store d permitted] at returned
  rw [← sweepReturns sha256Hex store permitted state]
  simp only at returned
  cases ran : (verifyDocuments sha256Hex store d organizationId actor
      ((d.tables.listByOrganization organizationId).map DocumentRow.id) state).result with
  | ok done => rfl
  | error error =>
    rw [ran] at returned
    cases returned

theorem vouchedIsolated {actor : Option (RequestActor OpaqueId)} (permitted : Permitted organizationId actor) {state : σ}
    {report : OrganizationAuditVerificationReport}
    (isolated : FaultIsolated sha256Hex store d organizationId actor state report) {document : DocumentRow}
    (listed : document ∈ d.tables.listByOrganization organizationId) {documentId : OpaqueId}
    (text : documentId.text = document.id) : Vouched d organizationId documentId := by
  intro artifact row
  by_contra neither
  obtain ⟨unlogged,lost⟩ := not_or.mp neither
  have damaged : Damaged d organizationId documentId := by
    refine ⟨.inr ⟨artifact,row⟩,?_⟩
    rintro ⟨other,body,row',stored,bytes,-⟩
    cases row.symm.trans row'
    exact lost ⟨body,stored,bytes⟩
  obtain ⟨found,foundMem,rfl,item,itemMem,code,-⟩ := isolated.damaged document listed documentId text damaged
  obtain ⟨state',ran⟩ := reportedBy permitted (returnedReports isolated.returned ▸ foundMem)
  exact unloggedSilent (fun event mem final => unlogged ⟨event,mem,final⟩) ran item itemMem code

theorem faultIsolatedIff {actor : Option (RequestActor OpaqueId)} (permitted : Permitted organizationId actor) (state : σ) :
    (∃ report, FaultIsolated sha256Hex store d organizationId actor state report) ↔
      ∀ document ∈ d.tables.listByOrganization organizationId,
        ∃ documentId : OpaqueId, documentId.text = document.id ∧ Readable d organizationId documentId ∧
          Vouched d organizationId documentId := by
  constructor
  · rintro ⟨report,isolated⟩ document listed
    obtain ⟨documentId,text,readable⟩ := readableIsolated permitted isolated document listed
    exact ⟨documentId,text,readable,vouchedIsolated permitted isolated listed text⟩
  · intro all
    refine isolatedReadable sha256Hex store permitted state (fun document listed => ?_) (fun document listed documentId text => ?_)
    · obtain ⟨documentId,text,readable,-⟩ := all document listed
      exact ⟨documentId,text,readable⟩
    · obtain ⟨other,text',-,vouched⟩ := all document listed
      rwa [sameText (text.trans text'.symm)]

end

/-! The bytes are exchanged while the metadata keep the digest of the old ones. -/

/-- The SHA-256 of the byte 1, and of no byte. -/
def oneByteDigest : Utf16 := utf16 "4bf5122f344554c53bde2ebb8cd2b7e3d1600ad631c385a5d7cce23c7785459a"

def emptyDigest : Utf16 := utf16 "e3b0c44298fc1c149afbf4c8996fb92427ae41e4649b934ca495991b7852b855"

def finalizedEvent : AuditEvent where
  id := CreatedAndSent.document
  organizationId := CreatedAndSent.organization
  documentId := CreatedAndSent.document
  sequence := 0
  type := .documentFinalized
  actorType := .worker
  actorId := utf16 "worker"
  occurredAt := some 0
  payload := ⟨.object [(utf16 "finalizedSha256",.string oneByteDigest)],by decide⟩
  previousEventHash := genesisPreviousEventHash
  eventHash := genesisPreviousEventHash
  chainVersion := 1

def exchangedBytes : SweepDeps where
  tables := ⟨[CreatedAndSent.organization],[⟨CreatedAndSent.document.text,CreatedAndSent.organization,0⟩],[finalizedEvent],
    [⟨CreatedAndSent.organization,CreatedAndSent.document,⟨contentKey CreatedAndSent.organization oneByteDigest,oneByteDigest⟩⟩]⟩
  bucket key := if key = contentKey CreatedAndSent.organization oneByteDigest then some ⟨[],some oneByteDigest⟩ else none
  sha256Body body := if body = [] then emptyDigest else oneByteDigest
  readings _ := (0,0)
  checkedAt _ := 0

theorem exchangedAborts : ¬ ∀ (sha256Hex : Utf16 → Utf16) (d : SweepDeps) (organizationId : OpaqueId) (actor : Option (RequestActor OpaqueId)),
    Permitted organizationId actor →
      ∃ report, FaultIsolated sha256Hex MemoryCheckpointStore.store d organizationId actor [] report := by
  intro isolated
  obtain ⟨report,isolated⟩ := isolated (fun _ => genesisPreviousEventHash) exchangedBytes CreatedAndSent.organization none
    (fun _ none => by cases none)
  have listed : ⟨CreatedAndSent.document.text,CreatedAndSent.organization,0⟩ ∈ exchangedBytes.tables.listByOrganization CreatedAndSent.organization := by
    rw [AuditTables.listByOrganization,List.mem_insertionSort]
    exact List.mem_filter.mpr ⟨List.mem_cons_self,by decide⟩
  have logged : finalizedEvent ∈ exchangedBytes.tables.listByDocument CreatedAndSent.organization CreatedAndSent.document := by
    rw [AuditTables.listByDocument,sortEvents,List.mem_insertionSort]
    exact List.mem_filter.mpr ⟨List.mem_cons_self,by decide⟩
  obtain ⟨documentId,text,readable⟩ := readableIsolated (fun _ none => by cases none) isolated _ listed
  obtain rfl := sameText text
  have fetchable := readable finalizedEvent logged rfl _ rfl
  exact absurd (fetchable.unspoiled ⟨[],some oneByteDigest⟩ (by decide) oneByteDigest rfl) (by decide)

theorem exchangedIsolatedIff :
    (∃ report, FaultIsolated (fun _ => genesisPreviousEventHash) MemoryCheckpointStore.store exchangedBytes CreatedAndSent.organization
      (some .system) [] report) ↔
    ∀ document ∈ exchangedBytes.tables.listByOrganization CreatedAndSent.organization,
      ∃ documentId : OpaqueId, documentId.text = document.id ∧ Readable exchangedBytes CreatedAndSent.organization documentId ∧
        Vouched exchangedBytes CreatedAndSent.organization documentId := faultIsolatedIff systemPermitted []

section
variable {sha256Hex : Utf16 → Utf16} {σ : Type} {store : ImmutableCheckpointStore σ} {d : SweepDeps} {organizationId : OpaqueId}

/-! The scheduled run. -/

theorem organizationsReported {organizations : List OpaqueId} {state : σ} {report : AuditVerificationReport}
    (mem : report ∈ (verifyOrganizations sha256Hex store d organizations state).reports) :
    ∃ organizationId ∈ organizations, ∃ state',
      (verifyDocument sha256Hex store d organizationId (some .system) report.documentId state').1 = .ok report := by
  induction organizations generalizing state with
  | nil => cases mem
  | cons organizationId rest ih =>
    have own : ∀ report ∈ (verifyOrganizationAuditChains sha256Hex store d organizationId (some .system) none state).reports,
        ∃ state', (verifyDocument sha256Hex store d organizationId (some .system) report.documentId state').1 = .ok report :=
      fun report mem => reportedBy systemPermitted mem
    simp only [verifyOrganizations] at mem
    split at mem
    · exact ⟨organizationId,List.mem_cons_self,own report mem⟩
    · rcases List.mem_append.mp mem with here | later
      · exact ⟨organizationId,List.mem_cons_self,own report here⟩
      · obtain ⟨other,otherMem,ran⟩ := ih later
        exact ⟨other,List.mem_cons_of_mem _ otherMem,ran⟩

theorem organizationsCovered {organizations : List OpaqueId}
    (listable : ∀ organizationId ∈ organizations, ∀ document ∈ d.tables.listByOrganization organizationId,
      Listable d organizationId document.id) {state : σ} :
    ∀ organizationId ∈ organizations, ∀ document ∈ d.tables.listByOrganization organizationId,
      ∃ report ∈ (verifyOrganizations sha256Hex store d organizations state).reports,
        report.organizationId = organizationId ∧ report.documentId.text = document.id := by
  induction organizations generalizing state with
  | nil => exact fun _ mem => by cases mem
  | cons first rest ih =>
    obtain ⟨here,others⟩ := List.forall_mem_cons.mp listable
    obtain ⟨report,returned,named⟩ := listedRun sha256Hex store systemPermitted state here
    intro organizationId mem document listed
    simp only [verifyOrganizations,returned]
    rcases List.mem_cons.mp mem with rfl | later
    · have mem : document.id ∈ report.reports.map (fun found => found.documentId.text) := by
        rw [named]
        exact List.mem_map_of_mem listed
      rw [returnedReports returned] at mem
      obtain ⟨found,foundMem,same⟩ := List.mem_map.mp mem
      refine ⟨found,List.mem_append_left _ foundMem,?_,same⟩
      obtain ⟨_,ran⟩ := reportedBy systemPermitted foundMem
      exact (reportNames ran).1
    · obtain ⟨found,foundMem,names⟩ := ih others organizationId later document listed
      exact ⟨found,List.mem_append_right _ foundMem,names⟩

/-- Every document of every organization was verified. -/
def CoversEveryone {α : Type} (d : SweepDeps) (run : Sweep σ α) : Prop :=
  ∀ document ∈ d.tables.documents, ∃ report ∈ run.reports,
    report.organizationId = document.organizationId ∧ report.documentId.text = document.id

theorem coversEveryoneIff (checkedAt : Int) (state : σ) :
    CoversEveryone d (runScheduledAuditVerification sha256Hex store d checkedAt state) ↔
      ∀ document ∈ d.tables.documents, document.organizationId ∈ listOrganizationIds d ∧
        Listable d document.organizationId document.id := by
  have listedOf : ∀ document ∈ d.tables.documents, document ∈ d.tables.listByOrganization document.organizationId := by
    intro document mem
    rw [AuditTables.listByOrganization,List.mem_insertionSort,List.mem_filter]
    exact ⟨mem,by simp⟩
  constructor
  · intro covers document mem
    obtain ⟨report,reportMem,organization,named⟩ := covers document mem
    obtain ⟨organizationId,listed,state',ran⟩ := organizationsReported reportMem
    rw [(reportNames ran).1] at organization
    subst organization
    have known := (listedKnown (listedOf document mem)).2.2 _ named
    exact ⟨listed,_,named,(documentReturns sha256Hex store systemPermitted known state').mp ⟨report,ran⟩⟩
  · intro covered document mem
    have readable : ∀ organizationId ∈ listOrganizationIds d, ∀ document ∈ d.tables.listByOrganization organizationId,
        Listable d organizationId document.id := by
      intro organizationId _ document listed
      obtain ⟨mem,own,-⟩ := listedKnown listed
      rw [← own]
      exact (covered document mem).2
    exact organizationsCovered readable document.organizationId (covered document mem).1 document (listedOf document mem)

end

def numbered (n : Nat) : Utf16 :=
  utf16 "11111111-1111-4111-8111-1111111111" ++ [UInt16.ofNat (48+n/10),UInt16.ofNat (48+n%10)]

def numberedOrganizations : List OpaqueId := (List.range 26).filterMap (fun n => opaqueId? (numbered n))

def lastOrganization : OpaqueId := ⟨numbered 25,by decide +kernel⟩

def twentySix : SweepDeps where
  tables := ⟨numberedOrganizations,[⟨CreatedAndSent.document.text,lastOrganization,0⟩],[],[]⟩
  bucket _ := none
  sha256Body _ := emptyDigest
  readings _ := (0,0)
  checkedAt _ := 0

theorem lastUncovered : ¬ ∀ (sha256Hex : Utf16 → Utf16) (d : SweepDeps) (checkedAt : Int),
    CoversEveryone d (runScheduledAuditVerification sha256Hex MemoryCheckpointStore.store d checkedAt []) := by
  intro covers
  obtain ⟨report,mem,organization,-⟩ := covers (fun _ => genesisPreviousEventHash) twentySix 0
    ⟨CreatedAndSent.document.text,lastOrganization,0⟩ List.mem_cons_self
  obtain ⟨organizationId,listed,_,ran⟩ := organizationsReported mem
  rw [← (reportNames ran).1,organization] at listed
  exact absurd listed (by decide)

end ESign
