import ESign.Repositories
import ESign.Rows

/-! The document repository is written twice: over the rows of the database, where a `where`
clause guards each update, and over a list in memory, where branches do. Here are all
documents of all organizations. Ids are values of the column type; creation and update
times are left out. -/
namespace ESign.DocumentTable

structure DocumentRecord where
  id : Id
  organizationId : Id
  ownerMembershipId : Id
  title : Text
  sourceDisplayName : Option Text
  columns : Document
  deriving DecidableEq, Repr

/-- The rows of other tables that a document row refers to, by organization and id. -/
structure References where
  memberships : List (Id × Id)
  revisions : List (Id × Id)
  deriving DecidableEq, Repr

def isDocument (organizationId documentId : Id) (row : DocumentRecord) : Bool :=
  row.organizationId = organizationId && row.id = documentId

def DocumentRecord.set (row : DocumentRecord) (columns : Document) : DocumentRecord := { row with columns := columns }

def DocumentRecord.withVersion (row : DocumentRecord) (version : Nat) : DocumentRecord :=
  row.set { row.columns with version := version }

/-- The document that is returned, if one is, and the rows. -/
abbrev Result := Except AppError (Option DocumentRecord × List DocumentRecord)

def documentNotFound : AppError := .notFound [("resource","document")]

namespace MemoryDocuments

def create (document : DocumentRecord) (rows : List DocumentRecord) : Result := .ok (some document,rows ++ [document])

section
variable (organizationId documentId : Id)

def bumpDocument (expectedVersion : Nat) (update : DocumentRecord → Except AppError DocumentRecord)
    (rows : List DocumentRecord) : Result :=
  match rows.find? (isDocument organizationId documentId) with
  | none => .error documentNotFound
  | some current => do
      check (current.columns.version = expectedVersion) documentVersion
      let changed ← update current
      let updated := changed.withVersion (current.columns.version+1)
      .ok (some updated,updateFirst (isDocument organizationId documentId) (fun _ => updated) rows)

/-- An update that is guarded by the state alone. -/
def bumpState (expectedVersion : Nat) (states : List DocumentState) (reason : String) (state : DocumentState) :
    List DocumentRecord → Result :=
  bumpDocument organizationId documentId expectedVersion (fun current => do
    check (current.columns.state ∈ states) (.conflict [("reason",reason)])
    .ok (current.set { current.columns with state := state }))

def attachSourceRevision (expectedVersion : Nat) (revisionId : Id) (sourceDisplayName : Text) : List DocumentRecord → Result :=
  bumpDocument organizationId documentId expectedVersion (fun current => .ok
    { current with
      sourceDisplayName := some sourceDisplayName
      columns := { current.columns with currentRevisionId := some revisionId } })

def setInspectionStatus (expectedVersion : Nat) (inspectionStatus : DocumentInspectionStatus) : List DocumentRecord → Result :=
  bumpDocument organizationId documentId expectedVersion (fun current =>
    .ok (current.set { current.columns with inspectionStatus := inspectionStatus }))

def setSigningMode (expectedVersion : Nat) (signingMode : SigningMode) : List DocumentRecord → Result :=
  bumpDocument organizationId documentId expectedVersion (fun current =>
    .ok (current.set { current.columns with signingMode := signingMode }))

def setPreparationState (expectedVersion : Nat) (state : DocumentState) : List DocumentRecord → Result :=
  bumpDocument organizationId documentId expectedVersion (fun current =>
    .ok (current.set { current.columns with state := state }))

def markSent (expectedVersion : Nat) (signingRevisionId : Id) (expiresAt : Option Date) : List DocumentRecord → Result :=
  bumpDocument organizationId documentId expectedVersion (fun current => .ok (current.set
    { current.columns with state := .sent, signingRevisionId := some signingRevisionId, expiresAt := expiresAt }))

def markDeclined (expectedVersion : Nat) : List DocumentRecord → Result :=
  bumpState organizationId documentId expectedVersion [.sent,.inProgress] "document_not_declinable" .declined

def markVoided (expectedVersion : Nat) : List DocumentRecord → Result :=
  bumpState organizationId documentId expectedVersion [.draft,.prepared,.sent,.inProgress] "document_not_voidable" .voided

def markInProgress (expectedVersion : Nat) : List DocumentRecord → Result :=
  bumpState organizationId documentId expectedVersion [.sent,.inProgress] "document_not_in_progress" .inProgress

def markCompleted (expectedVersion : Nat) : List DocumentRecord → Result :=
  bumpState organizationId documentId expectedVersion [.sent,.inProgress] "document_not_completable" .completed

/-- A lease of another owner that has not run out. -/
def leaseTaken (owner : Id) (now : Date) (columns : Document) : Bool :=
  columns.leaseUntil.any (fun leaseUntil => leaseUntil ≥ now) && columns.leaseOwner ≠ some owner

def nextState (state : DocumentState) : DocumentState :=
  if state = .completed ∨ state = .finalizationFailed then .finalizing
  else if state = .sent then .inProgress
  else state

def claimProcessingLease (expectedVersion : Nat) (owner : Id) (leaseUntil now : Date) : List DocumentRecord → Result :=
  bumpDocument organizationId documentId expectedVersion (fun current => do
    check (!leaseTaken owner now current.columns) documentLease
    check (current.columns.state ∈ [.sent,.inProgress,.completed,.finalizationFailed,.finalizing])
      (.conflict [("reason","document_not_flattenable")])
    .ok (current.set
      { current.columns with
        state := nextState current.columns.state
        leaseOwner := some owner
        leaseUntil := some leaseUntil
        finalizationAttemptCount :=
          if nextState current.columns.state = .finalizing then current.columns.finalizationAttemptCount+1
          else current.columns.finalizationAttemptCount }))

def commitFlattenedRevision (expectedVersion : Nat) (owner revisionId : Id) (finalize : Bool) : List DocumentRecord → Result :=
  bumpDocument organizationId documentId expectedVersion (fun current => do
    check (current.columns.leaseOwner = some owner) documentLease
    if finalize then do
      check (current.columns.state ∈ [.finalizing,.completed]) (.conflict [("reason","document_not_finalizable")])
      .ok (current.set
        { current.columns with
          state := .finalized, currentRevisionId := some revisionId, leaseOwner := none, leaseUntil := none })
    else .ok (current.set
      { current.columns with currentRevisionId := some revisionId, leaseOwner := none, leaseUntil := none }))

def markFinalizationFailed (owner : Id) (rows : List DocumentRecord) : Result :=
  match rows.find? (isDocument organizationId documentId) with
  | none => .error documentNotFound
  | some current =>
      if current.columns.leaseOwner ≠ some owner ∧ current.columns.state ≠ .finalizing then .ok (some current,rows)
      else
        let updated := current.set
          { current.columns with
            state := if current.columns.state = .finalizing then .finalizationFailed else current.columns.state
            leaseOwner := none
            leaseUntil := none
            version := current.columns.version+1 }
        .ok (some updated,updateFirst (isDocument organizationId documentId) (fun _ => updated) rows)

def releaseProcessingLease (owner : Id) (rows : List DocumentRecord) : Result :=
  match rows.find? (isDocument organizationId documentId) with
  | none => .ok (none,rows)
  | some current =>
      if current.columns.leaseOwner ≠ some owner then .ok (none,rows)
      else
        let released := current.set
          { current.columns with leaseOwner := none, leaseUntil := none, version := current.columns.version+1 }
        .ok (none,updateFirst (isDocument organizationId documentId) (fun _ => released) rows)

end

end MemoryDocuments

namespace PrismaDocuments

/-- Refused for another organization, by the primary key and by the foreign keys. -/
def create (r : References) (organizationId : Id) (document : DocumentRecord) (rows : List DocumentRecord) : Result := do
  check (document.organizationId = organizationId) (.integrity [("reason","organization_id_mismatch")])
  check (rows.all (fun row => row.id ≠ document.id)) databaseError
  check ((organizationId,document.ownerMembershipId) ∈ r.memberships) databaseError
  check (document.columns.currentRevisionId.all (fun revisionId => (organizationId,revisionId) ∈ r.revisions)) databaseError
  check (document.columns.signingRevisionId.all (fun revisionId => (organizationId,revisionId) ∈ r.revisions)) databaseError
  .ok (some document,rows ++ [document])

section
variable (organizationId documentId : Id)

def requireDocument (rows : List DocumentRecord) : Result :=
  match rows.find? (isDocument organizationId documentId) with
  | none => .error documentNotFound
  | some row => .ok (some row,rows)

/-- `updateMany` that must hit one row, with the foreign keys, and the row read back. -/
def updateRow (clause : Document → Bool) (data : DocumentRecord → DocumentRecord) (refers : Bool) (error : AppError)
    (rows : List DocumentRecord) : Result := do
  let updated ← updateOne (fun row => isDocument organizationId documentId row && clause row.columns)
    (fun row => (data row).withVersion (row.columns.version+1)) error rows
  check refers databaseError
  requireDocument organizationId documentId updated

def attachSourceRevision (r : References) (expectedVersion : Nat) (revisionId : Id) (sourceDisplayName : Text) :
    List DocumentRecord → Result :=
  updateRow organizationId documentId (fun columns => columns.version = expectedVersion)
    (fun row => { row with
      sourceDisplayName := some sourceDisplayName
      columns := { row.columns with currentRevisionId := some revisionId } })
    ((organizationId,revisionId) ∈ r.revisions) documentVersion

def setInspectionStatus (expectedVersion : Nat) (inspectionStatus : DocumentInspectionStatus) : List DocumentRecord → Result :=
  updateRow organizationId documentId (fun columns => columns.version = expectedVersion)
    (fun row => row.set { row.columns with inspectionStatus := inspectionStatus }) true documentVersion

def setSigningMode (expectedVersion : Nat) (signingMode : SigningMode) : List DocumentRecord → Result :=
  updateRow organizationId documentId (fun columns => columns.version = expectedVersion)
    (fun row => row.set { row.columns with signingMode := signingMode }) true documentVersion

def setPreparationState (expectedVersion : Nat) (state : DocumentState) : List DocumentRecord → Result :=
  updateRow organizationId documentId (fun columns => columns.version = expectedVersion)
    (fun row => row.set { row.columns with state := state }) true documentVersion

def markSent (r : References) (expectedVersion : Nat) (signingRevisionId : Id) (expiresAt : Option Date) :
    List DocumentRecord → Result :=
  updateRow organizationId documentId (fun columns => columns.version = expectedVersion)
    (fun row => row.set
      { row.columns with state := .sent, signingRevisionId := some signingRevisionId, expiresAt := expiresAt })
    ((organizationId,signingRevisionId) ∈ r.revisions) documentVersion

/-- An update that is guarded by version and state. -/
def updateState (expectedVersion : Nat) (states : List DocumentState) (state : DocumentState) : List DocumentRecord → Result :=
  updateRow organizationId documentId (fun columns => columns.version = expectedVersion ∧ columns.state ∈ states)
    (fun row => row.set { row.columns with state := state }) true documentVersion

def markDeclined (expectedVersion : Nat) : List DocumentRecord → Result :=
  updateState organizationId documentId expectedVersion [.sent,.inProgress] .declined

def markVoided (expectedVersion : Nat) : List DocumentRecord → Result :=
  updateState organizationId documentId expectedVersion [.draft,.prepared,.sent,.inProgress] .voided

def markInProgress (expectedVersion : Nat) : List DocumentRecord → Result :=
  updateState organizationId documentId expectedVersion [.sent,.inProgress] .inProgress

def markCompleted (expectedVersion : Nat) : List DocumentRecord → Result :=
  updateState organizationId documentId expectedVersion [.sent,.inProgress] .completed

/-- The row is found first, and the next state is computed from what was found. -/
def claimProcessingLease (expectedVersion : Nat) (owner : Id) (leaseUntil now : Date) (rows : List DocumentRecord) : Result :=
  match rows.find? (fun row => isDocument organizationId documentId row &&
      Documents.leasable expectedVersion owner now row.columns) with
  | none => .error documentLease
  | some current =>
      updateRow organizationId documentId
        (fun columns => columns.version = expectedVersion ∧ Documents.leaseFree owner now columns)
        (fun row => row.set
          { row.columns with
            state := Documents.leasedState current.columns.state
            leaseOwner := some owner
            leaseUntil := some leaseUntil
            finalizationAttemptCount :=
              if Documents.leasedState current.columns.state = .finalizing then row.columns.finalizationAttemptCount+1
              else current.columns.finalizationAttemptCount })
        true documentLease rows

def commitFlattenedRevision (r : References) (expectedVersion : Nat) (owner revisionId : Id) (finalize : Bool) :
    List DocumentRecord → Result :=
  updateRow organizationId documentId (fun columns => columns.version = expectedVersion ∧ columns.leaseOwner = some owner)
    (fun row => row.set
      (if finalize then
        { row.columns with state := .finalized, currentRevisionId := some revisionId, leaseOwner := none, leaseUntil := none }
      else { row.columns with currentRevisionId := some revisionId, leaseOwner := none, leaseUntil := none }))
    ((organizationId,revisionId) ∈ r.revisions) documentLease

/-- The owner and the state are both needed, and nothing is said when they are not met. -/
def markFinalizationFailed (owner : Id) (rows : List DocumentRecord) : Result :=
  requireDocument organizationId documentId (updateMany
    (fun row => isDocument organizationId documentId row && row.columns.leaseOwner = some owner &&
      row.columns.state = .finalizing)
    (fun row => row.set
      { row.columns with
        state := .finalizationFailed, leaseOwner := none, leaseUntil := none, version := row.columns.version+1 })
    rows)

def releaseProcessingLease (owner : Id) (rows : List DocumentRecord) : Result :=
  .ok (none,updateMany
    (fun row => isDocument organizationId documentId row && row.columns.leaseOwner = some owner)
    (fun row => row.set { row.columns with leaseOwner := none, leaseUntil := none, version := row.columns.version+1 }) rows)

end

end PrismaDocuments

inductive DocumentOperation where
  | create (organizationId : Id) (document : DocumentRecord)
  | attachSourceRevision (organizationId documentId : Id) (expectedVersion : Nat) (revisionId : Id) (sourceDisplayName : Text)
  | setInspectionStatus (organizationId documentId : Id) (expectedVersion : Nat) (inspectionStatus : DocumentInspectionStatus)
  | setSigningMode (organizationId documentId : Id) (expectedVersion : Nat) (signingMode : SigningMode)
  | setPreparationState (organizationId documentId : Id) (expectedVersion : Nat) (state : DocumentState)
  | markSent (organizationId documentId : Id) (expectedVersion : Nat) (signingRevisionId : Id) (expiresAt : Option Date)
  | markDeclined (organizationId documentId : Id) (expectedVersion : Nat)
  | markVoided (organizationId documentId : Id) (expectedVersion : Nat)
  | markInProgress (organizationId documentId : Id) (expectedVersion : Nat)
  | markCompleted (organizationId documentId : Id) (expectedVersion : Nat)
  | claimProcessingLease (organizationId documentId : Id) (expectedVersion : Nat) (owner : Id) (leaseUntil now : Date)
  | commitFlattenedRevision (organizationId documentId : Id) (expectedVersion : Nat) (owner revisionId : Id) (finalize : Bool)
  | markFinalizationFailed (organizationId documentId : Id) (owner : Id)
  | releaseProcessingLease (organizationId documentId : Id) (owner : Id)

def MemoryDocuments.apply : DocumentOperation → List DocumentRecord → Result
  | .create _ document => create document
  | .attachSourceRevision o d version revisionId name => attachSourceRevision o d version revisionId name
  | .setInspectionStatus o d version status => setInspectionStatus o d version status
  | .setSigningMode o d version signingMode => setSigningMode o d version signingMode
  | .setPreparationState o d version state => setPreparationState o d version state
  | .markSent o d version revisionId expiresAt => markSent o d version revisionId expiresAt
  | .markDeclined o d version => markDeclined o d version
  | .markVoided o d version => markVoided o d version
  | .markInProgress o d version => markInProgress o d version
  | .markCompleted o d version => markCompleted o d version
  | .claimProcessingLease o d version owner leaseUntil now => claimProcessingLease o d version owner leaseUntil now
  | .commitFlattenedRevision o d version owner revisionId finalize => commitFlattenedRevision o d version owner revisionId finalize
  | .markFinalizationFailed o d owner => markFinalizationFailed o d owner
  | .releaseProcessingLease o d owner => releaseProcessingLease o d owner

def PrismaDocuments.apply (r : References) : DocumentOperation → List DocumentRecord → Result
  | .create organizationId document => create r organizationId document
  | .attachSourceRevision o d version revisionId name => attachSourceRevision o d r version revisionId name
  | .setInspectionStatus o d version status => setInspectionStatus o d version status
  | .setSigningMode o d version signingMode => setSigningMode o d version signingMode
  | .setPreparationState o d version state => setPreparationState o d version state
  | .markSent o d version revisionId expiresAt => markSent o d r version revisionId expiresAt
  | .markDeclined o d version => markDeclined o d version
  | .markVoided o d version => markVoided o d version
  | .markInProgress o d version => markInProgress o d version
  | .markCompleted o d version => markCompleted o d version
  | .claimProcessingLease o d version owner leaseUntil now => claimProcessingLease o d version owner leaseUntil now
  | .commitFlattenedRevision o d version owner revisionId finalize =>
      commitFlattenedRevision o d r version owner revisionId finalize
  | .markFinalizationFailed o d owner => markFinalizationFailed o d owner
  | .releaseProcessingLease o d owner => releaseProcessingLease o d owner

/-! When one operation is taken alike. -/

/-- Both refuse, or both accept and leave the same rows. -/
def agree : Result → Result → Prop
  | .ok (_,rows), .ok (_,rows') => rows = rows'
  | .error _, .error _ => True
  | _, _ => False

def DistinctIds (rows : List DocumentRecord) : Prop := (rows.map DocumentRecord.id).Nodup

instance (rows : List DocumentRecord) : Decidable (DistinctIds rows) := inferInstanceAs (Decidable (List.Nodup _))

section
variable {rows : List DocumentRecord} {organizationId documentId : Id}

theorem missingBump (missing : ∀ row ∈ rows, isDocument organizationId documentId row = false) {expectedVersion update} :
    MemoryDocuments.bumpDocument organizationId documentId expectedVersion update rows = .error documentNotFound := by
  have none := List.find?_eq_none.mpr (fun row mem => Bool.eq_false_iff.mp (missing row mem))
  rw [MemoryDocuments.bumpDocument,none]

theorem updateOneMissing {clause : DocumentRecord → Bool} {data error} (none : ∀ row ∈ rows, clause row = false) :
    updateOne clause data error rows = .error error := by
  have zero : rows.countP clause = 0 := List.countP_eq_zero.mpr (fun row mem => Bool.eq_false_iff.mp (none row mem))
  rw [updateOne,zero]
  rfl

theorem missingUpdate (missing : ∀ row ∈ rows, isDocument organizationId documentId row = false) {clause data refers error} :
    PrismaDocuments.updateRow organizationId documentId clause data refers error rows = .error error := by
  rw [PrismaDocuments.updateRow,updateOneMissing (fun row mem => by rw [missing row mem]; rfl)]
  rfl

variable (ids : DistinctIds rows) {current : DocumentRecord} (mem : current ∈ rows)
variable (named : isDocument organizationId documentId current = true)
include ids mem named

theorem onlyDocument {row : DocumentRecord} (other : row ∈ rows) :
    isDocument organizationId documentId row = true ↔ row = current := by
  constructor
  · intro same
    rw [isDocument,Bool.and_eq_true,decide_eq_true_eq,decide_eq_true_eq] at same named
    exact List.inj_on_of_nodup_map ids other mem (same.2.trans named.2.symm)
  · rintro rfl
    exact named

theorem foundDocument : rows.find? (isDocument organizationId documentId) = some current := by
  cases found : rows.find? (isDocument organizationId documentId) with
  | none => exact absurd named (List.find?_eq_none.mp found current mem)
  | some row => rw [(onlyDocument ids mem named (List.mem_of_find?_eq_some found)).mp (List.find?_some found)]

theorem placed (updated : DocumentRecord) : updateFirst (isDocument organizationId documentId) (fun _ => updated) rows =
    updateMany (isDocument organizationId documentId) (fun _ => updated) rows := by
  rw [updateFirstFound ids (foundDocument ids mem named) rfl]
  refine updateManyCongr (fun row other => Bool.eq_iff_iff.mpr ?_)
  rw [onlyDocument ids mem named other,decide_eq_true_eq]
  exact ⟨List.inj_on_of_nodup_map ids other mem,congrArg DocumentRecord.id⟩

theorem bumpFound {expectedVersion update} :
    MemoryDocuments.bumpDocument organizationId documentId expectedVersion update rows = (do
      check (current.columns.version = expectedVersion) documentVersion
      let changed ← update current
      let updated := changed.withVersion (current.columns.version+1)
      .ok (some updated,updateMany (isDocument organizationId documentId) (fun _ => updated) rows)) := by
  rw [MemoryDocuments.bumpDocument,foundDocument ids mem named]
  simp only [placed ids mem named]

omit ids in
theorem requirePlaced (updated : DocumentRecord) (kept : isDocument organizationId documentId updated = true) :
    PrismaDocuments.requireDocument organizationId documentId
        (updateMany (isDocument organizationId documentId) (fun _ => updated) rows) =
      .ok (some updated,updateMany (isDocument organizationId documentId) (fun _ => updated) rows) := by
  have there : updated ∈ updateMany (isDocument organizationId documentId) (fun _ => updated) rows := (updateManyOf mem).1 named
  rw [PrismaDocuments.requireDocument]
  cases found : (updateMany (isDocument organizationId documentId) (fun _ => updated) rows).find?
      (isDocument organizationId documentId) with
  | none => exact absurd kept (List.find?_eq_none.mp found updated there)
  | some row =>
    obtain ⟨old,-,⟨-,rfl⟩ | ⟨miss,rfl⟩⟩ := updateManyMem (List.mem_of_find?_eq_some found)
    · rfl
    · rw [List.find?_some found] at miss
      cases miss

theorem updateManyFound (clause : Document → Bool) (data : DocumentRecord → DocumentRecord) :
    updateMany (fun row => isDocument organizationId documentId row && clause row.columns) data rows =
      if clause current.columns then updateMany (isDocument organizationId documentId) (fun _ => data current) rows
      else rows := by
  have only := fun {row} (other : row ∈ rows) => onlyDocument ids mem named other
  split
  · next hit =>
    refine List.map_congr_left (fun row other => ?_)
    by_cases same : row = current
    · subst same
      simp only [named,hit,Bool.and_self,if_true]
    · have away := Bool.eq_false_iff.mpr (fun found => same ((only other).mp found))
      simp only [away,Bool.false_and,Bool.false_eq_true,if_false]
  · next miss =>
    refine updateManyNone (fun row other => ?_)
    by_cases same : isDocument organizationId documentId row = true
    · rw [(only other).mp same,Bool.eq_false_iff.mpr miss,Bool.and_false]
    · rw [Bool.eq_false_iff.mpr same]
      rfl

theorem searched {clause : Document → Bool} :
    rows.find? (fun row => isDocument organizationId documentId row && clause row.columns) =
      if clause current.columns then some current else none := by
  have only := fun {row} (other : row ∈ rows) => onlyDocument ids mem named other
  cases found : rows.find? (fun row => isDocument organizationId documentId row && clause row.columns) with
  | none =>
    have miss := List.find?_eq_none.mp found current mem
    rw [named,Bool.true_and] at miss
    rw [if_neg miss]
  | some row =>
    have hit : (isDocument organizationId documentId row && clause row.columns) = true :=
      List.find?_some (p := fun row => isDocument organizationId documentId row && clause row.columns) found
    rw [Bool.and_eq_true] at hit
    have same := (only (List.mem_of_find?_eq_some found)).mp hit.1
    subst same
    rw [if_pos hit.2]

theorem updateFound {clause data refers error} (kept : isDocument organizationId documentId (data current) = true) :
    let updated := (data current).withVersion (current.columns.version+1)
    PrismaDocuments.updateRow organizationId documentId clause data refers error rows =
      if clause current.columns then
        if refers then .ok (some updated,updateMany (isDocument organizationId documentId) (fun _ => updated) rows)
        else .error databaseError
      else .error error := by
  intro updated
  have only := fun {row} (other : row ∈ rows) => onlyDocument ids mem named other
  rw [PrismaDocuments.updateRow]
  split
  · next hit =>
    have one : rows.countP (fun row => isDocument organizationId documentId row && clause row.columns) = 1 := by
      rw [List.countP_congr (q := fun row => row == current)
        (fun row other => by rw [Bool.and_eq_true,only other,beq_iff_eq]; exact ⟨And.left,fun same => ⟨same,same ▸ hit⟩⟩)]
      exact List.count_eq_one_of_mem (List.Nodup.of_map _ ids) mem
    have set := updateManyFound ids mem named clause (fun row => (data row).withVersion (row.columns.version+1))
    rw [if_pos hit] at set
    rw [updateOne,if_pos one]
    cases refers with
    | true =>
      show PrismaDocuments.requireDocument organizationId documentId (updateMany _ _ rows) = _
      rw [set]
      exact requirePlaced mem named _ kept
    | false => rfl
  · next miss =>
    rw [updateOneMissing (fun row other => ?_)]
    · rfl
    · by_cases same : isDocument organizationId documentId row = true
      · rw [(only other).mp same,Bool.eq_false_iff.mpr miss,Bool.and_false]
      · rw [Bool.eq_false_iff.mpr same]
        rfl

theorem bumpAgree {expectedVersion : Nat} {update clause} {data : DocumentRecord → DocumentRecord} {refers : Bool} {error}
    (guard : Bool) (accepts : guard = true → update current = .ok (data current))
    (refuses : guard = false → ∃ e, update current = .error e)
    (kept : isDocument organizationId documentId (data current) = true) :
    agree (MemoryDocuments.bumpDocument organizationId documentId expectedVersion update rows)
        (PrismaDocuments.updateRow organizationId documentId clause data refers error rows) ↔
      ((current.columns.version = expectedVersion ∧ guard = true) ↔ (clause current.columns = true ∧ refers = true)) := by
  rw [bumpFound ids mem named,updateFound ids mem named kept]
  by_cases version : current.columns.version = expectedVersion
  · cases guard with
    | true =>
      rw [accepts rfl]
      cases clause current.columns <;> cases refers <;> simp [version,check,agree,bind,Except.bind]
    | false =>
      obtain ⟨e,refused⟩ := refuses rfl
      rw [refused]
      cases clause current.columns <;> cases refers <;> simp [version,check,agree,bind,Except.bind]
  · cases clause current.columns <;> cases refers <;> simp [version,check,agree,bind,Except.bind]

end

theorem missingAgree {rows : List DocumentRecord} {organizationId documentId : Id}
    (missing : ∀ row ∈ rows, isDocument organizationId documentId row = false) {expectedVersion update clause data refers error} :
    agree (MemoryDocuments.bumpDocument organizationId documentId expectedVersion update rows)
      (PrismaDocuments.updateRow organizationId documentId clause data refers error rows) := by
  rw [missingBump missing,missingUpdate missing]
  trivial

theorem agreeCases {rows : List DocumentRecord} {organizationId documentId : Id} {x y : Result} {P : DocumentRecord → Prop}
    (ids : DistinctIds rows) (missing : (∀ row ∈ rows, isDocument organizationId documentId row = false) → agree x y)
    (found : ∀ current ∈ rows, isDocument organizationId documentId current = true → (agree x y ↔ P current)) :
    agree x y ↔ ∀ row ∈ rows, isDocument organizationId documentId row = true → P row := by
  by_cases exists' : ∃ current ∈ rows, isDocument organizationId documentId current = true
  · obtain ⟨current,mem,named⟩ := exists'
    rw [found current mem named]
    constructor
    · intro holds row other same
      rw [(onlyDocument ids mem named other).mp same]
      exact holds
    · intro all
      exact all current mem named
  · have none : ∀ row ∈ rows, isDocument organizationId documentId row = false :=
      fun row mem => Bool.eq_false_iff.mpr (fun same => exists' ⟨row,mem,same⟩)
    refine ⟨fun _ row mem same => ?_,fun _ => missing none⟩
    rw [none row mem] at same
    cases same

/-- What an operation needs for the two repositories to take it alike. -/
def Fits (r : References) (rows : List DocumentRecord) : DocumentOperation → Prop
  | .create organizationId document =>
      document.organizationId = organizationId ∧ (∀ row ∈ rows, row.id ≠ document.id) ∧
        (organizationId,document.ownerMembershipId) ∈ r.memberships ∧
        (∀ revisionId ∈ document.columns.currentRevisionId, (organizationId,revisionId) ∈ r.revisions) ∧
        (∀ revisionId ∈ document.columns.signingRevisionId, (organizationId,revisionId) ∈ r.revisions)
  | .attachSourceRevision organizationId documentId expectedVersion revisionId _ =>
      ∀ row ∈ rows, isDocument organizationId documentId row = true → row.columns.version = expectedVersion →
        (organizationId,revisionId) ∈ r.revisions
  | .markSent organizationId documentId expectedVersion signingRevisionId _ =>
      ∀ row ∈ rows, isDocument organizationId documentId row = true → row.columns.version = expectedVersion →
        (organizationId,signingRevisionId) ∈ r.revisions
  | .commitFlattenedRevision organizationId documentId expectedVersion owner revisionId finalize =>
      ∀ row ∈ rows, isDocument organizationId documentId row = true → row.columns.version = expectedVersion →
        row.columns.leaseOwner = some owner →
          ((finalize = true → row.columns.state ∈ [.finalizing,.completed]) ↔ (organizationId,revisionId) ∈ r.revisions)
  | .markFinalizationFailed organizationId documentId owner =>
      ∀ row ∈ rows, isDocument organizationId documentId row = true →
        (row.columns.leaseOwner = some owner ↔ row.columns.state = .finalizing)
  | _ => True

theorem bumped {rows : List DocumentRecord} {organizationId documentId : Id} (ids : DistinctIds rows) {current : DocumentRecord}
    (mem : current ∈ rows) (named : isDocument organizationId documentId current = true) {columns : Document}
    (newer : columns.version = current.columns.version+1) :
    updateMany (isDocument organizationId documentId) (fun _ => current.set columns) rows ≠ rows := by
  intro same
  have there : current.set columns ∈ rows := same ▸ (updateManyOf mem).1 named
  have unchanged := congrArg (fun row => row.columns.version) ((onlyDocument ids mem named there).mp named)
  simp [DocumentRecord.set,newer] at unchanged

theorem nextLeased (state : DocumentState) : MemoryDocuments.nextState state = Documents.leasedState state := by
  cases state <;> rfl

theorem takenIff {owner now} {columns : Document} :
    MemoryDocuments.leaseTaken owner now columns = false ↔ Documents.leaseFree owner now columns = true := by
  rw [MemoryDocuments.leaseTaken,Documents.leaseFree]
  cases columns.leaseUntil with
  | none => simp
  | some leaseUntil =>
    by_cases expired : leaseUntil < now
    · simp [expired]
    · simp [expired,Int.not_lt.mp expired]

theorem byDocument (rows : List DocumentRecord) (organizationId documentId : Id) {x y : Result}
    (missing : (∀ row ∈ rows, isDocument organizationId documentId row = false) → agree x y)
    (found : ∀ current ∈ rows, isDocument organizationId documentId current = true → agree x y) : agree x y := by
  by_cases exists' : ∃ current ∈ rows, isDocument organizationId documentId current = true
  · obtain ⟨current,mem,named⟩ := exists'
    exact found current mem named
  · exact missing (fun row mem => Bool.eq_false_iff.mpr (fun same => exists' ⟨row,mem,same⟩))

section
variable {rows : List DocumentRecord} (ids : DistinctIds rows) {organizationId documentId : Id}
include ids

/- An update that only the version guards, and a reference that only the database looks at. -/
theorem versionAgree {expectedVersion : Nat} {data : DocumentRecord → DocumentRecord} {refers : Bool} {error}
    (kept : ∀ row, isDocument organizationId documentId (data row) = isDocument organizationId documentId row) :
    agree (MemoryDocuments.bumpDocument organizationId documentId expectedVersion (fun current => .ok (data current)) rows)
        (PrismaDocuments.updateRow organizationId documentId (fun columns => columns.version = expectedVersion) data refers
          error rows) ↔
      ∀ row ∈ rows, isDocument organizationId documentId row = true → row.columns.version = expectedVersion → refers = true := by
  refine agreeCases ids (fun missing => missingAgree missing) (fun current mem named => ?_)
  rw [bumpAgree ids mem named true (fun _ => rfl) (fun off => by cases off) ((kept current).trans named)]
  by_cases version : current.columns.version = expectedVersion <;> simp [version]

theorem stateAgree {expectedVersion : Nat} {states : List DocumentState} {reason : String} {state : DocumentState} :
    agree (MemoryDocuments.bumpState organizationId documentId expectedVersion states reason state rows)
      (PrismaDocuments.updateState organizationId documentId expectedVersion states state rows) := by
  rw [MemoryDocuments.bumpState,PrismaDocuments.updateState]
  refine byDocument rows organizationId documentId (fun missing => missingAgree missing) (fun current mem named => ?_)
  refine (bumpAgree ids mem named (decide (current.columns.state ∈ states)) (fun allowed => ?_) (fun refused => ?_)
    named).mpr ?_
  · rw [allowed]
    rfl
  · rw [refused]
    exact ⟨_,rfl⟩
  · simp

theorem leaseAgree {expectedVersion : Nat} {owner : Id} {leaseUntil now : Date} :
    agree (MemoryDocuments.claimProcessingLease organizationId documentId expectedVersion owner leaseUntil now rows)
      (PrismaDocuments.claimProcessingLease organizationId documentId expectedVersion owner leaseUntil now rows) := by
  rw [MemoryDocuments.claimProcessingLease,PrismaDocuments.claimProcessingLease]
  refine byDocument rows organizationId documentId (fun missing => ?_) (fun current mem named => ?_)
  · rw [missingBump missing,List.find?_eq_none.mpr (fun row mem => by rw [missing row mem,Bool.false_and]; decide)]
    trivial
  · rw [searched ids mem named]
    by_cases takes : Documents.leasable expectedVersion owner now current.columns = true
    · rw [if_pos takes]
      rw [Documents.leasable,decide_eq_true_eq] at takes
      obtain ⟨version,flattenable,free⟩ := takes
      refine (bumpAgree ids mem named true (fun _ => ?_) (fun off => by cases off) named).mpr ?_
      · rw [takenIff.mpr free,decide_eq_true flattenable]
        simp only [nextLeased]
        rfl
      · simp [version,free]
    · rw [if_neg takes,bumpFound ids mem named]
      by_cases version : current.columns.version = expectedVersion
      · by_cases free : MemoryDocuments.leaseTaken owner now current.columns = false
        · have other : current.columns.state ∉ [.sent,.inProgress,.completed,.finalizationFailed,.finalizing] := fun flattenable =>
            takes (decide_eq_true ⟨version,flattenable,takenIff.mp free⟩)
          simp only [check,version,free,decide_eq_false other]
          trivial
        · rw [Bool.not_eq_false] at free
          simp only [check,version,free]
          trivial
      · simp only [check,decide_eq_false version]
        trivial

theorem commitAgree {r : References} {expectedVersion : Nat} {owner revisionId : Id} {finalize : Bool} :
    agree (MemoryDocuments.commitFlattenedRevision organizationId documentId expectedVersion owner revisionId finalize rows)
        (PrismaDocuments.commitFlattenedRevision organizationId documentId r expectedVersion owner revisionId finalize rows) ↔
      Fits r rows (.commitFlattenedRevision organizationId documentId expectedVersion owner revisionId finalize) := by
  rw [MemoryDocuments.commitFlattenedRevision,PrismaDocuments.commitFlattenedRevision]
  refine agreeCases ids (fun missing => missingAgree missing) (fun current mem named => ?_)
  rw [bumpAgree ids mem named (decide (current.columns.leaseOwner = some owner) &&
    (!finalize || decide (current.columns.state ∈ [.finalizing,.completed]))) ?_ ?_ named]
  · by_cases version : current.columns.version = expectedVersion <;>
      by_cases own : current.columns.leaseOwner = some owner <;>
      cases finalize <;> simp [version,own]
  · intro allowed
    rw [Bool.and_eq_true] at allowed
    rw [allowed.1]
    cases finalize with
    | true =>
      have finalizable : decide (current.columns.state ∈ [.finalizing,.completed]) = true := allowed.2
      rw [finalizable]
      rfl
    | false => rfl
  · intro refused
    cases own : decide (current.columns.leaseOwner = some owner) with
    | false => exact ⟨_,rfl⟩
    | true =>
      rw [own,Bool.true_and] at refused
      cases finalize with
      | true =>
        have other : decide (current.columns.state ∈ [.finalizing,.completed]) = false := refused
        rw [other]
        exact ⟨_,rfl⟩
      | false => cases refused

theorem failAgree {owner : Id} :
    agree (MemoryDocuments.markFinalizationFailed organizationId documentId owner rows)
        (PrismaDocuments.markFinalizationFailed organizationId documentId owner rows) ↔
      ∀ row ∈ rows, isDocument organizationId documentId row = true →
        (row.columns.leaseOwner = some owner ↔ row.columns.state = .finalizing) := by
  refine agreeCases ids (fun missing => ?_) (fun current mem named => ?_)
  · have none := List.find?_eq_none.mpr (fun row mem => Bool.eq_false_iff.mp (missing row mem))
    rw [MemoryDocuments.markFinalizationFailed,none,PrismaDocuments.markFinalizationFailed,
      updateManyNone (fun row mem => by rw [missing row mem]; rfl),PrismaDocuments.requireDocument,none]
    trivial
  · have clauses : (fun row : DocumentRecord => isDocument organizationId documentId row &&
          row.columns.leaseOwner = some owner && row.columns.state = .finalizing) =
        fun row => isDocument organizationId documentId row &&
          (row.columns.leaseOwner = some owner && row.columns.state = .finalizing) :=
      funext (fun row => Bool.and_assoc ..)
    rw [MemoryDocuments.markFinalizationFailed,foundDocument ids mem named,PrismaDocuments.markFinalizationFailed,clauses,
      updateManyFound ids mem named (fun columns => columns.leaseOwner = some owner && columns.state = .finalizing)]
    simp only [placed ids mem named]
    have unchanged : PrismaDocuments.requireDocument organizationId documentId rows = .ok (some current,rows) := by
      rw [PrismaDocuments.requireDocument,foundDocument ids mem named]
    by_cases own : current.columns.leaseOwner = some owner <;> by_cases finalizing : current.columns.state = .finalizing
    · rw [if_neg (fun both => both.1 own),if_pos finalizing,if_pos (by simp [own,finalizing]),
        requirePlaced mem named (current.set
          { current.columns with
            state := .finalizationFailed, leaseOwner := none, leaseUntil := none, version := current.columns.version+1 })
          named]
      simp [own,finalizing,agree]
    · rw [if_neg (fun both => both.1 own),if_neg finalizing,if_neg (by simp [finalizing]),unchanged]
      simpa [own,finalizing,agree] using bumped ids mem named rfl
    · rw [if_neg (fun both => both.2 finalizing),if_pos finalizing,if_neg (by simp [own]),unchanged]
      simpa [own,finalizing,agree] using bumped ids mem named rfl
    · rw [if_pos ⟨own,finalizing⟩,if_neg (by simp [own]),unchanged]
      simp [own,finalizing,agree]

theorem releaseAgree {owner : Id} :
    agree (MemoryDocuments.releaseProcessingLease organizationId documentId owner rows)
      (PrismaDocuments.releaseProcessingLease organizationId documentId owner rows) := by
  rw [MemoryDocuments.releaseProcessingLease,PrismaDocuments.releaseProcessingLease]
  refine byDocument rows organizationId documentId (fun missing => ?_) (fun current mem named => ?_)
  · rw [List.find?_eq_none.mpr (fun row mem => Bool.eq_false_iff.mp (missing row mem)),
      updateManyNone (fun row mem => by rw [missing row mem]; rfl)]
    rfl
  · rw [foundDocument ids mem named,
      updateManyFound ids mem named (fun columns => columns.leaseOwner = some owner)]
    simp only [placed ids mem named]
    by_cases own : current.columns.leaseOwner = some owner
    · rw [if_neg (not_not.mpr own),if_pos (decide_eq_true own)]
      rfl
    · rw [if_pos own,if_neg (by simp [own])]
      rfl

end

theorem createAgree {r : References} {rows : List DocumentRecord} {organizationId : Id} {document : DocumentRecord} :
    agree (MemoryDocuments.create document rows) (PrismaDocuments.create r organizationId document rows) ↔
      Fits r rows (.create organizationId document) := by
  have fresh : rows.all (fun row => row.id ≠ document.id) = true ↔ ∀ row ∈ rows, row.id ≠ document.id := by
    simp [List.all_eq_true]
  have refers : ∀ reference : Option Id, reference.all (fun revisionId => (organizationId,revisionId) ∈ r.revisions) = true ↔
      ∀ revisionId ∈ reference, (organizationId,revisionId) ∈ r.revisions := by
    intro reference
    cases reference <;> simp
  rw [Fits,← fresh,← refers,← refers,MemoryDocuments.create,PrismaDocuments.create]
  by_cases tenant : document.organizationId = organizationId
  · cases rows.all (fun row => row.id ≠ document.id) with
    | false => simp [agree,check,tenant,bind,Except.bind]
    | true =>
      by_cases owned : (organizationId,document.ownerMembershipId) ∈ r.memberships
      · cases document.columns.currentRevisionId.all (fun revisionId => (organizationId,revisionId) ∈ r.revisions) <;>
          cases document.columns.signingRevisionId.all (fun revisionId => (organizationId,revisionId) ∈ r.revisions) <;>
          simp [agree,check,tenant,owned,bind,Except.bind]
      · simp [agree,check,tenant,owned,bind,Except.bind]
  · simp [agree,check,tenant,bind,Except.bind]

theorem applyAgree {r : References} {rows : List DocumentRecord} (ids : DistinctIds rows) (op : DocumentOperation) :
    agree (MemoryDocuments.apply op rows) (PrismaDocuments.apply r op rows) ↔ Fits r rows op := by
  cases op with
  | create => exact createAgree
  | attachSourceRevision =>
    refine Iff.trans (versionAgree ids (by intro row; rfl)) ?_
    simp only [Fits,decide_eq_true_eq]
  | markSent =>
    refine Iff.trans (versionAgree ids (by intro row; rfl)) ?_
    simp only [Fits,decide_eq_true_eq]
  | setInspectionStatus => exact Iff.trans (versionAgree ids (by intro row; rfl)) (by simp [Fits])
  | setSigningMode => exact Iff.trans (versionAgree ids (by intro row; rfl)) (by simp [Fits])
  | setPreparationState => exact Iff.trans (versionAgree ids (by intro row; rfl)) (by simp [Fits])
  | markDeclined => exact iff_of_true (stateAgree ids) trivial
  | markVoided => exact iff_of_true (stateAgree ids) trivial
  | markInProgress => exact iff_of_true (stateAgree ids) trivial
  | markCompleted => exact iff_of_true (stateAgree ids) trivial
  | claimProcessingLease => exact iff_of_true (leaseAgree ids) trivial
  | commitFlattenedRevision => exact commitAgree ids
  | markFinalizationFailed => exact failAgree ids
  | releaseProcessingLease => exact iff_of_true (releaseAgree ids) trivial

/-! Sequences of operations. -/

def accepted : Result → Bool
  | .ok _ => true
  | .error _ => false

def left (rows : List DocumentRecord) : Result → List DocumentRecord
  | .ok (_,rows') => rows'
  | .error _ => rows

/-- The same documents at all times, and the same operations refused. -/
def RunsAlike (r : References) : List DocumentOperation → List DocumentRecord → List DocumentRecord → Prop
  | [], memory, database => memory = database
  | op :: ops, memory, database =>
      memory = database ∧
      accepted (MemoryDocuments.apply op memory) = accepted (PrismaDocuments.apply r op database) ∧
      RunsAlike r ops (left memory (MemoryDocuments.apply op memory)) (left database (PrismaDocuments.apply r op database))

/-- Every operation fits the documents it finds. -/
def AllFit (r : References) : List DocumentOperation → List DocumentRecord → Prop
  | [], _ => True
  | op :: ops, rows => Fits r rows op ∧ AllFit r ops (left rows (PrismaDocuments.apply r op rows))

theorem agreeIff (rows : List DocumentRecord) {x y : Result} :
    agree x y ↔ accepted x = accepted y ∧ left rows x = left rows y := by
  rcases x with e | ⟨found,after⟩ <;> rcases y with e' | ⟨found',after'⟩ <;> simp [agree,accepted,left]

theorem requiredRows {rows organizationId documentId out}
    (found : PrismaDocuments.requireDocument organizationId documentId rows = .ok out) : out.2 = rows := by
  rw [PrismaDocuments.requireDocument] at found
  split at found <;> cases found
  rfl

theorem updatedIds {rows : List DocumentRecord} (ids : DistinctIds rows) {clause data}
    (kept : ∀ row : DocumentRecord, (data row).id = row.id) : DistinctIds (updateMany clause data rows) := by
  rw [DistinctIds,updateManyKeys kept]
  exact ids

theorem updateRowIds {rows : List DocumentRecord} (ids : DistinctIds rows) {organizationId documentId clause data refers error}
    {result : Result} (run : PrismaDocuments.updateRow organizationId documentId clause data refers error rows = result)
    (kept : ∀ row : DocumentRecord, (data row).id = row.id) : DistinctIds (left rows result) := by
  cases result with
  | error e => exact ids
  | ok out =>
    obtain ⟨updated,one,rest⟩ := bindOk.mp run
    obtain ⟨-,-,found⟩ := bindOk.mp rest
    obtain ⟨rfl,-⟩ := updateOneOk one
    rw [left,requiredRows found]
    exact updatedIds ids kept

theorem updateStateIds {rows : List DocumentRecord} (ids : DistinctIds rows) {organizationId documentId expectedVersion states state} :
    DistinctIds (left rows (PrismaDocuments.updateState organizationId documentId expectedVersion states state rows)) := by
  rw [PrismaDocuments.updateState]
  exact updateRowIds ids rfl (fun _ => rfl)

theorem applyIds {r : References} {rows : List DocumentRecord} (ids : DistinctIds rows) (op : DocumentOperation) :
    DistinctIds (left rows (PrismaDocuments.apply r op rows)) := by
  cases op with
  | create organizationId document =>
    rw [PrismaDocuments.apply]
    cases result : PrismaDocuments.create r organizationId document rows with
    | error e => exact ids
    | ok out =>
      obtain ⟨-,-,rest⟩ := bindOk.mp result
      obtain ⟨_,fresh,rest⟩ := bindOk.mp rest
      obtain ⟨-,-,rest⟩ := bindOk.mp rest
      obtain ⟨-,-,rest⟩ := bindOk.mp rest
      obtain ⟨-,-,stored⟩ := bindOk.mp rest
      cases stored
      have fresh := checkOk.mp fresh
      rw [List.all_eq_true] at fresh
      exact keysAppended ids (fun row mem => of_decide_eq_true (fresh row mem))
  | claimProcessingLease o d version owner leaseUntil now =>
    rw [PrismaDocuments.apply,PrismaDocuments.claimProcessingLease]
    split
    · exact ids
    · exact updateRowIds ids rfl (fun _ => rfl)
  | markFinalizationFailed o d owner =>
    rw [PrismaDocuments.apply]
    cases result : PrismaDocuments.markFinalizationFailed o d owner rows with
    | error e => exact ids
    | ok out =>
      rw [left,requiredRows result]
      exact updatedIds ids (fun _ => rfl)
  | releaseProcessingLease => exact updatedIds ids (fun _ => rfl)
  | markDeclined | markVoided | markInProgress | markCompleted => exact updateStateIds ids
  | attachSourceRevision | setInspectionStatus | setSigningMode | setPreparationState | markSent | commitFlattenedRevision =>
    rw [PrismaDocuments.apply]
    exact updateRowIds ids rfl (by intro row; rfl)

def finalizingFor (owner : Id) : DocumentRecord :=
  ⟨1,1,1,[],none,⟨.finalizing,.parallel,.accepted,none,some 1,some 1,9,some owner,some 60,1⟩⟩

end ESign.DocumentTable
