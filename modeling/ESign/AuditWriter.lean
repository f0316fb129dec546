import ESign.AuditBinding
import ESign.AuditStorage

/-! The audit writer, in transactions that interleave as they will. An append locks the
chain of its document until the transaction ends, reads the latest row among those
committed and its own, and creates the next one. The lock is an advisory lock on a hash of
the document's name: two documents may share it, and then merely wait for each other. -/
namespace ESign
open JsText

/-- A payload as a use case builds it: an object whose keys are distinct. -/
structure JsRecord where
  members : List (Utf16 × JsValue)
  valid : (JsValue.object members).wellFormed = true

structure AuditAppendInput where
  id : OpaqueId
  organizationId : OpaqueId
  documentId : OpaqueId
  type : AuditEventType
  actorType : AuditActorType
  actorId : Utf16
  occurredAt : Option Int
  payload : JsRecord

def ofDocument (organizationId documentId : OpaqueId) (event : AuditEvent) : Bool :=
  event.organizationId = organizationId && event.documentId = documentId

def rowsOf (organizationId documentId : OpaqueId) (rows : List AuditEvent) : List AuditEvent :=
  rows.filter (ofDocument organizationId documentId)

/-- `findFirst` of the rows by descending sequence. -/
def findLatest (rows : List AuditEvent) : Option AuditEvent :=
  rows.foldl (fun latest row =>
    match latest with
    | none => some row
    | some before => if row.sequence > before.sequence then some row else some before) none

def AuditAppendInput.sequence (latest : Option AuditEvent) : Int :=
  match latest with
  | some latest => latest.sequence+1
  | none => 0

def AuditAppendInput.hashInput (input : AuditAppendInput) (latest : Option AuditEvent) : AuditEventHashInput where
  schemaVersion := auditChainSchemaVersion
  previousEventHash := expectedPrevious latest
  sequence := sequence latest
  type := input.type
  actorType := input.actorType
  actorId := input.actorId
  occurredAt := input.occurredAt
  payload := .object input.payload.members

/-- The row as it is read back, with the payload the column returns. Digests have the
64 characters of their columns. -/
def AuditAppendInput.row (input : AuditAppendInput) (latest : Option AuditEvent) (eventHash : Utf16)
    (payload : JsonValue) : AuditEvent where
  id := input.id
  organizationId := input.organizationId
  documentId := input.documentId
  sequence := sequence latest
  type := input.type
  actorType := input.actorType
  actorId := input.actorId
  occurredAt := input.occurredAt
  payload := payload
  previousEventHash := expectedPrevious latest
  eventHash := eventHash
  chainVersion := auditChainSchemaVersion

/-- How far the append of a transaction has come. -/
inductive AppendStage where
  | idle
  | locked (input : AuditAppendInput)
  | read (input : AuditAppendInput) (latest : Option AuditEvent)

structure AuditTransaction where
  locks : List Int
  pending : List AuditEvent
  stage : AppendStage

/-- The table, and the transactions under way. -/
structure AuditTable where
  committed : List AuditEvent
  transactions : Nat → Option AuditTransaction

def AuditTable.set (table : AuditTable) (t : Nat) (transaction : Option AuditTransaction) : AuditTable :=
  { table with transactions := fun other => if other = t then transaction else table.transactions other }

def emptyTable : AuditTable := ⟨[],fun _ => none⟩

section

variable (sha256Hex : Utf16 → Utf16) (lockKey : OpaqueId → OpaqueId → Int)

inductive AuditStep : AuditTable → AuditTable → Prop where
  | start {table t} (new : table.transactions t = none) :
      AuditStep table (table.set t (some ⟨[],[],.idle⟩))
  | lock {table t locks pending} {input : AuditAppendInput}
      (mine : table.transactions t = some ⟨locks,pending,.idle⟩)
      (approved : assertApprovedAuditPayload input.payload.members 0 = .ok ())
      (free : ∀ other held, table.transactions other = some held → other ≠ t →
        lockKey input.organizationId input.documentId ∉ held.locks) :
      AuditStep table (table.set t (some ⟨lockKey input.organizationId input.documentId :: locks,pending,.locked input⟩))
  | read {table t locks pending input} (mine : table.transactions t = some ⟨locks,pending,.locked input⟩) :
      AuditStep table (table.set t (some ⟨locks,pending,.read input
        (findLatest (rowsOf input.organizationId input.documentId (table.committed ++ pending)))⟩))
  | create {table t locks pending input latest hash json} {payload : JsonValue}
      (mine : table.transactions t = some ⟨locks,pending,.read input latest⟩)
      (computed : computeAuditEventHash sha256Hex (input.hashInput latest) = .ok hash)
      (serialized : (JsValue.object input.payload.members).stored = some json)
      (column : payload.value.sorted = json.sorted)
      (unique : ∀ row ∈ table.committed ++ pending, row.documentId = input.documentId →
        row.sequence ≠ AuditAppendInput.sequence latest) :
      AuditStep table (table.set t (some ⟨locks,pending ++ [input.row latest hash payload],.idle⟩))
  | fail {table t locks pending stage} (mine : table.transactions t = some ⟨locks,pending,stage⟩) :
      AuditStep table (table.set t (some ⟨locks,pending,.idle⟩))
  | commit {table t locks pending} (mine : table.transactions t = some ⟨locks,pending,.idle⟩) :
      AuditStep table ({ table with committed := table.committed ++ pending }.set t none)
  | rollback {table t transaction} (mine : table.transactions t = some transaction) :
      AuditStep table (table.set t none)

/-- The tables that appends through the writer lead to. -/
inductive Written : AuditTable → Prop where
  | empty : Written emptyTable
  | step {table table'} (before : Written table) (step : AuditStep sha256Hex lockKey table table') : Written table'

/-- `listByDocument`: by ascending sequence. -/
def AuditTable.listByDocument (table : AuditTable) (organizationId documentId : OpaqueId) : List AuditEvent :=
  sortEvents (rowsOf organizationId documentId table.committed)

end

/-! The next row of a chain. -/

section

variable {sha256Hex : Utf16 → Utf16} {lockKey : OpaqueId → OpaqueId → Int}

/-- A chain of one document that the verifier finds no fault in. -/
structure Good (sha256Hex : Utf16 → Utf16) (rows : List AuditEvent) : Prop where
  intact : Intact sha256Hex rows
  approved : ∀ row ∈ rows, row.Approved

theorem goodEmpty : Good sha256Hex [] := ⟨⟨trivial,List.forall_mem_nil _⟩,List.forall_mem_nil _⟩

theorem latestLinked {rows : List AuditEvent} {root : Utf16} (linked : auditChain.Linked root 0 rows) :
    findLatest rows = rows.getLast? := by
  induction rows using List.reverseRecOn with
  | nil => rfl
  | append_singleton front row ih =>
    obtain ⟨frontLinked,-,position⟩ := HashChain.linkedSnoc.mp linked
    have before := ih frontLinked
    rw [findLatest] at before ⊢
    rw [List.foldl_append,before,List.getLast?_concat]
    cases last : front.getLast? with
    | none => rfl
    | some latest =>
      have bounds := HashChain.positionMem frontLinked (List.mem_of_getLast? last)
      have later : row.sequence > latest.sequence := by
        change row.sequence = _ at position
        change _ ∧ latest.sequence < _ at bounds
        omega
      simp only [List.foldl_cons,List.foldl_nil,if_pos later]

theorem expectedLast {rows : List AuditEvent} :
    expectedPrevious rows.getLast? = auditChain.last genesisPreviousEventHash rows := by
  rcases List.eq_nil_or_concat rows with rfl | ⟨front,row,rfl⟩
  · rfl
  · rw [List.concat_eq_append,List.getLast?_concat,HashChain.lastSnoc]
    rfl

theorem nextSequence {rows : List AuditEvent} {root : Utf16} (linked : auditChain.Linked root 0 rows) :
    AuditAppendInput.sequence rows.getLast? = rows.length := by
  rcases List.eq_nil_or_concat rows with rfl | ⟨front,row,rfl⟩
  · rfl
  · rw [List.concat_eq_append] at linked ⊢
    have position : row.sequence = 0+front.length := (HashChain.linkedSnoc.mp linked).2.2
    rw [List.getLast?_concat,AuditAppendInput.sequence,position,List.length_append,List.length_singleton]
    omega

theorem rowHash {input : AuditAppendInput} {latest : Option AuditEvent} {hash : Utf16} {json : Json} {payload : JsonValue}
    (computed : computeAuditEventHash sha256Hex (input.hashInput latest) = .ok hash)
    (serialized : (JsValue.object input.payload.members).stored = some json)
    (column : payload.value.sorted = json.sorted) :
    computeAuditEventHash sha256Hex (input.row latest hash payload).hashInput = .ok hash := by
  have canonical := columnCanonical input.payload.valid serialized column
  rw [computeAuditEventHash,toCanonicalAuditEventV1] at computed ⊢
  simp only [AuditAppendInput.hashInput,canonical] at computed
  exact computed

theorem goodNext {input : AuditAppendInput} {rows : List AuditEvent} {hash : Utf16} {json : Json} {payload : JsonValue}
    (good : Good sha256Hex rows)
    (computed : computeAuditEventHash sha256Hex (input.hashInput (findLatest rows)) = .ok hash)
    (serialized : (JsValue.object input.payload.members).stored = some json)
    (column : payload.value.sorted = json.sorted)
    (approved : assertApprovedAuditPayload input.payload.members 0 = .ok ()) :
    Good sha256Hex (rows ++ [input.row (findLatest rows) hash payload]) := by
  have latest := latestLinked good.intact.linked
  refine ⟨⟨HashChain.linkedSnoc.mpr ⟨good.intact.linked,?_,?_⟩,?_⟩,?_⟩
  · rw [latest]
    exact expectedLast
  · rw [latest,Int.zero_add]
    exact nextSequence good.intact.linked
  · rw [List.forall_mem_append]
    refine ⟨good.intact.hashed,?_⟩
    rw [List.forall_mem_singleton]
    exact rowHash computed serialized column
  · rw [List.forall_mem_append]
    refine ⟨good.approved,?_⟩
    rw [List.forall_mem_singleton]
    exact columnApproved input.payload.valid serialized column approved

/-! Rows of a document in a table. -/

theorem rowsAppend (organizationId documentId : OpaqueId) (front back : List AuditEvent) :
    rowsOf organizationId documentId (front ++ back) =
      rowsOf organizationId documentId front ++ rowsOf organizationId documentId back := List.filter_append _ _

theorem rowsNone {organizationId documentId : OpaqueId} {rows : List AuditEvent}
    (none : ∀ row ∈ rows, ofDocument organizationId documentId row = false) :
    rowsOf organizationId documentId rows = [] := by
  rw [rowsOf,List.filter_eq_nil_iff]
  intro row mem
  rw [none row mem]
  exact Bool.false_ne_true

theorem setSame (table : AuditTable) (t : Nat) (transaction : Option AuditTransaction) :
    (table.set t transaction).transactions t = transaction := if_pos rfl

theorem setOther (table : AuditTable) {t other : Nat} (transaction : Option AuditTransaction) (different : other ≠ t) :
    (table.set t transaction).transactions other = table.transactions other := if_neg different

/-- What a transaction has read still holds when it creates the row. -/
def StageOk (lockKey : OpaqueId → OpaqueId → Int) (committed : List AuditEvent) (transaction : AuditTransaction) : Prop :=
  match transaction.stage with
  | .idle => True
  | .locked input => lockKey input.organizationId input.documentId ∈ transaction.locks ∧
      assertApprovedAuditPayload input.payload.members 0 = .ok ()
  | .read input latest => lockKey input.organizationId input.documentId ∈ transaction.locks ∧
      assertApprovedAuditPayload input.payload.members 0 = .ok () ∧
      latest = findLatest (rowsOf input.organizationId input.documentId (committed ++ transaction.pending))

/-- What holds of one transaction, whatever the others do. -/
structure TransactionOk (sha256Hex : Utf16 → Utf16) (lockKey : OpaqueId → OpaqueId → Int) (committed : List AuditEvent)
    (transaction : AuditTransaction) : Prop where
  owned : ∀ row ∈ transaction.pending, lockKey row.organizationId row.documentId ∈ transaction.locks
  good : ∀ organizationId documentId, lockKey organizationId documentId ∈ transaction.locks →
    Good sha256Hex (rowsOf organizationId documentId (committed ++ transaction.pending))
  stage : StageOk lockKey committed transaction

structure TableOk (sha256Hex : Utf16 → Utf16) (lockKey : OpaqueId → OpaqueId → Int) (table : AuditTable) : Prop where
  committed : ∀ organizationId documentId, Good sha256Hex (rowsOf organizationId documentId table.committed)
  exclusive : ∀ t t' held held', table.transactions t = some held → table.transactions t' = some held' → t ≠ t' →
    ∀ key ∈ held.locks, key ∉ held'.locks
  each : ∀ t transaction, table.transactions t = some transaction →
    TransactionOk sha256Hex lockKey table.committed transaction

theorem keepSet {table : AuditTable} {t : Nat} {transaction : Option AuditTransaction} (ok : TableOk sha256Hex lockKey table)
    (mine : ∀ held, transaction = some held → TransactionOk sha256Hex lockKey table.committed held)
    (apart : ∀ held, transaction = some held → ∀ other held', table.transactions other = some held' → other ≠ t →
      ∀ key ∈ held.locks, key ∉ held'.locks) : TableOk sha256Hex lockKey (table.set t transaction) := by
  refine ⟨ok.committed,?_,?_⟩
  · intro a b held held' atA atB different key keyMem keyMem'
    by_cases first : a = t
    · subst first
      rw [setSame] at atA
      rw [setOther table transaction different.symm] at atB
      exact apart held atA b held' atB different.symm key keyMem keyMem'
    · rw [setOther table transaction first] at atA
      by_cases second : b = t
      · subst second
        rw [setSame] at atB
        exact apart held' atB a held atA different key keyMem' keyMem
      · rw [setOther table transaction second] at atB
        exact ok.exclusive a b held held' atA atB different key keyMem keyMem'
  · intro a held atA
    by_cases first : a = t
    · subst first
      rw [setSame] at atA
      exact mine held atA
    · rw [setOther table transaction first] at atA
      exact ok.each a held atA

theorem ofDocumentIff {organizationId documentId : OpaqueId} {row : AuditEvent} :
    ofDocument organizationId documentId row = true ↔ row.organizationId = organizationId ∧ row.documentId = documentId := by
  rw [ofDocument,Bool.and_eq_true,decide_eq_true_eq,decide_eq_true_eq]

theorem foreignRows {transaction : AuditTransaction} {organizationId documentId : OpaqueId}
    (owned : ∀ row ∈ transaction.pending, lockKey row.organizationId row.documentId ∈ transaction.locks)
    (foreign : lockKey organizationId documentId ∉ transaction.locks) :
    rowsOf organizationId documentId transaction.pending = [] := by
  refine rowsNone (fun row mem => ?_)
  by_contra mine
  obtain ⟨rfl,rfl⟩ := ofDocumentIff.mp (Bool.not_eq_false _ ▸ mine)
  exact foreign (owned row mem)

theorem keepLock {committed : List AuditEvent} {locks : List Int} {pending : List AuditEvent} {input : AuditAppendInput}
    (chains : ∀ organizationId documentId, Good sha256Hex (rowsOf organizationId documentId committed))
    (ok : TransactionOk sha256Hex lockKey committed ⟨locks,pending,.idle⟩)
    (approved : assertApprovedAuditPayload input.payload.members 0 = .ok ()) :
    TransactionOk sha256Hex lockKey committed
      ⟨lockKey input.organizationId input.documentId :: locks,pending,.locked input⟩ := by
  refine ⟨fun row mem => List.mem_cons_of_mem _ (ok.owned row mem),fun organizationId documentId held => ?_,
    List.mem_cons_self,approved⟩
  by_cases before : lockKey organizationId documentId ∈ locks
  · exact ok.good organizationId documentId before
  · have none : rowsOf organizationId documentId pending = [] := foreignRows ok.owned before
    rw [rowsAppend,none,List.append_nil]
    exact chains organizationId documentId

theorem keepCreate {committed : List AuditEvent} {locks : List Int} {pending : List AuditEvent} {input : AuditAppendInput}
    {latest : Option AuditEvent} {hash : Utf16} {json : Json} {payload : JsonValue}
    (ok : TransactionOk sha256Hex lockKey committed ⟨locks,pending,.read input latest⟩)
    (computed : computeAuditEventHash sha256Hex (input.hashInput latest) = .ok hash)
    (serialized : (JsValue.object input.payload.members).stored = some json)
    (column : payload.value.sorted = json.sorted) :
    TransactionOk sha256Hex lockKey committed ⟨locks,pending ++ [input.row latest hash payload],.idle⟩ := by
  obtain ⟨locked,approved,read⟩ := ok.stage
  change latest = findLatest (rowsOf input.organizationId input.documentId (committed ++ pending)) at read
  refine ⟨?_,fun organizationId documentId held => ?_,trivial⟩
  · rw [List.forall_mem_append,List.forall_mem_singleton]
    exact ⟨ok.owned,locked⟩
  · have chain := ok.good organizationId documentId held
    rw [← List.append_assoc,rowsAppend]
    by_cases here : input.organizationId = organizationId ∧ input.documentId = documentId
    · obtain ⟨rfl,rfl⟩ := here
      have own : rowsOf input.organizationId input.documentId [input.row latest hash payload] =
          [input.row latest hash payload] := List.filter_cons_of_pos (ofDocumentIff.mpr ⟨rfl,rfl⟩)
      rw [own,read]
      rw [read] at computed
      exact goodNext chain computed serialized column approved
    · have none : rowsOf organizationId documentId [input.row latest hash payload] = [] := by
        refine rowsNone (fun row mem => ?_)
        rw [List.mem_singleton.mp mem]
        exact Bool.eq_false_iff.mpr (fun mine => here (ofDocumentIff.mp mine))
      rw [none,List.append_nil]
      exact chain

theorem keepOther {committed pending : List AuditEvent} {transaction : AuditTransaction}
    (ok : TransactionOk sha256Hex lockKey committed transaction)
    (foreign : ∀ organizationId documentId, lockKey organizationId documentId ∈ transaction.locks →
      rowsOf organizationId documentId pending = []) :
    TransactionOk sha256Hex lockKey (committed ++ pending) transaction := by
  have rows : ∀ organizationId documentId, lockKey organizationId documentId ∈ transaction.locks →
      rowsOf organizationId documentId (committed ++ pending ++ transaction.pending) =
        rowsOf organizationId documentId (committed ++ transaction.pending) := by
    intro organizationId documentId held
    rw [rowsAppend,rowsAppend,rowsAppend,foreign organizationId documentId held,List.append_nil]
  refine ⟨ok.owned,fun organizationId documentId held => ?_,?_⟩
  · rw [rows organizationId documentId held]
    exact ok.good organizationId documentId held
  · obtain ⟨locks,own,stage⟩ := transaction
    cases stage with
    | idle => trivial
    | locked input => exact ok.stage
    | read input latest =>
      obtain ⟨held,approved,read⟩ := ok.stage
      refine ⟨held,approved,?_⟩
      rw [rows input.organizationId input.documentId held]
      exact read

theorem keepCommit {table : AuditTable} {t : Nat} {transaction : AuditTransaction} (ok : TableOk sha256Hex lockKey table)
    (mine : table.transactions t = some transaction) :
    TableOk sha256Hex lockKey ({ table with committed := table.committed ++ transaction.pending }.set t none) := by
  have own := ok.each t transaction mine
  refine ⟨fun organizationId documentId => ?_,?_,?_⟩
  · by_cases held : lockKey organizationId documentId ∈ transaction.locks
    · exact own.good organizationId documentId held
    · change Good sha256Hex (rowsOf organizationId documentId (table.committed ++ transaction.pending))
      rw [rowsAppend,foreignRows own.owned held,List.append_nil]
      exact ok.committed organizationId documentId
  · intro a b held held' atA atB different
    by_cases first : a = t
    · subst first
      rw [setSame] at atA
      cases atA
    · by_cases second : b = t
      · subst second
        rw [setSame] at atB
        cases atB
      · rw [setOther _ _ first] at atA
        rw [setOther _ _ second] at atB
        exact ok.exclusive a b held held' atA atB different
  · intro a held atA
    by_cases first : a = t
    · subst first
      rw [setSame] at atA
      cases atA
    · rw [setOther _ _ first] at atA
      refine keepOther (ok.each a held atA) (fun organizationId documentId locked => foreignRows own.owned ?_)
      exact ok.exclusive a t held transaction atA mine first _ locked

theorem keepStep {table table' : AuditTable} (ok : TableOk sha256Hex lockKey table)
    (step : AuditStep sha256Hex lockKey table table') : TableOk sha256Hex lockKey table' := by
  -- the locks of a transaction that goes on are those it held before
  have same : ∀ {t transaction} {transaction' : AuditTransaction}, table.transactions t = some transaction →
      transaction'.locks = transaction.locks → ∀ held, some transaction' = some held → ∀ other held',
      table.transactions other = some held' → other ≠ t → ∀ key ∈ held.locks, key ∉ held'.locks := by
    intro t transaction transaction' mine locks held heldIs other held' atOther different key keyMem
    cases heldIs
    rw [locks] at keyMem
    exact ok.exclusive t other transaction held' mine atOther different.symm key keyMem
  cases step with
  | start new =>
    refine keepSet ok (fun held heldIs => ?_) (fun held heldIs => ?_)
    · cases heldIs
      exact ⟨List.forall_mem_nil _,fun _ _ locked => absurd locked List.not_mem_nil,trivial⟩
    · cases heldIs
      exact fun _ _ _ _ _ locked => absurd locked List.not_mem_nil
  | lock mine approved free =>
    refine keepSet ok (fun held heldIs => ?_) (fun held heldIs other held' atOther different key keyMem => ?_)
    · cases heldIs
      exact keepLock ok.committed (ok.each _ _ mine) approved
    · cases heldIs
      rcases List.mem_cons.mp keyMem with rfl | before
      · exact free other held' atOther different
      · exact ok.exclusive _ other _ held' mine atOther different.symm key before
  | read mine =>
    refine keepSet ok (fun held heldIs => ?_) (same mine rfl)
    have own := ok.each _ _ mine
    cases heldIs
    exact ⟨own.owned,own.good,own.stage.1,own.stage.2,rfl⟩
  | create mine computed serialized column unique =>
    refine keepSet ok (fun held heldIs => ?_) (same mine rfl)
    cases heldIs
    exact keepCreate (ok.each _ _ mine) computed serialized column
  | fail mine =>
    refine keepSet ok (fun held heldIs => ?_) (same mine rfl)
    have own := ok.each _ _ mine
    cases heldIs
    exact ⟨own.owned,own.good,trivial⟩
  | commit mine => exact keepCommit ok mine
  | rollback mine => exact keepSet ok (fun held heldIs => by cases heldIs) (fun held heldIs => by cases heldIs)

theorem writtenOk {table : AuditTable} (written : Written sha256Hex lockKey table) : TableOk sha256Hex lockKey table := by
  induction written with
  | empty =>
    refine ⟨fun _ _ => goodEmpty,?_,?_⟩
    · intro t t' held held' none
      cases none
    · intro t transaction none
      cases none
  | step before step ih => exact keepStep ih step

theorem walkWhere {check check' : Option AuditEvent → AuditEvent → Prop} {before : Option AuditEvent}
    {events : List AuditEvent} (imp : ∀ before, ∀ event ∈ events, check before event → check' before event)
    (walk : Walk check before events) : Walk check' before events := by
  induction events generalizing before with
  | nil => trivial
  | cons event rest ih =>
    exact ⟨imp before event List.mem_cons_self walk.1,
      ih (fun before event mem => imp before event (List.mem_cons_of_mem _ mem)) walk.2⟩

theorem goodFree {σ : Type} {store : ImmutableCheckpointStore σ} {deps : VerifyDeps} {input : VerifyAuditChainInput}
    {state after : σ} {report : AuditVerificationReport} (good : Good sha256Hex deps.events)
    (run : verifyAuditChain sha256Hex store deps input state = (.ok report,after)) :
    Free (.forbiddenPayloadField :: chainCodes) report.failures := by
  obtain ⟨walk,inOrder,sorted⟩ := intactSorted good.intact
  by_cases some : deps.events = []
  · rw [verifyAuditChain,if_pos some] at run
    split at run
    · cases run
    · rw [published (Prod.mk.inj run).1]
      intro item itemMem
      rw [List.mem_singleton.mp itemMem]
      simp [failure,chainCodes]
  · obtain ⟨found,run⟩ := verified run some
    have events := run.events
    rw [sorted] at events
    have free : Walk (fun before event => Free (.forbiddenPayloadField :: chainCodes)
        (eventFailures sha256Hex input before event)) none deps.events := by
      refine walkWhere (fun before event mem sound => ?_) walk
      rw [eventNil.mpr ⟨sound,good.approved event mem⟩]
      exact freeNil _
    rw [run.returned]
    change Free _ (dedupeFailures (allFailures store deps input state found))
    rw [freeDedupe,allFailures,freeAppend,freeAppend,sequencesNil.mpr inOrder]
    refine ⟨⟨freeNil _,(eventsFree (by decide) events).mpr free⟩,?_⟩
    intro item itemMem
    rw [checkpointCode item itemMem]
    decide

theorem writerVerified {table : AuditTable} (written : Written sha256Hex lockKey table) (organizationId documentId : OpaqueId) :
    (∀ (i : Nat) event, (table.listByDocument organizationId documentId)[i]? = some event → event.sequence = i) ∧
    (∀ event, (table.listByDocument organizationId documentId).head? = some event →
      event.previousEventHash = genesisPreviousEventHash) ∧
    ∀ {σ : Type} (store : ImmutableCheckpointStore σ) (deps : VerifyDeps) (input : VerifyAuditChainInput) (state after : σ)
      (report : AuditVerificationReport), deps.events = table.listByDocument organizationId documentId →
      verifyAuditChain sha256Hex store deps input state = (.ok report,after) →
      Free (.forbiddenPayloadField :: chainCodes) report.failures := by
  have good := (writtenOk written).committed organizationId documentId
  obtain ⟨walk,inOrder,sorted⟩ := intactSorted good.intact
  rw [AuditTable.listByDocument,sorted]
  refine ⟨inOrder,?_,?_⟩
  · intro event first
    cases rows : rowsOf organizationId documentId table.committed with
    | nil =>
      rw [rows] at first
      cases first
    | cons head rest =>
      rw [rows] at first walk
      cases first
      exact walk.1.previous
  · intro σ store deps input state after report events run
    rw [← events] at good
    exact goodFree good run

theorem writtenAppend {table : AuditTable} (written : Written sha256Hex lockKey table) (quiet : ∀ t, table.transactions t = none)
    {input : AuditAppendInput} {latest : Option AuditEvent} {hash : Utf16} {json : Json} {payload : JsonValue}
    (found : findLatest (rowsOf input.organizationId input.documentId table.committed) = latest)
    (approved : assertApprovedAuditPayload input.payload.members 0 = .ok ())
    (computed : computeAuditEventHash sha256Hex (input.hashInput latest) = .ok hash)
    (serialized : (JsValue.object input.payload.members).stored = some json) (column : payload.value.sorted = json.sorted)
    (unique : ∀ row ∈ table.committed, row.documentId = input.documentId → row.sequence ≠ AuditAppendInput.sequence latest) :
    ∃ table', Written sha256Hex lockKey table' ∧ (∀ t, table'.transactions t = none) ∧
      table'.committed = table.committed ++ [input.row latest hash payload] := by
  have tip : findLatest (rowsOf input.organizationId input.documentId (table.committed ++ [])) = latest := by
    rw [List.append_nil,found]
  have computed' : computeAuditEventHash sha256Hex (input.hashInput
      (findLatest (rowsOf input.organizationId input.documentId (table.committed ++ [])))) = .ok hash := by
    rw [tip,computed]
  have unique' : ∀ row ∈ table.committed ++ [], row.documentId = input.documentId → row.sequence ≠
      AuditAppendInput.sequence (findLatest (rowsOf input.organizationId input.documentId (table.committed ++ []))) := by
    rw [tip,List.append_nil]
    exact unique
  have started := Written.step written (.start (quiet 0))
  have locked := Written.step started (.lock (setSame _ _ _) approved (by
    intro other held atOther different
    rw [setOther _ _ different,quiet other] at atOther
    cases atOther))
  have read := Written.step locked (.read (setSame _ _ _))
  have row := Written.step read (.create (setSame _ _ _) computed' serialized column unique')
  refine ⟨_,.step row (.commit (setSame _ _ _)),fun t => ?_,?_⟩
  · by_cases first : t = 0
    · rw [first,setSame]
    · rw [setOther _ _ first]
      change (AuditTable.set _ 0 _).transactions t = none
      rw [setOther _ _ first,setOther _ _ first,setOther _ _ first,setOther _ _ first,quiet t]
  · change table.committed ++ [input.row (findLatest _) hash payload] = _
    rw [← tip]
    rfl

end

/-! The two events of a document that was sent; the first has a member that is not stored. -/
namespace CreatedAndSent

def draft : AuditAppendInput where
  id := (created createdPayload).id
  organizationId := organization
  documentId := document
  type := .documentCreated
  actorType := .accountUser
  actorId := actor
  occurredAt := some 1787140800000
  payload := ⟨[(utf16 "uploadSessionId",uploadSession.toJs),(utf16 "requestId",.undefined),
    (utf16 "documentId",.string document.text)],by decide +kernel⟩

def sending : AuditAppendInput where
  id := sent.id
  organizationId := organization
  documentId := document
  type := .documentSent
  actorType := .accountUser
  actorId := actor
  occurredAt := some 1787140860000
  payload := ⟨[(utf16 "documentId",.string document.text)],by decide +kernel⟩

def oneLock (_ _ : OpaqueId) : Int := 0

theorem evaluatedAppends : (computeAuditEventHash sha256Hex (draft.hashInput none)).toOption = some createdHash ∧
    (computeAuditEventHash sha256Hex (sending.hashInput (some (created createdPayload)))).toOption = some sentHash ∧
    assertApprovedAuditPayload draft.payload.members 0 = .ok () ∧
    assertApprovedAuditPayload sending.payload.members 0 = .ok () ∧
    createdPayload.value.sorted.stringify = (Json.object [(utf16 "uploadSessionId",uploadSession),
      (utf16 "documentId",.string document.text)]).sorted.stringify := by decide +kernel

theorem bothWritten : ∃ table, Written sha256Hex oneLock table ∧
    table.listByDocument organization document = [created createdPayload,sent] := by
  obtain ⟨createdShown,sentShown,createdApproved,sentApproved,stringified⟩ := evaluatedAppends
  have column : createdPayload.value.sorted = (Json.object [(utf16 "uploadSessionId",uploadSession),
      (utf16 "documentId",.string document.text)]).sorted := Json.stringifyInjective stringified
  obtain ⟨first,written,quiet,rows⟩ := writtenAppend (.empty : Written sha256Hex oneLock emptyTable) (fun _ => rfl) rfl createdApproved
    (okOption createdShown) rfl column (fun row mem => absurd mem List.not_mem_nil)
  change first.committed = [created createdPayload] at rows
  obtain ⟨second,written',-,rows'⟩ := writtenAppend written quiet (by rw [rows]; rfl) sentApproved (okOption sentShown)
    rfl (show sent.payload.value.sorted = (Json.object [(utf16 "documentId",.string document.text)]).sorted from rfl) (by
      intro row mem _ same
      rw [rows,List.mem_singleton] at mem
      rw [mem] at same
      cases same)
  refine ⟨second,written',?_⟩
  rw [AuditTable.listByDocument,rows',rows]
  rfl

theorem draftVerified : ∃ table, Written sha256Hex oneLock table ∧
    table.listByDocument organization document = [created createdPayload,sent] ∧
    (∀ (i : Nat) event, (table.listByDocument organization document)[i]? = some event → event.sequence = i) ∧
    ∃ report after, verifyAuditChain sha256Hex MemoryCheckpointStore.store
        (reads [created createdPayload,sent] 1787140900000) request [] = (.ok report,after) ∧
      Free (.forbiddenPayloadField :: chainCodes) report.failures := by
  obtain ⟨table,written,rows⟩ := bothWritten
  obtain ⟨report,after,run,-⟩ := runOf createdRun
  obtain ⟨inOrder,-,verified⟩ := writerVerified written organization document
  exact ⟨table,written,rows,inOrder,report,after,run,verified _ _ _ _ _ report rows.symm run⟩

end CreatedAndSent

end ESign
