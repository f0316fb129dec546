import ESign.AuditPayload
import ESign.Checkpoints
import ESign.UseCases

/-! The outbox and its background jobs: two tables that the claimers update side by side.
`prismaClaimer` is the one of production, `memoryClaimer` the one of the tests. -/
namespace ESign.JobQueue
open JsText

inductive OutboxStatus where
  | pending | processing | processed | failed
  deriving DecidableEq, Repr

inductive BackgroundJobStatus where
  | pending | leased | succeeded | failed | cancelled
  deriving DecidableEq, Repr

/-- `createdAt` and `updatedAt` are not looked at. -/
structure OutboxEvent where
  id : Id
  organizationId : Id
  documentId : Option Id
  type : JobType
  status : OutboxStatus
  payload : List (Utf16 × Utf16)
  requestId : Option Id
  attemptCount : Nat
  leaseOwner : Option Id
  leaseUntil : Option Date
  availableAt : Date
  processedAt : Option Date
  lastErrorCode : Option String
  deriving DecidableEq, Repr

structure BackgroundJob where
  id : Id
  organizationId : Id
  documentId : Option Id
  outboxEventId : Option Id
  type : JobType
  status : BackgroundJobStatus
  attemptCount : Nat
  maxAttempts : Nat
  leaseOwner : Option Id
  leaseUntil : Option Date
  availableAt : Date
  lastErrorCode : Option String
  requestId : Option Id
  version : Nat
  deriving DecidableEq, Repr

structure Queue where
  events : List OutboxEvent
  jobs : List BackgroundJob
  deriving DecidableEq, Repr

structure ClaimedOutboxWork where
  event : OutboxEvent
  job : BackgroundJob
  leaseRecovered : Bool
  deriving DecidableEq, Repr

structure ClaimInput where
  type : JobType
  now : Date
  owner : Id
  leaseUntil : Date
  deriving DecidableEq, Repr

/-- What the three outcome calls are told of the work they report on. -/
structure Outcome where
  organizationId : Id
  outboxEventId : Id
  jobId : Id
  owner : Id
  deriving DecidableEq, Repr

/-- What a claim meets besides its input: the rows that are locked by a transaction under
way, and the next random id. -/
structure ClaimEnv where
  locked : List Id
  newId : Id
  deriving DecidableEq, Repr

structure OutboxClaimer where
  claimNextByType : ClaimEnv → ClaimInput → Queue → Option ClaimedOutboxWork × Queue
  markProcessed : Outcome → Date → Queue → Queue
  scheduleRetry : Outcome → String → Date → Queue → Queue
  markDeadLettered : Outcome → String → Queue → Queue

def defaultJobMaxAttempts : Nat := 8

structure JobPublishInput where
  id : Id
  jobId : Id
  organizationId : Id
  documentId : Option Id
  type : JobType
  payload : List (Utf16 × Utf16)
  requestId : Option Id
  availableAt : Date
  maxAttempts : Option Nat
  deriving DecidableEq, Repr

def forbiddenPayloadKeys : List String :=
  ["token","secret","password","signature","pdf","png","bytes","cookie","authorization","raw","image","ink"]

def maxPayloadKeys : Nat := 16

def isForbiddenPayloadKey (key : Utf16) : Bool :=
  forbiddenPayloadKeys.any (fun word => decide (utf16 word <:+: key.map (fun u => if isUpper u then u+32 else u)))

def assertSafeJobPayload (payload : List (Utf16 × Utf16)) : Except AppError Unit := do
  check (payload.length ≤ maxPayloadKeys) (.validation [("reason","job_payload_too_large")])
  payload.forM (fun (key,value) => do
    check (!isForbiddenPayloadKey key)
      (.validation [("field",String.ofList (decode key)),("reason","forbidden_job_payload_key")])
    check (isOpaqueId value)
      (.validation [("field",String.ofList (decode key)),("reason","job_payload_must_be_opaque_id")]))

def publishedEvent (input : JobPublishInput) : OutboxEvent where
  id := input.id
  organizationId := input.organizationId
  documentId := input.documentId
  type := input.type
  status := .pending
  payload := input.payload
  requestId := input.requestId
  attemptCount := 0
  leaseOwner := none
  leaseUntil := none
  availableAt := input.availableAt
  processedAt := none
  lastErrorCode := none

def publishedJob (input : JobPublishInput) : BackgroundJob where
  id := input.jobId
  organizationId := input.organizationId
  documentId := input.documentId
  outboxEventId := some input.id
  type := input.type
  status := .pending
  attemptCount := 0
  maxAttempts := input.maxAttempts.getD defaultJobMaxAttempts
  leaseOwner := none
  leaseUntil := none
  availableAt := input.availableAt
  lastErrorCode := none
  requestId := input.requestId
  version := 1

/-- Both rows are created by one statement; their ids are keys. -/
def publish (input : JobPublishInput) (q : Queue) : Except AppError Queue := do
  assertSafeJobPayload input.payload
  check (q.events.all (fun row => row.id ≠ input.id) && q.jobs.all (fun row => row.id ≠ input.jobId))
    (.unknown "unique_constraint")
  .ok ⟨q.events ++ [publishedEvent input],q.jobs ++ [publishedJob input]⟩

/-- Due, and pending or left behind by a lease that has expired. -/
def claimable (input : ClaimInput) (row : OutboxEvent) : Bool :=
  row.type = input.type && row.availableAt ≤ input.now &&
    (row.status = .pending || (row.status = .processing && row.leaseUntil.any (fun leaseUntil => leaseUntil < input.now)))

def leaseEvent (input : ClaimInput) (row : OutboxEvent) : OutboxEvent :=
  { row with
    status := .processing
    leaseOwner := some input.owner
    leaseUntil := some input.leaseUntil
    attemptCount := row.attemptCount+1 }

def leaseJob (input : ClaimInput) (row : BackgroundJob) : BackgroundJob :=
  { row with
    status := .leased
    leaseOwner := some input.owner
    leaseUntil := some input.leaseUntil
    attemptCount := row.attemptCount+1
    version := row.version+1 }

def processedEvent (processedAt : Date) (row : OutboxEvent) : OutboxEvent :=
  { row with status := .processed, processedAt := some processedAt, leaseOwner := none, leaseUntil := none }

def succeededJob (row : BackgroundJob) : BackgroundJob :=
  { row with status := .succeeded, leaseOwner := none, leaseUntil := none, version := row.version+1 }

def retriedEvent (errorCode : String) (availableAt : Date) (row : OutboxEvent) : OutboxEvent :=
  { row with
    status := .pending
    lastErrorCode := some errorCode
    availableAt := availableAt
    leaseOwner := none
    leaseUntil := none }

def retriedJob (errorCode : String) (availableAt : Date) (row : BackgroundJob) : BackgroundJob :=
  { row with
    status := .pending
    lastErrorCode := some errorCode
    availableAt := availableAt
    leaseOwner := none
    leaseUntil := none
    version := row.version+1 }

def deadEvent (errorCode : String) (row : OutboxEvent) : OutboxEvent :=
  { row with status := .failed, lastErrorCode := some errorCode, leaseOwner := none, leaseUntil := none }

def deadJob (errorCode : String) (row : BackgroundJob) : BackgroundJob :=
  { row with
    status := .failed
    lastErrorCode := some errorCode
    leaseOwner := none
    leaseUntil := none
    version := row.version+1 }

def ownedEvent (o : Outcome) (row : OutboxEvent) : Bool :=
  row.id = o.outboxEventId ∧ row.organizationId = o.organizationId ∧ row.leaseOwner = some o.owner ∧ row.status = .processing

def ownedJob (o : Outcome) (row : BackgroundJob) : Bool :=
  row.id = o.jobId ∧ row.organizationId = o.organizationId ∧ row.leaseOwner = some o.owner

def leasedJob (o : Outcome) (row : BackgroundJob) : Bool := ownedJob o row && row.status = .leased

namespace Prisma

/-- `ORDER BY "availableAt" ASC, id ASC`. -/
def before (a b : OutboxEvent) : Prop := a.availableAt < b.availableAt ∨ (a.availableAt = b.availableAt ∧ a.id ≤ b.id)

instance (a b : OutboxEvent) : Decidable (before a b) := inferInstanceAs (Decidable (_ ∨ _))

def picked (env : ClaimEnv) (input : ClaimInput) (q : Queue) : Option OutboxEvent :=
  ((q.events.filter (fun row => claimable input row && row.id ∉ env.locked)).insertionSort before).head?

def createdJob (env : ClaimEnv) (input : ClaimInput) (event : OutboxEvent) : BackgroundJob where
  id := env.newId
  organizationId := event.organizationId
  documentId := event.documentId
  outboxEventId := some event.id
  type := event.type
  status := .leased
  attemptCount := event.attemptCount
  maxAttempts := defaultJobMaxAttempts
  leaseOwner := some input.owner
  leaseUntil := some input.leaseUntil
  availableAt := event.availableAt
  lastErrorCode := none
  requestId := event.requestId
  version := 1

def findJob (event : OutboxEvent) (jobs : List BackgroundJob) : Option BackgroundJob :=
  jobs.find? (fun row => row.organizationId = event.organizationId ∧ row.outboxEventId = some event.id)

def claimedJobs (env : ClaimEnv) (input : ClaimInput) (event : OutboxEvent) (jobs : List BackgroundJob) : List BackgroundJob :=
  match findJob event jobs with
  | some existing =>
      updateMany (fun row => row.organizationId = event.organizationId ∧ row.id = existing.id) (leaseJob input) jobs
  | none => jobs ++ [createdJob env input event]

/-- A claim that finds no row after its update commits what it has written so far. -/
def claimNextByType (env : ClaimEnv) (input : ClaimInput) (q : Queue) : Option ClaimedOutboxWork × Queue :=
  match picked env input q with
  | none => (none,q)
  | some picked =>
      let events := updateMany (fun row => row.id = picked.id) (leaseEvent input) q.events
      match events.find? (fun row => row.organizationId = picked.organizationId ∧ row.id = picked.id) with
      | none => (none,⟨events,q.jobs⟩)
      | some event =>
          let jobs := claimedJobs env input event q.jobs
          ((findJob event jobs).map (fun job => ⟨event,job,picked.status = .processing⟩),⟨events,jobs⟩)

/-- The two statements that the outcome calls issue. -/
def settle (o : Outcome) (event : OutboxEvent → OutboxEvent) (job : BackgroundJob → BackgroundJob) (q : Queue) : Queue :=
  ⟨updateMany (ownedEvent o) event q.events,updateMany (leasedJob o) job q.jobs⟩

end Prisma

def prismaClaimer : OutboxClaimer where
  claimNextByType := Prisma.claimNextByType
  markProcessed o processedAt := Prisma.settle o (processedEvent processedAt) succeededJob
  scheduleRetry o errorCode availableAt := Prisma.settle o (retriedEvent errorCode availableAt) (retriedJob errorCode availableAt)
  markDeadLettered o errorCode := Prisma.settle o (deadEvent errorCode) (deadJob errorCode)

namespace Memory

def createdJob (event : OutboxEvent) : BackgroundJob where
  id := event.id
  organizationId := event.organizationId
  documentId := event.documentId
  outboxEventId := some event.id
  type := event.type
  status := .pending
  attemptCount := 0
  maxAttempts := defaultJobMaxAttempts
  leaseOwner := none
  leaseUntil := none
  availableAt := event.availableAt
  lastErrorCode := none
  requestId := event.requestId
  version := 1

def ensureJob (event : OutboxEvent) (jobs : List BackgroundJob) : BackgroundJob × List BackgroundJob :=
  match jobs.find? (fun row => row.outboxEventId = some event.id) with
  | some existing => (existing,jobs)
  | none => (createdJob event,jobs ++ [createdJob event])

def picked (input : ClaimInput) (q : Queue) : Option OutboxEvent := q.events.find? (claimable input)

/-- The row that is replaced is the first of its id, whatever it holds. -/
def claimNextByType (_ : ClaimEnv) (input : ClaimInput) (q : Queue) : Option ClaimedOutboxWork × Queue :=
  match picked input q with
  | none => (none,q)
  | some event =>
      let ensured := ensureJob event q.jobs
      (some ⟨leaseEvent input event,leaseJob input ensured.1,event.status = .processing⟩,
        ⟨updateFirst (claimable input) (leaseEvent input) q.events,
          updateFirst (fun row => row.id = ensured.1.id) (fun _ => leaseJob input ensured.1) ensured.2⟩)

/-- The job is only looked for when the event was found. -/
def settle (o : Outcome) (clause : BackgroundJob → Bool) (event : OutboxEvent → OutboxEvent)
    (job : BackgroundJob → BackgroundJob) (q : Queue) : Queue :=
  if q.events.any (ownedEvent o) then ⟨updateFirst (ownedEvent o) event q.events,updateFirst clause job q.jobs⟩ else q

end Memory

/-- `markProcessed` looks at the status of the job, `applyOutcome` does not. -/
def memoryClaimer : OutboxClaimer where
  claimNextByType := Memory.claimNextByType
  markProcessed o processedAt := Memory.settle o (leasedJob o) (processedEvent processedAt) succeededJob
  scheduleRetry o errorCode availableAt :=
    Memory.settle o (ownedJob o) (retriedEvent errorCode availableAt) (retriedJob errorCode availableAt)
  markDeadLettered o errorCode := Memory.settle o (ownedJob o) (deadEvent errorCode) (deadJob errorCode)

/-! The two tables in step. -/

/-- The status of the job that goes with that of the event. -/
def OutboxStatus.job : OutboxStatus → BackgroundJobStatus
  | .pending => .pending
  | .processing => .leased
  | .processed => .succeeded
  | .failed => .failed

structure Matched (e : OutboxEvent) (j : BackgroundJob) : Prop where
  organizationId : j.organizationId = e.organizationId
  status : j.status = e.status.job
  attemptCount : j.attemptCount = e.attemptCount
  leaseOwner : j.leaseOwner = e.leaseOwner
  leaseUntil : j.leaseUntil = e.leaseUntil

/-- A lease is what a row has while it is processed, and only then. -/
def Leased (e : OutboxEvent) : Prop :=
  (e.status = .processing ↔ e.leaseOwner.isSome = true) ∧ (e.status = .processing ↔ e.leaseUntil.isSome = true)

def Linked (e : OutboxEvent) (j : BackgroundJob) : Prop := j.outboxEventId = some e.id

instance (e : OutboxEvent) (j : BackgroundJob) : Decidable (Linked e j) := inferInstanceAs (Decidable (_ = _))

structure InStep (q : Queue) : Prop where
  eventIds : (q.events.map OutboxEvent.id).Nodup
  jobIds : (q.jobs.map BackgroundJob.id).Nodup
  refers : ∀ j ∈ q.jobs, ∀ id, j.outboxEventId = some id → ∃ e ∈ q.events, e.id = id
  linked : ∀ e ∈ q.events, ∃ j ∈ q.jobs, Linked e j
  single : ∀ e ∈ q.events, ∀ j ∈ q.jobs, ∀ j' ∈ q.jobs, Linked e j → Linked e j' → j = j'
  matched : ∀ e ∈ q.events, ∀ j ∈ q.jobs, Linked e j → Matched e j
  leased : ∀ e ∈ q.events, Leased e

theorem emptyInStep : InStep ⟨[],[]⟩ := by constructor <;> simp

def Queue.setRows (q : Queue) (eventId jobId : Id) (event : OutboxEvent → OutboxEvent) (job : BackgroundJob → BackgroundJob) :
    Queue :=
  ⟨updateMany (fun row => row.id = eventId) event q.events,updateMany (fun row => row.id = jobId) job q.jobs⟩

theorem sameEvent {q : Queue} (h : InStep q) {e e' : OutboxEvent} (mem : e ∈ q.events) (mem' : e' ∈ q.events)
    (same : e.id = e'.id) : e = e' := List.inj_on_of_nodup_map h.eventIds mem mem' same

theorem sameJob {q : Queue} (h : InStep q) {j j' : BackgroundJob} (mem : j ∈ q.jobs) (mem' : j' ∈ q.jobs)
    (same : j.id = j'.id) : j = j' := List.inj_on_of_nodup_map h.jobIds mem mem' same

structure Keeps (event : OutboxEvent → OutboxEvent) (job : BackgroundJob → BackgroundJob) : Prop where
  eventId : ∀ row, (event row).id = row.id
  jobId : ∀ row, (job row).id = row.id
  organizationId : ∀ row, (event row).organizationId = row.organizationId
  link : ∀ row, (job row).outboxEventId = row.outboxEventId
  attempts : ∀ row, row.attemptCount ≤ (event row).attemptCount
  budget : ∀ row, (job row).maxAttempts = row.maxAttempts

section
variable {q : Queue} (h : InStep q) {e : OutboxEvent} {j : BackgroundJob} (eMem : e ∈ q.events) (jMem : j ∈ q.jobs)
variable {event : OutboxEvent → OutboxEvent} {job : BackgroundJob → BackgroundJob} (keeps : Keeps event job)
include h

include eMem in
theorem setRowsEvent {jobId : Id} {row : OutboxEvent} (mem : row ∈ (q.setRows e.id jobId event job).events) :
    row = event e ∨ (row ∈ q.events ∧ row.id ≠ e.id) := by
  obtain ⟨row,old,⟨hit,rfl⟩ | ⟨miss,rfl⟩⟩ := updateManyMem mem
  · exact .inl (by rw [sameEvent h old eMem (of_decide_eq_true hit)])
  · exact .inr ⟨old,of_decide_eq_false miss⟩

include jMem in
theorem setRowsJob {eventId : Id} {row : BackgroundJob} (mem : row ∈ (q.setRows eventId j.id event job).jobs) :
    row = job j ∨ (row ∈ q.jobs ∧ row.id ≠ j.id) := by
  obtain ⟨row,old,⟨hit,rfl⟩ | ⟨miss,rfl⟩⟩ := updateManyMem mem
  · exact .inl (by rw [sameJob h old jMem (of_decide_eq_true hit)])
  · exact .inr ⟨old,of_decide_eq_false miss⟩

include eMem jMem keeps

/- The rows that go together afterwards: the two that were changed, and those that went
together before. -/
theorem setRowsPair (link : Linked e j) {row : OutboxEvent} {k : BackgroundJob}
    (rowMem : row ∈ (q.setRows e.id j.id event job).events) (kMem : k ∈ (q.setRows e.id j.id event job).jobs)
    (linked : Linked row k) : (row = event e ∧ k = job j) ∨ (row ∈ q.events ∧ row.id ≠ e.id ∧ k ∈ q.jobs) := by
  rcases setRowsEvent h eMem rowMem with rfl | ⟨old,other⟩
  · rcases setRowsJob h jMem kMem with rfl | ⟨kOld,away⟩
    · exact .inl ⟨rfl,rfl⟩
    · have here : Linked e k := linked.trans (congrArg some (keeps.eventId e))
      exact absurd (congrArg BackgroundJob.id (h.single e eMem k kOld j jMem here link)) away
  · rcases setRowsJob h jMem kMem with rfl | ⟨kOld,-⟩
    · have here : some row.id = some e.id := linked.symm.trans ((keeps.link j).trans link)
      exact absurd (Option.some.inj here) other
    · exact .inr ⟨old,other,kOld⟩

theorem setRowsInStep (link : Linked e j) (matched : Matched (event e) (job j)) (leased : Leased (event e)) :
    InStep (q.setRows e.id j.id event job) := by
  have jobMem : job j ∈ (q.setRows e.id j.id event job).jobs := (updateManyOf jMem).1 (decide_eq_true rfl)
  constructor
  · rw [Queue.setRows,updateManyKeys keeps.eventId]
    exact h.eventIds
  · rw [Queue.setRows,updateManyKeys keeps.jobId]
    exact h.jobIds
  · intro k mem id linked
    have old : ∃ row ∈ q.events, row.id = id := by
      rcases setRowsJob h jMem mem with rfl | ⟨kOld,-⟩
      · exact h.refers j jMem id ((keeps.link j).symm.trans linked)
      · exact h.refers k kOld id linked
    obtain ⟨row,rowMem,named⟩ := old
    by_cases hit : row.id = e.id
    · exact ⟨event row,(updateManyOf rowMem).1 (decide_eq_true hit),(keeps.eventId row).trans named⟩
    · exact ⟨row,(updateManyOf rowMem).2 (decide_eq_false hit),named⟩
  · intro row mem
    rcases setRowsEvent h eMem mem with rfl | ⟨old,other⟩
    · exact ⟨job j,jobMem,(keeps.link j).trans (link.trans (congrArg some (keeps.eventId e).symm))⟩
    · obtain ⟨k,kMem,linked⟩ := h.linked row old
      have away : k.id ≠ j.id := by
        intro same
        rw [sameJob h kMem jMem same] at linked
        exact other (Option.some.inj (linked.symm.trans link))
      exact ⟨k,(updateManyOf kMem).2 (decide_eq_false away),linked⟩
  · intro row mem k kMem k' kMem' linked linked'
    rcases setRowsPair h eMem jMem keeps link mem kMem linked with ⟨same,rfl⟩ | ⟨old,other,kOld⟩
    · rcases setRowsPair h eMem jMem keeps link mem kMem' linked' with ⟨-,rfl⟩ | ⟨-,other,-⟩
      · rfl
      · exact absurd (same ▸ keeps.eventId e) other
    · rcases setRowsPair h eMem jMem keeps link mem kMem' linked' with ⟨rfl,-⟩ | ⟨-,-,kOld'⟩
      · exact absurd (keeps.eventId e) other
      · exact h.single row old k kOld k' kOld' linked linked'
  · intro row mem k kMem linked
    rcases setRowsPair h eMem jMem keeps link mem kMem linked with ⟨rfl,rfl⟩ | ⟨old,-,kOld⟩
    · exact matched
    · exact h.matched row old k kOld linked
  · intro row mem
    rcases setRowsEvent h eMem mem with rfl | ⟨old,-⟩
    · exact leased
    · exact h.leased row old

end

/-! What the claimers do to tables in step. -/

inductive Report where
  | processed (processedAt : Date)
  | retry (errorCode : String) (availableAt : Date)
  | deadLettered (errorCode : String)
  deriving DecidableEq, Repr

def OutboxClaimer.report (c : OutboxClaimer) (o : Outcome) : Report → Queue → Queue
  | .processed processedAt => c.markProcessed o processedAt
  | .retry errorCode availableAt => c.scheduleRetry o errorCode availableAt
  | .deadLettered errorCode => c.markDeadLettered o errorCode

def Report.event : Report → OutboxEvent → OutboxEvent
  | .processed processedAt => processedEvent processedAt
  | .retry errorCode availableAt => retriedEvent errorCode availableAt
  | .deadLettered errorCode => deadEvent errorCode

def Report.job : Report → BackgroundJob → BackgroundJob
  | .processed _ => succeededJob
  | .retry errorCode availableAt => retriedJob errorCode availableAt
  | .deadLettered errorCode => deadJob errorCode

theorem leaseKeeps (input : ClaimInput) : Keeps (leaseEvent input) (leaseJob input) :=
  ⟨fun _ => rfl,fun _ => rfl,fun _ => rfl,fun _ => rfl,fun _ => Nat.le_succ _,fun _ => rfl⟩

theorem reportKeeps (r : Report) : Keeps r.event r.job := by
  cases r <;> exact ⟨fun _ => rfl,fun _ => rfl,fun _ => rfl,fun _ => rfl,fun _ => Nat.le_refl _,fun _ => rfl⟩

theorem leaseMatched (input : ClaimInput) {e j} (m : Matched e j) : Matched (leaseEvent input e) (leaseJob input j) :=
  ⟨m.organizationId,rfl,congrArg (· + 1) m.attemptCount,rfl,rfl⟩

theorem reportMatched (r : Report) {e j} (m : Matched e j) : Matched (r.event e) (r.job j) := by
  cases r <;> exact ⟨m.organizationId,rfl,m.attemptCount,rfl,rfl⟩

theorem leaseLeased (input : ClaimInput) (e : OutboxEvent) : Leased (leaseEvent input e) := by
  simp [Leased,leaseEvent]

theorem reportLeased (r : Report) (e : OutboxEvent) : Leased (r.event e) := by
  cases r <;> simp [Leased,Report.event,processedEvent,retriedEvent,deadEvent]

/-- The outcome of the work that `owner` has claimed. -/
def ClaimedOutboxWork.outcome (work : ClaimedOutboxWork) (owner : Id) : Outcome :=
  ⟨work.event.organizationId,work.event.id,work.job.id,owner⟩

structure Names (o : Outcome) (e : OutboxEvent) (j : BackgroundJob) : Prop where
  organizationId : o.organizationId = e.organizationId
  event : o.outboxEventId = e.id
  job : o.jobId = j.id

section
variable {q : Queue} (h : InStep q) {e : OutboxEvent} {j : BackgroundJob} (eMem : e ∈ q.events) (jMem : j ∈ q.jobs)
variable (link : Linked e j) {o : Outcome} (names : Names o e j)
include h eMem names

theorem ownedEventIff {row : OutboxEvent} (mem : row ∈ q.events) :
    ownedEvent o row = true ↔ row.id = e.id ∧ e.leaseOwner = some o.owner := by
  simp only [ownedEvent,decide_eq_true_eq]
  constructor
  · intro ⟨named,_,owner,_⟩
    have same := sameEvent h mem eMem (named.trans names.event)
    exact ⟨congrArg OutboxEvent.id same,same ▸ owner⟩
  · intro ⟨named,owner⟩
    rw [sameEvent h mem eMem named]
    exact ⟨names.event.symm,names.organizationId.symm,owner,(h.leased e eMem).1.mpr (by rw [owner]; rfl)⟩

include jMem link

theorem ownedJobIff {row : BackgroundJob} (mem : row ∈ q.jobs) :
    ownedJob o row = true ↔ row.id = j.id ∧ e.leaseOwner = some o.owner := by
  have m := h.matched e eMem j jMem link
  simp only [ownedJob,decide_eq_true_eq]
  constructor
  · intro ⟨named,_,owner⟩
    have same := sameJob h mem jMem (named.trans names.job)
    exact ⟨congrArg BackgroundJob.id same,m.leaseOwner ▸ same ▸ owner⟩
  · intro ⟨named,owner⟩
    rw [sameJob h mem jMem named]
    exact ⟨names.job.symm,m.organizationId.trans names.organizationId.symm,m.leaseOwner.trans owner⟩

theorem leasedJobIff {row : BackgroundJob} (mem : row ∈ q.jobs) :
    leasedJob o row = true ↔ row.id = j.id ∧ e.leaseOwner = some o.owner := by
  rw [leasedJob,Bool.and_eq_true,ownedJobIff h eMem jMem link names mem,and_iff_left_iff_imp]
  intro ⟨named,owner⟩
  have working : e.status = .processing := (h.leased e eMem).1.mpr (by rw [owner]; rfl)
  rw [sameJob h mem jMem named,(h.matched e eMem j jMem link).status,working]
  rfl

/- An outcome call changes the two rows it is about, while they are still leased to its
owner, and otherwise nothing. -/
theorem prismaSettle {event job} :
    Prisma.settle o event job q = if e.leaseOwner = some o.owner then q.setRows e.id j.id event job else q := by
  have events : ∀ row ∈ q.events, ownedEvent o row = decide (row.id = e.id ∧ e.leaseOwner = some o.owner) :=
    fun row mem => Bool.eq_iff_iff.mpr (by rw [ownedEventIff h eMem names mem,decide_eq_true_eq])
  have jobs : ∀ row ∈ q.jobs, leasedJob o row = decide (row.id = j.id ∧ e.leaseOwner = some o.owner) :=
    fun row mem => Bool.eq_iff_iff.mpr (by rw [leasedJobIff h eMem jMem link names mem,decide_eq_true_eq])
  rw [Prisma.settle,updateManyCongr events,updateManyCongr jobs]
  split
  · next own =>
    simp only [own,and_true]
    rfl
  · next other =>
    rw [updateManyNone (fun row _ => by simp [other]),updateManyNone (fun row _ => by simp [other])]

omit link in
theorem memorySettle {clause : BackgroundJob → Bool} {event job}
    (clauseIff : ∀ row ∈ q.jobs, clause row = true ↔ row.id = j.id ∧ e.leaseOwner = some o.owner) :
    Memory.settle o clause event job q = if e.leaseOwner = some o.owner then q.setRows e.id j.id event job else q := by
  have hit : q.events.any (ownedEvent o) = true ↔ e.leaseOwner = some o.owner := by
    rw [List.any_eq_true]
    constructor
    · intro ⟨row,mem,owned⟩
      exact ((ownedEventIff h eMem names mem).mp owned).2
    · intro own
      exact ⟨e,eMem,(ownedEventIff h eMem names eMem).mpr ⟨rfl,own⟩⟩
  unfold Memory.settle
  split
  · next found =>
    have own := hit.mp found
    rw [if_pos own,
      updateFirstMany h.eventIds ⟨e,eMem,(ownedEventIff h eMem names eMem).mpr ⟨rfl,own⟩⟩
        (fun row mem owned => ⟨((ownedEventIff h eMem names mem).mp owned).1,rfl⟩),
      updateFirstMany h.jobIds ⟨j,jMem,(clauseIff j jMem).mpr ⟨rfl,own⟩⟩
        (fun row mem owned => ⟨((clauseIff row mem).mp owned).1,rfl⟩)]
    rfl
  · next none => rw [if_neg (fun own => none (hit.mpr own))]

end

/-- What the queue needs of its claimer, with the event that it picks. -/
structure Lawful (c : OutboxClaimer) (picks : ClaimEnv → ClaimInput → Queue → Option OutboxEvent) : Prop where
  claims : ∀ env input {q}, InStep q → c.claimNextByType env input q = (none,q) ∨
    ∃ e ∈ q.events, ∃ j ∈ q.jobs, picks env input q = some e ∧ Linked e j ∧ claimable input e = true ∧
    c.claimNextByType env input q =
      (some ⟨leaseEvent input e,leaseJob input j,e.status = .processing⟩,q.setRows e.id j.id (leaseEvent input) (leaseJob input))
  reports : ∀ {q e j o}, InStep q → e ∈ q.events → j ∈ q.jobs → Linked e j → Names o e j → ∀ r,
    c.report o r q = if e.leaseOwner = some o.owner then q.setRows e.id j.id r.event r.job else q

theorem pickedMem {env input q e} (found : Prisma.picked env input q = some e) : e ∈ q.events ∧ claimable input e = true := by
  have sorted := List.mem_of_mem_head? found
  rw [List.mem_insertionSort,List.mem_filter,Bool.and_eq_true] at sorted
  exact ⟨sorted.1,sorted.2.1⟩

theorem findJobLinked {q : Queue} (h : InStep q) {e j} (eMem : e ∈ q.events) (jMem : j ∈ q.jobs) (link : Linked e j) :
    Prisma.findJob e q.jobs = some j := by
  have m := h.matched e eMem j jMem link
  cases found : Prisma.findJob e q.jobs with
  | none =>
    have none := List.find?_eq_none.mp found j jMem
    exact absurd (decide_eq_true ⟨m.organizationId,link⟩) none
  | some k =>
    have hit := List.find?_some found
    rw [decide_eq_true_eq] at hit
    rw [h.single e eMem k (List.mem_of_find?_eq_some found) j jMem hit.2 link]

theorem prismaClaim {env input q} (h : InStep q) {e j} (found : Prisma.picked env input q = some e) (jMem : j ∈ q.jobs)
    (link : Linked e j) : Prisma.claimNextByType env input q =
      (some ⟨leaseEvent input e,leaseJob input j,e.status = .processing⟩,
        q.setRows e.id j.id (leaseEvent input) (leaseJob input)) := by
  obtain ⟨eMem,-⟩ := pickedMem found
  have m := h.matched e eMem j jMem link
  have after := setRowsInStep h eMem jMem (leaseKeeps input) link (leaseMatched input m) (leaseLeased input e)
  have eventMem : leaseEvent input e ∈ (q.setRows e.id j.id (leaseEvent input) (leaseJob input)).events :=
    (updateManyOf eMem).1 (decide_eq_true rfl)
  have jobMem : leaseJob input j ∈ (q.setRows e.id j.id (leaseEvent input) (leaseJob input)).jobs :=
    (updateManyOf jMem).1 (decide_eq_true rfl)
  have event : (updateMany (fun row => row.id = e.id) (leaseEvent input) q.events).find?
      (fun row => row.organizationId = e.organizationId ∧ row.id = e.id) = some (leaseEvent input e) := by
    cases back : (updateMany (fun row => row.id = e.id) (leaseEvent input) q.events).find?
        (fun row => row.organizationId = e.organizationId ∧ row.id = e.id) with
    | none => exact absurd (decide_eq_true ⟨rfl,rfl⟩) (List.find?_eq_none.mp back _ eventMem)
    | some row =>
      have hit := List.find?_some back
      rw [decide_eq_true_eq] at hit
      rw [sameEvent after (List.mem_of_find?_eq_some back) eventMem hit.2]
  have jobs : Prisma.claimedJobs env input (leaseEvent input e) q.jobs =
      updateMany (fun row => row.id = j.id) (leaseJob input) q.jobs := by
    have linked := findJobLinked h eMem jMem link
    have existing : Prisma.findJob (leaseEvent input e) q.jobs = some j := linked
    rw [Prisma.claimedJobs,existing]
    refine updateManyCongr (fun row mem => Bool.eq_iff_iff.mpr ?_)
    simp only [decide_eq_true_eq]
    refine ⟨And.right,fun same => ⟨?_,same⟩⟩
    rw [sameJob h mem jMem same]
    exact m.organizationId
  have job := findJobLinked after eventMem jobMem (link : Linked (leaseEvent input e) (leaseJob input j))
  rw [Prisma.claimNextByType,found]
  simp only [event,jobs]
  rw [show updateMany (fun row => decide (row.id = j.id)) (leaseJob input) q.jobs =
    (q.setRows e.id j.id (leaseEvent input) (leaseJob input)).jobs from rfl,job]
  rfl

theorem prismaLawful : Lawful prismaClaimer Prisma.picked where
  claims env input q h := by
    cases found : Prisma.picked env input q with
    | none =>
      refine .inl ?_
      show Prisma.claimNextByType env input q = _
      rw [Prisma.claimNextByType,found]
    | some e =>
      obtain ⟨eMem,due⟩ := pickedMem found
      obtain ⟨j,jMem,link⟩ := h.linked e eMem
      exact .inr ⟨e,eMem,j,jMem,rfl,link,due,prismaClaim h found jMem link⟩
  reports h eMem jMem link names r := by
    cases r <;> exact prismaSettle h eMem jMem link names

theorem memoryClaim (env : ClaimEnv) {input q} (h : InStep q) {e j} (found : Memory.picked input q = some e) (jMem : j ∈ q.jobs)
    (link : Linked e j) : Memory.claimNextByType env input q =
      (some ⟨leaseEvent input e,leaseJob input j,e.status = .processing⟩,
        q.setRows e.id j.id (leaseEvent input) (leaseJob input)) := by
  have eMem := List.mem_of_find?_eq_some found
  have ensured : Memory.ensureJob e q.jobs = (j,q.jobs) := by
    unfold Memory.ensureJob
    cases hit : q.jobs.find? (fun row => row.outboxEventId = some e.id) with
    | none =>
      have none := List.find?_eq_none.mp hit j jMem
      rw [decide_eq_true_eq] at none
      exact absurd link none
    | some k =>
      have linked := List.find?_some hit
      rw [decide_eq_true_eq] at linked
      simp only [h.single e eMem k (List.mem_of_find?_eq_some hit) j jMem linked link]
  have jobs : updateFirst (fun row => row.id = j.id) (fun _ => leaseJob input j) q.jobs =
      updateMany (fun row => row.id = j.id) (leaseJob input) q.jobs := by
    refine updateFirstMany h.jobIds ⟨j,jMem,decide_eq_true rfl⟩ (fun row mem hit => ?_)
    have same := of_decide_eq_true hit
    exact ⟨same,by rw [sameJob h mem jMem same]⟩
  have events : updateFirst (claimable input) (leaseEvent input) q.events =
      updateMany (fun row => row.id = e.id) (leaseEvent input) q.events := updateFirstFound h.eventIds found rfl
  rw [Memory.claimNextByType,found]
  simp only [ensured,jobs,events]
  rfl

theorem memoryLawful : Lawful memoryClaimer (fun _ => Memory.picked) where
  claims env input q h := by
    cases found : Memory.picked input q with
    | none =>
      refine .inl ?_
      show Memory.claimNextByType env input q = _
      rw [Memory.claimNextByType,found]
    | some e =>
      have eMem := List.mem_of_find?_eq_some found
      obtain ⟨j,jMem,link⟩ := h.linked e eMem
      exact .inr ⟨e,eMem,j,jMem,rfl,link,List.find?_some found,memoryClaim env h found jMem link⟩
  reports h eMem jMem link names r := by
    cases r with
    | processed processedAt =>
      exact memorySettle h eMem jMem names (fun row mem => leasedJobIff h eMem jMem link names mem)
    | retry errorCode availableAt =>
      exact memorySettle h eMem jMem names (fun row mem => ownedJobIff h eMem jMem link names mem)
    | deadLettered errorCode =>
      exact memorySettle h eMem jMem names (fun row mem => ownedJobIff h eMem jMem link names mem)

theorem published {input q q'} (ran : publish input q = .ok q') :
    (∀ row ∈ q.events, row.id ≠ input.id) ∧ (∀ row ∈ q.jobs, row.id ≠ input.jobId) ∧
      q' = ⟨q.events ++ [publishedEvent input],q.jobs ++ [publishedJob input]⟩ := by
  simp only [publish,thenOk,checkOk,Bool.and_eq_true,List.all_eq_true,decide_eq_true_eq] at ran
  obtain ⟨-,⟨events,jobs⟩,same⟩ := ran
  exact ⟨events,jobs,(Except.ok.inj same).symm⟩

theorem publishedPair {input q q'} (h : InStep q) (ran : publish input q = .ok q') {e j} (eMem : e ∈ q'.events)
    (jMem : j ∈ q'.jobs) (link : Linked e j) :
    (e ∈ q.events ∧ j ∈ q.jobs) ∨ (e = publishedEvent input ∧ j = publishedJob input) := by
  obtain ⟨freshEvent,-,rfl⟩ := published ran
  rcases List.mem_append.mp eMem with eOld | eNew <;> rcases List.mem_append.mp jMem with jOld | jNew
  · exact .inl ⟨eOld,jOld⟩
  · rw [List.mem_singleton.mp jNew] at link
    exact absurd (Option.some.inj link).symm (freshEvent e eOld)
  · obtain ⟨row,mem,named⟩ := h.refers j jOld e.id link
    rw [List.mem_singleton.mp eNew] at named
    exact absurd named (freshEvent row mem)
  · exact .inr ⟨List.mem_singleton.mp eNew,List.mem_singleton.mp jNew⟩

theorem publishInStep {input q q'} (h : InStep q) (ran : publish input q = .ok q') : InStep q' := by
  have pair := fun {e j} => publishedPair h ran (e := e) (j := j)
  obtain ⟨freshEvent,freshJob,rfl⟩ := published ran
  have own : Linked (publishedEvent input) (publishedJob input) := rfl
  constructor
  · exact keysAppended h.eventIds freshEvent
  · exact keysAppended h.jobIds freshJob
  · intro j jMem id link
    rcases List.mem_append.mp jMem with old | new
    · obtain ⟨e,mem,named⟩ := h.refers j old id link
      exact ⟨e,List.mem_append_left _ mem,named⟩
    · rw [List.mem_singleton.mp new] at link
      exact ⟨publishedEvent input,by simp,Option.some.inj link⟩
  · intro e eMem
    rcases List.mem_append.mp eMem with old | new
    · obtain ⟨j,mem,link⟩ := h.linked e old
      exact ⟨j,List.mem_append_left _ mem,link⟩
    · exact ⟨publishedJob input,by simp,List.mem_singleton.mp new ▸ own⟩
  · intro e eMem j jMem j' jMem' link link'
    rcases pair eMem jMem link with ⟨old,jOld⟩ | ⟨new,rfl⟩
    · rcases pair eMem jMem' link' with ⟨-,jOld'⟩ | ⟨rfl,-⟩
      · exact h.single e old j jOld j' jOld' link link'
      · exact absurd rfl (freshEvent _ old)
    · rcases pair eMem jMem' link' with ⟨old,-⟩ | ⟨-,rfl⟩
      · exact absurd (by rw [new]; rfl) (freshEvent e old)
      · rfl
  · intro e eMem j jMem link
    rcases pair eMem jMem link with ⟨old,jOld⟩ | ⟨rfl,rfl⟩
    · exact h.matched e old j jOld link
    · exact ⟨rfl,rfl,rfl,rfl,rfl⟩
  · intro e eMem
    rcases List.mem_append.mp eMem with old | new
    · exact h.leased e old
    · rw [List.mem_singleton.mp new]
      simp [Leased,publishedEvent]

/-! The queue with everything that was ever claimed from it, by whom. A worker may report on
its work late, twice or not at all. -/

structure Ledger where
  queue : Queue
  held : List (Id × ClaimedOutboxWork)
  deriving DecidableEq, Repr

inductive Call where
  | publish (input : JobPublishInput)
  | claim (env : ClaimEnv) (input : ClaimInput)
  | report (owner : Id) (work : ClaimedOutboxWork) (r : Report)

def Ledger.next (c : OutboxClaimer) (l : Ledger) : Call → Ledger
  | .publish input =>
      match publish input l.queue with
      | .ok queue => { l with queue := queue }
      | .error _ => l
  | .claim env input =>
      let claimed := c.claimNextByType env input l.queue
      ⟨claimed.2,l.held ++ claimed.1.toList.map (fun work => (input.owner,work))⟩
  | .report owner work r =>
      if (owner,work) ∈ l.held then { l with queue := c.report (work.outcome owner) r l.queue } else l

def Ledger.run (c : OutboxClaimer) (calls : List Call) : Ledger := calls.foldl (Ledger.next c) ⟨⟨[],[]⟩,[]⟩

/-- What is still true of the rows that were claimed. -/
structure Stands (work : ClaimedOutboxWork) (e : OutboxEvent) (j : BackgroundJob) : Prop where
  link : Linked e j
  event : work.event.id = e.id
  organizationId : work.event.organizationId = e.organizationId
  job : work.job.id = j.id
  attempts : work.event.attemptCount ≤ e.attemptCount
  budget : work.job.maxAttempts = j.maxAttempts

def Known (q : Queue) (work : ClaimedOutboxWork) : Prop := ∃ e ∈ q.events, ∃ j ∈ q.jobs, Stands work e j

/-- Which attempt on which event a claim began. -/
def ClaimedOutboxWork.attempt (work : ClaimedOutboxWork) : Id × Nat := (work.event.id,work.event.attemptCount)

structure Ledger.Kept (l : Ledger) : Prop where
  inStep : InStep l.queue
  known : ∀ entry ∈ l.held, Known l.queue entry.2
  attempts : (l.held.map (fun entry => entry.2.attempt)).Nodup
  begun : ∀ entry ∈ l.held, 1 ≤ entry.2.event.attemptCount

theorem knownRows {q : Queue} {work eventId jobId event job} (known : Known q work) (keeps : Keeps event job) :
    Known (q.setRows eventId jobId event job) work := by
  obtain ⟨e,eMem,j,jMem,stands⟩ := known
  have e' : ∃ row ∈ (q.setRows eventId jobId event job).events,
      row.id = e.id ∧ row.organizationId = e.organizationId ∧ e.attemptCount ≤ row.attemptCount := by
    by_cases hit : e.id = eventId
    · exact ⟨event e,(updateManyOf eMem).1 (decide_eq_true hit),keeps.eventId e,keeps.organizationId e,keeps.attempts e⟩
    · exact ⟨e,(updateManyOf eMem).2 (decide_eq_false hit),rfl,rfl,Nat.le_refl _⟩
  have j' : ∃ row ∈ (q.setRows eventId jobId event job).jobs,
      row.id = j.id ∧ row.outboxEventId = j.outboxEventId ∧ row.maxAttempts = j.maxAttempts := by
    by_cases hit : j.id = jobId
    · exact ⟨job j,(updateManyOf jMem).1 (decide_eq_true hit),keeps.jobId j,keeps.link j,keeps.budget j⟩
    · exact ⟨j,(updateManyOf jMem).2 (decide_eq_false hit),rfl,rfl,rfl⟩
  obtain ⟨e',eMem',eId,organization,attempts⟩ := e'
  obtain ⟨j',jMem',jId,link,budget⟩ := j'
  refine ⟨e',eMem',j',jMem',?_,stands.event.trans eId.symm,stands.organizationId.trans organization.symm,
    stands.job.trans jId.symm,stands.attempts.trans attempts,stands.budget.trans budget.symm⟩
  rw [Linked,link,eId]
  exact stands.link

theorem otherEvent {q : Queue} {e other : OutboxEvent} {jobId event job} (mem : other ∈ q.events) (away : other.id ≠ e.id) :
    other ∈ (q.setRows e.id jobId event job).events := (updateManyOf mem).2 (decide_eq_false away)

section
variable {c : OutboxClaimer} {picks} (lawful : Lawful c picks)
include lawful

theorem reportRows {q e j owner work} (h : InStep q) (eMem : e ∈ q.events) (jMem : j ∈ q.jobs) (stands : Stands work e j)
    (r : Report) : c.report (work.outcome owner) r q =
      if e.leaseOwner = some owner then q.setRows e.id j.id r.event r.job else q :=
  lawful.reports h eMem jMem stands.link ⟨stands.organizationId,stands.event,stands.job⟩ r

theorem keptStep {l : Ledger} (kept : l.Kept) (call : Call) : (l.next c call).Kept := by
  cases call with
  | publish input =>
    simp only [Ledger.next]
    split
    · next queue ran =>
      refine ⟨publishInStep kept.inStep ran,fun entry mem => ?_,kept.attempts,kept.begun⟩
      obtain ⟨e,eMem,j,jMem,rest⟩ := kept.known entry mem
      obtain ⟨-,-,rfl⟩ := published ran
      exact ⟨e,List.mem_append_left _ eMem,j,List.mem_append_left _ jMem,rest⟩
    · exact kept
  | claim env input =>
    simp only [Ledger.next]
    rcases lawful.claims env input kept.inStep with idle | ⟨e,eMem,j,jMem,-,link,-,ran⟩
    · rw [idle]
      simpa using kept
    · rw [ran]
      have m := kept.inStep.matched e eMem j jMem link
      have fresh : ∀ entry ∈ l.held, entry.2.attempt ≠ (e.id,e.attemptCount+1) := by
        intro entry mem same
        obtain ⟨named,attempt⟩ := Prod.mk.inj same
        obtain ⟨e',eMem',j',jMem',stands⟩ := kept.known entry mem
        rw [sameEvent kept.inStep eMem' eMem (stands.event.symm.trans named)] at stands
        have bound := stands.attempts
        omega
      refine ⟨setRowsInStep kept.inStep eMem jMem (leaseKeeps input) link (leaseMatched input m) (leaseLeased input e),
        fun entry mem => ?_,keysAppended kept.attempts fresh,fun entry mem => ?_⟩
      · rcases List.mem_append.mp mem with old | new
        · exact knownRows (kept.known entry old) (leaseKeeps input)
        · rw [List.mem_singleton.mp new]
          exact ⟨leaseEvent input e,(updateManyOf eMem).1 (decide_eq_true rfl),
            leaseJob input j,(updateManyOf jMem).1 (decide_eq_true rfl),link,rfl,rfl,rfl,Nat.le_refl _,rfl⟩
      · rcases List.mem_append.mp mem with old | new
        · exact kept.begun entry old
        · rw [List.mem_singleton.mp new]
          exact Nat.le_add_left 1 _
  | report owner work r =>
    simp only [Ledger.next]
    split
    · next held =>
      obtain ⟨e,eMem,j,jMem,stands⟩ := kept.known _ held
      rw [reportRows lawful kept.inStep eMem jMem stands]
      split
      · have m := kept.inStep.matched e eMem j jMem stands.link
        exact ⟨setRowsInStep kept.inStep eMem jMem (reportKeeps r) stands.link (reportMatched r m) (reportLeased r e),
          fun entry mem => knownRows (kept.known entry mem) (reportKeeps r),kept.attempts,kept.begun⟩
      · exact kept
    · exact kept

theorem keptRun {l : Ledger} (kept : l.Kept) (calls : List Call) : (calls.foldl (Ledger.next c) l).Kept := by
  induction calls generalizing l with
  | nil => exact kept
  | cons call calls ih => exact ih (keptStep lawful kept call)

theorem terminalStep {l : Ledger} (kept : l.Kept) {e : OutboxEvent} (mem : e ∈ l.queue.events)
    (terminal : e.status = .processed ∨ e.status = .failed) (call : Call) : e ∈ (l.next c call).queue.events := by
  cases call with
  | publish input =>
    simp only [Ledger.next]
    split
    · next queue ran =>
      obtain ⟨-,-,rfl⟩ := published ran
      exact List.mem_append_left _ mem
    · exact mem
  | claim env input =>
    simp only [Ledger.next]
    rcases lawful.claims env input kept.inStep with idle | ⟨e',eMem',j,jMem,-,link,due,ran⟩
    · rw [idle]
      exact mem
    · rw [ran]
      refine otherEvent mem (fun same => ?_)
      rw [← sameEvent kept.inStep mem eMem' same] at due
      rcases terminal with closed | closed <;> simp [claimable,closed] at due
  | report owner work r =>
    simp only [Ledger.next]
    split
    · next held =>
      obtain ⟨e',eMem',j,jMem,stands⟩ := kept.known _ held
      rw [reportRows lawful kept.inStep eMem' jMem stands]
      split
      · next own =>
        refine otherEvent mem (fun same => ?_)
        have working := (kept.inStep.leased e' eMem').1.mpr (by rw [own]; rfl)
        rw [← sameEvent kept.inStep mem eMem' same] at working
        rcases terminal with closed | closed <;> rw [closed] at working <;> cases working
      · exact mem
    · exact mem

theorem terminalRun {l : Ledger} (kept : l.Kept) {e : OutboxEvent} (mem : e ∈ l.queue.events)
    (terminal : e.status = .processed ∨ e.status = .failed) (calls : List Call) :
    e ∈ (calls.foldl (Ledger.next c) l).queue.events := by
  induction calls generalizing l with
  | nil => exact mem
  | cons call calls ih => exact ih (keptStep lawful kept call) (terminalStep lawful kept mem terminal call)

theorem unexpiredKept {q : Queue} (h : InStep q) {e : OutboxEvent} (mem : e ∈ q.events) {leaseUntil : Date} {input : ClaimInput}
    (working : e.status = .processing) (until' : e.leaseUntil = some leaseUntil) (unexpired : input.now ≤ leaseUntil)
    (env : ClaimEnv) : e ∈ (c.claimNextByType env input q).2.events ∧
      ∀ work, (c.claimNextByType env input q).1 = some work → work.event.id ≠ e.id := by
  rcases lawful.claims env input h with idle | ⟨e',eMem',j,jMem,-,link,due,ran⟩
  · rw [idle]
    exact ⟨mem,fun work claimed => by cases claimed⟩
  · have away : e.id ≠ e'.id := by
      intro same
      rw [← sameEvent h mem eMem' same] at due
      simp [claimable,working,until',Int.not_lt.mpr unexpired] at due
    rw [ran]
    exact ⟨otherEvent mem away,fun work claimed same => away (by rw [← same,← Option.some.inj claimed]; rfl)⟩

theorem lateReport {l : Ledger} (kept : l.Kept) {owner : Id} {work : ClaimedOutboxWork} {r : Report}
    (lost : ∀ e ∈ l.queue.events, e.id = work.event.id → e.leaseOwner ≠ some owner) :
    (l.next c (.report owner work r)).queue = l.queue := by
  simp only [Ledger.next]
  split
  · next held =>
    obtain ⟨e,eMem,j,jMem,stands⟩ := kept.known _ held
    rw [reportRows lawful kept.inStep eMem jMem stands,if_neg (lost e eMem stands.event.symm)]
  · rfl

end

theorem emptyKept : Ledger.Kept ⟨⟨[],[]⟩,[]⟩ :=
  ⟨emptyInStep,fun _ mem => (by cases mem),List.nodup_nil,fun _ mem => (by cases mem)⟩

theorem queueInvariant {c : OutboxClaimer} (deployed : c ∈ [prismaClaimer,memoryClaimer]) (calls : List Call) :
    InStep (Ledger.run c calls).queue ∧
    (∀ e ∈ (Ledger.run c calls).queue.events, ∀ env input leaseUntil, e.status = .processing →
      e.leaseUntil = some leaseUntil → input.now ≤ leaseUntil →
      e ∈ (c.claimNextByType env input (Ledger.run c calls).queue).2.events ∧
      ∀ work, (c.claimNextByType env input (Ledger.run c calls).queue).1 = some work → work.event.id ≠ e.id) ∧
    (∀ e ∈ (Ledger.run c calls).queue.events, e.status = .processed ∨ e.status = .failed →
      ∀ later, e ∈ (Ledger.run c (calls ++ later)).queue.events) ∧
    (∀ owner work r, (∀ e ∈ (Ledger.run c calls).queue.events, e.id = work.event.id → e.leaseOwner ≠ some owner) →
      ((Ledger.run c calls).next c (.report owner work r)).queue = (Ledger.run c calls).queue) := by
  have lawful : ∃ picks, Lawful c picks := by
    rcases List.mem_cons.mp deployed with rfl | other
    · exact ⟨_,prismaLawful⟩
    · rw [List.mem_singleton.mp other]
      exact ⟨_,memoryLawful⟩
  obtain ⟨picks,lawful⟩ := lawful
  have kept : (Ledger.run c calls).Kept := keptRun lawful emptyKept calls
  refine ⟨kept.inStep,?_,?_,fun owner work r lost => lateReport lawful kept lost⟩
  · intro e mem env input leaseUntil working until' unexpired
    exact unexpiredKept lawful kept.inStep mem working until' unexpired env
  · intro e mem terminal later
    rw [Ledger.run,List.foldl_append]
    exact terminalRun lawful kept mem terminal later

/-- A second worker takes over the expired lease, and the first one reports after that. -/
def takenOver : List Call :=
  [.publish ⟨1,2,3,none,.flattenSignature,[],none,0,none⟩,.claim ⟨[],0⟩ ⟨.flattenSignature,0,7,60⟩,
    .claim ⟨[],0⟩ ⟨.flattenSignature,100,8,160⟩]

theorem takenOverInvariant : InStep (Ledger.run prismaClaimer takenOver).queue ∧
    ∀ work r, ((Ledger.run prismaClaimer takenOver).held.map Prod.fst = [7,8]) ∧
      ((∀ e ∈ (Ledger.run prismaClaimer takenOver).queue.events, e.id = work.event.id → e.leaseOwner ≠ some 7) →
      ((Ledger.run prismaClaimer takenOver).next prismaClaimer (.report 7 work r)).queue =
        (Ledger.run prismaClaimer takenOver).queue) := by
  obtain ⟨inStep,-,-,late⟩ := queueInvariant (c := prismaClaimer) List.mem_cons_self takenOver
  exact ⟨inStep,fun work r => ⟨by decide,late 7 work r⟩⟩

end ESign.JobQueue
