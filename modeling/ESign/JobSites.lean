import ESign.ClosingJobs
import ESign.JobProcessor
import ESign.Records

/-! The rows of a document and the queue that its jobs are taken from, together. What a unit of
work publishes is committed with it. A worker that claims a flatten job runs it among the requests
of the document, and reports what it came to. -/
namespace ESign
open JsText

def JobPayload.type : JobPayload → JobType
  | .inspectDocument _ => .inspectDocument
  | .notifySigner _ _ => .notifySigner
  | .flattenSignature _ _ _ => .flattenSignature

def JobPayload.entries (idText : Id → Utf16) (documentId : Id) : JobPayload → List (Utf16 × Utf16)
  | .inspectDocument revisionId => [(utf16 "documentId",idText documentId),(utf16 "revisionId",idText revisionId)]
  | .notifySigner signerId sessionId => [(utf16 "signerId",idText signerId),(utf16 "sessionId",idText sessionId)]
  | .flattenSignature signerId sessionId revisionId =>
      [(utf16 "documentId",idText documentId),(utf16 "signerId",idText signerId),(utf16 "sessionId",idText sessionId),
        (utf16 "revisionId",idText revisionId)]

def Request.flattens : Request → Bool
  | .flattenSignature _ _ => true
  | _ => false

namespace JobQueue
open StoreProgram StoreProgram.Outline

/-- Which document is followed, and what its jobs run on. -/
structure Deployment where
  settings : Settings
  claimer : OutboxClaimer
  processor : ProcessorSettings
  organizationId : Id
  documentId : Id
  idText : Id → Utf16

abbrev SiteTask := Program Envelope Write Input (Except AppError Unit) (Except AppError (Option ResponseBody))

/-- What a worker does with its claim: the job is of another kind or document, its payload is
refused, or it runs as a task. -/
inductive Handler where
  | elsewhere
  | refused
  | running (index : Nat)
  deriving DecidableEq, Repr

structure Site where
  rows : Running
  world : World
  handler : Id → Handler

def Site.start (draft : NewDraft) : Site := ⟨initial (createDraftDocument draft),World.start,fun _ => .elsewhere⟩

/-- `publish` is for the jobs of other documents, and `handle` is given the result of a job
that is not followed. -/
inductive SiteAction where
  | request (request : Request)
  | step (index : Nat) (input : Input)
  | publish (input : JobPublishInput)
  | poll (owner : Id) (env : ClaimEnv) (type : JobType) (now : Date)
  | handle (owner : Id) (result : Except AppError Unit)
  | report (owner : Id) (now : Date) (random : ℚ) (written : Bool) (thrown : Option AppError)
  | crash (owner : Id)

namespace Deployment

variable (d : Deployment)

def flattens (row : OutboxEvent) : Bool :=
  row.type = .flattenSignature ∧ row.organizationId = d.organizationId ∧ row.documentId = some d.documentId

def queued (availableAt : Date) (event : ESign.OutboxEvent) : JobPublishInput :=
  ⟨event.id,event.jobId,d.organizationId,some d.documentId,event.payload.type,
    event.payload.entries d.idText d.documentId,none,availableAt,none⟩

def publishAll (availableAt : Date) : List ESign.OutboxEvent → Queue → Except AppError Queue
  | [], q => .ok q
  | event :: rest, q => do
      let q ← publish (d.queued availableAt event) q
      publishAll availableAt rest q

/-- One action of a task. Where publishing fails, the unit of work fails with it. -/
def turn (site : Site) (index : Nat) (input : Input) : Option Site := do
  let rows ← (esign d.settings).apply site.rows (.step index input)
  match d.publishAll input.now (rows.store.outbox.drop site.rows.store.outbox.length) site.world.ledger.queue with
  | .ok queue =>
      some { site with rows := rows, world := { site.world with ledger := { site.world.ledger with queue := queue } } }
  | .error error => do
      let rows ← (esign d.settings).apply site.rows (.step index { input with failure := some error })
      some { site with rows := rows }

/-- The payload is found as it was published: no statement changes it. -/
def payloadOf (site : Site) (work : ClaimedOutboxWork) : Option ESign.OutboxEvent :=
  if (assertSafeJobPayload work.event.payload).isOk then
    site.rows.store.outbox.find? (fun event => event.id = work.event.id ∧ event.payload.type = .flattenSignature)
  else none

def begin (site : Site) (owner : Id) (work : ClaimedOutboxWork) : Site :=
  if d.flattens work.event then
    match payloadOf site work with
    | some event =>
        { site with
          rows := { site.rows with tasks := site.rows.tasks ++ [(esign d.settings).start (.flattenSignature event owner)] }
          handler := Function.update site.handler owner (.running site.rows.tasks.length) }
    | none => { site with handler := Function.update site.handler owner .refused }
  else { site with handler := Function.update site.handler owner .elsewhere }

def work (site : Site) (action : Action) : Site := { site with world := site.world.step d.claimer d.processor action }

def apply (site : Site) : SiteAction → Option Site
  | .request request =>
      if request.flattens then none
      else do
        let rows ← (esign d.settings).apply site.rows (.spawn request)
        some { site with rows := rows }
  | .step index input => d.turn site index input
  | .publish input =>
      if input.organizationId = d.organizationId ∧ input.documentId = some d.documentId then none
      else some (d.work site (.publish input))
  | .poll owner env type now =>
      let polled := d.work site (.poll owner env type now)
      match site.world.workers owner, polled.world.workers owner with
      | .idle, .claimed work => some (d.begin polled owner work)
      | _, _ => some polled
  | .handle owner result =>
      match site.handler owner with
      | .elsewhere => some (d.work site (.handle owner result))
      | .refused => some (d.work site (.handle owner (.error (.validation [("reason","invalid_payload")]))))
      | .running index => match site.rows.tasks[index]? with
          | some (.done outcome) => some (d.work site (.handle owner (outcome.map (fun _ => ()))))
          | _ => none
  | .report owner now random written thrown => some (d.work site (.report owner now random written thrown))
  | .crash owner => some (d.work site (.crash owner))

/-! What the queue keeps. -/

theorem publishedAll {availableAt : Date} {events : List ESign.OutboxEvent} {q q' : Queue}
    (ran : d.publishAll availableAt events q = .ok q') :
    q'.events = q.events ++ events.map (fun event => publishedEvent (d.queued availableAt event)) := by
  induction events generalizing q with
  | nil =>
    cases ran
    simp
  | cons event rest ih =>
    obtain ⟨q₁,first,ran⟩ := bindOk.mp ran
    obtain ⟨-,-,rfl⟩ := published first
    rw [ih ran,List.map_cons,List.append_assoc]
    rfl

section
variable {d} {picks} (lawful : Lawful d.claimer picks)
include lawful

theorem publishAllKept {availableAt : Date} {events : List ESign.OutboxEvent} {l : Ledger} {q' : Queue} (kept : l.Kept)
    (ran : d.publishAll availableAt events l.queue = .ok q') : Ledger.Kept { l with queue := q' } := by
  induction events generalizing l with
  | nil =>
    cases ran
    exact kept
  | cons event rest ih =>
    obtain ⟨q₁,first,ran⟩ := bindOk.mp ran
    have next := keptStep lawful kept (.publish (d.queued availableAt event))
    simp only [Ledger.next,first] at next
    exact ih (l := ⟨q₁,l.held⟩) next ran

theorem worldKept {w : World} (kept : w.ledger.Kept) (action : Action) :
    (w.step d.claimer d.processor action).ledger.Kept := by
  obtain ⟨calls,same⟩ := stepCalls d.claimer d.processor w action
  rw [same]
  exact keptRun lawful kept calls

end

variable {d} {site site' : Site}

/-! What an action does. -/

theorem turnCases {index input} (ran : d.turn site index input = some site') :
    ∃ i rows queue, (esign d.settings).apply site.rows (.step index i) = some rows ∧
      d.publishAll input.now (rows.store.outbox.drop site.rows.store.outbox.length) site.world.ledger.queue = .ok queue ∧
      site' = ⟨rows,{ site.world with ledger := { site.world.ledger with queue := queue } },site.handler⟩ := by
  obtain ⟨rows,applied,ran⟩ := Option.bind_eq_some_iff.mp ran
  split at ran
  · rename_i queue published
    exact ⟨input,rows,queue,applied,published,(Option.some.inj ran).symm⟩
  · rename_i error _
    obtain ⟨rows,applied,ran⟩ := Option.bind_eq_some_iff.mp ran
    have still : rows.store = site.rows.store := by
      rcases stepTaken applied with ⟨next,-,rfl⟩ | ⟨w,next,-,rfl⟩
      · rfl
      · exact Write.execRefused rfl
    refine ⟨_,rows,site.world.ledger.queue,applied,?_,(Option.some.inj ran).symm⟩
    rw [still,List.drop_length]
    rfl

theorem startsTask (settings : Settings) {event : ESign.OutboxEvent} (owner : Id)
    (flattens : event.payload.type = .flattenSignature) :
    ∃ input, (esign settings).start (.flattenSignature event owner) = flattenTask settings input := by
  cases payload : event.payload with
  | flattenSignature signerId sessionId revisionId =>
    refine ⟨⟨signerId,sessionId,revisionId,event.jobId,event.id,owner⟩,?_⟩
    simp only [esign,startRequest,payload]
    rfl
  | inspectDocument revisionId => rw [payload] at flattens; cases flattens
  | notifySigner signerId sessionId => rw [payload] at flattens; cases flattens

/-- A claim was taken up: a job of the document is refused or begun, and nothing else is begun. -/
structure Taken (d : Deployment) (site site' : Site) (owner : Id) (input : ClaimInput) (e : OutboxEvent)
    (work : ClaimedOutboxWork) : Prop where
  mem : e ∈ site.world.ledger.queue.events
  owned : input.owner = owner
  event : work.event = leaseEvent input e
  ledger : ∃ j, site'.world.ledger.queue = site.world.ledger.queue.setRows e.id j (leaseEvent input) (leaseJob input)
  workers : site'.world.workers = Function.update site.world.workers owner (.claimed work)
  others : ∀ other, other ≠ owner → site'.handler other = site.handler other
  own : d.flattens work.event = true → site'.handler owner ≠ .elsewhere
  tasks : (site'.rows = site.rows ∧ ∀ index, site'.handler owner ≠ .running index) ∨
    (site'.handler owner = .running site.rows.tasks.length ∧ ∃ request input, ∃ task : SiteTask,
      task = flattenTask d.settings input ∧ site'.rows = ⟨site.rows.store,site.rows.tasks ++ [task]⟩ ∧
      (esign d.settings).apply site.rows (.spawn request) = some site'.rows)

theorem beginTaken {w : World} {owner input e work} (mem : e ∈ site.world.ledger.queue.events)
    (owned : input.owner = owner) (event : work.event = leaseEvent input e)
    (ledger : ∃ j, w.ledger.queue = site.world.ledger.queue.setRows e.id j (leaseEvent input) (leaseJob input))
    (workers : w.workers = Function.update site.world.workers owner (.claimed work)) :
    d.Taken site (d.begin ⟨site.rows,w,site.handler⟩ owner work) owner input e work := by
  unfold begin
  split
  · split
    · rename_i published found
      unfold payloadOf at found
      split at found <;> try contradiction
      have named := List.find?_some found
      rw [decide_eq_true_eq] at named
      obtain ⟨input,starts⟩ := startsTask d.settings owner named.2
      refine ⟨mem,owned,event,ledger,workers,fun other away => Function.update_of_ne away _ _,fun _ same => ?_,
        .inr ⟨?_,?_⟩⟩
      · cases (Function.update_self owner (Handler.running _) site.handler).symm.trans same
      · exact Function.update_self _ _ _
      · refine ⟨.flattenSignature published owner,input,_,starts,rfl,?_⟩
        exact if_pos (decide_eq_true (List.mem_of_find?_eq_some found))
    · refine ⟨mem,owned,event,ledger,workers,fun other away => Function.update_of_ne away _ _,fun _ same => ?_,
        .inl ⟨rfl,fun _ same => ?_⟩⟩ <;>
      cases (Function.update_self owner Handler.refused site.handler).symm.trans same
  · rename_i other
    refine ⟨mem,owned,event,ledger,workers,fun other away => Function.update_of_ne away _ _,
      fun flattens => absurd flattens other,.inl ⟨rfl,fun _ same => ?_⟩⟩
    cases (Function.update_self owner Handler.elsewhere site.handler).symm.trans same

theorem beginWorld (site : Site) (owner : Id) (work : ClaimedOutboxWork) :
    (d.begin site owner work).world = site.world := by
  unfold begin
  split
  · split <;> rfl
  · rfl

theorem pollWorld {owner env type now} (ran : d.apply site (.poll owner env type now) = some site') :
    site'.world = site.world.step d.claimer d.processor (.poll owner env type now) := by
  simp only [apply] at ran
  split at ran <;> cases ran
  · exact beginWorld _ owner _
  · rfl

theorem pollCases {picks} (lawful : Lawful d.claimer picks) (kept : site.world.ledger.Kept) {owner env type now}
    (ran : d.apply site (.poll owner env type now) = some site') :
    site' = site ∨ ∃ e work, d.Taken site site' owner (claimInput d.processor owner type now) e work := by
  cases idle : site.world.workers owner with
  | idle =>
    rcases lawful.claims env (claimInput d.processor owner type now) kept.inStep with none | ⟨e,mem,j,-,-,-,-,claimed⟩
    · left
      simp only [apply,work,World.step,idle,World.call,Ledger.next,none,Option.toList_none,List.map_nil,
        List.append_nil] at ran
      exact (Option.some.inj ran).symm
    · right
      obtain ⟨work,event,claimed⟩ : ∃ work : ClaimedOutboxWork,
          work.event = leaseEvent (claimInput d.processor owner type now) e ∧ d.claimer.claimNextByType env (claimInput d.processor owner type now) site.world.ledger.queue = (some work,
            site.world.ledger.queue.setRows e.id j.id (leaseEvent (claimInput d.processor owner type now))
              (leaseJob (claimInput d.processor owner type now))) := ⟨_,rfl,claimed⟩
      simp only [apply,Deployment.work,World.step,idle,World.call,Ledger.next,claimed,World.enter,
        Function.update_self] at ran
      cases ran
      exact ⟨e,work,beginTaken mem rfl event ⟨_,rfl⟩ rfl⟩
  | _ =>
    left
    simp only [apply,work,World.step,idle] at ran
    exact (Option.some.inj ran).symm

theorem toldCases {picks} (lawful : Lawful d.claimer picks) (kept : site.world.ledger.Kept) (owner : Id)
    (work : ClaimedOutboxWork) (r : Report) (written : Bool) (thrown : Option AppError) :
    (site.world.tell d.claimer owner work r written thrown).ledger.queue = site.world.ledger.queue ∨
    (∃ e ∈ site.world.ledger.queue.events, e.id = work.event.id ∧ e.leaseOwner = some owner ∧
      (written || thrown.isNone) = true ∧ ∃ j, (site.world.tell d.claimer owner work r written thrown).ledger.queue =
        site.world.ledger.queue.setRows e.id j r.event r.job) := by
  unfold World.tell
  split
  · rename_i told
    simp only [World.call,Ledger.next]
    split
    · rename_i held
      obtain ⟨e,mem,j,jMem,stands⟩ := kept.known _ held
      rw [reportRows lawful kept.inStep mem jMem stands]
      split
      · rename_i leased
        exact .inr ⟨e,mem,stands.event.symm,leased,told,j.id,rfl⟩
      · exact .inl rfl
    · exact .inl rfl
  · exact .inl rfl

end Deployment

end JobQueue

end ESign
