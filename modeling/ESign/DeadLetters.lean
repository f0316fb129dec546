import ESign.JobSites
import ESign.FlattenFailure

/-! Whether a document is left behind when its jobs are at an end. The budget of attempts is kept
by the queue and the state by the job: only the two together say so. -/
namespace ESign.JobQueue
open JsText StoreProgram StoreProgram.Outline

namespace Deployment

variable (d : Deployment)

/-- The lease of the worker on its job of the document stands. -/
def HoldsLease (site : Site) (owner : Id) (work : ClaimedOutboxWork) : Prop :=
  ∃ e ∈ site.world.ledger.queue.events, d.flattens e = true ∧ e.id = work.event.id ∧ e.leaseOwner = some owner

def StillLeased (site : Site) (index : Nat) : Prop :=
  ∃ owner work, site.handler owner = .running index ∧ site.world.workers owner = .claimed work ∧
    d.HoldsLease site owner work

/-- A job of the document waits to be claimed. -/
def Spared (site : Site) : Prop :=
  ∃ e ∈ site.world.ledger.queue.events, d.flattens e = true ∧ e.status = .pending

/-- No attempt is left for the job, or the failure is not one to retry. -/
def exhausted (work : ClaimedOutboxWork) (error : AppError) : Bool :=
  !(classifyJobFailure error).retryable || work.event.attemptCount ≥ work.job.maxAttempts

/-- The artifact is committed, or a run that has failed permanently marks the row that is
`finalizing` under its own lease. -/
def settles (e : Envelope) : Write → Bool
  | .flatten u => u.finalize
  | .markFinalizationFailed owner => e.document.state = .finalizing ∧ e.document.leaseOwner = some owner
  | _ => false

end Deployment

/-- A run of the site, and whether the last job that claimed the lease of the document has settled
it since. -/
structure Watched where
  site : Site
  settled : Bool

/-- A write that changes nothing has not gone through. -/
def Watched.next (w : Watched) (action : SiteAction) (site' : Site) : Watched where
  site := site'
  settled := match action with
    | .step index _ =>
        match w.site.rows.tasks[index]? with
        | some (.write v _) =>
            if site'.rows.store = w.site.rows.store then w.settled
            else Deployment.settles w.site.rows.store v || (w.settled && !v.takes)
        | _ => w.settled
    | _ => w.settled

def Watched.start (draft : NewDraft) : Watched := ⟨Site.start draft,false⟩

namespace Deployment

variable (d : Deployment)

/-- No job is given up, all signers having signed, unless the last job that claimed the lease of
the document has settled it; and none takes a failed document back without a lease on its own
event. Either may happen while another job of the document waits. -/
def Orderly (w : Watched) : SiteAction → Prop
  | .step index _ =>
      match w.site.rows.tasks[index]? with
      | some (.write v _) =>
          v.takes = true → w.site.rows.store.document.state = .finalizationFailed →
            d.StillLeased w.site index ∨ d.Spared w.site
      | _ => True
  | .report owner _ _ written thrown =>
      match w.site.world.workers owner with
      | .failed work error =>
          exhausted work error = true → (written || thrown.isNone) = true → d.HoldsLease w.site owner work →
            SignedUp w.site.rows.store → w.settled = true ∨ d.Spared w.site
      | _ => True
  | _ => True

/-- What the worker has in hand ends in a finalized document or in a failure. -/
structure Closes (site : Site) (owner : Id) : Prop where
  own : site.handler owner ≠ .elsewhere
  unhandled : ∀ work, site.world.workers owner ≠ .handled work
  closing : ∀ index task, site.handler owner = .running index → site.rows.tasks[index]? = some task →
    Closing d.settings task site.rows.store

/-- An event that is not settled before the document is. -/
structure Guards (site : Site) (e : OutboxEvent) : Prop where
  flattens : d.flattens e = true
  unsettled : e.status = .pending ∨ e.status = .processing
  leased : ∀ owner work, e.leaseOwner = some owner → (site.world.workers owner).work = some work →
    work.event.id = e.id → d.Closes site owner

structure Kept (site : Site) : Prop where
  sound : (signedUp d.settings).Sound site.rows
  ledger : site.world.ledger.Kept
  within : ∀ owner index, site.handler owner = .running index → index < site.rows.tasks.length
  handling : ∀ owner index task, site.handler owner = .running index → site.rows.tasks[index]? = some task →
    Handling d.settings task site.rows.store
  sent : ∀ e ∈ site.world.ledger.queue.events, d.flattens e = true → site.rows.store.sent = true
  guarded : Awaiting site.rows.store → ∃ e ∈ site.world.ledger.queue.events, d.Guards site e

variable {d} {site site' : Site}

theorem startKept (draft : NewDraft) : d.Kept (Site.start draft) where
  sound := initialSound (draftSignedUp draft)
  ledger := emptyKept
  within _ _ running := by cases running
  handling _ _ _ running := by cases running
  sent _ mem := by cases mem
  guarded awaiting := by cases awaiting.1.1

theorem Kept.oldTask (kept : d.Kept site) {owner index} (running : site.handler owner = .running index)
    (task : SiteTask) : (site.rows.tasks ++ [task])[index]? = site.rows.tasks[index]? :=
  List.getElem?_append_left (kept.within owner index running)

theorem Closes.kept {owner : Id} (h : d.Closes site owner) (handler : site'.handler owner = site.handler owner)
    (unhandled : ∀ work, site'.world.workers owner ≠ .handled work) (store : site'.rows.store = site.rows.store)
    (tasks : ∀ index task, site.handler owner = .running index → site'.rows.tasks[index]? = some task →
      site.rows.tasks[index]? = some task) : d.Closes site' owner := by
  refine ⟨handler ▸ h.own,unhandled,fun index task running found => ?_⟩
  rw [handler] at running
  rw [store]
  exact h.closing index task running (tasks index task running found)

theorem requestKept (kept : d.Kept site) {request rows}
    (ran : (esign d.settings).apply site.rows (.spawn request) = some rows) : d.Kept { site with rows := rows } := by
  have sound := (stepSound signedUpExtension.starts kept.sound ⟨.spawn request,trivial,ran⟩).1
  obtain ⟨-,rfl⟩ := spawnTaken ran
  refine ⟨sound,kept.ledger,?_,?_,kept.sent,?_⟩
  · intro owner index running
    rw [List.length_append]
    exact Nat.lt_add_right _ (kept.within owner index running)
  · intro owner index task running found
    rw [kept.oldTask running] at found
    exact kept.handling owner index task running found
  · intro awaiting
    obtain ⟨e,mem,guards⟩ := kept.guarded awaiting
    refine ⟨e,mem,guards.flattens,guards.unsettled,fun owner work leased working named => ?_⟩
    have closes := guards.leased owner work leased working named
    refine ⟨closes.own,closes.unhandled,fun index task running found => ?_⟩
    rw [kept.oldTask running] at found
    exact closes.closing index task running found

/-! A task takes a turn. -/

theorem pendingGuards (site : Site) (kept : site.world.ledger.Kept) {e : OutboxEvent}
    (mem : e ∈ site.world.ledger.queue.events) (flattens : d.flattens e = true) (pending : e.status = .pending) :
    d.Guards site e := by
  refine ⟨flattens,.inl pending,fun owner work leased => ?_⟩
  have processing := (kept.inStep.leased e mem).1.mpr (by rw [leased]; rfl)
  rw [pending] at processing
  cases processing

section
variable {settings : Settings} {rows rows' : Running} (sound : (signedUp settings).Sound rows) {index i}
  (applied : (esign settings).apply rows (.step index i) = some rows')
include sound applied

theorem turnLater : (signedUp settings).Sound rows' ∧ Later rows.store rows'.store := by
  obtain ⟨sound',wrote⟩ := stepSound signedUpExtension.starts sound ⟨.step index i,fun _ _ _ => trivial,applied⟩
  refine ⟨sound',?_⟩
  rcases wrote with same | wrote
  · rw [same]
    exact .refl _
  · exact wrote.rel.1

theorem turnCommits : rows'.store = rows.store ∨ ∃ w next, rows.tasks[index]? = some (.write w next) ∧
    Justified signedUpExtension.Past w rows.store ∧ w.run i rows.store = .ok rows'.store := by
  rcases stepTaken applied with ⟨next,-,rfl⟩ | ⟨w,next,found,rfl⟩
  · exact .inl rfl
  · have held := sound.tasks _ (List.mem_of_getElem? found)
    rcases Write.execCases w rows.store i with same | ok
    · exact .inl same
    · exact .inr ⟨w,next,found,(held _ ((signedUp settings).refl _) sound.inv).1,ok⟩

theorem turnHandling {k : Nat} {task' : SiteTask} (found : rows'.tasks[k]? = some task')
    (held : ∀ task, rows.tasks[k]? = some task → Handling settings task rows.store) :
    Handling settings task' rows'.store := by
  refine turnedTask (P := Handling settings) applied (fun _ h => h.readNext sound.inv i) (fun w _ own h => ?_)
    (fun _ h => h.later (turnLater sound applied).2) found held
  have holds := sound.tasks _ (List.mem_of_getElem? own)
  have kept := (signedUp settings).keep i sound.inv (holds _ ((signedUp settings).refl _) sound.inv).1 trivial
  exact h.writeNext sound.inv i kept.2.1

theorem turnClosing {k : Nat} {task' : SiteTask} (found : rows'.tasks[k]? = some task')
    (held : ∀ task, rows.tasks[k]? = some task → Closing settings task rows.store) :
    Closing settings task' rows'.store :=
  turnedTask (P := Closing settings) applied (fun _ h => h.readNext sound.inv i) (fun _ _ _ h => h.writeNext sound.inv i)
    (fun _ h => h.later (turnLater sound applied).2) found held

theorem turnPublished {event : ESign.OutboxEvent} (mem : event ∈ rows'.store.outbox.drop rows.store.outbox.length)
    (flattens : event.payload.type = .flattenSignature) : rows'.store.sent = true := by
  rcases turnCommits sound applied with same | ⟨w,next,found,just,ok⟩
  · rw [same,List.drop_length] at mem
    cases mem
  · have done := committed sound.inv.1 (just.weaken signedUpExtension.past) ok
    rcases done.outbox with ⟨u,rfl,h⟩ | ⟨jobs,grown,other⟩
    · obtain ⟨atRoster,atFields,atConsent,source,last⟩ := just
      have sent := completeSent (fun a b h => ⟨⟨h.1.1,h.1.2.1⟩,h.2.1⟩) source.loaded (actorPending source.turn)
      have toCommit := source.later.2.1.trans (source.toConsent.2.1.trans last.2.1)
      exact (turnLater sound applied).2.sent (toCommit.sent sent)
    · rw [grown,List.drop_left] at mem
      cases payload : event.payload with
      | flattenSignature signerId sessionId revisionId =>
        exact absurd payload (other event mem signerId sessionId revisionId)
      | inspectDocument revisionId => rw [payload] at flattens; cases flattens
      | notifySigner signerId sessionId => rw [payload] at flattens; cases flattens

theorem turnAwaiting (awaiting : Awaiting rows'.store) : Awaiting rows.store ∨
    (∃ event ∈ rows'.store.outbox.drop rows.store.outbox.length, event.payload.type = .flattenSignature) ∨
    ∃ w next, rows.tasks[index]? = some (.write w next) ∧ w.run i rows.store = .ok rows'.store ∧ w.takes = true ∧
      rows.store.document.state = .finalizationFailed := by
  obtain ⟨sound',later⟩ := turnLater sound applied
  rcases turnCommits sound applied with same | ⟨w,next,found,just,ok⟩
  · rw [same] at awaiting
    exact .inl awaiting
  · have just := just.weaken signedUpExtension.past
    rcases awaiting.source sound.inv.1 sound'.inv.1 just (committed sound.inv.1 just ok) with
      old | ⟨u,-,h⟩ | ⟨takes,failed⟩
    · exact .inl old
    · refine .inr (.inl ⟨u.job i,?_,rfl⟩)
      rw [h.outbox,List.drop_left]
      exact List.mem_singleton_self _
    · exact .inr (.inr ⟨w,next,found,ok,takes,failed⟩)

end

theorem Guards.turned {e : OutboxEvent} (guards : d.Guards site e) (sound : (signedUp d.settings).Sound site.rows)
    {index i rows} (applied : (esign d.settings).apply site.rows (.step index i) = some rows) (queue : Queue) :
    d.Guards ⟨rows,{ site.world with ledger := { site.world.ledger with queue := queue } },site.handler⟩ e := by
  refine ⟨guards.flattens,guards.unsettled,fun owner work leased working named => ?_⟩
  have closes := guards.leased owner work leased working named
  exact ⟨closes.own,closes.unhandled,fun k task running found =>
    turnClosing sound applied found (fun task old => closes.closing k task running old)⟩

theorem Kept.retaken (kept : d.Kept site) {index} (leased : d.StillLeased site index) {w next i e'}
    (found : site.rows.tasks[index]? = some (.write w next)) (takes : w.takes = true)
    (ok : w.run i site.rows.store = .ok e') (failed : site.rows.store.document.state = .finalizationFailed) :
    ∃ e ∈ site.world.ledger.queue.events, d.Guards site e := by
  obtain ⟨owner,work,running,claimed,e,mem,flattens,-,leased⟩ := leased
  have closing := (kept.handling owner index _ running found).retakes takes ok failed
  refine ⟨e,mem,flattens,.inr ?_,fun other work' leased' _ _ => ?_⟩
  · exact (kept.ledger.inStep.leased e mem).1.mpr (by rw [leased]; rfl)
  · cases leased'.symm.trans leased
    refine ⟨fun elsewhere => ?_,fun work handled => ?_,fun k task running' found' => ?_⟩
    · rw [running] at elsewhere
      cases elsewhere
    · rw [claimed] at handled
      cases handled
    · cases Handler.running.inj (running'.symm.trans running)
      rw [Option.some.inj (found'.symm.trans found)]
      exact closing

theorem turnKept {picks} (lawful : Lawful d.claimer picks) (kept : d.Kept site) {index input}
    (meets : ∀ w next, site.rows.tasks[index]? = some (.write w next) → w.takes = true →
      site.rows.store.document.state = .finalizationFailed → d.StillLeased site index ∨ d.Spared site)
    (ran : d.turn site index input = some site') : d.Kept site' := by
  obtain ⟨i,rows,queue,applied,published,rfl⟩ := turnCases ran
  obtain ⟨sound,later⟩ := turnLater kept.sound applied
  have events := publishedAll d published
  have old : ∀ e ∈ site.world.ledger.queue.events, e ∈ queue.events := by
    intro e mem
    rw [events]
    exact List.mem_append_left _ mem
  have length : rows.tasks.length = site.rows.tasks.length := by
    rcases stepTaken applied with ⟨next,-,rfl⟩ | ⟨w,next,-,rfl⟩ <;> exact List.length_set
  have ledger := publishAllKept lawful kept.ledger published
  refine ⟨sound,ledger,?_,?_,?_,?_⟩
  · intro owner k running
    rw [length]
    exact kept.within owner k running
  · intro owner k task running found
    exact turnHandling kept.sound applied found (fun task old => kept.handling owner k task running old)
  · intro e mem flattens
    rw [events] at mem
    rcases List.mem_append.mp mem with before | new
    · exact later.sent (kept.sent e before flattens)
    · obtain ⟨event,fresh,rfl⟩ := List.mem_map.mp new
      exact turnPublished kept.sound applied fresh (of_decide_eq_true flattens).1
  · intro awaiting
    rcases turnAwaiting kept.sound applied awaiting with
      before | ⟨event,fresh,type⟩ | ⟨w,next,found,ok,takes,failed⟩
    · obtain ⟨e,mem,guards⟩ := kept.guarded before
      exact ⟨e,old e mem,guards.turned kept.sound applied queue⟩
    · refine ⟨publishedEvent (d.queued input.now event),?_,?_,.inl rfl,fun owner work leased => by cases leased⟩
      · show _ ∈ queue.events
        rw [events]
        exact List.mem_append_right _ (List.mem_map_of_mem fresh)
      · exact decide_eq_true ⟨type,rfl,rfl⟩
    · rcases meets w next found takes failed with leased | ⟨e,mem,flattens,pending⟩
      · obtain ⟨e,mem,guards⟩ := kept.retaken leased found takes ok failed
        exact ⟨e,old e mem,guards.turned kept.sound applied queue⟩
      · exact ⟨e,old e mem,pendingGuards _ ledger (old e mem) flattens pending⟩

/-! A worker takes a job. -/

section
variable {owner : Id} {input : ClaimInput} {e : OutboxEvent} {work : ClaimedOutboxWork}
  (taken : d.Taken site site' owner input e work)
include taken

theorem Taken.store : site'.rows.store = site.rows.store := by
  rcases taken.tasks with ⟨same,-⟩ | ⟨-,_,_,_,-,same,-⟩ <;> rw [same]

theorem Taken.length : site.rows.tasks.length ≤ site'.rows.tasks.length := by
  rcases taken.tasks with ⟨same,-⟩ | ⟨-,_,_,_,-,same,-⟩ <;> rw [same]
  rw [List.length_append]
  exact Nat.le_add_right _ _

theorem Taken.oldTask (kept : d.Kept site) {other index task} (running : site.handler other = .running index)
    (found : site'.rows.tasks[index]? = some task) : site.rows.tasks[index]? = some task := by
  rcases taken.tasks with ⟨same,-⟩ | ⟨-,_,_,_,-,same,-⟩ <;> rw [same] at found
  · exact found
  · rwa [kept.oldTask running] at found

theorem Taken.newTask {index} (running : site'.handler owner = .running index) : index < site'.rows.tasks.length ∧
    ∀ task, site'.rows.tasks[index]? = some task → ∃ input, task = flattenTask d.settings input := by
  rcases taken.tasks with ⟨-,none⟩ | ⟨begun,_,input,_,starts,same,-⟩
  · exact absurd running (none index)
  · cases Handler.running.inj (running.symm.trans begun)
    rw [same,List.length_append]
    refine ⟨Nat.lt_add_one _,fun task found => ⟨input,?_⟩⟩
    rw [List.getElem?_concat_length] at found
    exact (Option.some.inj found).symm.trans starts

theorem Taken.guards (kept : d.Kept site) (awaiting : Awaiting site.rows.store) {g : OutboxEvent}
    (mem : g ∈ site.world.ledger.queue.events) (guards : d.Guards site g) :
    ∃ g' ∈ site'.world.ledger.queue.events, d.Guards site' g' := by
  obtain ⟨j,queue⟩ := taken.ledger
  rw [queue]
  by_cases claimed : g.id = e.id
  · cases sameEvent kept.ledger.inStep mem taken.mem claimed
    refine ⟨leaseEvent input e,(updateManyOf mem).1 (decide_eq_true rfl),guards.flattens,.inr rfl,
      fun other work' leased _ _ => ?_⟩
    cases (Option.some.inj leased).symm.trans taken.owned
    refine ⟨taken.own ?_,fun work' handled => ?_,fun index task running found => ?_⟩
    · rw [taken.event]
      exact guards.flattens
    · rw [taken.workers,Function.update_self] at handled
      cases handled
    · obtain ⟨input,starts⟩ := (taken.newTask running).2 task found
      rw [taken.store,starts]
      exact closingStart input kept.sound.inv awaiting.1
  · refine ⟨g,otherEvent mem claimed,guards.flattens,guards.unsettled,fun other work' leased working named => ?_⟩
    have away : other ≠ owner := by
      rintro rfl
      rw [taken.workers,Function.update_self] at working
      cases working
      rw [taken.event] at named
      exact claimed named.symm
    rw [taken.workers,Function.update_of_ne away] at working
    have closes := guards.leased other work' leased working named
    refine closes.kept (taken.others other away) ?_ taken.store (fun _ _ => taken.oldTask kept)
    rw [taken.workers,Function.update_of_ne away]
    exact closes.unhandled

end

theorem pollKept {picks} (lawful : Lawful d.claimer picks) (kept : d.Kept site) {owner env type now}
    (ran : d.apply site (.poll owner env type now) = some site') : d.Kept site' := by
  have ledger : site'.world.ledger.Kept := pollWorld ran ▸ worldKept lawful kept.ledger (.poll owner env type now)
  rcases pollCases lawful kept.ledger ran with rfl | ⟨e,work,taken⟩
  · exact kept
  refine ⟨?_,ledger,fun other index running => ?_,fun other index task running found => ?_,
    fun row mem flattens => ?_,?_⟩
  · rcases taken.tasks with ⟨same,-⟩ | ⟨-,request,-,-,-,-,spawned⟩
    · rw [same]
      exact kept.sound
    · exact (stepSound signedUpExtension.starts kept.sound ⟨.spawn request,trivial,spawned⟩).1
  · by_cases same : other = owner
    · subst same
      exact (taken.newTask running).1
    · rw [taken.others other same] at running
      exact (kept.within other index running).trans_le taken.length
  · by_cases same : other = owner
    · subst same
      obtain ⟨input,starts⟩ := (taken.newTask running).2 task found
      exact .fresh input starts
    · rw [taken.others other same] at running
      rw [taken.store]
      exact kept.handling other index task running (taken.oldTask kept running found)
  · rw [taken.store]
    obtain ⟨j,queue⟩ := taken.ledger
    rw [queue] at mem
    rcases setRowsEvent kept.ledger.inStep taken.mem mem with rfl | ⟨old,-⟩
    · exact kept.sent e taken.mem flattens
    · exact kept.sent row old flattens
  · intro awaiting
    rw [taken.store] at awaiting
    obtain ⟨g,mem,guards⟩ := kept.guarded awaiting
    exact taken.guards kept awaiting mem guards

/-! The rows of the document are as they were. -/

theorem Guards.kept {w : World} {e : OutboxEvent} (guards : d.Guards site e)
    (same : ∀ owner work, e.leaseOwner = some owner → (w.workers owner).work = some work → work.event.id = e.id →
      (site.world.workers owner).work = some work ∧
        (d.Closes site owner → ∀ work, w.workers owner ≠ .handled work)) :
    d.Guards { site with world := w } e := by
  refine ⟨guards.flattens,guards.unsettled,fun owner work leased working named => ?_⟩
  obtain ⟨before,unhandled⟩ := same owner work leased working named
  have closes := guards.leased owner work leased before named
  exact closes.kept rfl (unhandled closes) rfl (fun _ _ _ found => found)

theorem Kept.worked (kept : d.Kept site) {w : World} (ledger : w.ledger.Kept)
    (sent : ∀ e ∈ w.ledger.queue.events, d.flattens e = true →
      ∃ e₀ ∈ site.world.ledger.queue.events, d.flattens e₀ = true)
    (guarded : Awaiting site.rows.store → ∀ e ∈ site.world.ledger.queue.events, d.Guards site e →
      ∃ e' ∈ w.ledger.queue.events, d.Guards { site with world := w } e') : d.Kept { site with world := w } := by
  refine ⟨kept.sound,ledger,kept.within,kept.handling,fun e mem flattens => ?_,fun awaiting => ?_⟩
  · obtain ⟨e₀,mem₀,flattens₀⟩ := sent e mem flattens
    exact kept.sent e₀ mem₀ flattens₀
  · obtain ⟨e,mem,guards⟩ := kept.guarded awaiting
    exact guarded awaiting e mem guards

theorem publishKept {picks} (lawful : Lawful d.claimer picks) (kept : d.Kept site) {input : JobPublishInput}
    (other : ¬(input.organizationId = d.organizationId ∧ input.documentId = some d.documentId)) :
    d.Kept (d.work site (.publish input)) := by
  have ledger := worldKept (d := d) lawful kept.ledger (.publish input)
  cases ran : publish input site.world.ledger.queue with
  | error error =>
    have same : d.work site (.publish input) = site := by
      simp only [work,World.step,World.call,Ledger.next,ran]
    rw [same]
    exact kept
  | ok queue =>
    obtain ⟨-,-,rfl⟩ := published ran
    simp only [World.step,World.call,Ledger.next,ran] at ledger
    simp only [work,World.step,World.call,Ledger.next,ran]
    refine kept.worked ledger (fun e mem flattens => ?_) (fun _ e mem guards => ?_)
    · rcases List.mem_append.mp mem with old | new
      · exact ⟨e,old,flattens⟩
      · rw [List.mem_singleton.mp new] at flattens
        exact absurd (of_decide_eq_true flattens).2 other
    · exact ⟨e,List.mem_append_left _ mem,guards.kept (fun owner work leased working named =>
        ⟨working,fun closes => closes.unhandled⟩)⟩

theorem enterKept (kept : d.Kept site) (invoked : List (Id × Nat)) {owner : Id} {phase : Phase}
    (same : ∀ work, phase.work = some work → (site.world.workers owner).work = some work)
    (unhandled : Awaiting site.rows.store → d.Closes site owner → ∀ work, phase ≠ .handled work) :
    d.Kept { site with world := ({ site.world with invoked := invoked } : World).enter owner phase } := by
  refine kept.worked kept.ledger (fun e mem flattens => ⟨e,mem,flattens⟩) (fun awaiting e mem guards => ?_)
  refine ⟨e,mem,guards.kept (fun other work leased working named => ?_)⟩
  simp only [World.enter] at working ⊢
  by_cases own : other = owner
  · subst own
    rw [Function.update_self] at working ⊢
    exact ⟨same work working,unhandled awaiting⟩
  · rw [Function.update_of_ne own] at working ⊢
    exact ⟨working,fun closes => closes.unhandled⟩

theorem handledKept (kept : d.Kept site) {owner : Id} {result : Except AppError Unit}
    (failed : Awaiting site.rows.store → d.Closes site owner → ∃ error, result = .error error) :
    d.Kept (d.work site (.handle owner result)) := by
  simp only [work,World.step]
  split
  · rename_i job claimed
    have same : ∀ {phase : Phase}, phase.work = some job → ∀ work, phase.work = some work →
        (site.world.workers owner).work = some work := by
      intro phase has work found
      rw [claimed,← found,has]
      rfl
    split
    · exact enterKept kept site.world.invoked (same rfl) (fun _ _ _ handled => (by cases handled))
    · cases result with
      | ok _ =>
        refine enterKept kept _ (same rfl) (fun awaiting closes => ?_)
        obtain ⟨error,errs⟩ := failed awaiting closes
        cases errs
      | error error => exact enterKept kept _ (same rfl) (fun _ _ _ handled => (by cases handled))
  · exact kept

theorem handleKept (kept : d.Kept site) {owner result} (ran : d.apply site (.handle owner result) = some site') :
    d.Kept site' := by
  simp only [apply] at ran
  split at ran
  · rename_i elsewhere
    cases ran
    exact handledKept kept (fun _ closes => absurd elsewhere closes.own)
  · cases ran
    exact handledKept kept (fun _ _ => ⟨_,rfl⟩)
  · rename_i index running
    split at ran <;> cases ran
    rename_i outcome found
    refine handledKept kept (fun awaiting closes => ?_)
    cases outcome with
    | error error => exact ⟨error,rfl⟩
    | ok value =>
      exact absurd (closes.closing index _ running found value rfl) awaiting.2.1

theorem crashKept (kept : d.Kept site) (owner : Id) : d.Kept (d.work site (.crash owner)) :=
  enterKept kept site.world.invoked (fun _ found => (by cases found)) (fun _ _ _ handled => (by cases handled))

theorem reportedKept {picks} (lawful : Lawful d.claimer picks) (kept : d.Kept site) {owner : Id} {work : ClaimedOutboxWork}
    (r : Report) (written : Bool) (thrown : Option AppError) (phase : Phase)
    (at' : (site.world.workers owner).work = some work)
    {w : World} (told : w = (site.world.tell d.claimer owner work r written thrown).enter owner phase)
    (ledger : w.ledger.Kept)
    (same : ∀ work', phase.work = some work' → work' = work) (unhandled : ∀ work', phase ≠ .handled work')
    (settles : Awaiting site.rows.store → d.Closes site owner → d.HoldsLease site owner work →
      (written || thrown.isNone) = true → (∀ e, (r.event e).status = .pending) ∨ d.Spared site) :
    d.Kept { site with world := w } := by
  have workers : w.workers = Function.update site.world.workers owner phase := by
    rw [told]
    unfold World.tell
    split <;> rfl
  have queue : w.ledger.queue = (site.world.tell d.claimer owner work r written thrown).ledger.queue := by rw [told]; rfl
  have phases : ∀ other work', (w.workers other).work = some work' → (site.world.workers other).work = some work' ∧
      (d.Closes site other → ∀ work, w.workers other ≠ .handled work) := by
    intro other work' working
    rw [workers] at working ⊢
    by_cases own : other = owner
    · subst own
      rw [Function.update_self] at working ⊢
      exact ⟨by rw [same work' working]; exact at',fun _ => unhandled⟩
    · rw [Function.update_of_ne own] at working ⊢
      exact ⟨working,fun closes => closes.unhandled⟩
  rcases toldCases lawful kept.ledger owner work r written thrown with still | ⟨e₀,mem₀,named,leased,heard,j,rows⟩
  · rw [still] at queue
    refine kept.worked ledger (fun e mem flattens => ⟨e,queue ▸ mem,flattens⟩) (fun _ e mem guards => ?_)
    exact ⟨e,queue ▸ mem,guards.kept (fun other work' _ working _ => phases other work' working)⟩
  · rw [rows] at queue
    have flattens₀ : d.flattens (r.event e₀) = d.flattens e₀ := by cases r <;> rfl
    refine kept.worked ledger (fun e mem flattens => ?_) (fun awaiting e mem guards => ?_)
    · rw [queue] at mem
      rcases setRowsEvent kept.ledger.inStep mem₀ mem with rfl | ⟨old,-⟩
      · exact ⟨e₀,mem₀,flattens₀.symm.trans flattens⟩
      · exact ⟨e,old,flattens⟩
    · by_cases reported : e.id = e₀.id
      · cases sameEvent kept.ledger.inStep mem mem₀ reported
        have closes := guards.leased owner work leased at' named.symm
        rcases settles awaiting closes ⟨e₀,mem,guards.flattens,named,leased⟩ heard with
          pending | ⟨e,mem',flattens,pending⟩
        · have mem' : r.event e₀ ∈ w.ledger.queue.events := by
            rw [queue]
            exact (updateManyOf mem).1 (decide_eq_true rfl)
          exact ⟨_,mem',pendingGuards _ ledger mem' (flattens₀.trans guards.flattens) (pending e₀)⟩
        · have away : e.id ≠ e₀.id := by
            intro one
            have processing := (kept.ledger.inStep.leased e₀ mem).1.mpr (by rw [leased]; rfl)
            rw [← sameEvent kept.ledger.inStep mem' mem one,pending] at processing
            cases processing
          have mem' : e ∈ w.ledger.queue.events := by
            rw [queue]
            exact otherEvent mem' away
          exact ⟨_,mem',pendingGuards _ ledger mem' flattens pending⟩
      · refine ⟨e,?_,guards.kept (fun other work' _ working _ => phases other work' working)⟩
        rw [queue]
        exact otherEvent mem reported

theorem reportKept {picks} (lawful : Lawful d.claimer picks) (kept : d.Kept site) {owner now random written thrown}
    (meets : ∀ work error, site.world.workers owner = .failed work error → exhausted work error = true →
      (written || thrown.isNone) = true → d.HoldsLease site owner work → Awaiting site.rows.store → d.Spared site) :
    d.Kept (d.work site (.report owner now random written thrown)) := by
  have ledger := worldKept (d := d) lawful kept.ledger (.report owner now random written thrown)
  cases phase : site.world.workers owner with
  | handled job =>
    have at' : (site.world.workers owner).work = some job := by rw [phase]; rfl
    have settles : Awaiting site.rows.store → d.Closes site owner → d.HoldsLease site owner job →
        (written || thrown.isNone) = true → (∀ e, ((Report.processed now).event e).status = .pending) ∨ d.Spared site :=
      fun _ closes => absurd phase (closes.unhandled job)
    cases thrown with
    | none =>
      refine reportedKept lawful kept (.processed now) written none .idle at' ?_ ledger
        (fun _ found => (by cases found)) (fun _ same => (by cases same)) settles
      simp only [World.step,phase]
    | some error =>
      refine reportedKept lawful kept (.processed now) written (some error) (.failed job error) at' ?_ ledger
        (fun _ found => (Option.some.inj found).symm) (fun _ same => (by cases same)) settles
      simp only [World.step,phase]
  | failed job error =>
    have at' : (site.world.workers owner).work = some job := by rw [phase]; rfl
    refine reportedKept lawful kept (failureReport d.processor job error now random) written thrown .idle at' ?_
      ledger (fun _ found => (by cases found)) (fun _ same => (by cases same)) ?_
    · simp only [World.step,phase]
    · intro awaiting _ lease heard
      cases spent : exhausted job error with
      | true => exact .inr (meets job error phase spent heard lease awaiting)
      | false =>
        left
        intro e
        unfold exhausted at spent
        simp only [failureReport,spent,Bool.false_eq_true,if_false]
        rfl
  | _ =>
    have same : d.work site (.report owner now random written thrown) = site := by
      simp only [work,World.step,phase]
    rw [same]
    exact kept

/-! What has been settled stays so until a job claims the lease. -/

def Settled (e : Envelope) : Prop := e.document.state = .finalized ∨ e.document.state = .finalizationFailed

theorem Settled.unprepared {e : Envelope} (h : Settled e) : isPreparationState e.document.state = false := by
  rcases h with h | h <;> rw [h] <;> rfl

theorem settledBy {v : Write} {i e e'} (ok : v.run i e = .ok e') (settles : Deployment.settles e v = true) : Settled e' := by
  cases v with
  | flatten u =>
    have final : u.finalize = true := settles
    have h : FlattenEffect u e e' := flattenEffect ok
    exact .inl (by rw [h.document]; simp [final])
  | markFinalizationFailed owner =>
    have hit : e.document.state = .finalizing ∧ e.document.leaseOwner = some owner := of_decide_eq_true settles
    have same : Documents.markFinalizationFailed owner e = e' := Except.ok.inj ok
    rw [← same,markHit hit]
    exact .inr rfl
  | _ => cases settles

theorem settledKept {v : Write} {i e e'} (just : Justified Before v e) (done : Committed i e e' v) (keeps : v.takes = false)
    (h : Settled e) : Settled e' := by
  have unprep := h.unprepared
  cases done with
  | still h' idle artifact => rw [Settled,h'.document]; exact h
  | released h' => subst h'; exact h
  | failed state h' => subst h'; exact .inr rfl
  | leased row frame state revised kept => cases keeps
  | upload h' => rw [Settled,h'.document]; exact h
  | inspect h' =>
    obtain ⟨status,changed⟩ := h'.document
    rw [Settled,changed]
    exact h
  | replaceSigners h' =>
    have prep : isPreparationState e.document.state = true := by rw [just.document.row h'.version]; exact just.unlocked
    rw [unprep] at prep
    cases prep
  | replaceFields h' =>
    rcases h'.document with same | ⟨version,-⟩
    · rw [Settled,same]
      exact h
    · have prep : isPreparationState e.document.state = true := by rw [just.document.row version]; exact just.unlocked
      rw [unprep] at prep
      cases prep
  | @send u h' =>
    obtain ⟨atDocument,atRoster,signers,source,later⟩ := just
    have read : Read Before u.document e := ⟨atDocument,source.document,source.later.1,source.later.2.trans later.2⟩
    have prep : isPreparationState e.document.state = true := by rw [read.row h'.version]; exact source.unlocked
    rw [unprep] at prep
    cases prep
  | void h' =>
    have state := h'.state
    simp only [List.mem_cons,List.not_mem_nil,or_false] at state
    rcases h with h | h <;> rw [h] at state <;> simp at state
  | decline h' =>
    have state := h'.state
    rcases h with h | h <;> rw [h] at state <;> simp at state
  | complete h' =>
    rcases h'.document with ⟨-,-,state,-⟩ | ⟨-,-,-,state,-⟩ | ⟨-,-,same⟩
    · rcases h with h | h <;> rw [h] at state <;> simp at state
    · rcases h with h | h <;> rw [h] at state <;> simp at state
    · rw [Settled,same]
      exact h
  | @flatten u h' =>
    cases final : u.finalize with
    | true => exact .inl (by rw [h'.document]; simp [final])
    | false => rw [Settled,h'.document]; simpa [final,Settled] using h

/-! The run. -/

theorem actionKept {picks} (lawful : Lawful d.claimer picks) {w : Watched} (kept : d.Kept w.site)
    (settled : w.settled = true → Settled w.site.rows.store) {action : SiteAction}
    (orderly : d.Orderly w action) (ran : d.apply w.site action = some site') : d.Kept site' := by
  cases action with
  | request request =>
    simp only [apply] at ran
    split at ran <;> try contradiction
    obtain ⟨rows,spawned,ran⟩ := Option.bind_eq_some_iff.mp ran
    cases ran
    exact requestKept kept spawned
  | step index input =>
    refine turnKept lawful kept (fun v next found => ?_) ran
    simp only [Orderly,found] at orderly
    exact orderly
  | publish input =>
    simp only [apply] at ran
    split at ran <;> try contradiction
    rename_i other
    cases ran
    exact publishKept lawful kept other
  | poll owner env type now => exact pollKept lawful kept ran
  | handle owner result => exact handleKept kept ran
  | report owner now random written thrown =>
    cases ran
    refine reportKept lawful kept (fun work error failed spent heard lease awaiting => ?_)
    simp only [Orderly,failed] at orderly
    refine (orderly spent heard lease awaiting.1).resolve_left (fun closed => ?_)
    exact (settled closed).elim awaiting.2.1 awaiting.2.2
  | crash owner =>
    cases ran
    exact crashKept kept owner

theorem storeKept {picks} (lawful : Lawful d.claimer picks) (kept : d.Kept site) {action : SiteAction}
    (idle : ∀ index input, action ≠ .step index input) (ran : d.apply site action = some site') :
    site'.rows.store = site.rows.store := by
  cases action with
  | request request =>
    simp only [apply] at ran
    split at ran <;> try contradiction
    obtain ⟨rows,spawned,ran⟩ := Option.bind_eq_some_iff.mp ran
    cases ran
    obtain ⟨-,rfl⟩ := spawnTaken spawned
    rfl
  | step index input => exact absurd rfl (idle index input)
  | publish input =>
    simp only [apply] at ran
    split at ran <;> cases ran
    rfl
  | poll owner env type now =>
    rcases pollCases lawful kept.ledger ran with rfl | ⟨e,work,taken⟩
    · rfl
    · exact taken.store
  | handle owner result =>
    simp only [apply] at ran
    split at ran
    · cases ran
      rfl
    · cases ran
      rfl
    · split at ran <;> cases ran
      rfl
  | report owner now random written thrown =>
    cases ran
    rfl
  | crash owner =>
    cases ran
    rfl

theorem nextSettled {picks} (lawful : Lawful d.claimer picks) {w : Watched} (kept : d.Kept w.site)
    (settled : w.settled = true → Settled w.site.rows.store) {action : SiteAction}
    (ran : d.apply w.site action = some site') :
    (w.next action site').settled = true → Settled (w.next action site').site.rows.store := by
  by_cases turned : ∃ index input, action = .step index input
  · obtain ⟨index,input,rfl⟩ := turned
    obtain ⟨i,rows,queue,applied,-,rfl⟩ := turnCases ran
    rcases turnCommits kept.sound applied with same | ⟨v,next,found,just,ok⟩
    · intro watched
      show Settled rows.store
      rw [same]
      refine settled ?_
      simp only [Watched.next,same,if_true] at watched
      split at watched <;> exact watched
    · have done := committed kept.sound.inv.1 (just.weaken signedUpExtension.past) ok
      have just := just.weaken signedUpExtension.past
      simp only [Watched.next,found]
      split
      · rename_i same
        rw [same]
        exact settled
      · intro watched
        rcases Bool.or_eq_true_iff.mp watched with settles | held
        · exact settledBy ok settles
        · obtain ⟨before,gives⟩ := Bool.and_eq_true_iff.mp held
          exact settledKept just done (by simpa using gives) (settled before)
  · have idle : ∀ index input, action ≠ .step index input := fun index input same => turned ⟨index,input,same⟩
    have store : (w.next action site').site.rows.store = w.site.rows.store := storeKept lawful kept idle ran
    rw [store]
    have watch : (w.next action site').settled = w.settled := by
      cases action with
      | step index input => exact absurd rfl (idle index input)
      | _ => rfl
    rw [watch]
    exact settled

def Moves (d : Deployment) (meets : Watched → SiteAction → Prop) (w w' : Watched) : Prop :=
  ∃ action site', meets w action ∧ d.apply w.site action = some site' ∧ w' = w.next action site'

theorem runKept {picks} (lawful : Lawful d.claimer picks) {w w' : Watched} (kept : d.Kept w.site)
    (settled : w.settled = true → Settled w.site.rows.store) (run : Relation.ReflTransGen (d.Moves d.Orderly) w w') :
    d.Kept w'.site ∧ (w'.settled = true → Settled w'.site.rows.store) := by
  induction run with
  | refl => exact ⟨kept,settled⟩
  | tail _ move ih =>
    obtain ⟨action,site',orderly,ran,rfl⟩ := move
    exact ⟨actionKept lawful ih.1 ih.2 orderly ran,nextSettled lawful ih.1 ih.2 ran⟩

/-- The document has a flatten job, and all of them are processed or dead. -/
structure JobsEnded (d : Deployment) (site : Site) : Prop where
  some : ∃ e ∈ site.world.ledger.queue.events, d.flattens e = true
  ended : ∀ e ∈ site.world.ledger.queue.events, d.flattens e = true → e.status = .processed ∨ e.status = .failed

end Deployment

structure Visible (e : Envelope) : Prop where
  shown : e.document.state ≠ .completed ∧ e.document.state ≠ .finalizing
  signed : AllSigned e.signers → e.document.state = .finalized ∨ e.document.state = .finalizationFailed

namespace Deployment

variable {d : Deployment} {site site' : Site}

theorem Kept.visible (kept : d.Kept site) (jobs : d.JobsEnded site) : Visible site.rows.store := by
  have signed : AllSigned site.rows.store.signers →
      site.rows.store.document.state = .finalized ∨ site.rows.store.document.state = .finalizationFailed := by
    intro all
    by_contra neither
    rw [not_or] at neither
    obtain ⟨e₀,mem₀,flattens₀⟩ := jobs.some
    obtain ⟨e,mem,guards⟩ := kept.guarded ⟨⟨kept.sent e₀ mem₀ flattens₀,all⟩,neither⟩
    rcases jobs.ended e mem guards.flattens with closed | closed <;> rcases guards.unsettled with waits | waits <;>
      rw [closed] at waits <;> cases waits
  have shown : site.rows.store.document.state = .completed ∨ site.rows.store.document.state = .finalizing → False := by
    intro hidden
    have done : site.rows.store.document.state.done = true := by
      rcases hidden with hidden | hidden <;> rw [hidden] <;> rfl
    rcases hidden with hidden | hidden <;>
      rcases signed (doneSignedUp kept.sound.inv done).2 with ended | ended <;> rw [hidden] at ended <;> cases ended
  exact ⟨not_or.mp shown,signed⟩

def ExhaustedVisible (d : Deployment) (meets : Watched → SiteAction → Prop) : Prop :=
  ∀ draft w, Relation.ReflTransGen (d.Moves meets) (Watched.start draft) w → d.JobsEnded w.site →
    Visible w.site.rows.store

def applyAll (d : Deployment) (meets : Watched → SiteAction → Bool) : Watched → List SiteAction → Option Watched
  | w, [] => some w
  | w, action :: rest =>
      if meets w action then do applyAll d meets (w.next action (← d.apply w.site action)) rest else none

theorem movesOf {meets : Watched → SiteAction → Prop} {check : Watched → SiteAction → Bool} {w w' : Watched}
    (checked : ∀ w action, check w action = true → meets w action) {actions : List SiteAction}
    (ran : d.applyAll check w actions = some w') : Relation.ReflTransGen (d.Moves meets) w w' := by
  induction actions generalizing w with
  | nil =>
    cases ran
    exact .refl
  | cons action rest ih =>
    simp only [applyAll] at ran
    split at ran <;> try contradiction
    rename_i met
    obtain ⟨mid,first,ran⟩ := Option.bind_eq_some_iff.mp ran
    exact .head ⟨action,mid,checked w action met,first,rfl⟩ (ih ran)

def jobsEndedCheck (d : Deployment) (site : Site) : Bool :=
  site.world.ledger.queue.events.any d.flattens &&
    site.world.ledger.queue.events.all (fun e => !d.flattens e || e.status = .processed || e.status = .failed)

theorem jobsEndedChecked (ok : d.jobsEndedCheck site = true) : d.JobsEnded site := by
  obtain ⟨some,ended⟩ := Bool.and_eq_true_iff.mp ok
  refine ⟨List.any_eq_true.mp some,fun e mem flattens => ?_⟩
  have checked := List.all_eq_true.mp ended e mem
  simpa [flattens] using checked

def orderlyCheck (w : Watched) : SiteAction → Bool
  | .step index _ =>
      match w.site.rows.tasks[index]? with
      | some (.write v _) => !v.takes || w.site.rows.store.document.state ≠ .finalizationFailed
      | _ => true
  | .report owner _ _ _ _ =>
      match w.site.world.workers owner with
      | .failed work error => !exhausted work error || w.settled
      | _ => true
  | _ => true

theorem orderlyChecked (w : Watched) (action : SiteAction) (ok : orderlyCheck w action = true) :
    d.Orderly w action := by
  cases action with
  | step index input =>
    simp only [Orderly,orderlyCheck] at ok ⊢
    split
    · rename_i found
      intro takes failed
      simp [found,takes,failed] at ok
    · trivial
  | report owner now random written thrown =>
    simp only [Orderly,orderlyCheck] at ok ⊢
    split
    · rename_i failed
      intro spent _ _ _
      simp only [failed,spent,Bool.not_true,Bool.false_or] at ok
      exact .inl ok
    · trivial
  | _ => trivial

end Deployment

namespace Outage

/-- The document has one signer, and one worker runs its jobs. -/
def office : Deployment :=
  ⟨ThreeSigners.settings,prismaClaimer,⟨60,⟨1,1⟩⟩,1,2,fun id => utf16 "10000000-0000-4000-8000-" ++ pad 12 id⟩

def turns (task n count : Nat) : List SiteAction := List.replicate count (.step task (ThreeSigners.input n))

def served (task n count : Nat) (request : Request) : List SiteAction := .request request :: turns task n count

def signed : List SiteAction :=
  served 0 1 7 (.completeSourceUpload ⟨2,77,.ok ()⟩) ++
  served 1 2 8 (.inspectDocument ⟨100,101,.inspectDocument 100⟩) ++
  served 2 3 5 (.replaceDocumentSigners ⟨3,.parallel,[ThreeSigners.signerRow 1 1]⟩) ++
  served 3 4 6 (.replaceDocumentFields ⟨3,.allow,[ThreeSigners.fieldRow 300]⟩) ++
  served 4 5 13 (.sendDocument ⟨3,none,some 9⟩) ++
  served 5 6 7 (.exchangeSigningToken 550 none) ++
  served 6 7 8 (ThreeSigners.consent 650) ++
  served 7 8 15 (ThreeSigners.complete 650 400 61)

def attempt (n : Nat) : List SiteAction :=
  .poll 1 ⟨[],0⟩ .flattenSignature (100*n) :: turns n n 16 ++
  [.step n (ThreeSigners.failing n (.externalService [])),.step n (ThreeSigners.input n),.handle 1 (.ok ()),
    .report 1 (100*n) 0 true none]

def finishing (n : Nat) : List SiteAction :=
  .poll 1 ⟨[],0⟩ .flattenSignature (100*n) :: turns n n 23 ++ [.handle 1 (.ok ()),.report 1 (100*n) 0 true none]

def allAttempts : List SiteAction := (List.range 8).flatMap (fun k => attempt (8+k))

end Outage

end ESign.JobQueue
