import ESign.JobQueue

/-! The workers that take jobs from the queue. A worker runs `processNext` again and again: a
claim, the handler, and one call that reports what came of it. It may stop for good anywhere
in between; its lease then expires and the event is claimed anew. -/
namespace ESign.JobQueue
open JsText

structure BackoffPolicy where
  baseDelayMs : Nat
  maxDelayMs : Nat
  deriving DecidableEq, Repr

structure ProcessorSettings where
  leaseMs : Nat
  backoff : BackoffPolicy
  deriving DecidableEq, Repr

def clampUnitInterval (value : ℚ) : ℚ :=
  if value < 0 then 0
  else if value ≥ 1 then 999999999999/1000000000000
  else value

def computeBackoffMs (attemptCount : Nat) (policy : BackoffPolicy) (random : ℚ) : Int :=
  let attempt := max 1 attemptCount
  let exponential : ℚ := min (policy.maxDelayMs : ℚ) (policy.baseDelayMs*2^(attempt-1))
  (exponential/2+clampUnitInterval random*(exponential/2)).floor

def jobErrorCategory (retryable : Bool) : String := if retryable then "retryable" else "non_retryable"

def formatJobErrorCode (category code : String) : String := category ++ ":" ++ code

/-- What `processNext` reports after a failure. -/
def failureReport (s : ProcessorSettings) (work : ClaimedOutboxWork) (error : AppError) (now : Date) (random : ℚ) :
    Report :=
  let classified := classifyJobFailure error
  let errorCode := formatJobErrorCode (jobErrorCategory classified.retryable) classified.code
  if !classified.retryable || work.event.attemptCount ≥ work.job.maxAttempts then .deadLettered errorCode
  else .retry errorCode (now+computeBackoffMs work.event.attemptCount s.backoff random)

inductive Phase where
  | idle
  | claimed (work : ClaimedOutboxWork)
  | handled (work : ClaimedOutboxWork)
  | failed (work : ClaimedOutboxWork) (error : AppError)
  | gone
  deriving DecidableEq, Repr

def Phase.work : Phase → Option ClaimedOutboxWork
  | .idle => none
  | .claimed work => some work
  | .handled work => some work
  | .failed work _ => some work
  | .gone => none

/-- `invoked` has an entry for each time a handler was called: the event and the attempt. -/
structure World where
  ledger : Ledger
  workers : Id → Phase
  invoked : List (Id × Nat)

/-- A worker is told apart by its owner id. `written` says whether a report that throws has
reached the tables before. -/
inductive Action where
  | publish (input : JobPublishInput)
  | poll (owner : Id) (env : ClaimEnv) (type : JobType) (now : Date)
  | handle (owner : Id) (result : Except AppError Unit)
  | report (owner : Id) (now : Date) (random : ℚ) (written : Bool) (thrown : Option AppError)
  | crash (owner : Id)

def World.enter (w : World) (owner : Id) (phase : Phase) : World :=
  { w with workers := Function.update w.workers owner phase }

def World.call (w : World) (c : OutboxClaimer) (call : Call) : World := { w with ledger := w.ledger.next c call }

def claimInput (s : ProcessorSettings) (owner : Id) (type : JobType) (now : Date) : ClaimInput :=
  ⟨type,now,owner,now+s.leaseMs⟩

/-- What is reported, unless the call throws before. -/
def World.tell (w : World) (c : OutboxClaimer) (owner : Id) (work : ClaimedOutboxWork) (r : Report)
    (written : Bool) (thrown : Option AppError) : World :=
  if written || thrown.isNone then w.call c (.report owner work r) else w

/-- A worker does what its phase has next; in another phase the action is none of its own.
A report of success that throws is caught and reported as a failure, a report of a failure
that throws ends the call. -/
def World.step (c : OutboxClaimer) (s : ProcessorSettings) (w : World) : Action → World
  | .publish input => w.call c (.publish input)
  | .poll owner env type now =>
      match w.workers owner with
      | .idle =>
          let input := claimInput s owner type now
          match (c.claimNextByType env input w.ledger.queue).1 with
          | none => w.call c (.claim env input)
          | some work => (w.call c (.claim env input)).enter owner (.claimed work)
      | _ => w
  | .handle owner result =>
      match w.workers owner with
      | .claimed work =>
          match assertSafeJobPayload work.event.payload with
          | .error error => w.enter owner (.failed work error)
          | .ok _ =>
              let called := { w with invoked := w.invoked ++ [work.attempt] }
              match result with
              | .ok _ => called.enter owner (.handled work)
              | .error error => called.enter owner (.failed work error)
      | _ => w
  | .report owner now random written thrown =>
      match w.workers owner with
      | .handled work =>
          let told := w.tell c owner work (.processed now) written thrown
          match thrown with
          | none => told.enter owner .idle
          | some error => told.enter owner (.failed work error)
      | .failed work error =>
          (w.tell c owner work (failureReport s work error now random) written thrown).enter owner .idle
      | _ => w
  | .crash owner => w.enter owner .gone

def World.start : World := ⟨⟨⟨[],[]⟩,[]⟩,fun _ => .idle,[]⟩

def World.run (c : OutboxClaimer) (s : ProcessorSettings) (actions : List Action) : World :=
  actions.foldl (World.step c s) World.start

theorem stepCalls (c : OutboxClaimer) (s : ProcessorSettings) (w : World) (action : Action) :
    ∃ calls : List Call, (w.step c s action).ledger = calls.foldl (Ledger.next c) w.ledger := by
  have told : ∀ owner work r written thrown, ∃ calls : List Call,
      (w.tell c owner work r written thrown).ledger = calls.foldl (Ledger.next c) w.ledger := by
    intro owner work r written thrown
    unfold World.tell
    split
    · exact ⟨[.report owner work r],rfl⟩
    · exact ⟨[],rfl⟩
  cases action with
  | publish input => exact ⟨[.publish input],rfl⟩
  | poll owner env type now =>
    simp only [World.step]
    split
    · refine ⟨[.claim env (claimInput s owner type now)],?_⟩
      split <;> rfl
    · exact ⟨[],rfl⟩
  | handle owner result =>
    simp only [World.step]
    split
    · split
      · exact ⟨[],rfl⟩
      · cases result <;> exact ⟨[],rfl⟩
    · exact ⟨[],rfl⟩
  | report owner now random written thrown =>
    simp only [World.step]
    split
    · next work _ =>
      obtain ⟨calls,same⟩ := told owner work (.processed now) written thrown
      cases thrown <;> exact ⟨calls,same⟩
    · next work error _ => exact told owner work (failureReport s work error now random) written thrown
    · exact ⟨[],rfl⟩
  | crash owner => exact ⟨[],rfl⟩

/-! The attempts on an event. -/

def Spare (q : Queue) (e : OutboxEvent) : Prop := ∀ j ∈ q.jobs, Linked e j → e.attemptCount < j.maxAttempts

instance (q : Queue) (e : OutboxEvent) : Decidable (Spare q e) :=
  inferInstanceAs (Decidable (∀ j ∈ q.jobs, Linked e j → e.attemptCount < j.maxAttempts))

structure Working (l : Ledger) (owner : Id) (work : ClaimedOutboxWork) : Prop where
  held : (owner,work) ∈ l.held
  attempt : ∀ e ∈ l.queue.events, e.id = work.event.id → e.leaseOwner = some owner → e.attemptCount = work.event.attemptCount

structure Budgets (w : World) : Prop where
  kept : w.ledger.Kept
  pending : ∀ e ∈ w.ledger.queue.events, e.status = .pending → Spare w.ledger.queue e
  held : ∀ entry ∈ w.ledger.held, entry.2.event.attemptCount ≤ entry.2.job.maxAttempts
  working : ∀ owner work, (w.workers owner).work = some work → Working w.ledger owner work
  distinct : w.invoked.Nodup
  begun : ∀ attempt ∈ w.invoked, ∃ entry ∈ w.ledger.held, entry.2.attempt = attempt
  fresh : ∀ owner work, w.workers owner = .claimed work → work.attempt ∉ w.invoked

theorem startBudgets : Budgets World.start where
  kept := emptyKept
  pending _ mem := by cases mem
  held _ mem := by cases mem
  working _ _ some := by cases some
  distinct := List.nodup_nil
  begun _ mem := by cases mem
  fresh _ _ claimed := by cases claimed

theorem retriedSpare {s work error now random} {e : OutboxEvent}
    (waits : ((failureReport s work error now random).event e).status = .pending) :
    work.event.attemptCount < work.job.maxAttempts := by
  revert waits
  simp only [failureReport]
  split
  · intro waits
    cases waits
  · next retried =>
    intro _
    simp only [Bool.or_eq_true,decide_eq_true_eq,not_or] at retried
    omega

theorem oneClaim {l : Ledger} (kept : l.Kept) {owner owner' : Id} {work work' : ClaimedOutboxWork}
    (mem : (owner,work) ∈ l.held) (mem' : (owner',work') ∈ l.held) (same : work.attempt = work'.attempt) : owner = owner' :=
  congrArg Prod.fst (List.inj_on_of_nodup_map kept.attempts mem mem' same)

section
variable {w : World} (b : Budgets w)
include b

theorem budgetsEnter {owner : Id} {phase : Phase}
    (same : ∀ work, phase.work = some work → (w.workers owner).work = some work) (begun : ∀ work, phase ≠ .claimed work) : Budgets (w.enter owner phase) where
  kept := b.kept
  pending := b.pending
  held := b.held
  working := by
    intro other work at'
    simp only [World.enter] at at'
    by_cases own : other = owner
    · subst own
      rw [Function.update_self] at at'
      exact b.working other work (same work at')
    · rw [Function.update_of_ne own] at at'
      exact b.working other work at'
  distinct := b.distinct
  begun := b.begun
  fresh := by
    intro other work at'
    simp only [World.enter] at at'
    by_cases own : other = owner
    · subst own
      rw [Function.update_self] at at'
      exact absurd at' (begun work)
    · rw [Function.update_of_ne own] at at'
      exact b.fresh other work at'

theorem budgetsInvoke {owner work} (at' : w.workers owner = .claimed work) {phase : Phase} (same : phase.work = some work)
    (begun : ∀ work, phase ≠ .claimed work) :
    Budgets (({ w with invoked := w.invoked ++ [work.attempt] } : World).enter owner phase) := by
  have working := b.working owner work (by rw [at']; rfl)
  have distinct : (w.invoked ++ [work.attempt]).Nodup := by simpa using b.distinct.concat (b.fresh owner work at')
  refine ⟨b.kept,b.pending,b.held,?_,distinct,?_,?_⟩
  · have entered : Budgets (w.enter owner phase) :=
      budgetsEnter b (fun other found => by rw [at',← found,same]; rfl) begun
    exact entered.working
  · intro attempt mem
    rcases List.mem_append.mp mem with old | new
    · exact b.begun attempt old
    · exact ⟨_,working.held,(List.mem_singleton.mp new).symm⟩
  · intro other work' at''
    simp only [World.enter] at at''
    by_cases own : other = owner
    · subst own
      rw [Function.update_self] at at''
      exact absurd at'' (begun work')
    · rw [Function.update_of_ne own] at at''
      have working' := b.working other work' (by rw [at'']; rfl)
      intro mem
      rcases List.mem_append.mp mem with old | new
      · exact b.fresh other work' at'' old
      · exact own (oneClaim b.kept working'.held working.held (List.mem_singleton.mp new))

variable {c : OutboxClaimer} {picks} (lawful : Lawful c picks)
include lawful

theorem budgetsPublish {input : JobPublishInput} (some' : 1 ≤ input.maxAttempts.getD defaultJobMaxAttempts) :
    Budgets (w.call c (.publish input)) := by
  have kept := keptStep lawful b.kept (.publish input)
  cases ran : publish input w.ledger.queue with
  | error error =>
    have same : w.call c (.publish input) = w := by simp only [World.call,Ledger.next,ran]
    rwa [same]
  | ok queue =>
    simp only [Ledger.next,ran] at kept
    simp only [World.call,Ledger.next,ran]
    have pair := fun {e j} => publishedPair b.kept.inStep ran (e := e) (j := j)
    refine ⟨kept,?_,b.held,?_,b.distinct,b.begun,b.fresh⟩
    · intro e eMem waits j jMem link
      rcases pair eMem jMem link with ⟨eOld,jOld⟩ | ⟨rfl,rfl⟩
      · exact b.pending e eOld waits j jOld link
      · exact some'
    · intro owner work at'
      have working := b.working owner work at'
      refine ⟨working.held,fun e eMem named own => ?_⟩
      obtain ⟨-,-,rfl⟩ := published ran
      rcases List.mem_append.mp eMem with old | new
      · exact working.attempt e old named own
      · rw [List.mem_singleton.mp new] at own
        cases own

/- A claim of an event that has an attempt left: the worker is at that attempt, and whoever
was before it no longer has the lease. -/
theorem budgetsClaim {owner env type now} {s : ProcessorSettings} (idle : (w.workers owner).work = none)
    (spare : ∀ e ∈ picks env (claimInput s owner type now) w.ledger.queue, e.status = .processing →
      Spare w.ledger.queue e) :
    let input := claimInput s owner type now
    let claimed := w.call c (.claim env input)
    Budgets (match (c.claimNextByType env input w.ledger.queue).1 with
      | none => claimed
      | some work => claimed.enter owner (.claimed work)) := by
  intro input claimed
  have kept := keptStep lawful b.kept (.claim env input)
  simp only [claimed,World.call]
  simp only [Ledger.next] at kept ⊢
  rcases lawful.claims env input b.kept.inStep with none' | ⟨e,eMem,j,jMem,picked,link,due,ran⟩
  · rw [none'] at kept ⊢
    simpa using b
  · rw [ran] at kept ⊢
    have left' : e.attemptCount < j.maxAttempts := by
      cases status : e.status with
      | pending => exact b.pending e eMem status j jMem link
      | processing => exact spare e picked status j jMem link
      | processed => simp [claimable,status] at due
      | failed => simp [claimable,status] at due
    refine ⟨kept,?_,?_,?_,b.distinct,?_,?_⟩
    · intro row rowMem waits k kMem linked
      rcases setRowsPair b.kept.inStep eMem jMem (leaseKeeps input) link rowMem kMem linked with ⟨rfl,-⟩ | ⟨old,-,kOld⟩
      · cases waits
      · exact b.pending row old waits k kOld linked
    · intro entry mem
      rcases List.mem_append.mp mem with old | new
      · exact b.held entry old
      · rw [List.mem_singleton.mp new]
        exact left'
    · intro other work at'
      by_cases own : other = owner
      · subst own
        simp only [World.enter,Function.update_self,Phase.work] at at'
        cases at'
        refine ⟨List.mem_append_right _ (List.mem_singleton_self _),fun row rowMem named _ => ?_⟩
        rcases setRowsEvent b.kept.inStep eMem rowMem with rfl | ⟨-,away⟩
        · rfl
        · exact absurd named away
      · simp only [World.enter,Function.update_of_ne own] at at'
        have working := b.working other work at'
        refine ⟨List.mem_append_left _ working.held,fun row rowMem named lease => ?_⟩
        rcases setRowsEvent b.kept.inStep eMem rowMem with rfl | ⟨old,-⟩
        · exact absurd (Option.some.inj lease).symm own
        · exact working.attempt row old named lease
    · intro attempt mem
      obtain ⟨entry,held,same⟩ := b.begun attempt mem
      exact ⟨entry,List.mem_append_left _ held,same⟩
    · intro other work at'
      by_cases own : other = owner
      · subst own
        simp only [World.enter,Function.update_self] at at'
        cases at'
        intro mem
        obtain ⟨entry,held,same⟩ := b.begun _ mem
        have keys := kept.attempts
        rw [List.map_append,List.nodup_append] at keys
        exact keys.2.2 _ (List.mem_map.mpr ⟨entry,held,same⟩) _ (by simp) rfl
      · simp only [World.enter,Function.update_of_ne own] at at'
        exact b.fresh other work at'

theorem budgetsTell {owner work r written thrown} (at' : (w.workers owner).work = some work)
    (spare : ∀ e : OutboxEvent, (r.event e).status = .pending → work.event.attemptCount < work.job.maxAttempts) :
    Budgets (w.tell c owner work r written thrown) := by
  have working := b.working owner work at'
  have kept := keptStep lawful b.kept (.report owner work r)
  unfold World.tell
  split
  · simp only [World.call,Ledger.next,if_pos working.held] at kept ⊢
    obtain ⟨e,eMem,j,jMem,stands⟩ := b.kept.known _ working.held
    rw [reportRows lawful b.kept.inStep eMem jMem stands] at kept ⊢
    split
    · next own =>
      rw [if_pos own] at kept
      refine ⟨kept,?_,b.held,?_,b.distinct,b.begun,b.fresh⟩
      · intro row rowMem waits k kMem linked
        rcases setRowsPair b.kept.inStep eMem jMem (reportKeeps r) stands.link rowMem kMem linked with
          ⟨rfl,rfl⟩ | ⟨old,-,kOld⟩
        · have attempt := working.attempt e eMem stands.event.symm own
          have left' := spare e waits
          have count : (r.event e).attemptCount = e.attemptCount := by cases r <;> rfl
          rw [(reportKeeps r).budget,← stands.budget,count,attempt]
          exact left'
        · exact b.pending row old waits k kOld linked
      · intro other work' at''
        have working' := b.working other work' at''
        refine ⟨working'.held,fun row rowMem named lease => ?_⟩
        rcases setRowsEvent b.kept.inStep eMem rowMem with rfl | ⟨old,-⟩
        · have unleased : (r.event e).leaseOwner = none := by cases r <;> rfl
          rw [unleased] at lease
          cases lease
        · exact working'.attempt row old named lease
    · next other =>
      rw [if_neg other] at kept
      exact ⟨kept,b.pending,b.held,b.working,b.distinct,b.begun,b.fresh⟩
  · exact b

end

section
variable (picks : ClaimEnv → ClaimInput → Queue → Option OutboxEvent) (c : OutboxClaimer) (s : ProcessorSettings)

/-- Every job may be attempted once, and a claim that takes over an expired lease finds an
attempt left. -/
def Budgeted (w : World) : Action → Prop
  | .publish input => 1 ≤ input.maxAttempts.getD defaultJobMaxAttempts
  | .poll owner env type now => w.workers owner = .idle →
      ∀ e ∈ picks env (claimInput s owner type now) w.ledger.queue, e.status = .processing → Spare w.ledger.queue e
  | _ => True

def AllBudgeted : World → List Action → Prop
  | _, [] => True
  | w, action :: actions => Budgeted picks s w action ∧ AllBudgeted (w.step c s action) actions

instance (w : World) : ∀ action, Decidable (Budgeted picks s w action)
  | .publish input => inferInstanceAs (Decidable (1 ≤ input.maxAttempts.getD defaultJobMaxAttempts))
  | .poll owner env type now => inferInstanceAs (Decidable (w.workers owner = .idle →
      ∀ e ∈ picks env (claimInput s owner type now) w.ledger.queue, e.status = .processing → Spare w.ledger.queue e))
  | .handle _ _ => .isTrue trivial
  | .report _ _ _ _ _ => .isTrue trivial
  | .crash _ => .isTrue trivial

def decideBudgeted : ∀ w actions, Decidable (AllBudgeted picks c s w actions)
  | _, [] => .isTrue trivial
  | w, action :: actions =>
      have := decideBudgeted (w.step c s action) actions
      inferInstanceAs (Decidable (Budgeted picks s w action ∧ AllBudgeted picks c s (w.step c s action) actions))

instance (w : World) (actions : List Action) : Decidable (AllBudgeted picks c s w actions) := decideBudgeted picks c s w actions

end

section
variable {c : OutboxClaimer} {picks} (lawful : Lawful c picks) {s : ProcessorSettings}
include lawful

theorem budgetsStep {w : World} (b : Budgets w) {action : Action} (budgeted : Budgeted picks s w action) :
    Budgets (w.step c s action) := by
  cases action with
  | publish input => exact budgetsPublish b lawful budgeted
  | poll owner env type now =>
    simp only [World.step]
    split
    · next idle => exact budgetsClaim b lawful (by rw [idle]; rfl) (budgeted idle)
    · exact b
  | handle owner result =>
    simp only [World.step]
    split
    · next work claimed =>
      split
      · next error _ =>
        exact budgetsEnter b (fun other found => by rw [claimed,← found]; rfl) (fun _ same => by cases same)
      · cases result with
        | ok _ => exact budgetsInvoke b claimed rfl (fun _ same => by cases same)
        | error error => exact budgetsInvoke b claimed rfl (fun _ same => by cases same)
    · exact b
  | report owner now random written thrown =>
    simp only [World.step]
    split
    · next work handled =>
      have at' : (w.workers owner).work = some work := by rw [handled]; rfl
      have told : Budgets (w.tell c owner work (.processed now) written thrown) :=
        budgetsTell b lawful at' (fun _ waits => by cases waits)
      have same : (w.tell c owner work (.processed now) written thrown).workers = w.workers := by
        unfold World.tell
        split <;> rfl
      cases thrown with
      | none => exact budgetsEnter told (fun _ found => by cases found) (fun _ same => by cases same)
      | some error =>
        exact budgetsEnter told (fun other found => by rw [same,at',← found]; rfl) (fun _ same => by cases same)
    · next work error failed =>
      have at' : (w.workers owner).work = some work := by rw [failed]; rfl
      exact budgetsEnter (budgetsTell b lawful at' (fun _ => retriedSpare)) (fun _ found => by cases found)
        (fun _ same => by cases same)
    · exact b
  | crash owner => exact budgetsEnter b (fun _ found => by cases found) (fun _ same => by cases same)

theorem budgetsRun {w : World} (b : Budgets w) {actions : List Action} (budgeted : AllBudgeted picks c s w actions) :
    Budgets (actions.foldl (World.step c s) w) := by
  induction actions generalizing w with
  | nil => exact b
  | cons action actions ih => exact ih (budgetsStep lawful b budgeted.1) budgeted.2

end

theorem invokedWithin {w : World} (b : Budgets w) {e j} (eMem : e ∈ w.ledger.queue.events) (jMem : j ∈ w.ledger.queue.jobs)
    (link : Linked e j) : (w.invoked.map Prod.fst).count e.id ≤ j.maxAttempts := by
  have numbers : (w.invoked.filter (fun attempt => attempt.1 = e.id)).map Prod.snd ⊆ List.range' 1 j.maxAttempts := by
    intro n mem
    obtain ⟨attempt,filtered,rfl⟩ := List.mem_map.mp mem
    obtain ⟨invoked,named⟩ := List.mem_filter.mp filtered
    obtain ⟨entry,held,rfl⟩ := b.begun attempt invoked
    obtain ⟨e',eMem',j',jMem',stands⟩ := b.kept.known entry held
    have same : e' = e := sameEvent b.kept.inStep eMem' eMem (stands.event.symm.trans (of_decide_eq_true named))
    subst same
    have budget := stands.budget
    rw [b.kept.inStep.single e' eMem j' jMem' j jMem stands.link link] at budget
    rw [List.mem_range'_1]
    have within := b.held entry held
    have begun := b.kept.begun entry held
    simp only [ClaimedOutboxWork.attempt]
    omega
  have distinct : ((w.invoked.filter (fun attempt => attempt.1 = e.id)).map Prod.snd).Nodup := by
    refine List.Nodup.map_on (fun a aMem a' aMem' same => ?_) (b.distinct.filter _)
    have named := of_decide_eq_true (List.mem_filter.mp aMem).2
    have named' := of_decide_eq_true (List.mem_filter.mp aMem').2
    exact Prod.ext (named.trans named'.symm) same
  calc (w.invoked.map Prod.fst).count e.id
      = (w.invoked.filter (fun attempt => attempt.1 = e.id)).length := by
        rw [List.count,List.countP_map,List.countP_eq_length_filter]
        rfl
    _ = ((w.invoked.filter (fun attempt => attempt.1 = e.id)).map Prod.snd).length := (List.length_map _).symm
    _ ≤ (List.range' 1 j.maxAttempts).length := (List.subperm_of_subset distinct numbers).length_le
    _ = j.maxAttempts := List.length_range'

def deployed : List (OutboxClaimer × (ClaimEnv → ClaimInput → Queue → Option OutboxEvent)) :=
  [(prismaClaimer,Prisma.picked),(memoryClaimer,fun _ => Memory.picked)]

theorem deployedLawful {c picks} (member : (c,picks) ∈ deployed) : Lawful c picks := by
  rcases List.mem_cons.mp member with first | other
  · obtain ⟨rfl,rfl⟩ := Prod.mk.inj first
    exact prismaLawful
  · obtain ⟨rfl,rfl⟩ := Prod.mk.inj (List.mem_singleton.mp other)
    exact memoryLawful

theorem attemptsWithinBudget {c picks} (member : (c,picks) ∈ deployed) {s : ProcessorSettings} {actions : List Action}
    (budgeted : AllBudgeted picks c s World.start actions) :
    ∀ e ∈ (World.run c s actions).ledger.queue.events, ∀ j ∈ (World.run c s actions).ledger.queue.jobs, Linked e j →
      ((World.run c s actions).invoked.map Prod.fst).count e.id ≤ j.maxAttempts := by
  intro e eMem j jMem link
  exact invokedWithin (budgetsRun (deployedLawful member) startBudgets budgeted) eMem jMem link

/-- One event with the attempts of every job, and `n` workers that each handle it and stop
before they report, every one a hundred milliseconds after the last. -/
def abandonedJob : JobPublishInput := ⟨1,2,3,none,.flattenSignature,[],none,0,none⟩

def abandonedBy : Nat → List Action
  | 0 => [.publish abandonedJob]
  | n+1 => abandonedBy n ++ [.poll n ⟨[],0⟩ .flattenSignature (100*n),.handle n (.ok ()),.crash n]

theorem twoAttempts : ((World.run prismaClaimer ⟨60,⟨1,1⟩⟩ (abandonedBy 2)).invoked.map Prod.fst).count 1 ≤ 8 :=
  @attemptsWithinBudget prismaClaimer Prisma.picked List.mem_cons_self ⟨60,⟨1,1⟩⟩ (abandonedBy 2) (by decide)
    ⟨1,3,none,.flattenSignature,.processing,[],none,2,some 1,some 160,0,none,none⟩ (by decide)
    ⟨2,3,none,some 1,.flattenSignature,.leased,2,8,some 1,some 160,0,none,none,3⟩ (by decide) rfl

theorem ninthAttempt : ¬ ∀ (s : ProcessorSettings) (actions : List Action),
    ∀ e ∈ (World.run prismaClaimer s actions).ledger.queue.events,
    ∀ j ∈ (World.run prismaClaimer s actions).ledger.queue.jobs, Linked e j →
      ((World.run prismaClaimer s actions).invoked.map Prod.fst).count e.id ≤ j.maxAttempts := by
  intro within
  have overrun := within ⟨60,⟨1,1⟩⟩ (abandonedBy 9)
  revert overrun
  decide

end ESign.JobQueue
