import ESign.Timeline

/-! One job among others. A worker runs under an owner id of its own, so the lease of a
document never comes back to a worker that has lost it. A job claims the lease once, in
the middle of its run; what it does before and after is read off its program. -/
namespace ESign
open StoreProgram StoreProgram.Outline

/-- The owner that a write compares with the lease, or takes it for. -/
def Write.owner : Write → Option Id
  | .takeLease input _ _ _ _ => some input.owner
  | .flatten u => some u.input.owner
  | .markFinalizationFailed owner => some owner
  | .releaseLease owner => some owner
  | _ => none

def otherOwners (owner : Id) : Scope Envelope Write Request := ⟨fun _ => True,fun w _ => w.owner ≠ some owner⟩

theorem otherWithin (owner : Id) : (otherOwners owner).Within anyScope := ⟨fun _ _ => trivial,fun _ _ _ => trivial⟩

theorem Committed.leaseOwner {w : Write} {i e e'} (done : Committed i e e' w) :
    e'.document.leaseOwner = e.document.leaseOwner ∨ e'.document.leaseOwner = none ∨
    ∃ input expectedVersion leaseUntil now current, w = .takeLease input expectedVersion leaseUntil now current := by
  cases done with
  | still h idle artifact => exact .inl (by rw [h.document])
  | released h => subst h; exact .inr (.inl rfl)
  | failed state h => subst h; exact .inr (.inl rfl)
  | leased row frame state revised kept => exact .inr (.inr ⟨_,_,_,_,_,rfl⟩)
  | upload h => exact .inl (by rw [h.document])
  | inspect h =>
    obtain ⟨status,changed⟩ := h.document
    exact .inl (by rw [changed])
  | replaceSigners h =>
    obtain ⟨given,same,prepared⟩ := h.document
    rcases prepared with kept | ⟨-,state,-,-,changed⟩
    · exact .inl (by rw [kept,same])
    · exact .inl (by rw [changed,same])
  | replaceFields h =>
    rcases h.document with same | ⟨-,state,-,-,changed⟩
    · exact .inl (by rw [same])
    · exact .inl (by rw [changed])
  | send h => exact .inl (by rw [h.document])
  | void h => exact .inl (by rw [h.document])
  | decline h => exact .inl (by rw [h.document])
  | complete h =>
    rcases h.document with ⟨-,-,-,moved⟩ | ⟨-,-,-,-,moved⟩ | ⟨-,-,same⟩
    · exact .inl (by rw [moved])
    · exact .inl (by rw [moved])
    · exact .inl (by rw [same])
  | flatten h => exact .inr (.inl (by rw [h.document]))

section
variable {settings : Settings} (x : Extension anyScope)

theorem ownWrite {c : Running} {w : Write} (sound : (x.outline settings).Sound c) (just : Justified x.Past w c.store) (i : Input) :
    (x.outline settings).Sound { c with store := (esign settings).after ⟨w,c.store,i⟩ } :=
  soundWrite sound just trivial i

theorem otherStep {owner : Id} {c c'} (sound : (x.outline settings).Sound c)
    (next : Step (esign settings) (otherOwners owner) c c') :
    c'.store = c.store ∨ ∃ w i, Justified x.Past w c.store ∧ w.owner ≠ some owner ∧ w.run i c.store = .ok c'.store ∧
      Committed i c.store c'.store w := by
  have sub : ∀ w e, (otherOwners owner).cond w e → anyScope.cond w e := (otherWithin owner).cond
  rcases (x.restrict sub).stepRun (x.restricted sub sound) next with same | ⟨w,i,just,cond,ok⟩
  · exact .inl same
  · exact .inr ⟨w,i,just,cond,ok,committed sound.inv.1 (just.weaken x.past) ok⟩

theorem otherRun {owner : Id} {c c'} (sound : (x.outline settings).Sound c)
    (run : Run (esign settings) (otherOwners owner) c c') :
    (x.outline settings).Sound c' ∧ Later c.store c'.store ∧ x.Also c.store c'.store :=
  x.runLater sound (runWithin (otherWithin owner) run)

theorem leaseLost {owner : Id} {w : Write} {i e e'} (other : w.owner ≠ some owner) (ok : w.run i e = .ok e')
    (done : Committed i e e' w) (lost : e.document.leaseOwner ≠ some owner) : e'.document.leaseOwner ≠ some owner := by
  rcases done.leaseOwner with same | none | ⟨input,_,_,_,_,rfl⟩
  · rw [same]
    exact lost
  · rw [none]
    exact nofun
  · rw [(takeEffect ok).leaseOwner]
    exact other

theorem neverRegained {owner : Id} {c c'} (sound : (x.outline settings).Sound c)
    (run : Run (esign settings) (otherOwners owner) c c') (lost : c.store.document.leaseOwner ≠ some owner) :
    c'.store.document.leaseOwner ≠ some owner := by
  induction run with
  | refl => exact lost
  | tail reached next ih =>
    rcases otherStep x (otherRun x sound reached).1 next with same | ⟨w,i,-,other,ok,done⟩
    · rw [same]
      exact ih
    · exact leaseLost other ok done ih

end

/-! The program of a job, cut where it claims the lease. -/

theorem writesExternal {allowed : Write → Prop} : Program.Writes allowed external := fun _ _ => trivial

theorem writesWork {allowed : Write → Prop} (input : FlattenInput) : Program.Writes allowed (loadAuthorizedWork input) := by
  refine writesThen writesGet (fun document => writesThen writesGet (fun artifact => ?_))
  split
  · trivial
  · refine writesThen writesFind (fun signer => writesThen writesFind (fun session => ?_))
    refine writesThen writesEnsure (fun _ => writesThen writesFind (fun consent => ?_))
    refine writesThen writesFind (fun revision => writesThen writesGet (fun signers => ?_))
    refine writesThen writesGet (fun fields => writesThen writesEnsure (fun _ => ?_))
    exact writesThen writesGet (fun now => trivial)

def Write.takes : Write → Bool
  | .takeLease _ _ _ _ _ => true
  | _ => false

def Write.repairs : Write → Bool
  | .persist _ => true
  | _ => false

theorem repairsTakes {w : Write} (repairs : w.repairs = true) : w.takes = false := by
  cases w <;> first | rfl | cases repairs

/-- The lease was claimed: the row was looked up in `found`, and taken in `taken`. -/
structure Claim (settings : Settings) (env : Scope Envelope Write Request) (input : FlattenInput) (expectedVersion : Nat)
    (c found taken : Running) (p : Performed Write Envelope Input) : Prop where
  toFound : Run (esign settings) env c found
  toTaken : Run (esign settings) env found taken
  write : ∃ leaseUntil now, p.write = .takeLease input expectedVersion leaseUntil now found.store.document ∧
    Documents.leasable expectedVersion input.owner now found.store.document = true
  before : p.before = taken.store
  answer : (esign settings).answer p = .ok ()

def Claimed (settings : Settings) (p : Performed Write Envelope Input) : Prop :=
  p.write.takes = true ∧ (esign settings).answer p = .ok ()

/-- A write that leaves the lease with whoever has it: it is refused the lease, or repairs
an artifact. -/
def Unclaimed (settings : Settings) (p : Performed Write Envelope Input) : Prop :=
  (p.write.takes = true ∧ (esign settings).answer p ≠ .ok ()) ∨ p.write.repairs = true

theorem unclaimedNot {settings : Settings} {p : Performed Write Envelope Input} (h : Unclaimed settings p) : ¬ Claimed settings p := by
  intro ⟨takes,answered⟩
  rcases h with ⟨-,refused⟩ | repairs
  · exact refused answered
  · rw [repairsTakes repairs] at takes
    cases takes

section
variable {settings : Settings} {env : Scope Envelope Write Request} {inputs : Input → Prop} {input : FlattenInput}
  {own : List (Performed Write Envelope Input)} {c c' : Running}

theorem claimInner {expectedVersion : Nat} {leaseUntil now : Date} {value : Except AppError Document}
    (run : Amid (esign settings) env inputs c (claimProcessingLease input expectedVersion leaseUntil now) own value c') :
    ((own = [] ∨ ∃ p, own = [p] ∧ Unclaimed settings p) ∧ ∃ error, value = .error error) ∨
    ∃ found taken p, Claim settings env input expectedVersion c found taken p ∧ own = [p] ∧
      Run (esign settings) env { taken with store := (esign settings).after p } c' ∧
      (value = .ok c'.store.document ∨ ∃ error, value = .error error) := by
  rcases amidThenReads writesFind run with ⟨rfl,-,failed⟩ | ⟨current,found,first,-,taking⟩
  · exact .inl ⟨.inl rfl,failed⟩
  obtain ⟨-,toFound,row⟩ := amidFind first
  split at row <;> try cases row
  rename_i leasable
  rcases amidThen taking with ⟨error,rfl,refused⟩ | ⟨_,after,own₂,rest,rfl,second,reading⟩
  · obtain ⟨taken,i,-,rfl,same,-⟩ := amidPerform refused
    refine .inl ⟨.inr ⟨_,rfl,.inl ⟨rfl,fun answered => ?_⟩⟩,error,rfl⟩
    cases same.trans answered
  obtain ⟨taken,i,toTaken,rfl,answered,rfl⟩ := amidPerform second
  refine .inr ⟨found,taken,⟨.takeLease input expectedVersion leaseUntil now found.store.document,taken.store,i⟩,
    ⟨toFound,toTaken,⟨leaseUntil,now,rfl,leasable⟩,rfl,answered.symm⟩,?_⟩
  rcases amidThenReads writesExternal reading with ⟨rfl,later,failed⟩ | ⟨_,between,-,first,reread⟩
  · exact ⟨rfl,later,.inr failed⟩
  · obtain ⟨rfl,second,i,-,rfl⟩ := amidGet reread
    exact ⟨rfl,first.trans second,.inl rfl⟩

theorem claimRun {expectedVersion : Nat} {leaseUntil now : Date} {value : Except AppError Document}
    (run : Amid (esign settings) env inputs c (Fallible.attempt (claimProcessingLease input expectedVersion leaseUntil now)
      (fun error => Fallible.fail (leaseError error))) own value c') :
    ((own = [] ∨ ∃ p, own = [p] ∧ Unclaimed settings p) ∧ ∃ error, value = .error error) ∨
    ∃ found taken p, Claim settings env input expectedVersion c found taken p ∧ own = [p] ∧
      Run (esign settings) env { taken with store := (esign settings).after p } c' ∧
      (value = .ok c'.store.document ∨ ∃ error, value = .error error) := by
  rcases amidAttempt run with ⟨leased,rfl,first⟩ | ⟨error,c₁,own₁,own₂,rfl,first,handled⟩
  · exact claimInner first
  · obtain ⟨rfl,rfl,rfl⟩ := amidLift handled
    rw [List.append_nil]
    rcases claimInner first with ⟨unclaimed,-⟩ | ⟨found,taken,p,claim,only,later,-⟩
    · exact .inl ⟨unclaimed,_,rfl⟩
    · exact .inr ⟨found,taken,p,claim,only,later,.inr ⟨_,rfl⟩⟩

theorem persistRun {loaded : LoadedWork} {value : Except AppError Unit}
    (run : Amid (esign settings) env inputs c (persistMissingFinalArtifact input loaded) own value c') :
    own = [] ∨ ∃ p, own = [p] ∧ Unclaimed settings p := by
  rcases amidThenReads writesExternal run with ⟨rfl,-,-⟩ | ⟨_,c₁,-,-,naming⟩
  · exact .inl rfl
  obtain ⟨c₂,i,-,-,dating⟩ := amidThenGet naming
  obtain ⟨c₃,j,-,-,storing⟩ := amidThenGet dating
  rcases amidAttempt storing with ⟨_,rfl,stored⟩ | ⟨error,c₄,own₁,own₂,rfl,refused,handled⟩
  · obtain ⟨before,k,-,rfl,-,-⟩ := amidPerform stored
    exact .inr ⟨_,rfl,.inr rfl⟩
  · obtain ⟨before,k,-,rfl,-,-⟩ := amidPerform refused
    obtain ⟨rfl,-,-⟩ := amidLift handled
    exact .inr ⟨_,rfl,.inr rfl⟩

/-- A job that claims the lease claims it with its first write. It then fails to read the
row back, or goes on with the row it has read. -/
structure ClaimRun (settings : Settings) (env : Scope Envelope Write Request) (inputs : Input → Prop) (input : FlattenInput)
    (c c₁ c₂ found taken reread c' : Running) (loaded : LoadedWork) (now : Date) (p : Performed Write Envelope Input)
    (rest : List (Performed Write Envelope Input)) (value : Except AppError Unit) : Prop where
  load : Amid (esign settings) env inputs c (loadAuthorizedWork input) [] (.ok (some loaded)) c₁
  toClaim : Run (esign settings) env c₁ c₂
  claim : Claim settings env input loaded.document.version c₂ found taken p
  toReread : Run (esign settings) env { taken with store := (esign settings).after p } reread
  finish : (rest = [] ∧ c' = reread ∧ ∃ error, value = .error error) ∨
    Amid (esign settings) env inputs reread (afterClaim input loaded now reread.store.document) rest value c'

theorem flattenRun {value : Except AppError Unit}
    (run : Amid (esign settings) env inputs c (flattenSignature settings input) own value c') :
    (own = [] ∨ ∃ p, own = [p] ∧ Unclaimed settings p) ∨ ∃ c₁ c₂ found taken reread loaded now p rest, own = p :: rest ∧
      ClaimRun settings env inputs input c c₁ c₂ found taken reread c' loaded now p rest value := by
  rcases amidThenReads (writesWork input) run with ⟨rfl,-,-⟩ | ⟨work,c₁,first,-,working⟩
  · exact .inl (.inl rfl)
  cases work with
  | none =>
    cases working
    exact .inl (.inl rfl)
  | some loaded =>
    simp only at working
    split at working
    · exact .inl (persistRun working)
    obtain ⟨c₂,i,-,toClaim,claiming⟩ := amidThenGet working
    rcases amidThen claiming with ⟨error,rfl,failed⟩ | ⟨leased,reread,own₁,rest,rfl,second,drawing⟩
    · rcases claimRun failed with ⟨unclaimed,-⟩ | ⟨found,taken,p,claim,rfl,later,-⟩
      · exact .inl unclaimed
      · exact .inr ⟨c₁,c₂,found,taken,c',loaded,i.now,p,[],rfl,first,toClaim,claim,later,.inl ⟨rfl,rfl,error,rfl⟩⟩
    · rcases claimRun second with ⟨-,error,other⟩ | ⟨found,taken,p,claim,rfl,later,same | ⟨error,other⟩⟩
      · cases other
      · cases same
        exact .inr ⟨c₁,c₂,found,taken,reread,loaded,i.now,p,rest,rfl,first,toClaim,claim,later,.inr drawing⟩
      · cases other

theorem claimedRun {value : Except AppError Unit}
    (run : Amid (esign settings) env inputs c (flattenSignature settings input) own value c')
    (claimed : ∃ p ∈ own, Claimed settings p) :
    ∃ c₁ c₂ found taken reread loaded now p rest, own = p :: rest ∧
      ClaimRun settings env inputs input c c₁ c₂ found taken reread c' loaded now p rest value := by
  obtain ⟨q,mem,claims⟩ := claimed
  rcases flattenRun run with (rfl | ⟨p,rfl,unclaimed⟩) | claimRun
  · cases mem
  · rw [List.mem_singleton.mp mem] at claims
    exact absurd claims (unclaimedNot unclaimed)
  · exact claimRun

/-- A job draws on the revision it found in `seen`, and is about to commit in `c'`. -/
structure Draw (settings : Settings) (env : Scope Envelope Write Request) (input : FlattenInput) (loaded : LoadedWork)
    (leased : Document) (c seen c' : Running) (u : FlattenUnit) : Prop where
  input : u.input = input
  loaded : u.loaded = loaded
  leased : u.leased = leased
  toRevision : Run (esign settings) env c seen
  revision : Revisions.findById (u.leased.currentRevisionId.getD u.loaded.revision.id) seen.store = some u.revision
  output : u.output = ⟨u.revision.body.uploaded,u.revision.body.drawn ++ u.loaded.pendingFields.map u.loaded.appearance⟩
  toCommit : Run (esign settings) env seen c'

theorem outputRun {loaded : LoadedWork} {revision : DocumentRevision} {value : Except AppError (Pdf × Nat)}
    (run : Amid (esign settings) env inputs c (outputOf input loaded revision) own value c') :
    own = [] ∧ Run (esign settings) env c c' ∧ ∀ output, value = .ok output →
      output.1 = ⟨revision.body.uploaded,revision.body.drawn ++ loaded.pendingFields.map loaded.appearance⟩ := by
  unfold outputOf at run
  split at run
  · rcases amidThenReads writesExternal run with ⟨rfl,later,error,rfl⟩ | ⟨_,c₁,-,toDraw,drawing⟩
    · exact ⟨rfl,later,nofun⟩
    rcases amidThenReads writesLift drawing with ⟨rfl,later,error,rfl⟩ | ⟨_,c₂,-,drawn,saving⟩
    · exact ⟨rfl,toDraw.trans later,nofun⟩
    rcases amidThenReads writesExternal saving with ⟨rfl,later,error,rfl⟩ | ⟨_,c₃,-,saved,counting⟩
    · exact ⟨rfl,toDraw.trans (drawn.trans later),nofun⟩
    obtain ⟨c₄,i,-,counted,returned⟩ := amidThenGet counting
    cases returned
    refine ⟨rfl,toDraw.trans (drawn.trans (saved.trans counted)),fun output same => ?_⟩
    cases same
    rfl
  · rename_i empty
    have none : loaded.pendingFields = [] := by simpa using empty
    rcases amidThenReads writesExternal run with ⟨rfl,later,error,rfl⟩ | ⟨_,c₁,-,later,returned⟩
    · exact ⟨rfl,later,nofun⟩
    cases returned
    refine ⟨rfl,later,fun output same => ?_⟩
    cases same
    simp [none]

/- The one write of the `try` is its last action. -/
theorem drawRun {loaded : LoadedWork} {leased : Document} {value : Except AppError Unit}
    (run : Amid (esign settings) env inputs c (drawAndCommit input loaded leased) own value c') :
    (own = [] ∧ Run (esign settings) env c c' ∧ ∃ error, value = .error error) ∨
    ∃ seen before u i, Draw settings env input loaded leased c seen before u ∧ own = [⟨.flatten u,before.store,i⟩] ∧
      c' = { before with store := (esign settings).after ⟨.flatten u,before.store,i⟩ } ∧
      (value = .ok () ↔ (esign settings).answer ⟨.flatten u,before.store,i⟩ = .ok ()) := by
  rcases amidThenReads writesFind run with failed | ⟨revision,seen,first,toRevision,drawing⟩
  · exact .inl failed
  have row := amidFound first
  rcases amidThen drawing with ⟨error,rfl,failed⟩ | ⟨output,c₂,own₁,own₂,rfl,second,naming⟩
  · obtain ⟨rfl,later,-⟩ := outputRun failed
    exact .inl ⟨rfl,toRevision.trans later,error,rfl⟩
  obtain ⟨rfl,toOutput,content⟩ := outputRun second
  obtain ⟨c₃,ids,-,toIds,dating⟩ := amidThenGet naming
  obtain ⟨c₄,date,-,toDate,storing⟩ := amidThenGet dating
  have toStore : Run (esign settings) env seen c₄ := toOutput.trans (toIds.trans toDate)
  rcases amidThenReads (writesWhen writesExternal) storing with ⟨rfl,later,error,rfl⟩ | ⟨_,c₅,-,stored,committing⟩
  · exact .inl ⟨rfl,toRevision.trans (toStore.trans later),error,rfl⟩
  refine .inr ?_
  rcases amidAttempt committing with ⟨_,rfl,committed⟩ | ⟨error,c₆,own₃,own₄,rfl,refused,handled⟩
  · obtain ⟨before,i,toCommit,rfl,answered,rfl⟩ := amidPerform committed
    refine ⟨seen,before,_,i,⟨rfl,rfl,rfl,toRevision,row,content _ rfl,toStore.trans (stored.trans toCommit)⟩,rfl,rfl,?_⟩
    exact ⟨fun _ => answered.symm,fun _ => rfl⟩
  · obtain ⟨before,i,toCommit,rfl,answered,rfl⟩ := amidPerform refused
    obtain ⟨rfl,rfl,rfl⟩ := amidLift handled
    refine ⟨seen,before,_,i,⟨rfl,rfl,rfl,toRevision,row,content _ rfl,toStore.trans (stored.trans toCommit)⟩,rfl,rfl,?_⟩
    refine ⟨nofun,fun same => ?_⟩
    have other := answered.trans same
    cases other

/-- How the outer `catch` goes: the lease is released, or the document is marked, in which
case the row is read back and the event logged, unless one of these fails. -/
inductive Recorded (settings : Settings) (env : Scope Envelope Write Request) (input : FlattenInput) (c : Running) :
    List (Performed Write Envelope Input) → Running → Prop where
  | released {before : Running} {i} (toRelease : Run (esign settings) env c before) :
      Recorded settings env input c [⟨.releaseLease input.owner,before.store,i⟩]
        { before with store := (esign settings).after ⟨.releaseLease input.owner,before.store,i⟩ }
  | marked {before c' : Running} {i} (toMark : Run (esign settings) env c before)
      (later : Run (esign settings) env
        { before with store := (esign settings).after ⟨.markFinalizationFailed input.owner,before.store,i⟩ } c')
      (failed : i.failure.isSome = true →
        c' = { before with store := (esign settings).after ⟨.markFinalizationFailed input.owner,before.store,i⟩ }) :
      Recorded settings env input c [⟨.markFinalizationFailed input.owner,before.store,i⟩] c'
  | logged {before last : Running} {i j code occurredAt} (toMark : Run (esign settings) env c before) (passed : i.failure = none)
      (later : Run (esign settings) env
        { before with store := (esign settings).after ⟨.markFinalizationFailed input.owner,before.store,i⟩ } last) :
      Recorded settings env input c [⟨.markFinalizationFailed input.owner,before.store,i⟩,
          ⟨.finalizationFailed input code occurredAt,last.store,j⟩]
        { last with store := (esign settings).after ⟨.finalizationFailed input code occurredAt,last.store,j⟩ }

theorem recordRun {error : AppError} {value : Except AppError Unit}
    (run : Amid (esign settings) env inputs c (recordFailure input error) own value c') :
    Recorded settings env input c own c' := by
  unfold recordFailure at run
  split at run
  · rcases amidThen run with ⟨error,rfl,failed⟩ | ⟨_,c₁,own₁,own₂,rfl,released,thrown⟩
    · obtain ⟨before,i,toRelease,rfl,-,rfl⟩ := amidPerform failed
      exact .released toRelease
    · obtain ⟨before,i,toRelease,rfl,-,rfl⟩ := amidPerform released
      obtain ⟨rfl,rfl,-⟩ := amidLift thrown
      exact .released toRelease
  · rcases amidThen run with ⟨error,rfl,failed⟩ | ⟨_,c₁,own₁,own₂,rfl,marked,reading⟩
    · obtain ⟨before,i,toMark,rfl,-,rfl⟩ := amidPerform failed
      exact .marked toMark .refl (fun _ => rfl)
    obtain ⟨before,i,toMark,rfl,answered,rfl⟩ := amidPerform marked
    have passed : i.failure = none := Write.execPassed answered.symm
    rcases amidThenReads writesExternal reading with ⟨rfl,later,-⟩ | ⟨_,c₂,-,reread,logging⟩
    · exact .marked toMark later (fun failed => by rw [passed] at failed; cases failed)
    obtain ⟨c₃,date,-,dated,logging⟩ := amidThenGet logging
    rcases amidThen logging with ⟨error,rfl,failed⟩ | ⟨_,c₄,own₃,own₄,rfl,logged,thrown⟩
    · obtain ⟨last,j,toLog,rfl,-,rfl⟩ := amidPerform failed
      exact .logged toMark passed (reread.trans (dated.trans toLog))
    · obtain ⟨last,j,toLog,rfl,-,rfl⟩ := amidPerform logged
      obtain ⟨rfl,rfl,-⟩ := amidLift thrown
      exact .logged toMark passed (reread.trans (dated.trans toLog))

/-- Between the claim and the `try` the start is logged, or nothing is. -/
inductive Begun (settings : Settings) (env : Scope Envelope Write Request) (input : FlattenInput) (c : Running) : Running → Prop where
  | skipped : Begun settings env input c c
  | logged {before : Running} {now i} (toStart : Run (esign settings) env c before) : Begun settings env input c
      { before with store := (esign settings).after ⟨.finalizationStarted input now,before.store,i⟩ }

theorem begunRun {now : Date} {holds : Bool} {value : Except AppError Unit}
    (run : Amid (esign settings) env inputs c (Fallible.when holds (Fallible.perform (.finalizationStarted input now))) own value c') :
    Begun settings env input c c' ∧ ∀ p ∈ own, p.write = .finalizationStarted input now := by
  rcases amidWhen run with ⟨-,started⟩ | ⟨rfl,rfl,-⟩
  · obtain ⟨before,i,toStart,rfl,-,rfl⟩ := amidPerform started
    exact ⟨.logged toStart,by simp⟩
  · exact ⟨.skipped,by simp⟩

theorem commitRun {loaded : LoadedWork} {leased : Document} {now : Date} {value : Except AppError Unit}
    (run : Amid (esign settings) env inputs c (afterClaim input loaded now leased) own value c')
    {q : Performed Write Envelope Input} {u : FlattenUnit} (mem : q ∈ own) (write : q.write = .flatten u) :
    ∃ begun seen before, Begun settings env input c begun ∧ Draw settings env input loaded leased begun seen before u ∧
      q.before = before.store := by
  rcases amidThen run with ⟨_,-,failed⟩ | ⟨_,begun,own₁,own₂,rfl,started,drawing⟩
  · rw [(begunRun failed).2 q mem] at write
    cases write
  obtain ⟨begins,starts⟩ := begunRun started
  rcases List.mem_append.mp mem with early | late
  · rw [starts q early] at write
    cases write
  have drawn : ∀ {own value last}, Amid (esign settings) env inputs begun (drawAndCommit input loaded leased) own value last →
      q ∈ own → ∃ seen before, Draw settings env input loaded leased begun seen before u ∧ q.before = before.store := by
    intro own value last run mem
    rcases drawRun run with ⟨rfl,-,-⟩ | ⟨seen,before,v,i,draw,rfl,-,-⟩
    · cases mem
    · rw [List.mem_singleton.mp mem] at write ⊢
      cases write
      exact ⟨seen,before,draw,rfl⟩
  rcases amidAttempt drawing with ⟨_,-,draws⟩ | ⟨thrown,c₂,own₃,own₄,rfl,draws,handled⟩
  · obtain ⟨seen,before,draw,same⟩ := drawn draws late
    exact ⟨begun,seen,before,begins,draw,same⟩
  rcases List.mem_append.mp late with tried | caught
  · obtain ⟨seen,before,draw,same⟩ := drawn draws tried
    exact ⟨begun,seen,before,begins,draw,same⟩
  · cases recordRun handled <;>
      simp only [List.mem_cons,List.not_mem_nil,or_false] at caught <;>
      rcases caught with rfl | rfl <;> cases write

end

end ESign
