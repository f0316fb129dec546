import ESign.Inspection
import ESign.Leases

/-! Fields are drawn once, and each revision on top of the one it replaces. A job reads its
fields before it claims the lease, and what it read is compared with the version the lease
is taken on; from then on the lease stands for the version. Nobody commits a revision while
another holds the lease, and who has lost it does not get it back. -/
namespace ESign
open StoreProgram StoreProgram.Outline

/-- Whatever is drawn was drawn before, into the same revision. -/
def DrawnFrom (e e' : Envelope) : Prop :=
  ∀ f' ∈ e'.fields, f'.flattenedRevisionId.isSome = true →
    ∃ f ∈ e.fields, f.id = f'.id ∧ f.flattenedRevisionId = f'.flattenedRevisionId

theorem DrawnFrom.same {e e' : Envelope} (fields : e'.fields = e.fields) : DrawnFrom e e' := by
  intro f mem _
  rw [fields] at mem
  exact ⟨f,mem,rfl,rfl⟩

theorem DrawnFrom.trans {a b c} (left : DrawnFrom a b) (right : DrawnFrom b c) : DrawnFrom a c := by
  intro f'' mem'' drawn
  obtain ⟨f',mem',id',same'⟩ := right f'' mem'' drawn
  obtain ⟨f,mem,id,same⟩ := left f' mem' (by rw [same']; exact drawn)
  exact ⟨f,mem,id.trans id',same.trans same'⟩

theorem Committed.drawnFrom {past : Envelope → Envelope → Prop} {w : Write} {i e e'} (just : Justified past w e)
    (done : Committed i e e' w) : (∃ u, w = .flatten u ∧ FlattenEffect u e e') ∨ DrawnFrom e e' := by
  rcases done.fields with same | ⟨u,rfl,h⟩ | ⟨u,rfl,h⟩ | ⟨u,rfl,h⟩ | ⟨u,rfl,h⟩
  · exact .inr (.same same)
  · exact .inr (fun f mem _ => ⟨f,h.fields.subset mem,rfl,rfl⟩)
  · refine .inr (fun f mem drawn => ?_)
    rw [h.fields] at mem
    rw [(just.fresh f mem).2] at drawn
    cases drawn
  · refine .inr (fun f' mem' _ => ?_)
    obtain ⟨f,mem,row⟩ := forall₂Source h.fields f' mem'
    exact ⟨f,mem,by rw [row.kept],by rw [row.kept]⟩
  · exact .inl ⟨u,rfl,h⟩

structure Linked (e e' : Envelope) : Prop where
  version : e.document.version ≤ e'.document.version
  revisions : RevisionsKept e e'
  drawn : e'.document.version = e.document.version → DrawnFrom e e'

theorem Linked.trans {a b c} (left : Linked a b) (right : Linked b c) : Linked a c where
  version := left.version.trans right.version
  revisions r mem := right.revisions r (left.revisions r mem)
  drawn same := by
    have first : b.document.version = a.document.version := by
      have := left.version
      have := right.version
      omega
    exact (left.drawn first).trans (right.drawn (same.trans first.symm))

def linearExtension : Extension anyScope where
  Extra := Inspected
  Also := Linked
  refl e := ⟨le_refl _,fun _ mem => mem,fun _ => .same rfl⟩
  trans := .trans
  keep := by
    intro w i e e' inv extra past just _ ok done inv' later
    have before : Justified InspectedBefore w e := past.weaken (fun a b h => ⟨h.1,h.2.1,h.2.2.revisions⟩)
    refine ⟨keepInspected inv extra before just done ok later,later.version,keepRevisions done,fun same => ?_⟩
    rcases done.drawnFrom just with ⟨u,-,h⟩ | from_
    · rw [h.document] at same
      exact absurd same (by simp)
    · exact from_

section
variable {settings : Settings}

/- A lease that is held at the end of what others do was held all along: nobody has
committed a revision. -/
theorem heldRun {owner : Id} {c c' : Running} (sound : (linearExtension.outline settings).Sound c)
    (run : Run (esign settings) (otherOwners owner) c c') (held : c'.store.document.leaseOwner = some owner) :
    c.store.document.leaseOwner = some owner ∧ DrawnFrom c.store c'.store := by
  induction run with
  | refl => exact ⟨held,.same rfl⟩
  | @tail mid last run next ih =>
    have atMid := (otherRun linearExtension sound run).1
    rcases otherStep linearExtension atMid next with same | ⟨w,i,just,other,ok,done⟩
    · rw [same] at held ⊢
      exact ih held
    · have heldMid : mid.store.document.leaseOwner = some owner := by
        by_contra lost
        exact leaseLost other ok done lost held
      obtain ⟨heldFirst,first⟩ := ih heldMid
      refine ⟨heldFirst,first.trans ?_⟩
      rcases done.drawnFrom just with ⟨u,-,h⟩ | from_
      · rw [h.document] at held
        cases held
      · exact from_

structure RowsKept (e e' : Envelope) : Prop where
  document : e'.document = e.document
  fields : e'.fields = e.fields
  revisions : e'.revisions = e.revisions
  artifact : e'.artifact = e.artifact

def Write.working (owner : Id) : Write → Prop
  | .finalizationStarted _ _ => True
  | .flatten u => u.input.owner = owner
  | .markFinalizationFailed other => other = owner
  | .releaseLease other => other = owner
  | .finalizationFailed _ _ _ => True
  | _ => False

theorem appendRows {event e e'} (ok : Audit.append event e = .ok e') : RowsKept e e' := by
  cases appendEffect ok
  exact ⟨rfl,rfl,rfl,rfl⟩

theorem workingCases {owner : Id} {w : Write} (working : w.working owner) (e : Envelope) (i : Input) :
    RowsKept e (w.exec e i).1 ∨ e.document.leaseOwner = some owner ∧
      ((∃ u, w = .flatten u ∧ FlattenEffect u e (w.exec e i).1) ∨
        (w.exec e i).1 = { e with document := (w.exec e i).1.document }) := by
  rcases Write.execCases w e i with same | ok
  · rw [same]
    exact .inl ⟨rfl,rfl,rfl,rfl⟩
  cases w <;> try exact absurd working id
  case finalizationStarted => exact .inl (appendRows ok)
  case finalizationFailed => exact .inl (appendRows ok)
  case flatten u =>
    have h := flattenEffect ok
    exact .inr ⟨h.owner.trans (congrArg some working),.inl ⟨u,rfl,h⟩⟩
  case markFinalizationFailed other =>
    cases working
    have stored := (Except.ok.inj ok).symm
    by_cases hit : e.document.leaseOwner = some owner ∧ e.document.state = .finalizing
    · exact .inr ⟨hit.1,.inr (by rw [stored]; unfold Documents.markFinalizationFailed; rw [if_pos hit])⟩
    · refine .inl ?_
      rw [stored]
      unfold Documents.markFinalizationFailed
      rw [if_neg hit]
      exact ⟨rfl,rfl,rfl,rfl⟩
  case releaseLease other =>
    cases working
    have stored := (Except.ok.inj ok).symm
    by_cases hit : e.document.leaseOwner = some owner
    · exact .inr ⟨hit,.inr (by rw [stored]; unfold Documents.releaseProcessingLease; rw [if_pos hit])⟩
    · refine .inl ?_
      rw [stored]
      unfold Documents.releaseProcessingLease
      rw [if_neg hit]
      exact ⟨rfl,rfl,rfl,rfl⟩

theorem startedRows {input now} {before : Envelope} {i} :
    RowsKept before ((esign settings).after ⟨.finalizationStarted input now,before,i⟩) := by
  rcases Write.execCases (.finalizationStarted input now) before i with same | ok
  · exact ⟨congrArg Envelope.document same,congrArg Envelope.fields same,congrArg Envelope.revisions same,
      congrArg Envelope.artifact same⟩
  · exact appendRows ok

theorem heldBegun {input : FlattenInput} {c c' : Running} (sound : (linearExtension.outline settings).Sound c)
    (begun : Begun settings (otherOwners input.owner) input c c') (held : c'.store.document.leaseOwner = some input.owner) :
    c.store.document.leaseOwner = some input.owner ∧ DrawnFrom c.store c'.store := by
  cases begun with
  | skipped => exact ⟨held,.same rfl⟩
  | @logged before now i toStart =>
    have rows : RowsKept before.store _ := @startedRows settings input now before.store i
    obtain ⟨heldFirst,first⟩ := heldRun sound toStart (by rw [← rows.document]; exact held)
    exact ⟨heldFirst,first.trans (.same rows.fields)⟩

theorem soundBegun (x : Extension anyScope) {input : FlattenInput} {c c' : Running} (sound : (x.outline settings).Sound c)
    (begun : Begun settings (otherOwners input.owner) input c c') :
    (x.outline settings).Sound c' ∧ Later c.store c'.store ∧ x.Also c.store c'.store := by
  cases begun with
  | skipped => exact ⟨sound,.refl _,x.refl _⟩
  | @logged before now i toStart =>
    obtain ⟨atStart,later,also⟩ := otherRun x sound toStart
    have kept := (x.outline settings).keep (w := .finalizationStarted input now) i atStart.inv trivial trivial
    exact ⟨ownWrite x (w := .finalizationStarted input now) atStart trivial i,later.trans kept.2.1,x.trans also kept.2.2⟩

/-- The job has claimed the lease on the version it has read its fields at, and holds it
while it commits. -/
structure DrawnNow (u : FlattenUnit) (e : Envelope) : Prop where
  undrawn : ∀ f ∈ e.fields, f.id ∈ u.loaded.pendingFields.map SignatureField.id → f.flattenedRevisionId = none
  revision : u.revision ∈ e.revisions
  current : e.document.currentRevisionId = some u.revision.id
  output : u.output = ⟨u.revision.body.uploaded,u.revision.body.drawn ++ u.loaded.pendingFields.map u.loaded.appearance⟩

theorem pendingUndrawn {input : FlattenInput} {loaded : LoadedWork} {atDocument atRoster atFields e : Envelope}
    (work : WorkSource linearExtension.Past input loaded atDocument atRoster atFields) (fields : (atFields.fields.map SignatureField.id).Nodup)
    (drawn : DrawnFrom atFields e) :
    ∀ f ∈ e.fields, f.id ∈ loaded.pendingFields.map SignatureField.id → f.flattenedRevisionId = none := by
  intro f' mem' pending
  cases row : f'.flattenedRevisionId with
  | none => rfl
  | some revisionId =>
    obtain ⟨f,mem,id,same⟩ := drawn f' mem' (by rw [row]; rfl)
    obtain ⟨g,gMem,gId⟩ := List.mem_map.mp pending
    obtain ⟨loadedMem,gPending⟩ := List.mem_filter.mp gMem
    rw [work.fields] at loadedMem
    have equal : g = f := List.inj_on_of_nodup_map fields (List.mem_filter.mp loadedMem).1 mem (gId.trans id.symm)
    rw [equal,same,row] at gPending
    simp at gPending

/-- What the claim of a job knows of the stores around it. -/
structure Taken (settings : Settings) (input : FlattenInput) (loaded : LoadedWork) (taken : Envelope) (leased : Running) : Prop where
  sound : (linearExtension.outline settings).Sound leased
  held : leased.store.document.leaseOwner = some input.owner
  rows : leased.store.fields = taken.fields
  source : ∃ atDocument atRoster atFields found, WorkSource linearExtension.Past input loaded atDocument atRoster atFields ∧
    (∃ now, Documents.leasable loaded.document.version input.owner now found.document = true) ∧
    leased.store.document.state = Documents.leasedState found.document.state ∧
    (atFields.fields.map SignatureField.id).Nodup ∧ DrawnFrom atFields taken ∧
    linearExtension.Past atFields found ∧ linearExtension.Past found leased.store

theorem takenClaim {input : FlattenInput} {inputs : Input → Prop} {loaded : LoadedWork} {now : Date} {p rest value}
    {c c₁ c₂ found taken reread c' : Running} (sound : (linearExtension.outline settings).Sound c)
    (run : ClaimRun settings (otherOwners input.owner) inputs input c c₁ c₂ found taken reread c' loaded now p rest value) :
    Taken settings input loaded taken.store { taken with store := (esign settings).after p } := by
  have loadedFrom := ensuresWork (o := linearExtension.outline settings) input (e := c.store) sound.inv
  obtain ⟨atLoad,-,source⟩ := amidHolds linearExtension.starts (fun _ _ => trivial) sound loadedFrom
    (amidWithin (otherWithin input.owner) run.load)
  obtain ⟨atDocument,atRoster,atFields,work,toLoad⟩ := source _ rfl loaded rfl
  obtain ⟨atClaim,laterClaim,alsoClaim⟩ := otherRun linearExtension atLoad run.toClaim
  obtain ⟨atFound,laterFound,alsoFound⟩ := otherRun linearExtension atClaim run.claim.toFound
  obtain ⟨atTaken,laterTaken,alsoTaken⟩ := otherRun linearExtension atFound run.claim.toTaken
  have toFound : linearExtension.Past atFields found.store :=
    ⟨toLoad.1,toLoad.2.1.trans (laterClaim.trans laterFound),toLoad.2.2.trans (alsoClaim.trans alsoFound)⟩
  obtain ⟨leaseUntil,taking,write,leasable⟩ := run.claim.write
  obtain ⟨w,before,i⟩ := p
  cases write
  cases run.claim.before
  have take : TakeEffect input.owner loaded.document.version found.store.document taken.store _ :=
    takeEffect (Write.execOk run.claim.answer)
  have just : Justified linearExtension.Past
      (.takeLease input loaded.document.version leaseUntil taking found.store.document) taken.store :=
    ⟨⟨found.store,rfl,atFound.inv,laterTaken,alsoTaken⟩,leasable⟩
  obtain ⟨-,laterLeased,alsoLeased⟩ := (linearExtension.outline settings).keep
    (w := .takeLease input loaded.document.version leaseUntil taking found.store.document) i atTaken.inv just trivial
  have sameVersion : taken.store.document.version = atFields.document.version := by
    have := work.toRoster.2.1.version
    have := work.toFields.2.1.version
    have := toFound.2.1.version
    have := laterTaken.version
    have := take.version
    rw [work.document] at this
    omega
  refine ⟨ownWrite linearExtension atTaken just i,take.leaseOwner,(congrArg Envelope.fields take.frame).trans rfl,
    atDocument,atRoster,atFields,found.store,work,⟨taking,leasable⟩,take.state,toFound.1.2.arranged.fieldIds,?_,toFound,
    atFound.inv,laterTaken.trans laterLeased,alsoTaken.trans alsoLeased⟩
  exact (toFound.2.2.trans alsoTaken).drawn sameVersion

theorem drawnNow {input : FlattenInput} {loaded : LoadedWork} {taken e' : Envelope} {leased reread begun seen before : Running}
    {u : FlattenUnit} (claim : Taken settings input loaded taken leased)
    (toReread : Run (esign settings) (otherOwners input.owner) leased reread)
    (begins : Begun settings (otherOwners input.owner) input reread begun)
    (draw : Draw settings (otherOwners input.owner) input loaded reread.store.document begun seen before u)
    (h : FlattenEffect u before.store e') : DrawnNow u before.store := by
  obtain ⟨atReread,-,-⟩ := otherRun linearExtension claim.sound toReread
  obtain ⟨atBegun,laterBegun,-⟩ := soundBegun linearExtension atReread begins
  obtain ⟨atSeen,laterSeen,-⟩ := otherRun linearExtension atBegun draw.toRevision
  obtain ⟨atCommit,laterCommit,alsoCommit⟩ := otherRun linearExtension atSeen draw.toCommit
  have held : before.store.document.leaseOwner = some input.owner := by rw [h.owner,draw.input]
  obtain ⟨heldBegun_,fromBegun⟩ := heldRun atBegun (draw.toRevision.trans draw.toCommit) held
  obtain ⟨heldReread,fromReread⟩ := heldBegun atReread begins heldBegun_
  obtain ⟨-,fromLeased⟩ := heldRun claim.sound toReread heldReread
  obtain ⟨atDocument,atRoster,atFields,found,work,-,-,fieldIds,fromFields,-,-⟩ := claim.source
  have drawn : DrawnFrom atFields before.store :=
    fromFields.trans (.trans (.same claim.rows) (fromLeased.trans (fromReread.trans fromBegun)))
  have row : before.store.document = u.leased := by
    rw [draw.leased]
    exact (laterBegun.trans (laterSeen.trans laterCommit)).row (h.version.trans (congrArg Document.version draw.leased))
  have mem : u.revision ∈ before.store.revisions := alsoCommit.revisions _ (List.mem_of_find?_eq_some draw.revision)
  refine ⟨?_,mem,?_,draw.output⟩
  · rw [draw.loaded]
    exact pendingUndrawn work fieldIds drawn
  · cases current : before.store.document.currentRevisionId with
    | none =>
      rw [(atCommit.inv.2.bare current).1] at mem
      cases mem
    | some revisionId =>
      have named : u.revision.id = u.leased.currentRevisionId.getD u.loaded.revision.id := by
        simpa using List.find?_some draw.revision
      rw [← row,current,Option.getD_some] at named
      rw [named]

theorem writesOutput {allowed : Write → Prop} (input : FlattenInput) (loaded : LoadedWork) (revision : DocumentRevision) :
    Program.Writes allowed (outputOf input loaded revision) := by
  unfold outputOf
  split
  · refine writesThen writesExternal (fun _ => writesThen writesLift (fun _ => writesThen writesExternal (fun _ => ?_)))
    exact writesThen writesGet (fun _ => trivial)
  · exact writesThen writesExternal (fun _ => trivial)

theorem writesRecord (input : FlattenInput) (error : AppError) :
    Program.Writes (Write.working input.owner) (recordFailure input error) := by
  unfold recordFailure
  split
  · exact writesThen (writesPerform rfl) (fun _ => trivial)
  · refine writesThen (writesPerform rfl) (fun _ => writesThen writesExternal (fun _ => writesThen writesGet (fun _ => ?_)))
    exact writesThen (writesPerform trivial) (fun _ => trivial)

theorem writesAfterClaim (input : FlattenInput) (loaded : LoadedWork) (now : Date) (leased : Document) :
    Program.Writes (Write.working input.owner) (afterClaim input loaded now leased) := by
  refine writesThen (writesWhen (writesPerform trivial)) (fun _ => writesAttempt ?_ (writesRecord input))
  refine writesThen writesFind (fun revision => writesThen (writesOutput input loaded revision) (fun output => ?_))
  refine writesThen writesGet (fun ids => writesThen writesGet (fun occurredAt => ?_))
  exact writesThen (writesWhen writesExternal) (fun _ => writesAttempt (writesPerform rfl) (fun _ => trivial))

/-- The revision was drawn on top of the one that is current. -/
def DrawnOn (e : Envelope) (r : DocumentRevision) : Prop :=
  r.kind = .intermediate ∧ ∃ s ∈ e.revisions, e.document.currentRevisionId = some s.id ∧
    r.body.uploaded = s.body.uploaded ∧ s.body.drawn <+: r.body.drawn

/-- The writes of one job, the first of which claims the lease if any does: what is drawn is not
drawn again, a new revision is drawn on the current one, and a job that has lost the lease has
lost it for good, and changes no row. -/
structure Linear (settings : Settings) (owner : Id) (own : List (Performed Write Envelope Input)) : Prop where
  once : ∀ q ∈ own, ∀ f ∈ q.before.fields, f.flattenedRevisionId.isSome = true → f ∈ ((esign settings).after q).fields
  current : ∀ q ∈ own, ∀ r ∈ ((esign settings).after q).revisions, r ∈ q.before.revisions ∨ DrawnOn q.before r
  claims : ∀ q ∈ own.tail, ¬ Claimed settings q
  fenced : ∀ q ∈ own.tail, q.before.document.leaseOwner ≠ some owner → RowsKept q.before ((esign settings).after q)
  lost : own.tail.Pairwise (fun a b => a.before.document.leaseOwner ≠ some owner → b.before.document.leaseOwner ≠ some owner)

theorem Linear.before {owner : Id} {own rest : List (Performed Write Envelope Input)} (h : Linear settings owner (own ++ rest)) :
    Linear settings owner own := by
  have tail : own.tail.Sublist (own ++ rest).tail := (List.sublist_append_left own rest).tail
  exact ⟨fun q mem => h.once q (List.mem_append_left _ mem),fun q mem => h.current q (List.mem_append_left _ mem),
    fun q mem => h.claims q (tail.subset mem),fun q mem => h.fenced q (tail.subset mem),h.lost.sublist tail⟩

def Undrawing (settings : Settings) (q : Performed Write Envelope Input) : Prop :=
  ((esign settings).after q).fields = q.before.fields ∧ ((esign settings).after q).revisions = q.before.revisions

theorem undrawingClaim {q : Performed Write Envelope Input} (claim : q.write.takes = true ∨ q.write.repairs = true) :
    Undrawing settings q := by
  obtain ⟨w,e,i⟩ := q
  rcases Write.execCases w e i with same | ok
  · exact ⟨congrArg Envelope.fields same,congrArg Envelope.revisions same⟩
  · rcases claim with takes | repairs
    · cases w <;> cases takes
      have frame := (takeEffect ok).frame
      exact ⟨(congrArg Envelope.fields frame).trans rfl,(congrArg Envelope.revisions frame).trans rfl⟩
    · cases w <;> cases repairs
      have still := (persistQuiet ok).1.toStill
      exact ⟨still.fields,still.revisions⟩

theorem linearUndrawing {q : Performed Write Envelope Input} (h : Undrawing settings q) :
    (∀ f ∈ q.before.fields, f.flattenedRevisionId.isSome = true → f ∈ ((esign settings).after q).fields) ∧
      ∀ r ∈ ((esign settings).after q).revisions, r ∈ q.before.revisions ∨ DrawnOn q.before r := by
  refine ⟨fun f mem _ => ?_,fun r mem => .inl ?_⟩
  · rw [h.1]
    exact mem
  · rw [← h.2]
    exact mem

theorem linearDrawing {u : FlattenUnit} {e e'} (now : DrawnNow u e) (h : FlattenEffect u e e') :
    (∀ f ∈ e.fields, f.flattenedRevisionId.isSome = true → f ∈ e'.fields) ∧
      ∀ r ∈ e'.revisions, r ∈ e.revisions ∨ DrawnOn e r := by
  refine ⟨fun f mem drawn => ?_,fun r mem => ?_⟩
  · rw [h.fields]
    refine List.mem_map.mpr ⟨f,mem,if_neg (fun pending => ?_)⟩
    rw [now.undrawn f mem pending] at drawn
    cases drawn
  · rcases h.revisions with ⟨-,same⟩ | ⟨grown,-⟩
    · exact .inl (same ▸ mem)
    · rw [grown] at mem
      rcases List.mem_append.mp mem with old | new
      · exact .inl old
      · refine .inr ?_
        rw [List.mem_singleton.mp new]
        refine ⟨rfl,u.revision,now.revision,now.current,?_,?_⟩
        · rw [now.output]
        · rw [now.output]
          exact List.prefix_append _ _

theorem workingTakes {owner : Id} {w : Write} (working : w.working owner) : w.takes = false := by
  cases w <;> first | rfl | cases working

theorem lostAfterClaim {input : FlattenInput} {loaded : LoadedWork} {taken : Envelope} {leased reread c' : Running} {now : Date}
    {inputs : Input → Prop} {own value} (claim : Taken settings input loaded taken leased)
    (toReread : Run (esign settings) (otherOwners input.owner) leased reread)
    (run : Amid (esign settings) (otherOwners input.owner) inputs reread (afterClaim input loaded now reread.store.document)
      own value c') :
    own.Pairwise (fun a b => a.before.document.leaseOwner ≠ some input.owner → b.before.document.leaseOwner ≠ some input.owner) := by
  obtain ⟨atReread,later,also⟩ := otherRun linearExtension claim.sound toReread
  obtain ⟨atDocument,atRoster,atFields,found,work,⟨taking,leasable⟩,state,-,-,toFound,toLeased⟩ := claim.source
  have ensures : (linearExtension.outline settings).Ensures (afterClaim input loaded now reread.store.document)
      (fun _ _ => True) reread.store :=
    ensuresMono (fun _ _ _ => trivial)
      (ensuresAfterClaim rfl work leasable state toFound toLeased ⟨claim.sound.inv,later,also⟩ atReread.inv)
  refine (amidKeeps linearExtension.starts (fun _ _ => trivial) (otherWithin input.owner)
    (P := fun e => e.document.leaseOwner ≠ some input.owner) (fun sound run lost => neverRegained linearExtension sound run lost)
    ?_ atReread (ensures atReread.inv) (writesAfterClaim input loaded now reread.store.document) run).2
  intro w e i working _ _ lost
  rcases workingCases working e i with kept | ⟨held,-⟩
  · exact (congrArg Document.leaseOwner kept.document).trans_ne lost
  · exact absurd held lost

theorem linearRest {input : FlattenInput} {loaded : LoadedWork} {taken : Envelope} {leased reread c' : Running} {now : Date}
    {inputs : Input → Prop} {own value} (claim : Taken settings input loaded taken leased)
    (toReread : Run (esign settings) (otherOwners input.owner) leased reread)
    (run : Amid (esign settings) (otherOwners input.owner) inputs reread (afterClaim input loaded now reread.store.document)
      own value c') {q} (mem : q ∈ own) :
    (∀ f ∈ q.before.fields, f.flattenedRevisionId.isSome = true → f ∈ ((esign settings).after q).fields) ∧
      (∀ r ∈ ((esign settings).after q).revisions, r ∈ q.before.revisions ∨ DrawnOn q.before r) ∧
      (q.before.document.leaseOwner ≠ some input.owner → RowsKept q.before ((esign settings).after q)) := by
  have working := amidWrites (writesAfterClaim input loaded now reread.store.document) run q mem
  rcases workingCases working q.before q.input with kept | ⟨held,⟨u,write,h⟩ | frame⟩
  · obtain ⟨once,current⟩ := linearUndrawing (show Undrawing settings q from ⟨kept.fields,kept.revisions⟩)
    exact ⟨once,current,fun _ => kept⟩
  · obtain ⟨begun,seen,before,begins,draw,same⟩ := commitRun run mem write
    rw [same] at h
    have now := drawnNow claim toReread begins draw h
    rw [← same] at now h
    obtain ⟨once,current⟩ := linearDrawing now h
    exact ⟨once,current,fun lost => absurd held lost⟩
  · obtain ⟨once,current⟩ := linearUndrawing (show Undrawing settings q from
      ⟨(congrArg Envelope.fields frame).trans rfl,(congrArg Envelope.revisions frame).trans rfl⟩)
    exact ⟨once,current,fun lost => absurd held lost⟩

theorem linearRun {input : FlattenInput} {inputs : Input → Prop} {own value} {c c' : Running}
    (sound : (linearExtension.outline settings).Sound c)
    (run : Amid (esign settings) (otherOwners input.owner) inputs c (flattenSignature settings input) own value c') :
    Linear settings input.owner own := by
  rcases flattenRun run with (rfl | ⟨p,rfl,unclaimed⟩) | ⟨c₁,c₂,found,taken,reread,loaded,now,p,rest,rfl,claimRun⟩
  · exact ⟨by simp,by simp,by simp,by simp,List.Pairwise.nil⟩
  · obtain ⟨once,current⟩ := linearUndrawing (show Undrawing settings p from undrawingClaim (unclaimed.imp And.left id))
    exact ⟨by simpa using once,by simpa using current,by simp,by simp,List.Pairwise.nil⟩
  · obtain ⟨leaseUntil,taking,write,-⟩ := claimRun.claim.write
    obtain ⟨once,current⟩ := linearUndrawing (show Undrawing settings p from undrawingClaim (.inl (by rw [write]; rfl)))
    have claim := takenClaim sound claimRun
    rcases claimRun.finish with ⟨rfl,-,-⟩ | finish
    · exact ⟨by simpa using once,by simpa using current,by simp,by simp,List.Pairwise.nil⟩
    have each := fun q mem => linearRest claim claimRun.toReread finish (q := q) mem
    refine ⟨List.forall_mem_cons.mpr ⟨once,fun q mem => (each q mem).1⟩,
      List.forall_mem_cons.mpr ⟨current,fun q mem => (each q mem).2.1⟩,fun q mem claims => ?_,fun q mem => (each q mem).2.2,
      lostAfterClaim claim claimRun.toReread finish⟩
    have takes := claims.1
    rw [workingTakes (amidWrites (writesAfterClaim input loaded now reread.store.document) finish q mem)] at takes
    cases takes

end

/-- Nothing but the commit of a job draws; the others never give a lease back; and whatever a
job writes, to its end or until it stops, while the others work under owner ids of their own,
is linear. -/
def FlattensLinearly (settings : Settings) (draft : NewDraft) : Prop :=
  ∀ c, Run (esign settings) anyScope (drafted draft) c →
    (∀ c', Step (esign settings) anyScope c c' →
      (∃ u i, CommitStep settings (.flatten u) i c c') ∨ DrawnFrom c.store c'.store) ∧
    (∀ owner c', Run (esign settings) (otherOwners owner) c c' → c.store.document.leaseOwner ≠ some owner →
      c'.store.document.leaseOwner ≠ some owner) ∧
    ∀ input own c', Partly (esign settings) (otherOwners input.owner) (fun _ => True) c (flattenSignature settings input) own c' →
      Linear settings input.owner own

/-- From a fresh draft, for any number of workers, redeliveries, expiries and crashes. -/
theorem flattensLinearly (settings : Settings) (draft : NewDraft) : FlattensLinearly settings draft := by
  intro c reached
  have sound := linearExtension.run ⟨draftConsistent draft,draftInspected draft⟩ reached
  refine ⟨fun c' next => ?_,fun owner c' run lost => neverRegained linearExtension sound run lost,fun input own c' run => ?_⟩
  · rcases linearExtension.stepCommits sound next with same | ⟨w,i,commits,past,-⟩
    · rw [same]
      exact .inr (.same rfl)
    · have just := past.weaken linearExtension.past
      rcases (committed sound.inv.1 just commits.run).drawnFrom just with ⟨u,rfl,-⟩ | from_
      · exact .inl ⟨u,i,commits⟩
      · exact .inr from_
  · obtain ⟨rest,value,last,amid⟩ := partlyCompleted ⟨⟨0,fun _ => 0,fun _ => 0,none,⟨0,[]⟩,fun _ => (true,none),0⟩,trivial⟩ run
    exact (linearRun sound amid).before

end ESign
