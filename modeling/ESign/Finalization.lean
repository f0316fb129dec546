import ESign.Preparation

/-! What the artifact shows. A job draws the fields of its own signer, and decides
from the roster whether it is the last. A roster on which everyone has signed does
not say that the other jobs have run, and a job that runs after the document is
finalized does nothing. -/
namespace ESign
open StoreProgram

/-- A job that finalizes finds the fields of every other signer drawn. -/
def DrawnBeforeFinalize : Write → Envelope → Prop
  | .flatten u, e => u.finalize = true →
      ∀ field ∈ e.fields, field.signerId ≠ u.input.signerId → field.flattenedRevisionId.isSome = true
  | _, _ => True

def drawnBeforeFinalize : Scope Envelope Write Request :=
  ⟨fun _ => True,fun w e => FrozenAfterSend w e ∧ DrawnBeforeFinalize w e⟩

theorem Committed.revisions {w : Write} {i e e'} (done : Committed i e e' w) :
    (∃ u, w = .flatten u ∧ FlattenEffect u e e') ∨ (∃ u, w = .upload u ∧ UploadEffect u e e') ∨
    (e'.revisions = e.revisions ∧ e'.document.currentRevisionId = e.document.currentRevisionId) := by
  cases done with
  | still h idle artifact => exact .inr (.inr ⟨h.revisions,by rw [h.document]⟩)
  | released h => subst h; exact .inr (.inr ⟨rfl,rfl⟩)
  | failed state h => subst h; exact .inr (.inr ⟨rfl,rfl⟩)
  | leased row frame state revised kept => exact .inr (.inr ⟨by rw [frame],kept⟩)
  | upload h => exact .inr (.inl ⟨_,rfl,h⟩)
  | inspect h =>
    obtain ⟨status,changed⟩ := h.document
    exact .inr (.inr ⟨h.revisions,by rw [changed]⟩)
  | replaceSigners h =>
    obtain ⟨given,same,prepared⟩ := h.document
    refine .inr (.inr ⟨h.revisions,?_⟩)
    rcases prepared with kept | ⟨-,state,-,-,changed⟩
    · rw [kept,same]
    · rw [changed,same]
  | replaceFields h =>
    refine .inr (.inr ⟨h.revisions,?_⟩)
    rcases h.document with same | ⟨-,state,-,-,changed⟩
    · rw [same]
    · rw [changed]
  | send h => exact .inr (.inr ⟨h.revisions,by rw [h.document]⟩)
  | void h => exact .inr (.inr ⟨h.revisions,by rw [h.document]⟩)
  | decline h => exact .inr (.inr ⟨h.revisions,by rw [h.document]⟩)
  | complete h =>
    refine .inr (.inr ⟨h.revisions,?_⟩)
    rcases h.document with ⟨-,-,-,moved⟩ | ⟨-,-,-,-,moved⟩ | ⟨-,-,same⟩
    · rw [moved]
    · rw [moved]
    · rw [same]
  | flatten h => exact .inl ⟨_,rfl,h⟩

theorem keepRevisions {w : Write} {i e e'} (done : Committed i e e' w) : ∀ r ∈ e.revisions, r ∈ e'.revisions := by
  intro r mem
  rcases done.revisions with ⟨u,rfl,h⟩ | ⟨u,rfl,h⟩ | ⟨same,-⟩
  · rcases h.revisions with ⟨-,same⟩ | ⟨grown,-⟩
    · rw [same]
      exact mem
    · rw [grown]
      exact List.mem_append_left _ mem
  · rw [h.revisions]
    exact List.mem_append_left _ mem
  · rw [same]
    exact mem

theorem leasedFinalized {state} (final : Documents.leasedState state = .finalized) : state = .finalized := by
  cases state <;> first | rfl | cases final

theorem Committed.artifact {w : Write} {i e e'} (done : Committed i e e' w) :
    (∃ u, w = .flatten u ∧ FlattenEffect u e e') ∨
    ((e'.artifact = e.artifact ∨ (e.artifact = none ∧ ∃ u, w = .persist u)) ∧
      (e'.document.state = .finalized → e.document.state = .finalized)) := by
  cases done with
  | still h idle artifact => exact .inr ⟨artifact,by rw [h.document]; exact id⟩
  | released h => subst h; exact .inr ⟨.inl rfl,id⟩
  | failed state h => subst h; exact .inr ⟨.inl rfl,fun final => by cases final⟩
  | leased row frame state revised kept =>
    exact .inr ⟨.inl (by rw [frame]),by rw [state]; exact leasedFinalized⟩
  | upload h => exact .inr ⟨.inl h.artifact,by rw [h.document]; exact id⟩
  | inspect h =>
    obtain ⟨status,changed⟩ := h.document
    exact .inr ⟨.inl h.artifact,by rw [changed]; exact id⟩
  | replaceSigners h =>
    obtain ⟨given,same,prepared⟩ := h.document
    refine .inr ⟨.inl h.artifact,fun final => ?_⟩
    rcases prepared with kept | ⟨-,state,either,-,changed⟩
    · rw [kept,same] at final; exact final
    · rw [changed] at final
      rcases either with rfl | rfl <;> cases final
  | replaceFields h =>
    refine .inr ⟨.inl h.artifact,fun final => ?_⟩
    rcases h.document with same | ⟨-,state,either,-,changed⟩
    · rw [same] at final; exact final
    · rw [changed] at final
      rcases either with rfl | rfl <;> cases final
  | send h => exact .inr ⟨.inl h.artifact,fun final => by rw [h.document] at final; cases final⟩
  | void h => exact .inr ⟨.inl h.artifact,fun final => by rw [h.document] at final; cases final⟩
  | decline h => exact .inr ⟨.inl h.artifact,fun final => by rw [h.document] at final; cases final⟩
  | complete h =>
    refine .inr ⟨.inl h.artifact,fun final => ?_⟩
    rcases h.document with ⟨-,-,-,moved⟩ | ⟨-,-,-,-,moved⟩ | ⟨-,-,same⟩
    · rw [moved] at final; cases final
    · rw [moved] at final; cases final
    · rw [same] at final; exact final
  | flatten h => exact .inl ⟨_,rfl,h⟩

/-- A field row and the same row later: what was drawn stays drawn. -/
structure DrawnLater (f f' : SignatureField) : Prop where
  id : f'.id = f.id
  signerId : f'.signerId = f.signerId
  flattened : f.flattenedRevisionId.isSome = true → f'.flattenedRevisionId.isSome = true

theorem DrawnLater.refl (f : SignatureField) : DrawnLater f f := ⟨rfl,rfl,fun h => h⟩

theorem DrawnLater.trans (a b c : SignatureField) (left : DrawnLater a b) (right : DrawnLater b c) : DrawnLater a c :=
  ⟨right.id.trans left.id,right.signerId.trans left.signerId,fun h => right.flattened (left.flattened h)⟩

theorem drawnSource {rows rows'} (h : List.Forall₂ DrawnLater rows rows') : ∀ f' ∈ rows', ∃ f ∈ rows, DrawnLater f f' := by
  induction h with
  | nil => simp
  | cons first _ ih =>
    intro f' mem
    rcases List.mem_cons.mp mem with rfl | mem
    · exact ⟨_,List.mem_cons_self,first⟩
    · obtain ⟨f,found,later⟩ := ih f' mem
      exact ⟨f,List.mem_cons_of_mem _ found,later⟩

theorem flattenedDrawn {ids revisionId rows} : List.Forall₂ DrawnLater rows (flattened ids revisionId rows) := by
  unfold flattened
  rw [List.forall₂_map_right_iff,List.forall₂_same]
  intro f _
  split
  · exact ⟨rfl,rfl,fun _ => rfl⟩
  · exact .refl f

def Pdf.shows (body : Pdf) (fieldId : Id) : Prop := ∃ a ∈ body.drawn, a.fieldId = fieldId

/-- What the revisions, the artifact and the field rows have to do with each other. -/
structure Shown (e : Envelope) : Prop where
  arranged : Arranged e
  revisionIds : (e.revisions.map DocumentRevision.id).Nodup
  artifact : e.artifact.isSome = true ↔ e.document.state = .finalized
  drawn : ∀ field ∈ e.fields, field.flattenedRevisionId.isSome = true →
    ∃ r ∈ e.revisions, e.document.currentRevisionId = some r.id ∧ r.body.shows field.id
  final : e.document.state = .finalized → (∀ field ∈ e.fields, field.flattenedRevisionId.isSome = true) ∧
    ∃ artifact r, e.artifact = some artifact ∧ r ∈ e.revisions ∧ e.document.currentRevisionId = some r.id ∧
      artifact.body = r.body

structure Grown (e e' : Envelope) : Prop where
  frozen : Frozen e e'
  revisions : ∀ r ∈ e.revisions, r ∈ e'.revisions
  artifact : e.artifact.isSome = true → e'.artifact = e.artifact
  fields : e.sent = true → List.Forall₂ DrawnLater e.fields e'.fields

theorem Grown.refl (e : Envelope) : Grown e e :=
  ⟨.refl e,fun _ mem => mem,fun _ => rfl,fun _ => List.forall₂_same.mpr (fun f _ => .refl f)⟩

theorem Grown.trans {a b c} (left : Grown a b) (right : Grown b c) : Grown a c where
  frozen := left.frozen.trans right.frozen
  revisions r mem := right.revisions r (left.revisions r mem)
  artifact some := by
    have first := left.artifact some
    rw [← first] at some ⊢
    exact right.artifact some
  fields sent := forall₂Trans DrawnLater.trans (left.fields sent) (right.fields (left.frozen sent).1)

/-- The stores of a run of the scope that lead up to the present one. -/
def ShownBefore (a b : Envelope) : Prop := (Consistent a ∧ Shown a) ∧ Later a b ∧ Grown a b

theorem ShownBefore.arranged (a b : Envelope) (h : ShownBefore a b) : (Consistent a ∧ SigningSent a) ∧ Later a b :=
  ⟨⟨h.1.1,h.1.2.arranged.sent⟩,h.2.1⟩

theorem finalizedStays {e e' : Envelope} (later : Later e e') (final : e.document.state = .finalized) :
    e'.document.state = .finalized := by
  have stage := later.stage
  rw [final] at stage
  cases state : e'.document.state <;> rw [state] at stage <;> simp [DocumentState.stage] at stage ⊢

theorem sameRevision {e : Envelope} (ids : (e.revisions.map DocumentRevision.id).Nodup) {r t : DocumentRevision}
    (rMem : r ∈ e.revisions) (tMem : t ∈ e.revisions) (same : r.id = t.id) : r = t :=
  List.inj_on_of_nodup_map ids rMem tMem same

/-- What a commit knows of the store it meets. -/
structure CommitNow (u : FlattenUnit) (e : Envelope) : Prop where
  sent : e.sent = true
  unfinalized : e.document.state ≠ .finalized
  own : ∀ f ∈ e.fields, f.signerId = u.input.signerId →
    f.id ∈ u.loaded.pendingFields.map SignatureField.id ∨ f.flattenedRevisionId.isSome = true
  revision : u.revision ∈ e.revisions
  current : ∀ r ∈ e.revisions, e.document.currentRevisionId = some r.id → r = u.revision
  output : u.output = ⟨u.revision.body.uploaded,u.revision.body.drawn ++ u.loaded.pendingFields.map u.loaded.appearance⟩
  same : u.loaded.pendingFields = [] → u.revisionId = u.revision.id

theorem commitNow {u : FlattenUnit} {e e'} (inv : Consistent e) (extra : Shown e)
    (past : Justified ShownBefore (.flatten u) e) (h : FlattenEffect u e e') : CommitNow u e := by
  have sent := flattenSent (fun a b h => ⟨(h.arranged).1.2,h.2.1⟩) past
  obtain ⟨atDocument,atRoster,atFields,found,taken,reread,atRevision,source,last⟩ := past
  obtain ⟨now,leasable⟩ := source.leasable
  obtain ⟨version,-⟩ := of_decide_eq_true leasable
  -- the lease was taken on the row the work was loaded for, so that row was sent
  have toFields := source.work.toRoster.2.1.trans source.work.toFields.2.1
  have row : found.document = atDocument.document := by
    rw [source.work.document] at version
    exact (toFields.trans source.toFound.2.1).row version
  have fieldsSent : atFields.sent = true := by
    refine toFields.sent (source.work.toRoster.1.2.arranged.sent ?_)
    rw [← row]
    exact leasableSigning leasable
  have fromFields := source.toFound.2.2.trans (source.toTaken.2.2.trans (source.toReread.2.2.trans
    (source.toRevision.2.2.trans last.2.2)))
  have same : e.document = reread.document := by
    refine (source.toRevision.2.1.trans last.2.1).row ?_
    rw [← source.leased]
    exact h.version
  have revision : u.revision ∈ e.revisions := last.2.2.revisions _ (List.mem_of_find?_eq_some source.revision)
  have named : u.revision.id = u.leased.currentRevisionId.getD u.loaded.revision.id := by
    simpa using List.find?_some source.revision
  refine ⟨sent,?_,?_,revision,?_,source.output,source.same⟩
  · intro final
    have released := inv.lease (.inr final)
    rw [h.owner] at released
    cases released
  · intro f mem owned
    obtain ⟨g,found,later⟩ := drawnSource (fromFields.fields fieldsSent) f mem
    cases drawn : g.flattenedRevisionId with
    | some r => exact .inr (later.flattened (by rw [drawn]; rfl))
    | none =>
      refine .inl (List.mem_map.mpr ⟨g,?_,later.id.symm⟩)
      rw [LoadedWork.pendingFields,source.work.fields]
      simp [found,drawn,← owned,later.signerId]
  · intro r mem current
    refine sameRevision extra.revisionIds mem revision ?_
    rw [named,source.leased,← same,current]
    rfl

theorem committedRow {u : FlattenUnit} {e e'} (now : CommitNow u e) (h : FlattenEffect u e e') :
    ∃ r ∈ e'.revisions, e'.document.currentRevisionId = some r.id ∧ r.body = u.output := by
  rw [h.document]
  rcases h.revisions with ⟨empty,same⟩ | ⟨grown,-⟩
  · refine ⟨u.revision,by rw [same]; exact now.revision,by rw [now.same empty],?_⟩
    rw [now.output,empty]
    simp
  · exact ⟨_,by rw [grown]; exact List.mem_append_right _ List.mem_cons_self,rfl,rfl⟩

theorem committedShows {u : FlattenUnit} {e e'} (extra : Shown e) (now : CommitNow u e) (h : FlattenEffect u e e') :
    ∀ f' ∈ e'.fields, f'.flattenedRevisionId.isSome = true → u.output.shows f'.id := by
  intro f' mem' drawn
  rw [h.fields] at mem'
  obtain ⟨f,mem,rfl⟩ := List.mem_map.mp mem'
  unfold Pdf.shows
  rw [now.output]
  split at drawn
  · rename_i pending
    obtain ⟨g,found,named⟩ := List.mem_map.mp pending
    refine ⟨u.loaded.appearance g,List.mem_append_right _ (List.mem_map_of_mem found),?_⟩
    rw [if_pos pending]
    exact named
  · rename_i other
    obtain ⟨r,rMem,current,a,shown,named⟩ := extra.drawn f mem drawn
    rw [now.current r rMem current] at shown
    refine ⟨a,List.mem_append_left _ shown,?_⟩
    rw [if_neg other]
    exact named

/- A finalizing commit draws what is left of its own signer, and the condition says
that nothing is left of the others. -/
theorem committedAll {u : FlattenUnit} {e e'} (now : CommitNow u e) (cond : DrawnBeforeFinalize (.flatten u) e)
    (h : FlattenEffect u e e') (final : u.finalize = true) :
    ∀ f' ∈ e'.fields, f'.flattenedRevisionId.isSome = true := by
  intro f' mem'
  rw [h.fields] at mem'
  obtain ⟨f,mem,rfl⟩ := List.mem_map.mp mem'
  split
  · rfl
  · rename_i other
    by_cases own : f.signerId = u.input.signerId
    · exact (now.own f mem own).resolve_left other
    · exact cond final f mem own

theorem keepShownFlatten {u : FlattenUnit} {e e'} (extra : Shown e) (arranged : Arranged e') (now : CommitNow u e)
    (cond : DrawnBeforeFinalize (.flatten u) e) (h : FlattenEffect u e e') : Shown e' := by
  have missing : e.artifact = none := by
    cases some : e.artifact with
    | none => rfl
    | some artifact => exact absurd (extra.artifact.mp (by rw [some]; rfl)) now.unfinalized
  obtain ⟨r,mem,current,body⟩ := committedRow now h
  constructor
  · exact arranged
  · rcases h.revisions with ⟨-,same⟩ | ⟨grown,fresh⟩
    · rw [same]; exact extra.revisionIds
    · rw [grown]; exact keysAppended extra.revisionIds fresh
  · rw [h.artifact,h.document,missing]
    cases final : u.finalize with
    | true => simp
    | false => simpa using now.unfinalized
  · intro f' mem' drawn
    exact ⟨r,mem,current,by rw [body]; exact committedShows extra now h f' mem' drawn⟩
  · intro state
    cases final : u.finalize with
    | true =>
      refine ⟨committedAll now cond h final,⟨u.artifactId,u.output⟩,r,?_,mem,current,body.symm⟩
      rw [h.artifact,missing,if_pos final]
      rfl
    | false =>
      rw [h.document] at state
      simp only [final,Bool.false_eq_true,if_false] at state
      exact absurd state now.unfinalized

theorem keepShownUpload {u : UploadUnit} {e e'} (inv : Consistent e) (extra : Shown e) (arranged : Arranged e')
    (just : Justified Before (.upload u) e) (h : UploadEffect u e e') : Shown e' := by
  obtain ⟨read,draft,-⟩ := just
  have row := read.row h.version
  have prep : isPreparationState e.document.state = true := by rw [row,draft]; rfl
  have unsent : e.sent = false := by unfold Envelope.sent; rw [(inv.unsent prep).2.2]; rfl
  constructor
  · exact arranged
  · rw [h.revisions]; exact keysAppended extra.revisionIds h.fresh
  · rw [h.artifact,h.document]; exact extra.artifact
  · intro f mem drawn
    rw [h.fields] at mem
    rw [(extra.arranged.blank unsent f mem).2] at drawn
    cases drawn
  · intro final
    rw [h.document,row,draft] at final
    cases final

theorem sentOfFinal {e : Envelope} (extra : Shown e) (final : e.document.state = .finalized) : e.sent = true :=
  extra.arranged.sent (by rw [final]; rfl)

/-- A field row and the same row later, when nothing was drawn in between. -/
def Undrawn (f f' : SignatureField) : Prop :=
  f'.id = f.id ∧ f'.signerId = f.signerId ∧ f'.flattenedRevisionId = f.flattenedRevisionId

theorem Committed.undrawn {w : Write} {i e e'} (inv : Consistent e) (just : Justified Before w e)
    (cond : FrozenAfterSend w e) (done : Committed i e e' w) (blank : Arranged e') :
    (∃ u, w = .flatten u ∧ FlattenEffect u e e') ∨ List.Forall₂ Undrawn e.fields e'.fields ∨
    (e.sent = false ∧ ∀ f ∈ e'.fields, f.flattenedRevisionId = none) := by
  rcases done.fields with same | ⟨u,rfl,h⟩ | ⟨u,rfl,h⟩ | ⟨u,rfl,h⟩ | ⟨u,rfl,h⟩
  · rw [same]; exact .inr (.inl (List.forall₂_same.mpr (fun f _ => ⟨rfl,rfl,rfl⟩)))
  · have unsent := replaceSignersUnsent inv just h
    have prep : isPreparationState e.document.state = true := by rw [just.document.row h.version]; exact just.unlocked
    refine .inr (.inr ⟨unsent,fun f mem => (blank.blank ?_ f mem).2⟩)
    unfold Envelope.sent
    rw [(h.preparation prep (inv.unsent prep).2.2).2.2]
    rfl
  · refine .inr (.inr ⟨replaceFieldsUnsent inv just cond h,fun f mem => ?_⟩)
    rw [h.fields] at mem
    exact (just.fresh f mem).2
  · refine .inr (.inl (h.fields.imp (fun f f' row => ?_)))
    have kept := row.kept
    exact ⟨by rw [kept],by rw [kept],by rw [kept]⟩
  · exact .inl ⟨u,rfl,h⟩

theorem Undrawn.later {f f'} (h : Undrawn f f') : DrawnLater f f' := ⟨h.1,h.2.1,by rw [h.2.2]; exact id⟩

theorem undrawnSource {rows rows'} (h : List.Forall₂ Undrawn rows rows') : ∀ f' ∈ rows', ∃ f ∈ rows, Undrawn f f' := by
  induction h with
  | nil => simp
  | cons first _ ih =>
    intro f' mem
    rcases List.mem_cons.mp mem with rfl | mem
    · exact ⟨_,List.mem_cons_self,first⟩
    · obtain ⟨f,found,later⟩ := ih f' mem
      exact ⟨f,List.mem_cons_of_mem _ found,later⟩

/- An artifact that was made once is never made again: a document that was seen
finalized had one already. -/
theorem persistedBefore {u : PersistUnit} {e} (past : Justified ShownBefore (.persist u) e) : e.artifact ≠ none := by
  obtain ⟨final,first,-,same,-,-,⟨-,extra⟩,-,grown⟩ := past
  have made := extra.artifact.mpr (by rw [← same]; exact final)
  rw [grown.artifact made]
  intro missing
  rw [missing] at made
  cases made

theorem keepShown {w : Write} {i e e'} (inv : Consistent e) (extra : Shown e) (past : Justified ShownBefore w e)
    (just : Justified Before w e) (cond : FrozenAfterSend w e ∧ DrawnBeforeFinalize w e) (done : Committed i e e' w)
    (later : Later e e') : Shown e' := by
  have arranged := keepArranged ShownBefore.arranged extra.arranged past done later
  rcases done.revisions with ⟨u,rfl,h⟩ | ⟨u,rfl,h⟩ | ⟨revisions,current⟩
  · exact keepShownFlatten extra arranged (commitNow inv extra past h) cond.2 h
  · exact keepShownUpload inv extra arranged just h
  rcases done.artifact with ⟨u,rfl,h⟩ | ⟨artifact,unfinal⟩
  · exact keepShownFlatten extra arranged (commitNow inv extra past h) cond.2 h
  have artifact : e'.artifact = e.artifact := by
    rcases artifact with same | ⟨missing,u,rfl⟩
    · exact same
    · exact absurd missing (persistedBefore past)
  rcases done.undrawn inv just cond.1 arranged with ⟨u,rfl,h⟩ | undrawn
  · exact keepShownFlatten extra arranged (commitNow inv extra past h) cond.2 h
  constructor
  · exact arranged
  · rw [revisions]; exact extra.revisionIds
  · rw [artifact]
    exact ⟨fun some => finalizedStays later (extra.artifact.mp some),fun final => extra.artifact.mpr (unfinal final)⟩
  · intro f' mem' drawn
    rw [revisions,current]
    rcases undrawn with rows | ⟨-,none⟩
    · obtain ⟨f,mem,id,-,same⟩ := undrawnSource rows f' mem'
      rw [id]
      exact extra.drawn f mem (by rw [← same]; exact drawn)
    · rw [none f' mem'] at drawn; cases drawn
  · intro final
    have before := unfinal final
    obtain ⟨all,made⟩ := extra.final before
    rw [artifact,revisions,current]
    refine ⟨fun f' mem' => ?_,made⟩
    rcases undrawn with rows | ⟨unsent,-⟩
    · obtain ⟨f,mem,-,-,same⟩ := undrawnSource rows f' mem'
      rw [same]
      exact all f mem
    · rw [sentOfFinal extra before] at unsent; cases unsent

theorem keepGrown {w : Write} {i e e'} (inv : Consistent e) (extra : Shown e) (past : Justified ShownBefore w e)
    (just : Justified Before w e) (cond : FrozenAfterSend w e) (done : Committed i e e' w) (later : Later e e') :
    Grown e e' := by
  have arranged := keepArranged ShownBefore.arranged extra.arranged past done later
  refine ⟨keepFrozen inv just cond done later,?_,?_,?_⟩
  · rcases done.revisions with ⟨u,rfl,h⟩ | ⟨u,rfl,h⟩ | ⟨same,-⟩
    · rcases h.revisions with ⟨-,same⟩ | ⟨grown,-⟩
      · rw [same]; exact fun _ mem => mem
      · rw [grown]; exact fun _ mem => List.mem_append_left _ mem
    · rw [h.revisions]; exact fun _ mem => List.mem_append_left _ mem
    · rw [same]; exact fun _ mem => mem
  · intro some
    rcases done.artifact with ⟨u,rfl,h⟩ | ⟨same | ⟨missing,-⟩,-⟩
    · exact absurd (extra.artifact.mp some) (commitNow inv extra past h).unfinalized
    · exact same
    · rw [missing] at some; cases some
  · intro sent
    rcases done.undrawn inv just cond arranged with ⟨u,rfl,h⟩ | rows | ⟨unsent,-⟩
    · rw [h.fields]; exact flattenedDrawn
    · exact rows.imp (fun _ _ row => row.later)
    · rw [sent] at unsent; cases unsent

def finalizationExtension : Extension drawnBeforeFinalize where
  Extra := Shown
  Also := Grown
  refl := .refl
  trans := .trans
  keep inv extra past just cond _ done _ later :=
    ⟨keepShown inv extra past just cond done later,keepGrown inv extra past just cond.1 done later⟩

theorem draftShown (draft : NewDraft) : Shown (createDraftDocument draft) where
  arranged := draftArranged draft
  revisionIds := List.nodup_nil
  artifact := by simp [createDraftDocument]
  drawn _ mem := by cases mem
  final state := by cases state

/-- In a finalized document a field that was completed was drawn, and the artifact is the
revision it was drawn into. -/
def NoSignatureLost (settings : Settings) (scope : Scope Envelope Write Request) (draft : NewDraft) : Prop :=
  ∀ c, Run (esign settings) scope (initial (createDraftDocument draft)) c → c.store.document.state = .finalized →
    ∃ artifact revision, c.store.artifact = some artifact ∧ revision ∈ c.store.revisions ∧
      c.store.document.currentRevisionId = some revision.id ∧ artifact.body = revision.body ∧
      ∀ field ∈ c.store.fields, field.completion.isSome = true →
        field.flattenedRevisionId.isSome = true ∧ artifact.body.shows field.id

/-- From a fresh draft, for any number of signers, under any interleaving of requests
with jobs that are run in any order, again and again, or stopped half way. -/
theorem completedFieldsDrawn (settings : Settings) (draft : NewDraft) :
    NoSignatureLost settings drawnBeforeFinalize draft := by
  intro c reached final
  have sound := finalizationExtension.run ⟨draftConsistent draft,draftShown draft⟩ reached
  have extra := sound.inv.2
  obtain ⟨all,artifact,revision,made,mem,current,body⟩ := extra.final final
  refine ⟨artifact,revision,made,mem,current,body,fun field found _ => ⟨all field found,?_⟩⟩
  obtain ⟨r,rMem,rCurrent,shown⟩ := extra.drawn field found (all field found)
  have same : r = revision := by
    refine sameRevision extra.revisionIds rMem mem ?_
    rw [rCurrent] at current
    exact Option.some.inj current
  rw [body,← same]
  exact shown

set_option maxRecDepth 100000 in
/-- All three have signed before the first job runs; that job finalizes the document
with the ink of its own signer only. -/
theorem inkLost : ¬ NoSignatureLost ThreeSigners.settings (Scope.of (fun _ => True)) ThreeSigners.draft := by
  intro claimed
  have evaluated : ((esign ThreeSigners.settings).applyAll (fun _ _ => true) ThreeSigners.start
      (ThreeSigners.consented .parallel ++ ThreeSigners.served 11 12 15 (ThreeSigners.complete 650 400 61) ++
        ThreeSigners.served 12 13 15 (ThreeSigners.complete 750 401 62) ++
        ThreeSigners.served 13 14 15 (ThreeSigners.complete 850 402 63) ++
        ThreeSigners.served 14 15 23 (ThreeSigners.job 12 300 500 100))).map (fun c =>
          (c.store.document.state,c.store.fields.any (fun field => field.completion.isSome ∧ field.flattenedRevisionId = none))) =
      some (.finalized,true) := by decide +kernel
  obtain ⟨c,reached,rows⟩ := Option.map_eq_some_iff.mp evaluated
  simp only [Prod.mk.injEq,List.any_eq_true,decide_eq_true_eq] at rows
  obtain ⟨final,field,mem,completed,undrawn⟩ := rows
  have run : Run (esign ThreeSigners.settings) (Scope.of (fun _ => True)) ThreeSigners.start c :=
    runOfActions (fun _ _ => trivial) (fun _ _ _ => trivial) reached
  obtain ⟨_,_,-,-,-,-,drawn⟩ := claimed c run final
  have drawn := (drawn field mem completed).1
  rw [undrawn] at drawn
  cases drawn

def drawnBeforeFinalizeCheck (w : Write) (e : Envelope) : Bool :=
  frozenAfterSendCheck w e && match w with
  | .flatten u => !u.finalize ||
      e.fields.all (fun field => field.signerId = u.input.signerId ∨ field.flattenedRevisionId.isSome)
  | _ => true

theorem drawnBeforeFinalizeChecked (w : Write) (e : Envelope) (ok : drawnBeforeFinalizeCheck w e = true) :
    drawnBeforeFinalize.cond w e := by
  simp only [drawnBeforeFinalizeCheck,Bool.and_eq_true] at ok
  refine ⟨frozenAfterSendChecked w e ok.1,?_⟩
  cases w with
  | flatten u =>
    intro final field mem other
    have all : ∀ field ∈ e.fields, field.signerId = u.input.signerId ∨ field.flattenedRevisionId.isSome = true := by
      simpa [final] using ok.2
    exact (all field mem).resolve_left other
  | _ => trivial

set_option maxRecDepth 100000 in
theorem orderlyDrawn : ∃ c artifact, Run (esign ThreeSigners.settings) drawnBeforeFinalize ThreeSigners.start c ∧
    c.store.document.state = .finalized ∧ c.store.artifact = some artifact ∧
    (∀ field ∈ c.store.fields, field.completion.isSome = true) ∧
    ∀ field ∈ c.store.fields, artifact.body.shows field.id := by
  have evaluated : ((esign ThreeSigners.settings).applyAll drawnBeforeFinalizeCheck ThreeSigners.start
      ThreeSigners.orderly).map (fun c => (c.store.document.state,
        c.store.fields.all (fun field => field.completion.isSome))) = some (.finalized,true) := by decide +kernel
  obtain ⟨c,reached,rows⟩ := Option.map_eq_some_iff.mp evaluated
  simp only [Prod.mk.injEq,List.all_eq_true] at rows
  have run := runOfActions (fun _ _ => trivial) drawnBeforeFinalizeChecked reached
  obtain ⟨artifact,_,made,-,-,-,drawn⟩ := completedFieldsDrawn _ ThreeSigners.draft c run rows.1
  exact ⟨c,artifact,run,rows.1,made,rows.2,fun field mem => (drawn field mem (rows.2 field mem)).2⟩

end ESign
