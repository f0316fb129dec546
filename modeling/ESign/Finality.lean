import ESign.Records
import ESign.Finalization

/-! A finalized document, its artifact and its event. One unit of work writes the three,
and nothing writes one of them alone: a document that was read as finalized had its
artifact already, so the repair of a missing one is never reached. -/
namespace ESign
open StoreProgram StoreProgram.Outline

def finals (audit : List NewAuditEvent) : List NewAuditEvent := audit.filter (fun event => event.type = .documentFinalized)

theorem finalsAppend (audit events : List NewAuditEvent) : finals (audit ++ events) = finals audit ++ finals events :=
  List.filter_append _ _

theorem Events.finals {types audit audit'} (h : Events types audit audit') (other : .documentFinalized ∉ types) :
    finals audit' = finals audit := by
  obtain ⟨events,rfl,all⟩ := h
  have none : ESign.finals events = [] := by
    refine List.filter_eq_nil_iff.mpr (fun event mem final => ?_)
    rw [decide_eq_true_eq] at final
    exact other (by rw [← final]; exact all event mem)
  rw [finalsAppend,none,List.append_nil]

theorem flattenFinals {u : FlattenUnit} {e e'} (ok : u.run e = .ok e') :
    finals e'.audit = finals e.audit ++ if u.finalize then [u.finalized] else [] := by
  cases final : u.finalize with
  | false =>
    have grown : Appended [.revisionAdded] e e' := flattenAppended (by simp) (by rw [final]; simp) ok
    simpa using grown.audit.finals (by simp)
  | true =>
    obtain ⟨e₁,first,ok⟩ := bindOk.mp ok
    obtain ⟨e₂,second,ok⟩ := bindOk.mp ok
    rw [FlattenUnit.addArtifact,if_pos final] at ok
    obtain ⟨e₃,third,ok⟩ := bindOk.mp ok
    have drawn : Appended [.revisionAdded] e e₁ := addRevisionAppended (by simp) first
    have moved : Appended [] e₁ e₂ := documentAppended second
    have made : Appended [] e₂ e₃ := createArtifactAppended third
    cases appendEffect ok
    rw [finalsAppend,made.audit.finals (by simp),moved.audit.finals (by simp),drawn.audit.finals (by simp)]
    rfl

/-- The artifact, the current revision and the event agree on the bytes, and so on their digest. -/
structure FinalRecord (e : Envelope) (artifact : FinalizedArtifact) (revision : DocumentRevision) (event : NewAuditEvent) :
    Prop where
  stored : e.artifact = some artifact
  current : loadRevision e.document e = some revision
  logged : finals e.audit = [event]
  revisionDigest : revision.body = artifact.body
  eventDigest : event.payload.lookup "finalizedSha256" = some (.body artifact.body)

structure Final (e : Envelope) : Prop where
  revisionIds : (e.revisions.map DocumentRevision.id).Nodup
  unfinal : e.document.state ≠ .finalized → e.artifact = none ∧ finals e.audit = []
  final : e.document.state = .finalized → ∃ artifact revision event, FinalRecord e artifact revision event

structure FinalKept (e e' : Envelope) : Prop where
  revisions : ∀ r ∈ e.revisions, r ∈ e'.revisions
  artifact : e.artifact.isSome = true → e'.artifact = e.artifact

theorem FinalKept.refl (e : Envelope) : FinalKept e e := ⟨fun _ mem => mem,fun _ => rfl⟩

theorem FinalKept.trans {a b c} (left : FinalKept a b) (right : FinalKept b c) : FinalKept a c where
  revisions r mem := right.revisions r (left.revisions r mem)
  artifact made := by
    have first := left.artifact made
    exact (right.artifact (by rw [first]; exact made)).trans first

abbrev FinalBefore (a b : Envelope) : Prop := (Consistent a ∧ Final a) ∧ Later a b ∧ FinalKept a b

theorem Final.made {e : Envelope} (h : Final e) (final : e.document.state = .finalized) : e.artifact.isSome = true := by
  obtain ⟨artifact,revision,event,record⟩ := h.final final
  rw [record.stored]
  rfl

theorem finalizedMade {atDocument atArtifact : Envelope} (past : FinalBefore atDocument atArtifact)
    (final : atDocument.document.state = .finalized) : atArtifact.artifact ≠ none := by
  have made := past.1.2.made final
  rw [past.2.2.artifact made]
  intro missing
  rw [missing] at made
  cases made

theorem unpersisted {u : PersistUnit} {e} : ¬ Justified FinalBefore (.persist u) e := by
  rintro ⟨final,atDocument,atArtifact,same,past,missing,-⟩
  exact finalizedMade past (by rw [← same]; exact final) missing

theorem leasedUnfinal {u : FlattenUnit} {e e'} (inv : Consistent e) (h : FlattenEffect u e e') :
    e.document.state ≠ .finalized := by
  intro final
  have released := inv.lease (.inr final)
  rw [h.owner] at released
  cases released

theorem currentRow {e : Envelope} (ids : (e.revisions.map DocumentRevision.id).Nodup) {r : DocumentRevision}
    (mem : r ∈ e.revisions) (current : e.document.currentRevisionId = some r.id) : loadRevision e.document e = some r := by
  rw [loadRevision,current,Option.bind_some]
  cases found : Revisions.findById r.id e with
  | none =>
    have none := List.find?_eq_none.mp found r mem
    simp at none
  | some row =>
    have named : row.id = r.id := by simpa using List.find?_some found
    rw [sameRevision ids (List.mem_of_find?_eq_some found) mem named]

theorem committedRevision {u : FlattenUnit} {e e'} (past : Justified FinalBefore (.flatten u) e) (h : FlattenEffect u e e') :
    ∃ r ∈ e'.revisions, e'.document.currentRevisionId = some r.id ∧ r.body = u.output := by
  obtain ⟨atDocument,atRoster,atFields,found,taken,reread,atRevision,source,last⟩ := past
  rw [h.document]
  rcases h.revisions with ⟨empty,same⟩ | ⟨grown,-⟩
  · have revision : u.revision ∈ e.revisions := last.2.2.revisions _ (List.mem_of_find?_eq_some source.revision)
    refine ⟨u.revision,by rw [same]; exact revision,by rw [source.same empty],?_⟩
    rw [source.output,empty]
    simp
  · exact ⟨_,by rw [grown]; exact List.mem_append_right _ List.mem_cons_self,rfl,rfl⟩

theorem keepFinalFlatten {u : FlattenUnit} {e e'} (inv : Consistent e) (extra : Final e)
    (past : Justified FinalBefore (.flatten u) e) (ok : u.run e = .ok e') (h : FlattenEffect u e e') : Final e' := by
  have ids : (e'.revisions.map DocumentRevision.id).Nodup := by
    rcases h.revisions with ⟨-,same⟩ | ⟨grown,fresh⟩
    · rw [same]
      exact extra.revisionIds
    · rw [grown]
      exact keysAppended extra.revisionIds fresh
  obtain ⟨missing,none⟩ := extra.unfinal (leasedUnfinal inv h)
  have state : e'.document.state = if u.finalize then .finalized else e.document.state := by rw [h.document]
  have artifact := h.artifact
  have logged := flattenFinals ok
  rw [none] at logged
  rw [missing] at artifact
  cases final : u.finalize with
  | false =>
    rw [final] at artifact logged state
    refine ⟨ids,fun _ => ⟨artifact,logged⟩,fun finalized => ?_⟩
    rw [state] at finalized
    exact absurd finalized (leasedUnfinal inv h)
  | true =>
    rw [final] at artifact logged state
    refine ⟨ids,fun open_ => absurd state open_,fun _ => ?_⟩
    obtain ⟨r,mem,current,body⟩ := committedRevision past h
    refine ⟨⟨u.artifactId,u.output⟩,r,u.finalized,⟨artifact,currentRow ids mem current,logged,body,?_⟩⟩
    rfl

theorem keepFinalOther {w : Write} {i e e'} (extra : Final e) (ids : (e'.revisions.map DocumentRevision.id).Nodup)
    (artifact : e'.artifact = e.artifact) (logged : finals e'.audit = finals e.audit)
    (same : e'.document.state = .finalized ↔ e.document.state = .finalized)
    (current : e.document.state = .finalized → e'.document.currentRevisionId = e.document.currentRevisionId)
    (done : Committed i e e' w) : Final e' where
  revisionIds := ids
  unfinal := by
    intro open_
    rw [artifact,logged]
    exact extra.unfinal (fun final => open_ (same.mpr final))
  final := by
    intro final
    obtain ⟨made,r,event,record⟩ := extra.final (same.mp final)
    obtain ⟨revisionId,named,found⟩ := Option.bind_eq_some_iff.mp record.current
    have id : r.id = revisionId := by simpa using List.find?_some found
    refine ⟨made,r,event,⟨by rw [artifact]; exact record.stored,?_,by rw [logged]; exact record.logged,
      record.revisionDigest,record.eventDigest⟩⟩
    refine currentRow ids (keepRevisions done r (List.mem_of_find?_eq_some found)) ?_
    rw [current (same.mp final),named,id]

theorem eventTypesOther {w : Write} (flatten : ∀ u, w ≠ .flatten u) (persist : ∀ u, w ≠ .persist u) :
    .documentFinalized ∉ w.eventTypes := by
  cases w with
  | flatten u => exact absurd rfl (flatten u)
  | persist u => exact absurd rfl (persist u)
  | _ => simp [Write.eventTypes]

theorem keepFinal {w : Write} {i e e'} (inv : Consistent e) (extra : Final e) (past : Justified FinalBefore w e)
    (just : Justified Before w e) (ok : w.run i e = .ok e') (done : Committed i e e' w) (later : Later e e') : Final e' := by
  by_cases flatten : ∃ u, w = .flatten u
  · obtain ⟨u,rfl⟩ := flatten
    exact keepFinalFlatten inv extra past ok (flattenEffect ok)
  have persist : ∀ u, w ≠ .persist u := by
    rintro u rfl
    exact unpersisted past
  have other : .documentFinalized ∉ w.eventTypes := eventTypesOther (fun u same => flatten ⟨u,same⟩) persist
  have logged : finals e'.audit = finals e.audit := by
    rcases appended inv ok with h | ⟨u,-,h⟩
    · exact h.audit.finals other
    · exact h.audit.finals (by simp)
  rcases done.artifact with ⟨u,same,-⟩ | ⟨kept,unfinal⟩
  · exact absurd ⟨u,same⟩ flatten
  have artifact : e'.artifact = e.artifact := by
    rcases kept with same | ⟨-,u,same⟩
    · exact same
    · exact absurd same (persist u)
  have state : e'.document.state = .finalized ↔ e.document.state = .finalized := ⟨unfinal,finalizedStays later⟩
  rcases done.revisions with ⟨u,same,-⟩ | ⟨u,rfl,h⟩ | ⟨revisions,current⟩
  · exact absurd ⟨u,same⟩ flatten
  · have draft : e.document.state = .draft := by
      rw [just.1.row h.version]
      exact just.2.1
    have ids : (e'.revisions.map DocumentRevision.id).Nodup := by
      rw [h.revisions]
      exact keysAppended extra.revisionIds h.fresh
    refine keepFinalOther extra ids artifact logged state (fun final => ?_) done
    rw [draft] at final
    cases final
  · exact keepFinalOther extra (by rw [revisions]; exact extra.revisionIds) artifact logged state (fun _ => current) done

theorem keepFinalKept {w : Write} {i e e'} (inv : Consistent e) (extra : Final e) (past : Justified FinalBefore w e)
    (done : Committed i e e' w) : FinalKept e e' where
  revisions := keepRevisions done
  artifact := by
    intro made
    rcases done.artifact with ⟨u,rfl,h⟩ | ⟨same | ⟨-,u,rfl⟩,-⟩
    · have missing := (extra.unfinal (leasedUnfinal inv h)).1
      rw [missing] at made
      cases made
    · exact same
    · exact absurd past unpersisted

def finalExtension : Extension anyScope where
  Extra := Final
  Also := FinalKept
  refl := .refl
  trans := .trans
  keep inv extra past just _ ok done _ later :=
    ⟨keepFinal inv extra past just ok done later,keepFinalKept inv extra past done⟩

theorem draftFinal (draft : NewDraft) : Final (createDraftDocument draft) where
  revisionIds := List.nodup_nil
  unfinal _ := ⟨rfl,rfl⟩
  final final := by cases final

/-- The document is finalized if and only if it has an artifact, if and only if the event was
logged; there is then one of each, and they agree; and no job that is run from there, whatever runs beside it, loads a finalized
document as work, which is when it would go on to repair a missing artifact. -/
def FinalizationAtomic (settings : Settings) (draft : NewDraft) : Prop :=
  ∀ c, Run (esign settings) anyScope (initial (createDraftDocument draft)) c →
    (c.store.document.state = .finalized ↔ c.store.artifact.isSome = true) ∧
    (c.store.document.state = .finalized ↔ finals c.store.audit ≠ []) ∧
    (c.store.document.state = .finalized → ∃ artifact revision event, FinalRecord c.store artifact revision event) ∧
    ∀ input own loaded c', Amid (esign settings) anyScope (fun _ => True) c (loadAuthorizedWork input) own (.ok (some loaded)) c' →
      loaded.document.state ≠ .finalized

theorem finalizationAtomic (settings : Settings) (draft : NewDraft) : FinalizationAtomic settings draft := by
  intro c run
  have sound := finalExtension.run ⟨draftConsistent draft,draftFinal draft⟩ run
  have extra := sound.inv.2
  refine ⟨⟨extra.made,fun made => ?_⟩,⟨fun final => ?_,fun some => ?_⟩,extra.final,?_⟩
  · by_contra open_
    rw [(extra.unfinal open_).1] at made
    cases made
  · obtain ⟨artifact,revision,event,record⟩ := extra.final final
    rw [record.logged]
    exact List.cons_ne_nil _ _
  · by_contra open_
    exact some (extra.unfinal open_).2
  · intro input own loaded c' amid final
    have held := ensuresWork (o := finalExtension.outline settings) input (e := c.store) sound.inv
    obtain ⟨atDocument,atRoster,atFields,source,-⟩ := (amidHolds finalExtension.starts (fun _ _ => trivial) sound held amid).2.2 _ rfl loaded rfl
    obtain ⟨atArtifact,past,missing⟩ := source.artifact final
    exact finalizedMade past (by rw [← source.document]; exact final) missing

end ESign
