import ESign.Preparation
import ESign.Finalization

/-! What is sent was inspected. A document has one source revision, which comes with its
upload; its inspection is committed against the version that was read as pending, and the
send against the version that was read as accepted. The counter of the row ties the three
together: whoever comes second compares a version that has passed. -/
namespace ESign
open StoreProgram StoreProgram.Outline

theorem Committed.gates {w : Write} {i e e'} (done : Committed i e e' w) (ok : w.run i e = .ok e') :
    (∃ u, w = .inspect u ∧ InspectEffect u e e') ∨ (∃ u, w = .send u ∧ SendEffect u e e') ∨
    (e'.document.inspectionStatus = e.document.inspectionStatus ∧
      e'.document.signingRevisionId = e.document.signingRevisionId) := by
  cases done with
  | still h idle artifact => exact .inr (.inr (by rw [h.document]; exact ⟨rfl,rfl⟩))
  | released h => subst h; exact .inr (.inr ⟨rfl,rfl⟩)
  | failed state h => subst h; exact .inr (.inr ⟨rfl,rfl⟩)
  | leased row frame state revised kept => exact .inr (.inr (by rw [(takeEffect ok).document]; exact ⟨rfl,rfl⟩))
  | upload h => exact .inr (.inr (by rw [h.document]; exact ⟨rfl,rfl⟩))
  | inspect h => exact .inl ⟨_,rfl,h⟩
  | replaceSigners h =>
    obtain ⟨given,same,prepared⟩ := h.document
    rcases prepared with kept | ⟨-,state,-,-,changed⟩
    · exact .inr (.inr (by rw [kept,same]; exact ⟨rfl,rfl⟩))
    · exact .inr (.inr (by rw [changed,same]; exact ⟨rfl,rfl⟩))
  | replaceFields h =>
    rcases h.document with same | ⟨-,state,-,-,changed⟩
    · exact .inr (.inr (by rw [same]; exact ⟨rfl,rfl⟩))
    · exact .inr (.inr (by rw [changed]; exact ⟨rfl,rfl⟩))
  | send h => exact .inr (.inl ⟨_,rfl,h⟩)
  | void h => exact .inr (.inr (by rw [h.document]; exact ⟨rfl,rfl⟩))
  | decline h => exact .inr (.inr (by rw [h.document]; exact ⟨rfl,rfl⟩))
  | complete h =>
    rcases h.document with ⟨-,-,-,moved⟩ | ⟨-,-,-,-,moved⟩ | ⟨-,-,same⟩
    · exact .inr (.inr (by rw [moved]; exact ⟨rfl,rfl⟩))
    · exact .inr (.inr (by rw [moved]; exact ⟨rfl,rfl⟩))
    · exact .inr (.inr (by rw [same]; exact ⟨rfl,rfl⟩))
  | flatten h => exact .inr (.inr (by rw [h.document]; exact ⟨rfl,rfl⟩))

def sources (e : Envelope) : List DocumentRevision := e.revisions.filter (fun r => r.kind = .source)

/-- What the revision rows have to do with the gates. -/
structure Inspected (e : Envelope) : Prop where
  arranged : Arranged e
  ids : (e.revisions.map DocumentRevision.id).Nodup
  bare : e.document.currentRevisionId = none → e.revisions = [] ∧ e.document.inspectionStatus = .pending
  source : e.document.currentRevisionId.isSome = true → ∃ r, sources e = [r] ∧
    (e.sent = false → e.document.currentRevisionId = some r.id) ∧
    (e.sent = true → e.document.signingRevisionId = some r.id)
  accepted : e.sent = true → e.document.inspectionStatus = .accepted ∧ e.document.currentRevisionId.isSome = true

def RevisionsKept (e e' : Envelope) : Prop := ∀ r ∈ e.revisions, r ∈ e'.revisions

def InspectedBefore (a b : Envelope) : Prop := (Consistent a ∧ Inspected a) ∧ Later a b ∧ RevisionsKept a b

theorem InspectedBefore.before (a b : Envelope) (h : InspectedBefore a b) : Before a b := ⟨h.1.1,h.2.1⟩

theorem draftInspected (draft : NewDraft) : Inspected (createDraftDocument draft) where
  arranged := draftArranged draft
  ids := List.nodup_nil
  bare _ := ⟨rfl,rfl⟩
  source some := by cases some
  accepted sent := by cases sent

theorem Inspected.unsent {e} (h : Inspected e) (status : e.document.inspectionStatus ≠ .accepted) : e.sent = false := by
  cases sent : e.sent with
  | false => rfl
  | true => exact absurd (h.accepted sent).1 status

theorem Inspected.one {e} (h : Inspected e) (status : e.document.inspectionStatus = .accepted) : ∃ r, sources e = [r] := by
  have isSome : e.document.currentRevisionId.isSome = true := by
    cases current : e.document.currentRevisionId with
    | some id => rfl
    | none =>
      have pending := (h.bare current).2
      rw [status] at pending
      cases pending
  obtain ⟨r,only,-⟩ := h.source isSome
  exact ⟨r,only⟩

theorem Inspected.kept {e e'} (h : Inspected e) (arranged : Arranged e') (revisions : e'.revisions = e.revisions)
    (current : e'.document.currentRevisionId = e.document.currentRevisionId)
    (status : e'.document.inspectionStatus = e.document.inspectionStatus)
    (signing : e'.document.signingRevisionId = e.document.signingRevisionId) : Inspected e' where
  arranged := arranged
  ids := by rw [revisions]; exact h.ids
  bare := by
    rw [revisions,current,status]
    exact h.bare
  source := by
    unfold sources Envelope.sent
    rw [revisions,current,signing]
    exact h.source
  accepted := by
    unfold Envelope.sent
    rw [status,current,signing]
    exact h.accepted

theorem keepInspectedUpload {u : UploadUnit} {e e'} (extra : Inspected e) (arranged : Arranged e')
    (just : Justified Before (.upload u) e) (h : UploadEffect u e e') : Inspected e' := by
  obtain ⟨read,-,none,kind⟩ := just
  have row := read.row h.version
  obtain ⟨empty,pending⟩ := extra.bare (by rw [row]; exact none)
  have unsent : e'.sent = false := by
    unfold Envelope.sent
    rw [h.document]
    exact extra.unsent (by rw [pending]; exact DocumentInspectionStatus.noConfusion)
  constructor
  · exact arranged
  · rw [h.revisions]
    exact keysAppended extra.ids h.fresh
  · intro bare
    rw [h.document] at bare
    cases bare
  · intro _
    refine ⟨u.revision,?_,fun _ => by rw [h.document],fun sent => by rw [unsent] at sent; cases sent⟩
    unfold sources
    rw [h.revisions,empty]
    simp [kind]
  · intro sent
    rw [unsent] at sent
    cases sent

theorem keepInspectedInspect {u : InspectUnit} {e e'} (extra : Inspected e) (arranged : Arranged e')
    (just : InspectSource Before u e) (h : InspectEffect u e e') : Inspected e' := by
  have row := just.document.row h.version
  have unsent := extra.unsent (by rw [row,just.pending]; exact DocumentInspectionStatus.noConfusion)
  obtain ⟨status,changed⟩ := h.document
  have current : e'.document.currentRevisionId = e.document.currentRevisionId := by rw [changed]
  have same : e'.sent = e.sent := by unfold Envelope.sent; rw [changed]
  constructor
  · exact arranged
  · rw [h.revisions]; exact extra.ids
  · intro bare
    rw [current,row,just.current] at bare
    cases bare
  · intro isSome
    obtain ⟨r,only,draft,-⟩ := extra.source (current ▸ isSome)
    refine ⟨r,by unfold sources; rw [h.revisions]; exact only,fun _ => by rw [current]; exact draft unsent,?_⟩
    intro sent
    rw [same,unsent] at sent
    cases sent
  · intro sent
    rw [same,unsent] at sent
    cases sent

theorem sendMeets {u : SendUnit} {e e'} (just : Justified Before (.send u) e) (h : SendEffect u e e') :
    e.document = u.document ∧ isPreparationState u.document.state = true ∧ u.document.inspectionStatus = .accepted ∧
      u.document.currentRevisionId = some u.revisionId ∧ Signers.listByDocument e ≠ [] ∧
      assertSignerRouting u.document.signingMode ((Signers.listByDocument e).map Signer.routingOrder) = .ok () := by
  obtain ⟨atDocument,atRoster,signers,source,read⟩ := just
  have row : e.document = u.document :=
    Read.row ⟨atDocument,source.document,source.later.trans read⟩ h.version
  have version : atRoster.document.version = atDocument.document.version := by
    have below := source.later.2.version
    have above := read.2.version
    rw [row,source.document] at above
    exact le_antisymm above below
  have sameRow : atRoster.document = atDocument.document := source.later.2.row version
  have roster : e.signers = atRoster.signers := by
    refine read.2.roster ?_ ?_
    · rw [sameRow,← source.document]; exact source.unlocked
    · rw [row,source.document,version]
  have same : Signers.listByDocument e = signers := by
    rw [source.roster]
    unfold Signers.listByDocument
    rw [roster]
  rw [same]
  exact ⟨row,source.unlocked,source.accepted,source.current,source.nonempty,source.routing⟩

theorem keepInspectedSend {u : SendUnit} {e e'} (inv : Consistent e) (extra : Inspected e) (arranged : Arranged e')
    (just : Justified Before (.send u) e) (h : SendEffect u e e') : Inspected e' := by
  obtain ⟨row,unlocked,accepted,current,-,-⟩ := sendMeets just h
  have unsent : e.sent = false := by
    unfold Envelope.sent
    rw [(inv.unsent (by rw [row]; exact unlocked)).2.2]
    rfl
  have isSome : e.document.currentRevisionId.isSome = true := by rw [row,current]; rfl
  have same : e'.document.currentRevisionId = e.document.currentRevisionId := by rw [h.document]
  have sent : e'.sent = true := by unfold Envelope.sent; rw [h.document]; rfl
  constructor
  · exact arranged
  · rw [h.revisions]; exact extra.ids
  · intro bare
    rw [same,row,current] at bare
    cases bare
  · intro _
    obtain ⟨r,only,draft,-⟩ := extra.source isSome
    have named : some u.revisionId = some r.id := by rw [← draft unsent,row,current]
    refine ⟨r,by unfold sources; rw [h.revisions]; exact only,?_,fun _ => by rw [h.document]; exact named⟩
    intro no
    rw [sent] at no
    cases no
  · intro _
    exact ⟨by rw [h.document,row]; exact accepted,by rw [same]; exact isSome⟩

theorem keepInspectedFlatten {u : FlattenUnit} {e e'} (extra : Inspected e) (arranged : Arranged e') (sent : e.sent = true)
    (h : FlattenEffect u e e') : Inspected e' := by
  have same : e'.sent = e.sent := by unfold Envelope.sent; rw [h.document]
  have current : e'.document.currentRevisionId = some u.revisionId := by rw [h.document]
  have only : sources e' = sources e := by
    unfold sources
    rcases h.revisions with ⟨-,kept⟩ | ⟨added,-⟩
    · rw [kept]
    · rw [added]; simp
  constructor
  · exact arranged
  · rcases h.revisions with ⟨-,kept⟩ | ⟨added,fresh⟩
    · rw [kept]; exact extra.ids
    · rw [added]; exact keysAppended extra.ids fresh
  · intro bare
    rw [current] at bare
    cases bare
  · intro _
    obtain ⟨r,one,-,signing⟩ := extra.source (extra.accepted sent).2
    refine ⟨r,only.trans one,fun no => ?_,fun _ => by rw [h.document]; exact signing sent⟩
    rw [same,sent] at no
    cases no
  · intro _
    rw [h.document]
    exact ⟨(extra.accepted sent).1,rfl⟩

theorem keepInspected {w : Write} {i e e'} (inv : Consistent e) (extra : Inspected e) (past : Justified InspectedBefore w e)
    (just : Justified Before w e) (done : Committed i e e' w) (ok : w.run i e = .ok e') (later : Later e e') : Inspected e' := by
  have arranged : Arranged e' :=
    keepArranged (fun a b h => ⟨⟨h.1.1,h.1.2.arranged.sent⟩,h.2.1⟩) extra.arranged past done later
  rcases done.revisions with ⟨u,rfl,h⟩ | ⟨u,rfl,h⟩ | ⟨revisions,current⟩
  · exact keepInspectedFlatten extra arranged (flattenSent (fun a b h => ⟨h.1.2.arranged.sent,h.2.1⟩) past) h
  · exact keepInspectedUpload extra arranged just h
  · rcases done.gates ok with ⟨u,rfl,h⟩ | ⟨u,rfl,h⟩ | ⟨status,signing⟩
    · exact keepInspectedInspect extra arranged just h
    · exact keepInspectedSend inv extra arranged just h
    · exact extra.kept arranged revisions current status signing

def inspectedExtension : Extension anyScope where
  Extra := Inspected
  Also := RevisionsKept
  refl _ _ mem := mem
  trans left right r mem := right r (left r mem)
  keep inv extra past just _ ok done _ later := ⟨keepInspected inv extra past just done ok later,keepRevisions done⟩

theorem sourceOf {e : Envelope} {r : DocumentRevision} (only : sources e = [r]) :
    r ∈ e.revisions ∧ ∀ row ∈ e.revisions, row.kind = .source → row = r := by
  have found : ∀ row, row ∈ sources e ↔ row = r := fun row => by rw [only,List.mem_singleton]
  refine ⟨(List.mem_filter.mp ((found r).mpr rfl)).1,fun row mem kind => (found row).mp ?_⟩
  exact List.mem_filter.mpr ⟨mem,by simpa using kind⟩

theorem sourceKept {e e' : Envelope} {r r' : DocumentRevision} (kept : RevisionsKept e e') (only : sources e = [r])
    (only' : sources e' = [r']) : r = r' := by
  have mem : r ∈ sources e := by rw [only]; exact List.mem_singleton_self r
  exact (sourceOf only').2 r (kept r (List.mem_filter.mp mem).1) (by simpa using (List.mem_filter.mp mem).2)

/-- Somewhere on the way to `c` a commit of `w` was made that satisfies `Q`, of the write
and of the store it led to. -/
def Happened (settings : Settings) (start c : Running) (Q : Write → Envelope → Prop) : Prop :=
  ∃ w i before after, Run (esign settings) anyScope start before ∧ CommitStep settings w i before after ∧
    Q w after.store ∧ Run (esign settings) anyScope after c

theorem Happened.later {settings start} {c c' : Running} {Q} (h : Happened settings start c Q)
    (run : Run (esign settings) anyScope c c') : Happened settings start c' Q := by
  obtain ⟨w,i,before,after,reached,commits,holds,rest⟩ := h
  exact ⟨w,i,before,after,reached,commits,holds,rest.trans run⟩

/-- The inspector was run on the bytes of `r`, and accepted them. -/
def AcceptedOf (r : DocumentRevision) (w : Write) (_ : Envelope) : Prop :=
  ∃ u, w = .inspect u ∧ u.revisionId = r.id ∧ u.inspected = r.body ∧ u.accepted = true

/-- The document was sent to a roster that is not empty and can be routed. -/
def SentRouted (w : Write) (after : Envelope) : Prop :=
  (∃ u, w = .send u) ∧ after.document.state = .sent ∧ Signers.listByDocument after ≠ [] ∧
    assertSignerRouting after.document.signingMode ((Signers.listByDocument after).map Signer.routingOrder) = .ok ()

theorem inspectedSource {u : InspectUnit} {e e'} (extra : Inspected e) (past : InspectSource InspectedBefore u e)
    (h : InspectEffect u e e') : ∃ r, sources e = [r] ∧ u.revisionId = r.id ∧ u.inspected = r.body := by
  have row := (past.document.weaken InspectedBefore.before).row h.version
  have unsent := extra.unsent (by rw [row,past.pending]; exact DocumentInspectionStatus.noConfusion)
  obtain ⟨r,only,draft,-⟩ := extra.source (by rw [row,past.current]; rfl)
  have named : u.revisionId = r.id := by
    have current := draft unsent
    rw [row,past.current] at current
    exact Option.some.inj current
  obtain ⟨atRevision,revision,earlier,found,bytes⟩ := past.revision
  have mem := earlier.2.2 revision (List.mem_of_find?_eq_some found)
  have same : revision.id = r.id := by
    rw [← named]
    simpa using List.find?_some found
  have equal : revision = r := sameRevision extra.ids mem (sourceOf only).1 same
  exact ⟨r,only,named,by rw [bytes,equal]⟩

section
variable {settings : Settings} {draft : NewDraft} {c : Running}

abbrev drafted (draft : NewDraft) : Running := initial (createDraftDocument draft)

theorem inspectedRun (run : Run (esign settings) anyScope (drafted draft) c) :
    (inspectedExtension.outline settings).Sound c :=
  inspectedExtension.run ⟨draftConsistent draft,draftInspected draft⟩ run

/- By induction on the run: the status became `accepted` in a commit of an inspection, and
the source revision stayed what it was. -/
theorem acceptedHappened (run : Run (esign settings) anyScope (drafted draft) c)
    (accepted : c.store.document.inspectionStatus = .accepted) :
    ∃ r, sources c.store = [r] ∧ Happened settings (drafted draft) c (AcceptedOf r) := by
  induction run with
  | refl => cases accepted
  | @tail mid c' run next ih =>
    have sound := inspectedRun run
    have sound' := inspectedRun (run.tail next)
    rcases inspectedExtension.stepCommits sound next with same | ⟨w,i,commits,past,-⟩
    · rw [same] at accepted ⊢
      obtain ⟨r,only,happened⟩ := ih accepted
      exact ⟨r,only,happened.later (.single next)⟩
    · have just := past.weaken InspectedBefore.before
      have done := committed sound.inv.1 just commits.run
      have extra := sound.inv.2
      have already : mid.store.document.inspectionStatus = .accepted →
          ∃ r, sources c'.store = [r] ∧ Happened settings (drafted draft) c' (AcceptedOf r) := by
        intro was
        obtain ⟨r,only,happened⟩ := ih was
        obtain ⟨r',only'⟩ := sound'.inv.2.one accepted
        cases sourceKept (keepRevisions done) only only'
        exact ⟨r,only',happened.later (.single next)⟩
      rcases done.gates commits.run with ⟨u,rfl,h⟩ | ⟨u,rfl,h⟩ | ⟨status,-⟩
      · obtain ⟨r,only,named,bytes⟩ := inspectedSource extra past h
        refine ⟨r,by unfold sources; rw [h.revisions]; exact only,_,i,mid,c',run,commits,⟨u,rfl,named,bytes,?_⟩,.refl⟩
        cases was : u.accepted with
        | true => rfl
        | false => simp [h.status,was] at accepted
      · exact already (by rw [h.document] at accepted; exact accepted)
      · exact already (by rw [← status]; exact accepted)

theorem sendHappened (run : Run (esign settings) anyScope (drafted draft) c) (sent : c.store.sent = true) :
    Happened settings (drafted draft) c SentRouted := by
  induction run with
  | refl => cases sent
  | @tail mid c' run next ih =>
    have sound := inspectedRun run
    rcases inspectedExtension.stepCommits sound next with same | ⟨w,i,commits,past,-⟩
    · rw [same] at sent
      exact (ih sent).later (.single next)
    · have just := past.weaken InspectedBefore.before
      have already : c'.store.document.signingRevisionId = mid.store.document.signingRevisionId →
          Happened settings (drafted draft) c' SentRouted := by
        intro same
        unfold Envelope.sent at sent
        rw [same] at sent
        exact (ih sent).later (.single next)
      rcases (committed sound.inv.1 just commits.run).gates commits.run with ⟨u,rfl,h⟩ | ⟨u,rfl,h⟩ | ⟨-,same⟩
      · obtain ⟨status,changed⟩ := h.document
        exact already (by rw [changed])
      · obtain ⟨row,-,-,-,nonempty,routing⟩ := sendMeets just h
        have roster : Signers.listByDocument c'.store = Signers.listByDocument mid.store := by
          unfold Signers.listByDocument
          rw [h.signers]
        refine ⟨_,i,mid,c',run,commits,⟨⟨u,rfl⟩,by rw [h.document],by rw [roster]; exact nonempty,?_⟩,.refl⟩
        rw [roster,h.document,row]
        exact routing
      · exact already same

end

/-- A document that was sent was inspected and accepted before, whatever became of it. -/
def OnlyInspectedSent (settings : Settings) (draft : NewDraft) : Prop :=
  ∀ c, Run (esign settings) anyScope (drafted draft) c → (c.store.document.state.signing = true ∨ c.store.sent = true) →
    c.store.document.inspectionStatus = .accepted ∧
    (∃ r, sources c.store = [r] ∧ c.store.document.signingRevisionId = some r.id ∧
      Happened settings (drafted draft) c (AcceptedOf r)) ∧
    Happened settings (drafted draft) c SentRouted

/-- From a fresh draft, under any interleaving of uploads, inspections, edits and sends, and
of everything that follows the send. -/
theorem onlyInspectedSent (settings : Settings) (draft : NewDraft) : OnlyInspectedSent settings draft := by
  intro c run signing
  have extra := (inspectedRun run).inv.2
  have sent : c.store.sent = true := signing.elim extra.arranged.sent id
  obtain ⟨accepted,isSome⟩ := extra.accepted sent
  obtain ⟨r,only,happened⟩ := acceptedHappened run accepted
  obtain ⟨r',only',-,signingRevision⟩ := extra.source isSome
  have same : [r] = [r'] := only.symm.trans only'
  cases same
  exact ⟨accepted,⟨r,only,signingRevision sent,happened⟩,sendHappened run sent⟩

end ESign
