import ESign.Finality
import ESign.Inspection
import ESign.SessionLifecycle
import ESign.SigningRoutes
import ESign.WriteSites

/-! What no run of the desk breaks. The revisions of a document all go back to one upload, on
which nothing was drawn; a grant names a revision, and is never taken back. The rows are kept
as they are kept without the desk, and the one event the desk logs is not looked at. -/
namespace ESign.Desk
open StoreProgram StoreProgram.Fallible StoreProgram.Outline

/-- What the rows that are shown have in common. -/
structure Shown (e : Envelope) : Prop where
  inspected : Inspected e
  final : Final e
  plain : ∀ r ∈ e.revisions, r.kind = .source → r.body.drawn = []
  upload : ∀ a ∈ e.revisions, ∀ b ∈ e.revisions, a.body.uploaded = b.body.uploaded
  artifact : ∀ a ∈ e.artifact, ∀ r ∈ e.revisions, a.body.uploaded = r.body.uploaded

def ShownBefore (a b : Envelope) : Prop := (Consistent a ∧ Shown a) ∧ Later a b ∧ FinalKept a b

theorem ShownBefore.inspected (a b : Envelope) (h : ShownBefore a b) : InspectedBefore a b :=
  ⟨⟨h.1.1,h.1.2.inspected⟩,h.2.1,h.2.2.revisions⟩

theorem ShownBefore.final (a b : Envelope) (h : ShownBefore a b) : FinalBefore a b :=
  ⟨⟨h.1.1,h.1.2.final⟩,h.2⟩

theorem drawsOnUpload {u : FlattenUnit} {e : Envelope} (extra : Shown e) (past : Justified ShownBefore (.flatten u) e) :
    ∀ r ∈ e.revisions, u.output.uploaded = r.body.uploaded := by
  obtain ⟨atDocument,atRoster,atFields,found,taken,reread,atRevision,source,last⟩ := past
  have mem : u.revision ∈ e.revisions := last.2.2.revisions _ (List.mem_of_find?_eq_some source.revision)
  intro r listed
  rw [source.output]
  exact extra.upload u.revision mem r listed

theorem keepShownFlatten {u : FlattenUnit} {e e'} (inv : Consistent e) (extra : Shown e)
    (past : Justified ShownBefore (.flatten u) e)
    (h : FlattenEffect u e e') (inspected : Inspected e') (final : Final e') : Shown e' := by
  have output := drawsOnUpload extra past
  have listed : ∀ r ∈ e'.revisions, r ∈ e.revisions ∨ (r.kind = .intermediate ∧ r.body = u.output) := by
    rcases h.revisions with ⟨-,same⟩ | ⟨grown,-⟩
    · rw [same]
      exact fun r mem => .inl mem
    · rw [grown]
      intro r mem
      rcases List.mem_append.mp mem with old | new
      · exact .inl old
      · rw [List.mem_singleton.mp new]
        exact .inr ⟨rfl,rfl⟩
  have drawn : ∀ r ∈ e'.revisions, u.output.uploaded = r.body.uploaded := by
    intro r mem
    rcases listed r mem with old | ⟨-,body⟩
    · exact output r old
    · rw [body]
  refine ⟨inspected,final,fun r mem kind => ?_,fun a first b second => ?_,fun a made r mem => ?_⟩
  · rcases listed r mem with old | ⟨other,-⟩
    · exact extra.plain r old kind
    · rw [kind] at other
      cases other
  · rw [← drawn a first,← drawn b second]
  · have artifact := h.artifact
    rw [(extra.final.unfinal (leasedUnfinal inv h)).1] at artifact
    rw [artifact] at made
    split at made
    · cases made
      exact drawn r mem
    · cases made

theorem keepShownUpload {u : UploadUnit} {e e'} (extra : Shown e) (just : Justified Before (.upload u) e)
    (plain : u.revision.body.drawn = []) (h : UploadEffect u e e') (inspected : Inspected e')
    (final : Final e') : Shown e' := by
  have row := just.1.row h.version
  have empty := (extra.inspected.bare (by rw [row]; exact just.2.2.1)).1
  have one : ∀ r ∈ e'.revisions, r = u.revision := by
    rw [h.revisions,empty]
    exact fun r mem => List.mem_singleton.mp mem
  have missing : e'.artifact = none := by
    rw [h.artifact]
    refine (extra.final.unfinal ?_).1
    rw [row,just.2.1]
    exact DocumentState.noConfusion
  refine ⟨inspected,final,fun r mem _ => ?_,fun a first b second => ?_,fun a made => ?_⟩
  · rw [one r mem]
    exact plain
  · rw [one a first,one b second]
  · rw [missing] at made
    cases made

theorem keepShown {w : ESign.Write} {i e e'} (inv : Consistent e) (extra : Shown e) (past : Justified ShownBefore w e)
    (just : Justified Before w e) (own : w.own) (ok : w.run i e = .ok e') (done : Committed i e e' w)
    (later : Later e e') :
    Shown e' := by
  have inspected := keepInspected inv extra.inspected (past.weaken ShownBefore.inspected) just done ok later
  have final := keepFinal inv extra.final (past.weaken ShownBefore.final) just ok done later
  rcases done.revisions with ⟨u,rfl,h⟩ | ⟨u,rfl,h⟩ | ⟨revisions,-⟩
  · exact keepShownFlatten inv extra past h inspected final
  · exact keepShownUpload extra just own h inspected final
  · refine ⟨inspected,final,by rw [revisions]; exact extra.plain,by rw [revisions]; exact extra.upload,?_⟩
    rw [revisions]
    rcases done.artifact with ⟨u,rfl,h⟩ | ⟨same | ⟨-,u,rfl⟩,-⟩
    · exact revisions ▸ (keepShownFlatten inv extra past h inspected final).artifact
    · rw [same]
      exact extra.artifact
    · exact absurd (past.weaken ShownBefore.final) unpersisted

/-- A session has a CSRF token from its exchange on, and keeps it. -/
def Keyed (e : Envelope) : Prop := ∀ s ∈ e.sessions, s.csrfTokenHash.isSome = true → s.consumedAt.isSome = true

structure SessionKept (s s' : SigningSession) : Prop where
  further : SessionFurther s s'
  secret : s.consumedAt.isSome = true → s'.csrfTokenHash = s.csrfTokenHash

def SessionsKept (e e' : Envelope) : Prop := ∀ s ∈ e.sessions, ∃ s' ∈ e'.sessions, SessionKept s s'

theorem SessionKept.refl (s : SigningSession) : SessionKept s s := ⟨.refl s,fun _ => rfl⟩

theorem SessionKept.trans {a b c} (left : SessionKept a b) (right : SessionKept b c) : SessionKept a c := by
  refine ⟨left.further.trans right.further,fun used => ?_⟩
  have later : b.consumedAt.isSome = true := by rw [(left.further.used used).1]; exact used
  exact (right.secret later).trans (left.secret used)

theorem SessionsKept.trans {a b c} (left : SessionsKept a b) (right : SessionsKept b c) : SessionsKept a c := by
  intro s mem
  obtain ⟨s',mem',first⟩ := left s mem
  obtain ⟨s'',mem'',second⟩ := right s' mem'
  exact ⟨s'',mem'',first.trans second⟩

theorem changeSecret {w s s'} (h : SessionChange s w s') : SessionKept s s' := by
  refine ⟨h.further,fun used => ?_⟩
  cases h with
  | exchanged isOpen unused named =>
    rw [unused] at used
    cases used
  | _ => rfl

theorem changeKeyed {w s s'} (h : SessionChange s w s')
    (keyed : s.csrfTokenHash.isSome = true → s.consumedAt.isSome = true) :
    s'.csrfTokenHash.isSome = true → s'.consumedAt.isSome = true := by
  cases h with
  | exchanged isOpen unused named => exact fun _ => rfl
  | _ => exact keyed

theorem openedUnkeyed {w : ESign.Write} (own : w.own) : ∀ s ∈ w.opens, s.csrfTokenHash = none := by
  intro s mem
  cases w with
  | send u => exact own s mem
  | rotate u =>
    rw [List.mem_singleton.mp mem]
    rfl
  | _ => cases mem

theorem keepKeyed {w : ESign.Write} {e e' : Envelope} (keyed : Keyed e) (own : w.own)
    (h : SessionsChanged w e.sessions e'.sessions) : Keyed e' := by
  intro s' mem'
  rcases h.source s' mem' with ⟨s,mem,change⟩ | opened
  · exact changeKeyed change (keyed s mem)
  · intro secret
    rw [openedUnkeyed own s' opened] at secret
    cases secret

theorem keepSessions {w : ESign.Write} {e e' : Envelope} (h : SessionsChanged w e.sessions e'.sessions) :
    SessionsKept e e' := by
  obtain ⟨moved,changed,opened⟩ := h.changed
  intro s mem
  obtain ⟨s',found,change⟩ := forall₂Source changed.flip s mem
  exact ⟨s',opened.kept s' found,changeSecret change⟩

/-- What no write breaks of the rows the desk reads. -/
structure Kept (e : Envelope) : Prop where
  shown : Shown e
  sound : SessionsSound e
  keyed : Keyed e

structure Moved (a b : Envelope) : Prop where
  final : FinalKept a b
  sessions : SessionsKept a b
  audit : a.audit <+: b.audit

theorem Moved.refl (e : Envelope) : Moved e e := ⟨.refl e,fun s mem => ⟨s,mem,.refl s⟩,List.prefix_rfl⟩

theorem Moved.trans {a b c : Envelope} (left : Moved a b) (right : Moved b c) : Moved a c :=
  ⟨left.final.trans right.final,left.sessions.trans right.sessions,left.audit.trans right.audit⟩

theorem auditGrows {w : ESign.Write} {i e e'} (inv : Consistent e) (ok : w.run i e = .ok e') : e.audit <+: e'.audit := by
  rcases ESign.appended inv ok with h | ⟨u,-,h⟩
  · obtain ⟨events,grown,-⟩ := h.audit
    exact ⟨events,grown.symm⟩
  · obtain ⟨events,grown,-⟩ := h.audit
    exact ⟨events,grown.symm⟩

def deskExtension : Extension ownScope where
  Extra := Kept
  Also := Moved
  refl := Moved.refl
  trans := @Moved.trans
  keep inv extra past just own ok done _ later := by
    have past : Justified ShownBefore _ _ := past.weaken fun a b h => ⟨⟨h.1.1,h.1.2.shown⟩,h.2.1,h.2.2.final⟩
    have changed := sessionsChanged inv ok
    exact ⟨⟨keepShown inv extra.shown past just own ok done later,keepSound extra.sound just changed,
        keepKeyed extra.keyed own changed⟩,
      keepFinalKept inv extra.shown.final (past.weaken ShownBefore.final) done,keepSessions changed,auditGrows inv ok⟩

theorem draftShown (draft : NewDraft) : Shown (createDraftDocument draft) where
  inspected := draftInspected draft
  final := draftFinal draft
  plain _ mem := by cases mem
  upload _ mem := by cases mem
  artifact _ made := by cases made

theorem draftKept (draft : NewDraft) : Kept (createDraftDocument draft) where
  shown := draftShown draft
  sound := draftSound draft
  keyed _ mem := by cases mem

def rowsOutline (settings : ESign.Settings) : Outline (esign settings) ESign.anyScope :=
    (deskExtension.outline settings).knowing

theorem logDownload {e : Envelope} {event : NewAuditEvent} (type : event.type = .artifactDownloaded)
    (inv : Consistent e) (kept : Kept e) :
    (Consistent { e with audit := e.audit ++ [event] } ∧ Kept { e with audit := e.audit ++ [event] }) ∧
      Later e { e with audit := e.audit ++ [event] } ∧ Moved e { e with audit := e.audit ++ [event] } := by
  have extra := kept.shown
  have logged : Logged e.audit (e.audit ++ [event]) :=
    ⟨[event],rfl,by simp [type,marks]⟩
  have still : Consistent { e with audit := e.audit ++ [event] } ∧ Later e { e with audit := e.audit ++ [event] } :=
    keepStill inv rfl rfl (.refl _) logged (fun prep => (inv.unsent prep).2.1)
  have finals_ : finals (e.audit ++ [event]) = finals e.audit := by
    rw [finalsAppend]
    simp [finals,type]
  have inspected : Inspected { e with audit := e.audit ++ [event] } :=
    extra.inspected.kept ⟨extra.inspected.arranged.sent,extra.inspected.arranged.fieldIds,extra.inspected.arranged.blank⟩
      rfl rfl rfl rfl
  have final : Final { e with audit := e.audit ++ [event] } := by
    refine ⟨extra.final.revisionIds,fun open_ => ?_,fun final => ?_⟩
    · obtain ⟨missing,none⟩ := extra.final.unfinal open_
      exact ⟨missing,finals_.trans none⟩
    · obtain ⟨artifact,revision,found,record⟩ := extra.final.final final
      exact ⟨artifact,revision,found,record.stored,record.current,finals_.trans record.logged,record.revisionDigest,
        record.eventDigest⟩
  exact ⟨⟨still.1,⟨inspected,final,extra.plain,extra.upload,extra.artifact⟩,⟨kept.sound.tokens,kept.sound.used,kept.sound.single⟩,
    kept.keyed⟩,still.2,⟨fun _ mem => mem,fun _ => rfl⟩,fun s mem => ⟨s,mem,.refl s⟩,List.prefix_append _ _⟩

structure Granted (settings : Settings) (d : Store) : Prop where
  ids : (d.grants.map PreviewGrant.id).Nodup
  tokens : (d.grants.map PreviewGrant.tokenHash).Nodup
  revisions : ∀ g ∈ d.grants, ∃ r ∈ d.rows.revisions, r.id = g.revisionId
  lifetime : ∀ g ∈ d.grants, g.expiresAt = g.createdAt + settings.previewTtlMs

/-- A grant is made of a revision that is there. -/
structure Grants (settings : Settings) (g : PreviewGrant) (d : Store) : Prop where
  revision : ∃ r ∈ d.rows.revisions, r.id = g.revisionId
  lifetime : g.expiresAt = g.createdAt + settings.previewTtlMs

theorem attemptedCases (result : Except AppError Store) (d : Store) (i : Input) :
    (attempted result d i).1 = d ∨ result = .ok (attempted result d i).1 := by
  unfold attempted
  cases i.rows.failure with
  | some error => exact .inl rfl
  | none =>
    cases result with
    | ok d' => exact .inr rfl
    | error error => exact .inl rfl

theorem attemptedOk {result : Except AppError Store} {d : Store} {i : Input} (ok : (attempted result d i).2 = .ok ()) :
    result = .ok (attempted result d i).1 := by
  unfold attempted at *
  cases failed : i.rows.failure with
  | some error => rw [failed] at ok; cases ok
  | none =>
    cases result with
    | ok d' => rfl
    | error error => rw [failed] at ok; cases ok

theorem attemptedFailed {result : Except AppError Store} {d : Store} {i : Input}
    (failed : (attempted result d i).2 ≠ .ok ()) :
    (attempted result d i).1 = d := by
  unfold attempted at *
  cases refused : i.rows.failure with
  | some error => rfl
  | none =>
    cases result with
    | ok d' => rw [refused] at failed; exact absurd rfl failed
    | error error => rfl

theorem inserted {grant : PreviewGrant} {d d' : Store} (ok : insertGrant grant d = .ok d') :
    (∀ g ∈ d.grants, g.id ≠ grant.id ∧ g.tokenHash ≠ grant.tokenHash) ∧
      d' = { d with grants := d.grants ++ [grant] } := by
  obtain ⟨_,fresh,ok⟩ := bindOk.mp ok
  cases ok
  refine ⟨fun g mem => ?_,rfl⟩
  have none := checkOk.mp fresh
  rw [Bool.not_eq_true',List.any_eq_false] at none
  simpa using none g mem

theorem appended {event : NewAuditEvent} {d d' : Store} (ok : appendEvent event d = .ok d') :
    d' = { d with rows := { d.rows with audit := d.rows.audit ++ [event] } } := by
  obtain ⟨rows,ok,same⟩ := bindOk.mp ok
  obtain ⟨_,-,grown⟩ := bindOk.mp ok
  cases same
  cases grown
  rfl

theorem keepGranted {settings : Settings} {grant : PreviewGrant} {d d' : Store} (granted : Granted settings d)
    (pre : Grants settings grant d) (ok : insertGrant grant d = .ok d') : Granted settings d' := by
  obtain ⟨fresh,rfl⟩ := inserted ok
  refine ⟨keysAppended granted.ids fun g mem => (fresh g mem).1,keysAppended granted.tokens fun g mem =>
    (fresh g mem).2,?_,?_⟩
  · intro g mem
    rcases List.mem_append.mp mem with old | new
    · exact granted.revisions g old
    · rw [List.mem_singleton.mp new]
      exact pre.revision
  · intro g mem
    rcases List.mem_append.mp mem with old | new
    · exact granted.lifetime g old
    · rw [List.mem_singleton.mp new]
      exact pre.lifetime

section

variable (settings : RouteSettings)

def Known (w : Write) (d : Store) : Prop :=
  match w with
  | .rows w => (rowsOutline settings.desk.rows).Pre w d.rows
  | .createGrant grant => Grants settings.desk grant d
  | .append event => event.type = .artifactDownloaded

def deskOutline : Outline (desk settings) anyScope where
  Inv d := (rowsOutline settings.desk.rows).Inv d.rows ∧ Granted settings.desk d
  Rel a b := (rowsOutline settings.desk.rows).Rel a.rows b.rows ∧ ∀ g ∈ a.grants, g ∈ b.grants
  Pre := Known settings
  refl d := ⟨(rowsOutline settings.desk.rows).refl d.rows,fun _ mem => mem⟩
  trans left right := ⟨(rowsOutline settings.desk.rows).trans left.1 right.1,fun g mem => right.2 g (left.2 g mem)⟩
  keep := by
    intro w d i inv pre _
    obtain ⟨rows,granted⟩ := inv
    cases w with
    | rows w =>
      obtain ⟨kept,later⟩ := (rowsOutline settings.desk.rows).keep i.rows rows pre trivial
      refine ⟨⟨kept,granted.ids,granted.tokens,fun g mem => ?_,granted.lifetime⟩,later,fun _ mem => mem⟩
      obtain ⟨r,listed,named⟩ := granted.revisions g mem
      exact ⟨r,later.2.final.revisions r listed,named⟩
    | createGrant grant =>
      rcases attemptedCases (insertGrant grant d) d i with same | ok
      · have same : ((desk settings).exec (.createGrant grant) d i).1 = d := same
        rw [same]
        exact ⟨⟨rows,granted⟩,(rowsOutline settings.desk.rows).refl d.rows,fun _ mem => mem⟩
      · have ok : insertGrant grant d = .ok ((desk settings).exec (.createGrant grant) d i).1 := ok
        have kept := keepGranted granted pre ok
        obtain ⟨-,same⟩ := inserted ok
        rw [same] at kept ⊢
        exact ⟨⟨rows,kept⟩,(rowsOutline settings.desk.rows).refl d.rows,fun _ mem => List.mem_append_left _ mem⟩
    | append event =>
      rcases attemptedCases (appendEvent event d) d i with same | ok
      · have same : ((desk settings).exec (.append event) d i).1 = d := same
        rw [same]
        exact ⟨⟨rows,granted⟩,(rowsOutline settings.desk.rows).refl d.rows,fun _ mem => mem⟩
      · have ok : appendEvent event d = .ok ((desk settings).exec (.append event) d i).1 := ok
        obtain ⟨kept,later⟩ := logDownload pre rows.1 rows.2
        rw [appended ok]
        exact ⟨⟨kept,granted.ids,granted.tokens,granted.revisions,granted.lifetime⟩,later,fun _ mem => mem⟩

theorem around : Around inset (rowsOutline settings.desk.rows) (deskOutline settings) where
  store _ _ _ := rfl
  answer _ _ _ := rfl
  inv h := h.1
  rel h := h.1
  pre _ h := h
  cond _ := trivial

end

/-! What the requests of the desk come to. -/

def DeskPast (a b : Envelope) : Prop := (Consistent a ∧ Kept a) ∧ Later a b ∧ Moved a b

section

variable {settings : RouteSettings}

theorem ensuresRows {α : Type} {p : UseCase α} {post : α → Envelope → Prop} {d : Store}
    (writes : Program.Writes Write.own p)
    (h : (deskExtension.outline settings.desk.rows).Ensures p post d.rows) :
    (deskOutline settings).Ensures (onRows p) (fun value d' => post value d'.rows) d :=
  ensuresInside (around settings) fun inv => holdsKnowing writes (h inv)

theorem ensuresObject {key : ObjectKey} {post : StoredBytes → Store → Prop} {d : Store}
    (h : ∀ stored d', (deskOutline settings).Past d d' → post stored d') :
    (deskOutline settings).Ensures (getObject key) post d := by
  refine ensuresBind ?_
  intro inv d₁ rel₁ inv₁ i
  refine ⟨inv₁,fun _ _ => ensuresBind (ensuresGet fun d₂ past₂ inv₂ j => ensuresLift fun stored _ => ?_)⟩
  exact h stored d₂ (Past.trans ⟨inv,rel₁⟩ past₂)

structure GrantOf (view : PreviewView) (revisionId : Id) (g : PreviewGrant) : Prop where
  id : g.id = view.grantId
  tokenHash : g.tokenHash = view.tokenHash
  expiresAt : g.expiresAt = view.expiresAt
  revisionId : g.revisionId = revisionId

theorem ensuresIssue {revision : DocumentRevision} {d : Store} (listed : revision ∈ d.rows.revisions) :
    (deskOutline settings).Ensures (issueGrant settings.desk revision)
      (fun view d' => (∃ g ∈ d'.grants, GrantOf view revision.id g) ∧ (deskOutline settings).Past d d' ∧
        (deskOutline settings).Inv d') d := by
  refine ensuresBind (ensuresGet fun d₁ past₁ inv₁ i => ?_)
  refine ensuresBind (ensuresGet fun d₂ past₂ inv₂ j => ?_)
  refine ensuresBind (ensuresGet fun d₃ past₃ inv₃ k => ?_)
  refine ensuresBind (ensuresPerform fun d₄ past₄ inv₄ => ?_)
  have past := past₁.trans (past₂.trans (past₃.trans past₄))
  refine ⟨⟨⟨revision,past.2.1.2.final.revisions _ listed,rfl⟩,rfl⟩,fun m ok last kept => ensuresPure
    ⟨?_,past.trans last,kept⟩⟩
  obtain ⟨-,same⟩ := inserted (attemptedOk ok)
  have same : ((desk settings).exec (.createGrant _) d₄ m).1 = _ := same
  rw [same]
  exact ⟨_,List.mem_append_right _ List.mem_cons_self,rfl,rfl,rfl,rfl⟩

theorem ensuresDocumentPreview (actor : AccountUserActor Id) (documentId : Id) {d : Store} :
    (deskOutline settings).Ensures (issueDocumentPreview settings.desk actor documentId) (fun view d' =>
      ∃ revisionId, ∃ g ∈ d'.grants, GrantOf view revisionId g) d := by
  refine ensuresBind (ensuresLift fun _ _ => ensuresBind (ensuresFind fun d₁ past₁ inv₁ document found => ?_))
  refine ensuresBind
    (ensuresLift fun revisionId current => ensuresBind (ensuresFind fun d₂ past₂ inv₂ revision row => ?_))
  exact ensuresMono (fun _ _ h => ⟨_,h.1⟩) (ensuresIssue (List.mem_of_find?_eq_some row))

theorem ensuresStream (grantId tokenHash : Id) {d : Store} :
    (deskOutline settings).Ensures (streamDocumentPreview settings.desk grantId tokenHash) (fun _ _ => True) d := by
  refine ensuresBind (ensuresGet fun _ _ _ _ => ensuresBind (ensuresLift fun grant _ => ?_))
  refine ensuresBind (ensuresGet fun _ _ _ _ => ensuresBind (ensuresEnsure fun _ => ?_))
  refine ensuresBind (ensuresFind fun _ _ _ revision _ => ensuresBind (ensuresObject fun stored _ _ => ?_))
  exact ensuresPure trivial

theorem ensuresDownload (actor : AccountUserActor Id) (documentId : Id) {d : Store} :
    (deskOutline settings).Ensures (downloadFinalizedArtifact settings.desk actor documentId) (fun _ _ => True) d := by
  refine ensuresBind (ensuresLift fun _ _ => ensuresBind (ensuresFind fun _ _ _ document _ => ?_))
  refine ensuresBind (ensuresEnsure fun _ => ensuresBind (ensuresFind fun _ _ _ artifact _ => ?_))
  refine ensuresBind (ensuresObject fun stored _ _ => ensuresBind (ensuresEnsure fun _ => ?_))
  refine ensuresBind (ensuresGet fun _ _ _ _ => ensuresBind (ensuresPerform fun _ _ _ => ?_))
  exact ⟨rfl,fun _ _ _ _ => ensuresPure trivial⟩

/-- The session was live, and was exchanged before. -/
structure Presented (l : LoadedSignerSession) (e : Envelope) : Prop where
  source : Loaded DeskPast l e
  running : l.session.status ≠ .completed
  exchanged : l.session.consumedAt.isSome = true

theorem ensuresLoadForQuery (tokenHash : Id) (accountUserId : Option Id) {d : Store} :
    (deskOutline settings).Ensures (loadForQuery settings.desk tokenHash accountUserId)
      (fun loaded d' => Presented loaded d'.rows) d := by
  refine ensuresBind (ensuresMono ?_ (ensuresRows (writesLoaded _) (ensuresLoaded rfl _)))
  rintro loaded d₁ ⟨source,running,exchanged⟩
  exact ensuresBind (ensuresLift fun _ _ => ensuresPure ⟨source,running rfl,exchanged⟩)

theorem ensuresQuery {α : Type} {tokenHash : Id} {accountUserId : Option Id} {f : LoadedSignerSession → DeskCase α}
    {d : Store}
    (rest : ∀ loaded d', (deskOutline settings).Ensures (f loaded) (fun _ _ => True) d') :
    (deskOutline settings).Ensures (loadForQuery settings.desk tokenHash accountUserId >>= f : DeskCase α)
    (fun _ _ => True) d :=
  ensuresBind (ensuresMono (fun loaded d' _ => rest loaded d') (ensuresLoadForQuery _ _))

theorem ensuresSignerSession (tokenHash : Id) (accountUserId : Option Id) {d : Store} :
    (deskOutline settings).Ensures (getSignerSession settings.desk tokenHash accountUserId) (fun _ _ => True) d :=
  ensuresQuery fun _ _ => ensuresBind (ensuresGet fun _ _ _ _ => ensuresPure trivial)

theorem ensuresSignerDocument (tokenHash : Id) (accountUserId : Option Id) {d : Store} :
    (deskOutline settings).Ensures (getSignerDocument settings.desk tokenHash accountUserId) (fun _ _ => True) d := by
  refine ensuresQuery fun loaded d₁ => ?_
  split
  · exact ensuresBind (ensuresPure (ensuresPure trivial))
  · exact ensuresBind (ensuresGet fun _ _ _ _ => ensuresPure trivial)

theorem ensuresSignerFields (tokenHash : Id) (accountUserId : Option Id) {d : Store} :
    (deskOutline settings).Ensures (getSignerFields settings.desk tokenHash accountUserId) (fun _ _ => True) d :=
  ensuresQuery fun _ _ => ensuresBind (ensuresGet fun _ _ _ _ => ensuresPure trivial)

theorem ensuresSignerConsent (tokenHash : Id) (accountUserId : Option Id) {d : Store} :
    (deskOutline settings).Ensures (getSignerConsent settings.desk tokenHash accountUserId) (fun _ _ => True) d :=
  ensuresQuery fun _ _ => ensuresBind (ensuresGet fun _ _ _ _ => ensuresPure trivial)

/-- The revision that was sent, which the signers are shown. -/
structure SentRevision (r : DocumentRevision) (e : Envelope) : Prop where
  only : sources e = [r]
  sent : e.document.signingRevisionId = some r.id
  accepted : e.document.inspectionStatus = .accepted
  plain : r.body.drawn = []

theorem sentRevision {e : Envelope} (kept : Kept e) (sent : e.sent = true) : ∃ r, SentRevision r e := by
  have extra := kept.shown.inspected
  obtain ⟨accepted,current⟩ := extra.accepted sent
  obtain ⟨r,only,-,signing⟩ := extra.source current
  have mem : r ∈ sources e := by rw [only]; exact List.mem_singleton_self r
  exact ⟨r,only,signing sent,accepted,kept.shown.plain r (sourceOf only).1 (of_decide_eq_true (List.mem_filter.mp mem).2)⟩

theorem sentLater {e e' : Envelope} {r : DocumentRevision} (h : SentRevision r e) (past : DeskPast e e')
    (kept : Kept e') :
    SentRevision r e' := by
  have sent : e'.sent = true := past.2.1.sent (by rw [h.sent]; rfl)
  obtain ⟨r',h'⟩ := sentRevision kept sent
  have same := sourceKept past.2.2.final.revisions h.only h'.only
  rw [same]
  exact h'

theorem shownSent {l : LoadedSignerSession} {e : Envelope} (h : Presented l e) (kept : Kept e) :
    ∃ r, SentRevision r e ∧ shownRevisionId l.document = some r.id := by
  obtain ⟨first,second,third,source,last⟩ := h.source
  have available := source.available.resolve_left h.running
  rw [source.document] at available
  have inv := source.later.2.1
  have sent : second.sent = true :=
    inv.2.shown.inspected.arranged.sent (signableSigning (by simpa using availableState available))
  obtain ⟨r,row⟩ := sentRevision inv.2 sent
  refine ⟨r,sentLater row ⟨inv,source.later.2.2.1.trans last.2.1,source.later.2.2.2.trans last.2.2⟩ kept,?_⟩
  rw [source.document,shownRevisionId,row.sent]
  rfl

theorem ensuresSignerPreview (tokenHash : Id) (accountUserId : Option Id) {d : Store} :
    (deskOutline settings).Ensures (issueSignerPreview settings.desk tokenHash accountUserId)
      (fun view d' => ∃ r, SentRevision r d'.rows ∧ ∃ g ∈ d'.grants, GrantOf view r.id g) d := by
  refine ensuresBind (ensuresMono ?_ (ensuresLoadForQuery _ _))
  intro loaded d₁ presented inv₁
  obtain ⟨r,sent,shown⟩ := shownSent presented inv₁.1.2
  revert inv₁
  refine ensuresBind (ensuresLift fun revisionId same => ensuresBind (ensuresFind fun d₂ past₂ inv₂ revision found => ?_))
  rw [shown] at same
  cases same
  have named : revision.id = r.id := by simpa using List.find?_some found
  have later := sentLater sent ((around settings).past past₂) inv₂.1.2
  refine ensuresMono ?_ (ensuresIssue (List.mem_of_find?_eq_some found))
  rintro view d₃ ⟨⟨g,listed,made⟩,past₃,inv₃⟩
  exact ⟨r,sentLater later ((around settings).past past₃) inv₃.1.2,g,listed,named ▸ made⟩

/-! The routes of a signer. -/

theorem ensuresCsrf (head : SignerHead) (token : Text) {post : Unit → Store → Prop} {d : Store}
    (h : ∀ d', (deskOutline settings).Past d d' → post () d') (now : post () d) :
    (deskOutline settings).Ensures (requireSignerCsrf settings head token) post d := by
  unfold requireSignerCsrf
  split
  · exact ensuresPure now
  · refine ensuresBind (ensuresGet fun d₁ past₁ inv₁ _ => ensuresBind (ensuresLift fun _ _ => ensuresLift fun _ _ => ?_))
    exact h d₁ past₁

theorem ensuresPost {α : Type} {head : SignerHead} {parsed : DeskCase α} {handler : Id → α → DeskCase SignerAnswer}
    {d : Store} (body : ∀ d', (deskOutline settings).Ensures parsed (fun _ _ => True) d')
    (rest : ∀ tokenHash value d', (deskOutline settings).Ensures (handler tokenHash value) (fun _ _ => True) d') :
    (deskOutline settings).Ensures (postRoute settings head parsed handler) (fun _ _ => True) d := by
  refine ensuresBind (ensuresBind (ensuresLift fun _ _ => ensuresBind (ensuresLift fun token _ => ?_)))
  have finish : ∀ d',
    (deskOutline settings).Ensures (parsed >>= handler (hashToken settings token) : DeskCase SignerAnswer)
      (fun _ _ => True) d' := fun d' => ensuresBind (ensuresMono (fun value d'' _ => rest _ value d'') (body d'))
  exact ensuresBind (ensuresCsrf head token (fun d' _ => ensuresPure (finish d')) (ensuresPure (finish d)))

theorem ensuresQueryRoute {head : SignerHead} {query : Id → DeskCase SignerAnswer} {d : Store}
    (rest : ∀ tokenHash, (deskOutline settings).Ensures (query tokenHash) (fun _ _ => True) d) :
    (deskOutline settings).Ensures (queryRoute settings head query) (fun _ _ => True) d :=
  ensuresBind (ensuresLift fun token _ => rest (hashToken settings token))

theorem ensuresBody {α : Type} {reason : String} {body : Option α} {d : Store} :
    (deskOutline settings).Ensures (parsedBody reason body) (fun _ _ => True) d := ensuresLift fun _ _ => trivial

theorem ensuresAnswer {α β : Type} {p : DeskCase α} {f : α → β} {d : Store} {post : α → Store → Prop}
    (h : (deskOutline settings).Ensures p post d) :
    (deskOutline settings).Ensures (p >>= fun value => pure (f value) : DeskCase β) (fun _ _ => True) d :=
  ensuresBind (ensuresMono (fun _ _ _ => ensuresPure trivial) h)

theorem ensuresSigning (head : SignerHead) (route : SigningRoute) {d : Store} :
    (deskOutline settings).Ensures (signingRoute settings head route) (fun _ _ => True) d := by
  refine ensuresBind ?_
  intro inv d₁ rel₁ inv₁ i
  refine ⟨inv₁,fun _ _ => ?_⟩
  cases route with
  | exchange body =>
    refine ensuresBind
      (ensuresLift fun _ _ => ensuresBind (ensuresLift fun _ _ => ensuresBind (ensuresLift fun token _ => ?_)))
    exact ensuresAnswer (ensuresRows (writesExchange _ _) (ensuresExchangeSigningToken rfl _ _))
  | session => exact ensuresQueryRoute fun _ => ensuresAnswer (ensuresSignerSession _ _)
  | document => exact ensuresQueryRoute fun _ => ensuresAnswer (ensuresSignerDocument _ _)
  | fields => exact ensuresQueryRoute fun _ => ensuresAnswer (ensuresSignerFields _ _)
  | consent => exact ensuresQueryRoute fun _ => ensuresAnswer (ensuresSignerConsent _ _)
  | previews => exact ensuresPost (fun _ => ensuresPure trivial) fun _ _ _ => ensuresAnswer (ensuresSignerPreview _ _)
  | viewed =>
    refine ensuresPost (fun _ => ensuresPure trivial) fun _ _ _ => ?_
    exact ensuresAnswer (ensuresRows (writesViewed _ _) (ensuresRecordSignerViewed rfl _ _))
  | recordConsent body =>
    refine ensuresPost (fun _ => ensuresBody) fun _ _ _ => ?_
    exact ensuresAnswer (ensuresRows (writesRecordSignerConsent _) (ensuresRecordSignerConsent rfl _))
  | decline body =>
    refine ensuresPost (fun _ => ensuresBody) fun _ _ _ => ?_
    exact ensuresAnswer (ensuresRows (writesDeclineToSign _) (ensuresDeclineToSign rfl _))
  | complete body =>
    refine ensuresPost (fun _ => ensuresBody) fun _ _ _ => ?_
    exact ensuresAnswer (ensuresRows (writesCompleteSigning _) (ensuresCompleteSigning rfl _))

theorem ensuresRequest (request : ESign.Request) {d : Store} :
    (deskOutline settings).Ensures (onRows (ESign.startRequest settings.desk.rows request)) (fun _ _ => True) d := by
  have rows : (deskExtension.outline settings.desk.rows).Ensures (ESign.startRequest settings.desk.rows request)
      (fun _ _ => True) d.rows := by
    intro inv
    have held := (deskExtension.outline settings.desk.rows).holdsInv (startsJustified rfl request d.rows inv) inv
    exact (deskExtension.outline settings.desk.rows).holdsMono (fun _ _ h => ⟨h.1,fun _ _ => trivial⟩) held
  exact ensuresRows (startsOwn request) rows

theorem deskHolds (request : Request) {d : Store} (inv : (deskOutline settings).Inv d) :
    (deskOutline settings).Holds ((desk settings).start request) (fun _ _ => True) d := by
  have ensured : (deskOutline settings).Ensures (startRequest settings request) (fun _ _ => True) d := by
    cases request with
    | rows request => exact ensuresAnswer (ensuresRequest request)
    | issuePreview actor documentId => exact ensuresAnswer (ensuresDocumentPreview actor documentId)
    | streamPreview grantId tokenHash => exact ensuresAnswer (ensuresStream grantId tokenHash)
    | downloadArtifact actor documentId => exact ensuresAnswer (ensuresDownload actor documentId)
    | signing head route => exact ensuresAnswer (ensuresSigning head route)
  exact ensuresHolds ensured inv

theorem deskStarts (request : Request) (d : Store) (_ : anyScope.allow request)
    (_ : (desk settings).admits d request = true)
    (inv : (deskOutline settings).Inv d) : (deskOutline settings).Holds ((desk settings).start request)
    (fun _ _ => True) d :=
  deskHolds request inv

theorem deskSound {draft : NewDraft} {c : Running} (run : Run (desk settings) anyScope (drafted draft) c) :
    (deskOutline settings).Sound c := by
  refine (runSound deskStarts (initialSound ?_) run).1
  exact ⟨⟨draftConsistent draft,draftKept draft⟩,List.nodup_nil,List.nodup_nil,List.forall_mem_nil _,List.forall_mem_nil
    _⟩

theorem deskAmid {inputs : Input → Prop} {c c' : Running} {own : List (Performed Write Store Input)} {request : Request}
    {value : Except AppError Answer} (sound : (deskOutline settings).Sound c)
    (run : Amid (desk settings) anyScope inputs c ((desk settings).start request) own value c') :
    (deskOutline settings).Sound c' ∧ (deskOutline settings).Rel c.store c'.store := by
  have held : (deskOutline settings).Holds ((desk settings).start request)
      (fun _ d => True ∧ (deskOutline settings).Rel c.store d) c.store :=
    (deskOutline settings).holdsKept (fun _ _ step first => (deskOutline settings).trans first step)
      (deskHolds request sound.inv) ((deskOutline settings).refl c.store)
  obtain ⟨sound',-,rel⟩ := amidHolds deskStarts (fun _ _ => trivial) sound held run
  exact ⟨sound',rel⟩

theorem deskLater {c c' : Running} (sound : (deskOutline settings).Sound c) (run : Run (desk settings) anyScope c c') :
    (deskOutline settings).Sound c' ∧ (deskOutline settings).Rel c.store c'.store := runSound deskStarts sound run

end

end ESign.Desk
