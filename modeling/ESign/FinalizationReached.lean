import ESign.FieldCommit
import ESign.Selection
import ESign.SigningProgress

/-! From signing to the artifact. As long as somebody has still to sign, the document can be
brought to its end from wherever any requests and jobs have left it: the pending signers are
visited in turn, and the job of the last of them finalizes. -/
namespace ESign
open StoreProgram StoreProgram.Fallible

structure Workable (e : Envelope) : Prop where
  inspected : Inspected e
  few : e.fields.length ≤ maxKeys
  current : ∀ id ∈ e.document.currentRevisionId, ∃ r ∈ e.revisions, r.id = id

theorem keepFew {w : Write} {i e e'} (few : e.fields.length ≤ maxKeys) (ok : w.run i e = .ok e')
    (done : Committed i e e' w) :
    e'.fields.length ≤ maxKeys := by
  rcases done.fields with same | ⟨u,rfl,h⟩ | ⟨u,rfl,h⟩ | ⟨u,rfl,h⟩ | ⟨u,rfl,h⟩
  · rw [same]
    exact few
  · exact h.fields.length_le.trans few
  · obtain ⟨e₁,-,ok⟩ := bindOk.mp ok
    obtain ⟨e₂,-,logged⟩ := bindOk.mp ok
    rw [h.fields]
    exact fieldsAppended.mp ⟨e',logged⟩
  · rw [← h.fields.length_eq]
    exact few
  · rw [h.fields]
    simpa [flattened] using few

theorem keepCurrent {w : Write} {i e e'} (current : ∀ id ∈ e.document.currentRevisionId, ∃ r ∈ e.revisions, r.id = id)
    (past : Justified InspectedBefore w e) (done : Committed i e e' w) :
    ∀ id ∈ e'.document.currentRevisionId, ∃ r ∈ e'.revisions, r.id = id := by
  rcases done.revisions with ⟨u,rfl,h⟩ | ⟨u,rfl,h⟩ | ⟨revisions,same⟩
  · intro id named
    rw [h.document] at named
    cases Option.some.inj named
    obtain ⟨atDocument,atRoster,atFields,found,taken,reread,atRevision,source,last⟩ := past
    rcases h.revisions with ⟨empty,same⟩ | ⟨grown,-⟩
    · rw [source.same empty,same]
      exact ⟨u.revision,last.2.2 _ (List.mem_of_find?_eq_some source.revision),rfl⟩
    · rw [grown]
      exact ⟨_,List.mem_append_right _ List.mem_cons_self,rfl⟩
  · intro id named
    rw [h.document] at named
    cases Option.some.inj named
    rw [h.revisions]
    exact ⟨_,List.mem_append_right _ List.mem_cons_self,rfl⟩
  · rw [revisions,same]
    exact current

theorem RevisionsKept.refl (e : Envelope) : RevisionsKept e e := fun _ mem => mem

theorem RevisionsKept.trans {a b c : Envelope} (left : RevisionsKept a b) (right : RevisionsKept b c) :
    RevisionsKept a c := fun r mem => right r (left r mem)

def workableExtension : Extension anyScope where
  Extra := Workable
  Also := RevisionsKept
  refl := RevisionsKept.refl
  trans := @RevisionsKept.trans
  keep inv extra past just _ ok done _ later := by
    have past : Justified InspectedBefore _ _ := past.weaken fun a b h => ⟨⟨h.1.1,h.1.2.inspected⟩,h.2⟩
    exact ⟨⟨keepInspected inv extra.inspected past just done ok later,keepFew extra.few ok done,
      keepCurrent extra.current past done⟩,keepRevisions done⟩

theorem draftWorkable (draft : NewDraft) : Workable (createDraftDocument draft) where
  inspected := draftInspected draft
  few := Nat.zero_le _
  current id named := by cases named

theorem Workable.signable {e : Envelope} (inv : Consistent e) (h : Workable e)
    (available : isAvailableForSigning e.document = true) :
    Signable e where
  signerIds := inv.signerIds
  sessionIds := inv.sessionIds
  fieldIds := h.inspected.arranged.fieldIds
  few := h.few
  revision := by
    have sent : e.sent = true := h.inspected.arranged.sent (signableSigning (by simpa using availableState available))
    obtain ⟨id,current⟩ := Option.isSome_iff_exists.mp (h.inspected.accepted sent).2
    rw [current]
    rfl
  available := available

/-! One visit of one signer. -/

/-- What becomes of the rows when a signer is visited and signs everything. -/
structure Visit (signer : Signer) (now : Date) (e e' : Envelope) : Prop where
  signers : e'.signers = act signer.id (signedRow now) e.signers
  fields : List.Forall₂ (FieldCompleted ((ownFields signer e).map SignatureField.id)) e.fields e'.fields
  inked : ∀ f ∈ e'.fields, f.signerId = signer.id → isInk f.type = true →
    (f.completion.bind FieldCompletion.completionObjectKey).isSome = true
  revisions : e'.revisions = e.revisions
  artifact : e'.artifact = e.artifact
  document : ∃ state version, e'.document = { e.document with state := state, version := version }
  last : (∀ s ∈ e.signers, s.id ≠ signer.id → s.status = .signed) → e'.document.state = .completed
  more : (∃ s ∈ e.signers, s.id ≠ signer.id ∧ s.status ≠ .signed) → e'.document.state = .inProgress
  job : ∃ event ∈ e'.outbox, ∃ session revisionId consent, event.payload =
    .flattenSignature signer.id session.id revisionId ∧
    SigningSessions.findById session.id e' = some session ∧ session.signerId = signer.id ∧
    ConsentRecords.findBySession session.id e' = some consent ∧
    consent.untrustedClientIp = none ∧ consent.untrustedUserAgent = none

theorem Signable.acted {e : Envelope} (h : Signable e) {u : CompleteUnit} {i : Input} {e' : Envelope}
    (loaded : u.loaded.document = e.document) (pending : u.loaded.signer ∈ e.signers)
    (open_ : u.loaded.signer.status = .pending)
    (roster : u.roster = Signers.listByDocument e) (effect : CompleteEffect u i e e') :
    e'.signers = act u.loaded.signer.id (signedRow u.now) e.signers ∧
    (∃ state version, e'.document = { e.document with state := state, version := version }) ∧
    ((∀ s ∈ e.signers, s.id ≠ u.loaded.signer.id → s.status = .signed) → e'.document.state = .completed) ∧
    ((∃ s ∈ e.signers, s.id ≠ u.loaded.signer.id ∧ s.status ≠ .signed) → e'.document.state = .inProgress) := by
  have seen : SawOthersSigned u ↔ ∀ s ∈ e.signers, s.id ≠ u.loaded.signer.id → s.status = .signed := by
    unfold SawOthersSigned
    rw [roster]
    simp only [mem_listByDocument]
  have signers : e'.signers = act u.loaded.signer.id (signedRow u.now) e.signers := by
    rcases effect.signers with ⟨-,row,mem,same,signed⟩ | ⟨acted,-⟩
    · rw [List.inj_on_of_nodup_map h.signerIds mem pending same,open_] at signed
      cases signed
    · exact acted
  refine ⟨signers,?_⟩
  rcases effect.document with ⟨done,-,-,moved⟩ | ⟨undone,-,-,-,moved⟩ | ⟨undone,unsent,moved⟩
  · refine ⟨⟨_,_,moved⟩,fun _ => by rw [moved],fun ⟨s,mem,other,unsigned⟩ => ?_⟩
    exact absurd (seen.mp (documentCompletedOk.mp done) s mem other) unsigned
  · refine ⟨⟨_,_,moved⟩,fun all => ?_,fun _ => by rw [moved]⟩
    rw [documentCompletedOk.mpr (seen.mpr all)] at undone
    cases undone
  · refine ⟨⟨_,_,moved⟩,fun all => ?_,fun _ => ?_⟩
    · rw [documentCompletedOk.mpr (seen.mpr all)] at undone
      cases undone
    · rw [loaded] at unsent
      rw [moved]
      exact (availableState h.available).resolve_left unsent

theorem inkedAfter {u : CompleteUnit} {i : Input} {e e' : Envelope} (ids : (e.fields.map SignatureField.id).Nodup)
    (selected : u.selected = ownFields u.loaded.signer e) (signature : u.signature.isSome = true)
    (initials : u.initials.isSome = true)
    (ok : u.run i e = .ok e') (effect : CompleteEffect u i e e') :
    ∀ f ∈ e'.fields, f.signerId = u.loaded.signer.id → isInk f.type = true →
      (f.completion.bind FieldCompletion.completionObjectKey).isSome = true := by
  intro f' mem' owner wanted
  obtain ⟨f,mem,row⟩ := forall₂Source effect.fields f' mem'
  have own : f ∈ u.selected := by
    rw [selected]
    refine List.mem_filter.mpr ⟨mem,decide_eq_true ?_⟩
    rw [row.kept] at owner
    exact owner
  have named : f'.id = f.id := by rw [row.kept]
  obtain ⟨g,found,same,completed⟩ := completedSelection ok f' mem' (by rw [named]; exact List.mem_map_of_mem own)
  have gMem : g ∈ e.fields := by
    rw [selected] at found
    exact List.mem_of_mem_filter found
  have equal : g = f := List.inj_on_of_nodup_map ids gMem mem (same.trans named)
  have type : f'.type = g.type := by rw [equal,row.kept]
  rw [completed]
  refine inkGiven (inkForFields.mpr ⟨fun _ => signature,fun _ => initials⟩) found ?_
  rw [← type]
  exact wanted

/-- Whatever moves a document on: nothing is withdrawn or prepared anew. -/
def Request.advances : Request → Bool
  | .rotateSigningSession _ _ => true
  | .exchangeSigningToken _ _ => true
  | .recordSignerConsent _ => true
  | .completeSigning _ => true
  | .flattenSignature _ _ => true
  | _ => false

/-- What the schema of the request asks of the fields that are signed. -/
def Request.accepted : Request → Bool
  | .completeSigning input => 1 ≤ input.fieldIds.length && input.fieldIds.length ≤ 200
  | _ => true

/-- Every signer has a field, and one request can name them all. -/
structure Assigned (e : Envelope) : Prop where
  own : ∀ s ∈ e.signers, ∃ f ∈ e.fields, f.signerId = s.id
  few : e.fields.length ≤ 200

/-- The requests are served at one instant, nothing fails around them, and each is answered. -/
structure Smooth (now : Date) (visits : List (Input × Request)) (answers : List (Except AppError (Option ResponseBody))) :
    Prop where
  supplied : ∀ v ∈ visits, v.1.now = now ∧ v.1.failure = none
  advances : ∀ v ∈ visits, v.2.advances = true
  accepted : ∀ v ∈ visits, v.2.accepted = true
  answered : ∀ answer ∈ answers, ∃ body, answer = .ok body

theorem Smooth.append {now : Date} {visits visits' : List (Input × Request)}
    {answers answers' : List (Except AppError (Option ResponseBody))} (left : Smooth now visits answers)
    (right : Smooth now visits' answers') : Smooth now (visits ++ visits') (answers ++ answers') where
  supplied v mem := (List.mem_append.mp mem).elim (left.supplied v) (right.supplied v)
  advances v mem := (List.mem_append.mp mem).elim (left.advances v) (right.advances v)
  accepted v mem := (List.mem_append.mp mem).elim (left.accepted v) (right.accepted v)
  answered a mem := (List.mem_append.mp mem).elim (left.answered a) (right.answered a)

theorem actIdsKept {signerId : Id} {now : Date} {rows : List Signer} :
    (act signerId (signedRow now) rows).map Signer.id = rows.map Signer.id := by
  unfold act
  rw [List.map_map]
  refine List.map_congr_left fun row _ => ?_
  simp only [Function.comp]
  split <;> rfl

theorem Assigned.accepted {settings : Settings} {e e' : Envelope} (h : Assigned e) (same : e'.fields = e.fields)
    {signer : Signer} (mem : signer ∈ e.signers) {tokenHash key : Id} {ink : Ink} :
    (Request.completeSigning (signAll settings tokenHash ((ownFields signer e').map SignatureField.id) ink key)).accepted =
      true := by
  obtain ⟨f,found,owner⟩ := h.own signer mem
  have some : f ∈ ownFields signer e' := by
    rw [ownFields,same]
    exact List.mem_filter.mpr ⟨found,decide_eq_true owner⟩
  have least : 1 ≤ (ownFields signer e').length := List.length_pos_of_mem some
  have most : (ownFields signer e').length ≤ 200 := by
    rw [ownFields,same]
    exact (List.length_filter_le _ _).trans h.few
  simp [Request.accepted,signAll,least,most]

theorem Assigned.visited {signer : Signer} {now : Date} {e e' : Envelope} (h : Assigned e) (visit : Visit signer now e e') :
    Assigned e' := by
  have prepared := completedPrepared visit.fields
  refine ⟨fun s mem => ?_,?_⟩
  · have named : s.id ∈ e.signers.map Signer.id := by
      rw [← @actIdsKept signer.id now,← visit.signers]
      exact List.mem_map_of_mem mem
    obtain ⟨row,old,same⟩ := List.mem_map.mp named
    obtain ⟨f,found,owner⟩ := h.own row old
    have kept : f.prepared ∈ e'.fields.map SignatureField.prepared := by
      rw [prepared]
      exact List.mem_map_of_mem found
    obtain ⟨f',found',equal⟩ := List.mem_map.mp kept
    exact ⟨f',found',(congrArg PreparedField.signerId equal).trans (owner.trans same)⟩
  · rw [← visit.fields.length_eq]
    exact h.few

section
variable {settings : Settings}

theorem servesOne (request : Request) {e e' : Envelope} {now : Date} {n pageCount : Nat} {body : Option ResponseBody}
    (admitted : admitRequest e request = true) (advances : request.advances = true) (accepted : request.accepted = true)
    (given : Gives Write.exec (suppliedAt now n pageCount) e (startRequest settings request) body e') :
    (esign settings).serve e [(suppliedAt now n pageCount,request)] = some (e',[.ok body]) ∧
      Smooth now [(suppliedAt now n pageCount,request)] [.ok body] := by
  refine ⟨serveOne admitted given,?_,?_,?_,?_⟩
  · rw [List.forall_mem_singleton]
    exact ⟨rfl,rfl⟩
  · rw [List.forall_mem_singleton]
    exact advances
  · rw [List.forall_mem_singleton]
    exact accepted
  · rw [List.forall_mem_singleton]
    exact ⟨body,rfl⟩

/- What a signing relies on, and what the settings have to allow. -/
variable (public_ : settings.requiresAccountAuth = false) (known : settings.currentDisclosure ∈ settings.disclosures)
  (lives : 0 < settings.sessionTtlMs)

include public_ known lives in
theorem visits {e : Envelope} (h : Signable e) (assigned : Assigned e) {signer : Signer} (mem : signer ∈ e.signers)
    (turn : canSignerActNow e.document.signingMode signer (Signers.listByDocument e) = true) (now : Date) (userId : Id)
    (ink : Ink) :
    ∃ visits e' answers, (esign settings).serve e visits = some (e',answers) ∧ visits.length = 4 ∧
    Smooth now visits answers ∧
      Visit signer now e e' := by
  obtain ⟨n,unused⟩ := unusedExists e
  obtain ⟨e₁,rotated,still₁,aside₁,found⟩ := rotates settings h mem unused now userId
  have h₁ := h.still still₁
  obtain ⟨n₁,unused₁⟩ := unusedExists e₁
  have issued : Presentable (newSession n signer.id n (now + settings.sessionTtlMs)) signer false now e₁ :=
    ⟨found,rfl,by rw [still₁.signers]; exact mem,rfl,rfl,lt_add_of_pos_right now lives⟩
  obtain ⟨e₂,session,exchanged,still₂,aside₂,id,-,presented⟩ := exchanges h₁ public_ unused₁ issued
  have h₂ := h₁.still still₂
  obtain ⟨n₂,unused₂⟩ := unusedExists e₂
  have unasked : ∀ r ∈ e₂.consents, r.sessionId ≠ session.id := by
    intro r listed
    rw [aside₂.consents,aside₁.consents] at listed
    rw [id]
    exact (unused.consents r listed).2.ne
  obtain ⟨e₃,consented,still₃,artifact₃,presented₃,consent⟩ := consents h₂ public_ known unused₂ presented unasked
  have h₃ := h₂.still still₃
  obtain ⟨n₃,unused₃⟩ := unusedExists e₃
  have toThird : Still e e₃ := still₁.trans (still₂.trans still₃)
  have turn₃ : canSignerActNow e₃.document.signingMode signer (Signers.listByDocument e₃) = true := by
    unfold Signers.listByDocument at turn ⊢
    rw [toThird.document,toThird.signers]
    exact turn
  obtain ⟨e₄,e₅,e',source,before,after,rows,artifact,ran,signed⟩ := signs h₃ public_ unused₃ presented₃ turn₃
    (by rw [consent]; rfl) ink
  have toFourth : Still e e₄ := toThird.trans before
  have h₄ := h.still toFourth
  have own : ownFields signer e₃ = ownFields signer e₄ := by
    unfold ownFields
    rw [before.fields]
  have roster : Signers.listByDocument e₃ = Signers.listByDocument e₄ := by
    unfold Signers.listByDocument
    rw [before.signers]
  have effect := completeEffect h₄.signerIds ran
  have acted := h₄.acted before.document.symm (by rw [toFourth.signers]; exact mem) (actorPending turn) roster effect
  have inked := inkedAfter h₄.fieldIds own rfl rfl ran effect
  obtain ⟨one,smooth₁⟩ := servesOne (.rotateSigningSession signer.id userId) rfl rfl rfl
    (givesBind rotated (givesPure none _))
  obtain ⟨two,smooth₂⟩ := servesOne (.exchangeSigningToken n none) rfl rfl rfl (givesBind exchanged (givesPure none _))
  obtain ⟨three,smooth₃⟩ := servesOne (.recordSignerConsent
    ⟨session.tokenHash,settings.currentDisclosure,true,none,none,none⟩) rfl rfl rfl (givesBind consented (givesPure none _))
  obtain ⟨four,smooth₄⟩ := servesOne (.completeSigning (signAll settings session.tokenHash
    ((ownFields signer e₃).map SignatureField.id) ink n₃)) rfl rfl (assigned.accepted toThird.fields mem)
    (givesBind signed (givesPure _ _))
  refine ⟨_,e',_,serveAppend one (serveAppend two (serveAppend three four)),rfl,
    smooth₁.append (smooth₂.append (smooth₃.append smooth₄)),?_⟩
  rw [toFourth.signers,toFourth.document] at acted
  obtain ⟨signers,document,last,more⟩ := acted
  refine
    { signers := after.signers.trans signers
      fields := ?_
      inked := by rw [after.fields]; exact inked
      revisions := after.revisions.trans (effect.revisions.trans toFourth.revisions)
      artifact := artifact.trans (artifact₃.trans (aside₂.artifact.trans aside₁.artifact))
      document := by rw [after.document]; exact document
      last := by rw [after.document]; exact last
      more := by rw [after.document]; exact more
      job := ?_ }
  · have fields := effect.fields
    rw [toFourth.fields,← after.fields] at fields
    have selected : ownFields signer e₃ = ownFields signer e := by
      unfold ownFields
      rw [toThird.fields]
    exact selected ▸ fields
  · obtain ⟨s,sMem,s₁⟩ := before.sessions.later session (List.mem_of_find?_eq_some presented₃.found)
    obtain ⟨t,tMem,s₂⟩ := effect.sessions.later s sMem
    obtain ⟨r,rMem,s₃⟩ := after.sessions.later t tMem
    have moved := s₁.trans (s₂.trans s₃)
    have ids : (e'.sessions.map SigningSession.id).Nodup := after.sessions.distinct
      (effect.sessions.distinct h₄.sessionIds)
    refine ⟨_,by rw [after.outbox,effect.outbox]; exact List.mem_append_right _ List.mem_cons_self,r,source,
      ⟨n₂,signer.id,session.id,settings.currentDisclosure,now,none,none⟩,?_,?_,?_,?_,rfl,rfl⟩
    · rw [moved.id]
      rfl
    · exact findsKeyed SigningSession.id ids rMem
    · rw [moved.signerId]
      exact presented₃.owner
    · rw [moved.id]
      unfold ConsentRecords.findBySession at consent ⊢
      rw [rows]
      exact consent

end

/-! All the visits. -/

def pendingCount (e : Envelope) : Nat := e.signers.countP (fun s => s.status = .pending)

theorem noneDeclined {e : Envelope} (inv : Consistent e) (available : isAvailableForSigning e.document = true) :
    ∀ s ∈ e.signers, s.status ≠ .declined := by
  intro s mem declined
  have running := inv.running (by rcases availableState available with state | state <;> rw [state] <;> decide)
  rw [inv.declined s mem declined] at running
  cases running

theorem someTurn {e : Envelope} (waiting : ∃ s ∈ e.signers, s.status = .pending) :
    ∃ signer ∈ e.signers, canSignerActNow e.document.signingMode signer (Signers.listByDocument e) = true := by
  obtain ⟨s,mem,pending⟩ := waiting
  cases mode : e.document.signingMode with
  | parallel => exact ⟨s,mem,by simp [canSignerActNow,pending]⟩
  | ordered =>
    have queue : ∃ s ∈ Signers.listByDocument e, s.status = .pending := ⟨s,mem_listByDocument.mpr mem,pending⟩
    obtain ⟨actor,actorMem,least⟩ := pendingLeast queue
    exact ⟨actor,mem_listByDocument.mp actorMem,(orderedTurnIff actorMem).mpr least⟩

theorem oneLess {rows : List Signer} {signer : Signer} (ids : (rows.map Signer.id).Nodup) (mem : signer ∈ rows)
    (pending : signer.status = .pending) (now : Date) :
    (act signer.id (signedRow now) rows).countP (fun s => s.status = .pending) + 1 =
      rows.countP (fun s => s.status = .pending) := by
  induction rows with
  | nil => cases mem
  | cons head rest ih =>
    rw [List.map_cons,List.nodup_cons] at ids
    unfold act at ih ⊢
    rw [List.map_cons,List.countP_cons,List.countP_cons]
    rcases List.mem_cons.mp mem with rfl | later
    · have others : rest.map (fun row => if row.id = signer.id then signedRow now row else row) = rest := by
        refine (List.map_congr_left fun row found => if_neg fun same => ids.1 ?_).trans (List.map_id _)
        rw [← same]
        exact List.mem_map_of_mem found
      rw [others,if_pos rfl]
      simp [pending,signedRow]
    · have away : head.id ≠ signer.id := fun same => ids.1 (by rw [same]; exact List.mem_map_of_mem later)
      rw [if_neg away]
      have := ih ids.2 later
      omega

/-- What the visits lead to: the last of them leaves a job that has all it needs. -/
structure Brought (e e' : Envelope) : Prop where
  signed : AllSigned e'.signers
  completed : e'.document.state = .completed
  document : ∃ state version, e'.document = { e.document with state := state, version := version }
  revisions : e'.revisions = e.revisions
  artifact : e'.artifact = e.artifact
  fields : e'.fields.map SignatureField.prepared = e.fields.map SignatureField.prepared
  ids : e'.signers.map Signer.id = e.signers.map Signer.id
  job : ∃ signer ∈ e'.signers, ∃ event ∈ e'.outbox, ∃ session revisionId consent,
    event.payload = .flattenSignature signer.id session.id revisionId ∧
    SigningSessions.findById session.id e' = some session ∧ session.signerId = signer.id ∧
    ConsentRecords.findBySession session.id e' = some consent ∧
    consent.untrustedClientIp = none ∧ consent.untrustedUserAgent = none ∧
    ∀ f ∈ e'.fields, f.signerId = signer.id → isInk f.type = true →
      (f.completion.bind FieldCompletion.completionObjectKey).isSome = true

theorem Visit.actor {signer : Signer} {now : Date} {e e' : Envelope} (h : Visit signer now e e')
    (mem : signer ∈ e.signers) :
    signedRow now signer ∈ e'.signers := by
  rw [h.signers]
  exact List.mem_map.mpr ⟨signer,mem,if_pos rfl⟩

theorem Visit.brought {signer : Signer} {now : Date} {e e' : Envelope} (h : Visit signer now e e')
    (mem : signer ∈ e.signers)
    (others : ∀ s ∈ e.signers, s.id ≠ signer.id → s.status = .signed) : Brought e e' where
  signed := by
    intro s found
    rw [h.signers] at found
    obtain ⟨row,old,rfl⟩ := List.mem_map.mp found
    split
    · rfl
    · rename_i other
      exact others row old other
  completed := h.last others
  document := h.document
  revisions := h.revisions
  artifact := h.artifact
  fields := completedPrepared h.fields
  ids := by rw [h.signers,actIdsKept]
  job := by
    obtain ⟨event,listed,session,revisionId,consent,payload,found,owner,consented,ip,agent⟩ := h.job
    exact ⟨_,h.actor mem,event,listed,session,revisionId,consent,payload,found,owner,consented,ip,agent,h.inked⟩

theorem Brought.after {signer : Signer} {now : Date} {e e₁ e' : Envelope} (first : Visit signer now e e₁)
    (rest : Brought e₁ e') :
    Brought e e' where
  signed := rest.signed
  completed := rest.completed
  document := by
    obtain ⟨state,version,later⟩ := rest.document
    obtain ⟨state₁,version₁,before⟩ := first.document
    exact ⟨state,version,by rw [later,before]⟩
  revisions := rest.revisions.trans first.revisions
  artifact := rest.artifact.trans first.artifact
  fields := rest.fields.trans (completedPrepared first.fields)
  ids := rest.ids.trans (by rw [first.signers,actIdsKept])
  job := rest.job

abbrev advancing : Scope Envelope Write Request := Scope.of (fun request => request.advances = true)

section
variable {settings : Settings} (public_ : settings.requiresAccountAuth = false)
  (known : settings.currentDisclosure ∈ settings.disclosures) (lives : 0 < settings.sessionTtlMs)

include public_ known lives in
/- By induction on the number of signers who have still to sign. The rows are sound again
after each visit, for a visit is a run like any other. -/
theorem visitsAll {c : Running} (sound : (workableExtension.outline settings).Sound c)
    (available : isAvailableForSigning c.store.document = true) (assigned : Assigned c.store) {n : Nat}
    (count : pendingCount c.store = n+1) (now : Date) :
    ∃ visits e' answers, (esign settings).serve c.store visits = some (e',answers) ∧ visits.length = 4*(n+1) ∧
      Smooth now visits answers ∧ Brought c.store e' := by
  induction n generalizing c with
  | zero =>
    have inv := sound.inv.1
    have h := sound.inv.2.signable inv available
    obtain ⟨signer,mem,turn⟩ := someTurn (e := c.store) (by
      obtain ⟨s,mem,pending⟩ := List.countP_pos_iff.mp (show 0 < pendingCount c.store by omega)
      exact ⟨s,mem,of_decide_eq_true pending⟩)
    obtain ⟨visits,e',answers,served,length,smooth,visit⟩ := visits public_ known lives h assigned mem turn now 0 ⟨0,1⟩
    refine ⟨visits,e',answers,served,length,smooth,visit.brought mem fun s listed other => ?_⟩
    have fewer := oneLess inv.signerIds mem (actorPending turn) now
    unfold pendingCount at count
    have none_ : (act signer.id (signedRow now) c.store.signers).countP (fun s => s.status = .pending) = 0 := by omega
    have kept : s ∈ act signer.id (signedRow now) c.store.signers := List.mem_map.mpr ⟨s,listed,if_neg other⟩
    have settled : s.status ≠ .pending := by simpa using List.countP_eq_zero.mp none_ s kept
    exact (acted_cases settled).resolve_right (noneDeclined inv available s listed)
  | succ n ih =>
    have inv := sound.inv.1
    have h := sound.inv.2.signable inv available
    obtain ⟨signer,mem,turn⟩ := someTurn (e := c.store) (by
      obtain ⟨s,mem,pending⟩ := List.countP_pos_iff.mp (show 0 < pendingCount c.store by omega)
      exact ⟨s,mem,of_decide_eq_true pending⟩)
    obtain ⟨first,e₁,answers₁,served₁,length₁,smooth₁,visit⟩ := visits public_ known lives h assigned mem turn now 0 ⟨0,1⟩
    have fewer := oneLess inv.signerIds mem (actorPending turn) now
    unfold pendingCount at count
    have left : pendingCount e₁ = n+1 := by
      unfold pendingCount
      rw [visit.signers]
      omega
    have reached : Run (esign settings) anyScope c _ := serveRun (fun _ _ => trivial) (fun _ _ => trivial) served₁
    have sound₁ := (workableExtension.runLater sound reached).1
    have unfinished : ∃ s ∈ c.store.signers, s.id ≠ signer.id ∧ s.status ≠ .signed := by
      obtain ⟨s,found,pending⟩ := List.countP_pos_iff.mp (show 0 < pendingCount e₁ by omega)
      rw [visit.signers] at found
      obtain ⟨row,listed,rfl⟩ := List.mem_map.mp found
      by_cases same : row.id = signer.id
      · rw [if_pos same] at pending
        cases of_decide_eq_true pending
      · rw [if_neg same] at pending
        exact ⟨row,listed,same,by rw [of_decide_eq_true pending]; exact SignerStatus.noConfusion⟩
    have available₁ : isAvailableForSigning e₁.document = true := by
      obtain ⟨state,version,document⟩ := visit.document
      have moved := visit.more unfinished
      have accepted : isInspectionAccepted c.store.document.inspectionStatus = true := by
        unfold isAvailableForSigning at available
        rw [Bool.and_eq_true] at available
        exact available.1
      unfold isAvailableForSigning
      rw [moved,document]
      simpa using accepted
    obtain ⟨rest,e',answers,served,length,smooth,brought⟩ := ih sound₁ available₁ (assigned.visited visit) left
    refine ⟨first ++ rest,e',answers₁ ++ answers,serveAppend served₁ served,?_,smooth₁.append smooth,.after visit brought⟩
    rw [List.length_append,length₁,length]
    omega

end

/-! The job of a signer, alone. -/

theorem drawable {input : FlattenInput} {pageCount : Nat} {list : List SignatureField}
    (owner : ∀ f ∈ list, f.signerId = input.signerId) (onPage : ∀ f ∈ list, assertFieldOnPage f.box pageCount = .ok ())
    (inked : ∀ f ∈ list, isInk f.type = true → (f.completion.bind FieldCompletion.completionObjectKey).isSome = true) :
    assertDrawable input pageCount list = .ok () := by
  induction list with
  | nil => rfl
  | cons field rest ih =>
    rw [List.forall_mem_cons] at owner onPage inked
    refine thenOk.mpr
      ⟨checkOk.mpr (decide_eq_true owner.1),thenOk.mpr ⟨?_,thenOk.mpr ⟨checkOk.mpr ?_,ih owner.2 onPage.2 inked.2⟩⟩⟩
    · rw [onPage.1]
      rfl
    · cases wanted : isInk field.type with
      | false => rfl
      | true => simpa using inked.1 wanted

theorem marksFlattened (revisionId : Id) {list : List SignatureField} {e : Envelope}
    (ids : (e.fields.map SignatureField.id).Nodup)
    (present : ∀ f ∈ list, f.id ∈ e.fields.map SignatureField.id) :
    ∃ rows, markAllFlattened revisionId list e = .ok { e with fields := rows } := by
  induction list generalizing e with
  | nil => exact ⟨e.fields,rfl⟩
  | cons field rest ih =>
    obtain ⟨row,mem,same⟩ := List.mem_map.mp (present field List.mem_cons_self)
    have updated := updatesOne (fun r : SignatureField => r.id = field.id)
      (fun r => { r with flattenedRevisionId := some revisionId }) SignatureFields.fieldNotFound ids mem
      (decide_eq_true same) (fun r _ hit => (of_decide_eq_true hit).trans same.symm)
    have keys : (updateMany (fun r : SignatureField => r.id = field.id)
        (fun r => { r with flattenedRevisionId := some revisionId }) e.fields).map SignatureField.id =
        e.fields.map SignatureField.id := updateManyKeys fun _ => rfl
    obtain ⟨rows,others⟩ := ih (e := { e with fields := _ }) (keys.symm ▸ ids)
      (fun f later => keys.symm ▸ present f (List.mem_cons_of_mem _ later))
    exact ⟨rows,bindOk.mpr ⟨_,bindOk.mpr ⟨_,updated,rfl⟩,others⟩⟩

theorem addsRevision {u : FlattenUnit} {e : Envelope}
    (fresh : ∀ row ∈ e.revisions, row.id ≠ u.revisionId ∨ u.loaded.pendingFields = [])
    (ids : (e.fields.map SignatureField.id).Nodup)
    (present : ∀ f ∈ u.loaded.pendingFields, f.id ∈ e.fields.map SignatureField.id) :
    ∃ revisions fields audit, u.addRevision e =
      .ok { e with revisions := revisions, fields := fields, audit := audit } := by
  unfold FlattenUnit.addRevision
  split
  · rename_i some_
    have created : Revisions.create ⟨u.revisionId,.intermediate,u.output,u.pageCount⟩ e =
        .ok { e with revisions := e.revisions ++ [⟨u.revisionId,.intermediate,u.output,u.pageCount⟩] } := by
      refine thenOk.mpr ⟨checkOk.mpr ?_,rfl⟩
      rw [Bool.not_eq_true',List.any_eq_false]
      intro row mem
      have other := (fresh row mem).resolve_right (List.length_pos_iff.mp some_)
      simpa using other
    obtain ⟨rows,marked⟩ := marksFlattened u.revisionId (e := { e with
      revisions := e.revisions ++ [⟨u.revisionId,.intermediate,u.output,u.pageCount⟩] }) ids present
    exact ⟨_,rows,_,bindOk.mpr ⟨_,created,bindOk.mpr ⟨_,marked,appends _ (by simp [PayloadValue.approved]) _⟩⟩⟩
  · exact ⟨e.revisions,e.fields,e.audit,rfl⟩

theorem flattenRuns {u : FlattenUnit} {e : Envelope}
    (fresh : ∀ row ∈ e.revisions, row.id ≠ u.revisionId ∨ u.loaded.pendingFields = [])
    (ids : (e.fields.map SignatureField.id).Nodup)
    (present : ∀ f ∈ u.loaded.pendingFields, f.id ∈ e.fields.map SignatureField.id)
    (version : e.document.version = u.leased.version) (owner : e.document.leaseOwner = some u.input.owner)
    (ip : u.loaded.consent.untrustedClientIp = none) (agent : u.loaded.consent.untrustedUserAgent = none) :
    ∃ e', u.run e = .ok e' := by
  obtain ⟨revisions,fields,audit,added⟩ := addsRevision fresh ids present
  have committed : Documents.commitFlattenedRevision u.leased.version u.input.owner u.revisionId u.finalize
      { e with revisions := revisions, fields := fields, audit := audit } = .ok _ := if_pos (by simp [version,owner])
  have final : ∀ e₂ : Envelope, ∃ e', u.addArtifact e₂ = .ok e' := by
    intro e₂
    have logged := appends u.finalized (by simp [FlattenUnit.finalized,finalizedPayload,PayloadValue.approved,ip,agent])
    unfold FlattenUnit.addArtifact
    split
    · unfold FlattenUnit.createArtifact
      split
      · exact ⟨_,bindOk.mpr ⟨_,rfl,logged _⟩⟩
      · rename_i missing
        have created : FinalizedArtifacts.create ⟨u.artifactId,u.output⟩ e₂ =
          .ok { e₂ with artifact := some ⟨u.artifactId,u.output⟩ } :=
          thenOk.mpr ⟨checkOk.mpr (by rw [missing]; rfl),rfl⟩
        exact ⟨_,bindOk.mpr ⟨_,created,logged _⟩⟩
    · exact ⟨e₂,rfl⟩
  obtain ⟨e',last⟩ := final _
  exact ⟨e',bindOk.mpr ⟨_,added,bindOk.mpr ⟨_,committed,last⟩⟩⟩

/-- A job of a completed document that finds all it needs. -/
structure JobReady (input : FlattenInput) (signer : Signer) (revision : DocumentRevision) (now : Date)
    (e : Envelope) : Prop where
  completed : e.document.state = .completed
  lapsed : ∀ t ∈ e.document.leaseUntil, t < now
  signed : AllSigned e.signers
  fieldIds : (e.fields.map SignatureField.id).Nodup
  actor : Signers.findById input.signerId e = some signer
  named : signer.id = input.signerId
  session : ∃ session, SigningSessions.findById input.sessionId e = some session ∧ session.signerId = signer.id ∧
    session.id = input.sessionId
  consent : ∃ consent, ConsentRecords.findBySession input.sessionId e = some consent ∧
    consent.untrustedClientIp = none ∧ consent.untrustedUserAgent = none
  current : e.document.currentRevisionId = some revision.id
  source : Revisions.findById revision.id e = some revision
  some_ : ∃ f ∈ e.fields, f.signerId = signer.id
  onPage : ∀ f ∈ e.fields, assertFieldOnPage f.box revision.pageCount = .ok ()
  inked : ∀ f ∈ e.fields, f.signerId = signer.id → isInk f.type = true →
    (f.completion.bind FieldCompletion.completionObjectKey).isSome = true

section
variable {settings : Settings}

theorem loadsWork {input : FlattenInput} {signer : Signer} {revision : DocumentRevision} {now : Date} {e : Envelope}
    {i : Input}
    (h : JobReady input signer revision now e) : ∃ consent signedAt, consent.untrustedClientIp = none ∧
      consent.untrustedUserAgent = none ∧ Gives Write.exec i e (loadAuthorizedWork input)
        (some ⟨e.document,revision,e.fields.filter (fun field => field.signerId = signer.id),signer.displayName,
          signedAt,true,consent⟩) e := by
  obtain ⟨session,found,owner,id⟩ := h.session
  obtain ⟨consent,consented,ip,agent⟩ := h.consent
  rw [← id] at consented
  have running : ¬ (e.document.state = .finalized ∧ e.artifact.isSome = true) := by
    rw [h.completed]
    exact fun final => by cases final.1
  have read : Revisions.findById (e.document.currentRevisionId.getD input.revisionId) e = some revision := by
    rw [h.current]
    exact h.source
  have fields : e.fields.filter (fun field => field.signerId = signer.id) ≠ [] := by
    obtain ⟨f,mem,own⟩ := h.some_
    exact List.ne_nil_of_mem (List.mem_filter.mpr ⟨mem,decide_eq_true own⟩)
  have everyone : allRequiredSigned (Signers.listByDocument e) = true :=
    allRequiredSignedOk.mpr fun s mem => h.signed s (mem_listByDocument.mp mem)
  refine ⟨consent,signer.completedAt.getD i.now,ip,agent,givesBind (givesGet _ e) (givesBind (givesGet _ e) ?_)⟩
  rw [if_neg running]
  refine givesBind (givesFind h.actor) (givesBind (givesFind found) (givesBind (givesEnsure (decide_eq_true owner)) ?_))
  refine givesBind (givesFind consented)
    (givesBind (givesFind read) (givesBind (givesGet _ e) (givesBind (givesGet _ e) ?_)))
  refine givesBind (givesEnsure (decide_eq_true fields)) (givesBind (givesGet _ e) ?_)
  rw [everyone]
  exact givesPure _ e

theorem draws {input : FlattenInput} (loaded : LoadedWork) {revision : DocumentRevision} {i : Input}
    (passed : i.failure = none)
    (able : assertDrawable input revision.pageCount loaded.pendingFields = .ok ()) (e : Envelope) :
    ∃ output, Gives Write.exec i e (outputOf input loaded revision) output e := by
  unfold outputOf
  split
  · exact ⟨_,givesBind (givesExternal passed e) (givesBind (givesLift able) (givesBind (givesExternal passed e)
      (givesBind (givesGet _ e) (givesPure _ e))))⟩
  · exact ⟨_,givesBind (givesExternal passed e) (givesPure _ e)⟩

theorem jobFinalizes (settings : Settings) {input : FlattenInput} {signer : Signer} {revision : DocumentRevision}
    {now : Date} {e : Envelope} {n : Nat}
    (h : JobReady input signer revision now e) (unused : Unused n e) (pageCount : Nat) :
    ∃ e', Gives Write.exec (suppliedAt now n pageCount) e (flattenSignature settings input) () e' ∧
      e'.document.state = .finalized ∧ e'.artifact.isSome = true ∧ e'.signers = e.signers := by
  obtain ⟨consent,signedAt,ip,agent,work⟩ := loadsWork (i := suppliedAt now n pageCount) h
  have free : Documents.leaseFree input.owner now e.document = true := by
    unfold Documents.leaseFree
    cases held : e.document.leaseUntil with
    | none => simp
    | some t => simp [h.lapsed t held]
  have leasable : Documents.leasable e.document.version input.owner now e.document = true := by
    simp [Documents.leasable,h.completed,free]
  have claimable : (if Documents.leasable e.document.version input.owner now e.document then some e.document else none) =
      some e.document := if_pos leasable
  have taken : ∃ e₁, Documents.takeLease e.document.version input.owner (now + settings.leaseMs) now e.document e =
    .ok e₁ :=
    ⟨_,if_pos (by simp [free])⟩
  obtain ⟨e₁,taken⟩ := taken
  have leased : TakeEffect input.owner e.document.version e.document e e₁ :=
    takeEffect (i := suppliedAt now n pageCount) taken
  have finalizing : e₁.document.state = .finalizing := by rw [leased.state,h.completed]; rfl
  have current : e₁.document.currentRevisionId = some revision.id := by rw [leased.document]; exact h.current
  have fields : e₁.fields = e.fields := by rw [leased.frame]
  have revisions : e₁.revisions = e.revisions := by rw [leased.frame]
  have signers : e₁.signers = e.signers := by rw [leased.frame]
  let loaded : LoadedWork :=
    ⟨e.document,revision,e.fields.filter (fun field => field.signerId = signer.id),signer.displayName,
    signedAt,true,consent⟩
  have pending : ∀ f ∈ loaded.pendingFields, f ∈ e.fields ∧ f.signerId = signer.id := by
    intro f mem
    obtain ⟨listed,own⟩ := List.mem_filter.mp (List.mem_of_mem_filter mem)
    exact ⟨listed,of_decide_eq_true own⟩
  have started : (Write.finalizationStarted input now).run (suppliedAt now n pageCount) e₁ = .ok _ :=
    appends _ (by simp [PayloadValue.approved]) e₁
  have source : Revisions.findById (e₁.document.currentRevisionId.getD loaded.revision.id) e₁ = some revision := by
    unfold Revisions.findById
    rw [current,revisions]
    exact h.source
  obtain ⟨output,drawn⟩ := draws loaded (i := suppliedAt now n pageCount) rfl (drawable
    (fun f mem => (pending f mem).2.trans h.named) (fun f mem => h.onPage f (pending f mem).1)
    (fun f mem => h.inked f (pending f mem).1 (pending f mem).2)) { e₁ with audit := e₁.audit ++ [_] }
  have fresh : ∀ row ∈ e₁.revisions, row.id ≠ (if 0 < loaded.pendingFields.length then n else revision.id) ∨
      loaded.pendingFields = [] := by
    intro row mem
    rw [revisions] at mem
    by_cases empty : loaded.pendingFields = []
    · exact .inr empty
    · rw [if_pos (List.length_pos_iff.mpr empty)]
      exact .inl (unused.revisions row mem).ne
  obtain ⟨e',ran⟩ := flattenRuns (u := ⟨input,loaded,e₁.document,revision,output.1,output.2,
      if 0 < loaded.pendingFields.length then n else revision.id,n+1,now⟩) (e := { e₁ with audit := e₁.audit ++ [_] })
    fresh (by rw [fields]; exact h.fieldIds)
    (fun f mem => by rw [fields]; exact List.mem_map_of_mem (pending f mem).1) rfl leased.leaseOwner ip agent
  have effect := flattenEffect ran
  refine ⟨e',?_,by rw [effect.document]; rfl,?_,effect.signers.trans signers⟩
  · refine givesBind work ?_
    show Gives _ _ _ (if e.document.state = .finalized then _ else _) _ _
    rw [if_neg (by rw [h.completed]; exact DocumentState.noConfusion)]
    have claimed : Gives Write.exec (suppliedAt now n pageCount) e
        (claimProcessingLease input e.document.version (now + settings.leaseMs) now) e₁.document e₁ :=
      givesBind (givesFind claimable)
        (givesBind (givesPerform (executes rfl taken)) (givesBind (givesExternal rfl e₁) (givesGet _ e₁)))
    refine givesBind (givesGet _ e) (givesBind (givesAttempt claimed) ?_)
    refine givesBind (givesWhen (decide_eq_true finalizing) (givesPerform (executes rfl started))) (givesAttempt ?_)
    refine givesBind (givesFind source) (givesBind drawn (givesBind (givesGet _ _) (givesBind (givesGet _ _) ?_)))
    exact givesBind (givesWhen rfl (givesExternal rfl _)) (givesAttempt (givesPerform (executes rfl ran)))
  · rw [effect.artifact]
    show Option.isSome (e₁.artifact <|> some _) = true
    cases e₁.artifact <;> rfl

end

section
variable {settings : Settings} {draft : NewDraft} {c : Running}

theorem workableRun (run : Run (esign settings) anyScope (drafted draft) c) :
    (workableExtension.outline settings).Sound c :=
  workableExtension.run ⟨draftConsistent draft,draftWorkable draft⟩ run

theorem pendingPositive {e : Envelope} (waiting : ∃ s ∈ e.signers, s.status = .pending) : ∃ n, pendingCount e = n+1 := by
  obtain ⟨s,mem,pending⟩ := waiting
  have positive : 0 < pendingCount e := List.countP_pos_iff.mpr ⟨s,mem,decide_eq_true pending⟩
  exact ⟨pendingCount e - 1,by omega⟩

/-- Whatever requests and jobs ran before, in whatever order, and wherever they stopped: a document
that can be signed and waits for somebody, every signer with a field to sign, is signed by all and
completed by four more requests for each signer who is pending, at any instant, each with the rows
to itself and acceptable to the API. -/
theorem signingNeverStuck (public_ : settings.requiresAccountAuth = false)
    (known : settings.currentDisclosure ∈ settings.disclosures) (lives : 0 < settings.sessionTtlMs)
    (run : Run (esign settings) anyScope (drafted draft) c) (available : isAvailableForSigning c.store.document = true)
    (waiting : ∃ s ∈ c.store.signers, s.status = .pending) (assigned : Assigned c.store) (now : Date) :
    ∃ visits e' answers, (esign settings).serve c.store visits = some (e',answers) ∧
      visits.length = 4 * pendingCount c.store ∧ Smooth now visits answers ∧
      AllSigned e'.signers ∧ e'.document.state = .completed ∧
      Run (esign settings) advancing c ⟨e',c.tasks ++ answers.map .done⟩ := by
  obtain ⟨n,count⟩ := pendingPositive waiting
  obtain ⟨visits,e',answers,served,length,smooth,brought⟩ := visitsAll public_ known lives
    (workableRun run) available assigned count now
  refine ⟨visits,e',answers,served,by rw [count,length],smooth,brought.signed,brought.completed,?_⟩
  exact serveRun (fun _ _ => trivial) smooth.advances served

/-- The same, up to the artifact: one job more finalizes, when the fields lie on the pages of the
current revision, no other job holds the lease at that instant, and the flattener, which is not
part of this model, takes the PDF and the images. -/
theorem finalizationReached (public_ : settings.requiresAccountAuth = false)
    (known : settings.currentDisclosure ∈ settings.disclosures) (lives : 0 < settings.sessionTtlMs)
    (run : Run (esign settings) anyScope (drafted draft) c) (available : isAvailableForSigning c.store.document = true)
    (waiting : ∃ s ∈ c.store.signers, s.status = .pending)
    (assigned : Assigned c.store)
    (onPage : ∀ r, loadRevision c.store.document c.store = some r →
      ∀ f ∈ c.store.fields, assertFieldOnPage f.box r.pageCount = .ok ())
    (now : Date) (lapsed : ∀ t ∈ c.store.document.leaseUntil, t < now) :
    ∃ visits e' answers, (esign settings).serve c.store visits = some (e',answers) ∧
      visits.length = 4 * pendingCount c.store + 1 ∧ Smooth now visits answers ∧
      AllSigned e'.signers ∧ e'.document.state = .finalized ∧ e'.artifact.isSome = true ∧
      Run (esign settings) advancing c ⟨e',c.tasks ++ answers.map .done⟩ := by
  obtain ⟨n,count⟩ := pendingPositive waiting
  have sound := workableRun run
  obtain ⟨visits,e₁,answers,served,length,smooth,brought⟩ := visitsAll public_ known lives sound available assigned count now
  have reached : Run (esign settings) anyScope c _ := serveRun (fun _ _ => trivial) (fun _ _ => trivial) served
  have sound₁ := (workableExtension.runLater sound reached).1
  have inv₁ := sound₁.inv.1
  have work₁ := sound₁.inv.2
  obtain ⟨state,version,document⟩ := brought.document
  have sent : e₁.sent = true := work₁.inspected.arranged.sent (by rw [brought.completed]; rfl)
  obtain ⟨id,current⟩ := Option.isSome_iff_exists.mp (work₁.inspected.accepted sent).2
  obtain ⟨revision,mem,rfl⟩ := work₁.current id current
  have source : Revisions.findById revision.id e₁ = some revision :=
    findsKeyed DocumentRevision.id work₁.inspected.ids mem
  have loadedBefore : loadRevision c.store.document c.store = some revision := by
    rw [document] at current
    unfold Revisions.findById at source
    rw [brought.revisions] at source
    unfold loadRevision Revisions.findById
    rw [show c.store.document.currentRevisionId = some revision.id from current]
    exact source
  have fieldBefore : ∀ f' ∈ e₁.fields, ∃ f ∈ c.store.fields, f.prepared = f'.prepared := by
    intro f' found
    have kept : f'.prepared ∈ c.store.fields.map SignatureField.prepared := by
      rw [← brought.fields]
      exact List.mem_map_of_mem found
    exact List.mem_map.mp kept
  obtain ⟨signer,signerMem,event,listed,session,revisionId,consent,payload,found,owner,consented,ip,agent,inked⟩ :=
    brought.job
  have ready : JobReady ⟨signer.id,session.id,revisionId,event.jobId,event.id,0⟩ signer revision now e₁ :=
    { completed := brought.completed
      lapsed := by rw [document]; exact lapsed
      signed := brought.signed
      fieldIds := work₁.inspected.arranged.fieldIds
      actor := findsKeyed Signer.id inv₁.signerIds signerMem
      named := rfl
      session := ⟨session,found,owner,rfl⟩
      consent := ⟨consent,consented,ip,agent⟩
      current := current
      source := source
      some_ := ?_
      onPage := ?_
      inked := inked }
  · obtain ⟨n₁,unused₁⟩ := unusedExists e₁
    obtain ⟨e',finalized,state',artifact,signers⟩ := jobFinalizes settings ready unused₁ 1
    have started : Gives Write.exec (suppliedAt now n₁ 1) e₁ (startRequest settings (.flattenSignature event 0)) none
      e' := by
      simp only [startRequest,payload]
      exact givesBind finalized (givesPure none e')
    obtain ⟨last,smooth₁⟩ := servesOne (.flattenSignature event 0) (decide_eq_true listed) rfl rfl started
    have all := serveAppend served last
    refine ⟨_,e',_,all,?_,smooth.append smooth₁,by rw [signers]; exact brought.signed,state',artifact,
      serveRun (fun _ _ => trivial) (smooth.append smooth₁).advances all⟩
    rw [List.length_append,length,count]
    rfl
  · have named : signer.id ∈ c.store.signers.map Signer.id := by
      rw [← brought.ids]
      exact List.mem_map_of_mem signerMem
    obtain ⟨row,old,same⟩ := List.mem_map.mp named
    obtain ⟨f,has,own⟩ := assigned.own row old
    have kept : f.prepared ∈ e₁.fields.map SignatureField.prepared := by
      rw [brought.fields]
      exact List.mem_map_of_mem has
    obtain ⟨f',has',equal⟩ := List.mem_map.mp kept
    exact ⟨f',has',(congrArg PreparedField.signerId equal).trans (own.trans same)⟩
  · intro f' has'
    obtain ⟨f,has,equal⟩ := fieldBefore f' has'
    have box : f.box = f'.box := congrArg PreparedField.box equal
    rw [← box]
    exact onPage revision loadedBefore f has

end

namespace ThreeSigners

/-- What the three signers need, read off the rows. -/
def readyCheck (e : Envelope) : Bool :=
  isAvailableForSigning e.document && e.signers.any (fun s => s.status = .pending) &&
    (e.signers.all (fun s => e.fields.any (fun f => f.signerId = s.id)) && decide (e.fields.length ≤ 200)) &&
    (loadRevision e.document e).all (fun r => e.fields.all (fun f => (assertFieldOnPage f.box r.pageCount).isOk)) &&
    e.document.leaseUntil.isNone

structure Waiting (e : Envelope) : Prop where
  available : isAvailableForSigning e.document = true
  pending : ∃ s ∈ e.signers, s.status = .pending
  assigned : Assigned e
  onPage : ∀ r, loadRevision e.document e = some r → ∀ f ∈ e.fields, assertFieldOnPage f.box r.pageCount = .ok ()
  free : e.document.leaseUntil = none

theorem okUnit {x : Except AppError Unit} (ok : x.isOk = true) : x = .ok () := by
  cases x with
  | ok value => rfl
  | error error => cases ok

theorem readyChecked {e : Envelope} (ok : readyCheck e = true) : Waiting e := by
  simp only [readyCheck,Bool.and_eq_true,List.any_eq_true,List.all_eq_true,decide_eq_true_eq] at ok
  obtain ⟨⟨⟨⟨available,pending⟩,own,few⟩,onPage⟩,free⟩ := ok
  refine ⟨available,pending,⟨own,few⟩,fun r found f mem => ?_,by simpa using free⟩
  rw [found] at onPage
  exact okUnit (List.all_eq_true.mp onPage f mem)

/-- The document was sent to three signers, and the first of them has signed. -/
def oneSigned : List (Action Input Request) :=
  consented .parallel ++ served 11 12 15 (complete 650 400 61) ++ served 12 13 21 (job 12 300 500 100)

set_option maxRecDepth 100000 in
theorem oneSignedRun : ∃ c, Run (esign settings) anyScope start c ∧ Waiting c.store := by
  have evaluated : ((esign settings).applyAll (fun _ _ => true) start oneSigned).map (fun c => readyCheck c.store) =
    some true := by
    decide +kernel
  obtain ⟨c,reached,ready⟩ := Option.map_eq_some_iff.mp evaluated
  exact ⟨c,runOfActions (fun _ _ => trivial) (fun _ _ _ => trivial) reached,readyChecked ready⟩

end ThreeSigners

theorem signedByThree : ∃ c visits e' answers, Run (esign ThreeSigners.settings) anyScope ThreeSigners.start c ∧
    (esign ThreeSigners.settings).serve c.store visits = some (e',answers) ∧ AllSigned e'.signers := by
  obtain ⟨c,run,waiting⟩ := ThreeSigners.oneSignedRun
  obtain ⟨visits,e',answers,served,-,-,signed,-⟩ := signingNeverStuck rfl (by decide) (by decide)
    run waiting.available waiting.pending waiting.assigned 5
  exact ⟨c,visits,e',answers,run,served,signed⟩

theorem finalizedForThree : ∃ c visits e' answers, Run (esign ThreeSigners.settings) anyScope ThreeSigners.start c ∧
    (esign ThreeSigners.settings).serve c.store visits = some (e',answers) ∧ e'.document.state = .finalized := by
  obtain ⟨c,run,waiting⟩ := ThreeSigners.oneSignedRun
  obtain ⟨visits,e',answers,served,-,-,-,final,-⟩ := finalizationReached rfl (by decide) (by decide)
    run waiting.available waiting.pending waiting.assigned waiting.onPage 5
      (by rw [waiting.free]; intro t held; cases held)
  exact ⟨c,visits,e',answers,run,served,final⟩

end ESign
