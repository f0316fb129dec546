import ESign.Effects
import ESign.UseCases

/-! Where the values of a write come from. A use case hands a unit of work what it
read at several earlier moments; the order of these reads is kept, and nothing
else is known of the store the unit finally meets. `past` relates a store to the
stores that come after it. -/
namespace ESign
open StoreProgram StoreProgram.Fallible StoreProgram.Outline

section

variable (past : Envelope → Envelope → Prop)

structure SessionSource (l : LoadedSignerSession) (first second third : Envelope) : Prop where
  session : l.session ∈ first.sessions
  live : l.session.status ≠ .revoked ∧ l.session.status ≠ .expired
  later : past first second ∧ past second third
  document : l.document = second.document
  available : l.session.status = .completed ∨ isAvailableForSigning l.document = true
  signer : Signers.findById l.session.signerId third = some l.signer

def Loaded (l : LoadedSignerSession) (e : Envelope) : Prop :=
  ∃ first second third, SessionSource past l first second third ∧ past third e

/-- The document as some earlier store had it. -/
def Read (document : Document) (e : Envelope) : Prop := ∃ first, document = first.document ∧ past first e

structure CompleteSource (u : CompleteUnit) (atRoster atFields atConsent : Envelope) : Prop where
  loaded : Loaded past u.loaded atRoster
  exchanged : u.loaded.session.consumedAt.isSome = true
  roster : u.roster = Signers.listByDocument atRoster
  turn : canSignerActNow u.loaded.document.signingMode u.loaded.signer u.roster = true
  later : past atRoster atFields
  selected : ∀ field ∈ u.selected, field ∈ atFields.fields ∧ field.signerId = u.loaded.signer.id
  ink : assertInkForFields u.selected u.signature.isSome u.initials.isSome = .ok ()
  toConsent : past atFields atConsent
  consent : (ConsentRecords.findBySession u.loaded.session.id atConsent).map ConsentRecord.consentCopyId =
    some u.consentCopyId

structure DeclineSource (u : DeclineUnit) (atRoster : Envelope) : Prop where
  loaded : Loaded past u.loaded atRoster
  active : u.loaded.session.status ≠ .completed
  turn : canSignerActNow u.loaded.document.signingMode u.loaded.signer (Signers.listByDocument atRoster) = true

structure ReplaceSignersSource (u : ReplaceSignersUnit) (e : Envelope) : Prop where
  document : Read past u.document e
  unlocked : isPreparationState u.document.state = true
  fresh : ∀ signer ∈ u.signers, signer.status = .pending

structure ReplaceFieldsSource (u : ReplaceFieldsUnit) (e : Envelope) : Prop where
  document : Read past u.document e
  unlocked : isPreparationState u.document.state = true
  fresh : ∀ field ∈ u.fields, field.completion = none ∧ field.flattenedRevisionId = none

/-- The bytes that were inspected are those of the revision that was current. -/
structure InspectSource (u : InspectUnit) (e : Envelope) : Prop where
  document : Read past u.document e
  pending : u.document.inspectionStatus = .pending
  current : u.document.currentRevisionId = some u.revisionId
  revision : ∃ atRevision revision, past atRevision e ∧ Revisions.findById u.revisionId atRevision = some revision ∧
    u.inspected = revision.body

structure SendSource (u : SendUnit) (atDocument atRoster : Envelope) (signers : List Signer) : Prop where
  document : u.document = atDocument.document
  unlocked : isPreparationState u.document.state = true
  accepted : u.document.inspectionStatus = .accepted
  current : u.document.currentRevisionId = some u.revisionId
  later : past atDocument atRoster
  roster : signers = Signers.listByDocument atRoster
  nonempty : signers ≠ []
  routing : assertSignerRouting u.document.signingMode (signers.map Signer.routingOrder) = .ok ()
  issued : ∀ session ∈ u.issued, session.status = .issued ∧ ∃ signer ∈ signers, session.signerId = signer.id
  unused : ∀ session ∈ u.issued, session.consumedAt = none

structure WorkSource (input : FlattenInput) (loaded : LoadedWork) (atDocument atRoster atFields : Envelope) : Prop where
  document : loaded.document = atDocument.document
  artifact : loaded.document.state = .finalized → ∃ atArtifact, past atDocument atArtifact ∧ atArtifact.artifact = none
  roster : loaded.allSignersComplete = allRequiredSigned (Signers.listByDocument atRoster)
  fields : loaded.signerFields = atFields.fields.filter (fun field => field.signerId = input.signerId)
  toRoster : past atDocument atRoster
  toFields : past atRoster atFields

/-- `found` is the store in which the row was found leasable, `taken` the store the
lease was written to, `reread` the store the document was read back from. -/
structure FlattenSource (u : FlattenUnit) (atDocument atRoster atFields found taken reread atRevision : Envelope) :
    Prop where
  work : WorkSource past u.input u.loaded atDocument atRoster atFields
  leasable : ∃ now, Documents.leasable u.loaded.document.version u.input.owner now found.document = true
  state : taken.document.state = Documents.leasedState found.document.state
  leased : u.leased = reread.document
  revision : Revisions.findById (u.leased.currentRevisionId.getD u.loaded.revision.id) atRevision = some u.revision
  output : u.output = ⟨u.revision.body.uploaded,
    u.revision.body.drawn ++ u.loaded.pendingFields.map u.loaded.appearance⟩
  same : u.loaded.pendingFields = [] → u.revisionId = u.revision.id
  toFound : past atFields found
  toTaken : past found taken
  toReread : past taken reread
  toRevision : past reread atRevision

/-- What a program knows of a write at the moment it is executed. -/
def Justified : Write → Envelope → Prop
  | .replaceSigners u, e => ReplaceSignersSource past u e
  | .replaceFields u, e => ReplaceFieldsSource past u e
  | .send u, e => ∃ atDocument atRoster signers, SendSource past u atDocument atRoster signers ∧ past atRoster e
  | .void u, e => Read past u.document e
  | .upload u, e => Read past u.document e ∧ u.document.state = .draft ∧ u.document.currentRevisionId = none ∧
      u.revision.kind = .source
  | .inspect u, e => InspectSource past u e
  | .rotate u, e => Read past u.document e ∧ isAvailableForSigning u.document = true
  | .exchange u, e => Loaded past u.loaded e
  | .complete u, e => ∃ atRoster atFields atConsent, CompleteSource past u atRoster atFields atConsent ∧ past atConsent e
  | .decline u, e => ∃ atRoster, DeclineSource past u atRoster ∧ past atRoster e
  | .takeLease input expectedVersion _ now current, e => Read past current e ∧
      Documents.leasable expectedVersion input.owner now current = true
  | .flatten u, e => ∃ atDocument atRoster atFields found taken reread atRevision,
      FlattenSource past u atDocument atRoster atFields found taken reread atRevision ∧ past atRevision e
  | .persist u, e => u.loaded.document.state = .finalized ∧ ∃ atDocument atArtifact, u.loaded.document = atDocument.document ∧
      past atDocument atArtifact ∧ atArtifact.artifact = none ∧ past atDocument e
  | _, _ => True

end

section

variable {past past' : Envelope → Envelope → Prop} (sub : ∀ a b, past a b → past' a b)

include sub

theorem Loaded.weaken {l e} (h : Loaded past l e) : Loaded past' l e := by
  obtain ⟨first,second,third,source,later⟩ := h
  exact ⟨first,second,third,⟨source.session,source.live,⟨sub _ _ source.later.1,sub _ _ source.later.2⟩,
    source.document,source.available,source.signer⟩,sub _ _ later⟩

theorem Read.weaken {document e} (h : Read past document e) : Read past' document e := by
  obtain ⟨first,same,later⟩ := h
  exact ⟨first,same,sub _ _ later⟩

theorem WorkSource.weaken {input loaded atDocument atRoster atFields}
    (h : WorkSource past input loaded atDocument atRoster atFields) :
    WorkSource past' input loaded atDocument atRoster atFields where
  document := h.document
  artifact := by
    intro final
    obtain ⟨atArtifact,later,missing⟩ := h.artifact final
    exact ⟨atArtifact,sub _ _ later,missing⟩
  roster := h.roster
  fields := h.fields
  toRoster := sub _ _ h.toRoster
  toFields := sub _ _ h.toFields

theorem Justified.weaken {w e} (h : Justified past w e) : Justified past' w e := by
  cases w with
  | replaceSigners u => exact ⟨h.document.weaken sub,h.unlocked,h.fresh⟩
  | replaceFields u => exact ⟨h.document.weaken sub,h.unlocked,h.fresh⟩
  | send u =>
    obtain ⟨atDocument,atRoster,signers,source,later⟩ := h
    exact ⟨atDocument,atRoster,signers,⟨source.document,source.unlocked,source.accepted,source.current,
      sub _ _ source.later,source.roster,source.nonempty,source.routing,source.issued,source.unused⟩,sub _ _ later⟩
  | void u => exact Read.weaken sub h
  | upload u => exact ⟨h.1.weaken sub,h.2⟩
  | inspect u =>
    obtain ⟨atRevision,revision,later,found,same⟩ := h.revision
    exact ⟨h.document.weaken sub,h.pending,h.current,atRevision,revision,sub _ _ later,found,same⟩
  | rotate u => exact ⟨h.1.weaken sub,h.2⟩
  | exchange u => exact Loaded.weaken sub h
  | complete u =>
    obtain ⟨atRoster,atFields,atConsent,source,later⟩ := h
    exact ⟨atRoster,atFields,atConsent,⟨source.loaded.weaken sub,source.exchanged,source.roster,source.turn,
      sub _ _ source.later,source.selected,source.ink,sub _ _ source.toConsent,source.consent⟩,sub _ _ later⟩
  | decline u =>
    obtain ⟨atRoster,source,later⟩ := h
    exact ⟨atRoster,⟨source.loaded.weaken sub,source.active,source.turn⟩,sub _ _ later⟩
  | takeLease input expectedVersion leaseUntil now current => exact ⟨h.1.weaken sub,h.2⟩
  | flatten u =>
    obtain ⟨atDocument,atRoster,atFields,found,taken,reread,atRevision,source,later⟩ := h
    refine ⟨atDocument,atRoster,atFields,found,taken,reread,atRevision,?_,sub _ _ later⟩
    exact
      { work := source.work.weaken sub
        leasable := source.leasable
        state := source.state
        leased := source.leased
        revision := source.revision
        output := source.output
        same := source.same
        toFound := sub _ _ source.toFound
        toTaken := sub _ _ source.toTaken
        toReread := sub _ _ source.toReread
        toRevision := sub _ _ source.toRevision }
  | persist u =>
    obtain ⟨final,atDocument,atArtifact,document,first,missing,second⟩ := h
    exact ⟨final,atDocument,atArtifact,document,sub _ _ first,missing,sub _ _ second⟩
  | _ => trivial

end

variable {settings : Settings} {scope : Scope Envelope Write Request} {o : Outline (esign settings) scope}

theorem pastRefl {e} (inv : o.Inv e) : o.Past e e := ⟨inv,o.refl e⟩

theorem Loaded.mono {l e e'} (h : Loaded o.Past l e) (next : o.Past e e') : Loaded o.Past l e' := by
  obtain ⟨first,second,third,source,later⟩ := h
  exact ⟨first,second,third,source,later.trans next⟩

theorem Read.mono {document e e'} (h : Read o.Past document e) (next : o.Past e e') : Read o.Past document e' := by
  obtain ⟨first,same,later⟩ := h
  exact ⟨first,same,later.trans next⟩

section

variable (pre : o.Pre = Justified o.Past)

theorem ensuresClock {post : Date → Envelope → Prop} {e} (h : ∀ e', o.Past e e' → o.Inv e' → ∀ now, post now e') :
    o.Ensures clock post e := ensuresGet (fun e' next inv i => h e' next inv i.now)

theorem ensuresExternal {post : Unit → Envelope → Prop} {e} (h : ∀ e', o.Past e e' → o.Inv e' → post () e') :
    o.Ensures external post e := by
  intro start e' rel inv i
  exact ⟨inv,fun _ _ => h e' ⟨start,rel⟩ inv⟩

include pre in
theorem ensuresWrite {w : Write} {post : Unit → Envelope → Prop} {e}
    (h : ∀ e', o.Past e e' → o.Inv e' → Justified o.Past w e')
    (after : ∀ e' e'' i, o.Past e e' → w.run i e' = .ok e'' → o.Past e' e'' → o.Inv e'' → post () e'') :
    o.Ensures (perform w) post e := by
  refine ensuresPerform (fun e' next inv => ⟨by rw [pre]; exact h e' next inv,fun i ok step kept => ?_⟩)
  exact after e' _ i next (Write.execOk ok) step kept

include pre in
theorem ensuresLast {w : Write} {e} (h : ∀ e', o.Past e e' → o.Inv e' → Justified o.Past w e') :
    o.Ensures (perform w) (fun _ _ => True) e := ensuresWrite pre h (fun _ _ _ _ _ _ _ => trivial)

include pre in
theorem ensuresRejectExpired {α : Type} {found : SigningSession} {post : α → Envelope → Prop} {e} :
    o.Ensures (rejectExpired found) post e := by
  refine ensuresBind (ensuresWhen (fun _ => ?_) (fun _ => ensuresFail))
  exact ensuresWrite pre (fun _ _ _ => trivial) (fun _ _ _ _ _ _ _ => ensuresFail)

include pre in
theorem ensuresLoaded (input : LoadSignerSessionInput) {e} :
    o.Ensures (loadSignerSession settings input)
      (fun l e' => Loaded o.Past l e' ∧ (input.allowCompleted = false → l.session.status ≠ .completed) ∧
        l.session.consumedAt.isSome = input.requireExchanged) e := by
  refine ensuresBind (ensuresFind (fun first _ inv₁ found mem => ?_))
  refine ensuresBind (ensuresClock (fun e₁ step₁ inv₁ now => ?_))
  refine ensuresBind (ensuresEnsure (fun live => ?_))
  refine ensuresBind (ensuresEnsure (fun completed => ?_))
  split
  · exact ensuresRejectExpired pre
  · refine ensuresBind (ensuresEnsure (fun exchanged => ?_))
    refine ensuresBind (ensuresGet (fun second step₂ inv₂ _ => ?_))
    refine ensuresBind (ensuresEnsure (fun available => ?_))
    refine ensuresBind (ensuresFind (fun third step₃ inv₃ signer row => ?_))
    refine ensuresBind (ensuresEnsure (fun _ => ensuresPure ?_))
    refine ⟨⟨first,second,third,?_,pastRefl inv₃⟩,?_,of_decide_eq_true exchanged⟩
    · exact
        { session := List.mem_of_find?_eq_some mem
          live := by simpa using live
          later := ⟨step₁.trans step₂,step₃⟩
          document := rfl
          available := by simpa using available
          signer := row }
    · intro refused
      simpa [refused] using completed

include pre in
theorem ensuresIdempotency (input : IdempotencyInput) {post : BegunIdempotency → Envelope → Prop} {e}
    (h : ∀ begun e', o.Past e e' → o.Inv e' → post begun e') :
    o.Ensures (replayOrBeginIdempotency settings input) post e := by
  refine ensuresBind (ensuresGet (fun e₁ step₁ inv₁ _ => ?_))
  split
  · refine ensuresBind (ensuresEnsure (fun _ => ?_))
    split
    · exact ensuresPure (h _ e₁ step₁ inv₁)
    · exact ensuresBind (ensuresEnsure (fun _ => ensuresPure (h _ e₁ step₁ inv₁)))
  · refine ensuresBind (ensuresGet (fun e₂ step₂ inv₂ _ => ?_))
    refine ensuresBind (ensuresWrite pre (fun _ _ _ => trivial) (fun e₃ e₄ _ step₃ _ step₄ inv₄ => ?_))
    exact ensuresPure (h _ e₄ (step₁.trans (step₂.trans (step₃.trans step₄))) inv₄)

theorem selectedFields {signerFields fieldIds selected} (ok : selectFields signerFields fieldIds = .ok selected) :
    ∀ field ∈ selected, field ∈ signerFields := by
  unfold selectFields at ok
  obtain ⟨_,_,ok⟩ := bindOk.mp ok
  obtain ⟨_,_,ok⟩ := bindOk.mp ok
  cases ok
  exact fun field mem => (List.mem_filter.mp mem).1

include pre in
theorem ensuresCompleteSigning (input : CompleteSigningInput) {e} :
    o.Ensures (completeSigning settings input) (fun _ _ => True) e := by
  refine ensuresBind (ensuresEnsure (fun _ => ?_))
  refine ensuresBind (ensuresMono ?_ (ensuresLoaded pre (sessionInput input)))
  rintro l e₀ ⟨loaded,-,exchanged⟩
  refine ensuresBind (ensuresGet (fun atRoster step₁ inv₁ _ => ?_))
  refine ensuresBind (ensuresGet (fun atFields step₂ inv₂ _ => ?_))
  split
  · exact ensuresPure trivial
  · refine ensuresBind (ensuresEnsure (fun turn => ?_))
    refine ensuresBind (ensuresGet (fun atConsent step₃ inv₃ _ => ?_))
    refine ensuresBind (ensuresEnsure (fun consented => ?_))
    refine ensuresBind (ensuresLift (fun selected ok => ?_))
    refine ensuresBind (ensuresLift (fun signature _ => ?_))
    refine ensuresBind (ensuresLift (fun initials _ => ?_))
    refine ensuresBind (ensuresLift (fun _ inked => ?_))
    refine ensuresBind (ensuresLift (fun key _ => ?_))
    refine ensuresBind (ensuresClock (fun e₄ step₄ inv₄ _ => ?_))
    refine ensuresBind (ensuresIdempotency pre _ (fun begun e₅ step₅ inv₅ => ?_))
    split
    · exact ensuresLift (fun _ _ => trivial)
    · refine ensuresBind (ensuresClock (fun e₆ step₆ inv₆ now => ?_))
      refine ensuresBind (ensuresExternal (fun e₇ step₇ inv₇ => ?_))
      refine ensuresBind (ensuresLift (fun sourceRevisionId _ => ?_))
      refine ensuresBind (ensuresWrite pre (fun e₈ step₈ inv₈ => ?_) (fun _ _ _ _ _ _ _ => ?_))
      · refine ⟨atRoster,atFields,atConsent,?_,step₄.trans (step₅.trans (step₆.trans (step₇.trans step₈)))⟩
        exact
          { loaded := loaded.mono step₁
            exchanged := exchanged
            roster := rfl
            turn := turn
            later := step₂
            selected := fun field mem => by simpa using List.mem_filter.mp (selectedFields ok field mem)
            ink := inked
            toConsent := step₃
            consent := of_decide_eq_true consented }
      · exact ensuresBind (ensuresWrite pre (fun _ _ _ => trivial) (fun _ _ _ _ _ _ _ => ensuresPure trivial))

include pre in
theorem ensuresDeclineToSign (input : DeclineToSignInput) {e} :
    o.Ensures (declineToSign settings input) (fun _ _ => True) e := by
  refine ensuresBind (ensuresMono ?_ (ensuresLoaded pre _))
  rintro l e₀ ⟨loaded,open_,-⟩
  refine ensuresBind (ensuresGet (fun atRoster step₁ inv₁ _ => ?_))
  refine ensuresBind (ensuresEnsure (fun turn => ?_))
  split
  · exact ensuresPure trivial
  · refine ensuresBind (ensuresEnsure (fun _ => ?_))
    refine ensuresBind (ensuresLift (fun _ _ => ?_))
    refine ensuresBind (ensuresClock (fun e₂ step₂ inv₂ _ => ?_))
    refine ensuresLast pre (fun e₃ step₃ _ => ⟨atRoster,?_,step₂.trans step₃⟩)
    exact { loaded := loaded.mono step₁, active := open_ rfl, turn := turn }

include pre in
theorem ensuresRecordSignerViewed (tokenHash : Id) (accountUserId : Option Id) {e} :
    o.Ensures (recordSignerViewed settings tokenHash accountUserId) (fun _ _ => True) e := by
  refine ensuresBind (ensuresMono (fun l e₀ _ => ?_) (ensuresLoaded pre _))
  exact ensuresBind (ensuresClock (fun _ _ _ _ => ensuresLast pre (fun _ _ _ => trivial)))

include pre in
theorem ensuresRecordSignerConsent (input : RecordSignerConsentInput) {e} :
    o.Ensures (recordSignerConsent settings input) (fun _ _ => True) e := by
  refine ensuresBind (ensuresEnsure (fun _ => ?_))
  refine ensuresBind (ensuresEnsure (fun _ => ?_))
  refine ensuresBind (ensuresEnsure (fun _ => ?_))
  refine ensuresBind (ensuresMono (fun l e₀ _ => ?_) (ensuresLoaded pre _))
  refine ensuresBind (ensuresGet (fun _ _ _ _ => ?_))
  split
  · exact ensuresPure trivial
  · refine ensuresBind (ensuresClock (fun _ _ _ _ => ?_))
    exact ensuresBind (ensuresGet (fun _ _ _ _ => ensuresLast pre (fun _ _ _ => trivial)))

include pre in
theorem ensuresExchangeSigningToken (tokenHash : Id) (accountUserId : Option Id) {e} :
    o.Ensures (exchangeSigningToken settings tokenHash accountUserId) (fun _ _ => True) e := by
  refine ensuresBind (ensuresMono ?_ (ensuresLoaded pre _))
  rintro l e₀ ⟨loaded,-⟩
  refine ensuresBind (ensuresClock (fun e₁ step₁ inv₁ _ => ?_))
  refine ensuresBind (ensuresGet (fun e₂ step₂ inv₂ _ => ?_))
  exact ensuresLast pre (fun e₃ step₃ _ => loaded.mono (step₁.trans (step₂.trans step₃)))

include pre in
theorem ensuresResolveSigningSession (tokenHash : Id) {e} :
    o.Ensures (resolveSigningSession tokenHash) (fun _ _ => True) e := by
  refine ensuresBind (ensuresFind (fun _ _ _ session _ => ?_))
  refine ensuresBind (ensuresEnsure (fun _ => ?_))
  refine ensuresBind (ensuresClock (fun _ _ _ _ => ?_))
  have finish : ∀ e', o.Ensures (do
      let document ← get (fun e _ => e.document)
      ensure (isAvailableForSigning document) documentNotSignable : UseCase Unit) (fun _ _ => True) e' :=
    fun _ => ensuresBind (ensuresGet (fun _ _ _ _ => ensuresEnsure (fun _ => trivial)))
  split
  · exact ensuresRejectExpired pre
  · refine ensuresBind (ensuresWhen (fun _ => ?_) (fun _ => finish _))
    exact ensuresWrite pre (fun _ _ _ => trivial) (fun _ _ _ _ _ _ _ => finish _)

include pre in
theorem ensuresRotateSigningSession (signerId userId : Id) {e} :
    o.Ensures (rotateSigningSession settings signerId userId) (fun _ _ => True) e := by
  refine ensuresBind (ensuresGet (fun e₁ step₁ inv₁ _ => ?_))
  refine ensuresBind (ensuresEnsure (fun available => ?_))
  refine ensuresBind (ensuresFind (fun e₂ step₂ inv₂ signer _ => ?_))
  refine ensuresBind (ensuresClock (fun e₃ step₃ inv₃ _ => ?_))
  refine ensuresBind (ensuresGet (fun e₄ step₄ inv₄ _ => ?_))
  refine ensuresBind (ensuresGet (fun e₅ step₅ inv₅ _ => ?_))
  refine ensuresBind (ensuresWrite pre (fun e₆ step₆ inv₆ => ?_)
    (fun _ _ _ _ _ _ _ => ensuresExternal (fun _ _ _ => trivial)))
  exact ⟨⟨e₁,rfl,step₂.trans (step₃.trans (step₄.trans (step₅.trans step₆)))⟩,available⟩

include pre in
theorem ensuresRevokeSigningSession (sessionId userId : Id) {e} :
    o.Ensures (revokeSigningSession sessionId userId) (fun _ _ => True) e := by
  refine ensuresBind (ensuresFind (fun _ _ _ session _ => ?_))
  exact ensuresBind (ensuresClock (fun _ _ _ _ => ensuresLast pre (fun _ _ _ => trivial)))

theorem readyToSend {document} (ok : assertReadyToSend document = .ok ()) :
    isPreparationState document.state = true ∧ document.inspectionStatus = .accepted := by
  obtain ⟨_,first,ok⟩ := bindOk.mp ok
  obtain ⟨_,_,accepted⟩ := bindOk.mp ok
  exact ⟨checkOk.mp first,of_decide_eq_true (checkOk.mp accepted)⟩

theorem loadedRevision {document : Document} {revision e} (found : loadRevision document e = some revision) :
    document.currentRevisionId = some revision.id := by
  obtain ⟨revisionId,current,row⟩ := Option.bind_eq_some_iff.mp found
  have named : revision.id = revisionId := by simpa using List.find?_some row
  rw [current,named]

theorem preparedSigners {document signers fields} (ok : envelopeIsPrepared document signers fields = true) :
    signers ≠ [] ∧ assertSignerRouting document.signingMode (signers.map Signer.routingOrder) = .ok () := by
  unfold envelopeIsPrepared at ok
  split at ok
  · cases ok
  · split at ok
    · cases ok
    · rename_i some
      refine ⟨fun none => some (.inl (by rw [none]; exact Nat.zero_lt_one)),?_⟩
      obtain ⟨routing,-⟩ := Bool.and_eq_true_iff.mp ok
      cases routed : assertSignerRouting document.signingMode (signers.map Signer.routingOrder) with
      | ok _ => rfl
      | error error => rw [routed] at routing; cases routing

theorem issuedSessions {now i signers} : ∀ session ∈ issueSessions settings now i signers,
    session.status = .issued ∧ ∃ signer ∈ signers, session.signerId = signer.id := by
  intro session mem
  obtain ⟨row,found,rfl⟩ := List.mem_map.mp mem
  exact ⟨rfl,row.1,(List.mem_zipIdx' found).2 ▸ List.getElem_mem _,rfl⟩

theorem issuedUnused {now i signers} : ∀ session ∈ issueSessions settings now i signers, session.consumedAt = none := by
  intro session mem
  obtain ⟨row,-,rfl⟩ := List.mem_map.mp mem
  rfl

include pre in
theorem ensuresSendDocument (input : SendDocumentInput) {e} :
    o.Ensures (sendDocument settings input) (fun _ _ => True) e := by
  refine ensuresBind (ensuresLift (fun key _ => ?_))
  refine ensuresBind (ensuresClock (fun _ _ _ _ => ?_))
  refine ensuresBind (ensuresIdempotency pre _ (fun begun _ _ _ => ?_))
  split
  · exact ensuresLift (fun _ _ => trivial)
  · refine ensuresBind (ensuresGet (fun atDocument _ inv₁ _ => ?_))
    refine ensuresBind (ensuresLift (fun _ ready => ?_))
    refine ensuresBind (ensuresFind (fun e₂ step₂ inv₂ revision found => ?_))
    refine ensuresBind (ensuresGet (fun atRoster step₃ inv₃ _ => ?_))
    refine ensuresBind (ensuresGet (fun e₄ step₄ inv₄ _ => ?_))
    refine ensuresBind (ensuresEnsure (fun prepared => ?_))
    refine ensuresBind (ensuresClock (fun e₅ step₅ inv₅ now => ?_))
    refine ensuresBind (ensuresLift (fun expiresAt _ => ?_))
    refine ensuresBind (ensuresGet (fun e₆ step₆ inv₆ i => ?_))
    refine ensuresBind (ensuresWrite pre (fun e₇ step₇ inv₇ => ?_) (fun _ _ _ _ _ _ _ => ?_))
    · refine ⟨atDocument,atRoster,Signers.listByDocument atRoster,?_,step₄.trans (step₅.trans (step₆.trans step₇))⟩
      exact
        { document := rfl
          unlocked := (readyToSend ready).1
          accepted := (readyToSend ready).2
          current := loadedRevision found
          later := step₂.trans step₃
          roster := rfl
          nonempty := (preparedSigners prepared).1
          routing := (preparedSigners prepared).2
          issued := issuedSessions
          unused := issuedUnused }
    · refine ensuresBind (ensuresExternal (fun _ _ _ => ?_))
      exact ensuresBind (ensuresWrite pre (fun _ _ _ => trivial) (fun _ _ _ _ _ _ _ => ensuresPure trivial))

include pre in
theorem ensuresVoidDocument (userId : Id) (idempotencyKey : Option Id) {e} :
    o.Ensures (voidDocument settings userId idempotencyKey) (fun _ _ => True) e := by
  refine ensuresBind (ensuresLift (fun key _ => ?_))
  refine ensuresBind (ensuresClock (fun _ _ _ _ => ?_))
  refine ensuresBind (ensuresIdempotency pre _ (fun begun _ _ _ => ?_))
  split
  · exact ensuresLift (fun _ _ => trivial)
  · refine ensuresBind (ensuresGet (fun e₁ step₁ inv₁ _ => ?_))
    refine ensuresBind (ensuresLift (fun _ _ => ?_))
    refine ensuresBind (ensuresClock (fun e₂ step₂ inv₂ _ => ?_))
    refine ensuresBind (ensuresWrite pre (fun e₃ step₃ inv₃ => ⟨e₁,rfl,step₂.trans step₃⟩) (fun _ _ _ _ _ _ _ => ?_))
    exact ensuresBind (ensuresWrite pre (fun _ _ _ => trivial) (fun _ _ _ _ _ _ _ => ensuresPure trivial))

theorem mapMForall {α β : Type} {f : α → Except AppError β} {P : β → Prop} (each : ∀ x y, f x = .ok y → P y)
    {xs : List α} {ys : List β} (ok : xs.mapM f = .ok ys) : ∀ y ∈ ys, P y := by
  induction xs generalizing ys with
  | nil => cases ok; simp
  | cons x xs ih =>
    rw [List.mapM_cons] at ok
    obtain ⟨y,first,ok⟩ := bindOk.mp ok
    obtain ⟨rest,tail,ok⟩ := bindOk.mp ok
    cases ok
    intro z mem
    rcases List.mem_cons.mp mem with rfl | mem
    · exact each x z first
    · exact ih tail z mem

theorem signersPending {existingIds i rows signers} (ok : toSigners settings existingIds i rows = .ok signers) :
    ∀ signer ∈ signers, signer.status = .pending := by
  refine mapMForall (fun row signer built => ?_) ok
  obtain ⟨_,_,built⟩ := bindOk.mp built
  obtain ⟨_,_,built⟩ := bindOk.mp built
  obtain ⟨_,_,built⟩ := bindOk.mp built
  cases built
  rfl

theorem fieldsOpen {signerIds i rows fields} (ok : toFields signerIds i rows = .ok fields) :
    ∀ field ∈ fields, field.completion = none ∧ field.flattenedRevisionId = none := by
  refine mapMForall (fun row field built => ?_) ok
  obtain ⟨_,_,built⟩ := bindOk.mp built
  obtain ⟨_,_,built⟩ := bindOk.mp built
  cases built
  exact ⟨rfl,rfl⟩

theorem unlockedState {document} (ok : assertPreparationUnlocked document = .ok ()) :
    isPreparationState document.state = true := by
  simpa [assertPreparationUnlocked,isPreparationLocked] using ok

include pre in
theorem ensuresReplaceDocumentSigners (input : ReplaceSignersInput) {e} :
    o.Ensures (replaceDocumentSigners settings input) (fun _ _ => True) e := by
  refine ensuresBind (ensuresGet (fun e₁ step₁ inv₁ _ => ?_))
  refine ensuresBind (ensuresLift (fun _ unlocked => ?_))
  refine ensuresBind (ensuresClock (fun e₂ step₂ inv₂ _ => ?_))
  refine ensuresBind (ensuresGet (fun e₃ step₃ inv₃ _ => ?_))
  refine ensuresBind (ensuresGet (fun e₄ step₄ inv₄ _ => ?_))
  refine ensuresBind (ensuresLift (fun signers drawn => ?_))
  refine ensuresBind (ensuresLift (fun _ _ => ?_))
  refine ensuresBind (ensuresEnsure (fun _ => ?_))
  refine ensuresLast pre (fun e₅ step₅ inv₅ => ?_)
  exact
    { document := ⟨e₁,rfl,step₂.trans (step₃.trans (step₄.trans step₅))⟩
      unlocked := unlockedState unlocked
      fresh := signersPending drawn }

include pre in
theorem ensuresReplaceDocumentFields (input : ReplaceFieldsInput) {e} :
    o.Ensures (replaceDocumentFields input) (fun _ _ => True) e := by
  refine ensuresBind (ensuresGet (fun e₁ step₁ inv₁ _ => ?_))
  refine ensuresBind (ensuresLift (fun _ unlocked => ?_))
  refine ensuresBind (ensuresFind (fun e₂ step₂ inv₂ revision _ => ?_))
  refine ensuresBind (ensuresGet (fun e₃ step₃ inv₃ _ => ?_))
  refine ensuresBind (ensuresEnsure (fun _ => ?_))
  refine ensuresBind (ensuresClock (fun e₄ step₄ inv₄ _ => ?_))
  refine ensuresBind (ensuresGet (fun e₅ step₅ inv₅ _ => ?_))
  refine ensuresBind (ensuresLift (fun fields drawn => ?_))
  refine ensuresBind (ensuresLift (fun _ _ => ?_))
  refine ensuresBind (ensuresLift (fun _ _ => ?_))
  refine ensuresLast pre (fun e₆ step₆ inv₆ => ?_)
  exact
    { document := ⟨e₁,rfl,step₂.trans (step₃.trans (step₄.trans (step₅.trans step₆)))⟩
      unlocked := unlockedState unlocked
      fresh := fieldsOpen drawn }

include pre in
theorem ensuresCompleteSourceUpload (input : CompleteSourceUploadInput) {e} :
    o.Ensures (completeSourceUpload input) (fun _ _ => True) e := by
  refine ensuresBind (ensuresFind (fun _ _ _ session _ => ?_))
  refine ensuresBind (ensuresClock (fun _ _ _ _ => ?_))
  split
  · exact ensuresPure trivial
  · refine ensuresBind (ensuresEnsure (fun _ => ?_))
    refine ensuresBind (ensuresEnsure (fun _ => ?_))
    refine ensuresBind (ensuresLift (fun _ _ => ?_))
    refine ensuresBind (ensuresGet (fun e₁ step₁ inv₁ _ => ?_))
    refine ensuresBind (ensuresEnsure (fun draft => ?_))
    refine ensuresBind (ensuresEnsure (fun empty => ?_))
    refine ensuresBind (ensuresExternal (fun e₂ step₂ inv₂ => ?_))
    refine ensuresBind (ensuresGet (fun e₃ step₃ inv₃ _ => ?_))
    refine ensuresBind (ensuresGet (fun e₄ step₄ inv₄ _ => ?_))
    refine ensuresLast pre (fun e₅ step₅ inv₅ => ?_)
    exact ⟨⟨e₁,rfl,step₂.trans (step₃.trans (step₄.trans step₅))⟩,of_decide_eq_true draft,of_decide_eq_true empty,rfl⟩

include pre in
theorem ensuresAbandonAll (now : Date) (expired : List UploadSession) {e} :
    o.Ensures (abandonAll now expired) (fun _ _ => True) e := by
  induction expired generalizing e with
  | nil => exact ensuresPure trivial
  | cons session rest ih => exact ensuresBind (ensuresWrite pre (fun _ _ _ => trivial) (fun _ _ _ _ _ _ _ => ih))

include pre in
theorem ensuresCleanupAbandonedUploads {e} : o.Ensures cleanupAbandonedUploads (fun _ _ => True) e := by
  refine ensuresBind (ensuresClock (fun _ _ _ _ => ?_))
  exact ensuresBind (ensuresGet (fun _ _ _ _ => ensuresAbandonAll pre _ _))

include pre in
theorem ensuresInspectDocument (revisionId jobId : Id) {e} :
    o.Ensures (inspectDocument revisionId jobId) (fun _ _ => True) e := by
  refine ensuresBind (ensuresGet (fun e₁ step₁ inv₁ _ => ?_))
  split
  · exact ensuresPure trivial
  · rename_i pending
    refine ensuresBind (ensuresEnsure (fun current => ?_))
    refine ensuresBind (ensuresFind (fun e₂ step₂ inv₂ revision row => ?_))
    refine ensuresBind (ensuresExternal (fun e₃ step₃ inv₃ => ?_))
    refine ensuresBind (ensuresGet (fun e₄ step₄ inv₄ _ => ?_))
    refine ensuresBind (ensuresEnsure (fun same => ?_))
    refine ensuresBind (ensuresExternal (fun e₅ step₅ inv₅ => ?_))
    refine ensuresBind (ensuresGet (fun e₆ step₆ inv₆ _ => ?_))
    refine ensuresBind (ensuresClock (fun e₇ step₇ inv₇ _ => ?_))
    refine ensuresLast pre (fun e₈ step₈ inv₈ => ?_)
    have later := step₃.trans (step₄.trans (step₅.trans (step₆.trans (step₇.trans step₈))))
    exact
      { document := ⟨e₁,rfl,step₂.trans later⟩
        pending := by simpa using pending
        current := of_decide_eq_true current
        revision := ⟨e₂,revision,later,row,of_decide_eq_true same⟩ }

theorem ensuresWorkFrom (input : FlattenInput) {e} :
    o.Ensures (loadAuthorizedWork input) (fun work e' =>
      (work = none → ∃ atDocument, o.Past e atDocument ∧ atDocument.document.state = .finalized ∧ o.Past atDocument e') ∧
      ∀ loaded, work = some loaded → ∃ atDocument atRoster atFields, o.Past e atDocument ∧
        WorkSource o.Past input loaded atDocument atRoster atFields ∧ o.Past atFields e') e := by
  refine ensuresBind (ensuresGet (fun atDocument step₁ inv₁ _ => ?_))
  refine ensuresBind (ensuresGet (fun atArtifact step₂ inv₂ _ => ?_))
  split
  · rename_i finished
    exact ensuresPure ⟨fun _ => ⟨atDocument,step₁,finished.1,step₂⟩,fun _ same => by cases same⟩
  · rename_i unfinished
    refine ensuresBind (ensuresFind (fun e₃ step₃ inv₃ signer row => ?_))
    refine ensuresBind (ensuresFind (fun e₄ step₄ inv₄ session _ => ?_))
    refine ensuresBind (ensuresEnsure (fun _ => ?_))
    refine ensuresBind (ensuresFind (fun e₅ step₅ inv₅ consent _ => ?_))
    refine ensuresBind (ensuresFind (fun e₆ step₆ inv₆ revision _ => ?_))
    refine ensuresBind (ensuresGet (fun atRoster step₇ inv₇ _ => ?_))
    refine ensuresBind (ensuresGet (fun atFields step₈ inv₈ _ => ?_))
    refine ensuresBind (ensuresEnsure (fun _ => ?_))
    refine ensuresBind (ensuresClock (fun e₉ step₉ inv₉ now => ensuresPure ⟨fun same => (by cases same),?_⟩))
    rintro loaded ⟨⟩
    have named : signer.id = input.signerId := by simpa using List.find?_some row
    refine ⟨atDocument,atRoster,atFields,step₁,?_,step₉⟩
    exact
      { document := rfl
        artifact := fun final => ⟨atArtifact,step₂,by simpa using fun some => unfinished ⟨final,some⟩⟩
        roster := rfl
        fields := by rw [named]
        toRoster := step₂.trans (step₃.trans (step₄.trans (step₅.trans (step₆.trans step₇))))
        toFields := step₈ }

theorem ensuresWork (input : FlattenInput) {e} :
    o.Ensures (loadAuthorizedWork input) (fun work e' => ∀ loaded, work = some loaded →
      ∃ atDocument atRoster atFields, WorkSource o.Past input loaded atDocument atRoster atFields ∧
        o.Past atFields e') e := by
  refine ensuresMono (fun work e' source loaded same => ?_) (ensuresWorkFrom input)
  obtain ⟨atDocument,atRoster,atFields,-,work,later⟩ := source.2 loaded same
  exact ⟨atDocument,atRoster,atFields,work,later⟩

theorem takenLease {input expectedVersion leaseUntil now current i e e'}
    (ok : (Write.takeLease input expectedVersion leaseUntil now current).run i e = .ok e') :
    e'.document.state = Documents.leasedState current.state := by
  simp only [Write.run,Documents.takeLease,updateDocument] at ok
  split at ok <;> try contradiction
  cases ok
  rfl

include pre in
theorem ensuresClaim (input : FlattenInput) (expectedVersion : Nat) (leaseUntil now : Date) {e} :
    o.Ensures (claimProcessingLease input expectedVersion leaseUntil now) (fun leased e' => ∃ found taken,
      Documents.leasable expectedVersion input.owner now found.document = true ∧
      taken.document.state = Documents.leasedState found.document.state ∧ leased = e'.document ∧
      o.Past e found ∧ o.Past found taken ∧ o.Past taken e' ∧ o.Inv e') e := by
  refine ensuresBind (ensuresFind (fun found step₁ inv₁ current row => ?_))
  split at row <;> try contradiction
  rename_i leasable
  cases Option.some.inj row
  refine ensuresBind (ensuresWrite pre (fun e₂ step₂ inv₂ => ⟨⟨found,rfl,step₂⟩,leasable⟩)
    (fun e₂ taken i step₂ ok step₃ inv₃ => ?_))
  refine ensuresBind (ensuresExternal (fun e₄ step₄ inv₄ => ?_))
  refine ensuresGet (fun e₅ step₅ inv₅ _ => ?_)
  exact ⟨found,taken,leasable,takenLease ok,rfl,step₁,step₂.trans step₃,step₄.trans step₅,inv₅⟩

theorem ensuresOutput (input : FlattenInput) (loaded : LoadedWork) (revision : DocumentRevision)
    {post : Pdf × Nat → Envelope → Prop} {e}
    (h : ∀ output e', o.Past e e' → o.Inv e' → output.1 =
      ⟨revision.body.uploaded,revision.body.drawn ++ loaded.pendingFields.map loaded.appearance⟩ → post output e') :
    o.Ensures (outputOf input loaded revision) post e := by
  unfold outputOf
  split
  · refine ensuresBind (ensuresExternal (fun e₁ step₁ inv₁ => ?_))
    refine ensuresBind (ensuresLift (fun _ _ => ?_))
    refine ensuresBind (ensuresExternal (fun e₂ step₂ inv₂ => ?_))
    refine ensuresBind (ensuresGet (fun e₃ step₃ inv₃ _ => ensuresPure ?_))
    exact h _ e₃ (step₁.trans (step₂.trans step₃)) inv₃ rfl
  · rename_i empty
    have none : loaded.pendingFields = [] := by simpa using empty
    refine ensuresBind (ensuresExternal (fun e₁ step₁ inv₁ => ensuresPure ?_))
    exact h _ e₁ step₁ inv₁ (by simp [none])

include pre in
theorem ensuresDrawAndCommit {input : FlattenInput} {loaded : LoadedWork} {now}
    {atDocument atRoster atFields found taken reread e : Envelope}
    (work : WorkSource o.Past input loaded atDocument atRoster atFields)
    (leasable : Documents.leasable loaded.document.version input.owner now found.document = true)
    (state : taken.document.state = Documents.leasedState found.document.state)
    (toFound : o.Past atFields found) (toTaken : o.Past found taken) (toReread : o.Past taken reread)
    (toStart : o.Past reread e) :
    o.Ensures (drawAndCommit input loaded reread.document)
      (fun _ e' => loaded.allSignersComplete = true → e'.document.state = .finalized) e := by
  refine ensuresBind (ensuresFind (fun atRevision step₁ inv₁ revision row => ?_))
  refine ensuresBind (ensuresOutput input loaded revision (fun output e₂ step₂ inv₂ drawn => ?_))
  refine ensuresBind (ensuresGet (fun e₃ step₃ inv₃ i => ?_))
  refine ensuresBind (ensuresClock (fun e₄ step₄ inv₄ occurredAt => ?_))
  have commit : ∀ e₅, o.Past e₄ e₅ → o.Ensures (attempt (perform (.flatten
      ⟨input,loaded,reread.document,revision,output.1,output.2,
        if 0 < loaded.pendingFields.length then i.ids 0 else revision.id,i.ids 1,occurredAt⟩))
      (fun error => fail (commitError error)))
      (fun _ e' => loaded.allSignersComplete = true → e'.document.state = .finalized) e₅ := by
    intro e₅ step₅
    refine ensuresAttempt (ensuresWrite pre (fun e₆ step₆ inv₆ => ?_) (fun _ _ _ _ ok _ _ final => ?_))
      (fun _ _ => ensuresFail)
    swap
    · rw [(flattenEffect ok).document]
      exact if_pos final
    refine ⟨atDocument,atRoster,atFields,found,taken,reread,atRevision,?_,
      step₂.trans (step₃.trans (step₄.trans (step₅.trans step₆)))⟩
    exact
      { work := work
        leasable := ⟨now,leasable⟩
        state := state
        leased := rfl
        revision := row
        output := drawn
        same := fun none => by rw [if_neg (by simp [none])]
        toFound := toFound
        toTaken := toTaken
        toReread := toReread
        toRevision := toStart.trans step₁ }
  exact ensuresBind (ensuresWhen (fun _ => ensuresExternal (fun e₅ step₅ inv₅ => commit e₅ step₅))
    (fun _ => commit e₄ (pastRefl inv₄)))

include pre in
theorem ensuresRecordFailure (input : FlattenInput) (error : AppError) {post : Unit → Envelope → Prop} {e} :
    o.Ensures (recordFailure input error) post e := by
  unfold recordFailure
  split
  · exact ensuresBind (ensuresWrite pre (fun _ _ _ => trivial) (fun _ _ _ _ _ _ _ => ensuresFail))
  · refine ensuresBind (ensuresWrite pre (fun _ _ _ => trivial) (fun _ _ _ _ _ _ _ => ?_))
    refine ensuresBind (ensuresExternal (fun _ _ _ => ?_))
    refine ensuresBind (ensuresClock (fun _ _ _ _ => ?_))
    exact ensuresBind (ensuresWrite pre (fun _ _ _ => trivial) (fun _ _ _ _ _ _ _ => ensuresFail))

include pre in
theorem ensuresPersist {input : FlattenInput} {loaded : LoadedWork} {atDocument atRoster atFields e : Envelope}
    (work : WorkSource o.Past input loaded atDocument atRoster atFields) (finalized : loaded.document.state = .finalized)
    (read : o.Past atDocument e) :
    o.Ensures (persistMissingFinalArtifact input loaded) (fun _ _ => True) e := by
  obtain ⟨atArtifact,later,missing⟩ := work.artifact finalized
  refine ensuresBind (ensuresExternal (fun e₁ step₁ inv₁ => ?_))
  refine ensuresBind (ensuresGet (fun e₂ step₂ inv₂ _ => ?_))
  refine ensuresBind (ensuresClock (fun e₃ step₃ inv₃ _ => ?_))
  refine ensuresAttempt (ensuresLast pre (fun e₄ step₄ inv₄ => ?_)) (fun _ _ => ensuresFail)
  exact ⟨finalized,atDocument,atArtifact,work.document,later,missing,
    read.trans (step₁.trans (step₂.trans (step₃.trans step₄)))⟩

/-- What a job does once it has claimed the lease and read the row back. -/
def afterClaim (input : FlattenInput) (loaded : LoadedWork) (now : Date) (leased : Document) : UseCase Unit := do
  Fallible.when (leased.state = .finalizing) (Fallible.perform (.finalizationStarted input now))
  Fallible.attempt (drawAndCommit input loaded leased) (recordFailure input)

include pre in
theorem ensuresAfterClaim {input : FlattenInput} {loaded : LoadedWork} {now started : Date}
    {atDocument atRoster atFields found taken reread : Envelope}
    (work : WorkSource o.Past input loaded atDocument atRoster atFields)
    (leasable : Documents.leasable loaded.document.version input.owner now found.document = true)
    (state : taken.document.state = Documents.leasedState found.document.state)
    (toFound : o.Past atFields found) (toTaken : o.Past found taken) (toReread : o.Past taken reread) (inv : o.Inv reread) :
    o.Ensures (afterClaim input loaded started reread.document)
      (fun _ e' => loaded.allSignersComplete = true → e'.document.state = .finalized) reread := by
  have draw : ∀ e, o.Past reread e → o.Ensures (attempt (drawAndCommit input loaded reread.document) (recordFailure input))
      (fun _ e' => loaded.allSignersComplete = true → e'.document.state = .finalized) e :=
    fun e toStart => ensuresAttempt (ensuresDrawAndCommit pre work leasable state toFound toTaken toReread toStart)
      (fun error _ => ensuresRecordFailure pre input error)
  exact ensuresBind (ensuresWhen
    (fun _ => ensuresWrite pre (fun _ _ _ => trivial) (fun e e' _ step _ later _ => draw e' (step.trans later)))
    (fun _ => draw reread (pastRefl inv)))

include pre in
theorem ensuresFlattenSignature (input : FlattenInput) {e} :
    o.Ensures (flattenSignature settings input) (fun _ _ => True) e := by
  refine ensuresBind (ensuresMono (fun work e₁ source => ?_) (ensuresWork input))
  split
  · exact ensuresPure trivial
  · rename_i loaded
    obtain ⟨atDocument,atRoster,atFields,work,step₁⟩ := source loaded rfl
    split
    · rename_i finalized
      exact ensuresPersist pre work finalized (work.toRoster.trans (work.toFields.trans step₁))
    · refine ensuresBind (ensuresClock (fun e₂ step₂ inv₂ now => ?_))
      refine ensuresBind (ensuresAttempt (ensuresMono (fun leased reread claim => ?_) (ensuresClaim pre _ _ _ _))
        (fun _ _ => ensuresFail))
      obtain ⟨found,taken,leasable,state,rfl,step₃,step₄,step₅,inv₅⟩ := claim
      exact ensuresMono (fun _ _ _ => trivial)
        (ensuresAfterClaim pre work leasable state (step₁.trans (step₂.trans step₃)) step₄ step₅ inv₅)

include pre in
theorem startsJustified (request : Request) (e : Envelope) (inv : o.Inv e) :
    o.Holds ((esign settings).start request) (fun _ _ => True) e := by
  have finish : ∀ {α : Type} {p : UseCase α} {f : α → Option ResponseBody}, o.Ensures p (fun _ _ => True) e →
      o.Holds (p >>= fun value => pure (f value) : UseCase (Option ResponseBody)) (fun _ _ => True) e :=
    fun {α p f} h => by
      have returned : o.Ensures (p >>= fun value => pure (f value) : UseCase (Option ResponseBody)) (fun _ _ => True) e :=
        ensuresBind (ensuresMono (fun _ _ _ => ensuresPure trivial) h)
      exact ensuresHolds returned inv
  cases request with
  | completeSourceUpload input => exact finish (ensuresCompleteSourceUpload pre input)
  | cleanupAbandonedUploads => exact finish (ensuresCleanupAbandonedUploads pre)
  | replaceDocumentSigners input => exact finish (ensuresReplaceDocumentSigners pre input)
  | replaceDocumentFields input => exact finish (ensuresReplaceDocumentFields pre input)
  | sendDocument input => exact finish (ensuresSendDocument pre input)
  | voidDocument userId idempotencyKey => exact finish (ensuresVoidDocument pre userId idempotencyKey)
  | rotateSigningSession signerId userId => exact finish (ensuresRotateSigningSession pre signerId userId)
  | revokeSigningSession sessionId userId => exact finish (ensuresRevokeSigningSession pre sessionId userId)
  | resolveSigningSession tokenHash => exact finish (ensuresResolveSigningSession pre tokenHash)
  | exchangeSigningToken tokenHash accountUserId => exact finish (ensuresExchangeSigningToken pre tokenHash accountUserId)
  | recordSignerViewed tokenHash accountUserId => exact finish (ensuresRecordSignerViewed pre tokenHash accountUserId)
  | recordSignerConsent input => exact finish (ensuresRecordSignerConsent pre input)
  | completeSigning input => exact finish (ensuresCompleteSigning pre input)
  | declineToSign input => exact finish (ensuresDeclineToSign pre input)
  | inspectDocument event =>
    simp only [esign,startRequest]
    split
    · exact finish (ensuresInspectDocument pre _ _)
    · trivial
  | flattenSignature event owner =>
    simp only [esign,startRequest]
    split
    · exact finish (ensuresFlattenSignature pre _)
    · trivial

end

end ESign
