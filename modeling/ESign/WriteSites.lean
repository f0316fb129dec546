import ESign.Linearity

/-! What a request puts into a write of its own. A consent is recorded under the session
and the signer that were loaded, nothing is drawn on an upload, and a session has no CSRF token
before its exchange; the other writes are left open here. -/
namespace ESign
open StoreProgram StoreProgram.Fallible StoreProgram.Outline

/-- A consent is that of the session it was given in, an upload is what was uploaded, and an
issued session is as `newSession` makes it. -/
def Write.own : Write → Prop
  | .upload u => u.revision.body.drawn = []
  | .send u => ∀ session ∈ u.issued, session.csrfTokenHash = none
  | .consent u => u.consent.sessionId = u.loaded.session.id ∧ u.consent.signerId = u.loaded.signer.id
  | _ => True

section
variable {settings : Settings}

theorem writesExpiry (input : LoadSignerSessionInput) :
    Program.Writes (fun w => ∃ sessionId, w = .markExpired sessionId) (loadSignerSession settings input) := by
  refine writesThen writesFind (fun found => writesThen writesGet (fun now => ?_))
  refine writesThen writesEnsure (fun _ => writesThen writesEnsure (fun _ => ?_))
  split
  · exact writesThen (writesWhen (writesPerform ⟨_,rfl⟩)) (fun _ => writesLift)
  · refine writesThen writesEnsure (fun _ => writesThen writesGet (fun document => ?_))
    refine writesThen writesEnsure (fun _ => writesThen writesFind (fun signer => ?_))
    exact writesThen writesEnsure (fun _ => trivial)

theorem writesLoaded (input : LoadSignerSessionInput) : Program.Writes Write.own (loadSignerSession settings input) := by
  refine Program.writesMono ?_ (writesExpiry input)
  rintro w ⟨sessionId,rfl⟩
  trivial

theorem writesBegun (input : IdempotencyInput) :
    Program.Writes (fun w => ∃ record, w = .createIdempotency record ∧ record.route = input.route)
      (replayOrBeginIdempotency settings input) := by
  refine writesThen writesGet (fun existing => ?_)
  split
  · refine writesThen writesEnsure (fun _ => ?_)
    split
    · trivial
    · exact writesThen writesEnsure (fun _ => trivial)
  · exact writesThen writesGet (fun id => writesThen (writesPerform ⟨_,rfl,rfl⟩) (fun _ => trivial))

theorem writesIdempotency (input : IdempotencyInput) :
    Program.Writes Write.own (replayOrBeginIdempotency settings input) := by
  refine Program.writesMono ?_ (writesBegun input)
  rintro w ⟨record,rfl,-⟩
  trivial

theorem writesCompleteSigning (input : CompleteSigningInput) :
    Program.Writes Write.own (completeSigning settings input) := by
  refine writesThen writesEnsure (fun _ => writesThen (writesLoaded _) (fun loaded => ?_))
  refine writesThen writesGet (fun roster => writesThen writesGet (fun fields => ?_))
  dsimp only
  split
  · trivial
  · refine writesThen writesEnsure (fun _ => writesThen writesGet (fun consent => writesThen writesEnsure (fun _ => ?_)))
    refine writesThen writesLift (fun selected => writesThen writesLift (fun signature => ?_))
    refine writesThen writesLift (fun initials => writesThen writesLift (fun _ => writesThen writesLift (fun key => ?_)))
    refine writesThen writesGet (fun now => writesThen (writesIdempotency _) (fun begun => ?_))
    split
    · trivial
    · refine writesThen writesGet (fun now => writesThen writesExternal (fun _ => writesThen writesLift (fun source => ?_)))
      exact writesThen (writesPerform trivial) (fun _ => writesThen (writesPerform trivial) (fun _ => trivial))

theorem writesDeclineToSign (input : DeclineToSignInput) : Program.Writes Write.own (declineToSign settings input) := by
  refine writesThen (writesLoaded _) (fun loaded => writesThen writesGet (fun roster => writesThen writesEnsure (fun _ => ?_)))
  split
  · trivial
  · refine writesThen writesEnsure (fun _ => writesThen writesLift (fun _ => writesThen writesGet (fun now => ?_)))
    exact writesPerform trivial

theorem writesRecordSignerConsent (input : RecordSignerConsentInput) :
    Program.Writes Write.own (recordSignerConsent settings input) := by
  refine writesThen writesEnsure (fun _ => writesThen writesEnsure (fun _ => writesThen writesEnsure (fun _ => ?_)))
  refine writesThen (writesLoaded _) (fun loaded => writesThen writesGet (fun existing => ?_))
  split
  · trivial
  · exact writesThen writesGet (fun now => writesThen writesGet (fun consentId => writesPerform ⟨rfl,rfl⟩))

theorem writesResolveSigningSession (tokenHash : Id) : Program.Writes Write.own (resolveSigningSession tokenHash) := by
  refine writesThen writesFind (fun session => writesThen writesEnsure (fun _ => writesThen writesGet (fun now => ?_)))
  split
  · exact writesThen (writesWhen (writesPerform trivial)) (fun _ => writesLift)
  · refine writesThen (writesWhen (writesPerform trivial)) (fun _ => writesThen writesGet (fun document => ?_))
    exact writesEnsure

theorem issuedUnkeyed {now : Date} {i : Input} {signers : List Signer} :
    ∀ session ∈ issueSessions settings now i signers, session.csrfTokenHash = none := by
  intro session mem
  obtain ⟨row,-,rfl⟩ := List.mem_map.mp mem
  rfl

theorem writesSendDocument (input : SendDocumentInput) : Program.Writes Write.own (sendDocument settings input) := by
  refine writesThen writesLift (fun key => writesThen writesGet (fun begunAt => ?_))
  refine writesThen (writesIdempotency _) (fun begun => ?_)
  split
  · trivial
  · refine writesThen writesGet (fun document => writesThen writesLift (fun _ => writesThen writesFind (fun revision => ?_)))
    refine writesThen writesGet (fun signers => writesThen writesGet (fun fields => writesThen writesEnsure (fun _ => ?_)))
    refine writesThen writesGet (fun now => writesThen writesLift (fun expiresAt => ?_))
    refine fun _ i => writesThen (writesPerform issuedUnkeyed) (fun _ => writesThen writesExternal (fun _ => ?_))
    exact writesThen (writesPerform trivial) (fun _ => trivial)

theorem writesVoidDocument (userId : Id) (idempotencyKey : Option Id) :
    Program.Writes Write.own (voidDocument settings userId idempotencyKey) := by
  refine writesThen writesLift (fun key => writesThen writesGet (fun begunAt => ?_))
  refine writesThen (writesIdempotency _) (fun begun => ?_)
  split
  · trivial
  · refine writesThen writesGet (fun document => writesThen writesLift (fun _ => writesThen writesGet (fun now => ?_)))
    exact writesThen (writesPerform trivial) (fun _ => writesThen (writesPerform trivial) (fun _ => trivial))

theorem writesReplaceDocumentSigners (input : ReplaceSignersInput) :
    Program.Writes Write.own (replaceDocumentSigners settings input) := by
  refine writesThen writesGet (fun document => writesThen writesLift (fun _ => writesThen writesGet (fun now => ?_)))
  refine writesThen writesGet (fun existing => writesThen writesGet (fun drawn => writesThen writesLift (fun signers => ?_)))
  exact writesThen writesLift (fun _ => writesThen writesEnsure (fun _ => writesPerform trivial))

theorem writesReplaceDocumentFields (input : ReplaceFieldsInput) :
    Program.Writes Write.own (replaceDocumentFields input) := by
  refine writesThen writesGet (fun document => writesThen writesLift (fun _ => writesThen writesFind (fun revision => ?_)))
  refine writesThen writesGet (fun signers => writesThen writesEnsure (fun _ => writesThen writesGet (fun now => ?_)))
  refine writesThen writesGet (fun drawn => writesThen writesLift (fun fields => ?_))
  exact writesThen writesLift (fun _ => writesThen writesLift (fun _ => writesPerform trivial))

theorem writesCompleteSourceUpload (input : CompleteSourceUploadInput) :
    Program.Writes Write.own (completeSourceUpload input) := by
  refine writesThen writesFind (fun session => writesThen writesGet (fun now => ?_))
  split
  · trivial
  · refine writesThen writesEnsure (fun _ => writesThen writesEnsure (fun _ => writesThen writesLift (fun _ => ?_)))
    refine writesThen writesGet (fun document => writesThen writesEnsure (fun _ => writesThen writesEnsure (fun _ => ?_)))
    refine writesThen writesExternal (fun _ => writesThen writesGet (fun revisionId => writesThen writesGet (fun pages => ?_)))
    exact writesPerform rfl

theorem writesAbandonAll (now : Date) : ∀ expired, Program.Writes Write.own (abandonAll now expired)
  | [] => trivial
  | _ :: rest => writesThen (writesPerform trivial) (fun _ => writesAbandonAll now rest)

theorem writesInspectDocument (revisionId jobId : Id) : Program.Writes Write.own (inspectDocument revisionId jobId) := by
  refine writesThen writesGet (fun document => ?_)
  split
  · trivial
  · refine writesThen writesEnsure (fun _ => writesThen writesFind (fun revision => writesThen writesExternal (fun _ => ?_)))
    refine writesThen writesGet (fun stored => writesThen writesEnsure (fun _ => writesThen writesExternal (fun _ => ?_)))
    exact writesThen writesGet (fun outcome => writesThen writesGet (fun now => writesPerform trivial))

theorem writesDrawAndCommit (input : FlattenInput) (loaded : LoadedWork) (leased : Document) :
    Program.Writes Write.own (drawAndCommit input loaded leased) := by
  refine writesThen writesFind (fun revision => writesThen (writesOutput _ _ _) (fun output => ?_))
  refine writesThen writesGet (fun ids => writesThen writesGet (fun occurredAt => ?_))
  refine writesThen (writesWhen writesExternal) (fun _ => ?_)
  exact writesAttempt (writesPerform trivial) (fun _ => trivial)

theorem writesRecordFailure (input : FlattenInput) (error : AppError) :
    Program.Writes Write.own (recordFailure input error) := by
  unfold recordFailure
  split
  · exact writesThen (writesPerform trivial) (fun _ => trivial)
  · refine writesThen (writesPerform trivial) (fun _ => writesThen writesExternal (fun _ => writesThen writesGet (fun now => ?_)))
    exact writesThen (writesPerform trivial) (fun _ => trivial)

theorem writesFlattenSignature (input : FlattenInput) : Program.Writes Write.own (flattenSignature settings input) := by
  refine writesThen (writesWork _) (fun work => ?_)
  split
  · trivial
  · split
    · refine writesThen writesExternal (fun _ => writesThen writesGet (fun id => writesThen writesGet (fun now => ?_)))
      exact writesAttempt (writesPerform trivial) (fun _ => trivial)
    · refine writesThen writesGet (fun now => writesThen (writesAttempt ?_ (fun _ => trivial)) (fun leased => ?_))
      · refine writesThen writesFind (fun current => writesThen (writesPerform trivial) (fun _ => ?_))
        exact writesThen writesExternal (fun _ => writesGet)
      · refine writesThen (writesWhen (writesPerform trivial)) (fun _ => ?_)
        exact writesAttempt (writesDrawAndCommit _ _ _) (fun _ => writesRecordFailure _ _)

theorem writesExchange (tokenHash : Id) (accountUserId : Option Id) :
    Program.Writes Write.own (exchangeSigningToken settings tokenHash accountUserId) := by
  refine writesThen (writesLoaded _) (fun loaded => writesThen writesGet (fun now => ?_))
  exact writesThen writesGet (fun tokens => writesPerform trivial)

theorem writesViewed (tokenHash : Id) (accountUserId : Option Id) :
    Program.Writes Write.own (recordSignerViewed settings tokenHash accountUserId) :=
  writesThen (writesLoaded _) (fun _ => writesThen writesGet (fun _ => writesPerform trivial))

theorem startsOwn (request : Request) : Program.Writes Write.own ((esign settings).start request) := by
  cases request with
  | completeSourceUpload input => exact writesThen (writesCompleteSourceUpload input) (fun _ => trivial)
  | cleanupAbandonedUploads =>
    refine writesThen (writesThen writesGet (fun now => writesThen writesGet (fun expired => ?_))) (fun _ => trivial)
    exact writesAbandonAll now expired
  | replaceDocumentSigners input => exact writesThen (writesReplaceDocumentSigners input) (fun _ => trivial)
  | replaceDocumentFields input => exact writesThen (writesReplaceDocumentFields input) (fun _ => trivial)
  | sendDocument input => exact writesThen (writesSendDocument input) (fun _ => trivial)
  | voidDocument userId idempotencyKey => exact writesThen (writesVoidDocument userId idempotencyKey) (fun _ => trivial)
  | rotateSigningSession signerId userId =>
    refine writesThen (writesThen writesGet (fun document => writesThen writesEnsure (fun _ => ?_))) (fun _ => trivial)
    refine writesThen writesFind (fun signer => writesThen writesGet (fun now => writesThen writesGet (fun token => ?_)))
    exact writesThen writesGet (fun sessionId => writesThen (writesPerform trivial) (fun _ => writesExternal))
  | revokeSigningSession sessionId userId =>
    refine writesThen (writesThen writesFind (fun session => writesThen writesGet (fun now => ?_))) (fun _ => trivial)
    exact writesPerform trivial
  | resolveSigningSession tokenHash => exact writesThen (writesResolveSigningSession tokenHash) (fun _ => trivial)
  | exchangeSigningToken tokenHash accountUserId => exact writesThen (writesExchange tokenHash accountUserId) (fun _ => trivial)
  | recordSignerViewed tokenHash accountUserId => exact writesThen (writesViewed tokenHash accountUserId) (fun _ => trivial)
  | recordSignerConsent input => exact writesThen (writesRecordSignerConsent input) (fun _ => trivial)
  | completeSigning input => exact writesThen (writesCompleteSigning input) (fun _ => trivial)
  | declineToSign input => exact writesThen (writesDeclineToSign input) (fun _ => trivial)
  | inspectDocument event =>
    simp only [esign,startRequest]
    split
    · exact writesThen (writesInspectDocument _ _) (fun _ => trivial)
    · trivial
  | flattenSignature event owner =>
    simp only [esign,startRequest]
    split
    · exact writesThen (writesFlattenSignature _) (fun _ => trivial)
    · trivial

end

/-- Runs whose writes are such: every run is one. -/
abbrev ownScope : Scope Envelope Write Request := ⟨fun _ => True,fun w _ => w.own⟩

theorem ownRun {settings : Settings} {start : Envelope} {c : Running} (run : Run (esign settings) anyScope (initial start) c) :
    Run (esign settings) ownScope (initial start) c := runWrites (fun request _ => startsOwn request) run

end ESign
