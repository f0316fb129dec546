import ESign.Leases
import ESign.StateTransitions

/-! A job that fails after it has claimed the lease. What fails inside the `try` is caught,
and what the `catch` does depends on the failure: a retryable one releases the lease, a
permanent one marks the document and logs an event. The mark only hits a document that is
`finalizing` under the lease of the job, the event is logged whether it has hit or not, and
what fails outside the `try` leaves the lease as it is. -/
namespace ESign
open StoreProgram StoreProgram.Outline

/-- The event of a failed finalization is appended. -/
def Logs (settings : Settings) (p : Performed Write Envelope Input) : Prop :=
  ∃ event : NewAuditEvent, event.type = .finalizationFailed ∧ ((esign settings).after p).audit = p.before.audit ++ [event]

/-- The document is moved from `finalizing` to `finalization_failed`. -/
def Moves (settings : Settings) (p : Performed Write Envelope Input) : Prop :=
  p.before.document.state = .finalizing ∧ ((esign settings).after p).document.state = .finalizationFailed

/-- The failure is logged exactly when the document was moved, and the lease is given up: `own` are
the writes of the run, and it has thrown in store `last`. -/
structure RecordedTruthfully (settings : Settings) (owner : Id) (own : List (Performed Write Envelope Input))
    (last : Envelope) : Prop where
  event : (∃ p ∈ own, Logs settings p) ↔ ∃ p ∈ own, Moves settings p
  released : last.document.leaseOwner ≠ some owner

def Write.reports : Write → Bool
  | .finalizationFailed _ _ _ => true
  | _ => false

/-- The clause of `markFinalizationFailed`. -/
def Envelope.finalizingFor (e : Envelope) (owner : Id) : Prop :=
  e.document.state = .finalizing ∧ e.document.leaseOwner = some owner

/-- How a run fails once it has claimed the lease: which call outside the `try` fails, if one does,
and which rows it and the mark meet. A retryable failure releases the lease, a permanent one marks
the document and then appends the event. -/
inductive Ending where
  | claimUnread (row : Envelope)
  | startRefused (row : Envelope)
  | released
  | releaseRefused (row : Envelope)
  | markRefused (row : Envelope)
  | markUnread (marked row : Envelope)
  | eventRefused (marked row : Envelope)
  | reported (marked : Envelope)

def Ending.of (p : Performed Write Envelope Input) (earlier : List (Performed Write Envelope Input)) (last : Envelope) :
    Option Ending :=
  match p.write with
  | .takeLease _ _ _ _ _ => some (.claimUnread last)
  | .finalizationStarted _ _ => some (.startRefused p.before)
  | .releaseLease _ => some (if p.input.failure.isSome then .releaseRefused p.before else .released)
  | .markFinalizationFailed _ =>
      some (if p.input.failure.isSome then .markRefused p.before else .markUnread p.before last)
  | .finalizationFailed _ _ _ =>
      earlier.getLast?.map (fun mark => if p.input.failure.isSome then .eventRefused mark.before p.before else .reported mark.before)
  | _ => none

/-- Read off the last writes of the run, and the store it has thrown in. -/
def endingOf (own : List (Performed Write Envelope Input)) (last : Envelope) : Option Ending :=
  own.getLast?.bind (fun p => Ending.of p own.dropLast last)

/-- A retryable failure whose release goes through, or a permanent one whose mark meets the row
`finalizing` under the lease of the run and whose event goes through. Where a call outside the `try`
fails, another job must have claimed the lease by then, and a mark that came before has met another row. -/
def Ending.recordable (owner : Id) : Ending → Bool
  | .released => true
  | .reported marked => marked.document.state = .finalizing ∧ marked.document.leaseOwner = some owner
  | .claimUnread row => row.document.leaseOwner ≠ some owner
  | .startRefused row => row.document.leaseOwner ≠ some owner
  | .releaseRefused row => row.document.leaseOwner ≠ some owner
  | .markRefused row => row.document.leaseOwner ≠ some owner
  | .markUnread marked row =>
      !(marked.document.state = .finalizing ∧ marked.document.leaseOwner = some owner) ∧ row.document.leaseOwner ≠ some owner
  | .eventRefused marked row =>
      !(marked.document.state = .finalizing ∧ marked.document.leaseOwner = some owner) ∧ row.document.leaseOwner ≠ some owner

def Recordable (owner : Id) (own : List (Performed Write Envelope Input)) (last : Envelope) : Prop :=
  ∃ ending, endingOf own last = some ending ∧ ending.recordable owner = true

/-- A write that neither logs a failure nor moves the document. -/
structure Neutral (settings : Settings) (p : Performed Write Envelope Input) : Prop where
  silent : ¬ Logs settings p
  still : ¬ Moves settings p

section
variable {settings : Settings} {owner : Id}

theorem neutralMem {P : Performed Write Envelope Input → Prop} {before : List (Performed Write Envelope Input)}
    (rest : List (Performed Write Envelope Input)) (not : ∀ p ∈ before, ¬ P p) : (∃ p ∈ before ++ rest, P p) ↔ ∃ p ∈ rest, P p := by
  refine ⟨?_,fun ⟨p,mem,holds⟩ => ⟨p,List.mem_append_right _ mem,holds⟩⟩
  rintro ⟨p,mem,holds⟩
  rcases List.mem_append.mp mem with early | late
  · exact absurd holds (not p early)
  · exact ⟨p,late,holds⟩

theorem neutralTruthful {before rest : List (Performed Write Envelope Input)} {last : Envelope}
    (neutral : ∀ p ∈ before, Neutral settings p) :
    RecordedTruthfully settings owner (before ++ rest) last ↔ RecordedTruthfully settings owner rest last := by
  have logs := neutralMem rest (fun p mem => (neutral p mem).silent)
  have moves := neutralMem rest (fun p mem => (neutral p mem).still)
  refine ⟨fun h => ⟨?_,h.released⟩,fun h => ⟨?_,h.released⟩⟩
  · rw [← logs,← moves]
    exact h.event
  · rw [logs,moves]
    exact h.event

theorem endingAfter {before rest : List (Performed Write Envelope Input)} {last : Envelope} (nonempty : rest ≠ [])
    (alone : ∀ p, rest = [p] → p.write.reports = false) : endingOf (before ++ rest) last = endingOf rest last := by
  obtain ⟨init,p,rfl⟩ : ∃ init p, rest = init ++ [p] := ⟨_,_,(List.dropLast_append_getLast nonempty).symm⟩
  have ends : (before ++ (init ++ [p])).getLast? = some p := by rw [← List.append_assoc,List.getLast?_concat]
  have drops : (before ++ (init ++ [p])).dropLast = before ++ init := by rw [← List.append_assoc,List.dropLast_concat]
  unfold endingOf
  rw [ends,drops,List.getLast?_concat,List.dropLast_concat]
  simp only [Option.bind_some]
  unfold Ending.of
  split <;> try rfl
  rename_i reports
  rcases init.eq_nil_or_concat with rfl | ⟨init,m,rfl⟩
  · have silent := alone p rfl
    rw [reports] at silent
    cases silent
  · rw [List.concat_eq_append,← List.append_assoc,List.getLast?_concat,List.getLast?_concat]

theorem sameAudit {p : Performed Write Envelope Input} (same : ((esign settings).after p).audit = p.before.audit) :
    ¬ Logs settings p := by
  rintro ⟨event,-,grown⟩
  rw [same] at grown
  have length := congrArg List.length grown
  simp at length

theorem sameState {p : Performed Write Envelope Input}
    (same : ((esign settings).after p).document.state = p.before.document.state) : ¬ Moves settings p := by
  rintro ⟨finalizing,failed⟩
  rw [same,finalizing] at failed
  cases failed

theorem leasedUnfailed {state : DocumentState} : Documents.leasedState state ≠ .finalizationFailed := by
  cases state <;> decide

theorem neutralTake {input expectedVersion leaseUntil now current before i}
    (ok : (esign settings).answer ⟨.takeLease input expectedVersion leaseUntil now current,before,i⟩ = .ok ()) :
    Neutral settings ⟨.takeLease input expectedVersion leaseUntil now current,before,i⟩ := by
  have h := takeEffect (Write.execOk ok)
  refine ⟨sameAudit ((congrArg Envelope.audit h.frame).trans rfl),fun moves => ?_⟩
  exact leasedUnfailed (h.state.symm.trans moves.2)

theorem startedExec {input occurredAt before i} (passed : i.failure = none) :
    (esign settings).after ⟨.finalizationStarted input occurredAt,before,i⟩ = { before with audit := before.audit ++
      [⟨.finalizationStarted,.worker,some input.jobId,occurredAt,
        [("signerId",.id (some input.signerId)),("sessionId",.id (some input.sessionId)),("jobType",.job .flattenSignature),
          ("outboxEventId",.id (some input.outboxEventId))]⟩] } := by
  change (Write.exec _ _ _).1 = _
  unfold Write.exec
  rw [passed]
  rfl

theorem startedAnswer {input occurredAt before i} (passed : i.failure = none) :
    (esign settings).answer ⟨.finalizationStarted input occurredAt,before,i⟩ = .ok () := by
  change (Write.exec _ _ _).2 = _
  unfold Write.exec
  rw [passed]
  rfl

theorem neutralStarted {input occurredAt before i}
    (ok : (esign settings).answer ⟨.finalizationStarted input occurredAt,before,i⟩ = .ok ()) :
    Neutral settings ⟨.finalizationStarted input occurredAt,before,i⟩ := by
  have passed : i.failure = none := Write.execPassed ok
  have after : (esign settings).after ⟨.finalizationStarted input occurredAt,before,i⟩ = _ := startedExec passed
  refine ⟨?_,sameState (by rw [after])⟩
  rintro ⟨event,type,grown⟩
  rw [after] at grown
  cases List.append_cancel_left grown
  cases type

theorem neutralUndrawn {u before i} (refused : (esign settings).answer ⟨.flatten u,before,i⟩ ≠ .ok ()) :
    Neutral settings ⟨.flatten u,before,i⟩ := by
  have after : (esign settings).after ⟨.flatten u,before,i⟩ = before := Write.execFailed refused
  exact ⟨sameAudit (by rw [after]),sameState (by rw [after])⟩

/-! The last writes of a failed run. -/

/- A call fails outside the `try`, and nothing was marked before. -/
theorem unmarkedIff {last : Envelope} {own : List (Performed Write Envelope Input)} {ending : Ending}
    (neutral : ∀ p ∈ own, Neutral settings p) (ends : endingOf own last = some ending)
    (condition : ending.recordable owner = true ↔ last.document.leaseOwner ≠ some owner) :
    RecordedTruthfully settings owner own last ↔ Recordable owner own last := by
  have event : (∃ p ∈ own, Logs settings p) ↔ ∃ p ∈ own, Moves settings p :=
    ⟨fun ⟨p,mem,logs⟩ => absurd logs (neutral p mem).silent,fun ⟨p,mem,moves⟩ => absurd moves (neutral p mem).still⟩
  constructor
  · exact fun h => ⟨ending,ends,condition.mpr h.released⟩
  · rintro ⟨ending',ends',recordable⟩
    cases ends.symm.trans ends'
    exact ⟨event,condition.mp recordable⟩

theorem refusedNeutral {p : Performed Write Envelope Input} (refused : p.input.failure.isSome = true) : Neutral settings p := by
  have after : (esign settings).after p = p.before := Write.execRefused refused
  exact ⟨sameAudit (by rw [after]),sameState (by rw [after])⟩

theorem releaseExec {before i} (passed : i.failure = none) :
    (esign settings).after ⟨.releaseLease owner,before,i⟩ = Documents.releaseProcessingLease owner before := by
  change (Write.exec _ _ _).1 = _
  unfold Write.exec
  rw [passed]
  rfl

theorem releasedLost {before : Envelope} :
    (Documents.releaseProcessingLease owner before).document.leaseOwner ≠ some owner := by
  unfold Documents.releaseProcessingLease
  split
  · exact nofun
  · assumption

theorem releasedIff {before i} :
    RecordedTruthfully settings owner [⟨.releaseLease owner,before,i⟩]
        ((esign settings).after ⟨.releaseLease owner,before,i⟩) ↔
      Recordable owner [⟨.releaseLease owner,before,i⟩] ((esign settings).after ⟨.releaseLease owner,before,i⟩) := by
  cases failure : i.failure with
  | some error =>
    have refused : i.failure.isSome = true := by rw [failure]; rfl
    have neutral : Neutral settings ⟨.releaseLease owner,before,i⟩ := refusedNeutral refused
    have after : (esign settings).after ⟨.releaseLease owner,before,i⟩ = before := Write.execRefused refused
    have ends : endingOf [⟨.releaseLease owner,before,i⟩] before = some (.releaseRefused before) :=
      congrArg some (if_pos refused)
    rw [after]
    exact unmarkedIff (by simpa using neutral) ends (by simp [Ending.recordable])
  | none =>
    have after : (esign settings).after ⟨.releaseLease owner,before,i⟩ = Documents.releaseProcessingLease owner before :=
      releaseExec failure
    have neutral : Neutral settings ⟨.releaseLease owner,before,i⟩ := by
      rcases releaseCases owner before with same | changed
      · exact ⟨sameAudit (by rw [after,same]),sameState (by rw [after,same])⟩
      · exact ⟨sameAudit (by rw [after,changed]),sameState (by rw [after,changed])⟩
    have ends : ∀ last, endingOf [⟨.releaseLease owner,before,i⟩] last = some .released := by
      intro last
      show some (if i.failure.isSome then _ else _) = _
      rw [failure]
      rfl
    refine unmarkedIff (by simpa using neutral) (ends _) ⟨fun _ => ?_,fun _ => rfl⟩
    rw [after]
    exact releasedLost

theorem markExec {before i} (passed : i.failure = none) :
    (esign settings).after ⟨.markFinalizationFailed owner,before,i⟩ = Documents.markFinalizationFailed owner before := by
  change (Write.exec _ _ _).1 = _
  unfold Write.exec
  rw [passed]
  rfl

theorem markHit {before : Envelope} (hit : before.finalizingFor owner) :
    Documents.markFinalizationFailed owner before = { before with document := { before.document with
      state := .finalizationFailed, leaseOwner := none, leaseUntil := none, version := before.document.version+1 } } :=
  if_pos ⟨hit.2,hit.1⟩

theorem markMissed {before : Envelope} (missed : ¬ before.finalizingFor owner) :
    Documents.markFinalizationFailed owner before = before :=
  if_neg (fun hit => missed ⟨hit.2,hit.1⟩)

theorem markMoves {before i} (passed : i.failure = none) :
    ¬ Logs settings ⟨.markFinalizationFailed owner,before,i⟩ ∧
      (Moves settings ⟨.markFinalizationFailed owner,before,i⟩ ↔ before.finalizingFor owner) := by
  have after : (esign settings).after ⟨.markFinalizationFailed owner,before,i⟩ =
    Documents.markFinalizationFailed owner before := markExec passed
  by_cases hit : before.finalizingFor owner
  · rw [markHit hit] at after
    exact ⟨sameAudit (by rw [after]),fun _ => hit,fun _ => ⟨hit.1,by rw [after]⟩⟩
  · rw [markMissed hit] at after
    exact ⟨sameAudit (by rw [after]),fun moves => absurd moves (sameState (by rw [after])),fun holds => absurd holds hit⟩

theorem reportExec {input code occurredAt before i} (passed : i.failure = none) :
    (esign settings).after ⟨.finalizationFailed input code occurredAt,before,i⟩ = { before with audit := before.audit ++
      [⟨.finalizationFailed,.worker,some input.jobId,occurredAt,
        [("signerId",.id (some input.signerId)),("sessionId",.id (some input.sessionId)),("code",.code code),
          ("outboxEventId",.id (some input.outboxEventId))]⟩] } := by
  change (Write.exec _ _ _).1 = _
  unfold Write.exec
  rw [passed]
  rfl

theorem reportLogs {input code occurredAt before i} :
    (Logs settings ⟨.finalizationFailed input code occurredAt,before,i⟩ ↔ i.failure = none) ∧
      ¬ Moves settings ⟨.finalizationFailed input code occurredAt,before,i⟩ ∧
      ((esign settings).after ⟨.finalizationFailed input code occurredAt,before,i⟩).document = before.document := by
  cases failure : i.failure with
  | some error =>
    have refused : i.failure.isSome = true := by rw [failure]; rfl
    have after : (esign settings).after ⟨.finalizationFailed input code occurredAt,before,i⟩ = before :=
      Write.execRefused refused
    exact ⟨⟨fun logs => absurd logs (sameAudit (by rw [after])),nofun⟩,sameState (by rw [after]),by rw [after]⟩
  | none =>
    have after : (esign settings).after ⟨.finalizationFailed input code occurredAt,before,i⟩ = _ := reportExec failure
    exact ⟨⟨fun _ => rfl,fun _ => ⟨_,rfl,congrArg Envelope.audit after⟩⟩,sameState (by rw [after]),by rw [after]⟩

theorem markedIff {before i} {last : Envelope} (passed : i.failure = none) :
    RecordedTruthfully settings owner [⟨.markFinalizationFailed owner,before,i⟩] last ↔
      Recordable owner [⟨.markFinalizationFailed owner,before,i⟩] last := by
  obtain ⟨silent,moves⟩ := @markMoves settings owner before i passed
  have ends : endingOf [⟨.markFinalizationFailed owner,before,i⟩] last = some (.markUnread before last) := by
    show some (if i.failure.isSome then _ else _) = _
    rw [passed]
    rfl
  have condition : Recordable owner [⟨.markFinalizationFailed owner,before,i⟩] last ↔
      ¬ before.finalizingFor owner ∧ last.document.leaseOwner ≠ some owner := by
    simp [Recordable,ends,Ending.recordable,Envelope.finalizingFor,imp_iff_not_or]
  rw [condition]
  constructor
  · intro h
    have missed := h.event
    simp only [List.mem_cons,List.not_mem_nil,or_false,exists_eq_left,silent,moves,false_iff] at missed
    exact ⟨missed,h.released⟩
  · rintro ⟨missed,lost⟩
    exact ⟨by simp [silent,moves,missed],lost⟩

theorem loggedIff {input code occurredAt before last i j} (passed : i.failure = none)
    (kept : before.finalizingFor owner → last.document.leaseOwner ≠ some owner) :
    RecordedTruthfully settings owner
        [⟨.markFinalizationFailed owner,before,i⟩,⟨.finalizationFailed input code occurredAt,last,j⟩]
        ((esign settings).after ⟨.finalizationFailed input code occurredAt,last,j⟩) ↔
      Recordable owner [⟨.markFinalizationFailed owner,before,i⟩,⟨.finalizationFailed input code occurredAt,last,j⟩]
        ((esign settings).after ⟨.finalizationFailed input code occurredAt,last,j⟩) := by
  obtain ⟨silent,moves⟩ := @markMoves settings owner before i passed
  obtain ⟨logs,still,document⟩ := @reportLogs settings input code occurredAt last j
  have event : ((∃ p ∈ [⟨.markFinalizationFailed owner,before,i⟩,⟨.finalizationFailed input code occurredAt,last,j⟩],
        Logs settings p) ↔
      ∃ p ∈ [⟨.markFinalizationFailed owner,before,i⟩,⟨.finalizationFailed input code occurredAt,last,j⟩], Moves settings p) ↔
      (j.failure = none ↔ before.finalizingFor owner) := by
    simp [silent,moves,logs,still]
  have ends : ∀ e, endingOf [⟨.markFinalizationFailed owner,before,i⟩,⟨.finalizationFailed input code occurredAt,last,j⟩] e =
      some (if j.failure.isSome then .eventRefused before last else .reported before) := fun _ => rfl
  cases failure : j.failure with
  | some error =>
    have condition : ∀ e, Recordable owner
        [⟨.markFinalizationFailed owner,before,i⟩,⟨.finalizationFailed input code occurredAt,last,j⟩] e ↔
        ¬ before.finalizingFor owner ∧ last.document.leaseOwner ≠ some owner := by
      intro e
      simp [Recordable,ends,failure,Ending.recordable,Envelope.finalizingFor,imp_iff_not_or]
    rw [condition]
    refine ⟨fun h => ⟨fun hit => ?_,document ▸ h.released⟩,fun ⟨missed,lost⟩ => ⟨event.mpr ?_,document ▸ lost⟩⟩
    · cases failure.symm.trans ((event.mp h.event).mpr hit)
    · simp [failure,missed]
  | none =>
    have condition : ∀ e, Recordable owner
        [⟨.markFinalizationFailed owner,before,i⟩,⟨.finalizationFailed input code occurredAt,last,j⟩] e ↔
        before.finalizingFor owner := by
      intro e
      simp [Recordable,ends,failure,Ending.recordable,Envelope.finalizingFor]
    rw [condition]
    refine ⟨fun h => (event.mp h.event).mp failure,fun hit => ⟨event.mpr ⟨fun _ => hit,fun _ => failure⟩,?_⟩⟩
    rw [document]
    exact kept hit

/- Under the outer `catch` nothing but the others can give the lease back, and they do not. -/
theorem recordedIff (x : Extension anyScope) {input : FlattenInput} {c c' : Running}
    {own : List (Performed Write Envelope Input)} (sound : (x.outline settings).Sound c)
    (recorded : Recorded settings (otherOwners input.owner) input c own c') :
    RecordedTruthfully settings input.owner own c'.store ↔ Recordable input.owner own c'.store := by
  cases recorded with
  | released toRelease => exact releasedIff
  | @marked before _ i toMark later failed =>
    cases failure : i.failure with
    | some error =>
      have refused : i.failure.isSome = true := by rw [failure]; rfl
      have neutral : Neutral settings ⟨.markFinalizationFailed input.owner,before.store,i⟩ := refusedNeutral refused
      have after : (esign settings).after ⟨.markFinalizationFailed input.owner,before.store,i⟩ = before.store :=
        Write.execRefused refused
      have ends : ∀ last, endingOf [⟨.markFinalizationFailed input.owner,before.store,i⟩] last =
          some (.markRefused before.store) := fun _ => congrArg some (if_pos refused)
      rw [failed refused,after]
      exact unmarkedIff (by simpa using neutral) (ends _) (by simp [Ending.recordable])
    | none => exact markedIff failure
  | @logged before last i j code occurredAt toMark passed later =>
    refine loggedIff passed (fun hit => ?_)
    have atMark := ownWrite x (w := .markFinalizationFailed input.owner) (otherRun x sound toMark).1 trivial i
    refine neverRegained x atMark later ?_
    rw [markExec passed,markHit hit]
    exact nofun

theorem startedIff (x : Extension anyScope) {input : FlattenInput} {loaded : LoadedWork} {leased : Document} {error : AppError}
    {now : Date} {inputs : Input → Prop} {c c' : Running} {own : List (Performed Write Envelope Input)}
    {take : Performed Write Envelope Input} (sound : (x.outline settings).Sound c) (neutral : Neutral settings take)
    (run : Amid (esign settings) (otherOwners input.owner) inputs c (afterClaim input loaded now leased) own (.error error) c') :
    RecordedTruthfully settings input.owner (take :: own) c'.store ↔ Recordable input.owner (take :: own) c'.store := by
  have append : ∀ {before rest}, (∀ p ∈ before, Neutral settings p) → rest ≠ [] →
      (∀ p, rest = [p] → p.write.reports = false) →
      (RecordedTruthfully settings input.owner rest c'.store ↔ Recordable input.owner rest c'.store) →
      (RecordedTruthfully settings input.owner (before ++ rest) c'.store ↔ Recordable input.owner (before ++ rest) c'.store) := by
    intro before rest all some alone same
    rw [neutralTruthful all,same,Recordable,Recordable,endingAfter some alone]
  rcases amidThen run with ⟨_,-,failed⟩ | ⟨_,c₁,own₁,own₂,rfl,started,drawing⟩
  · rcases amidWhen failed with ⟨-,start⟩ | ⟨-,-,same⟩
    · obtain ⟨before,i,-,rfl,answered,rfl⟩ := amidPerform start
      have refused : i.failure.isSome = true := by
        cases failure : i.failure with
        | some _ => rfl
        | none => cases answered.trans (startedAnswer failure)
      have refusedStart : Neutral settings ⟨.finalizationStarted input now,before.store,i⟩ := refusedNeutral refused
      have after : (esign settings).after ⟨.finalizationStarted input now,before.store,i⟩ = before.store :=
        Write.execRefused refused
      have condition : ∀ e, e = before.store → ((Ending.startRefused before.store).recordable input.owner = true ↔
          e.document.leaseOwner ≠ some input.owner) := by
        rintro e rfl
        simp [Ending.recordable]
      exact unmarkedIff (by simpa using ⟨neutral,refusedStart⟩) rfl (condition _ after)
    · cases same
  have begun : (x.outline settings).Sound c₁ ∧ ∀ p ∈ own₁, Neutral settings p := by
    rcases amidWhen started with ⟨-,start⟩ | ⟨rfl,rfl,-⟩
    · obtain ⟨before,i,toStart,rfl,answered,rfl⟩ := amidPerform start
      refine ⟨ownWrite x (w := .finalizationStarted input now) (otherRun x sound toStart).1 trivial i,?_⟩
      simpa using neutralStarted answered.symm
    · exact ⟨sound,by simp⟩
  rcases amidAttempt drawing with ⟨_,same,-⟩ | ⟨thrown,c₂,own₃,own₄,rfl,drawn,handled⟩
  · cases same
  have recorded := recordRun handled
  have undrawn : (x.outline settings).Sound c₂ ∧ ∀ p ∈ own₃, Neutral settings p := by
    rcases drawRun drawn with ⟨rfl,later,-⟩ | ⟨seen,before,u,i,draw,rfl,rfl,answer⟩
    · exact ⟨(otherRun x begun.1 later).1,by simp⟩
    · have refused : (esign settings).answer ⟨.flatten u,before.store,i⟩ ≠ .ok () := fun ok => by cases answer.mpr ok
      have unchanged : (esign settings).after ⟨.flatten u,before.store,i⟩ = before.store := Write.execFailed refused
      refine ⟨?_,by simpa using neutralUndrawn refused⟩
      rw [unchanged]
      exact (otherRun x begun.1 (draw.toRevision.trans draw.toCommit)).1
  have some : own₄ ≠ [] := by cases recorded <;> exact List.cons_ne_nil _ _
  have alone : ∀ p, own₄ = [p] → p.write.reports = false := by
    intro p same
    cases recorded <;> cases same <;> rfl
  have first : ∀ p ∈ take :: (own₁ ++ own₃), Neutral settings p := by
    intro p mem
    rcases List.mem_cons.mp mem with rfl | mem
    · exact neutral
    · exact (List.mem_append.mp mem).elim (begun.2 p) (undrawn.2 p)
  have whole := append first some alone (recordedIff x undrawn.1 recorded)
  rwa [List.cons_append,List.append_assoc] at whole

end

/-- In every run of the system, a job that has claimed the lease and fails logs the failure exactly
when it has moved the document, and does not keep the lease, while the others work under owner ids
of their own. -/
def FailuresRecorded (settings : Settings) (draft : NewDraft) : Prop :=
  ∀ c, Run (esign settings) anyScope (initial (createDraftDocument draft)) c → ∀ input own error c',
    Amid (esign settings) (otherOwners input.owner) (fun _ => True) c (flattenSignature settings input) own (.error error) c' →
    (∃ p ∈ own, Claimed settings p) → RecordedTruthfully settings input.owner own c'.store

theorem failureRecordedIff (settings : Settings) (draft : NewDraft) : ∀ c,
    Run (esign settings) anyScope (initial (createDraftDocument draft)) c → ∀ input own error c',
    Amid (esign settings) (otherOwners input.owner) (fun _ => True) c (flattenSignature settings input) own (.error error) c' →
    (∃ p ∈ own, Claimed settings p) →
    (RecordedTruthfully settings input.owner own c'.store ↔ Recordable input.owner own c'.store) := by
  intro c reached input own error c' run claimed
  have sound : (anyExtension.outline settings).Sound c := anyExtension.run ⟨draftConsistent draft,trivial⟩ reached
  obtain ⟨c₁,c₂,found,taken,reread,loaded,now,p,rest,rfl,load,toClaim,claim,later,finish⟩ := claimedRun run claimed
  obtain ⟨-,toLoad⟩ := amidReads (writesWork input) load
  obtain ⟨leaseUntil,taking,write,leasable⟩ := claim.write
  obtain ⟨w,before,i⟩ := p
  cases write
  cases claim.before
  have neutral := neutralTake claim.answer
  rcases finish with ⟨rfl,rfl,-⟩ | finish
  · exact unmarkedIff (by simpa using neutral) rfl (by simp [Ending.recordable])
  have atClaim := (otherRun anyExtension sound (toLoad.trans toClaim)).1
  have atFound := (otherRun anyExtension atClaim claim.toFound).1
  obtain ⟨atTaken,kept⟩ := otherRun anyExtension atFound claim.toTaken
  have just : Justified anyExtension.Past (.takeLease input loaded.document.version leaseUntil taking found.store.document)
      taken.store := ⟨⟨found.store,rfl,atFound.inv,kept⟩,leasable⟩
  have atReread := (otherRun anyExtension (ownWrite anyExtension atTaken just i) later).1
  exact startedIff anyExtension atReread neutral finish

namespace ThreeSigners

def failing (n : Nat) (error : AppError) : Input := { input n with failure := some error }

/-- All goes well until the source is loaded. -/
def failingAt (n index : Nat) (error : AppError) : List Input :=
  List.replicate index (input n) ++ failing n error :: List.replicate 8 (input n)

/-- Everyone has signed, and the last job is about to run. -/
def lastSigned : List (Action Input Request) :=
  consented .parallel ++ served 11 12 15 (complete 650 400 61) ++ served 12 13 21 (job 12 300 500 100) ++
  served 13 14 15 (complete 750 401 62) ++ served 14 15 21 (job 14 301 501 1300) ++ served 15 16 15 (complete 850 402 63)

def firstSigned : List (Action Input Request) := consented .parallel ++ served 11 12 15 (complete 650 400 61)

end ThreeSigners

def claimedCheck (own : List (Performed Write Envelope Input)) : Bool :=
  own.any (fun p => p.write.takes && (p.write.exec p.before p.input).2.isOk)

theorem claimedChecked {settings : Settings} {own : List (Performed Write Envelope Input)} (ok : claimedCheck own = true) :
    ∃ p ∈ own, Claimed settings p := by
  obtain ⟨p,mem,found⟩ := List.any_eq_true.mp ok
  obtain ⟨takes,answered⟩ := Bool.and_eq_true_iff.mp found
  refine ⟨p,mem,takes,?_⟩
  change (p.write.exec p.before p.input).2 = .ok ()
  cases answer : (p.write.exec p.before p.input).2 with
  | ok _ => rfl
  | error error => rw [answer] at answered; cases answered

def recordableCheck (owner : Id) (own : List (Performed Write Envelope Input)) (last : Envelope) : Bool :=
  match endingOf own last with
  | some ending => ending.recordable owner
  | none => false

theorem recordableChecked {owner own last} (ok : recordableCheck owner own last = true) : Recordable owner own last := by
  unfold recordableCheck at ok
  split at ok
  · rename_i ending ends
    exact ⟨ending,ends,ok⟩
  · cases ok

set_option maxRecDepth 100000 in
/-- The last job finds that its source was tampered with: the document is marked, the event
logged, and the lease given up. -/
theorem tamperedRecorded : ∃ c own error c', Run (esign ThreeSigners.settings) anyScope ThreeSigners.start c ∧
    Amid (esign ThreeSigners.settings) (otherOwners 1) (fun _ => True) c
      (flattenSignature ThreeSigners.settings ⟨302,502,1500,1601,1600,1⟩) own (.error error) c' ∧
    (∃ p ∈ own, Claimed ThreeSigners.settings p) ∧ c'.store.document.state = .finalizationFailed ∧
    RecordedTruthfully ThreeSigners.settings 1 own c'.store := by
  have evaluated : (do
      let c ← (esign ThreeSigners.settings).applyAll (fun _ _ => true) ThreeSigners.start ThreeSigners.lastSigned
      let r ← (flattenSignature ThreeSigners.settings ⟨302,502,1500,1601,1600,1⟩).solo (esign ThreeSigners.settings).exec
        c.store (ThreeSigners.failingAt 17 16 (finalizationError .sourceIntegrityFailure []))
      pure (r.2.1.isOk,claimedCheck r.1,recordableCheck 1 r.1 r.2.2,r.2.2.document.state)) =
      some (false,true,true,.finalizationFailed) := by decide +kernel
  simp only [bind,Option.bind_eq_some_iff] at evaluated
  obtain ⟨c,reached,⟨own,result,last⟩,run,checks⟩ := evaluated
  simp only [pure,Option.some.injEq,Prod.mk.injEq] at checks
  obtain ⟨thrown,claims,recordable,state⟩ := checks
  cases result with
  | ok value => cases thrown
  | error error =>
    have reached : Run (esign ThreeSigners.settings) anyScope ThreeSigners.start c :=
      runOfActions (fun _ _ => trivial) (fun _ _ _ => trivial) reached
    have amid : Amid (esign ThreeSigners.settings) (otherOwners 1) (fun _ => True) c _ own (Except.error error) _ :=
      amidSolo (fun _ _ => trivial) run
    have claimed : ∃ p ∈ own, Claimed ThreeSigners.settings p := claimedChecked claims
    refine ⟨c,own,error,_,reached,amid,claimed,state,?_⟩
    exact (failureRecordedIff _ ThreeSigners.draft c reached ⟨302,502,1500,1601,1600,1⟩ own error _ amid claimed).mpr
      (recordableChecked recordable)

set_option maxRecDepth 100000 in
/-- The same on a document that others have yet to sign: the document stays in progress under
the lease, and the event is logged. -/
theorem tamperedInProgress : ¬ FailuresRecorded ThreeSigners.settings ThreeSigners.draft := by
  intro recorded
  have evaluated : (do
      let c ← (esign ThreeSigners.settings).applyAll (fun _ _ => true) ThreeSigners.start ThreeSigners.firstSigned
      let r ← (flattenSignature ThreeSigners.settings ⟨300,500,100,1201,1200,1⟩).solo (esign ThreeSigners.settings).exec
        c.store (ThreeSigners.failingAt 13 15 (finalizationError .sourceIntegrityFailure []))
      pure (r.2.1.isOk,claimedCheck r.1,r.2.2.document.leaseOwner)) = some (false,true,some 1) := by decide +kernel
  simp only [bind,Option.bind_eq_some_iff] at evaluated
  obtain ⟨c,reached,⟨own,result,last⟩,run,checks⟩ := evaluated
  simp only [pure,Option.some.injEq,Prod.mk.injEq] at checks
  obtain ⟨thrown,claims,leased⟩ := checks
  cases result with
  | ok value => cases thrown
  | error error =>
    have amid : Amid (esign ThreeSigners.settings) (otherOwners 1) (fun _ => True) c _ own (Except.error error) _ :=
      amidSolo (fun _ _ => trivial) run
    have reached : Run (esign ThreeSigners.settings) anyScope ThreeSigners.start c :=
      runOfActions (fun _ _ => trivial) (fun _ _ _ => trivial) reached
    exact (recorded c reached ⟨300,500,100,1201,1200,1⟩ own error _ amid (claimedChecked claims)).released leased

end ESign
