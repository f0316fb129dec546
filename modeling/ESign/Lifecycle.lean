import ESign.Entities
import ESign.Rows
import Mathlib.Data.List.Dedup

/-! The pure rules of the domain package: the transition tables, the preparation
and signing guards, signer routing and field geometry. -/
namespace ESign

def AppError.validation (details : List (String × String)) : AppError := .application .validation details
def AppError.authentication (details : List (String × String)) : AppError := .application .authentication details
def AppError.notFound (details : List (String × String)) : AppError := .application .notFound details
def AppError.conflict (details : List (String × String)) : AppError := .application .conflict details
def AppError.integrity (details : List (String × String)) : AppError := .application .integrity details
def AppError.externalService (details : List (String × String)) : AppError := .application .externalService details
def AppError.invalidStateTransition (details : List (String × String)) : AppError :=
  .application .invalidStateTransition details

def maxStringChars : Nat := 4096
def maxKeys : Nat := 64

/-- `if (!holds) throw error`. -/
def check (holds : Bool) (error : AppError) : Except AppError Unit :=
  if holds then .ok () else .error error

@[simp] theorem checkOk {holds error} : check holds error = .ok () ↔ holds = true := by
  cases holds <;> simp [check]

theorem bindOk {α β : Type} {x : Except AppError α} {f : α → Except AppError β} {r : β} :
    (x >>= f) = .ok r ↔ ∃ a, x = .ok a ∧ f a = .ok r := by
  cases x with
  | ok a => exact ⟨fun h => ⟨a,rfl,h⟩,fun ⟨_,same,h⟩ => by cases same; exact h⟩
  | error error => exact ⟨fun h => (by cases h),fun ⟨_,same,_⟩ => (by cases same)⟩

theorem okOption {α : Type} {x : Except AppError α} {value : α} (ok : x.toOption = some value) : x = .ok value := by
  cases x with
  | error error => cases ok
  | ok value =>
    cases ok
    rfl

theorem thenOk {β : Type} {x : Except AppError Unit} {next : Unit → Except AppError β} {r : β} :
    (x >>= next) = .ok r ↔ x = .ok () ∧ next () = .ok r := by
  rw [bindOk]
  exact ⟨fun ⟨_,first,second⟩ => ⟨first,second⟩,fun ⟨first,second⟩ => ⟨(),first,second⟩⟩

theorem loopOk {α : Type} {f : α → Except AppError Unit} {xs : List α} {last : PUnit} :
    (forIn xs PUnit.unit fun x _ => do f x; pure (ForInStep.yield PUnit.unit)) = Except.ok last ↔
      ∀ x ∈ xs, f x = .ok () := by
  induction xs with
  | nil => exact ⟨fun _ _ mem => (nomatch mem),fun _ => rfl⟩
  | cons x rest ih =>
    rw [List.forIn_cons,List.forall_mem_cons]
    constructor
    · intro ok
      obtain ⟨next,first,ok⟩ := bindOk.mp ok
      obtain ⟨passed,same⟩ := thenOk.mp first
      cases same
      exact ⟨passed,ih.mp ok⟩
    · rintro ⟨passed,others⟩
      exact bindOk.mpr ⟨.yield PUnit.unit,thenOk.mpr ⟨passed,rfl⟩,ih.mpr others⟩

def DocumentState.transitions : DocumentState → List DocumentState
  | .draft => [.prepared,.sent,.voided]
  | .prepared => [.draft,.sent,.voided]
  | .sent => [.inProgress,.completed,.voided,.expired,.declined]
  | .inProgress => [.inProgress,.completed,.voided,.expired,.declined]
  | .completed => [.finalizing]
  | .finalizing => [.finalized,.finalizationFailed]
  | .finalizationFailed => [.finalizing]
  | .finalized => []
  | .voided => []
  | .expired => []
  | .declined => []

def DocumentState.name : DocumentState → String
  | .draft => "draft"
  | .prepared => "prepared"
  | .sent => "sent"
  | .inProgress => "in_progress"
  | .completed => "completed"
  | .finalizing => "finalizing"
  | .finalized => "finalized"
  | .voided => "voided"
  | .expired => "expired"
  | .declined => "declined"
  | .finalizationFailed => "finalization_failed"

def canTransitionDocument (source target : DocumentState) : Bool := target ∈ source.transitions

def assertDocumentTransition (source target : DocumentState) : Except AppError Unit :=
  check (canTransitionDocument source target)
    (.invalidStateTransition [("from",source.name),("to",target.name),("aggregate","document")])

def SigningSessionStatus.transitions : SigningSessionStatus → List SigningSessionStatus
  | .issued => [.active,.expired,.revoked]
  | .active => [.completed,.expired,.revoked]
  | .completed => []
  | .expired => []
  | .revoked => []

def canTransitionSigningSession (source target : SigningSessionStatus) : Bool := target ∈ source.transitions

def isInspectionAccepted (status : DocumentInspectionStatus) : Bool := status = .accepted

def isPreparationState (state : DocumentState) : Bool := state = .draft ∨ state = .prepared

def isPreparationLocked (document : Document) : Bool := !isPreparationState document.state

/-- Signing is open only after inspection accepted the source and the document was
sent. `expiresAt` is not looked at. -/
def isAvailableForSigning (document : Document) : Bool :=
  isInspectionAccepted document.inspectionStatus && (document.state = .sent ∨ document.state = .inProgress)

def assertPreparationUnlocked (document : Document) : Except AppError Unit :=
  check (!isPreparationLocked document)
    (.invalidStateTransition [("aggregate","document"),("from",document.state.name),("reason","preparation_locked")])

def assertInspectionAccepted (document : Document) : Except AppError Unit :=
  check (isInspectionAccepted document.inspectionStatus)
    (.invalidStateTransition [("aggregate","document"),("reason","inspection_not_accepted")])

def assertReadyToSend (document : Document) : Except AppError Unit := do
  check (isPreparationState document.state)
    (.invalidStateTransition [("aggregate","document"),("from",document.state.name),("to","sent"),("reason","not_preparable")])
  check document.currentRevisionId.isSome
    (.invalidStateTransition [("aggregate","document"),("from",document.state.name),("to","sent"),("reason","missing_revision")])
  assertInspectionAccepted document

/-- Ordered: routing orders are unique and consecutive from 1. Parallel: all are 1.
Orders are integers here, as the column and the request schema have them. -/
def assertSignerRouting (signingMode : SigningMode) (orders : List Int) : Except AppError Unit := do
  check (1 ≤ orders.length) (.validation [("field","signers"),("reason","empty")])
  check (orders.all (fun order => 1 ≤ order)) (.validation [("field","routingOrder"),("reason","invalid")])
  match signingMode with
  | .parallel =>
      check (orders.all (fun order => order = 1)) (.validation [("field","routingOrder"),("reason","parallel_must_be_one")])
  | .ordered => do
      check (orders.dedup.length = orders.length)
        (.validation [("field","routingOrder"),("reason","ordered_must_be_unique")])
      check ((List.range orders.length).all (fun n => ((n : Int)+1) ∈ orders))
        (.validation [("field","routingOrder"),("reason","ordered_must_be_consecutive")])

/-- `Math.min(...orders)`, absent on the empty list. -/
def minimumOrder : List Int → Option Int
  | [] => none
  | order :: rest => some (rest.foldl min order)

/-- The actor is the signer as it was read, which need not be the row in `signers`. -/
def canSignerActNow (signingMode : SigningMode) (actor : Signer) (signers : List Signer) : Bool :=
  if actor.status ≠ .pending then false
  else match signingMode with
    | .parallel => true
    | .ordered =>
        let pendingOrders := (signers.filter (fun signer => signer.status = .pending)).map Signer.routingOrder
        minimumOrder pendingOrders = some actor.routingOrder

theorem foldlMinLe (order : Int) (rest : List Int) :
    rest.foldl min order ≤ order ∧ ∀ x ∈ rest, rest.foldl min order ≤ x := by
  induction rest generalizing order with
  | nil => simp
  | cons head tail ih =>
    obtain ⟨least,below⟩ := ih (min order head)
    simp only [List.foldl_cons,List.mem_cons,forall_eq_or_imp]
    exact ⟨by omega,by omega,below⟩

theorem foldlMinMem (order : Int) (rest : List Int) : rest.foldl min order = order ∨ rest.foldl min order ∈ rest := by
  induction rest generalizing order with
  | nil => exact .inl rfl
  | cons head tail ih =>
    simp only [List.foldl_cons,List.mem_cons]
    rcases ih (min order head) with same | mem
    · rw [same]
      omega
    · exact .inr (.inr mem)

theorem minimumOrderMem {orders least} (found : minimumOrder orders = some least) : least ∈ orders := by
  cases orders with
  | nil => cases found
  | cons order rest =>
    cases Option.some.inj found
    simpa using foldlMinMem order rest

theorem minimumOrderLe {orders least} (found : minimumOrder orders = some least) :
    ∀ x ∈ orders, least ≤ x := by
  cases orders with
  | nil => simp
  | cons order rest =>
    cases Option.some.inj found
    have bound := foldlMinLe order rest
    simpa using bound

/- Whoever may act in ordered mode sees nobody pending below: this is all the turn
check gives, and it speaks of the roster that was read. -/
theorem orderedTurn {actor signers} (ok : canSignerActNow .ordered actor signers = true) :
    actor.status = .pending ∧
      ∀ signer ∈ signers, signer.routingOrder < actor.routingOrder → signer.status ≠ .pending := by
  unfold canSignerActNow at ok
  split at ok
  · contradiction
  · rename_i pending
    refine ⟨by simpa using pending,?_⟩
    intro signer mem below isPending
    have least := minimumOrderLe (of_decide_eq_true ok) signer.routingOrder
      (List.mem_map.mpr ⟨signer,List.mem_filter.mpr ⟨mem,by simpa using isPending⟩,rfl⟩)
    omega

theorem actorPending {mode actor signers} (ok : canSignerActNow mode actor signers = true) :
    actor.status = .pending := by
  unfold canSignerActNow at ok
  split at ok
  · contradiction
  · rename_i pending
    simpa using pending

def epsilon : Rat := 1 / 1000000000

def assertFieldOnPage (box : FieldBox) (pageCount : Nat) : Except AppError Unit := do
  check (1 ≤ box.pageNumber ∧ box.pageNumber ≤ pageCount)
    (.validation [("field","pageNumber"),("reason","out_of_bounds"),("pageCount",toString pageCount)])
  check (0 < box.width ∧ 0 < box.height) (.validation [("field","size"),("reason","non_positive")])
  check (0 ≤ box.x ∧ 0 ≤ box.y) (.validation [("field","origin"),("reason","out_of_bounds")])
  check (box.x + box.width ≤ 1 + epsilon ∧ box.y + box.height ≤ 1 + epsilon)
    (.validation [("field","rectangle"),("reason","exceeds_page")])

def fieldsOverlap (left right : FieldBox) : Bool :=
  if left.pageNumber ≠ right.pageNumber then false
  else
    !(left.x + left.width ≤ right.x + epsilon ∨ right.x + right.width ≤ left.x + epsilon ∨
      left.y + left.height ≤ right.y + epsilon ∨ right.y + right.height ≤ left.y + epsilon)

def assertNoOverlap : List FieldBox → Except AppError Unit
  | [] => .ok ()
  | current :: rest => do
      check (!rest.any (fieldsOverlap current)) (.validation [("field","fields"),("reason","overlap_prohibited")])
      assertNoOverlap rest

def assertFieldLayout (boxes : List FieldBox) (pageCount : Nat) (overlapPolicy : FieldOverlapPolicy) :
    Except AppError Unit := do
  check (1 ≤ pageCount) (.validation [("field","pageCount"),("reason","invalid")])
  for box in boxes do assertFieldOnPage box pageCount
  match overlapPolicy with
  | .prohibit => assertNoOverlap boxes
  | .allow => .ok ()

end ESign
