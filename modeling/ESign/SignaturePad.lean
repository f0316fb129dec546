import ESign.Double

/-! The signature pad of the signing page: its state, what each pointer event makes of
it, and the two ways the keyboard draws. -/
namespace ESign
open Double

namespace SIGNATURE_BOUNDS

def maxPoints : Nat := 4000
def maxStrokes : Nat := 32
def maxDurationMs : Rat := 90000
def minPoints : Nat := 6
def minStrokes : Nat := 1

end SIGNATURE_BOUNDS

structure SignaturePoint where
  x : Double
  y : Double
  t : Double
  p : Double
  deriving DecidableEq, Repr

structure SignatureStroke where
  pointerId : Int
  points : List SignaturePoint
  deriving DecidableEq, Repr

structure SignaturePadState where
  strokes : List SignatureStroke
  active : Option SignatureStroke
  startedAt : Option Double
  pointCount : Nat
  capped : Bool
  deriving DecidableEq, Repr

structure PadRect where
  left : Double
  top : Double
  width : Double
  height : Double

inductive PadEventKind
  | down
  | move
  | up
  | cancel
  deriving DecidableEq, Repr

structure PadPointerEvent where
  kind : PadEventKind
  pointerId : Int
  clientX : Double
  clientY : Double
  pressure : Double
  timeStamp : Double
  rect : PadRect

def emptySignaturePadState : SignaturePadState :=
  {strokes := [], active := none, startedAt := none, pointCount := 0, capped := false}

def clamp01 (value : Double) : Double :=
  if !value.isFinite || value.lt (finite 0) then finite 0
  else if lt (finite 1) value then finite 1
  else value

def pressureOf (value : Double) : Double :=
  if !value.isFinite || value.le (finite 0) then finite (1 / 2) else clamp01 value

variable (arithmetic : Arithmetic)

def normalizePoint (clientX clientY : Double) (rect : PadRect) : Double × Double :=
  if rect.width.le (finite 0) || rect.height.le (finite 0) then (finite 0,finite 0)
  else (clamp01 (div arithmetic (sub arithmetic clientX rect.left) rect.width),
    clamp01 (div arithmetic (sub arithmetic clientY rect.top) rect.height))

def createPoint (event : PadPointerEvent) (startedAt : Double) : SignaturePoint :=
  let normalized := normalizePoint arithmetic event.clientX event.clientY event.rect
  {x := normalized.1, y := normalized.2,
   t := max (finite 0) (sub arithmetic event.timeStamp startedAt), p := pressureOf event.pressure}

namespace SignaturePadState

variable (state : SignaturePadState)

def wouldExceed (extraPoints extraStrokes : Nat) : Bool :=
  let strokeCount := state.strokes.length + (if state.active = none then 0 else 1) + extraStrokes
  state.pointCount + extraPoints > SIGNATURE_BOUNDS.maxPoints || strokeCount > SIGNATURE_BOUNDS.maxStrokes

def endActiveStroke : SignaturePadState :=
  match state.active with
  | none => state
  | some active =>
      if active.points = [] then {state with active := none}
      else {state with strokes := state.strokes ++ [active], active := none}

def committedStrokes : List SignatureStroke :=
  match state.active with
  | none => state.strokes
  | some active => if active.points = [] then state.strokes else state.strokes ++ [active]

def isSignatureValid : Bool :=
  state.committedStrokes.length ≥ SIGNATURE_BOUNDS.minStrokes && state.pointCount ≥ SIGNATURE_BOUNDS.minPoints

def signatureDurationMs : Double :=
  let points := state.committedStrokes.flatMap SignatureStroke.points
  let maxElapsed := points.foldl (fun latest point => if latest.lt point.t then point.t else latest) (finite 0)
  Double.min (finite SIGNATURE_BOUNDS.maxDurationMs) (Double.max (finite 0) (round maxElapsed))

def elapsed (timeStamp : Double) : Double :=
  match state.startedAt with
  | none => finite 0
  | some startedAt => max (finite 0) (sub arithmetic timeStamp startedAt)

def expired (timeStamp : Double) : Bool :=
  lt (finite SIGNATURE_BOUNDS.maxDurationMs) (state.elapsed arithmetic timeStamp)

def extend (active : SignatureStroke) (event : PadPointerEvent) : SignaturePadState :=
  let point := createPoint arithmetic event (state.startedAt.getD event.timeStamp)
  {state with active := some {active with points := active.points ++ [point]}, pointCount := state.pointCount + 1}

def reducePointer (event : PadPointerEvent) : SignaturePadState :=
  if state.expired arithmetic event.timeStamp then endActiveStroke {state with capped := true}
  else if event.kind = .down then
    if state.active ≠ none then state
    else if state.wouldExceed 1 1 then {state with capped := true}
    else
      let point := createPoint arithmetic event (state.startedAt.getD event.timeStamp)
      {state with active := some ⟨event.pointerId,[point]⟩,
                  startedAt := some (state.startedAt.getD event.timeStamp),
                  pointCount := state.pointCount + 1}
  else
    match state.active with
    | none => state
    | some active =>
        if active.pointerId ≠ event.pointerId then state
        else match event.kind with
          | .move => if state.wouldExceed 1 0 then {state with capped := true} else state.extend arithmetic active event
          | .cancel => {state with active := none}
          | .up => if state.wouldExceed 1 0 then state.endActiveStroke
                   else (state.extend arithmetic active event).endActiveStroke
          | .down => state

def addKeyboardPoint (x y timeStamp : Double) : SignaturePadState :=
  state.reducePointer arithmetic
    {kind := if state.active = none then .down else .move, pointerId := -1, clientX := x, clientY := y,
     pressure := finite (1 / 2), timeStamp,
     rect := {left := finite 0, top := finite 0, width := finite 1, height := finite 1}}

def endKeyboardStroke : SignaturePadState :=
  match state.active with
  | none => state
  | some active => if active.pointerId ≠ -1 then state else state.endActiveStroke

end SignaturePadState

inductive PadStep
  | pointer (event : PadPointerEvent)
  | keyboardPoint (x y timeStamp : Double)
  | endKeyboardStroke

namespace PadStep

def apply (state : SignaturePadState) : PadStep → SignaturePadState
  | pointer event => state.reducePointer arithmetic event
  | keyboardPoint x y timeStamp => state.addKeyboardPoint arithmetic x y timeStamp
  | endKeyboardStroke => state.endKeyboardStroke

def Timed : PadStep → Prop
  | pointer event => event.timeStamp.isFinite = true
  | keyboardPoint _ _ timeStamp => timeStamp.isFinite = true
  | endKeyboardStroke => True

/-- A cancellation, in time, of the stroke that is being drawn. -/
def discards (state : SignaturePadState) : PadStep → Bool
  | pointer event =>
      event.kind = .cancel && !state.expired arithmetic event.timeStamp &&
        state.active.any fun active => active.pointerId = event.pointerId
  | _ => false

def run (state : SignaturePadState) (steps : List PadStep) : SignaturePadState := steps.foldl (apply arithmetic) state

end PadStep

/-! Points, as the pad stores them. -/

structure SignaturePoint.InRange (point : SignaturePoint) : Prop where
  x : Within 0 1 point.x
  y : Within 0 1 point.y
  t : Within 0 SIGNATURE_BOUNDS.maxDurationMs point.t
  p : Within 0 1 point.p

theorem clampedUnit (value : Double) : Within 0 1 (clamp01 value) := by
  cases value with
  | finite value =>
    by_cases negative : value < 0
    · exact ⟨0,by simp [clamp01,isFinite,lt,negative],le_refl 0,zero_le_one⟩
    · by_cases large : 1 < value
      · exact ⟨1,by simp [clamp01,isFinite,lt,negative,large],zero_le_one,le_refl 1⟩
      · exact ⟨value,by simp [clamp01,isFinite,lt,negative,large],not_lt.mp negative,not_lt.mp large⟩
  | _ => exact ⟨0,rfl,le_refl 0,zero_le_one⟩

theorem pressureUnit (value : Double) : Within 0 1 (pressureOf value) := by
  unfold pressureOf
  split
  · exact ⟨1 / 2,rfl,by norm_num,by norm_num⟩
  · exact clampedUnit value

theorem normalizedUnit (clientX clientY : Double) (rect : PadRect) :
    Within 0 1 (normalizePoint arithmetic clientX clientY rect).1 ∧
      Within 0 1 (normalizePoint arithmetic clientX clientY rect).2 := by
  unfold normalizePoint
  split
  · exact ⟨⟨0,rfl,le_refl 0,zero_le_one⟩,⟨0,rfl,le_refl 0,zero_le_one⟩⟩
  · exact ⟨clampedUnit _,clampedUnit _⟩

theorem finiteValue {a : Double} (finite : a.isFinite = true) : ∃ value, a = .finite value := by
  cases a with
  | finite value => exact ⟨value,rfl⟩
  | _ => exact nomatch finite

/-! What one step can do. -/

namespace SignaturePadState

variable {arithmetic} {state : SignaturePadState}

/-- The strokes that would be committed now; an active stroke is never empty. -/
def drawn (state : SignaturePadState) : List SignatureStroke := state.strokes ++ state.active.toList

def pointsOf (strokes : List SignatureStroke) : Nat := (strokes.flatMap SignatureStroke.points).length

/-- One step, with the number of points that it drops. -/
inductive Change (state : SignaturePadState) : Nat → SignaturePadState → Prop
  | capped (capped : Bool) : Change state 0 {state with capped}
  | began {pointerId point startedAt} (idle : state.active = none) (room : state.wouldExceed 1 1 = false)
      (inRange : point.InRange) (finite : startedAt.isFinite = true) :
      Change state 0 {state with active := some ⟨pointerId,[point]⟩, startedAt := some startedAt,
                                 pointCount := state.pointCount + 1}
  | extended {active point} (drawing : state.active = some active) (room : state.wouldExceed 1 0 = false)
      (inRange : point.InRange) :
      Change state 0 {state with active := some {active with points := active.points ++ [point]},
                                 pointCount := state.pointCount + 1}
  | ended {middle} (before : Change state 0 middle) : Change state 0 middle.endActiveStroke
  | discarded {active} (drawing : state.active = some active) :
      Change state active.points.length {state with active := none}

/-- `lost` points were counted and then dropped. -/
structure Invariant (lost : Nat) (state : SignaturePadState) : Prop where
  counted : state.pointCount = pointsOf state.drawn + lost
  points : state.pointCount ≤ SIGNATURE_BOUNDS.maxPoints
  strokes : state.drawn.length ≤ SIGNATURE_BOUNDS.maxStrokes
  nonempty : ∀ stroke ∈ state.drawn, stroke.points ≠ []
  inRange : ∀ stroke ∈ state.drawn, ∀ point ∈ stroke.points, point.InRange
  started : ∀ startedAt, state.startedAt = some startedAt → startedAt.isFinite = true
  running : state.startedAt = none → state.active = none

variable {lost dropped : Nat} {next : SignaturePadState}

theorem invariantEmpty : Invariant 0 emptySignaturePadState where
  counted := rfl
  points := Nat.zero_le _
  strokes := Nat.zero_le _
  nonempty := fun _ mem => nomatch mem
  inRange := fun _ mem => nomatch mem
  started := fun _ same => nomatch same
  running := fun _ => rfl

theorem activeDrawn {active : SignatureStroke} (drawing : state.active = some active) : active ∈ state.drawn := by
  rw [drawn,drawing]
  exact List.mem_append_right _ (List.mem_singleton_self active)

theorem Invariant.committed (inv : Invariant lost state) : state.committedStrokes = state.drawn := by
  unfold committedStrokes drawn
  cases drawing : state.active with
  | none => simp
  | some active => simp [inv.nonempty active (activeDrawn drawing)]

theorem Invariant.ended (inv : Invariant lost state) :
    state.endActiveStroke = {state with strokes := state.drawn, active := none} := by
  unfold endActiveStroke
  cases drawing : state.active with
  | none =>
    have same : state.drawn = state.strokes := by simp [drawn,drawing]
    show state = _
    rw [same,← drawing]
  | some active => simp [drawn,drawing,inv.nonempty active (activeDrawn drawing)]

theorem roomFor {extraPoints extraStrokes} (room : state.wouldExceed extraPoints extraStrokes = false) :
    state.pointCount + extraPoints ≤ SIGNATURE_BOUNDS.maxPoints ∧
      state.drawn.length + extraStrokes ≤ SIGNATURE_BOUNDS.maxStrokes := by
  rw [wouldExceed,Bool.or_eq_false_iff,decide_eq_false_iff_not,decide_eq_false_iff_not,not_lt,not_lt] at room
  refine ⟨room.1,?_⟩
  have strokes := room.2
  cases drawing : state.active <;> simp [drawing] at strokes <;> simp [drawn,drawing] <;> omega

theorem Invariant.redrawn (inv : Invariant lost state) {stroke : SignatureStroke} {startedAt : Option Double}
    (points : stroke.points ≠ []) (inRange : ∀ point ∈ stroke.points, point.InRange)
    (counted : pointsOf (state.strokes ++ [stroke]) = pointsOf state.drawn + 1)
    (room : state.pointCount + 1 ≤ SIGNATURE_BOUNDS.maxPoints)
    (fits : state.strokes.length + 1 ≤ SIGNATURE_BOUNDS.maxStrokes)
    (started : ∀ s, startedAt = some s → s.isFinite = true) (running : startedAt ≠ none) :
    Invariant lost {state with active := some stroke, startedAt, pointCount := state.pointCount + 1} where
  counted := by
    have before := inv.counted
    show state.pointCount + 1 = pointsOf (state.strokes ++ [stroke]) + lost
    omega
  points := room
  strokes := by simpa [drawn] using fits
  nonempty := by
    intro other mem
    rcases List.mem_append.mp mem with mem | mem
    · exact inv.nonempty other (List.mem_append_left _ mem)
    · rw [List.mem_singleton.mp mem]
      exact points
  inRange := by
    intro other mem
    rcases List.mem_append.mp mem with mem | mem
    · exact inv.inRange other (List.mem_append_left _ mem)
    · rw [List.mem_singleton.mp mem]
      exact inRange
  started := started
  running := fun none => absurd none running

theorem Invariant.kept (inv : Invariant lost state) (change : Change state dropped next) :
    Invariant (lost + dropped) next := by
  induction change with
  | capped capped => exact {inv with}
  | began idle room inRange finite =>
    obtain ⟨points,strokes⟩ := roomFor room
    have drawn : state.drawn = state.strokes := by simp [SignaturePadState.drawn,idle]
    rw [drawn] at strokes
    exact inv.redrawn (List.cons_ne_nil _ _) (by simpa using inRange) (by simp [pointsOf,drawn]) points strokes
      (fun _ same => Option.some.inj same ▸ finite) (Option.some_ne_none _)
  | @extended active point drawing room inRange =>
    obtain ⟨points,-⟩ := roomFor room
    have mem := activeDrawn drawing
    have drawn : state.drawn = state.strokes ++ [active] := by simp [SignaturePadState.drawn,drawing]
    have strokes := inv.strokes
    rw [drawn,List.length_append] at strokes
    refine inv.redrawn (by simp) ?_ (by simp [pointsOf,drawn]; omega) points strokes inv.started
      (fun none => ?_)
    · intro other
      rw [List.mem_append,List.mem_singleton]
      rintro (mem' | rfl)
      · exact inv.inRange active mem other mem'
      · exact inRange
    · rw [inv.running none] at drawing
      cases drawing
  | ended before ih =>
    rw [ih.ended]
    have drawn : ∀ middle : SignaturePadState,
        SignaturePadState.drawn {middle with strokes := middle.drawn, active := none} = middle.drawn :=
      fun middle => by simp [SignaturePadState.drawn]
    exact {ih with
      counted := by rw [drawn]; exact ih.counted
      strokes := by rw [drawn]; exact ih.strokes
      nonempty := by rw [drawn]; exact ih.nonempty
      inRange := by rw [drawn]; exact ih.inRange
      running := fun _ => rfl}
  | @discarded active drawing =>
    have drawn : state.drawn = state.strokes ++ [active] := by simp [SignaturePadState.drawn,drawing]
    have rest : SignaturePadState.drawn {state with active := none} = state.strokes := by
      simp [SignaturePadState.drawn]
    have kept : ∀ stroke ∈ state.strokes, stroke ∈ state.drawn := fun _ mem => List.mem_append_left _ mem
    refine {inv with counted := ?_, strokes := ?_, nonempty := ?_, inRange := ?_, running := fun _ => rfl}
    · have counted := inv.counted
      rw [drawn] at counted
      rw [rest]
      simp [pointsOf] at counted ⊢
      omega
    · have strokes := inv.strokes
      rw [drawn,List.length_append] at strokes
      rw [rest]
      exact le_trans (Nat.le_add_right _ _) strokes
    · rw [rest]
      exact fun stroke mem => inv.nonempty stroke (kept stroke mem)
    · rw [rest]
      exact fun stroke mem => inv.inRange stroke (kept stroke mem)

theorem Invariant.eventInRange (inv : Invariant lost state) {event : PadPointerEvent}
    (timed : event.timeStamp.isFinite = true) (inTime : state.expired arithmetic event.timeStamp = false) :
    (createPoint arithmetic event (state.startedAt.getD event.timeStamp)).InRange := by
  obtain ⟨x,y⟩ := normalizedUnit arithmetic event.clientX event.clientY event.rect
  refine ⟨x,y,?_,pressureUnit _⟩
  obtain ⟨timeStamp,at_⟩ := finiteValue timed
  show Within 0 _ (max (finite 0) (sub arithmetic event.timeStamp (state.startedAt.getD event.timeStamp)))
  unfold expired elapsed at inTime
  cases begin_ : state.startedAt with
  | none =>
    refine ⟨0,?_,le_refl 0,by norm_num [SIGNATURE_BOUNDS.maxDurationMs]⟩
    simp [at_,sub,arithmetic.zero,Double.max,Double.lt]
  | some startedAt =>
    obtain ⟨start,same⟩ := finiteValue (inv.started startedAt begin_)
    rw [begin_,at_,same] at inTime
    rw [at_,same,Option.getD_some]
    exact maxZero (subNumber arithmetic timeStamp start) (by norm_num [SIGNATURE_BOUNDS.maxDurationMs]) inTime

variable (arithmetic) in
/- Every branch of `reducePointer` is one change; only a cancellation drops points. -/
theorem Invariant.reduced (inv : Invariant lost state) (event : PadPointerEvent)
    (timed : event.timeStamp.isFinite = true) :
    ∃ dropped, Change state dropped (state.reducePointer arithmetic event) ∧
      (0 < dropped ↔ PadStep.discards arithmetic state (.pointer event) = true) := by
  unfold reducePointer PadStep.discards
  cases inTime : state.expired arithmetic event.timeStamp with
  | true => exact ⟨0,.ended (.capped true),by simp [inTime]⟩
  | false =>
    have inRange := inv.eventInRange timed inTime
    rw [if_neg Bool.false_ne_true]
    by_cases down : event.kind = .down
    · rw [if_pos down]
      split
      · exact ⟨0,.capped state.capped,by simp [down]⟩
      · next idle =>
        cases room : state.wouldExceed 1 1 with
        | true => exact ⟨0,.capped true,by simp [down]⟩
        | false =>
          refine ⟨0,.began (by simpa using idle) room inRange ?_,by simp [down]⟩
          cases begin_ : state.startedAt with
          | none => exact timed
          | some startedAt => exact inv.started startedAt begin_
    · rw [if_neg down]
      cases drawing : state.active with
      | none => exact ⟨0,.capped state.capped,by simp⟩
      | some active =>
        by_cases own : active.pointerId = event.pointerId
        · have points := List.length_pos_iff.mpr (inv.nonempty active (activeDrawn drawing))
          have capped : state.Change 0 {state with capped := true} := .capped true
          rw [drawing] at capped
          cases kind : event.kind with
          | down => exact absurd kind down
          | move =>
            cases room : state.wouldExceed 1 0 with
            | true => exact ⟨0,by simpa [own,room] using capped,by simp [kind]⟩
            | false => exact ⟨0,by simpa [own,room] using .extended drawing room inRange,by simp [kind]⟩
          | cancel => exact ⟨_,by simpa [own] using .discarded drawing,by simp [own,kind,inTime,points]⟩
          | up =>
            cases room : state.wouldExceed 1 0 with
            | true => exact ⟨0,by simpa [own,room] using .ended (.capped state.capped),by simp [kind]⟩
            | false => exact ⟨0,by simpa [own,room] using .ended (.extended drawing room inRange),by simp [kind]⟩
        · exact ⟨0,by simpa [own] using .capped state.capped,by simp [own]⟩

end SignaturePadState

/-! Runs of steps. -/

namespace PadStep
open SignaturePadState

variable {arithmetic} {state : SignaturePadState} {lost : Nat}

variable (arithmetic) in
theorem changed (inv : Invariant lost state) {step : PadStep} (timed : step.Timed) :
    ∃ dropped, Change state dropped (step.apply arithmetic state) ∧
      (0 < dropped ↔ step.discards arithmetic state = true) := by
  cases step with
  | pointer event => exact inv.reduced arithmetic event timed
  | keyboardPoint x y timeStamp =>
    obtain ⟨dropped,change,drops⟩ := inv.reduced arithmetic
      ⟨if state.active = none then .down else .move,-1,x,y,finite (1 / 2),timeStamp,_⟩ timed
    refine ⟨dropped,change,drops.trans ?_⟩
    by_cases idle : state.active = none <;> simp [discards,idle]
  | endKeyboardStroke =>
    refine ⟨0,?_,by simp [discards]⟩
    show Change state 0 state.endKeyboardStroke
    unfold SignaturePadState.endKeyboardStroke
    split
    · exact .capped state.capped
    · split
      · exact .capped state.capped
      · exact .ended (.capped state.capped)

/-- No step of the run cancels a stroke that is being drawn. -/
def undisturbed (arithmetic : Arithmetic) (state : SignaturePadState) : List PadStep → Bool
  | [] => true
  | step :: rest => !step.discards arithmetic state && undisturbed arithmetic (step.apply arithmetic state) rest

variable (arithmetic) in
theorem ran {steps : List PadStep} (inv : Invariant lost state) (timed : ∀ step ∈ steps, step.Timed) :
    ∃ dropped, Invariant (lost + dropped) (run arithmetic state steps) ∧
      (dropped = 0 ↔ undisturbed arithmetic state steps = true) := by
  induction steps generalizing state lost with
  | nil => exact ⟨0,inv,by simp [undisturbed]⟩
  | cons step rest ih =>
    obtain ⟨now,change,drops⟩ := changed arithmetic inv (timed step List.mem_cons_self)
    obtain ⟨later,kept,none⟩ := ih (inv.kept change) fun step mem => timed step (List.mem_cons_of_mem _ mem)
    refine ⟨now + later,by rw [← Nat.add_assoc]; exact kept,?_⟩
    rw [undisturbed,Bool.and_eq_true,← none,Bool.not_eq_true',← Bool.not_eq_true,← drops]
    omega

/-- What the request schema and the validity check rely on. -/
structure Sound (state : SignaturePadState) : Prop where
  counted : state.pointCount = pointsOf state.committedStrokes
  points : pointsOf state.committedStrokes ≤ SIGNATURE_BOUNDS.maxPoints
  strokes : state.committedStrokes.length ≤ SIGNATURE_BOUNDS.maxStrokes
  inRange : ∀ stroke ∈ state.committedStrokes, ∀ point ∈ stroke.points,
    Within 0 1 point.x ∧ Within 0 1 point.y ∧ Within 0 1 point.p ∧ Double.le (finite 0) point.t = true
  valid : state.isSignatureValid = true → SIGNATURE_BOUNDS.minPoints ≤ pointsOf state.committedStrokes

theorem soundIff (inv : Invariant lost state) : Sound state ↔ lost = 0 := by
  have counted := inv.counted
  have committed := inv.committed
  constructor
  · intro sound
    have same := sound.counted
    rw [committed] at same
    omega
  · rintro rfl
    refine ⟨committed ▸ counted,?_,committed ▸ inv.strokes,?_,?_⟩
    · have points := inv.points
      rw [committed]
      omega
    · rw [committed]
      intro stroke mem point mem'
      obtain ⟨x,y,⟨t,same,nonneg,-⟩,p⟩ := inv.inRange stroke mem point mem'
      exact ⟨x,y,p,by rw [same]; exact decide_eq_true nonneg⟩
    · intro valid
      have enough := of_decide_eq_true (Bool.and_eq_true_iff.mp valid).2
      rw [committed]
      omega

theorem padSoundIff (arithmetic : Arithmetic) (steps : List PadStep) (timed : ∀ step ∈ steps, step.Timed) :
    Sound (run arithmetic emptySignaturePadState steps) ↔
      undisturbed arithmetic emptySignaturePadState steps = true := by
  obtain ⟨dropped,inv,none⟩ := ran arithmetic invariantEmpty timed
  rw [soundIff inv,← none,Nat.zero_add]

/-! A line that is drawn, and the same line broken off and replaced by a dot. -/

def event (kind : PadEventKind) (clientX timeStamp : Rat) : PadStep :=
  .pointer ⟨kind,7,finite clientX,finite 10,finite (1 / 2),finite timeStamp,
    finite 0,finite 0,finite 100,finite 50⟩

def line : List PadStep :=
  [event .down 10 0,event .move 20 8,event .move 30 16,event .move 40 24,event .move 50 32]

theorem lineSound : Sound (run .exact emptySignaturePadState (line ++ [event .up 60 40])) :=
  (padSoundIff .exact (line ++ [event .up 60 40]) (by simp [line,event,Timed,isFinite])).mpr (by decide +kernel)

theorem cancelledLine : ¬ ∀ (arithmetic : Arithmetic) (steps : List PadStep), (∀ step ∈ steps, step.Timed) →
    Sound (run arithmetic emptySignaturePadState steps) := by
  intro sound
  have valid := (sound .exact (line ++ [event .cancel 50 40,event .down 10 48,event .up 11 56])
    (by simp [line,event,Timed,isFinite])).valid (by decide +kernel)
  exact absurd valid (by decide +kernel)

end PadStep
end ESign
