import ESign.JsText
import ESign.SignaturePad
import ESign.UseCases

/-! Submitting from the signing page: when the page lets a signer submit, what it sends,
and what the server asks of the same fields. -/
namespace ESign
open Double JsText

/-- A field as the server lists it for the signer. -/
structure SignerField where
  fieldId : Id
  type : SignatureFieldType
  box : FieldBox
  required : Bool
  deriving DecidableEq, Repr

def SignatureField.toSignerField (field : SignatureField) : SignerField :=
  {fieldId := field.id, type := field.type, box := field.box, required := field.required}

structure InkCapture where
  pngBase64 : Utf16
  state : SignaturePadState

structure InkPayload where
  pngBase64 : Utf16
  durationMs : Double
  strokes : List (List SignaturePoint)
  deriving DecidableEq, Repr

structure CompleteSigningRequest where
  consentCopyId : Utf16
  intentToSign : Bool
  fieldIds : List Id
  signature : Option InkPayload
  initials : Option InkPayload
  deriving DecidableEq, Repr

/-! The request schema. A field id is a UUID as it stands. -/

def unitSchema (value : Double) : Bool := le (finite 0) value && le value (finite 1)

def signatureStrokePointSchema (point : SignaturePoint) : Bool :=
  unitSchema point.x && unitSchema point.y && le (finite 0) point.t && unitSchema point.p

def durationSchema (value : Double) : Bool :=
  match value with
  | finite value => value.den = 1 && decide (0 ≤ value) && decide (value ≤ 90000)
  | _ => false

def signatureInkPayloadSchema (ink : InkPayload) : Bool :=
  1 ≤ ink.pngBase64.length && ink.pngBase64.length ≤ 400000 &&
    ink.strokes.all (fun points =>
      1 ≤ points.length && points.length ≤ 4000 && points.all signatureStrokePointSchema) &&
    1 ≤ ink.strokes.length && ink.strokes.length ≤ 32 && durationSchema ink.durationMs

def completeSigningRequestSchema (request : CompleteSigningRequest) : Bool :=
  1 ≤ request.consentCopyId.length && request.consentCopyId.length ≤ 120 && request.intentToSign &&
    1 ≤ request.fieldIds.length && request.fieldIds.length ≤ 200 &&
    request.signature.all signatureInkPayloadSchema && request.initials.all signatureInkPayloadSchema

/-! The page. -/

def needsInk (fields : List SignerField) (type : SignatureFieldType) : Bool :=
  fields.any fun field => field.required && field.type = type

structure ReadinessInput where
  consented : Bool
  intentToSign : Bool
  submitting : Bool
  fields : List SignerField
  signature : SignaturePadState
  initials : SignaturePadState

def ReadinessInput.reasons (input : ReadinessInput) : List String :=
  (if input.submitting then ["Finalization is already in progress."] else []) ++
  (if input.fields.length = 0 then ["No fields are assigned to complete."] else []) ++
  (if !input.consented then ["Consent is required."] else []) ++
  (if !input.intentToSign then ["Intent to sign is required."] else []) ++
  (if needsInk input.fields .signature && !input.signature.isSignatureValid then
    ["A signature is required."] else []) ++
  (if needsInk input.fields .initials && !input.initials.isSignatureValid then ["Initials are required."] else [])

/-- `canSubmit`, with the reasons against it. -/
def submitReadiness (input : ReadinessInput) : Bool × List String :=
  (input.reasons.length = 0,input.reasons)

def toInkPayload (capture : InkCapture) : InkPayload :=
  {pngBase64 := capture.pngBase64
   durationMs := capture.state.signatureDurationMs
   strokes := (capture.state.committedStrokes.take SIGNATURE_BOUNDS.maxStrokes).map SignatureStroke.points}

/-- `none` when the schema throws. -/
def buildCompleteRequest (consentCopyId : Utf16) (fields : List SignerField) (signature initials : Option InkCapture) :
    Option CompleteSigningRequest :=
  let request : CompleteSigningRequest :=
    {consentCopyId, intentToSign := true, fieldIds := fields.map SignerField.fieldId,
     signature := signature.map toInkPayload, initials := initials.map toInkPayload}
  if completeSigningRequestSchema request then some request else none

/-- `goToReview` exports a pad only when a field needs it. -/
def captureInk (fields : List SignerField) (type : SignatureFieldType) (pngBase64 : Utf16) (state : SignaturePadState) :
    Option InkCapture :=
  if needsInk fields type then some ⟨pngBase64,state⟩ else none

/-- A pad that was drawn on since it was cleared. -/
def Drawn (arithmetic : Arithmetic) (state : SignaturePadState) : Prop :=
  ∃ steps, (∀ step ∈ steps, PadStep.Timed step) ∧ state = PadStep.run arithmetic emptySignaturePadState steps

/-- The signing page with the fields that the server listed for its signer. The consent
was recorded under its id, and the exported images are within their bound. -/
structure SigningPage (arithmetic : Arithmetic) where
  fields : List SignatureField
  distinct : (fields.map SignatureField.id).Nodup
  consentCopyId : Utf16
  recorded : 1 ≤ consentCopyId.length ∧ consentCopyId.length ≤ 120
  consented : Bool
  intentToSign : Bool
  submitting : Bool
  signature : SignaturePadState
  signatureDrawn : Drawn arithmetic signature
  initials : SignaturePadState
  initialsDrawn : Drawn arithmetic initials
  signaturePng : Utf16
  signatureBound : 1 ≤ signaturePng.length ∧ signaturePng.length ≤ 400000
  initialsPng : Utf16
  initialsBound : 1 ≤ initialsPng.length ∧ initialsPng.length ≤ 400000

namespace SigningPage

variable {arithmetic : Arithmetic} (page : SigningPage arithmetic)

def listed : List SignerField := page.fields.map SignatureField.toSignerField

def canSubmit : Bool :=
  (submitReadiness ⟨page.consented,page.intentToSign,page.submitting,page.listed,page.signature,page.initials⟩).1

def request : Option CompleteSigningRequest :=
  buildCompleteRequest page.consentCopyId page.listed
    (captureInk page.listed .signature page.signaturePng page.signature)
    (captureInk page.listed .initials page.initialsPng page.initials)

/-- The request is built, and the server takes it for these fields. -/
def Agreed : Prop :=
  ∃ request selected, page.request = some request ∧ selectFields page.fields request.fieldIds = .ok selected ∧
    assertInkForFields selected request.signature.isSome request.initials.isSome = .ok ()

/-- No field of the type, or one of them is required. -/
def inkAsked (fields : List SignatureField) (type : SignatureFieldType) : Prop :=
  fields.any (fun field => field.type = type) = true →
    fields.any (fun field => field.required && field.type = type) = true

end SigningPage

theorem latestWithin {points : List SignaturePoint} {start high : Rat} (low : 0 ≤ start ∧ start ≤ high)
    (within : ∀ point ∈ points, Within 0 high point.t) :
    Within 0 high (points.foldl (fun latest point => if latest.lt point.t then point.t else latest) (finite start)) := by
  induction points generalizing start with
  | nil => exact ⟨start,rfl,low⟩
  | cons point rest ih =>
    obtain ⟨t,same,bounds⟩ := within point List.mem_cons_self
    have later := fun point mem => within point (List.mem_cons_of_mem _ mem)
    rw [List.foldl_cons,same]
    split
    · exact ih bounds later
    · exact ih low later

theorem clamped {low high value : Rat} (above : low ≤ value) (below : value ≤ high) :
    Double.min (finite high) (Double.max (finite low) (finite value)) = finite value := by
  have largest : Double.max (finite low) (finite value) = finite value := by
    by_cases larger : low < value
    · simp [Double.max,lt,larger]
    · simp [Double.max,lt,le_antisymm above (not_lt.mp larger)]
  rw [largest]
  by_cases smaller : value < high
  · simp [Double.min,lt,smaller]
  · simp [Double.min,lt,le_antisymm below (not_lt.mp smaller)]

theorem durationAccepted {state : SignaturePadState} {lost} (inv : SignaturePadState.Invariant lost state) :
    durationSchema state.signatureDurationMs = true := by
  have points : ∀ point ∈ state.committedStrokes.flatMap SignatureStroke.points, Within 0 90000 point.t := by
    rw [inv.committed]
    intro point mem
    obtain ⟨stroke,mem,mem'⟩ := List.mem_flatMap.mp mem
    exact (inv.inRange stroke mem point mem').t
  obtain ⟨value,same,low,high⟩ := latestWithin ⟨le_refl 0,by norm_num⟩ points
  have rounded : 0 ≤ ⌊value + 1 / 2⌋ ∧ ⌊value + 1 / 2⌋ ≤ 90000 := by
    refine ⟨Int.floor_nonneg.mpr (by linarith),Int.lt_add_one_iff.mp (Int.floor_lt.mpr ?_)⟩
    norm_num
    linarith
  rw [SignaturePadState.signatureDurationMs,same]
  show durationSchema (Double.min (finite 90000) (Double.max _ (finite ⌊value + 1 / 2⌋))) = true
  rw [clamped (by exact_mod_cast rounded.1) (by exact_mod_cast rounded.2)]
  simp only [durationSchema,Rat.den_intCast,decide_true,Bool.true_and,Bool.and_eq_true,decide_eq_true_eq]
  exact_mod_cast rounded

theorem strokeAccepted {point : SignaturePoint} (inRange : point.InRange) : signatureStrokePointSchema point = true := by
  obtain ⟨⟨x,x',x0,x1⟩,⟨y,y',y0,y1⟩,⟨t,t',t0,-⟩,⟨p,p',p0,p1⟩⟩ := inRange
  simp [signatureStrokePointSchema,unitSchema,x',y',t',p',le,x0,x1,y0,y1,t0,p0,p1]

theorem payloadAccepted {arithmetic} {state : SignaturePadState} {png : Utf16} (drawn : Drawn arithmetic state)
    (valid : state.isSignatureValid = true) (bound : 1 ≤ png.length ∧ png.length ≤ 400000) :
    signatureInkPayloadSchema (toInkPayload ⟨png,state⟩) = true := by
  obtain ⟨steps,timed,rfl⟩ := drawn
  obtain ⟨lost,inv,-⟩ := PadStep.ran arithmetic SignaturePadState.invariantEmpty timed
  have duration := durationAccepted inv
  have some := of_decide_eq_true (Bool.and_eq_true_iff.mp valid).1
  have few := inv.strokes
  have counted := inv.counted
  have points := inv.points
  generalize PadStep.run arithmetic emptySignaturePadState steps = state at *
  rw [inv.committed] at some
  have whole : state.committedStrokes.take SIGNATURE_BOUNDS.maxStrokes = state.drawn := by
    rw [inv.committed,List.take_of_length_le few]
  have strokes : ∀ stroke ∈ state.drawn, 1 ≤ stroke.points.length ∧ stroke.points.length ≤ 4000 ∧
      ∀ point ∈ stroke.points, signatureStrokePointSchema point = true := by
    intro stroke mem
    refine ⟨List.length_pos_iff.mpr (inv.nonempty stroke mem),?_,
      fun point mem' => strokeAccepted (inv.inRange stroke mem point mem')⟩
    have part : stroke.points.length ≤ SignaturePadState.pointsOf state.drawn := by
      rw [SignaturePadState.pointsOf,List.flatMap_def]
      exact (List.sublist_flatten_of_mem (List.mem_map_of_mem mem)).length_le
    show _ ≤ SIGNATURE_BOUNDS.maxPoints
    omega
  simp only [signatureInkPayloadSchema,toInkPayload,whole,duration,List.length_map,Bool.and_eq_true,decide_eq_true_eq,
    List.all_eq_true,List.forall_mem_map]
  exact ⟨⟨⟨⟨bound,fun stroke mem => ⟨⟨(strokes stroke mem).1,(strokes stroke mem).2.1⟩,(strokes stroke mem).2.2⟩⟩,
    some⟩,few⟩,trivial⟩

/-! The server, given all the ids that it listed. -/

theorem selectsAll {fields : List SignatureField} (distinct : (fields.map SignatureField.id).Nodup) :
    selectFields fields (fields.map SignatureField.id) = .ok fields := by
  have all : ∀ field ∈ fields, field.id ∈ fields.map SignatureField.id := fun _ mem => List.mem_map_of_mem mem
  have selected : fields.filter (fun field => field.id ∈ fields.map SignatureField.id) = fields :=
    List.filter_eq_self.mpr fun field mem => decide_eq_true (all field mem)
  have required : (fields.filter SignatureField.required).all (fun field => field.id ∈ fields.map SignatureField.id) = true :=
    List.all_eq_true.mpr fun field mem => decide_eq_true (all field (List.mem_of_mem_filter mem))
  rw [selectFields,distinct.dedup]
  simp only [selected,required,List.length_map]
  rfl

theorem inkForFields {fields : List SignatureField} {hasSignature hasInitials : Bool} :
    assertInkForFields fields hasSignature hasInitials = .ok () ↔
      (fields.any (fun field => field.type = .signature) = true → hasSignature = true) ∧
        (fields.any (fun field => field.type = .initials) = true → hasInitials = true) := by
  simp only [assertInkForFields,thenOk,checkOk,Bool.or_eq_true,Bool.not_eq_true',← Bool.not_eq_true,← imp_iff_not_or]

theorem capturedIff {fields : List SignerField} {type : SignatureFieldType} {png : Utf16} {state : SignaturePadState} :
    (captureInk fields type png state).isSome = needsInk fields type := by
  unfold captureInk
  split <;> simp_all

theorem capturedAccepted {arithmetic} {fields : List SignerField} {type : SignatureFieldType} {png : Utf16}
    {state : SignaturePadState} (drawn : Drawn arithmetic state) (bound : 1 ≤ png.length ∧ png.length ≤ 400000)
    (ready : needsInk fields type = true → state.isSignatureValid = true) :
    ((captureInk fields type png state).map toInkPayload).all signatureInkPayloadSchema = true := by
  unfold captureInk
  split
  · next needed => exact payloadAccepted drawn (ready needed) bound
  · rfl

namespace SigningPage

variable {arithmetic : Arithmetic} (page : SigningPage arithmetic)

structure Ready : Prop where
  listed : page.fields ≠ []
  signature : needsInk page.listed .signature = true → page.signature.isSignatureValid = true
  initials : needsInk page.listed .initials = true → page.initials.isSignatureValid = true

theorem ready (can : page.canSubmit = true) : page.Ready := by
  have reasons := List.length_eq_zero_iff.mp (of_decide_eq_true can)
  simp only [ReadinessInput.reasons,List.append_eq_nil_iff] at reasons
  obtain ⟨⟨⟨⟨⟨-,some⟩,-⟩,-⟩,signature⟩,initials⟩ := reasons
  refine ⟨?_,?_,?_⟩
  · rintro none
    simp [listed,none] at some
  · intro needed
    by_contra invalid
    simp [needed,invalid] at signature
  · intro needed
    by_contra invalid
    simp [needed,invalid] at initials

theorem needed (type : SignatureFieldType) :
    needsInk page.listed type = page.fields.any fun field => field.required && field.type = type := by
  rw [needsInk,listed,List.any_map]
  rfl

theorem agreedIff (can : page.canSubmit = true) :
    page.Agreed ↔ page.fields.length ≤ 200 ∧ inkAsked page.fields .signature ∧ inkAsked page.fields .initials := by
  obtain ⟨some,signature,initials⟩ := page.ready can
  have first := capturedAccepted page.signatureDrawn page.signatureBound signature
  have second := capturedAccepted page.initialsDrawn page.initialsBound initials
  have ids : page.listed.map SignerField.fieldId = page.fields.map SignatureField.id := by
    simp [listed,SignatureField.toSignerField,Function.comp_def]
  have many : 1 ≤ page.fields.length := List.length_pos_iff.mpr some
  have built : ∀ request, page.request = .some request ↔ page.fields.length ≤ 200 ∧
      request = ⟨page.consentCopyId,true,page.fields.map SignatureField.id,
        (captureInk page.listed .signature page.signaturePng page.signature).map toInkPayload,
        (captureInk page.listed .initials page.initialsPng page.initials).map toInkPayload⟩ := by
    intro request
    simp only [SigningPage.request,buildCompleteRequest,completeSigningRequestSchema,ids,first,second,List.length_map,
      page.recorded,many,decide_true,Bool.true_and,Bool.and_true,decide_eq_true_eq,Option.ite_none_right_eq_some,
      Option.some.injEq]
    exact and_congr_right fun _ => eq_comm
  have asked : ∀ type png state, ((captureInk page.listed type png state).map toInkPayload).isSome =
      page.fields.any fun field => field.required && field.type = type := by
    intro type png state
    rw [Option.isSome_map,capturedIff,needed]
  constructor
  · rintro ⟨request,selected,sent,ok,inked⟩
    obtain ⟨few,rfl⟩ := (built request).mp sent
    rw [selectsAll page.distinct,Except.ok.injEq] at ok
    rw [← ok,inkForFields,asked,asked] at inked
    exact ⟨few,inked⟩
  · rintro ⟨few,inked⟩
    refine ⟨_,page.fields,(built _).mpr ⟨few,rfl⟩,selectsAll page.distinct,?_⟩
    rw [inkForFields,asked,asked]
    exact inked

/-! One signature field, and a line on the signature pad. -/

def signing (required : Bool) (steps : List PadStep) (timed : ∀ step ∈ steps, step.Timed) : SigningPage .exact where
  fields := [⟨1,2,.signature,⟨1,1 / 10,1 / 5,3 / 10,1 / 10⟩,required,none,none⟩]
  distinct := List.nodup_singleton 1
  consentCopyId := [118,51]
  recorded := by decide
  consented := true
  intentToSign := true
  submitting := false
  signature := PadStep.run .exact emptySignaturePadState steps
  signatureDrawn := ⟨steps,timed,rfl⟩
  initials := emptySignaturePadState
  initialsDrawn := ⟨[],List.forall_mem_nil _,rfl⟩
  signaturePng := [65]
  signatureBound := by decide
  initialsPng := [65]
  initialsBound := by decide

def signed : SigningPage .exact :=
  signing true (PadStep.line ++ [PadStep.event .up 60 40]) (by simp [PadStep.line,PadStep.event,PadStep.Timed,isFinite])

theorem signedAgreed : signed.Agreed :=
  (signed.agreedIff (by decide +kernel)).mpr ⟨by decide,fun _ => rfl,fun initials => absurd initials (by decide)⟩

theorem optionalRefused : ¬ ∀ (arithmetic : Arithmetic) (page : SigningPage arithmetic), page.canSubmit = true →
    page.Agreed := by
  intro agreed
  have refused : (signing false [] (List.forall_mem_nil _)).request.map (fun request =>
      (request.fieldIds,request.signature)) = some ([1],none) := by decide +kernel
  obtain ⟨request,selected,sent,ok,inked⟩ := agreed .exact (signing false [] (List.forall_mem_nil _)) (by decide +kernel)
  rw [sent,Option.map_some,Option.some.injEq,Prod.mk.injEq] at refused
  rw [refused.1] at ok
  rw [refused.2,inkForFields] at inked
  cases ok
  exact absurd (inked.1 rfl) (by decide)

end SigningPage
end ESign
