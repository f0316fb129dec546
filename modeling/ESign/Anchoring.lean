import ESign.AuditBinding

/-! What both checkpoint stores keep is a list of checkpoints, one for each sequence of a
document, to which an absent one is added and from which nothing is taken. The stores
differ in what they answer when a sequence is anchored again. -/
namespace ESign
open JsText

def AuditCheckpoint.keyOf (checkpoint other : AuditCheckpoint) : Bool :=
  checkpoint.sameKey other.organizationId other.documentId other.sequence

def insertAbsent (checkpoint : AuditCheckpoint) (records : List AuditCheckpoint) : List AuditCheckpoint :=
  if records.any (fun row => row.keyOf checkpoint) then records else records ++ [checkpoint]

/-- A store whose reads and writes succeed, over what its states hold. -/
structure Lawful {σ : Type} (store : ImmutableCheckpointStore σ) (Holds : σ → List AuditCheckpoint → Prop) : Prop where
  enabled : store.enabled = true
  latest : ∀ {state records}, Holds state records → ∀ organizationId documentId,
    store.getLatest organizationId documentId state =
      .ok (MemoryCheckpointStore.getLatest organizationId documentId records)
  put : ∀ {state records}, Holds state records → ∀ checkpoint,
    Holds (store.putIfAbsent checkpoint state).2 (insertAbsent checkpoint records)

theorem sameKeyIff {checkpoint : AuditCheckpoint} {organizationId documentId : OpaqueId} {sequence : Int} :
    checkpoint.sameKey organizationId documentId sequence = true ↔
      checkpoint.organizationId = organizationId ∧ checkpoint.documentId = documentId ∧ checkpoint.sequence = sequence := by
  simp only [AuditCheckpoint.sameKey,Bool.and_eq_true,decide_eq_true_eq,and_assoc]

theorem findAny {records : List AuditCheckpoint} {checkpoint : AuditCheckpoint} :
    records.any (fun row => row.keyOf checkpoint) = (records.find? (fun row => row.keyOf checkpoint)).isSome := by
  rw [Bool.eq_iff_iff,List.any_eq_true,List.find?_isSome]

/-! The memory store. -/
namespace MemoryCheckpointStore

theorem putRecords (checkpoint : AuditCheckpoint) (records : List AuditCheckpoint) :
    (putIfAbsent checkpoint records).2 = insertAbsent checkpoint records := by
  rw [insertAbsent,findAny,putIfAbsent]
  change _ = if (records.find? (fun row =>
    row.sameKey checkpoint.organizationId checkpoint.documentId checkpoint.sequence)).isSome = true then _ else _
  cases records.find? (fun row => row.sameKey checkpoint.organizationId checkpoint.documentId checkpoint.sequence) with
  | none => rfl
  | some existing =>
    simp only [Option.isSome_some,if_true]
    split <;> rfl

theorem lawful : Lawful store Eq where
  enabled := rfl
  latest := by
    rintro state records rfl organizationId documentId
    rfl
  put := by
    rintro state records rfl checkpoint
    exact putRecords checkpoint state

end MemoryCheckpointStore

/-! The object-storage store. -/
namespace ObjectCheckpointStore

section

variable (sha256Hex : Utf16 → Utf16)

def keyOf (checkpoint : AuditCheckpoint) : Utf16 :=
  auditCheckpointObjectKey checkpoint.organizationId checkpoint.documentId checkpoint.sequence

/-- The object that is stored for a checkpoint. -/
def objectOf (checkpoint : AuditCheckpoint) : StoredObject :=
  ⟨keyOf checkpoint,checkpointBytes checkpoint,sha256Hex (checkpointBytes checkpoint)⟩

/-- One object for each checkpoint, and one checkpoint for each sequence. -/
structure Holds (objects : List StoredObject) (records : List AuditCheckpoint) : Prop where
  objects : objects = records.map (objectOf sha256Hex)
  distinct : records.Pairwise (fun left right => right.keyOf left = false)

end

variable {sha256Hex : Utf16 → Utf16} {objects : List StoredObject} {records : List AuditCheckpoint}

theorem foundObject (holds : Holds sha256Hex objects records) (organizationId documentId : OpaqueId) (sequence : Int) :
    getObject (auditCheckpointObjectKey organizationId documentId sequence) objects =
      (records.find? (fun row => row.sameKey organizationId documentId sequence)).map (objectOf sha256Hex) := by
  have same : (fun object : StoredObject => decide (object.key = auditCheckpointObjectKey organizationId documentId sequence)) ∘
      objectOf sha256Hex = fun row => row.sameKey organizationId documentId sequence := by
    funext row
    rw [Bool.eq_iff_iff,sameKeyIff,Function.comp_apply,decide_eq_true_eq]
    exact keyInjective
  rw [getObject,holds.objects,List.find?_map,same]

theorem putState (holds : Holds sha256Hex objects records) (checkpoint : AuditCheckpoint) :
    Holds sha256Hex (putIfAbsent sha256Hex checkpoint objects).2 (insertAbsent checkpoint records) := by
  have found := foundObject holds checkpoint.organizationId checkpoint.documentId checkpoint.sequence
  rw [insertAbsent,findAny]
  simp only [putIfAbsent,putObject,found,check,decide_true,if_true,bind,Except.bind]
  change Holds sha256Hex _ (if (records.find? (fun row =>
    row.sameKey checkpoint.organizationId checkpoint.documentId checkpoint.sequence)).isSome = true then _ else _)
  cases absent : records.find? (fun row => row.sameKey checkpoint.organizationId checkpoint.documentId checkpoint.sequence) with
  | some existing =>
    simp only [Option.map_some,Option.isSome_some,if_true]
    split
    · exact holds
    · exact holds
  | none =>
    simp only [Option.map_none,Option.isSome_none,Bool.false_eq_true,if_false]
    refine ⟨by rw [holds.objects,List.map_append]; rfl,List.pairwise_append.mpr ⟨holds.distinct,List.pairwise_singleton _ _,?_⟩⟩
    intro row rowMem other otherMem
    rw [List.mem_singleton.mp otherMem]
    have different := List.find?_eq_none.mp absent row rowMem
    rw [Bool.eq_false_iff]
    intro same
    obtain ⟨organizations,documents,sequences⟩ := sameKeyIff.mp same
    exact different (sameKeyIff.mpr ⟨organizations.symm,documents.symm,sequences.symm⟩)

theorem listedKeys (holds : Holds sha256Hex objects records) (organizationId documentId : OpaqueId) :
    listKeys organizationId (checkpointPrefix documentId) objects =
      (records.filter (fun row => row.organizationId = organizationId && row.documentId = documentId)).map keyOf := by
  rw [listKeys,holds.objects,List.filter_map,List.map_map]
  change List.map keyOf _ = _
  congr 1
  refine List.filter_congr (fun row _ => ?_)
  rw [Function.comp_apply,Bool.eq_iff_iff,Bool.and_eq_true,decide_eq_true_eq,decide_eq_true_eq]
  exact keyPrefix

theorem readBack (holds : Holds sha256Hex objects records) {checkpoint : AuditCheckpoint} (mem : checkpoint ∈ records) :
    (getObject (keyOf checkpoint) objects).bind (fun stored => parseCheckpoint stored.body) = some checkpoint := by
  have found : records.find? (fun row => row.sameKey checkpoint.organizationId checkpoint.documentId checkpoint.sequence) =
      some checkpoint := by
    obtain ⟨front,back,split⟩ := List.append_of_mem mem
    have here : (checkpoint :: back).find? (fun row =>
        row.sameKey checkpoint.organizationId checkpoint.documentId checkpoint.sequence) = some checkpoint :=
      List.find?_cons_of_pos (sameKeyIff.mpr ⟨rfl,rfl,rfl⟩)
    rw [split,List.find?_append,here]
    have before : front.find? (fun row =>
        row.sameKey checkpoint.organizationId checkpoint.documentId checkpoint.sequence) = none := by
      rw [List.find?_eq_none]
      intro row rowMem same
      have distinct := holds.distinct
      rw [split,List.pairwise_append] at distinct
      have different := distinct.2.2 row rowMem checkpoint List.mem_cons_self
      obtain ⟨organizations,documents,sequences⟩ := sameKeyIff.mp same
      rw [AuditCheckpoint.keyOf,Bool.eq_false_iff] at different
      exact different (sameKeyIff.mpr ⟨organizations.symm,documents.symm,sequences.symm⟩)
    rw [before,Option.none_or]
  rw [keyOf,foundObject holds,found,Option.map_some,Option.bind_some,objectOf,parseBytes]

/-- One turn of the loop of `getLatest`. -/
def latestStep (read : Utf16 → Option AuditCheckpoint) (latest : Option AuditCheckpoint) (key : Utf16) :
    Option AuditCheckpoint :=
  match read key with
  | some parsed => if later latest parsed then some parsed else latest
  | none => latest

theorem latestFold {read : Utf16 → Option AuditCheckpoint} {rows : List AuditCheckpoint} (head : AuditCheckpoint)
    (reads : ∀ row ∈ rows, read (keyOf row) = some row) :
    (rows.map keyOf).foldl (latestStep read) (some head) =
      some (rows.foldl (fun head row => if row.sequence > head.sequence then row else head) head) := by
  induction rows generalizing head with
  | nil => rfl
  | cons row rest ih =>
    have step : latestStep read (some head) (keyOf row) = some (if row.sequence > head.sequence then row else head) := by
      rw [latestStep,reads row List.mem_cons_self]
      simp only [later,decide_eq_true_eq]
      split <;> rfl
    rw [List.map_cons,List.foldl_cons,List.foldl_cons,step]
    exact ih _ (fun other mem => reads other (List.mem_cons_of_mem _ mem))

theorem latestRecord (holds : Holds sha256Hex objects records) (organizationId documentId : OpaqueId) :
    getLatest organizationId documentId objects = MemoryCheckpointStore.getLatest organizationId documentId records := by
  have reads : ∀ row ∈ records.filter (fun row => row.organizationId = organizationId && row.documentId = documentId),
      (getObject (keyOf row) objects).bind (fun stored => parseCheckpoint stored.body) = some row :=
    fun row mem => readBack holds (List.mem_of_mem_filter mem)
  rw [getLatest,listedKeys holds,MemoryCheckpointStore.getLatest]
  generalize records.filter (fun row => row.organizationId = organizationId && row.documentId = documentId) = rows at reads
  cases rows with
  | nil => rfl
  | cons first rest =>
    rw [List.map_cons,List.foldl_cons,reads first List.mem_cons_self]
    exact latestFold first (fun row mem => reads row (List.mem_cons_of_mem _ mem))

theorem lawful : Lawful (store sha256Hex) (Holds sha256Hex) where
  enabled := rfl
  latest := by
    intro state records holds organizationId documentId
    exact congrArg Except.ok (latestRecord holds organizationId documentId)
  put := by
    intro state records holds checkpoint
    exact putState holds checkpoint

end ObjectCheckpointStore

/-! The latest checkpoint of a document. -/

namespace MemoryCheckpointStore

theorem latestSnoc (rows : List AuditCheckpoint) (row : AuditCheckpoint) : latest (rows ++ [row]) =
    match latest rows with
    | none => some row
    | some head => some (if row.sequence > head.sequence then row else head) := by
  cases rows with
  | nil => rfl
  | cons first rest => simp only [List.cons_append,latest,List.foldl_append,List.foldl_cons,List.foldl_nil]

theorem latestHighest {rows : List AuditCheckpoint} {head : AuditCheckpoint} (found : latest rows = some head) :
    head ∈ rows ∧ ∀ row ∈ rows, row.sequence ≤ head.sequence := by
  induction rows using List.reverseRecOn generalizing head with
  | nil => cases found
  | append_singleton front row ih =>
    rw [latestSnoc] at found
    cases before : latest front with
    | none =>
      rw [before] at found
      cases front with
      | nil =>
        cases found
        simp
      | cons first rest => cases before
    | some known =>
      rw [before] at found
      obtain ⟨knownMem,highest⟩ := ih before
      by_cases later : row.sequence > known.sequence
      · simp only [if_pos later,Option.some.injEq] at found
        subst found
        refine ⟨by simp,List.forall_mem_append.mpr ⟨fun other mem => ?_,by simp⟩⟩
        have := highest other mem
        omega
      · simp only [if_neg later,Option.some.injEq] at found
        subst found
        refine ⟨List.mem_append_left _ knownMem,List.forall_mem_append.mpr ⟨highest,?_⟩⟩
        rw [List.forall_mem_singleton]
        omega

end MemoryCheckpointStore

def ofChain (organizationId documentId : OpaqueId) (row : AuditCheckpoint) : Bool :=
  row.organizationId = organizationId && row.documentId = documentId

/-- The latest checkpoint of the document is the head of the chain. -/
def HeadAnchored (organizationId documentId : OpaqueId) (records : List AuditCheckpoint) (events : List AuditEvent) : Prop :=
  ∃ anchored head, MemoryCheckpointStore.getLatest organizationId documentId records = some anchored ∧
    events.getLast? = some head ∧ anchored.sequence = head.sequence ∧ anchored.eventHash = head.eventHash

/-- One run for the document, over whatever its rows then are. -/
structure VerifyRun where
  deps : VerifyDeps
  actor : Option AuditActorType

def VerifyRun.input (run : VerifyRun) (organizationId documentId : OpaqueId) : VerifyAuditChainInput :=
  ⟨organizationId,documentId,run.actor⟩

def stateAfter {σ : Type} (sha256Hex : Utf16 → Utf16) (store : ImmutableCheckpointStore σ) (organizationId documentId : OpaqueId)
    (runs : List VerifyRun) (state : σ) : σ :=
  runs.foldl (fun state run => (verifyAuditChain sha256Hex store run.deps (run.input organizationId documentId) state).2) state

section

variable {sha256Hex : Utf16 → Utf16} {σ : Type} {store : ImmutableCheckpointStore σ}
  {Holds : σ → List AuditCheckpoint → Prop} {deps : VerifyDeps} {input : VerifyAuditChainInput} {state : σ}
  {records : List AuditCheckpoint}

theorem anchoredEvent (lawful : Lawful store Holds) (holds : Holds state records)
    (inOrder : ChainInOrder sha256Hex store deps input state) {anchored : AuditCheckpoint}
    (latest : MemoryCheckpointStore.getLatest input.organizationId input.documentId records = some anchored) :
    ∃ event ∈ deps.events, event.sequence = anchored.sequence ∧ event.eventHash = anchored.eventHash := by
  have compared := inOrder.checkpoint
  rw [compareCheckpoint,if_pos lawful.enabled,lawful.latest holds,latest,(intactSorted inOrder.intact).2.2] at compared
  simp only [checkpointFailures] at compared
  split at compared
  · cases compared
  · rename_i event found
    have sequence := List.find?_some found
    rw [decide_eq_true_eq] at sequence
    refine ⟨event,List.mem_of_find?_eq_some found,sequence,?_⟩
    by_contra differ
    rw [if_pos differ] at compared
    cases compared

theorem headSequence {events : List AuditEvent} (intact : Intact sha256Hex events) {front : List AuditEvent}
    {head event : AuditEvent} (split : events = front ++ [head]) (mem : event ∈ events) :
    event.sequence ≤ head.sequence ∧ (event.sequence = head.sequence → event = head) := by
  have linked := intact.linked
  rw [split] at linked mem
  obtain ⟨frontLinked,-,position⟩ := HashChain.linkedSnoc.mp linked
  change head.sequence = _ at position
  rcases List.mem_append.mp mem with inside | last
  · have bounds := HashChain.positionMem frontLinked inside
    change _ ∧ event.sequence < _ at bounds
    exact ⟨by omega,by omega⟩
  · rw [List.mem_singleton.mp last]
    exact ⟨by omega,fun _ => rfl⟩

theorem headAnchored (lawful : Lawful store Holds) (holds : Holds state records)
    (inOrder : ChainInOrder sha256Hex store deps input state) {front : List AuditEvent} {head : AuditEvent}
    (split : deps.events = front ++ [head]) :
    HeadAnchored input.organizationId input.documentId (insertAbsent (headCheckpoint deps input head) records)
      deps.events := by
  have lastEvent : deps.events.getLast? = some head := by rw [split,List.getLast?_concat]
  have added : (records ++ [headCheckpoint deps input head]).filter (ofChain input.organizationId input.documentId) =
      records.filter (ofChain input.organizationId input.documentId) ++ [headCheckpoint deps input head] := by
    rw [List.filter_append]
    congr 1
    refine List.filter_cons_of_pos ?_
    simp [ofChain,headCheckpoint]
  cases latest : MemoryCheckpointStore.getLatest input.organizationId input.documentId records with
  | none =>
    have none : ∀ row ∈ records, ofChain input.organizationId input.documentId row = false := by
      have empty : records.filter (ofChain input.organizationId input.documentId) = [] := by
        rw [MemoryCheckpointStore.getLatest] at latest
        change MemoryCheckpointStore.latest (records.filter (ofChain input.organizationId input.documentId)) = _ at latest
        cases rows : records.filter (ofChain input.organizationId input.documentId) with
        | nil => rfl
        | cons first rest =>
          rw [rows] at latest
          cases latest
      intro row mem
      exact Bool.eq_false_iff.mpr (List.filter_eq_nil_iff.mp empty row mem)
    have absent : records.any (fun row => row.keyOf (headCheckpoint deps input head)) = false := by
      rw [List.any_eq_false]
      intro row mem same
      obtain ⟨organizations,documents,-⟩ := sameKeyIff.mp same
      have foreign := none row mem
      simp [ofChain,organizations,documents,headCheckpoint] at foreign
    refine ⟨headCheckpoint deps input head,head,?_,lastEvent,rfl,rfl⟩
    rw [insertAbsent,absent,if_neg Bool.false_ne_true,MemoryCheckpointStore.getLatest]
    change MemoryCheckpointStore.latest (List.filter (ofChain _ _) _) = _
    rw [added,List.filter_eq_nil_iff.mpr (fun row mem => by rw [none row mem]; exact Bool.false_ne_true)]
    rfl
  | some anchored =>
    obtain ⟨event,eventMem,sequence,hash⟩ := anchoredEvent lawful holds inOrder latest
    obtain ⟨below,same⟩ := headSequence inOrder.intact split eventMem
    have known := latest
    rw [MemoryCheckpointStore.getLatest] at known
    change MemoryCheckpointStore.latest (records.filter (ofChain input.organizationId input.documentId)) = _ at known
    obtain ⟨anchoredMem,highest⟩ := MemoryCheckpointStore.latestHighest known
    rw [List.mem_filter] at anchoredMem
    obtain ⟨inRecords,chain⟩ := anchoredMem
    rw [ofChain,Bool.and_eq_true,decide_eq_true_eq,decide_eq_true_eq] at chain
    by_cases again : event.sequence = head.sequence
    · have here := same again
      subst here
      have present : records.any (fun row => row.keyOf (headCheckpoint deps input event)) = true :=
        List.any_eq_true.mpr ⟨anchored,inRecords,sameKeyIff.mpr ⟨chain.1,chain.2,sequence.symm⟩⟩
      refine ⟨anchored,event,?_,lastEvent,sequence.symm,hash.symm⟩
      rw [insertAbsent,if_pos present]
      exact latest
    · have absent : records.any (fun row => row.keyOf (headCheckpoint deps input head)) = false := by
        rw [List.any_eq_false]
        intro row mem stored
        obtain ⟨organizations,documents,sequences⟩ := sameKeyIff.mp stored
        have small := highest row (List.mem_filter.mpr ⟨mem,by simp [ofChain,organizations,documents,headCheckpoint]⟩)
        change row.sequence = head.sequence at sequences
        omega
      refine ⟨headCheckpoint deps input head,head,?_,lastEvent,rfl,rfl⟩
      rw [insertAbsent,absent,if_neg Bool.false_ne_true,MemoryCheckpointStore.getLatest]
      change MemoryCheckpointStore.latest (List.filter (ofChain _ _) _) = _
      have later : (headCheckpoint deps input head).sequence > anchored.sequence := by
        change head.sequence > _
        omega
      rw [added,MemoryCheckpointStore.latestSnoc,known]
      simp only [if_pos later]

/-- The rows of the one are a prefix of those of the other, in what is hashed. -/
def HashedPrefix (events events' : List AuditEvent) : Prop :=
  ∃ front, front <+: events' ∧ List.Forall₂ SameHashed events front

theorem Bound.trans {a b c : AuditEventHashInput} {p q r : Json} (first : Bound a b p q) (second : Bound b c q r) :
    Bound a c p r where
  actorId := first.actorId.trans second.actorId
  actorType := first.actorType.trans second.actorType
  occurredAt := first.occurredAt.trans second.occurredAt
  payload := first.payload.trans second.payload
  previousEventHash := first.previousEventHash.trans second.previousEventHash
  sequence := first.sequence.trans second.sequence
  type := first.type.trans second.type

theorem hashedPrefixRefl (events : List AuditEvent) : HashedPrefix events events :=
  ⟨events,List.prefix_rfl,List.forall₂_same.mpr (fun _ _ => ⟨rfl,rfl,rfl,rfl,rfl,rfl,rfl⟩)⟩

theorem forallTrans {left middle right : List AuditEvent} (first : List.Forall₂ SameHashed left middle)
    (second : List.Forall₂ SameHashed middle right) : List.Forall₂ SameHashed left right := by
  induction first generalizing right with
  | nil => exact second
  | cons here rest ih =>
    cases second with
    | cons next others => exact .cons (here.trans next) (ih others)

theorem hashedPrefixTrans {left middle right : List AuditEvent} (first : HashedPrefix left middle)
    (second : HashedPrefix middle right) : HashedPrefix left right := by
  obtain ⟨front,⟨back,split⟩,agree⟩ := first
  obtain ⟨front',isPrefix,agree'⟩ := second
  rw [← split] at agree'
  obtain ⟨inside,agreeFront,shorter⟩ : ∃ inside, List.Forall₂ SameHashed front inside ∧ inside <+: front' := by
    refine ⟨front'.take front.length,?_,List.take_prefix _ _⟩
    have taken := List.forall₂_take front.length agree'
    rwa [List.take_left] at taken
  exact ⟨inside,shorter.trans isPrefix,forallTrans agree agreeFront⟩

theorem extendsAnchored (lawful : Lawful store Holds) (holds : Holds state records)
    (inOrder : ChainInOrder sha256Hex store deps input state) {events : List AuditEvent} (intact : Intact sha256Hex events)
    (anchored : HeadAnchored input.organizationId input.documentId records events)
    (injective : Set.InjOn sha256Hex (hashedTexts events ∪ hashedTexts deps.events)) :
    HashedPrefix events deps.events := by
  obtain ⟨checkpoint,head,latest,last,sequences,hashes⟩ := anchored
  obtain ⟨event,eventMem,-,hash⟩ := anchoredEvent lawful holds inOrder latest
  obtain ⟨front,back,split⟩ := List.append_of_mem eventMem
  obtain ⟨front',split'⟩ := List.getLast?_eq_some_iff.mp last
  have same : auditChain.digest head = auditChain.digest event := (hash.trans hashes).symm
  have binds := hashBinds intact inOrder.intact injective
  have linked := inOrder.intact.linked
  have linked' := intact.linked
  rw [split,List.append_cons] at linked
  rw [split'] at linked' binds ⊢
  refine ⟨front ++ [event],⟨back,by rw [split,List.append_assoc]; rfl⟩,?_⟩
  refine HashChain.headsAgree front' front linked' (HashChain.linkedAppend.mp linked).1 (fun a aMem b bMem => ?_) same
  refine binds a aMem b ?_
  rw [split,List.append_cons]
  exact List.mem_append_left _ bMem

theorem keepState (broken : ¬ ChainInOrder sha256Hex store deps input state) :
    (verifyAuditChain sha256Hex store deps input state).2 = state := by
  cases run : verifyAuditChain sha256Hex store deps input state with
  | mk answer after =>
    have unfolded := run
    rw [verifyAuditChain] at unfolded
    split at unfolded
    · exact (Prod.mk.inj unfolded).2.symm
    · split at unfolded
      · exact (Prod.mk.inj unfolded).2.symm
      · split at unfolded
        · exact (Prod.mk.inj unfolded).2.symm
        · rename_i found events
          simp only at unfolded
          obtain ⟨answered,afterwards⟩ := Prod.mk.inj unfolded
          rw [← afterwards,anchorHead]
          split
          · split
            · rename_i head last ok
              rw [Bool.and_eq_true] at ok
              refine absurd ?_ broken
              have returned : answer = .ok (chainReport deps input
                  (sequenceFailures input deps.events ++ found ++ (compareCheckpoint store deps input state).1)
                  ((compareCheckpoint store deps input state).2 ++ (anchorHead store deps input true state).1)) := by
                rw [← answered,ok.1]
                exact publishOk ok.1
              rw [returned] at run
              exact inOrderOf run ok.1
            · rfl
          · rfl

variable {organizationId documentId : OpaqueId}

theorem runAnchors (lawful : Lawful store Holds) (holds : Holds state records) (run : VerifyRun)
    (inOrder : ChainInOrder sha256Hex store run.deps (run.input organizationId documentId) state) :
    ∃ records', Holds (verifyAuditChain sha256Hex store run.deps (run.input organizationId documentId) state).2 records' ∧
      HeadAnchored organizationId documentId records' run.deps.events := by
  obtain ⟨front,head,split⟩ := headSplit inOrder.some
  refine ⟨_,?_,headAnchored lawful holds inOrder split⟩
  have put := lawful.put holds (headCheckpoint run.deps (run.input organizationId documentId) head)
  have last : (sortEvents run.deps.events).getLast? = some head := by
    rw [(intactSorted inOrder.intact).2.2,split,List.getLast?_concat]
  rw [runInOrder inOrder]
  simp only [anchorHead,last,lawful.enabled,Bool.and_self,if_true]
  split
  · rename_i same
    rw [same] at put
    exact put
  · rename_i same
    rw [same] at put
    exact put

/- Once a head is anchored, every later chain in order extends it, and the last of them is anchored. -/
theorem runsExtend (lawful : Lawful store Holds) {events : List AuditEvent} (runs : List VerifyRun) (holds : Holds state records)
    {last : List AuditEvent} (intact : Intact sha256Hex last) (extended : HashedPrefix events last)
    (anchored : HeadAnchored organizationId documentId records last)
    (injective : Set.InjOn sha256Hex
      (hashedTexts last ∪ {text | ∃ run ∈ runs, text ∈ hashedTexts run.deps.events})) :
    ∃ records' last', Holds (stateAfter sha256Hex store organizationId documentId runs state) records' ∧
      Intact sha256Hex last' ∧ HashedPrefix events last' ∧ HeadAnchored organizationId documentId records' last' ∧
      hashedTexts last' ⊆ hashedTexts last ∪ {text | ∃ run ∈ runs, text ∈ hashedTexts run.deps.events} := by
  induction runs generalizing state records last with
  | nil => exact ⟨records,last,holds,intact,extended,anchored,Set.subset_union_left⟩
  | cons run rest ih =>
    have later : {text | ∃ run ∈ rest, text ∈ hashedTexts run.deps.events} ⊆
        {text | ∃ other ∈ run :: rest, text ∈ hashedTexts other.deps.events} := by
      rintro text ⟨other,mem,hashed⟩
      exact ⟨other,List.mem_cons_of_mem _ mem,hashed⟩
    have here : hashedTexts run.deps.events ⊆ {text | ∃ other ∈ run :: rest, text ∈ hashedTexts other.deps.events} :=
      fun text hashed => ⟨run,List.mem_cons_self,hashed⟩
    by_cases inOrder : ChainInOrder sha256Hex store run.deps (run.input organizationId documentId) state
    · obtain ⟨records',holds',anchored'⟩ := runAnchors lawful holds run inOrder
      have longer := extendsAnchored lawful holds inOrder intact anchored
        (injective.mono (Set.union_subset_union_right _ here))
      obtain ⟨records'',last',held,intact',extended',anchored'',texts⟩ := ih holds' inOrder.intact
        (hashedPrefixTrans extended longer) anchored'
        (injective.mono (Set.union_subset (here.trans Set.subset_union_right) (later.trans Set.subset_union_right)))
      refine ⟨records'',last',held,intact',extended',anchored'',texts.trans ?_⟩
      exact Set.union_subset (here.trans Set.subset_union_right) (later.trans Set.subset_union_right)
    · have still : stateAfter sha256Hex store organizationId documentId (run :: rest) state =
          stateAfter sha256Hex store organizationId documentId rest state := by
        rw [stateAfter,List.foldl_cons,keepState inOrder]
        rfl
      obtain ⟨records'',last',held,intact',extended',anchored'',texts⟩ := ih holds intact extended anchored
        (injective.mono (Set.union_subset_union_right _ later))
      rw [still]
      exact ⟨records'',last',held,intact',extended',anchored'',texts.trans (Set.union_subset_union_right _ later)⟩

theorem runsHold (lawful : Lawful store Holds) (runs : List VerifyRun) (holds : Holds state records) :
    ∃ records', Holds (stateAfter sha256Hex store organizationId documentId runs state) records' := by
  induction runs generalizing state records with
  | nil => exact ⟨records,holds⟩
  | cons run rest ih =>
    by_cases inOrder : ChainInOrder sha256Hex store run.deps (run.input organizationId documentId) state
    · obtain ⟨records',holds',-⟩ := runAnchors lawful holds run inOrder
      exact ih holds'
    · rw [stateAfter,List.foldl_cons,keepState inOrder]
      exact ih holds

theorem anchoredHistory (lawful : Lawful store Holds) (holds : Holds state records) (before between : List VerifyRun)
    (first second : VerifyRun)
    (ok : ReportedOk sha256Hex store first.deps (first.input organizationId documentId)
      (stateAfter sha256Hex store organizationId documentId before state))
    (ok' : ReportedOk sha256Hex store second.deps (second.input organizationId documentId)
      (stateAfter sha256Hex store organizationId documentId (before ++ first :: between) state))
    (injective : Set.InjOn sha256Hex {text | ∃ run ∈ first :: (between ++ [second]), text ∈ hashedTexts run.deps.events}) :
    HashedPrefix first.deps.events second.deps.events := by
  rw [reportedOkIff] at ok ok'
  obtain ⟨records',holds'⟩ := runsHold lawful before holds
  obtain ⟨records'',anchoredHolds,anchored⟩ := runAnchors lawful holds' first ok
  have firstTexts : hashedTexts first.deps.events ⊆
      {text | ∃ run ∈ first :: (between ++ [second]), text ∈ hashedTexts run.deps.events} :=
    fun text hashed => ⟨first,List.mem_cons_self,hashed⟩
  have betweenTexts : {text | ∃ run ∈ between, text ∈ hashedTexts run.deps.events} ⊆
      {text | ∃ run ∈ first :: (between ++ [second]), text ∈ hashedTexts run.deps.events} := by
    rintro text ⟨run,mem,hashed⟩
    exact ⟨run,List.mem_cons_of_mem _ (List.mem_append_left _ mem),hashed⟩
  have secondTexts : hashedTexts second.deps.events ⊆
      {text | ∃ run ∈ first :: (between ++ [second]), text ∈ hashedTexts run.deps.events} :=
    fun text hashed => ⟨second,by simp,hashed⟩
  obtain ⟨known,last,held,intact,extended,lastAnchored,texts⟩ := runsExtend lawful between anchoredHolds ok.intact
    (hashedPrefixRefl first.deps.events) anchored (injective.mono (Set.union_subset firstTexts betweenTexts))
  have reached : stateAfter sha256Hex store organizationId documentId (before ++ first :: between) state =
      stateAfter sha256Hex store organizationId documentId between
        (verifyAuditChain sha256Hex store first.deps (first.input organizationId documentId)
          (stateAfter sha256Hex store organizationId documentId before state)).2 := by
    rw [stateAfter,List.foldl_append,List.foldl_cons]
    rfl
  rw [reached] at ok'
  refine hashedPrefixTrans extended (extendsAnchored lawful held ok' intact lastAnchored ?_)
  exact injective.mono (Set.union_subset (texts.trans (Set.union_subset firstTexts betweenTexts)) secondTexts)

end

/-! Calls to both stores, side by side. -/

inductive CheckpointCall where
  | putIfAbsent (checkpoint : AuditCheckpoint)
  | get (organizationId documentId : OpaqueId) (sequence : Int)
  | getLatest (organizationId documentId : OpaqueId)

inductive PutOutcome where
  | stored | exists | disabled | conflict | unavailable
  deriving DecidableEq, Repr

inductive CheckpointAnswer where
  | put (outcome : PutOutcome)
  | found (checkpoint : Option AuditCheckpoint)
  | unavailable
  deriving DecidableEq

/-- What a put came to. The two stores name the key of a conflict differently. -/
def putOutcome : Except AppError CheckpointPutResult → PutOutcome
  | .ok .stored => .stored
  | .ok .exists => .exists
  | .ok .disabled => .disabled
  | .error (.application .integrity details) =>
      if ("reason","checkpoint_immutable_conflict") ∈ details then .conflict else .unavailable
  | .error _ => .unavailable

def readAnswer : Except AppError (Option AuditCheckpoint) → CheckpointAnswer
  | .ok checkpoint => .found checkpoint
  | .error _ => .unavailable

def CheckpointCall.answer {σ : Type} (store : ImmutableCheckpointStore σ) (call : CheckpointCall) (state : σ) :
    CheckpointAnswer × σ :=
  match call with
  | .putIfAbsent checkpoint =>
      let (result,state) := store.putIfAbsent checkpoint state
      (.put (putOutcome result),state)
  | .get organizationId documentId sequence => (readAnswer (store.get organizationId documentId sequence state),state)
  | .getLatest organizationId documentId => (readAnswer (store.getLatest organizationId documentId state),state)

def answers {σ : Type} (store : ImmutableCheckpointStore σ) : List CheckpointCall → σ → List CheckpointAnswer
  | [], _ => []
  | call :: rest, state => (call.answer store state).1 :: answers store rest (call.answer store state).2

def putsOf (calls : List CheckpointCall) : List AuditCheckpoint :=
  calls.filterMap (fun call => match call with
    | .putIfAbsent checkpoint => some checkpoint
    | _ => none)

/-- A checkpoint put again, with the event hash its sequence was first anchored with, has
the first one's instant and schema version. -/
def AnchorsAlike (calls : List CheckpointCall) : Prop :=
  ∀ before checkpoint after first, calls = before ++ .putIfAbsent checkpoint :: after →
    (putsOf before).find? (fun row => row.keyOf checkpoint) = some first → first.eventHash = checkpoint.eventHash →
    first.anchoredAt = checkpoint.anchoredAt ∧ first.schemaVersion = checkpoint.schemaVersion

theorem conflictOutcome (key : Utf16) : putOutcome (.error (checkpointConflict key)) = .conflict := by
  rw [checkpointConflict,AppError.integrity,putOutcome,if_pos List.mem_cons_self]

theorem checkpointExt {left right : AuditCheckpoint} (key : left.keyOf right = true)
    (hash : left.eventHash = right.eventHash) (time : left.anchoredAt = right.anchoredAt)
    (version : left.schemaVersion = right.schemaVersion) : left = right := by
  obtain ⟨organizations,documents,sequences⟩ := sameKeyIff.mp key
  cases left
  cases right
  simp_all

section

variable {sha256Hex : Utf16 → Utf16} {objects : List ObjectCheckpointStore.StoredObject} {records : List AuditCheckpoint}

theorem memoryPut (checkpoint : AuditCheckpoint) :
    putOutcome (MemoryCheckpointStore.putIfAbsent checkpoint records).1 =
      match records.find? (fun row => row.keyOf checkpoint) with
      | none => .stored
      | some first => if first.eventHash ≠ checkpoint.eventHash then .conflict else .exists := by
  have key : (fun row : AuditCheckpoint => row.sameKey checkpoint.organizationId checkpoint.documentId checkpoint.sequence) =
    fun row => row.keyOf checkpoint := rfl
  rw [MemoryCheckpointStore.putIfAbsent,key]
  cases records.find? (fun row => row.keyOf checkpoint) with
  | none => rfl
  | some first =>
    by_cases differ : first.eventHash ≠ checkpoint.eventHash
    · simp only [if_pos differ,conflictOutcome]
    · simp only [if_neg differ,putOutcome]

theorem objectPut (holds : ObjectCheckpointStore.Holds sha256Hex objects records) (checkpoint : AuditCheckpoint) :
    putOutcome (ObjectCheckpointStore.putIfAbsent sha256Hex checkpoint objects).1 =
      match records.find? (fun row => row.keyOf checkpoint) with
      | none => .stored
      | some first => if sha256Hex (ObjectCheckpointStore.checkpointBytes first) ≠
          sha256Hex (ObjectCheckpointStore.checkpointBytes checkpoint) then .conflict else .exists := by
  have found := ObjectCheckpointStore.foundObject holds checkpoint.organizationId checkpoint.documentId checkpoint.sequence
  change _ = Option.map _ (records.find? (fun row => row.keyOf checkpoint)) at found
  simp only [ObjectCheckpointStore.putIfAbsent,ObjectCheckpointStore.putObject,found,check,decide_true,if_true,bind,
    Except.bind]
  cases records.find? (fun row => row.keyOf checkpoint) with
  | none => rfl
  | some first =>
    simp only [Option.map_some,ObjectCheckpointStore.objectOf]
    by_cases differ : sha256Hex (ObjectCheckpointStore.checkpointBytes first) ≠
        sha256Hex (ObjectCheckpointStore.checkpointBytes checkpoint)
    · simp only [if_pos differ,conflictOutcome]
    · simp only [if_neg differ,putOutcome]

theorem putsAgree (holds : ObjectCheckpointStore.Holds sha256Hex objects records) (checkpoint : AuditCheckpoint)
    (injective : ∀ first ∈ records, sha256Hex (ObjectCheckpointStore.checkpointBytes first) =
      sha256Hex (ObjectCheckpointStore.checkpointBytes checkpoint) → first = checkpoint) :
    putOutcome (MemoryCheckpointStore.putIfAbsent checkpoint records).1 =
        putOutcome (ObjectCheckpointStore.putIfAbsent sha256Hex checkpoint objects).1 ↔
      ∀ first, records.find? (fun row => row.keyOf checkpoint) = some first → first.eventHash = checkpoint.eventHash →
        first.anchoredAt = checkpoint.anchoredAt ∧ first.schemaVersion = checkpoint.schemaVersion := by
  rw [memoryPut,objectPut holds]
  cases found : records.find? (fun row => row.keyOf checkpoint) with
  | none => simp
  | some first =>
    have key := List.find?_some found
    have digests : sha256Hex (ObjectCheckpointStore.checkpointBytes first) =
        sha256Hex (ObjectCheckpointStore.checkpointBytes checkpoint) ↔ first = checkpoint := by
      refine ⟨injective first (List.mem_of_find?_eq_some found),?_⟩
      rintro rfl
      rfl
    simp only [ne_eq,digests,Option.some.injEq,forall_eq']
    by_cases same : first = checkpoint
    · subst same
      simp
    · by_cases hash : first.eventHash = checkpoint.eventHash
      · have differ : ¬ (first.anchoredAt = checkpoint.anchoredAt ∧ first.schemaVersion = checkpoint.schemaVersion) :=
          fun ⟨time,version⟩ => same (checkpointExt key hash time version)
        simp [same,hash,differ]
      · simp [same,hash]

theorem insertFind (checkpoint other : AuditCheckpoint) :
    (insertAbsent checkpoint records).find? (fun row => row.keyOf other) =
      (records ++ [checkpoint]).find? (fun row => row.keyOf other) := by
  rw [insertAbsent]
  split
  · rename_i present
    rw [List.find?_append]
    cases found : records.find? (fun row => row.keyOf other) with
    | some row => rfl
    | none =>
      rw [Option.none_or]
      symm
      rw [List.find?_eq_none]
      intro row mem same
      rw [List.mem_singleton.mp mem] at same
      obtain ⟨known,knownMem,key⟩ := List.any_eq_true.mp present
      obtain ⟨organizations,documents,sequences⟩ := sameKeyIff.mp same
      obtain ⟨organizations',documents',sequences'⟩ := sameKeyIff.mp key
      exact List.find?_eq_none.mp found known knownMem (sameKeyIff.mpr
        ⟨organizations'.trans organizations,documents'.trans documents,sequences'.trans sequences⟩)
  · rfl

theorem getsAgree (holds : ObjectCheckpointStore.Holds sha256Hex objects records) (organizationId documentId : OpaqueId)
    (sequence : Int) : ObjectCheckpointStore.get organizationId documentId sequence objects =
      MemoryCheckpointStore.get organizationId documentId sequence records := by
  rw [ObjectCheckpointStore.get,ObjectCheckpointStore.foundObject holds,MemoryCheckpointStore.get]
  cases records.find? (fun row => row.sameKey organizationId documentId sequence) with
  | none => rfl
  | some first =>
    rw [Option.map_some,Option.bind_eq_bind,Option.bind_some,ObjectCheckpointStore.objectOf]
    exact ObjectCheckpointStore.parseBytes first

theorem putsAppend (front back : List CheckpointCall) : putsOf (front ++ back) = putsOf front ++ putsOf back :=
  List.filterMap_append

/-- The texts that are hashed for the checkpoints put. -/
def checkpointTexts (checkpoints : List AuditCheckpoint) : Set Utf16 :=
  {text | ∃ checkpoint ∈ checkpoints, text = ObjectCheckpointStore.checkpointBytes checkpoint}

theorem textsInjective {checkpoints : List AuditCheckpoint} (injective : Set.InjOn sha256Hex (checkpointTexts checkpoints))
    {left right : AuditCheckpoint} (leftMem : left ∈ checkpoints) (rightMem : right ∈ checkpoints)
    (same : sha256Hex (ObjectCheckpointStore.checkpointBytes left) =
      sha256Hex (ObjectCheckpointStore.checkpointBytes right)) : left = right :=
  ObjectCheckpointStore.bytesInjective (injective ⟨left,leftMem,rfl⟩ ⟨right,rightMem,rfl⟩ same)

/-- `AnchorsAlike` of the calls still to come. -/
def AnchorsAlikeFrom (before calls : List CheckpointCall) : Prop :=
  ∀ middle checkpoint after first, calls = middle ++ .putIfAbsent checkpoint :: after →
    (putsOf (before ++ middle)).find? (fun row => row.keyOf checkpoint) = some first →
    first.eventHash = checkpoint.eventHash →
    first.anchoredAt = checkpoint.anchoredAt ∧ first.schemaVersion = checkpoint.schemaVersion

theorem alikeCons {before rest : List CheckpointCall} {call : CheckpointCall} :
    AnchorsAlikeFrom before (call :: rest) ↔ (∀ checkpoint first, call = .putIfAbsent checkpoint →
      (putsOf before).find? (fun row => row.keyOf checkpoint) = some first → first.eventHash = checkpoint.eventHash →
      first.anchoredAt = checkpoint.anchoredAt ∧ first.schemaVersion = checkpoint.schemaVersion) ∧
      AnchorsAlikeFrom (before ++ [call]) rest := by
  constructor
  · intro alike
    constructor
    · intro checkpoint first here found
      exact alike [] checkpoint rest first (by rw [here]; rfl) (by rw [List.append_nil]; exact found)
    · intro middle checkpoint after first split found
      refine alike (call :: middle) checkpoint after first (by rw [split]; rfl) ?_
      rwa [List.append_cons]
  · rintro ⟨here,later⟩ middle checkpoint after first split found
    cases middle with
    | nil =>
      cases split
      rw [List.append_nil] at found
      exact here checkpoint first rfl found
    | cons first' middle =>
      cases split
      rw [List.append_cons] at found
      exact later middle checkpoint after first rfl found

theorem answersAgree (calls before : List CheckpointCall) (holds : ObjectCheckpointStore.Holds sha256Hex objects records)
    (firsts : ∀ other, records.find? (fun row => row.keyOf other) = (putsOf before).find? (fun row => row.keyOf other))
    (put : ∀ row ∈ records, row ∈ putsOf before)
    (injective : Set.InjOn sha256Hex (checkpointTexts (putsOf (before ++ calls)))) :
    answers MemoryCheckpointStore.store calls records = answers (ObjectCheckpointStore.store sha256Hex) calls objects ↔
      AnchorsAlikeFrom before calls := by
  induction calls generalizing before records objects with
  | nil =>
    simp only [answers,true_iff]
    intro middle checkpoint after first split
    simp at split
  | cons call rest ih =>
    have further : before ++ call :: rest = before ++ [call] ++ rest := List.append_cons _ _ _
    rw [further] at injective
    rw [answers,answers,List.cons.injEq,alikeCons]
    cases call with
    | get organizationId documentId sequence =>
      have same : (CheckpointCall.get organizationId documentId sequence |>.answer MemoryCheckpointStore.store records).1 =
          (CheckpointCall.get organizationId documentId sequence |>.answer (ObjectCheckpointStore.store sha256Hex) objects).1 :=
        congrArg CheckpointAnswer.found (getsAgree holds organizationId documentId sequence).symm
      have next := ih (before ++ [.get organizationId documentId sequence]) holds
        (fun other => by rw [firsts other,putsAppend]; simp [putsOf]) (fun row mem => by
          rw [putsAppend]
          exact List.mem_append_left _ (put row mem)) injective
      exact and_congr (by simp [same]) next
    | getLatest organizationId documentId =>
      have same : (CheckpointCall.getLatest organizationId documentId |>.answer MemoryCheckpointStore.store records).1 =
          (CheckpointCall.getLatest organizationId documentId |>.answer (ObjectCheckpointStore.store sha256Hex) objects).1 :=
        congrArg CheckpointAnswer.found (ObjectCheckpointStore.latestRecord holds organizationId documentId).symm
      have next := ih (before ++ [.getLatest organizationId documentId]) holds
        (fun other => by rw [firsts other,putsAppend]; simp [putsOf]) (fun row mem => by
          rw [putsAppend]
          exact List.mem_append_left _ (put row mem)) injective
      exact and_congr (by simp [same]) next
    | putIfAbsent checkpoint =>
      have listed : ∀ row ∈ putsOf before ++ [checkpoint], row ∈ putsOf (before ++ [.putIfAbsent checkpoint] ++ rest) := by
        intro row mem
        rw [putsAppend,putsAppend]
        exact List.mem_append_left _ mem
      have agree := putsAgree holds checkpoint (fun first mem same => textsInjective injective
        (listed first (List.mem_append_left _ (put first mem))) (listed checkpoint (by simp)) same)
      have added : putsOf (before ++ [.putIfAbsent checkpoint]) = putsOf before ++ [checkpoint] := by
        rw [putsAppend]
        rfl
      have holds' := ObjectCheckpointStore.putState holds checkpoint
      have firsts' : ∀ other, (insertAbsent checkpoint records).find? (fun row => row.keyOf other) =
          (putsOf (before ++ [.putIfAbsent checkpoint])).find? (fun row => row.keyOf other) := by
        intro other
        rw [insertFind,added,List.find?_append,List.find?_append,firsts other]
      have put' : ∀ row ∈ insertAbsent checkpoint records, row ∈ putsOf (before ++ [.putIfAbsent checkpoint]) := by
        intro row mem
        rw [added]
        rw [insertAbsent] at mem
        split at mem
        · exact List.mem_append_left _ (put row mem)
        · rcases List.mem_append.mp mem with inside | last
          · exact List.mem_append_left _ (put row inside)
          · exact List.mem_append_right _ last
      have next := ih (before ++ [.putIfAbsent checkpoint]) holds' firsts' put' injective
      rw [← MemoryCheckpointStore.putRecords] at next
      refine and_congr ?_ next
      change CheckpointAnswer.put _ = CheckpointAnswer.put _ ↔ _
      rw [CheckpointAnswer.put.injEq]
      refine agree.trans ?_
      constructor
      · intro all other first here found hash
        cases here
        rw [← firsts checkpoint] at found
        exact all first found hash
      · intro all first found hash
        rw [firsts checkpoint] at found
        exact all checkpoint first rfl found hash

/-! The same chain verified again. -/

/-- The chain verified at one instant after the other, over the object-storage store. -/
def reverify (sha256Hex : Utf16 → Utf16) (deps : VerifyDeps) (input : VerifyAuditChainInput) :
    List Int → List ObjectCheckpointStore.StoredObject → List (Except AppError AuditVerificationReport)
  | [], _ => []
  | anchoredAt :: rest, objects =>
      let (answer,objects) :=
        verifyAuditChain sha256Hex (ObjectCheckpointStore.store sha256Hex) { deps with anchoredAt := anchoredAt } input objects
      answer :: reverify sha256Hex deps input rest objects

def Warned : Except AppError AuditVerificationReport → Prop
  | .ok report => ∃ warning ∈ report.warnings, warning.code = .checkpointStoreUnavailable
  | .error _ => False

variable {deps : VerifyDeps} {input : VerifyAuditChainInput} {head : AuditEvent}

theorem laterInstant {σ : Type} {store : ImmutableCheckpointStore σ} {state : σ}
    (inOrder : ChainInOrder sha256Hex store deps input state) (anchoredAt : Int) :
    ChainInOrder sha256Hex store { deps with anchoredAt := anchoredAt } input state :=
  ⟨inOrder.admitted,inOrder.some,inOrder.intact,inOrder.approved,inOrder.artifacts,inOrder.checkpoint⟩

theorem inOrderAgain {σ : Type} {store : ImmutableCheckpointStore σ} {Holds : σ → List AuditCheckpoint → Prop}
    (lawful : Lawful store Holds) {state state' : σ} {records' : List AuditCheckpoint} (holds : Holds state' records')
    (inOrder : ChainInOrder sha256Hex store deps input state)
    (anchored : HeadAnchored input.organizationId input.documentId records' deps.events) :
    ChainInOrder sha256Hex store deps input state' := by
  obtain ⟨checkpoint,head,latest,last,sequences,hashes⟩ := anchored
  refine ⟨inOrder.admitted,inOrder.some,inOrder.intact,inOrder.approved,inOrder.artifacts,?_⟩
  rw [compareCheckpoint,if_pos lawful.enabled,lawful.latest holds,latest,(intactSorted inOrder.intact).2.2]
  obtain ⟨front,split⟩ := List.getLast?_eq_some_iff.mp last
  simp only [checkpointFailures]
  split
  · rename_i none
    have absent := List.find?_eq_none.mp none head (by rw [split]; simp)
    exact absurd sequences.symm (by simpa using absent)
  · rename_i event found
    have sequence := List.find?_some found
    rw [decide_eq_true_eq] at sequence
    have here := (headSequence inOrder.intact split (List.mem_of_find?_eq_some found)).2 (sequence.trans sequences)
    rw [here,hashes]
    exact if_neg (fun differ => differ rfl)

theorem okOutcome (result : Except AppError CheckpointPutResult) :
    (∃ answer, result = .ok answer) ↔ putOutcome result ≠ .conflict ∧ putOutcome result ≠ .unavailable := by
  cases result with
  | ok answer => cases answer <;> simp [putOutcome]
  | error error =>
    simp only [reduceCtorEq,exists_false,false_iff,not_and_or,ne_eq,not_not]
    cases error with
    | unknown name => exact .inr rfl
    | application kind details =>
      cases kind <;> simp only [putOutcome,reduceCtorEq,or_true]
      split
      · exact .inl rfl
      · exact .inr rfl

theorem anchorQuiet (inOrder : ChainInOrder sha256Hex (ObjectCheckpointStore.store sha256Hex) deps input objects)
    (last : deps.events.getLast? = some head) :
    (anchorHead (ObjectCheckpointStore.store sha256Hex) deps input true objects).1 = [] ↔
      ∃ answer, (ObjectCheckpointStore.putIfAbsent sha256Hex (headCheckpoint deps input head) objects).1 = .ok answer := by
  have sortedLast : (sortEvents deps.events).getLast? = some head := by rw [(intactSorted inOrder.intact).2.2,last]
  have enabled : (ObjectCheckpointStore.store sha256Hex).enabled = true := rfl
  have put : (ObjectCheckpointStore.store sha256Hex).putIfAbsent = ObjectCheckpointStore.putIfAbsent sha256Hex := rfl
  simp only [anchorHead,sortedLast,enabled,Bool.and_self,if_true,put]
  cases ObjectCheckpointStore.putIfAbsent sha256Hex (headCheckpoint deps input head) objects with
  | mk result after => cases result <;> simp

theorem runWarned (inOrder : ChainInOrder sha256Hex (ObjectCheckpointStore.store sha256Hex) deps input objects)
    (holds : ObjectCheckpointStore.Holds sha256Hex objects records) (last : deps.events.getLast? = some head) :
    ¬ Warned (verifyAuditChain sha256Hex (ObjectCheckpointStore.store sha256Hex) deps input objects).1 ↔
      ∀ first, records.find? (fun row => row.keyOf (headCheckpoint deps input head)) = some first →
        sha256Hex (ObjectCheckpointStore.checkpointBytes first) =
          sha256Hex (ObjectCheckpointStore.checkpointBytes (headCheckpoint deps input head)) := by
  have quiet : (compareCheckpoint (ObjectCheckpointStore.store sha256Hex) deps input objects).2 = [] := by
    rw [compareCheckpoint,if_pos ObjectCheckpointStore.lawful.enabled,ObjectCheckpointStore.lawful.latest holds]
  have warnings : ∀ warning ∈ (anchorHead (ObjectCheckpointStore.store sha256Hex) deps input true objects).1,
      warning.code = .checkpointStoreUnavailable := by
    intro warning mem
    rw [anchorHead] at mem
    split at mem
    · split at mem
      · split at mem
        · cases mem
        · rw [List.mem_singleton.mp mem]
      · cases mem
    · cases mem
  have warned : Warned (verifyAuditChain sha256Hex (ObjectCheckpointStore.store sha256Hex) deps input objects).1 ↔
      (anchorHead (ObjectCheckpointStore.store sha256Hex) deps input true objects).1 ≠ [] := by
    rw [runInOrder inOrder]
    change (∃ warning ∈ (compareCheckpoint _ deps input objects).2 ++ (anchorHead _ deps input true objects).1,
      warning.code = .checkpointStoreUnavailable) ↔ _
    rw [quiet,List.nil_append]
    constructor
    · rintro ⟨warning,mem,-⟩ empty
      rw [empty] at mem
      cases mem
    · intro some
      obtain ⟨warning,mem⟩ := List.exists_mem_of_ne_nil _ some
      exact ⟨warning,mem,warnings warning mem⟩
  rw [warned,ne_eq,not_not,anchorQuiet inOrder last,okOutcome,objectPut holds]
  cases records.find? (fun row => row.keyOf (headCheckpoint deps input head)) with
  | none => simp
  | some first =>
    by_cases same : sha256Hex (ObjectCheckpointStore.checkpointBytes first) =
        sha256Hex (ObjectCheckpointStore.checkpointBytes (headCheckpoint deps input head))
    · simp [same]
    · simp [same]

theorem keptAnchor {records' : List AuditCheckpoint} (holds : ObjectCheckpointStore.Holds sha256Hex objects records')
    (inOrder : ChainInOrder sha256Hex (ObjectCheckpointStore.store sha256Hex) deps input objects)
    (last : deps.events.getLast? = some head)
    (present : records'.any (fun row => row.keyOf (headCheckpoint deps input head)) = true) :
    ObjectCheckpointStore.Holds sha256Hex
      (verifyAuditChain sha256Hex (ObjectCheckpointStore.store sha256Hex) deps input objects).2 records' := by
  have put := ObjectCheckpointStore.putState holds (headCheckpoint deps input head)
  rw [insertAbsent,if_pos present] at put
  have sortedLast : (sortEvents deps.events).getLast? = some head := by rw [(intactSorted inOrder.intact).2.2,last]
  rw [runInOrder inOrder]
  simp only [anchorHead,sortedLast,ObjectCheckpointStore.lawful.enabled,Bool.and_self,if_true]
  split
  · rename_i same
    change ObjectCheckpointStore.putIfAbsent sha256Hex _ objects = _ at same
    rw [same] at put
    exact put
  · rename_i same
    change ObjectCheckpointStore.putIfAbsent sha256Hex _ objects = _ at same
    rw [same] at put
    exact put

/-- The checkpoint of the head, anchored at an instant. -/
def headAt (deps : VerifyDeps) (input : VerifyAuditChainInput) (head : AuditEvent) (anchoredAt : Int) : AuditCheckpoint :=
  headCheckpoint { deps with anchoredAt := anchoredAt } input head

theorem reverifyAnchored {first : AuditCheckpoint} (times : List Int)
    (holds : ObjectCheckpointStore.Holds sha256Hex objects records)
    (inOrder : ChainInOrder sha256Hex (ObjectCheckpointStore.store sha256Hex) deps input objects)
    (last : deps.events.getLast? = some head)
    (found : records.find? (fun row => row.keyOf (headCheckpoint deps input head)) = some first)
    (anchored : HeadAnchored input.organizationId input.documentId records deps.events) :
    (∀ answer ∈ reverify sha256Hex deps input times objects, ¬ Warned answer) ↔
      ∀ t ∈ times, sha256Hex (ObjectCheckpointStore.checkpointBytes first) =
        sha256Hex (ObjectCheckpointStore.checkpointBytes (headAt deps input head t)) := by
  induction times generalizing objects with
  | nil => simp [reverify]
  | cons t rest ih =>
    have here := laterInstant inOrder t
    have present : records.any (fun row => row.keyOf (headAt deps input head t)) = true := by
      have some : (records.find? (fun row => row.keyOf (headCheckpoint deps input head))).isSome = true := by
        rw [found]
        rfl
      rw [← findAny] at some
      exact some
    have kept := keptAnchor holds here last present
    have again := inOrderAgain ObjectCheckpointStore.lawful kept inOrder anchored
    have warned := runWarned here holds last
    change _ ↔ ∀ other, records.find? (fun row => row.keyOf (headCheckpoint deps input head)) = some other → _ at warned
    rw [found] at warned
    simp only [Option.some.injEq,forall_eq'] at warned
    simp only [reverify,List.forall_mem_cons,warned,ih kept again]
    rfl

theorem reverifyQuiet (times : List Int) (holds : ObjectCheckpointStore.Holds sha256Hex objects records)
    (inOrder : ChainInOrder sha256Hex (ObjectCheckpointStore.store sha256Hex) deps input objects)
    (last : deps.events.getLast? = some head)
    (absent : records.find? (fun row => row.keyOf (headCheckpoint deps input head)) = none)
    (injective : Set.InjOn sha256Hex (checkpointTexts (times.map (headAt deps input head)))) :
    (∀ answer ∈ reverify sha256Hex deps input times objects, ¬ Warned answer) ↔ ∀ t ∈ times, ∀ t' ∈ times, t = t' := by
  cases times with
  | nil => simp [reverify]
  | cons t rest =>
    have here := laterInstant inOrder t
    obtain ⟨front,split⟩ := List.getLast?_eq_some_iff.mp last
    have quiet : ¬ Warned (verifyAuditChain sha256Hex (ObjectCheckpointStore.store sha256Hex) { deps with anchoredAt := t }
        input objects).1 := by
      refine (runWarned here holds last).mpr (fun first found => ?_)
      have none : records.find? (fun row => row.keyOf (headAt deps input head t)) = none := absent
      change records.find? (fun row => row.keyOf (headAt deps input head t)) = some first at found
      rw [none] at found
      cases found
    have anchored := headAnchored ObjectCheckpointStore.lawful holds here split
    have stored := ObjectCheckpointStore.putState holds (headAt deps input head t)
    have after : (verifyAuditChain sha256Hex (ObjectCheckpointStore.store sha256Hex) { deps with anchoredAt := t } input
        objects).2 = (ObjectCheckpointStore.putIfAbsent sha256Hex (headAt deps input head t) objects).2 := by
      have sortedLast : (sortEvents deps.events).getLast? = some head := by rw [(intactSorted inOrder.intact).2.2,last]
      have put : (ObjectCheckpointStore.store sha256Hex).putIfAbsent = ObjectCheckpointStore.putIfAbsent sha256Hex := rfl
      rw [runInOrder here]
      simp only [anchorHead,sortedLast,ObjectCheckpointStore.lawful.enabled,Bool.and_self,if_true,put,headAt]
      cases ObjectCheckpointStore.putIfAbsent sha256Hex _ objects with
      | mk result after => cases result <;> rfl
    rw [← after] at stored
    have found : (insertAbsent (headAt deps input head t) records).find? (fun row =>
        row.keyOf (headCheckpoint deps input head)) = some (headAt deps input head t) := by
      rw [insertFind,List.find?_append,absent,Option.none_or]
      exact List.find?_cons_of_pos (sameKeyIff.mpr ⟨rfl,rfl,rfl⟩)
    have again := inOrderAgain ObjectCheckpointStore.lawful stored inOrder anchored
    have rested := reverifyAnchored rest stored again last found anchored
    have digests : ∀ t' ∈ rest, sha256Hex (ObjectCheckpointStore.checkpointBytes (headAt deps input head t)) =
        sha256Hex (ObjectCheckpointStore.checkpointBytes (headAt deps input head t')) ↔ t = t' := by
      intro t' mem
      constructor
      · intro same
        have checkpoints := textsInjective injective (List.mem_map_of_mem List.mem_cons_self)
          (List.mem_map_of_mem (List.mem_cons_of_mem _ mem)) same
        exact congrArg AuditCheckpoint.anchoredAt checkpoints
      · rintro rfl
        rfl
    simp only [reverify,List.forall_mem_cons,quiet,not_false_eq_true,true_and,rested]
    constructor
    · intro all
      have same : ∀ t' ∈ rest, t = t' := fun t' mem => (digests t' mem).mp (all t' mem)
      exact ⟨same,fun t' mem => ⟨(same t' mem).symm,fun t'' mem' => (same t' mem).symm.trans (same t'' mem')⟩⟩
    · rintro ⟨same,-⟩ t' mem
      exact (digests t' mem).mpr (same t' mem)

/- The object-storage store answers as the memory store does, and a chain verified again is
anchored without a warning, exactly as long as nothing is anchored again at another instant. -/
theorem storesAgree (sha256Hex : Utf16 → Utf16) :
    (∀ calls, Set.InjOn sha256Hex (checkpointTexts (putsOf calls)) →
      (answers MemoryCheckpointStore.store calls [] = answers (ObjectCheckpointStore.store sha256Hex) calls [] ↔
        AnchorsAlike calls)) ∧
    ∀ (deps : VerifyDeps) (input : VerifyAuditChainInput) (head : AuditEvent) (objects : List ObjectCheckpointStore.StoredObject)
      (records : List AuditCheckpoint) (times : List Int), ObjectCheckpointStore.Holds sha256Hex objects records →
      ReportedOk sha256Hex (ObjectCheckpointStore.store sha256Hex) deps input objects →
      deps.events.getLast? = some head →
      records.find? (fun row => row.keyOf (headCheckpoint deps input head)) = none →
      Set.InjOn sha256Hex (checkpointTexts (times.map (headAt deps input head))) →
      ((∀ answer ∈ reverify sha256Hex deps input times objects, ¬ Warned answer) ↔ ∀ t ∈ times, ∀ t' ∈ times, t = t') := by
  constructor
  · intro calls injective
    refine answersAgree calls [] ⟨rfl,List.Pairwise.nil⟩ (fun _ => rfl) (fun row mem => by cases mem) ?_
    exact injective
  · intro deps input head objects records times holds ok last absent injective
    exact reverifyQuiet times holds (reportedOkIff.mp ok) last absent injective

end

/-! The document that is created and then sent, anchored after each step. -/
namespace CreatedAndSent

def createdOnly : VerifyRun := ⟨reads [created createdPayload] 1787140900000,none⟩
def emptied : VerifyRun := ⟨reads [] 1787141000000,none⟩
def createdThenSent : VerifyRun := ⟨reads [created createdPayload,sent] 1787141200000,none⟩

theorem bothInOrder {state : List AuditCheckpoint} {anchoredAt : Int}
    (checkpoint : (compareCheckpoint MemoryCheckpointStore.store (reads [created createdPayload,sent] anchoredAt) request
      state).1 = []) :
    ChainInOrder sha256Hex MemoryCheckpointStore.store (reads [created createdPayload,sent] anchoredAt) request state := by
  have inOrder := reportedOkIff.mp createdOk
  exact ⟨inOrder.admitted,inOrder.some,inOrder.intact,inOrder.approved,inOrder.artifacts,checkpoint⟩

theorem oneInOrder {σ : Type} {store : ImmutableCheckpointStore σ} {state : σ} {anchoredAt : Int}
    (checkpoint : (compareCheckpoint store (reads [created createdPayload] anchoredAt) request state).1 = []) :
    ChainInOrder sha256Hex store (reads [created createdPayload] anchoredAt) request state := by
  have inOrder := reportedOkIff.mp createdOk
  have front : ∀ event ∈ [created createdPayload], event ∈ [created createdPayload,sent] :=
    fun event mem => List.mem_of_mem_take (by exact mem : event ∈ [created createdPayload,sent].take 1)
  refine ⟨rfl,List.cons_ne_nil _ _,⟨?_,fun event mem => inOrder.intact.hashed event (front event mem)⟩,
    fun event mem => inOrder.approved event (front event mem),?_,checkpoint⟩
  · exact (@HashChain.linkedAppend _ _ auditChain _ _ [created createdPayload] [sent]).mp inOrder.intact.linked |>.1
  · intro event mem final
    rw [List.mem_singleton.mp mem] at final
    cases final

theorem keptHistory : HashedPrefix [created createdPayload] [created createdPayload,sent] := by
  have first : ChainInOrder sha256Hex MemoryCheckpointStore.store createdOnly.deps (createdOnly.input organization document) [] :=
    oneInOrder rfl
  have anchored : stateAfter sha256Hex MemoryCheckpointStore.store organization document [createdOnly,emptied] [] =
      [headCheckpoint createdOnly.deps request (created createdPayload)] := by
    rw [stateAfter,List.foldl_cons,runInOrder first]
    rfl
  have second : ChainInOrder sha256Hex MemoryCheckpointStore.store createdThenSent.deps
      (createdThenSent.input organization document) [headCheckpoint createdOnly.deps request (created createdPayload)] :=
    bothInOrder (by decide +kernel)
  rw [← anchored] at second
  refine anchoredHistory MemoryCheckpointStore.lawful rfl [] [emptied] createdOnly createdThenSent
    (reportedOkIff.mpr first) (reportedOkIff.mpr second) (sha256Injective.mono ?_)
  rintro text ⟨run,runMem,event,eventMem,hashed⟩
  refine createdHashed originalText ⟨event,?_,hashed⟩
  simp only [List.cons_append,List.nil_append,List.mem_cons,List.not_mem_nil,or_false] at runMem
  rcases runMem with rfl | rfl | rfl
  · exact List.mem_of_mem_take (by exact eventMem : event ∈ [created createdPayload,sent].take 1)
  · cases eventMem
  · exact eventMem

/-! The head of the created document, anchored again five minutes later. -/

def firstTime : Int := 1787140900000
def laterTime : Int := 1787141200000

def createdHead (anchoredAt : Int) : AuditCheckpoint :=
  headAt (reads [created createdPayload] firstTime) request (created createdPayload) anchoredAt

def firstDigest : Utf16 := utf16 "62ec1b975137f34955872f069ebae50fdd783d4fac599cb99938564e26a15ca2"
def laterDigest : Utf16 := utf16 "538afaf79aa3a73f9e603f64a9d93d13fa30dd81de493948494c8d9e96ba9054"

def checkpointText (anchoredAt : String) : Utf16 :=
  utf16 "\x7b\"anchoredAt\":\"" ++ utf16 anchoredAt ++
  utf16 "\",\"documentId\":\"44444444-4444-4444-8444-444444444444\",\"eventHash\":\"4d492b1a43fc691da54996" ++
  utf16 "a57b1917e9a05e340ee95c148ba6e4aec804ec5f1e\",\"organizationId\":\"11111111-1111-4111-8111-1111" ++
  utf16 "11111111\",\"schemaVersion\":1,\"sequence\":0\x7d"

def firstText : Utf16 := checkpointText "2026-08-19T12:01:40.000Z"
def laterText : Utf16 := checkpointText "2026-08-19T12:06:40.000Z"

/-- SHA-256 on the texts of the events and of the two checkpoints. -/
def sha256Anchors (text : Utf16) : Utf16 :=
  if text = firstText then firstDigest else if text = laterText then laterDigest else sha256Hex text

def anchorTwice : List CheckpointCall := [.putIfAbsent (createdHead firstTime),.putIfAbsent (createdHead laterTime)]

/-- The warnings of each report, and whether it is ok. -/
def warned (answer : Except AppError AuditVerificationReport) : Option (Bool × List AuditVerificationWarningCode) :=
  match answer with
  | .ok report => some (report.ok,report.warnings.map AuditVerificationWarning.code)
  | .error _ => none

theorem evaluatedAnchors :
    ObjectCheckpointStore.checkpointBytes (createdHead firstTime) = firstText ∧
    ObjectCheckpointStore.checkpointBytes (createdHead laterTime) = laterText ∧
    laterText ≠ firstText ∧ firstDigest ≠ laterDigest ∧
    answers MemoryCheckpointStore.store anchorTwice [] = [.put .stored,.put .exists] ∧
    answers (ObjectCheckpointStore.store sha256Anchors) anchorTwice [] = [.put .stored,.put .conflict] ∧
    (reverify sha256Anchors (reads [created createdPayload] firstTime) request [firstTime,laterTime] []).map warned =
      [some (true,[]),some (true,[.checkpointStoreUnavailable])] ∧
    warned (verifyAuditChain sha256Anchors (ObjectCheckpointStore.store sha256Anchors)
      (reads [created createdPayload] firstTime) request []).1 = some (true,[]) := by decide +kernel

theorem anchorsInjective : Set.InjOn sha256Anchors (checkpointTexts [createdHead firstTime,createdHead laterTime]) := by
  obtain ⟨firstBytes,laterBytes,texts,digests,-⟩ := evaluatedAnchors
  have firstHashed : sha256Anchors firstText = firstDigest := if_pos rfl
  have laterHashed : sha256Anchors laterText = laterDigest := by rw [sha256Anchors,if_neg texts,if_pos rfl]
  have mem : ∀ text ∈ checkpointTexts [createdHead firstTime,createdHead laterTime],
      text = firstText ∨ text = laterText := by
    rintro text ⟨checkpoint,mem,rfl⟩
    rcases List.mem_pair.mp mem with rfl | rfl
    · exact .inl firstBytes
    · exact .inr laterBytes
  intro left leftMem right rightMem same
  rcases mem left leftMem with rfl | rfl <;> rcases mem right rightMem with rfl | rfl
  · rfl
  · rw [firstHashed,laterHashed] at same
    exact absurd same digests
  · rw [firstHashed,laterHashed] at same
    exact absurd same.symm digests
  · rfl

theorem anchoredOk : ReportedOk sha256Anchors (ObjectCheckpointStore.store sha256Anchors)
    (reads [created createdPayload] firstTime) request [] := by
  obtain ⟨-,-,-,-,-,-,-,shown⟩ := evaluatedAnchors
  cases run : verifyAuditChain sha256Anchors (ObjectCheckpointStore.store sha256Anchors)
      (reads [created createdPayload] firstTime) request [] with
  | mk answer after =>
    rw [run] at shown
    cases answer with
    | ok report =>
      simp only [warned,Option.some.injEq,Prod.mk.injEq] at shown
      exact ⟨report,after,run,shown.1⟩
    | error _ => cases shown

theorem anchoredAtOnce :
    answers MemoryCheckpointStore.store [.putIfAbsent (createdHead firstTime),.putIfAbsent (createdHead firstTime)] [] =
      answers (ObjectCheckpointStore.store sha256Anchors)
        [.putIfAbsent (createdHead firstTime),.putIfAbsent (createdHead firstTime)] [] ∧
    ∀ answer ∈ reverify sha256Anchors (reads [created createdPayload] firstTime) request [firstTime,firstTime] [],
      ¬ Warned answer := by
  have injective : Set.InjOn sha256Anchors (checkpointTexts [createdHead firstTime,createdHead firstTime]) := by
    refine anchorsInjective.mono ?_
    rintro text ⟨checkpoint,mem,rfl⟩
    rcases List.mem_pair.mp mem with rfl | rfl <;> exact ⟨_,List.mem_cons_self,rfl⟩
  refine ⟨((storesAgree sha256Anchors).1 [.putIfAbsent (createdHead firstTime),.putIfAbsent (createdHead firstTime)]
      injective).mpr ?_,((storesAgree sha256Anchors).2 _ _ (created createdPayload) [] [] [firstTime,firstTime]
        ⟨rfl,List.Pairwise.nil⟩ anchoredOk
      rfl rfl injective).mpr ?_⟩
  · refine (@alikeCons [] _ _).mpr ⟨?_,(@alikeCons [_] _ _).mpr ⟨?_,?_⟩⟩
    · intro checkpoint first here found
      cases found
    · rintro checkpoint first ⟨⟩ found -
      have here : first = createdHead firstTime := List.mem_singleton.mp (List.mem_of_find?_eq_some found)
      rw [here]
      exact ⟨rfl,rfl⟩
    · intro middle checkpoint after first split
      simp at split
  · intro t mem t' mem'
    rcases List.mem_pair.mp mem with rfl | rfl <;> rcases List.mem_pair.mp mem' with rfl | rfl <;> rfl

theorem anchoredLater : Set.InjOn sha256Anchors (checkpointTexts (putsOf anchorTwice)) ∧
    answers MemoryCheckpointStore.store anchorTwice [] = [.put .stored,.put .exists] ∧
    answers (ObjectCheckpointStore.store sha256Anchors) anchorTwice [] = [.put .stored,.put .conflict] ∧
    (reverify sha256Anchors (reads [created createdPayload] firstTime) request [firstTime,laterTime] []).map warned =
      [some (true,[]),some (true,[.checkpointStoreUnavailable])] := by
  obtain ⟨-,-,-,-,memory,objects,reports,-⟩ := evaluatedAnchors
  exact ⟨anchorsInjective,memory,objects,reports⟩

end CreatedAndSent

end ESign
