import ESign.JsText
import Mathlib.Data.Rat.Floor
import Mathlib.Data.List.Induction
import Mathlib.Logic.Function.Basic
import Mathlib.Tactic.Linarith

/-! The rate limiter in memory: a window for each key, which the first call behind the last
window starts. What is bounded is counted over the calls that were served, of any keys. -/
namespace ESign.RateLimiter
open JsText

structure Options where
  max : Nat
  windowMs : Rat

structure Bucket where
  count : Nat
  windowStartMs : Int
  deriving DecidableEq, Repr

structure RateLimitDecision where
  allowed : Bool
  retryAfterSeconds : Int
  deriving DecidableEq, Repr

abbrev Buckets := Utf16 → Option Bucket

def consume (options : Options) (buckets : Buckets) (key : Utf16) (nowMs : Int) : RateLimitDecision × Buckets :=
  match buckets key with
  | none => (⟨true,0⟩,Function.update buckets key (some ⟨1,nowMs⟩))
  | some existing =>
      if options.windowMs ≤ nowMs - existing.windowStartMs then
        (⟨true,0⟩,Function.update buckets key (some ⟨1,nowMs⟩))
      else if options.max ≤ existing.count then
        let retryAfterMs := options.windowMs - (nowMs - existing.windowStartMs)
        (⟨false,max 1 ⌈retryAfterMs / 1000⌉⟩,buckets)
      else (⟨true,0⟩,Function.update buckets key (some { existing with count := existing.count+1 }))

structure Call where
  key : Utf16
  nowMs : Int
  deriving DecidableEq, Repr

structure Served where
  call : Call
  decision : RateLimitDecision
  deriving DecidableEq, Repr

def serve (options : Options) : Buckets → List Call → List Served
  | _,[] => []
  | buckets,call :: rest =>
      let (decision,next) := consume options buckets call.key call.nowMs
      ⟨call,decision⟩ :: serve options next rest

def bucketsAfter (options : Options) (buckets : Buckets) (calls : List Call) : Buckets :=
  calls.foldl (fun buckets call => (consume options buckets call.key call.nowMs).2) buckets

def noBuckets : Buckets := fun _ => none

def Opens (options : Options) (existing : Option Bucket) (nowMs : Int) : Prop :=
  ∀ bucket, existing = some bucket → bucket.windowStartMs + options.windowMs ≤ nowMs

/-- How many calls of a key were allowed at the times that are looked at. -/
def allowedCalls (key : Utf16) (within : Int → Bool) (served : List Served) : Nat :=
  served.countP (fun s => s.call.key = key && s.decision.allowed && within s.call.nowMs)

variable {options : Options} {buckets : Buckets} {key : Utf16} {nowMs : Int}

theorem consumeOpens (opens : Opens options (buckets key) nowMs) :
    consume options buckets key nowMs = (⟨true,0⟩,Function.update buckets key (some ⟨1,nowMs⟩)) := by
  unfold consume
  split
  · rfl
  · rename_i existing found
    have elapsed := opens existing found
    rw [if_pos (by linarith)]

theorem consumeRefused {bucket : Bucket} (found : buckets key = some bucket)
    (running : nowMs < bucket.windowStartMs + options.windowMs) (full : options.max ≤ bucket.count) :
    consume options buckets key nowMs =
      (⟨false,max 1 ⌈(options.windowMs - (nowMs - bucket.windowStartMs)) / 1000⌉⟩,buckets) := by
  unfold consume
  rw [found]
  dsimp only
  rw [if_neg (by linarith),if_pos full]

theorem consumeCounted {bucket : Bucket} (found : buckets key = some bucket)
    (running : nowMs < bucket.windowStartMs + options.windowMs) (room : bucket.count < options.max) :
    consume options buckets key nowMs =
      (⟨true,0⟩,Function.update buckets key (some { bucket with count := bucket.count+1 })) := by
  unfold consume
  rw [found]
  dsimp only
  rw [if_neg (by linarith),if_neg (by omega)]

theorem consumeOther {other : Utf16} (apart : key ≠ other) :
    (consume options buckets other nowMs).2 key = buckets key := by
  unfold consume
  split
  · exact Function.update_of_ne apart _ _
  · split_ifs
    · exact Function.update_of_ne apart _ _
    · rfl
    · exact Function.update_of_ne apart _ _

theorem runningOf (closed : ¬ Opens options (buckets key) nowMs) :
    ∃ bucket, buckets key = some bucket ∧ nowMs < bucket.windowStartMs + options.windowMs := by
  unfold Opens at closed
  push Not at closed
  exact closed

/-! Counting. -/

variable {within : Int → Bool}

theorem serveCons (call : Call) (rest : List Call) :
    serve options buckets (call :: rest) = ⟨call,(consume options buckets call.key call.nowMs).1⟩ ::
      serve options (consume options buckets call.key call.nowMs).2 rest := rfl

theorem allowedOther {call : Call} {rest : List Call} (apart : call.key ≠ key) :
    allowedCalls key within (serve options buckets (call :: rest)) =
      allowedCalls key within (serve options (consume options buckets call.key call.nowMs).2 rest) := by
  rw [serveCons,allowedCalls,List.countP_cons_of_neg (by simp [apart])]
  rfl

theorem allowedSelf {call : Call} {rest : List Call} :
    allowedCalls key within (serve options buckets (call :: rest)) ≤
      allowedCalls key within (serve options (consume options buckets call.key call.nowMs).2 rest) + 1 := by
  rw [serveCons,allowedCalls,List.countP_cons]
  split
  · rfl
  · exact Nat.le_add_right _ _

theorem allowedNot {call : Call} {rest : List Call}
    (not : (consume options buckets call.key call.nowMs).1.allowed = false ∨ within call.nowMs = false) :
    allowedCalls key within (serve options buckets (call :: rest)) =
      allowedCalls key within (serve options (consume options buckets call.key call.nowMs).2 rest) := by
  rw [serveCons,allowedCalls,List.countP_cons_of_neg]
  · rfl
  · rcases not with refused | outside
    · simp [refused]
    · simp [outside]

theorem allowedNone {calls : List Call} (outside : ∀ call ∈ calls, call.key = key → within call.nowMs = false) :
    allowedCalls key within (serve options buckets calls) = 0 := by
  induction calls generalizing buckets with
  | nil => rfl
  | cons call rest ih =>
    rw [List.forall_mem_cons] at outside
    by_cases own : call.key = key
    · rw [allowedNot (.inr (outside.1 own))]
      exact ih outside.2
    · rw [allowedOther own]
      exact ih outside.2

theorem updated (bucket : Bucket) :
    Function.update buckets key (some { bucket with count := bucket.count+1 }) key =
      some { bucket with count := bucket.count+1 } := Function.update_self ..

def Ordered (calls : List Call) : Prop := calls.Pairwise (fun earlier later => earlier.nowMs ≤ later.nowMs)

theorem windowLeft {bucket : Bucket} (found : buckets key = some bucket) {calls : List Call} (ordered : Ordered calls)
    (inside : ∀ now, within now = true → (now : Rat) < bucket.windowStartMs + options.windowMs) :
    allowedCalls key within (serve options buckets calls) ≤ options.max - bucket.count := by
  induction calls generalizing buckets bucket with
  | nil => exact Nat.zero_le _
  | cons call rest ih =>
    obtain ⟨later,ordered⟩ := List.pairwise_cons.mp ordered
    by_cases own : call.key = key
    · subst own
      by_cases opens : Opens options (buckets call.key) call.nowMs
      · have elapsed := opens bucket found
        rw [allowedNone]
        · exact Nat.zero_le _
        · intro other mem _
          rw [← Bool.not_eq_true]
          intro counted
          have before := inside other.nowMs counted
          have since : call.nowMs ≤ other.nowMs := by
            rcases List.mem_cons.mp mem with rfl | mem
            · exact le_refl _
            · exact later other mem
          have since : (call.nowMs : Rat) ≤ other.nowMs := by exact_mod_cast since
          linarith
      · obtain ⟨current,same,running⟩ := runningOf opens
        obtain rfl := Option.some.inj (found.symm.trans same)
        rcases Nat.lt_or_ge bucket.count options.max with room | full
        · have next := consumeCounted found running room
          calc allowedCalls call.key within (serve options buckets (call :: rest))
              ≤ allowedCalls call.key within
                  (serve options (consume options buckets call.key call.nowMs).2 rest) + 1 := allowedSelf
            _ ≤ options.max - (bucket.count+1) + 1 := by
                rw [next]
                exact Nat.add_le_add_right (ih (updated bucket) ordered inside) 1
            _ ≤ options.max - bucket.count := by omega
        · have refused := consumeRefused found running full
          rw [allowedNot (.inl (by rw [refused])),refused]
          exact ih found ordered inside
    · rw [allowedOther own]
      exact ih (by rw [consumeOther (Ne.symm own)]; exact found) ordered inside

theorem intervalLeft (positive : 1 ≤ options.max) {bucket : Bucket} (found : buckets key = some bucket)
    {calls : List Call} (ordered : Ordered calls) {start : Rat} (recent : start < bucket.windowStartMs + options.windowMs)
    (inside : ∀ now, within now = true → (now : Rat) ≤ start + options.windowMs) :
    allowedCalls key within (serve options buckets calls) ≤ options.max - bucket.count + options.max := by
  induction calls generalizing buckets bucket with
  | nil => exact Nat.zero_le _
  | cons call rest ih =>
    obtain ⟨-,ordered⟩ := List.pairwise_cons.mp ordered
    by_cases own : call.key = key
    · subst own
      by_cases opens : Opens options (buckets call.key) call.nowMs
      · have elapsed := opens bucket found
        calc allowedCalls call.key within (serve options buckets (call :: rest))
            ≤ allowedCalls call.key within
                (serve options (consume options buckets call.key call.nowMs).2 rest) + 1 := allowedSelf
          _ ≤ options.max - 1 + 1 := by
              rw [consumeOpens opens]
              refine Nat.add_le_add_right (windowLeft (Function.update_self ..) ordered fun now counted => ?_) 1
              have latest := inside now counted
              dsimp only
              linarith
          _ ≤ options.max - bucket.count + options.max := by omega
      · obtain ⟨current,same,running⟩ := runningOf opens
        obtain rfl := Option.some.inj (found.symm.trans same)
        rcases Nat.lt_or_ge bucket.count options.max with room | full
        · have next := consumeCounted found running room
          calc allowedCalls call.key within (serve options buckets (call :: rest))
              ≤ allowedCalls call.key within
                  (serve options (consume options buckets call.key call.nowMs).2 rest) + 1 := allowedSelf
            _ ≤ options.max - (bucket.count+1) + options.max + 1 := by
                rw [next]
                exact Nat.add_le_add_right (ih (updated bucket) ordered recent) 1
            _ ≤ options.max - bucket.count + options.max := by omega
        · have refused := consumeRefused found running full
          rw [allowedNot (.inl (by rw [refused])),refused]
          exact ih found ordered recent
    · rw [allowedOther own]
      exact ih (by rw [consumeOther (Ne.symm own)]; exact found) ordered recent

theorem intervalBound (positive : 1 ≤ options.max) (lasting : 0 < options.windowMs) {calls : List Call}
    (ordered : Ordered calls) (start : Rat)
    (inside : ∀ now, within now = true → start ≤ now ∧ (now : Rat) ≤ start + options.windowMs) :
    allowedCalls key within (serve options buckets calls) ≤ 2*options.max := by
  induction calls generalizing buckets with
  | nil => exact Nat.zero_le _
  | cons call rest ih =>
    have tail := (List.pairwise_cons.mp ordered).2
    by_cases own : call.key = key
    · subst own
      cases counted : within call.nowMs with
      | false =>
        rw [allowedNot (.inr counted)]
        exact ih tail
      | true =>
        -- the first call of the interval stands in a window that reaches into it
        have since := (inside call.nowMs counted).1
        by_cases opens : Opens options (buckets call.key) call.nowMs
        · have recent : start < (Bucket.mk 1 call.nowMs).windowStartMs + options.windowMs := by
            dsimp only
            linarith
          calc allowedCalls call.key within (serve options buckets (call :: rest))
              ≤ allowedCalls call.key within
                  (serve options (consume options buckets call.key call.nowMs).2 rest) + 1 := allowedSelf
            _ ≤ options.max - 1 + options.max + 1 := by
                rw [consumeOpens opens]
                exact Nat.add_le_add_right (intervalLeft positive (Function.update_self ..) tail recent
                  (fun now counted => (inside now counted).2)) 1
            _ = 2*options.max := by omega
        · obtain ⟨bucket,found,running⟩ := runningOf opens
          have left := intervalLeft positive found ordered (lt_of_le_of_lt since running)
            (fun now counted => (inside now counted).2)
          omega
    · rw [allowedOther own]
      exact ih tail

/-! The history of a limiter. -/

theorem serveAppend (before after : List Call) : serve options buckets (before ++ after) =
    serve options buckets before ++ serve options (bucketsAfter options buckets before) after := by
  induction before generalizing buckets with
  | nil => rfl
  | cons call rest ih => rw [List.cons_append,serveCons,serveCons,ih,List.cons_append]; rfl

theorem bucketsAppend (before after : List Call) : bucketsAfter options buckets (before ++ after) =
    bucketsAfter options (bucketsAfter options buckets before) after := List.foldl_append ..

theorem bucketsCons (call : Call) (rest : List Call) : bucketsAfter options buckets (call :: rest) =
    bucketsAfter options (consume options buckets call.key call.nowMs).2 rest := rfl

/- The window that a bucket stands for is not over at any call of its key that was served. -/
theorem covered (lasting : 0 < options.windowMs) {calls : List Call} (ordered : Ordered calls) :
    ∀ call ∈ calls, ∃ bucket, bucketsAfter options noBuckets calls call.key = some bucket ∧
      (call.nowMs : Rat) < bucket.windowStartMs + options.windowMs := by
  induction calls using List.reverseRecOn with
  | nil => exact fun _ mem => nomatch mem
  | append_singleton earlier last ih =>
    obtain ⟨ordered,-,up⟩ := List.pairwise_append.mp ordered
    intro call mem
    have late : call.nowMs ≤ last.nowMs := by
      rcases List.mem_append.mp mem with old | new
      · exact up call old last (List.mem_singleton_self last)
      · rw [List.mem_singleton.mp new]
    rw [bucketsAppend,bucketsCons]
    change ∃ bucket, (consume options _ last.key last.nowMs).2 call.key = some bucket ∧ _
    by_cases own : call.key = last.key
    · by_cases opens : Opens options (bucketsAfter options noBuckets earlier last.key) last.nowMs
      · rw [consumeOpens opens,own]
        refine ⟨_,Function.update_self ..,?_⟩
        have late : (call.nowMs : Rat) ≤ last.nowMs := by exact_mod_cast late
        dsimp only
        linarith
      · obtain ⟨bucket,found,running⟩ := runningOf opens
        have inWindow : (call.nowMs : Rat) < bucket.windowStartMs + options.windowMs :=
          lt_of_le_of_lt (by exact_mod_cast late) running
        rcases Nat.lt_or_ge bucket.count options.max with room | full
        · rw [consumeCounted found running room,own]
          exact ⟨_,Function.update_self ..,inWindow⟩
        · rw [consumeRefused found running full,own]
          exact ⟨bucket,found,inWindow⟩
    · rw [consumeOther own]
      rcases List.mem_append.mp mem with old | new
      · exact ih ordered call old
      · exact absurd (congrArg Call.key (List.mem_singleton.mp new)) own

theorem serveCongr {others : Buckets} {calls : List Call} (own : ∀ call ∈ calls, call.key = key)
    (same : buckets key = others key) : serve options buckets calls = serve options others calls := by
  induction calls generalizing buckets others with
  | nil => rfl
  | cons call rest ih =>
    obtain ⟨first,own⟩ := List.forall_mem_cons.mp own
    subst first
    have step : (consume options buckets call.key call.nowMs).1 = (consume options others call.key call.nowMs).1 ∧
        (consume options buckets call.key call.nowMs).2 call.key = (consume options others call.key call.nowMs).2 call.key := by
      unfold consume
      rw [same]
      split
      · simp
      · split_ifs <;> simp [same]
    rw [serveCons,serveCons,step.1,ih own step.2]

theorem serveApart (calls : List Call) :
    (serve options buckets calls).filter (fun s => s.call.key = key) =
      serve options buckets (calls.filter (fun call => call.key = key)) := by
  induction calls generalizing buckets with
  | nil => rfl
  | cons call rest ih =>
    by_cases own : call.key = key
    · simp only [List.filter_cons,serveCons,own,decide_true,if_true,ih]
    · simp only [List.filter_cons,serveCons,own,decide_false,Bool.false_eq_true,if_false,ih]
      refine serveCongr (fun other mem => of_decide_eq_true (List.mem_filter.mp mem).2) ?_
      exact consumeOther (Ne.symm own)

theorem bucketsQuiet {calls : List Call} (quiet : ∀ call ∈ calls, call.key ≠ key) :
    bucketsAfter options buckets calls key = buckets key := by
  induction calls generalizing buckets with
  | nil => rfl
  | cons call rest ih =>
    obtain ⟨first,quiet⟩ := List.forall_mem_cons.mp quiet
    exact (ih quiet).trans (consumeOther (Ne.symm first))

/-! The bounds. -/

structure Bounds (options : Options) (calls : List Call) : Prop where
  interval : ∀ (key : Utf16) (start : Rat), allowedCalls key
    (fun now => start ≤ now && now ≤ start + options.windowMs) (serve options noBuckets calls) ≤ 2*options.max
  window : ∀ before call after, calls = before ++ call :: after →
    Opens options (bucketsAfter options noBuckets before call.key) call.nowMs →
    (consume options (bucketsAfter options noBuckets before) call.key call.nowMs).1.allowed = true ∧
      allowedCalls call.key (fun now => call.nowMs ≤ now && now < call.nowMs + options.windowMs)
        (serve options noBuckets calls) ≤ options.max
  apart : ∀ key : Utf16, (serve options noBuckets calls).filter (fun s => s.call.key = key) =
    serve options noBuckets (calls.filter (fun call => call.key = key))
  retry : ∀ before refused between next after, calls = before ++ refused :: (between ++ next :: after) →
    (consume options (bucketsAfter options noBuckets before) refused.key refused.nowMs).1.allowed = false →
    (∀ call ∈ between, call.key ≠ refused.key) → next.key = refused.key →
    refused.nowMs + 1000*(consume options (bucketsAfter options noBuckets before) refused.key
      refused.nowMs).1.retryAfterSeconds ≤ next.nowMs →
    (consume options (bucketsAfter options noBuckets (before ++ refused :: between)) next.key next.nowMs).1.allowed = true

theorem windowBound (positive : 1 ≤ options.max) (lasting : 0 < options.windowMs) {before after : List Call} {call : Call}
    (ordered : Ordered (before ++ call :: after))
    (opens : Opens options (bucketsAfter options noBuckets before call.key) call.nowMs) :
    allowedCalls call.key (fun now => call.nowMs ≤ now && now < call.nowMs + options.windowMs)
      (serve options noBuckets (before ++ call :: after)) ≤ options.max := by
  obtain ⟨early,late,-⟩ := List.pairwise_append.mp ordered
  have noneBefore : allowedCalls call.key (fun now => call.nowMs ≤ now && now < call.nowMs + options.windowMs)
      (serve options noBuckets before) = 0 := by
    refine allowedNone fun other mem own => ?_
    obtain ⟨bucket,found,running⟩ := covered lasting early other mem
    have ended := opens bucket (own ▸ found)
    have earlier : (other.nowMs : Rat) < call.nowMs := lt_of_lt_of_le running ended
    rw [Bool.and_eq_false_iff]
    exact .inl (decide_eq_false (by exact_mod_cast earlier.not_ge))
  calc allowedCalls call.key (fun now => call.nowMs ≤ now && now < call.nowMs + options.windowMs)
        (serve options noBuckets (before ++ call :: after))
      = allowedCalls call.key (fun now => call.nowMs ≤ now && now < call.nowMs + options.windowMs)
          (serve options (bucketsAfter options noBuckets before) (call :: after)) := by
        rw [serveAppend,allowedCalls,List.countP_append]
        exact (congrArg (· + _) noneBefore).trans (Nat.zero_add _)
    _ ≤ allowedCalls call.key (fun now => call.nowMs ≤ now && now < call.nowMs + options.windowMs)
          (serve options (consume options (bucketsAfter options noBuckets before) call.key call.nowMs).2 after) + 1 :=
        allowedSelf
    _ ≤ options.max - 1 + 1 := by
        rw [consumeOpens opens]
        refine Nat.add_le_add_right (windowLeft (Function.update_self ..) (List.pairwise_cons.mp late).2 ?_) 1
        intro now counted
        exact of_decide_eq_true (Bool.and_eq_true_iff.mp counted).2
    _ = options.max := Nat.sub_add_cancel positive

theorem retryReaches (waitMs : Rat) : waitMs ≤ 1000*(max 1 ⌈waitMs / 1000⌉ : Int) := by
  have seconds : waitMs / 1000 ≤ (⌈waitMs / 1000⌉ : Int) := Int.le_ceil _
  have least : (⌈waitMs / 1000⌉ : Int) ≤ (max 1 ⌈waitMs / 1000⌉ : Int) := le_max_right _ _
  have least : ((⌈waitMs / 1000⌉ : Int) : Rat) ≤ (max 1 ⌈waitMs / 1000⌉ : Int) := by exact_mod_cast least
  linarith

theorem retryOpens {refused : Call} (denied : (consume options buckets refused.key refused.nowMs).1.allowed = false)
    (waited : refused.nowMs + 1000*(consume options buckets refused.key refused.nowMs).1.retryAfterSeconds ≤ nowMs) :
    Opens options ((consume options buckets refused.key refused.nowMs).2 refused.key) nowMs := by
  by_cases opens : Opens options (buckets refused.key) refused.nowMs
  · rw [consumeOpens opens] at denied
    cases denied
  · obtain ⟨bucket,found,running⟩ := runningOf opens
    rcases Nat.lt_or_ge bucket.count options.max with room | full
    · rw [consumeCounted found running room] at denied
      cases denied
    · rw [consumeRefused found running full] at waited ⊢
      intro same held
      cases found.symm.trans held
      have reaches := retryReaches (options.windowMs - (refused.nowMs - bucket.windowStartMs))
      have waited : (refused.nowMs : Rat) + 1000*(max 1 ⌈(options.windowMs - (refused.nowMs - bucket.windowStartMs)) / 1000⌉ : Int)
          ≤ nowMs := by exact_mod_cast waited
      linarith

/-- Under a clock that does not run backwards, whatever the calls and their keys. -/
theorem limiterBounds (options : Options) (calls : List Call) (positive : 1 ≤ options.max)
    (lasting : 0 < options.windowMs) (ordered : Ordered calls) : Bounds options calls where
  interval := by
    intro key start
    refine intervalBound positive lasting ordered start fun now counted => ?_
    obtain ⟨since,until_⟩ := Bool.and_eq_true_iff.mp counted
    exact ⟨of_decide_eq_true since,of_decide_eq_true until_⟩
  window := by
    rintro before call after rfl opens
    exact ⟨by rw [consumeOpens opens],windowBound positive lasting ordered opens⟩
  apart _ := serveApart calls
  retry := by
    intro before refused between next after _ denied quiet own waited
    rw [own,consumeOpens]
    rw [bucketsAppend,bucketsCons,bucketsQuiet quiet]
    exact retryOpens denied waited

theorem thirdWaits : Bounds ⟨2,60000⟩ [⟨[97],1000⟩,⟨[98],1500⟩,⟨[97],2000⟩,⟨[97],61500⟩,⟨[97],62500⟩] :=
  limiterBounds ⟨2,60000⟩ _ (by decide) (by norm_num) (by unfold Ordered; decide)

end ESign.RateLimiter
