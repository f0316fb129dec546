import ESign.StoreProgram

/-! Requests that have the store to themselves, one after the other. What they come to can
be computed, and it is one of the runs of the system: what can be done alone can be done. -/
namespace ESign.StoreProgram

variable {S W I R Q E α β γ : Type}

/-- The program run to its end, given the same from outside at every action. -/
def Program.alone (exec : W → S → I → S × R) (i : I) : S → Program S W I R β → S × β
  | s, .done value => (s,value)
  | s, .read next => (next s i).alone exec i s
  | s, .write w next => (next (exec w s i).2).alone exec i (exec w s i).1

theorem aloneBind {exec : W → S → I → S × R} {i : I} (p : Program S W I R β) {f : β → Program S W I R γ} (s : S) :
    (p.bind f).alone exec i s = (f (p.alone exec i s).2).alone exec i (p.alone exec i s).1 := by
  induction p generalizing s with
  | done value => rfl
  | read next ih => exact ih s i s
  | write w next ih => exact ih (exec w s i).2 (exec w s i).1

theorem aloneThen {exec : W → S → I → S × R} {i : I} {p : Program S W I R β} {f : β → Program S W I R γ} {s s₁ : S}
    {value : β}
    {r : S × γ} (first : p.alone exec i s = (s₁,value)) (second : (f value).alone exec i s₁ = r) :
    (p.bind f).alone exec i s = r := by
  rw [aloneBind,first]
  exact second

namespace Fallible

variable {exec : W → S → I → S × Except E Unit} {i : I}

/-- Alone on `s`, the program comes to a value without an error, and leaves `s'`. -/
def Gives (exec : W → S → I → S × Except E Unit) (i : I) (s : S) (p : Fallible S W I E α) (value : α) (s' : S) : Prop :=
  Program.alone exec i s p = (s',.ok value)

theorem givesBind {p : Fallible S W I E α} {f : α → Fallible S W I E β} {a : α} {b : β} {s s₁ s₂ : S}
    (first : Gives exec i s p a s₁) (second : Gives exec i s₁ (f a) b s₂) : Gives exec i s (p >>= f) b s₂ :=
  aloneThen first second

theorem givesPure (value : α) (s : S) : Gives exec i s (pure value : Fallible S W I E α) value s := rfl

theorem givesGet (f : S → I → α) (s : S) : Gives exec i s (get f : Fallible S W I E α) (f s i) s := rfl

theorem givesFind {f : S → Option α} {error : E} {s : S} {value : α} (found : f s = some value) :
    Gives exec i s (find f error : Fallible S W I E α) value s := by
  show (s,(f s).elim (Except.error error) Except.ok) = _
  rw [found]
  rfl

theorem givesEnsure {holds : Bool} {error : E} {s : S} (met : holds = true) :
    Gives exec i s (ensure holds error : Fallible S W I E Unit) () s := by
  subst met
  rfl

theorem givesLift {result : Except E α} {value : α} {s : S} (ok : result = .ok value) :
    Gives exec i s (lift result : Fallible S W I E α) value s := by
  subst ok
  rfl

theorem givesPerform {w : W} {s s' : S} (ok : exec w s i = (s',.ok ())) :
    Gives exec i s (perform w : Fallible S W I E Unit) () s' := by
  show ((exec w s i).1,(exec w s i).2) = _
  rw [ok]

theorem givesWhen {p : Fallible S W I E Unit} {s s' : S} {holds : Bool} (met : holds = true)
    (given : Gives exec i s p () s') :
    Gives exec i s (when holds p) () s' := by
  subst met
  exact given

theorem givesAttempt {p : Fallible S W I E α} {handler : E → Fallible S W I E α} {a : α} {s s' : S}
    (given : Gives exec i s p a s') : Gives exec i s (attempt p handler) a s' := aloneThen given rfl

end Fallible

/-- The requests are served one by one, each on its own input and to its end. -/
def System.serve (sys : System S W I R Q α) : S → List (I × Q) → Option (S × List α)
  | s, [] => some (s,[])
  | s, visit :: rest =>
      if sys.admits s visit.2 then do
        let answered := (sys.start visit.2).alone sys.exec visit.1 s
        let later ← sys.serve answered.1 rest
        some (later.1,answered.2 :: later.2)
      else none

theorem serveOne {sys : System S W I R Q α} {s s' : S} {visit : I × Q} {answer : α}
    (admitted : sys.admits s visit.2 = true)
    (answered : (sys.start visit.2).alone sys.exec visit.1 s = (s',answer)) :
    sys.serve s [visit] = some (s',[answer]) := by
  unfold System.serve
  rw [if_pos admitted,answered]
  rfl

theorem serveAppend {sys : System S W I R Q α} {s s₁ s₂ : S} {visits visits' : List (I × Q)} {answers answers' : List α}
    (first : sys.serve s visits = some (s₁,answers)) (second : sys.serve s₁ visits' = some (s₂,answers')) :
    sys.serve s (visits ++ visits') = some (s₂,answers ++ answers') := by
  induction visits generalizing s answers with
  | nil =>
    cases Option.some.inj first
    exact second
  | cons visit rest ih =>
    simp only [System.serve] at first
    split at first <;> try contradiction
    rename_i admitted
    obtain ⟨later,served,first⟩ := Option.bind_eq_some_iff.mp first
    cases Option.some.inj first
    simp only [List.cons_append,System.serve,if_pos admitted,ih served]
    rfl

section
variable {sys : System S W I R Q α} {scope : Scope S W Q}

theorem aloneRun (free : ∀ w s, scope.cond w s) (i : I) (tasks : List (Program S W I R α)) (p : Program S W I R α)
    (s : S) :
    Run sys scope ⟨s,tasks ++ [p]⟩ ⟨(p.alone sys.exec i s).1,tasks ++ [.done (p.alone sys.exec i s).2]⟩ := by
  induction p generalizing s with
  | done value => exact .refl
  | read next ih =>
    refine .head ⟨.step tasks.length i,fun w n _ => free w _,?_⟩ (ih s i s)
    simp [System.apply]
  | write w next ih =>
    refine .head ⟨.step tasks.length i,fun w n _ => free w _,?_⟩ (ih (sys.exec w s i).2 (sys.exec w s i).1)
    simp [System.apply]

theorem serveRun (free : ∀ w s, scope.cond w s) {visits : List (I × Q)} (allowed : ∀ v ∈ visits, scope.allow v.2)
    {c : Config S W I R α} {s' : S} {answers : List α} (served : sys.serve c.store visits = some (s',answers)) :
    Run sys scope c ⟨s',c.tasks ++ answers.map .done⟩ := by
  induction visits generalizing c answers with
  | nil =>
    cases Option.some.inj served
    rw [List.map_nil,List.append_nil]
  | cons visit rest ih =>
    simp only [System.serve] at served
    split at served <;> try contradiction
    rename_i admitted
    obtain ⟨later,others,served⟩ := Option.bind_eq_some_iff.mp served
    cases Option.some.inj served
    have spawned : Step sys scope c ⟨c.store,c.tasks ++ [sys.start visit.2]⟩ :=
      ⟨.spawn visit.2,allowed visit List.mem_cons_self,if_pos admitted⟩
    have ended : Run sys scope ⟨c.store,c.tasks ++ [sys.start visit.2]⟩ _ := aloneRun free visit.1 c.tasks
      (sys.start visit.2) c.store
    have next := ih (fun v mem => allowed v (List.mem_cons_of_mem _ mem))
      (c := ⟨_,c.tasks ++ [.done ((sys.start visit.2).alone sys.exec visit.1 c.store).2]⟩) others
    refine .head spawned (ended.trans ?_)
    simpa using next

end

end ESign.StoreProgram
