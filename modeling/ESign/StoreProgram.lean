import Mathlib.Logic.Relation

/-! Programs that share one store. A program is a tree of atomic actions: a read
continues from what the store holds at that moment, a write is a first-order
value handed to an interpreter. Nothing is assumed of the scheduler: between two
actions of a program any action of any other program may run, and a program may
stop for good at any point. The proof rule is rely-guarantee reasoning: a write
must be justified in the store it meets, however late it is executed. -/
namespace ESign.StoreProgram

inductive Program (S W I R α : Type) where
  | done (value : α)
  | read (next : S → I → Program S W I R α)
  | write (w : W) (next : R → Program S W I R α)

variable {S W I R Q α β γ : Type}

namespace Program

def bind : Program S W I R α → (α → Program S W I R β) → Program S W I R β
  | .done value, f => f value
  | .read next, f => .read (fun s i => (next s i).bind f)
  | .write w next, f => .write w (fun r => (next r).bind f)

instance : Monad (Program S W I R) where
  pure := .done
  bind := bind

/-- Every value the program can come to has the property, when what it is given from
outside meets `inputs` and its writes are answered as `answers` says. -/
def Results (inputs : I → Prop) (answers : W → R → Prop) (P : α → Prop) : Program S W I R α → Prop
  | .done value => P value
  | .read next => ∀ s i, inputs i → (next s i).Results inputs answers P
  | .write w next => ∀ r, answers w r → (next r).Results inputs answers P

/-- The same of a program whose first read is of store `s`. -/
def ResultsFrom (s : S) (inputs : I → Prop) (P : α → Prop) : Program S W I R α → Prop
  | .done value => P value
  | .read next => ∀ i, inputs i → (next s i).Results inputs (fun _ _ => True) P
  | .write _ next => ∀ r, (next r).Results inputs (fun _ _ => True) P

/-- Every write the program can come to is of one kind. -/
def Writes (allowed : W → Prop) : Program S W I R α → Prop
  | .done _ => True
  | .read next => ∀ s i, (next s i).Writes allowed
  | .write w next => allowed w ∧ ∀ r, (next r).Writes allowed

/-- The same of a program whose first read is of store `s`. -/
def WritesFrom (s : S) (allowed : W → Prop) : Program S W I R α → Prop
  | .done _ => True
  | .read next => ∀ i, (next s i).Writes allowed
  | .write w next => allowed w ∧ ∀ r, (next r).Writes allowed

theorem writesBind {allowed : W → Prop} {p : Program S W I R α} {f : α → Program S W I R β} (h : p.Writes allowed)
    (rest : ∀ value, (f value).Writes allowed) : (p.bind f).Writes allowed := by
  induction p with
  | done value => exact rest value
  | read next ih => exact fun s i => ih s i (h s i)
  | write w next ih => exact ⟨h.1,fun r => ih r (h.2 r)⟩

theorem writesMono {allowed allowed' : W → Prop} (imp : ∀ w, allowed w → allowed' w) {p : Program S W I R α}
    (h : p.Writes allowed) : p.Writes allowed' := by
  induction p with
  | done value => trivial
  | read next ih => exact fun s i => ih s i (h s i)
  | write w next ih => exact ⟨imp w h.1,fun r => ih r (h.2 r)⟩

theorem resultsBind {inputs : I → Prop} {answers : W → R → Prop} {P : β → Prop} {p : Program S W I R α}
    {f : α → Program S W I R β} (h : p.Results inputs answers (fun value => (f value).Results inputs answers P)) :
    (p.bind f).Results inputs answers P := by
  induction p with
  | done value => exact h
  | read next ih => exact fun s i given => ih s i (h s i given)
  | write w next ih => exact fun r answered => ih r (h r answered)

theorem resultsMono {inputs : I → Prop} {answers : W → R → Prop} {P Q : α → Prop} {p : Program S W I R α}
    (imp : ∀ value, P value → Q value) (h : p.Results inputs answers P) : p.Results inputs answers Q := by
  induction p with
  | done value => exact imp value h
  | read next ih => exact fun s i given => ih s i (h s i given)
  | write w next ih => exact fun r answered => ih r (h r answered)

theorem resultsOf {inputs : I → Prop} {answers : W → R → Prop} {P : α → Prop} (h : ∀ value, P value)
    (p : Program S W I R α) : p.Results inputs answers P := by
  induction p with
  | done value => exact h value
  | read next ih => exact fun s i _ => ih s i
  | write w next ih => exact fun r _ => ih r

theorem writesResults {allowed : W → Prop} {P : α → Prop} {p : Program S W I R α} {f : α → Program S W I R β}
    (h : p.Writes allowed) (results : p.Results (fun _ => True) (fun _ _ => True) P)
    (rest : ∀ value, P value → (f value).Writes allowed) : (p.bind f).Writes allowed := by
  induction p with
  | done value => exact rest value results
  | read next ih => exact fun s i => ih s i (h s i) (results s i trivial)
  | write w next ih => exact ⟨h.1,fun r => ih r (h.2 r) (results r trivial)⟩

theorem writesFromOf {allowed : W → Prop} {s : S} {p : Program S W I R α} (h : p.Writes allowed) : p.WritesFrom s allowed := by
  cases p with
  | done value => trivial
  | read next => exact fun i => h s i
  | write w next => exact h

theorem writesFromBind {allowed : W → Prop} {s : S} {p : Program S W I R α} {f : α → Program S W I R β}
    (h : p.WritesFrom s allowed) (rest : ∀ value, (f value).Writes allowed) : (p.bind f).WritesFrom s allowed := by
  cases p with
  | done value => exact writesFromOf (rest value)
  | read next => exact fun i => writesBind (h i) rest
  | write w next => exact ⟨h.1,fun r => writesBind (h.2 r) rest⟩

theorem writesFromResults {allowed : W → Prop} {s : S} {P : α → Prop} {p : Program S W I R α} {f : α → Program S W I R β}
    (h : p.Writes allowed) (results : p.ResultsFrom s (fun _ => True) P)
    (rest : ∀ value, P value → (f value).Writes allowed) : (p.bind f).WritesFrom s allowed := by
  cases p with
  | done value => exact writesFromOf (rest value results)
  | read next => exact fun i => writesResults (h s i) (results i trivial) rest
  | write w next => exact ⟨h.1,fun r => writesResults (h.2 r) (results r) rest⟩

end Program

/-- Programs that can fail: a write answers with success or an error, and an error
ends the program unless it is caught. -/
def Fallible (S W I E α : Type) := Program S W I (Except E Unit) (Except E α)

namespace Fallible

variable {E : Type}

def bind (p : Fallible S W I E α) (f : α → Fallible S W I E β) : Fallible S W I E β :=
  Program.bind p (fun
    | .ok value => f value
    | .error error => .done (.error error))

instance : Monad (Fallible S W I E) where
  pure value := .done (.ok value)
  bind := bind

def lift (result : Except E α) : Fallible S W I E α := .done result

def fail (error : E) : Fallible S W I E α := lift (.error error)

/-- `if (!holds) throw error`. -/
def ensure (holds : Bool) (error : E) : Fallible S W I E Unit := if holds then pure () else fail error

def get (f : S → I → α) : Fallible S W I E α := .read (fun s i => .done (.ok (f s i)))

/-- Looks a row up; there is an error to throw when it is missing. -/
def find (f : S → Option α) (error : E) : Fallible S W I E α :=
  .read (fun s _ => .done ((f s).elim (.error error) .ok))

def perform (w : W) : Fallible S W I E Unit := .write w .done

def when (holds : Bool) (p : Fallible S W I E Unit) : Fallible S W I E Unit := if holds then p else pure ()

def attempt (p : Fallible S W I E α) (handler : E → Fallible S W I E α) : Fallible S W I E α :=
  Program.bind p (fun
    | .ok value => .done (.ok value)
    | .error error => handler error)

end Fallible

structure System (S W I R Q α : Type) where
  exec : W → S → I → S × R
  admits : S → Q → Bool
  start : Q → Program S W I R α

structure Config (S W I R α : Type) where
  store : S
  tasks : List (Program S W I R α)

inductive Action (I Q : Type) where
  | spawn (request : Q)
  | step (index : Nat) (input : I)
  | crash (index : Nat)

/-- One scheduling decision. A finished task, or an index out of range, has no
step; a request the store does not admit is not started. -/
def System.apply (sys : System S W I R Q α) (c : Config S W I R α) :
    Action I Q → Option (Config S W I R α)
  | .spawn request =>
      if sys.admits c.store request then some { c with tasks := c.tasks ++ [sys.start request] } else none
  | .step index input =>
      match c.tasks[index]? with
      | some (.read next) => some { c with tasks := c.tasks.set index (next c.store input) }
      | some (.write w next) =>
          let result := sys.exec w c.store input
          some ⟨result.1,c.tasks.set index (next result.2)⟩
      | _ => none
  | .crash index => some { c with tasks := c.tasks.eraseIdx index }

/-- Whether an action writes nothing, or writes what `meets` lets through. -/
def Config.guards (meets : W → S → Bool) (c : Config S W I R α) : Action I Q → Bool
  | .step index _ =>
      match c.tasks[index]? with
      | some (.write w _) => meets w c.store
      | _ => true
  | _ => true

def System.applyAll (sys : System S W I R Q α) (meets : W → S → Bool) :
    Config S W I R α → List (Action I Q) → Option (Config S W I R α)
  | c, [] => some c
  | c, a :: rest => if c.guards meets a then do sys.applyAll meets (← sys.apply c a) rest else none

/-- What a run is restricted to: the requests that may be started, and a condition
on every write in the store it meets. -/
structure Scope (S W Q : Type) where
  allow : Q → Prop
  cond : W → S → Prop

def Scope.Meets (scope : Scope S W Q) (c : Config S W I R α) : Action I Q → Prop
  | .spawn request => scope.allow request
  | .step index _ => ∀ w next, c.tasks[index]? = some (.write w next) → scope.cond w c.store
  | .crash _ => True

structure Scope.Within (narrow wide : Scope S W Q) : Prop where
  allow : ∀ request, narrow.allow request → wide.allow request
  cond : ∀ w s, narrow.cond w s → wide.cond w s

def Step (sys : System S W I R Q α) (scope : Scope S W Q) (c c' : Config S W I R α) : Prop :=
  ∃ a, scope.Meets c a ∧ sys.apply c a = some c'

abbrev Run (sys : System S W I R Q α) (scope : Scope S W Q) : Config S W I R α → Config S W I R α → Prop :=
  Relation.ReflTransGen (Step sys scope)

def initial (s : S) : Config S W I R α := ⟨s,[]⟩

/-- Everything a run may do when no condition is put on its writes. -/
def Scope.of (allow : Q → Prop) : Scope S W Q := ⟨allow,fun _ _ => True⟩

theorem stepOfAction {sys : System S W I R Q α} {scope : Scope S W Q} {meets : W → S → Bool} {a : Action I Q} {c c'}
    (requests : ∀ request, a = .spawn request → scope.allow request) (writes : ∀ w s, meets w s = true → scope.cond w s)
    (guarded : c.guards meets a = true) (ok : sys.apply c a = some c') : Step sys scope c c' := by
  refine ⟨a,?_,ok⟩
  cases a with
  | spawn request => exact requests request rfl
  | step index input =>
    intro w next found
    simp only [Config.guards,found] at guarded
    exact writes w c.store guarded
  | crash index => trivial

theorem runOfActions {sys : System S W I R Q α} {scope : Scope S W Q} {meets : W → S → Bool}
    {actions : List (Action I Q)} {c c'} (requests : ∀ request, Action.spawn request ∈ actions → scope.allow request)
    (writes : ∀ w s, meets w s = true → scope.cond w s) (ok : sys.applyAll meets c actions = some c') :
    Run sys scope c c' := by
  induction actions generalizing c with
  | nil => cases Option.some.inj ok; exact .refl
  | cons a rest ih =>
    simp only [System.applyAll] at ok
    split at ok <;> try contradiction
    rename_i guarded
    obtain ⟨mid,first,ok⟩ := Option.bind_eq_some_iff.mp ok
    refine .head (stepOfAction ?_ writes guarded first)
      (ih (fun request mem => requests request (List.mem_cons_of_mem _ mem)) ok)
    rintro request rfl
    exact requests request List.mem_cons_self

theorem spawnTaken {sys : System S W I R Q α} {c c' : Config S W I R α} {request : Q}
    (applied : sys.apply c (.spawn request) = some c') :
    sys.admits c.store request = true ∧ c' = ⟨c.store,c.tasks ++ [sys.start request]⟩ := by
  simp only [System.apply] at applied
  split at applied <;> try contradiction
  rename_i admitted
  exact ⟨admitted,(Option.some.inj applied).symm⟩

theorem stepTaken {sys : System S W I R Q α} {c c' : Config S W I R α} {index : Nat} {i : I}
    (applied : sys.apply c (.step index i) = some c') :
    (∃ next, c.tasks[index]? = some (.read next) ∧ c' = ⟨c.store,c.tasks.set index (next c.store i)⟩) ∨
    ∃ w next, c.tasks[index]? = some (.write w next) ∧
      c' = ⟨(sys.exec w c.store i).1,c.tasks.set index (next (sys.exec w c.store i).2)⟩ := by
  simp only [System.apply] at applied
  split at applied
  · rename_i next found
    exact .inl ⟨next,found,(Option.some.inj applied).symm⟩
  · rename_i w next found
    exact .inr ⟨w,next,found,(Option.some.inj applied).symm⟩
  · contradiction

/- What one step keeps of its own task, and every later store of the others, is kept of all tasks. -/
theorem turnedTask {sys : System S W I R Q α} {c c' : Config S W I R α} {index : Nat} {i : I}
    {P : Program S W I R α → S → Prop} (applied : sys.apply c (.step index i) = some c')
    (read : ∀ next, P (.read next) c.store → P (next c.store i) c.store)
    (write : ∀ w next, c.tasks[index]? = some (.write w next) → P (.write w next) c.store →
      P (next (sys.exec w c.store i).2) (sys.exec w c.store i).1)
    (later : ∀ task, P task c.store → P task c'.store) {k : Nat} {task' : Program S W I R α} (found : c'.tasks[k]? = some task')
    (held : ∀ task, c.tasks[k]? = some task → P task c.store) : P task' c'.store := by
  rcases stepTaken applied with ⟨next,own,rfl⟩ | ⟨w,next,own,rfl⟩
  · by_cases same : index = k
    · subst same
      rw [List.getElem?_set_self (List.getElem?_eq_some_iff.mp own).1] at found
      cases found
      exact read next (held _ own)
    · rw [List.getElem?_set_ne same] at found
      exact held task' found
  · by_cases same : index = k
    · subst same
      rw [List.getElem?_set_self (List.getElem?_eq_some_iff.mp own).1] at found
      cases found
      exact write w next own (held _ own)
    · rw [List.getElem?_set_ne same] at found
      exact later task' (held task' found)

/-- A write that was executed: the store it met, and what came from outside. -/
structure Performed (W S I : Type) where
  write : W
  before : S
  input : I

def System.after (sys : System S W I R Q α) (p : Performed W S I) : S := (sys.exec p.write p.before p.input).1

def System.answer (sys : System S W I R Q α) (p : Performed W S I) : R := (sys.exec p.write p.before p.input).2

/-- The program run to its end with the store to itself. -/
def Program.solo (exec : W → S → I → S × R) : S → Program S W I R β → List I → Option (List (Performed W S I) × β × S)
  | s, .done value, _ => some ([],value,s)
  | _, .read _, [] => none
  | s, .read next, i :: rest => (next s i).solo exec s rest
  | _, .write _ _, [] => none
  | s, .write w next, i :: rest => do
      let result ← (next (exec w s i).2).solo exec (exec w s i).1 rest
      some (⟨w,s,i⟩ :: result.1,result.2)

/-- One program is carried to its end while the others go on around it: `c` is the
configuration of the others, who are restricted to `scope`; what the program is given
from outside meets `inputs`, and `own` are its writes in order. -/
inductive Amid (sys : System S W I R Q α) (scope : Scope S W Q) (inputs : I → Prop) :
    Config S W I R α → Program S W I R β → List (Performed W S I) → β → Config S W I R α → Prop where
  | done {c value} : Amid sys scope inputs c (.done value) [] value c
  | read {c c' c'' next own value} (i : I) (given : inputs i) (others : Run sys scope c c')
      (rest : Amid sys scope inputs c' (next c'.store i) own value c'') : Amid sys scope inputs c (.read next) own value c''
  | write {c c' c'' w next own value} (i : I) (given : inputs i) (others : Run sys scope c c')
      (rest : Amid sys scope inputs { c' with store := (sys.exec w c'.store i).1 } (next (sys.exec w c'.store i).2)
        own value c'') :
      Amid sys scope inputs c (.write w next) (⟨w,c'.store,i⟩ :: own) value c''

/-- The same of a program that may stop for good before its end. -/
inductive Partly (sys : System S W I R Q α) (scope : Scope S W Q) (inputs : I → Prop) :
    Config S W I R α → Program S W I R β → List (Performed W S I) → Config S W I R α → Prop where
  | stop {c c' p} (others : Run sys scope c c') : Partly sys scope inputs c p [] c'
  | read {c c' c'' next own} (i : I) (given : inputs i) (others : Run sys scope c c')
      (rest : Partly sys scope inputs c' (next c'.store i) own c'') : Partly sys scope inputs c (.read next) own c''
  | write {c c' c'' w next own} (i : I) (given : inputs i) (others : Run sys scope c c')
      (rest : Partly sys scope inputs { c' with store := (sys.exec w c'.store i).1 } (next (sys.exec w c'.store i).2) own c'') :
      Partly sys scope inputs c (.write w next) (⟨w,c'.store,i⟩ :: own) c''

section Amid

variable {sys : System S W I R Q α} {scope : Scope S W Q} {inputs : I → Prop}

theorem partlyStarted (some : ∃ i, inputs i) (p : Program S W I R β) (c : Config S W I R α) :
    ∃ own value c', Amid sys scope inputs c p own value c' := by
  obtain ⟨i,given⟩ := some
  induction p generalizing c with
  | done value => exact ⟨[],value,c,.done⟩
  | read next ih =>
    obtain ⟨own,value,c',rest⟩ := ih c.store i c
    exact ⟨own,value,c',.read i given .refl rest⟩
  | write w next ih =>
    obtain ⟨own,value,c',rest⟩ := ih (sys.exec w c.store i).2 { c with store := (sys.exec w c.store i).1 }
    exact ⟨_,value,c',.write i given .refl rest⟩

theorem partlyCompleted (some : ∃ i, inputs i) {p : Program S W I R β} {own} {c c' : Config S W I R α}
    (run : Partly sys scope inputs c p own c') : ∃ rest value c'', Amid sys scope inputs c p (own ++ rest) value c'' := by
  induction run with
  | stop _ => exact partlyStarted some _ _
  | read i given others _ ih =>
    obtain ⟨rest,value,c'',amid⟩ := ih
    exact ⟨rest,value,c'',.read i given others amid⟩
  | write i given others _ ih =>
    obtain ⟨rest,value,c'',amid⟩ := ih
    exact ⟨rest,value,c'',.write i given others amid⟩

theorem amidBind {p : Program S W I R β} {f : β → Program S W I R γ} {own} {value : γ} {c c'}
    (run : Amid sys scope inputs c (p.bind f) own value c') :
    ∃ between c₁ own₁ own₂, own = own₁ ++ own₂ ∧ Amid sys scope inputs c p own₁ between c₁ ∧
      Amid sys scope inputs c₁ (f between) own₂ value c' := by
  induction p generalizing c own with
  | done between => exact ⟨between,c,[],own,rfl,.done,run⟩
  | read next ih =>
    cases run with
    | read i given others rest =>
      obtain ⟨between,c₁,own₁,own₂,rfl,first,second⟩ := ih _ _ rest
      exact ⟨between,c₁,own₁,own₂,rfl,.read i given others first,second⟩
  | write w next ih =>
    cases run with
    | write i given others rest =>
      obtain ⟨between,c₁,own₁,own₂,rfl,first,second⟩ := ih _ rest
      exact ⟨between,c₁,_ :: own₁,own₂,rfl,.write i given others first,second⟩

theorem amidSilent {p : Program S W I R β} {own : List (Performed W S I)} {value : β} {c c' : Config S W I R α}
    (run : Amid sys scope inputs c p own value c') (none : own = []) : Run sys scope c c' := by
  induction run with
  | done => exact .refl
  | read i given others rest ih => exact others.trans (ih none)
  | write i given others rest ih => cases none

theorem amidResults {answers : W → R → Prop} {P : β → Prop} (answered : ∀ w s i, inputs i → answers w (sys.exec w s i).2)
    {p : Program S W I R β} {own} {value : β} {c c'} (h : p.Results inputs answers P)
    (run : Amid sys scope inputs c p own value c') : P value := by
  induction run with
  | done => exact h
  | read i given others rest ih => exact ih (h _ i given)
  | write i given others rest ih => exact ih (h _ (answered _ _ i given))

theorem amidReads {p : Program S W I R β} (h : p.Writes (fun _ => False)) {own} {value : β} {c c'}
    (run : Amid sys scope inputs c p own value c') : own = [] ∧ Run sys scope c c' := by
  induction run with
  | done => exact ⟨rfl,.refl⟩
  | read i given others _ ih =>
    obtain ⟨none,later⟩ := ih (h _ i)
    exact ⟨none,others.trans later⟩
  | write i given others _ ih => exact h.1.elim

theorem runWithin {env : Scope S W Q} (within : env.Within scope) {c c' : Config S W I R α} (run : Run sys env c c') :
    Run sys scope c c' := by
  refine Relation.ReflTransGen.mono ?_ _ _ run
  rintro a b ⟨action,meets,applied⟩
  refine ⟨action,?_,applied⟩
  cases action with
  | spawn request => exact within.allow request meets
  | step index input => exact fun w next found => within.cond w a.store (meets w next found)
  | crash index => trivial

theorem amidWithin {env : Scope S W Q} (within : env.Within scope) {p : Program S W I R β} {own} {value : β} {c c'}
    (run : Amid sys env inputs c p own value c') : Amid sys scope inputs c p own value c' := by
  induction run with
  | done => exact .done
  | read i given others _ ih => exact .read i given (runWithin within others) ih
  | write i given others _ ih => exact .write i given (runWithin within others) ih

theorem amidSolo {p : Program S W I R β} {given : List I} {c : Config S W I R α} {own s} {value : β}
    (meets : ∀ i ∈ given, inputs i) (ok : p.solo sys.exec c.store given = some (own,value,s)) :
    Amid sys scope inputs c p own value { c with store := s } := by
  induction p generalizing c own given with
  | done result =>
    cases Option.some.inj ok
    exact .done
  | read next ih =>
    cases given with
    | nil => cases ok
    | cons i rest =>
      refine .read i (meets i List.mem_cons_self) .refl ?_
      exact ih c.store i (fun j mem => meets j (List.mem_cons_of_mem _ mem)) ok
  | write w next ih =>
    cases given with
    | nil => cases ok
    | cons i rest =>
      obtain ⟨⟨later,end_,last⟩,after,same⟩ := Option.bind_eq_some_iff.mp ok
      cases Option.some.inj same
      refine .write i (meets i List.mem_cons_self) .refl ?_
      exact ih (sys.exec w c.store i).2 (c := { c with store := (sys.exec w c.store i).1 })
        (fun j mem => meets j (List.mem_cons_of_mem _ mem)) after

theorem amidWrites {allowed : W → Prop} {p : Program S W I R β} (h : p.Writes allowed) {own} {value : β} {c c'}
    (run : Amid sys scope inputs c p own value c') : ∀ q ∈ own, allowed q.write := by
  induction run with
  | done => simp
  | read i given others _ ih => exact ih (h _ i)
  | write i given others _ ih =>
    intro q mem
    rcases List.mem_cons.mp mem with rfl | later
    · exact h.1
    · exact ih (h.2 _) q later

end Amid

/-- A proof outline: the invariant of the store, the preorder along which the store
evolves, and what must be known of a write when it is executed. -/
structure Outline (sys : System S W I R Q α) (scope : Scope S W Q) where
  Inv : S → Prop
  Rel : S → S → Prop
  Pre : W → S → Prop
  refl : ∀ s, Rel s s
  trans : ∀ {a b c}, Rel a b → Rel b c → Rel a c
  keep : ∀ {w s} (i : I), Inv s → Pre w s → scope.cond w s →
    Inv (sys.exec w s i).1 ∧ Rel s (sys.exec w s i).1

variable {sys : System S W I R Q α} {scope : Scope S W Q}

/-- The outline holds of a program that was last scheduled in store `s`: whatever
the others do in between, each of its writes is justified when it is executed. -/
def Outline.Holds (o : Outline sys scope) : Program S W I R β → (β → S → Prop) → S → Prop
  | .done value, post, s => post value s
  | .read next, post, s => ∀ s', o.Rel s s' → o.Inv s' → ∀ i, o.Holds (next s' i) post s'
  | .write w next, post, s => ∀ s', o.Rel s s' → o.Inv s' → o.Pre w s' ∧
      (scope.cond w s' → ∀ i, o.Holds (next (sys.exec w s' i).2) post (sys.exec w s' i).1)

namespace Outline

variable (o : Outline sys scope)

theorem holdsMono {p : Program S W I R β} {post post' : β → S → Prop} {s}
    (imp : ∀ value s', post value s' → post' value s') (h : o.Holds p post s) : o.Holds p post' s := by
  induction p generalizing s with
  | done value => exact imp value s h
  | read next ih => exact fun s' rel inv i => ih s' i (h s' rel inv i)
  | write w next ih =>
    intro s' rel inv
    obtain ⟨pre,after⟩ := h s' rel inv
    exact ⟨pre,fun cond i => ih _ (after cond i)⟩

theorem holdsBind {p : Program S W I R β} {f : β → Program S W I R γ} {post : γ → S → Prop} {s}
    (h : o.Holds p (fun value s' => o.Holds (f value) post s') s) : o.Holds (p.bind f) post s := by
  induction p generalizing s with
  | done value => exact h
  | read next ih => exact fun s' rel inv i => ih s' i (h s' rel inv i)
  | write w next ih =>
    intro s' rel inv
    obtain ⟨pre,after⟩ := h s' rel inv
    exact ⟨pre,fun cond i => ih _ (after cond i)⟩

/- A task that is not being scheduled loses nothing to the others: everything the
outline demands of it is demanded for all later stores. -/
theorem holdsAfter {p : Program S W I R β} {post : β → S → Prop} {s s'}
    (stable : ∀ value, post value s → post value s') (rel : o.Rel s s') (h : o.Holds p post s) : o.Holds p post s' := by
  cases p with
  | done value => exact stable value h
  | read next => exact fun later step inv i => h later (o.trans rel step) inv i
  | write w next => exact fun later step inv => h later (o.trans rel step) inv

theorem holdsLater {p : Program S W I R β} {s s'} (rel : o.Rel s s')
    (h : o.Holds p (fun _ _ => True) s) : o.Holds p (fun _ _ => True) s' := o.holdsAfter (fun _ _ => trivial) rel h

theorem holdsKept {p : Program S W I R β} {post : β → S → Prop} {P : S → Prop} {s}
    (kept : ∀ a b, o.Rel a b → P a → P b) (h : o.Holds p post s) (start : P s) :
    o.Holds p (fun value s' => post value s' ∧ P s') s := by
  induction p generalizing s with
  | done value => exact ⟨h,start⟩
  | read next ih => exact fun s' rel inv i => ih s' i (h s' rel inv i) (kept s s' rel start)
  | write w next ih =>
    intro s' rel inv
    obtain ⟨pre,after⟩ := h s' rel inv
    refine ⟨pre,fun cond i => ih _ (after cond i) ?_⟩
    exact kept s' _ (o.keep i inv pre cond).2 (kept s s' rel start)

/-- `s` is a store of the run that leads up to `s'`. -/
def Past (s s' : S) : Prop := o.Inv s ∧ o.Rel s s'

theorem Past.trans {o : Outline sys scope} {a b c} (left : o.Past a b) (right : o.Past b c) : o.Past a c :=
  ⟨left.1,o.trans left.2 right.2⟩

structure Sound (c : Config S W I R α) : Prop where
  inv : o.Inv c.store
  tasks : ∀ t ∈ c.tasks, o.Holds t (fun _ _ => True) c.store

/-- A store that a justified write of the scope leads to. -/
def Wrote (s s' : S) : Prop :=
  ∃ w i, o.Inv s ∧ o.Pre w s ∧ scope.cond w s ∧ s' = (sys.exec w s i).1

variable {o}

theorem Wrote.inv {s s'} (h : o.Wrote s s') : o.Inv s' := by
  obtain ⟨w,i,inv,pre,cond,rfl⟩ := h
  exact (o.keep i inv pre cond).1

theorem Wrote.rel {s s'} (h : o.Wrote s s') : o.Rel s s' := by
  obtain ⟨w,i,inv,pre,cond,rfl⟩ := h
  exact (o.keep i inv pre cond).2

theorem holdsSet {tasks : List (Program S W I R α)} {index t s s'} (rel : o.Rel s s')
    (all : ∀ t ∈ tasks, o.Holds t (fun _ _ => True) s) (new : o.Holds t (fun _ _ => True) s') :
    ∀ u ∈ tasks.set index t, o.Holds u (fun _ _ => True) s' := by
  intro u mem
  rcases List.mem_or_eq_of_mem_set mem with old | rfl
  · exact o.holdsLater rel (all u old)
  · exact new

/-- The step rule: a step leaves the store alone or performs a justified write, and
the configuration it leads to is sound again. -/
theorem stepSound (starts : ∀ request s, scope.allow request → sys.admits s request = true → o.Inv s →
      o.Holds (sys.start request) (fun _ _ => True) s)
    {c c'} (sound : o.Sound c) (h : Step sys scope c c') :
    o.Sound c' ∧ (c'.store = c.store ∨ o.Wrote c.store c'.store) := by
  obtain ⟨a,meets,applied⟩ := h
  cases a with
  | spawn request =>
    obtain ⟨admitted,rfl⟩ := spawnTaken applied
    refine ⟨⟨sound.inv,?_⟩,Or.inl rfl⟩
    intro t mem
    rcases List.mem_append.mp mem with old | new
    · exact sound.tasks t old
    · rw [List.mem_singleton.mp new]
      exact starts request c.store meets admitted sound.inv
  | step index input =>
    rcases stepTaken applied with ⟨next,found,rfl⟩ | ⟨w,next,found,rfl⟩
    · have held := sound.tasks _ (List.mem_of_getElem? found)
      exact ⟨⟨sound.inv,holdsSet (o.refl _) sound.tasks (held _ (o.refl _) sound.inv input)⟩,Or.inl rfl⟩
    · have held := sound.tasks _ (List.mem_of_getElem? found)
      obtain ⟨pre,after⟩ := held _ (o.refl _) sound.inv
      have cond := meets w next found
      have wrote : o.Wrote c.store (sys.exec w c.store input).1 := ⟨w,input,sound.inv,pre,cond,rfl⟩
      exact ⟨⟨wrote.inv,holdsSet wrote.rel sound.tasks (after cond input)⟩,Or.inr wrote⟩
  | crash index =>
    cases Option.some.inj applied
    exact ⟨⟨sound.inv,fun t mem => sound.tasks t (List.mem_of_mem_eraseIdx mem)⟩,Or.inl rfl⟩

theorem stepWrote {c c'} (sound : o.Sound c) (h : Step sys scope c c') :
    c'.store = c.store ∨ ∃ index w next i, c.tasks[index]? = some (.write w next) ∧
      sys.apply c (.step index i) = some c' ∧ o.Pre w c.store ∧ scope.cond w c.store ∧ c'.store = (sys.exec w c.store i).1 := by
  obtain ⟨a,meets,applied⟩ := h
  cases a with
  | spawn request =>
    obtain ⟨-,rfl⟩ := spawnTaken applied
    exact .inl rfl
  | step index i =>
    rcases stepTaken applied with ⟨next,found,rfl⟩ | ⟨w,next,found,rfl⟩
    · exact .inl rfl
    · have held := sound.tasks _ (List.mem_of_getElem? found)
      exact .inr ⟨index,w,next,i,found,applied,(held _ (o.refl _) sound.inv).1,meets w next found,rfl⟩
  | crash index =>
    cases Option.some.inj applied
    exact .inl rfl

theorem runSound (starts : ∀ request s, scope.allow request → sys.admits s request = true → o.Inv s →
      o.Holds (sys.start request) (fun _ _ => True) s)
    {c c'} (sound : o.Sound c) (run : Run sys scope c c') : o.Sound c' ∧ o.Rel c.store c'.store := by
  induction run with
  | refl => exact ⟨sound,o.refl _⟩
  | tail _ step ih =>
    obtain ⟨next,same | wrote⟩ := stepSound starts ih.1 step
    · exact ⟨next,by rw [same]; exact ih.2⟩
    · exact ⟨next,o.trans ih.2 wrote.rel⟩

theorem soundWrite {c : Config S W I R α} {w : W} (sound : o.Sound c) (pre : o.Pre w c.store) (cond : scope.cond w c.store)
    (i : I) : o.Sound { c with store := (sys.exec w c.store i).1 } := by
  obtain ⟨inv,next⟩ := o.keep i sound.inv pre cond
  exact ⟨inv,fun t mem => o.holdsLater next (sound.tasks t mem)⟩

/-- The rule for one program among others. The writes of the program itself are under no
condition, so the outline must not ask for any. -/
theorem amidHolds (starts : ∀ request s, scope.allow request → sys.admits s request = true → o.Inv s →
      o.Holds (sys.start request) (fun _ _ => True) s)
    (free : ∀ w s, scope.cond w s) {inputs : I → Prop} {c c'} {p : Program S W I R β} {own} {value : β}
    {post : β → S → Prop} (sound : o.Sound c) (h : o.Holds p post c.store) (run : Amid sys scope inputs c p own value c') :
    o.Sound c' ∧ post value c'.store := by
  induction run with
  | done => exact ⟨sound,h⟩
  | read i given others rest ih =>
    obtain ⟨sound,rel⟩ := runSound starts sound others
    exact ih sound (h _ rel sound.inv i)
  | write i given others rest ih =>
    obtain ⟨sound,rel⟩ := runSound starts sound others
    obtain ⟨pre,after⟩ := h _ rel sound.inv
    exact ih (soundWrite sound pre (free _ _) i) (after (free _ _) i)

theorem amidKeeps (starts : ∀ request s, scope.allow request → sys.admits s request = true → o.Inv s →
      o.Holds (sys.start request) (fun _ _ => True) s)
    (free : ∀ w s, scope.cond w s) {env : Scope S W Q} (within : env.Within scope) {inputs : I → Prop} {allowed : W → Prop}
    {P : S → Prop} (others : ∀ {c c'}, o.Sound c → Run sys env c c' → P c.store → P c'.store)
    (mine : ∀ {w s i}, allowed w → o.Inv s → o.Pre w s → P s → P (sys.exec w s i).1)
    {p : Program S W I R β} {own} {value : β} {post : β → S → Prop} {c c'} (sound : o.Sound c) (h : o.Holds p post c.store)
    (writes : p.Writes allowed) (run : Amid sys env inputs c p own value c') :
    (P c.store → ∀ q ∈ own, P q.before) ∧ own.Pairwise (fun a b => P a.before → P b.before) := by
  induction run with
  | done => exact ⟨fun _ => List.forall_mem_nil _,List.Pairwise.nil⟩
  | read i given step rest ih =>
    obtain ⟨sound',rel⟩ := runSound starts sound (runWithin within step)
    obtain ⟨all,pairs⟩ := ih sound' (h _ rel sound'.inv i) (writes _ i)
    exact ⟨fun holds => all (others sound step holds),pairs⟩
  | write i given step rest ih =>
    obtain ⟨sound',rel⟩ := runSound starts sound (runWithin within step)
    obtain ⟨pre,after⟩ := h _ rel sound'.inv
    obtain ⟨all,pairs⟩ := ih (soundWrite sound' pre (free _ _) i) (after (free _ _) i) (writes.2 _)
    have next := fun holds => all (mine (i := i) writes.1 sound'.inv pre holds)
    refine ⟨fun holds => List.forall_mem_cons.mpr ⟨others sound step holds,?_⟩,
      List.Pairwise.cons (fun q mem holds => next holds q mem) pairs⟩
    exact next (others sound step holds)

theorem initialSound {s} (inv : o.Inv s) : o.Sound (initial s) := ⟨inv,by simp [initial]⟩

/-- The outline for a narrower scope, as of a run that goes on under more conditions. -/
def restrict (o : Outline sys scope) {scope' : Scope S W Q} (sub : ∀ w s, scope'.cond w s → scope.cond w s) :
    Outline sys scope' where
  Inv := o.Inv
  Rel := o.Rel
  Pre := o.Pre
  refl := o.refl
  trans := o.trans
  keep i inv pre cond := o.keep i inv pre (sub _ _ cond)

theorem holdsRestrict {scope' : Scope S W Q} (sub : ∀ w s, scope'.cond w s → scope.cond w s) {p : Program S W I R β}
    {post : β → S → Prop} {s} (h : o.Holds p post s) : (o.restrict sub).Holds p post s := by
  induction p generalizing s with
  | done value => exact h
  | read next ih => exact fun s' rel inv i => ih s' i (h s' rel inv i)
  | write w next ih =>
    intro s' rel inv
    obtain ⟨pre,after⟩ := h s' rel inv
    exact ⟨pre,fun cond i => ih _ (after (sub _ _ cond) i)⟩

theorem soundRestrict {scope' : Scope S W Q} (sub : ∀ w s, scope'.cond w s → scope.cond w s) {c} (sound : o.Sound c) :
    (o.restrict sub).Sound c := ⟨sound.inv,fun t mem => holdsRestrict sub (sound.tasks t mem)⟩

/-- The outline for a scope that keeps something more of the store. -/
def strengthen (o : Outline sys scope) {scope' : Scope S W Q} {extra : S → Prop}
    (sub : ∀ w s, scope'.cond w s → scope.cond w s)
    (kept : ∀ {w s} (i : I), o.Inv s → extra s → o.Pre w s → scope'.cond w s → extra (sys.exec w s i).1) :
    Outline sys scope' where
  Inv s := o.Inv s ∧ extra s
  Rel := o.Rel
  Pre := o.Pre
  refl := o.refl
  trans := o.trans
  keep i inv pre cond := by
    obtain ⟨next,rel⟩ := o.keep i inv.1 pre (sub _ _ cond)
    exact ⟨⟨next,kept i inv.1 inv.2 pre cond⟩,rel⟩

theorem holdsStrengthen {scope' : Scope S W Q} {extra : S → Prop} (sub : ∀ w s, scope'.cond w s → scope.cond w s)
    (kept : ∀ {w s} (i : I), o.Inv s → extra s → o.Pre w s → scope'.cond w s → extra (sys.exec w s i).1)
    {p : Program S W I R β} {post : β → S → Prop} {s} (h : o.Holds p post s) :
    (o.strengthen sub kept).Holds p post s := by
  induction p generalizing s with
  | done value => exact h
  | read next ih => exact fun s' rel inv i => ih s' i (h s' rel inv.1 i)
  | write w next ih =>
    intro s' rel inv
    obtain ⟨pre,after⟩ := h s' rel inv.1
    exact ⟨pre,fun cond i => ih _ (after (sub _ _ cond) i)⟩

theorem runKeeps {scope' : Scope S W Q} {extra : S → Prop} (sub : ∀ w s, scope'.cond w s → scope.cond w s)
    (kept : ∀ {w s} (i : I), o.Inv s → extra s → o.Pre w s → scope'.cond w s → extra (sys.exec w s i).1)
    (starts : ∀ request s, scope'.allow request → sys.admits s request = true → o.Inv s →
      o.Holds (sys.start request) (fun _ _ => True) s)
    {c c'} (sound : o.Sound c) (start : extra c.store) (run : Run sys scope' c c') : extra c'.store := by
  have stronger : (o.strengthen sub kept).Sound c :=
    ⟨⟨sound.inv,start⟩,fun t mem => holdsStrengthen sub kept (sound.tasks t mem)⟩
  refine (runSound (o := o.strengthen sub kept) ?_ stronger run).1.inv.2
  exact fun request s allowed admitted inv => holdsStrengthen sub kept (starts request s allowed admitted inv.1)

end Outline

section Writes

variable {sys : System S W I R Q α} {allow : Q → Prop} {allowed : W → Prop}

theorem writesStep (starts : ∀ request, allow request → (sys.start request).Writes allowed) {c c' : Config S W I R α}
    (tasks : ∀ t ∈ c.tasks, t.Writes allowed) (step : Step sys (Scope.of allow) c c') :
    (∀ t ∈ c'.tasks, t.Writes allowed) ∧ Step sys ⟨allow,fun w _ => allowed w⟩ c c' := by
  obtain ⟨a,meets,applied⟩ := step
  cases a with
  | spawn request =>
    refine ⟨?_,.spawn request,meets,applied⟩
    obtain ⟨-,rfl⟩ := spawnTaken applied
    intro t mem
    rcases List.mem_append.mp mem with old | new
    · exact tasks t old
    · rw [List.mem_singleton.mp new]
      exact starts request meets
  | step index i =>
    refine ⟨?_,.step index i,fun w next found => (tasks _ (List.mem_of_getElem? found)).1,applied⟩
    rcases stepTaken applied with ⟨next,found,rfl⟩ | ⟨w,next,found,rfl⟩
    · intro t mem
      rcases List.mem_or_eq_of_mem_set mem with old | rfl
      · exact tasks t old
      · exact tasks _ (List.mem_of_getElem? found) c.store i
    · intro t mem
      rcases List.mem_or_eq_of_mem_set mem with old | rfl
      · exact tasks t old
      · exact (tasks _ (List.mem_of_getElem? found)).2 _
  | crash index =>
    refine ⟨?_,.crash index,trivial,applied⟩
    cases Option.some.inj applied
    exact fun t mem => tasks t (List.mem_of_mem_eraseIdx mem)

theorem runWrites (starts : ∀ request, allow request → (sys.start request).Writes allowed) {s : S} {c : Config S W I R α}
    (run : Run sys (Scope.of allow) (initial s) c) : Run sys ⟨allow,fun w _ => allowed w⟩ (initial s) c := by
  have both : (∀ t ∈ c.tasks, t.Writes allowed) ∧ Run sys ⟨allow,fun w _ => allowed w⟩ (initial s) c := by
    induction run with
    | refl => exact ⟨by simp [initial],.refl⟩
    | tail _ step ih =>
      obtain ⟨tasks,next⟩ := writesStep starts ih.1 step
      exact ⟨tasks,ih.2.tail next⟩
  exact both.2

end Writes

section Fallible

variable {E Q α β γ : Type} {sys : System S W I (Except E Unit) Q γ} {scope : Scope S W Q}

/-- What holds of the store when a fallible program returns a value. Of a failure
only the invariant is kept. -/
def Outline.Ensures (o : Outline sys scope) (p : Fallible S W I E α) (post : α → S → Prop) (s : S) : Prop :=
  o.Inv s → o.Holds p (fun result s' => o.Inv s' ∧ ∀ value, result = .ok value → post value s') s

namespace Outline

variable {o : Outline sys scope}

theorem ensuresMono {p : Fallible S W I E α} {post post' : α → S → Prop} {s}
    (imp : ∀ value s', post value s' → post' value s') (h : o.Ensures p post s) : o.Ensures p post' s :=
  fun inv => o.holdsMono (fun _ s' held => ⟨held.1,fun value same => imp value s' (held.2 value same)⟩) (h inv)

theorem ensuresPure {value : α} {post : α → S → Prop} {s} (h : post value s) :
    o.Ensures (pure value : Fallible S W I E α) post s := by
  intro inv
  refine ⟨inv,fun other same => ?_⟩
  cases same
  exact h

theorem ensuresLift {result : Except E α} {post : α → S → Prop} {s}
    (h : ∀ value, result = .ok value → post value s) :
    o.Ensures (Fallible.lift result : Fallible S W I E α) post s := fun inv => ⟨inv,h⟩

theorem ensuresFail {error : E} {post : α → S → Prop} {s} :
    o.Ensures (Fallible.fail error : Fallible S W I E α) post s := by
  intro inv
  refine ⟨inv,fun value same => ?_⟩
  cases same

theorem ensuresBind {p : Fallible S W I E α} {f : α → Fallible S W I E β} {post : β → S → Prop} {s}
    (h : o.Ensures p (fun value s' => o.Ensures (f value) post s') s) : o.Ensures (p >>= f) post s := by
  intro start
  refine o.holdsBind (o.holdsMono ?_ (h start))
  intro result s' held
  cases result with
  | ok value => exact held.2 value rfl held.1
  | error error => exact ⟨held.1,fun value same => by cases same⟩

theorem ensuresEnsure {holds : Bool} {error : E} {post : Unit → S → Prop} {s} (h : holds = true → post () s) :
    o.Ensures (Fallible.ensure holds error : Fallible S W I E Unit) post s := by
  cases holds with
  | true => exact ensuresPure (h rfl)
  | false => exact ensuresFail

theorem ensuresGet {f : S → I → α} {post : α → S → Prop} {s}
    (h : ∀ s', o.Past s s' → o.Inv s' → ∀ i, post (f s' i) s') : o.Ensures (Fallible.get f : Fallible S W I E α) post s := by
  intro start s' rel inv i
  refine ⟨inv,fun value same => ?_⟩
  cases same
  exact h s' ⟨start,rel⟩ inv i

theorem ensuresFind {f : S → Option α} {error : E} {post : α → S → Prop} {s}
    (h : ∀ s', o.Past s s' → o.Inv s' → ∀ value, f s' = some value → post value s') :
    o.Ensures (Fallible.find f error : Fallible S W I E α) post s := by
  intro start s' rel inv i
  refine ⟨inv,fun value same => ?_⟩
  cases found : f s' with
  | none => rw [found] at same; cases same
  | some row => rw [found] at same; cases same; exact h s' ⟨start,rel⟩ inv value found

theorem ensuresPerform {w : W} {post : Unit → S → Prop} {s}
    (h : ∀ s', o.Past s s' → o.Inv s' → o.Pre w s' ∧ (∀ i, (sys.exec w s' i).2 = .ok () →
      o.Past s' (sys.exec w s' i).1 → o.Inv (sys.exec w s' i).1 → post () (sys.exec w s' i).1)) :
    o.Ensures (Fallible.perform w : Fallible S W I E Unit) post s := by
  intro start s' rel inv
  obtain ⟨pre,after⟩ := h s' ⟨start,rel⟩ inv
  refine ⟨pre,fun cond i => ?_⟩
  obtain ⟨kept,step⟩ := o.keep i inv pre cond
  exact ⟨kept,fun value same => after i same ⟨inv,step⟩ kept⟩

theorem ensuresWhen {holds : Bool} {p : Fallible S W I E Unit} {post : Unit → S → Prop} {s}
    (taken : holds = true → o.Ensures p post s) (skipped : holds = false → post () s) :
    o.Ensures (Fallible.when holds p) post s := by
  cases holds with
  | true => exact taken rfl
  | false => exact ensuresPure (skipped rfl)

/- The handler starts in a store the failed program has left behind, and knows
nothing of it but the invariant. -/
theorem ensuresAttempt {p : Fallible S W I E α} {handler : E → Fallible S W I E α} {post : α → S → Prop} {s}
    (h : o.Ensures p post s) (caught : ∀ error s', o.Ensures (handler error) post s') :
    o.Ensures (Fallible.attempt p handler) post s := by
  intro start
  refine o.holdsBind (o.holdsMono ?_ (h start))
  intro result s' held
  cases result with
  | ok value => exact ⟨held.1,fun other same => by cases same; exact held.2 value rfl⟩
  | error error => exact caught error s' held.1

theorem ensuresHolds {p : Fallible S W I E α} {post : α → S → Prop} {s} (h : o.Ensures p post s) (inv : o.Inv s) :
    o.Holds p (fun _ _ => True) s := o.holdsMono (fun _ _ _ => trivial) (h inv)

/-- What holds of the outcome of a fallible program, whether it returns or fails. -/
def Yields (o : Outline sys scope) (p : Fallible S W I E α) (post : Except E α → S → Prop) (s : S) : Prop :=
  o.Inv s → o.Holds p (fun result s' => o.Inv s' ∧ post result s') s

theorem yieldsLift {result : Except E α} {post : Except E α → S → Prop} {s} (h : post result s) :
    o.Yields (Fallible.lift result : Fallible S W I E α) post s := fun inv => ⟨inv,h⟩

theorem yieldsBind {p : Fallible S W I E α} {f : α → Fallible S W I E β} {post : Except E β → S → Prop} {s}
    (h : o.Yields p (fun result s' =>
      match result with
      | .ok value => o.Yields (f value) post s'
      | .error error => post (.error error) s') s) : o.Yields (p >>= f) post s := by
  intro start
  refine o.holdsBind (o.holdsMono ?_ (h start))
  intro result s' held
  cases result with
  | ok value => exact held.2 held.1
  | error error => exact held

theorem yieldsEnsure {holds : Bool} {error : E} {post : Except E Unit → S → Prop} {s} (passed : holds = true → post (.ok ()) s)
    (failed : holds = false → post (.error error) s) :
    o.Yields (Fallible.ensure holds error : Fallible S W I E Unit) post s := by
  cases holds with
  | true => exact yieldsLift (passed rfl)
  | false => exact yieldsLift (failed rfl)

theorem yieldsGet {f : S → I → α} {post : Except E α → S → Prop} {s}
    (h : ∀ s', o.Past s s' → o.Inv s' → ∀ i, post (.ok (f s' i)) s') :
    o.Yields (Fallible.get f : Fallible S W I E α) post s :=
  fun start s' rel inv i => ⟨inv,h s' ⟨start,rel⟩ inv i⟩

theorem yieldsFind {f : S → Option α} {error : E} {post : Except E α → S → Prop} {s}
    (found : ∀ s', o.Past s s' → o.Inv s' → ∀ value, f s' = some value → post (.ok value) s')
    (missing : ∀ s', o.Past s s' → o.Inv s' → f s' = none → post (.error error) s') :
    o.Yields (Fallible.find f error : Fallible S W I E α) post s := by
  intro start s' rel inv i
  refine ⟨inv,?_⟩
  cases row : f s' with
  | none => exact missing s' ⟨start,rel⟩ inv row
  | some value => exact found s' ⟨start,rel⟩ inv value row

end Outline

section Writes

variable {allowed : W → Prop}

theorem writesThen {p : Fallible S W I E α} {f : α → Fallible S W I E β} (h : Program.Writes allowed p)
    (rest : ∀ value, Program.Writes allowed (f value)) : Program.Writes allowed (p >>= f : Fallible S W I E β) :=
  Program.writesBind h (fun
    | .ok value => rest value
    | .error _ => trivial)

theorem resultsThen {inputs : I → Prop} {answers : W → Except E Unit → Prop} {P : Except E β → Prop}
    (failed : ∀ error, P (.error error)) (p : Fallible S W I E α) {f : α → Fallible S W I E β}
    (h : ∀ value, Program.Results inputs answers P (f value)) :
    Program.Results inputs answers P (p >>= f : Fallible S W I E β) := by
  refine Program.resultsBind (Program.resultsOf (fun result => ?_) p)
  cases result with
  | ok value => exact h value
  | error error => exact failed error

theorem resultsFound {inputs : I → Prop} {answers : W → Except E Unit → Prop} {P : Except E β → Prop} {g : S → Option α} {error : E}
    {f : α → Fallible S W I E β} (failed : P (.error error))
    (rest : ∀ s value, g s = some value → Program.Results inputs answers P (f value)) :
    Program.Results inputs answers P (Fallible.find g error >>= f : Fallible S W I E β) := by
  intro s i _
  dsimp only
  cases row : g s with
  | none => exact failed
  | some value => exact rest s value row

theorem resultsEnsured {inputs : I → Prop} {answers : W → Except E Unit → Prop} {P : Except E β → Prop} {holds : Bool} {error : E}
    {f : Unit → Fallible S W I E β} (failed : P (.error error))
    (rest : holds = true → Program.Results inputs answers P (f ())) :
    Program.Results inputs answers P (Fallible.ensure holds error >>= f : Fallible S W I E β) := by
  cases holds with
  | true => exact rest rfl
  | false => exact failed

theorem writesAttempt {p : Fallible S W I E α} {handler : E → Fallible S W I E α} (h : Program.Writes allowed p)
    (caught : ∀ error, Program.Writes allowed (handler error)) : Program.Writes allowed (Fallible.attempt p handler) :=
  Program.writesBind h (fun
    | .ok _ => trivial
    | .error error => caught error)

theorem writesWhen {holds : Bool} {p : Fallible S W I E Unit} (h : Program.Writes allowed p) :
    Program.Writes allowed (Fallible.when holds p) := by
  cases holds with
  | true => exact h
  | false => trivial

theorem writesEnsure {holds : Bool} {error : E} :
    Program.Writes allowed (Fallible.ensure holds error : Fallible S W I E Unit) := by
  cases holds <;> trivial

theorem writesPerform {w : W} (h : allowed w) : Program.Writes allowed (Fallible.perform w : Fallible S W I E Unit) :=
  ⟨h,fun _ => trivial⟩

theorem writesLift {result : Except E α} : Program.Writes allowed (Fallible.lift result : Fallible S W I E α) := trivial

theorem writesFind {f : S → Option α} {error : E} :
    Program.Writes allowed (Fallible.find f error : Fallible S W I E α) := fun _ _ => trivial

theorem writesGet {f : S → I → α} : Program.Writes allowed (Fallible.get f : Fallible S W I E α) := fun _ _ => trivial

end Writes

/-! What one program did among others, read off its text. -/

section Amid

variable {env : Scope S W Q} {inputs : I → Prop} {c c' : Config S W I (Except E Unit) γ}
  {own : List (Performed W S I)}

theorem amidLift {result value : Except E α}
    (run : Amid sys env inputs c (Fallible.lift result : Fallible S W I E α) own value c') :
    own = [] ∧ c' = c ∧ value = result := by
  cases run
  exact ⟨rfl,rfl,rfl⟩

theorem amidGet {f : S → I → α} {value : Except E α}
    (run : Amid sys env inputs c (Fallible.get f : Fallible S W I E α) own value c') :
    own = [] ∧ Run sys env c c' ∧ ∃ i, inputs i ∧ value = .ok (f c'.store i) := by
  cases run with
  | read i given others rest =>
    cases rest
    exact ⟨rfl,others,i,given,rfl⟩

theorem amidFind {f : S → Option α} {error : E} {value : Except E α}
    (run : Amid sys env inputs c (Fallible.find f error : Fallible S W I E α) own value c') :
    own = [] ∧ Run sys env c c' ∧ value = (f c'.store).elim (.error error) .ok := by
  cases run with
  | read i given others rest =>
    cases rest
    exact ⟨rfl,others,rfl⟩

theorem amidFound {f : S → Option α} {error : E} {found : α}
    (run : Amid sys env inputs c (Fallible.find f error : Fallible S W I E α) own (.ok found) c') : f c'.store = some found := by
  obtain ⟨-,-,same⟩ := amidFind run
  cases row : f c'.store with
  | none => rw [row] at same; cases same
  | some value => rw [row] at same; cases same; rfl

theorem amidPerform {w : W} {value : Except E Unit}
    (run : Amid sys env inputs c (Fallible.perform w : Fallible S W I E Unit) own value c') :
    ∃ c₁ i, Run sys env c c₁ ∧ own = [⟨w,c₁.store,i⟩] ∧ value = (sys.exec w c₁.store i).2 ∧
      c' = { c₁ with store := (sys.exec w c₁.store i).1 } := by
  cases run with
  | write i given others rest =>
    cases rest
    exact ⟨_,i,others,rfl,rfl,rfl⟩

theorem amidWhen {holds : Bool} {p : Fallible S W I E Unit} {value : Except E Unit}
    (run : Amid sys env inputs c (Fallible.when holds p) own value c') :
    (holds = true ∧ Amid sys env inputs c p own value c') ∨ (own = [] ∧ c' = c ∧ value = .ok ()) := by
  cases holds with
  | true => exact .inl ⟨rfl,run⟩
  | false => exact .inr (amidLift run)

theorem amidThen {p : Fallible S W I E α} {f : α → Fallible S W I E β} {value : Except E β}
    (run : Amid sys env inputs c (p >>= f : Fallible S W I E β) own value c') :
    (∃ error, value = .error error ∧ Amid sys env inputs c p own (.error error) c') ∨
    ∃ result c₁ own₁ own₂, own = own₁ ++ own₂ ∧ Amid sys env inputs c p own₁ (.ok result) c₁ ∧
      Amid sys env inputs c₁ (f result) own₂ value c' := by
  obtain ⟨between,c₁,own₁,own₂,rfl,first,second⟩ := amidBind run
  cases between with
  | error error =>
    cases second
    exact .inl ⟨error,rfl,by rw [List.append_nil]; exact first⟩
  | ok result => exact .inr ⟨result,c₁,own₁,own₂,rfl,first,second⟩

theorem amidAnswer {p : Fallible S W I E α} {f : α → β} {value : Except E β}
    (run : Amid sys env inputs c (p >>= fun value => pure (f value) : Fallible S W I E β) own value c') :
    ∃ result, Amid sys env inputs c p own result c' ∧ value = result.map f := by
  rcases amidThen run with ⟨error,rfl,failed⟩ | ⟨result,c₁,own₁,own₂,rfl,first,rest⟩
  · exact ⟨.error error,failed,rfl⟩
  · obtain ⟨rfl,rfl,same⟩ := amidLift rest
    exact ⟨.ok result,by rw [List.append_nil]; exact first,same⟩

theorem amidThenGet {g : S → I → α} {f : α → Fallible S W I E β} {value : Except E β}
    (run : Amid sys env inputs c (Fallible.get g >>= f : Fallible S W I E β) own value c') :
    ∃ c₁ i, inputs i ∧ Run sys env c c₁ ∧ Amid sys env inputs c₁ (f (g c₁.store i)) own value c' := by
  rcases amidThen run with ⟨error,rfl,failed⟩ | ⟨result,c₁,own₁,own₂,rfl,first,second⟩
  · obtain ⟨-,-,i,-,same⟩ := amidGet failed
    cases same
  · obtain ⟨rfl,later,i,given,same⟩ := amidGet first
    cases same
    exact ⟨c₁,i,given,later,second⟩

/- A check, and what comes after it: a program that is stopped there has written nothing. -/
theorem amidLifted {result : Except E α} {f : α → Fallible S W I E β} {value : Except E β}
    (run : Amid sys env inputs c (Fallible.lift result >>= f : Fallible S W I E β) own value c') :
    (own = [] ∧ ∃ error, value = .error error) ∨ ∃ r, result = .ok r ∧ Amid sys env inputs c (f r) own value c' := by
  rcases amidThen run with ⟨error,rfl,first⟩ | ⟨r,c₁,own₁,own₂,rfl,first,second⟩
  · exact .inl ⟨(amidLift first).1,error,rfl⟩
  · obtain ⟨rfl,rfl,same⟩ := amidLift first
    exact .inr ⟨r,same.symm,second⟩

theorem amidEnsured {holds : Bool} {error : E} {f : Unit → Fallible S W I E β} {value : Except E β}
    (run : Amid sys env inputs c (Fallible.ensure holds error >>= f : Fallible S W I E β) own value c') :
    (own = [] ∧ ∃ error, value = .error error) ∨ holds = true ∧ Amid sys env inputs c (f ()) own value c' := by
  cases holds with
  | true => exact .inr ⟨rfl,run⟩
  | false =>
    cases run
    exact .inl ⟨rfl,error,rfl⟩

theorem amidStopped {holds : Bool} {error : E} {f : Unit → Fallible S W I E β} {value : Except E β} (failed : holds = false)
    (run : Amid sys env inputs c (Fallible.ensure holds error >>= f : Fallible S W I E β) own value c') :
    own = [] ∧ c' = c ∧ value = .error error := by
  subst failed
  cases run
  exact ⟨rfl,rfl,rfl⟩

theorem amidThenFind {g : S → Option α} {error : E} {f : α → Fallible S W I E β} {value : Except E β}
    (run : Amid sys env inputs c (Fallible.find g error >>= f : Fallible S W I E β) own value c') :
    (own = [] ∧ ∃ error, value = .error error) ∨
    ∃ found c₁, Run sys env c c₁ ∧ g c₁.store = some found ∧ Amid sys env inputs c₁ (f found) own value c' := by
  rcases amidThen run with ⟨error,rfl,first⟩ | ⟨found,c₁,own₁,own₂,rfl,first,second⟩
  · exact .inl ⟨(amidFind first).1,error,rfl⟩
  · have row := amidFound first
    obtain ⟨rfl,later,-⟩ := amidFind first
    exact .inr ⟨found,c₁,later,row,second⟩

theorem amidThenLift {result : Except E α} {f : α → Fallible S W I E β} {value : β}
    (run : Amid sys env inputs c (Fallible.lift result >>= f : Fallible S W I E β) own (.ok value) c') :
    ∃ r, result = .ok r ∧ Amid sys env inputs c (f r) own (.ok value) c' := by
  rcases amidLifted run with ⟨-,error,same⟩ | passed
  · cases same
  · exact passed

theorem amidThenEnsure {holds : Bool} {error : E} {f : Unit → Fallible S W I E β} {value : β}
    (run : Amid sys env inputs c (Fallible.ensure holds error >>= f : Fallible S W I E β) own (.ok value) c') :
    holds = true ∧ Amid sys env inputs c (f ()) own (.ok value) c' := by
  rcases amidEnsured run with ⟨-,error,same⟩ | passed
  · cases same
  · exact passed

theorem amidThenReads {p : Fallible S W I E α} (reads : Program.Writes (fun _ => False) p) {f : α → Fallible S W I E β}
    {value : Except E β} (run : Amid sys env inputs c (p >>= f : Fallible S W I E β) own value c') :
    (own = [] ∧ Run sys env c c' ∧ ∃ error, value = .error error) ∨
    ∃ result c₁, Amid sys env inputs c p [] (.ok result) c₁ ∧ Run sys env c c₁ ∧
      Amid sys env inputs c₁ (f result) own value c' := by
  rcases amidThen run with ⟨error,rfl,failed⟩ | ⟨result,c₁,own₁,own₂,rfl,first,second⟩
  · obtain ⟨rfl,later⟩ := amidReads reads failed
    exact .inl ⟨rfl,later,error,rfl⟩
  · obtain ⟨rfl,later⟩ := amidReads reads first
    exact .inr ⟨result,c₁,first,later,second⟩

/-! A program that cannot be refused. -/

theorem amidPassed {holds : Bool} {error : E} {f : Unit → Fallible S W I E β} {value : Except E β} (passed : holds = true)
    (run : Amid sys env inputs c (Fallible.ensure holds error >>= f : Fallible S W I E β) own value c') :
    Amid sys env inputs c (f ()) own value c' := by
  subst passed
  exact run

theorem amidPassedOn {result : Except E α} {r : α} {f : α → Fallible S W I E β} {value : Except E β} (passed : result = .ok r)
    (run : Amid sys env inputs c (Fallible.lift result >>= f : Fallible S W I E β) own value c') :
    Amid sys env inputs c (f r) own value c' := by
  subst passed
  exact run

theorem amidMet {g : S → Option α} {error : E} {found : α} {f : α → Fallible S W I E β} {value : Except E β}
    (all : ∀ {c₁}, Run sys env c c₁ → g c₁.store = some found)
    (run : Amid sys env inputs c (Fallible.find g error >>= f : Fallible S W I E β) own value c') :
    ∃ c₁, Run sys env c c₁ ∧ Amid sys env inputs c₁ (f found) own value c' := by
  rcases amidThen run with ⟨_,rfl,first⟩ | ⟨result,c₁,own₁,own₂,rfl,first,rest⟩
  · obtain ⟨-,later,same⟩ := amidFind first
    rw [all later] at same
    cases same
  · have row := amidFound first
    obtain ⟨rfl,later,-⟩ := amidFind first
    rw [all later] at row
    cases row
    exact ⟨c₁,later,rest⟩

theorem amidReturned {p : Fallible S W I E α} {r : α} {f : α → Fallible S W I E β} {value : Except E β}
    (all : ∀ {own : List (Performed W S I)} {value : Except E α} {c₁ : Config S W I (Except E Unit) γ},
      Amid sys env inputs c p own value c₁ → value = .ok r ∧ Run sys env c c₁)
    (run : Amid sys env inputs c (p >>= f : Fallible S W I E β) own value c') :
    ∃ c₁ own', Run sys env c c₁ ∧ Amid sys env inputs c₁ (f r) own' value c' := by
  rcases amidThen run with ⟨_,rfl,first⟩ | ⟨result,c₁,own₁,own₂,rfl,first,rest⟩
  · cases (all first).1
  · obtain ⟨same,later⟩ := all first
    cases same
    exact ⟨c₁,own₂,later,rest⟩

/-- It was stopped by an error before it wrote anything. -/
def Refused (own : List (Performed W S I)) (value : Except E α) : Prop := own = [] ∧ ∃ error, value = .error error

theorem refusedFirst {p : Fallible S W I E α} {f : α → Fallible S W I E β} {value : Except E β}
    (run : Amid sys env inputs c (p >>= f : Fallible S W I E β) own value c')
    (refused : ∀ {own : List (Performed W S I)} {value : Except E α} {c₁ : Config S W I (Except E Unit) γ},
      Amid sys env inputs c p own value c₁ → Refused own value) : Refused own value := by
  rcases amidThen run with ⟨error,rfl,first⟩ | ⟨result,c₁,own₁,own₂,rfl,first,-⟩
  · exact ⟨(refused first).1,error,rfl⟩
  · obtain ⟨-,error,same⟩ := refused first
    cases same

theorem amidAttempt {p : Fallible S W I E α} {handler : E → Fallible S W I E α} {value : Except E α}
    (run : Amid sys env inputs c (Fallible.attempt p handler) own value c') :
    (∃ result, value = .ok result ∧ Amid sys env inputs c p own (.ok result) c') ∨
    ∃ error c₁ own₁ own₂, own = own₁ ++ own₂ ∧ Amid sys env inputs c p own₁ (.error error) c₁ ∧
      Amid sys env inputs c₁ (handler error) own₂ value c' := by
  obtain ⟨between,c₁,own₁,own₂,rfl,first,second⟩ := amidBind run
  cases between with
  | ok result =>
    cases second
    exact .inl ⟨result,rfl,by rw [List.append_nil]; exact first⟩
  | error error => exact .inr ⟨error,c₁,own₁,own₂,rfl,first,second⟩

end Amid

end Fallible

end ESign.StoreProgram
