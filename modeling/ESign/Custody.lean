import Mathlib.Data.List.InsertIdx
import ESign.StoreProgram

/-! Runs that keep what was written and for whom. Beside every task stands the stage it has
come to; a read or a write of the task moves it to the next stage, and an invariant ties the
store, the writes made so far and the stages of all tasks together. What only one task may
hold is said there, over all stages at once. -/
namespace ESign.StoreProgram

variable {S W I R Q E A α β : Type}

/-- Programs that can fail and whose writes answer with a value. -/
def Answering (S W I E A α : Type) := Program S W I (Except E A) (Except E α)

namespace Answering

def bind (p : Answering S W I E A α) (f : α → Answering S W I E A β) : Answering S W I E A β :=
  Program.bind p (fun
    | .ok value => f value
    | .error error => .done (.error error))

instance : Monad (Answering S W I E A) where
  pure value := .done (.ok value)
  bind := bind

def lift (result : Except E α) : Answering S W I E A α := .done result

def ensure (holds : Bool) (error : E) : Answering S W I E A Unit := lift (if holds then .ok () else .error error)

def get (f : S → I → α) : Answering S W I E A α := .read (fun s i => .done (.ok (f s i)))

def find (f : S → Option α) (error : E) : Answering S W I E A α :=
  .read (fun s _ => .done ((f s).elim (.error error) .ok))

def perform (w : W) : Answering S W I E A A := .write w .done

end Answering

/-- Every write and the result are marked with the request they are made for. -/
def Program.by (q : Q) : Program S W I R α → Program S (Q × W) I R (Q × α)
  | .done value => .done (q,value)
  | .read next => .read (fun s i => (next s i).by q)
  | .write w next => .write (q,w) (fun r => (next r).by q)

def attributed (exec : W → S → I → S × R) (start : Q → Program S W I R α) : System S (Q × W) I R Q (Q × α) where
  exec w := exec w.2
  admits _ _ := true
  start q := (start q).by q

/-- What an action writes, in the store it meets. -/
def Config.performs (c : Config S W I R α) : Action I Q → List (Performed W S I)
  | .step index input =>
      match c.tasks[index]? with
      | some (.write w _) => [⟨w,c.store,input⟩]
      | _ => []
  | _ => []

/-- A run, with the writes that were made in it. -/
inductive Traced (sys : System S W I R Q α) (c : Config S W I R α) : List (Performed W S I) → Config S W I R α → Prop where
  | refl : Traced sys c [] c
  | tail {h c' a c''} (run : Traced sys c h c') (applied : sys.apply c' a = some c'') :
      Traced sys c (h ++ c'.performs a) c''

def System.trace (sys : System S W I R Q α) :
    Config S W I R α → List (Action I Q) → Option (List (Performed W S I) × Config S W I R α)
  | c, [] => some ([],c)
  | c, a :: rest => do
      let next ← sys.apply c a
      let later ← sys.trace next rest
      some (c.performs a ++ later.1,later.2)

theorem tracedHead {sys : System S W I R Q α} {c c' c'' : Config S W I R α} {a h} (applied : sys.apply c a = some c')
    (run : Traced sys c' h c'') : Traced sys c (c.performs a ++ h) c'' := by
  induction run with
  | refl =>
    rw [List.append_nil]
    exact .tail .refl applied
  | tail _ later ih =>
    rw [← List.append_assoc]
    exact .tail ih later

theorem traced {sys : System S W I R Q α} {actions : List (Action I Q)} {c c' : Config S W I R α} {h}
    (ran : sys.trace c actions = some (h,c')) : Traced sys c h c' := by
  induction actions generalizing c h with
  | nil =>
    cases Option.some.inj ran
    exact .refl
  | cons a rest ih =>
    obtain ⟨next,applied,ran⟩ := Option.bind_eq_some_iff.mp ran
    obtain ⟨later,after,same⟩ := Option.bind_eq_some_iff.mp ran
    cases Option.some.inj same
    exact tracedHead applied (ih after)

/-- The stages a task goes through. `answers` is what a write can be answered with. -/
structure Conduct (S W R Q : Type) where
  Stage : Type
  first : Stage
  answers : W → R → Prop
  learns : Q → Stage → S → Stage → Prop
  idle : ∀ q stage s, learns q stage s stage
  allows : Q → Stage → W → Prop
  after : Q → Stage → W → R → Stage

namespace Conduct

variable (k : Conduct S W R Q)

/-- From this stage on the program keeps to the conduct, and `post` holds of the stage and the
value at its end. -/
def Follows (q : Q) (post : k.Stage → α → Prop) : k.Stage → Program S W I R α → Prop
  | stage, .done value => post stage value
  | stage, .read next => ∀ s i, ∃ stage', k.learns q stage s stage' ∧ Follows q post stage' (next s i)
  | stage, .write w next => k.allows q stage w ∧ ∀ r, k.answers w r → Follows q post (k.after q stage w r) (next r)

variable {k} {q : Q}

theorem followsBind {post : k.Stage → β → Prop} {stage : k.Stage} {p : Program S W I R α} {f : α → Program S W I R β}
    (h : k.Follows q (fun stage value => k.Follows q post stage (f value)) stage p) : k.Follows q post stage (p.bind f) := by
  induction p generalizing stage with
  | done value => exact h
  | read next ih =>
    intro s i
    obtain ⟨stage',learns,rest⟩ := h s i
    exact ⟨stage',learns,ih s i rest⟩
  | write w next ih => exact ⟨h.1,fun r answered => ih r (h.2 r answered)⟩

theorem followsMono {post post' : k.Stage → α → Prop} (imp : ∀ stage value, post stage value → post' stage value)
    {stage : k.Stage} {p : Program S W I R α} (h : k.Follows q post stage p) : k.Follows q post' stage p := by
  induction p generalizing stage with
  | done value => exact imp stage value h
  | read next ih =>
    intro s i
    obtain ⟨stage',learns,rest⟩ := h s i
    exact ⟨stage',learns,ih s i rest⟩
  | write w next ih => exact ⟨h.1,fun r answered => ih r (h.2 r answered)⟩

end Conduct

section

variable {k : Conduct S W (Except E A) Q} {q : Q} {post : k.Stage → Except E α → Prop} {stage : k.Stage}

theorem followsThen {post : k.Stage → Except E β → Prop} {p : Answering S W I E A α} {f : α → Answering S W I E A β}
    (h : k.Follows q (fun stage result =>
      match result with
      | .ok value => k.Follows q post stage (f value)
      | .error error => post stage (.error error)) stage p) : k.Follows q post stage (p >>= f : Answering S W I E A β) := by
  refine Conduct.followsBind (Conduct.followsMono ?_ h)
  intro stage result held
  cases result with
  | ok value => exact held
  | error error => exact held

theorem followsQuiet {p : Answering S W I E A α} (quiet : p.Writes (fun _ => False)) (all : ∀ result, post stage result) :
    k.Follows q post stage p := by
  induction p with
  | done value => exact all value
  | read next ih => exact fun s i => ⟨stage,k.idle q stage s,ih s i (quiet s i)⟩
  | write w next ih => exact quiet.1.elim

theorem followsAfter {post : k.Stage → Except E β → Prop} {p : Answering S W I E A α} {f : α → Answering S W I E A β}
    (quiet : p.Writes (fun _ => False)) (failed : ∀ error, post stage (.error error))
    (rest : ∀ value, k.Follows q post stage (f value)) : k.Follows q post stage (p >>= f : Answering S W I E A β) :=
  followsThen (followsQuiet quiet (fun
    | .ok value => rest value
    | .error error => failed error))

theorem followsPerform {post : k.Stage → Except E A → Prop} {w : W} (allowed : k.allows q stage w)
    (h : ∀ r, k.answers w r → post (k.after q stage w r) r) :
    k.Follows q post stage (Answering.perform w : Answering S W I E A A) :=
  ⟨allowed,h⟩

end

section

variable {p : Answering S W I E A α} {f : α → Answering S W I E A β}

theorem quietThen (first : p.Writes (fun _ => False)) (rest : ∀ value, (f value).Writes (fun _ => False)) :
    (p >>= f : Answering S W I E A β).Writes (fun _ => False) :=
  Program.writesBind first (fun
    | .ok value => rest value
    | .error _ => trivial)

theorem quietGet {g : S → I → α} : (Answering.get g : Answering S W I E A α).Writes (fun _ => False) := fun _ _ => trivial

theorem quietFind {g : S → Option α} {error : E} : (Answering.find g error : Answering S W I E A α).Writes (fun _ => False) :=
  fun _ _ => trivial

theorem soloGet {exec : W → S → I → S × Except E A} {s : S} {i : I} {rest : List I} {g : S → I → α} :
    (Answering.get g >>= f : Answering S W I E A β).solo exec s (i :: rest) = (f (g s i)).solo exec s rest := rfl

theorem quietLift {result : Except E α} : (Answering.lift result : Answering S W I E A α).Writes (fun _ => False) := trivial

end

/-- A task with the request it is run for and the stage it has come to. -/
structure Entry (k : Conduct S W R Q) (I α : Type) where
  request : Q
  stage : k.Stage
  task : Program S W I R α

def Entry.account {k : Conduct S W R Q} (entry : Entry k I α) : Q × k.Stage := (entry.request,entry.stage)

def Entry.marked {k : Conduct S W R Q} (entry : Entry k I α) : Program S (Q × W) I R (Q × α) := entry.task.by entry.request

/-- An invariant over the store, the writes made so far and the stages of all tasks. -/
structure Custody (k : Conduct S W R Q) (exec : W → S → I → S × R) where
  Inv : S → List (Performed (Q × W) S I) → List (Q × k.Stage) → Prop
  opened : ∀ {s h accounts} q, Inv s h accounts → Inv s h (accounts ++ [(q,k.first)])
  learned : ∀ {s h accounts n q stage stage'}, Inv s h accounts → accounts[n]? = some (q,stage) → k.learns q stage s stage' →
    Inv s h (accounts.set n (q,stage'))
  wrote : ∀ {s h accounts n q stage w} i, Inv s h accounts → accounts[n]? = some (q,stage) → k.allows q stage w →
    Inv (exec w s i).1 (h ++ [⟨(q,w),s,i⟩]) (accounts.set n (q,k.after q stage w (exec w s i).2))
  dropped : ∀ {s h accounts} n, Inv s h accounts → Inv s h (accounts.eraseIdx n)
  answered : ∀ w s i, k.answers w (exec w s i).2

section

variable {k : Conduct S W R Q} {exec : W → S → I → S × R} {start : Q → Program S W I R α} (m : Custody k exec)
  (post : Q → k.Stage → α → Prop)

/-- Every task keeps to the conduct, at stages that the invariant knows. -/
structure Kept (c : Config S (Q × W) I R (Q × α)) (h : List (Performed (Q × W) S I)) (entries : List (Entry k I α)) :
    Prop where
  tasks : c.tasks = entries.map Entry.marked
  follows : ∀ entry ∈ entries, k.Follows entry.request (post entry.request) entry.stage entry.task
  inv : m.Inv c.store h (entries.map Entry.account)

variable {m post}

theorem keptAt {c : Config S (Q × W) I R (Q × α)} {h} {entries : List (Entry k I α)} (kept : Kept m post c h entries)
    {n : Nat} {t : Program S (Q × W) I R (Q × α)} (found : c.tasks[n]? = some t) :
    ∃ entry, entries[n]? = some entry ∧ t = entry.marked := by
  rw [kept.tasks,List.getElem?_map] at found
  obtain ⟨entry,at',same⟩ := Option.map_eq_some_iff.mp found
  exact ⟨entry,at',same.symm⟩

theorem keptSet {c : Config S (Q × W) I R (Q × α)} {h h'} {entries : List (Entry k I α)}
    (kept : Kept m post c h entries) {n : Nat} (entry : Entry k I α) {s : S} (follows : k.Follows entry.request (post entry.request) entry.stage entry.task)
    (inv : m.Inv s h' ((entries.map Entry.account).set n entry.account)) :
    Kept m post ⟨s,c.tasks.set n entry.marked⟩ h' (entries.set n entry) where
  tasks := by rw [List.map_set,← kept.tasks]
  follows := by
    intro other among
    rcases List.mem_or_eq_of_mem_set among with old | rfl
    · exact kept.follows other old
    · exact follows
  inv := by
    rw [List.map_set]
    exact inv

theorem keptStep (starts : ∀ q, k.Follows q (post q) k.first (start q)) {c c' : Config S (Q × W) I R (Q × α)} {h a}
    {entries : List (Entry k I α)} (kept : Kept m post c h entries) (applied : (attributed exec start).apply c a = some c') :
    ∃ entries', Kept m post c' (h ++ c.performs a) entries' := by
  cases a with
  | spawn q =>
    cases Option.some.inj applied
    refine ⟨entries ++ [⟨q,k.first,start q⟩],?_,?_,?_⟩
    · show c.tasks ++ [_] = _
      rw [kept.tasks,List.map_append]
      rfl
    · intro entry among
      rcases List.mem_append.mp among with old | new
      · exact kept.follows entry old
      · rw [List.mem_singleton.mp new]
        exact starts q
    · rw [List.map_append]
      have opened := m.opened q kept.inv
      simpa [Config.performs,Entry.account] using opened
  | step n i =>
    rcases stepTaken applied with ⟨next,found,rfl⟩ | ⟨w,next,found,rfl⟩
    · obtain ⟨⟨q,stage,task⟩,at',same⟩ := keptAt kept found
      have follows := kept.follows _ (List.mem_of_getElem? at')
      cases task with
      | done value => cases same
      | write w next => cases same
      | read inner =>
        cases same
        obtain ⟨stage',learns,rest⟩ := follows c.store i
        have account : (entries.map Entry.account)[n]? = some (q,stage) := by
          rw [List.getElem?_map,at']
          rfl
        have none : c.performs (Q := Q) (.step n i) = [] := by simp only [Config.performs,found]
        rw [none,List.append_nil]
        exact ⟨_,keptSet kept ⟨q,stage',inner c.store i⟩ rest (m.learned kept.inv account learns)⟩
    · obtain ⟨⟨q,stage,task⟩,at',same⟩ := keptAt kept found
      have follows := kept.follows _ (List.mem_of_getElem? at')
      cases task with
      | done value => cases same
      | read next => cases same
      | write w inner =>
        cases same
        have account : (entries.map Entry.account)[n]? = some (q,stage) := by
          rw [List.getElem?_map,at']
          rfl
        have one : c.performs (Q := Q) (.step n i) = [⟨(q,w),c.store,i⟩] := by simp only [Config.performs,found]
        rw [one]
        refine ⟨_,keptSet kept ⟨q,k.after q stage w (exec w c.store i).2,inner (exec w c.store i).2⟩ ?_
          (m.wrote i kept.inv account follows.1)⟩
        exact follows.2 _ (m.answered w c.store i)
  | crash n =>
    cases Option.some.inj applied
    refine ⟨entries.eraseIdx n,?_,?_,?_⟩
    · show c.tasks.eraseIdx n = _
      rw [kept.tasks,List.eraseIdx_map]
    · exact fun entry among => kept.follows entry (List.mem_of_mem_eraseIdx among)
    · have dropped := m.dropped n kept.inv
      rw [← List.eraseIdx_map]
      simpa [Config.performs] using dropped

theorem keptRun (starts : ∀ q, k.Follows q (post q) k.first (start q)) {s : S} (inv : m.Inv s [] []) {h}
    {c : Config S (Q × W) I R (Q × α)} (run : Traced (attributed exec start) (initial s) h c) :
    ∃ entries, Kept m post c h entries := by
  induction run with
  | refl => exact ⟨[],rfl,by simp,inv⟩
  | tail _ applied ih =>
    obtain ⟨entries,kept⟩ := ih
    exact keptStep starts kept applied

theorem keptDone {c : Config S (Q × W) I R (Q × α)} {h} {entries : List (Entry k I α)} (kept : Kept m post c h entries)
    {q : Q} {value : α} (among : Program.done (q,value) ∈ c.tasks) :
    ∃ stage, (q,stage) ∈ entries.map Entry.account ∧ post q stage value := by
  rw [kept.tasks] at among
  obtain ⟨⟨q',stage,task⟩,mem,same⟩ := List.mem_map.mp among
  have follows := kept.follows _ mem
  cases task with
  | done result =>
    cases same
    exact ⟨stage,List.mem_map.mpr ⟨_,mem,rfl⟩,follows⟩
  | read next => cases same
  | write w next => cases same

end

end ESign.StoreProgram
