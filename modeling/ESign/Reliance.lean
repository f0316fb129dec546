import ESign.StoreProgram

/-! Programs that need things a store may lose. A program relies on a thing once it
can come to a write that needs it without having met it, or made it, on the way: what
is taken from the store at that moment is missed too late. Nothing is lost to a
program that can still notice. -/
namespace ESign.StoreProgram

variable {S S' W W' I R Q K E α β γ : Type}

/-- What a store has, what a write makes when it is answered so, and what it needs. -/
structure Resources (S W R K : Type) where
  has : S → K → Prop
  makes : W → R → K → Prop
  needs : W → K → Prop

namespace Resources

variable (m : Resources S W R K) (k : K)

def Relies : Program S W I R α → Prop
  | .done _ => False
  | .read next => ∃ s i, ¬ m.has s k ∧ Relies (next s i)
  | .write w next => m.needs w k ∨ ∃ r, ¬ m.makes w r k ∧ Relies (next r)

/-- The program can come to a value and neither meet the thing on its way nor make it. -/
def Misses : Program S W I R α → α → Prop
  | .done value, result => value = result
  | .read next, result => ∃ s i, ¬ m.has s k ∧ Misses (next s i) result
  | .write w next, result => ∃ r, ¬ m.makes w r k ∧ Misses (next r) result

variable {m k}

theorem reliesBind {p : Program S W I R α} {f : α → Program S W I R β} (h : m.Relies k (p.bind f)) :
    m.Relies k p ∨ ∃ value, m.Misses k p value ∧ m.Relies k (f value) := by
  induction p with
  | done value => exact .inr ⟨value,rfl,h⟩
  | read next ih =>
    obtain ⟨s,i,gone,later⟩ := h
    rcases ih s i later with early | ⟨value,missed,late⟩
    · exact .inl ⟨s,i,gone,early⟩
    · exact .inr ⟨value,⟨s,i,gone,missed⟩,late⟩
  | write w next ih =>
    rcases h with need | ⟨r,unmade,later⟩
    · exact .inl (.inl need)
    · rcases ih r later with early | ⟨value,missed,late⟩
      · exact .inl (.inr ⟨r,unmade,early⟩)
      · exact .inr ⟨value,⟨r,unmade,missed⟩,late⟩

theorem missesBind {p : Program S W I R α} {f : α → Program S W I R β} {result : β} (h : m.Misses k (p.bind f) result) :
    ∃ value, m.Misses k p value ∧ m.Misses k (f value) result := by
  induction p with
  | done value => exact ⟨value,rfl,h⟩
  | read next ih =>
    obtain ⟨s,i,gone,later⟩ := h
    obtain ⟨value,missed,late⟩ := ih s i later
    exact ⟨value,⟨s,i,gone,missed⟩,late⟩
  | write w next ih =>
    obtain ⟨r,unmade,later⟩ := h
    obtain ⟨value,missed,late⟩ := ih r later
    exact ⟨value,⟨r,unmade,missed⟩,late⟩

theorem reliesWrites {p : Program S W I R α} (h : p.Writes (fun w => ¬ m.needs w k)) : ¬ m.Relies k p := by
  induction p with
  | done value => exact id
  | read next ih => exact fun ⟨s,i,_,later⟩ => ih s i (h s i) later
  | write w next ih =>
    rintro (need | ⟨r,_,later⟩)
    · exact h.1 need
    · exact ih r (h.2 r) later

/-! The rules for programs that can fail. -/

section Fallible

variable {m : Resources S W (Except E Unit) K} {k : K}

theorem reliesThen {p : Fallible S W I E α} {f : α → Fallible S W I E β} (first : ¬ m.Relies k p)
    (rest : ∀ value, m.Misses k p (.ok value) → ¬ m.Relies k (f value)) : ¬ m.Relies k (p >>= f : Fallible S W I E β) := by
  intro h
  rcases reliesBind h with early | ⟨value,missed,late⟩
  · exact first early
  · cases value with
    | ok value => exact rest value missed late
    | error error => exact late

theorem missesThen {p : Fallible S W I E α} {f : α → Fallible S W I E β} {result : β}
    (h : m.Misses k (p >>= f : Fallible S W I E β) (.ok result)) :
    ∃ value, m.Misses k p (.ok value) ∧ m.Misses k (f value) (.ok result) := by
  obtain ⟨value,missed,late⟩ := missesBind h
  cases value with
  | ok value => exact ⟨value,missed,late⟩
  | error error => cases late

theorem reliesAttempt {p : Fallible S W I E α} {handler : E → Fallible S W I E α} (tried : ¬ m.Relies k p)
    (caught : ∀ error, ¬ m.Relies k (handler error)) : ¬ m.Relies k (Fallible.attempt p handler) := by
  intro h
  rcases reliesBind h with early | ⟨value,-,late⟩
  · exact tried early
  · cases value with
    | ok value => exact late
    | error error => exact caught error late

theorem reliesWhen {holds : Bool} {p : Fallible S W I E Unit} (h : ¬ m.Relies k p) : ¬ m.Relies k (Fallible.when holds p) := by
  cases holds with
  | true => exact h
  | false => exact id

theorem reliesEnsure {holds : Bool} {error : E} : ¬ m.Relies k (Fallible.ensure holds error : Fallible S W I E Unit) :=
  reliesWrites writesEnsure

theorem reliesLift {result : Except E α} : ¬ m.Relies k (Fallible.lift result : Fallible S W I E α) := id

theorem reliesGet {f : S → I → α} : ¬ m.Relies k (Fallible.get f : Fallible S W I E α) := reliesWrites writesGet

theorem reliesFind {f : S → Option α} {error : E} : ¬ m.Relies k (Fallible.find f error : Fallible S W I E α) :=
  reliesWrites writesFind

theorem reliesPerform {w : W} (h : ¬ m.needs w k) : ¬ m.Relies k (Fallible.perform w : Fallible S W I E Unit) :=
  reliesWrites (writesPerform h)

theorem missesGet {f : S → I → α} {value : α} (h : m.Misses k (Fallible.get f : Fallible S W I E α) (.ok value)) :
    ∃ s i, ¬ m.has s k ∧ f s i = value := by
  obtain ⟨s,i,gone,same⟩ := h
  cases same
  exact ⟨s,i,gone,rfl⟩

theorem missesPerform {w : W} (h : m.Misses k (Fallible.perform w : Fallible S W I E Unit) (.ok ())) :
    ¬ m.makes w (.ok ()) k := by
  obtain ⟨r,unmade,same⟩ := h
  cases same
  exact unmade

end Fallible

def Backed (m : Resources S W R K) (c : Config S W I R α) : Prop := ∀ t ∈ c.tasks, ∀ k, m.Relies k t → m.has c.store k

variable {sys : System S W I R Q α}

theorem backedStep (made : ∀ w s i k, m.makes w (sys.exec w s i).2 k → m.has (sys.exec w s i).1 k)
    (starts : ∀ request k, ¬ m.Relies k (sys.start request)) {c c' : Config S W I R α} {a : Action I Q}
    (spared : ∀ index i w next, a = .step index i → c.tasks[index]? = some (.write w next) →
      ∀ t ∈ c.tasks, ∀ k, m.Relies k t → m.has c.store k → m.has (sys.exec w c.store i).1 k)
    (backed : m.Backed c) (applied : sys.apply c a = some c') : m.Backed c' := by
  cases a with
  | spawn request =>
    obtain ⟨-,rfl⟩ := spawnTaken applied
    intro t among k relies
    rcases List.mem_append.mp among with old | new
    · exact backed t old k relies
    · rw [List.mem_singleton.mp new] at relies
      exact absurd relies (starts request k)
  | step index i =>
    rcases stepTaken applied with ⟨next,found,rfl⟩ | ⟨w,next,found,rfl⟩
    · intro t among k relies
      rcases List.mem_or_eq_of_mem_set among with old | rfl
      · exact backed t old k relies
      · -- the task has met the thing just now, or relied on it before it looked
        by_cases there : m.has c.store k
        · exact there
        · exact backed _ (List.mem_of_getElem? found) k ⟨c.store,i,there,relies⟩
    · intro t among k relies
      have kept := spared index i w next rfl found
      rcases List.mem_or_eq_of_mem_set among with old | rfl
      · exact kept t old k relies (backed t old k relies)
      · by_cases make : m.makes w (sys.exec w c.store i).2 k
        · exact made w c.store i k make
        · have own : m.Relies k (Program.write w next) := .inr ⟨_,make,relies⟩
          have mem := List.mem_of_getElem? found
          exact kept _ mem k own (backed _ mem k own)
  | crash index =>
    cases Option.some.inj applied
    exact fun t among => backed t (List.mem_of_mem_eraseIdx among)

end Resources

namespace Program

/-- A program over a part of a larger store. When the part is missing it comes to a value of its own. -/
def within (part : S' → Option S) (wrap : W → W') (missing : α) : Program S W I R α → Program S' W' I R α
  | .done value => .done value
  | .read next => .read (fun s i => match part s with
      | some inner => (next inner i).within part wrap missing
      | none => .done missing)
  | .write w next => .write (wrap w) (fun r => (next r).within part wrap missing)

theorem writesPart {part : S' → Option S} {wrap : W → W'} {missing : α} {allowed : W' → Prop} {p : Program S W I R α}
    (h : p.Writes (fun w => allowed (wrap w))) : (p.within part wrap missing).Writes allowed := by
  induction p with
  | done value => trivial
  | read next ih =>
    rw [within]
    intro s i
    dsimp only
    split
    · exact ih _ i (h _ i)
    · trivial
  | write w next ih =>
    rw [within]
    exact ⟨h.1,fun r => ih r (h.2 r)⟩

end Program

end ESign.StoreProgram
