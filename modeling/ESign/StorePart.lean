import ESign.StoreProgram

/-! A system that has another one for a part: its store holds the store of the other, and among
its writes are those of the other, which do to the part what they do by themselves. A program
of the part is run as it stands, and what its outline promises of the store of the other it
promises of the part, whatever the rest of the larger system does. -/
namespace ESign.StoreProgram

variable {S S' W W' I I' R Q Q' E α α' β : Type}

/-- Where the part is, how a write of the part is written, and what the part is given of
what comes from outside. -/
structure Inset (S S' W W' I I' : Type) where
  part : S' → S
  wrap : W → W'
  given : I' → I

def Program.inside (m : Inset S S' W W' I I') : Program S W I R β → Program S' W' I' R β
  | .done value => .done value
  | .read next => .read (fun s i => (next (m.part s) (m.given i)).inside m)
  | .write w next => .write (m.wrap w) (fun r => (next r).inside m)

theorem writesInside {m : Inset S S' W W' I I'} {allowed : W' → Prop} {p : Program S W I R β}
    (h : p.Writes (fun w => allowed (m.wrap w))) : (p.inside m).Writes allowed := by
  induction p with
  | done value => trivial
  | read next ih => exact fun s i => ih _ _ (h _ _)
  | write w next ih => exact ⟨h.1,fun r => ih r (h.2 r)⟩

theorem insideBind (m : Inset S S' W W' I I') (p : Fallible S W I E α)
    (f : α → Fallible S W I E β) : (Program.inside m (p >>= f : Fallible S W I E β) : Fallible S' W' I' E β) =
      (show Fallible S' W' I' E α from Program.inside m p) >>= fun value => Program.inside m (f value) := by
  change Program.inside m (Program.bind p _) = Program.bind (Program.inside m p) _
  induction p with
  | done value => cases value <;> rfl
  | read next ih => exact congrArg Program.read (funext fun s => funext fun i => ih _ _)
  | write w next ih => exact congrArg (Program.write (m.wrap w)) (funext fun r => ih r)

theorem resultsInside {m : Inset S S' W W' I I'} {inputs : I' → Prop} {P : β → Prop}
    {p : Program S W I R β} (h : p.Results (fun _ => True) (fun _ _ => True) P) :
    (p.inside m).Results inputs (fun _ _ => True) P := by
  induction p with
  | done value => exact h
  | read next ih => exact fun s i _ => ih _ _ (h _ _ trivial)
  | write w next ih => exact fun r _ => ih r (h r trivial)

theorem Outline.holdsInv {sys : System S W I R Q α} {scope : Scope S W Q} (o : Outline sys scope) {p : Program S W I R β}
    {post : β → S → Prop} {s} (h : o.Holds p post s) (inv : o.Inv s) : o.Holds p
    (fun value s' => o.Inv s' ∧ post value s') s := by
  induction p generalizing s with
  | done value => exact ⟨inv,h⟩
  | read next ih => exact fun s' rel inv i => ih s' i (h s' rel inv i) inv
  | write w next ih =>
    intro s' rel inv
    obtain ⟨pre,after⟩ := h s' rel inv
    exact ⟨pre,fun cond i => ih _ (after cond i) (o.keep i inv pre cond).1⟩

def Outline.knowing {sys : System S W I R Q α} {allow : Q → Prop} {cond : W → S → Prop} (o : Outline sys ⟨allow,cond⟩) :
    Outline sys (Scope.of allow) where
  Inv := o.Inv
  Rel := o.Rel
  Pre w s := o.Pre w s ∧ cond w s
  refl := o.refl
  trans := o.trans
  keep i inv pre _ := o.keep i inv pre.1 pre.2

theorem holdsKnowing {sys : System S W I R Q α} {allow : Q → Prop} {allowed : W → Prop}
    {o : Outline sys ⟨allow,fun w _ => allowed w⟩} {p : Program S W I R β} {post : β → S → Prop} {s}
    (writes : p.Writes allowed)
    (h : o.Holds p post s) : o.knowing.Holds p post s := by
  induction p generalizing s with
  | done value => exact h
  | read next ih => exact fun s' rel inv i => ih s' i (writes s' i) (h s' rel inv i)
  | write w next ih =>
    intro s' rel inv
    obtain ⟨pre,after⟩ := h s' rel inv
    exact ⟨⟨pre,writes.1⟩,fun _ i => ih _ (writes.2 _) (after writes.1 i)⟩

structure Around (m : Inset S S' W W' I I') {sys : System S W I R Q α} {sys' : System S' W' I' R Q' α'}
    {scope : Scope S W Q} {scope' : Scope S' W' Q'} (o : Outline sys scope) (o' : Outline sys' scope') : Prop where
  store : ∀ w s i, m.part (sys'.exec (m.wrap w) s i).1 = (sys.exec w (m.part s) (m.given i)).1
  answer : ∀ w s i, (sys'.exec (m.wrap w) s i).2 = (sys.exec w (m.part s) (m.given i)).2
  inv : ∀ {s}, o'.Inv s → o.Inv (m.part s)
  rel : ∀ {a b}, o'.Rel a b → o.Rel (m.part a) (m.part b)
  pre : ∀ {w s}, o'.Inv s → o.Pre w (m.part s) → o'.Pre (m.wrap w) s
  cond : ∀ {w s}, scope'.cond (m.wrap w) s → scope.cond w (m.part s)

section

variable {m : Inset S S' W W' I I'} {sys : System S W I R Q α} {sys' : System S' W' I' R Q' α'}
  {scope : Scope S W Q} {scope' : Scope S' W' Q'} {o : Outline sys scope} {o' : Outline sys' scope'}
  (around : Around m o o')

include around

theorem Around.past {a b} (h : o'.Past a b) : o.Past (m.part a) (m.part b) := ⟨around.inv h.1,around.rel h.2⟩

theorem holdsInside {p : Program S W I R β} {post : β → S → Prop} {s} (h : o.Holds p post (m.part s)) :
    o'.Holds (p.inside m) (fun value s' => post value (m.part s')) s := by
  induction p generalizing s with
  | done value => exact h
  | read next ih => exact fun s' rel inv i => ih _ _ (h _ (around.rel rel) (around.inv inv) _)
  | write w next ih =>
    intro s' rel inv
    obtain ⟨pre,after⟩ := h _ (around.rel rel) (around.inv inv)
    refine ⟨around.pre inv pre,fun cond i => ?_⟩
    have held := after (around.cond cond) (m.given i)
    rw [← around.store,← around.answer] at held
    exact ih _ held

end

theorem ensuresInside {m : Inset S S' W W' I I'} {sys : System S W I (Except E Unit) Q α}
    {sys' : System S' W' I' (Except E Unit) Q' α'} {scope : Scope S W Q} {scope' : Scope S' W' Q'} {o : Outline sys scope}
    {o' : Outline sys' scope'} (around : Around m o o') {p : Fallible S W I E β} {post : β → S → Prop} {s}
    (h : o.Ensures p post (m.part s)) :
    o'.Ensures (Program.inside m p : Fallible S' W' I' E β) (fun value s' => post value (m.part s')) s := by
  intro inv
  have inside := o'.holdsInv (holdsInside around (h (around.inv inv))) inv
  exact o'.holdsMono (fun _ _ held => ⟨held.1,held.2.2⟩) inside

end ESign.StoreProgram
