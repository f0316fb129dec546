import ESign.StoreProgram

/-! Receipts. Where a program comes to a value of some kind only after a write that leaves a
receipt in the store, there are never more finished programs of the kind than receipts,
however the programs are interleaved and wherever they stop. -/
namespace ESign.StoreProgram

variable {S W I R Q E α β γ : Type}

namespace Program

/-- The program comes to a value of the kind only after a write whose answer pays for it. -/
def Paid (kind : α → Prop) (pays : W → R → Prop) : Program S W I R α → Prop
  | .done value => ¬ kind value
  | .read next => ∀ s i, (next s i).Paid kind pays
  | .write w next => ∀ r, pays w r ∨ (next r).Paid kind pays

variable {kind : α → Prop} {pays : W → R → Prop}

theorem paidBind {kind : β → Prop} (p : Program S W I R α) {f : α → Program S W I R β}
    (rest : ∀ value, (f value).Paid kind pays) : (p.bind f).Paid kind pays := by
  induction p with
  | done value => exact rest value
  | read next ih => exact fun s i => ih s i
  | write w next ih => exact fun r => .inr (ih r)

theorem paidFirst {kind : α → Prop} {kind' : β → Prop} {p : Program S W I R α} {f : α → Program S W I R β}
    (h : p.Paid kind pays) (rest : ∀ value, ¬ kind value → (f value).Paid kind' pays) : (p.bind f).Paid kind' pays := by
  induction p with
  | done value => exact rest value h
  | read next ih => exact fun s i => ih s i (h s i)
  | write w next ih => exact fun r => (h r).imp id (ih r)

end Program

namespace Fallible

variable {kind : Except E β → Prop} {pays : W → Except E Unit → Prop}

theorem paidThen (failed : ∀ error, ¬ kind (.error error)) (p : Fallible S W I E α) {f : α → Fallible S W I E β}
    (rest : ∀ value, Program.Paid kind pays (f value)) : Program.Paid kind pays (p >>= f : Fallible S W I E β) :=
  Program.paidBind p (fun
    | .ok value => rest value
    | .error error => failed error)

theorem errorUnpaid (error : E) : ¬ (Except.error error : Except E α).isOk = true := Bool.false_ne_true

theorem paidPerform {w : W} {f : Unit → Fallible S W I E β} (failed : ∀ error, ¬ kind (.error error))
    (paid : pays w (.ok ())) :
    Program.Paid kind pays (Fallible.perform w >>= f : Fallible S W I E β) := by
  intro r
  cases r with
  | ok _ => exact .inl paid
  | error error => exact .inr (failed error)

theorem paidMap {kind : Except E α → Prop} {kind' : Except E β → Prop} {p : Fallible S W I E α} {f : α → β}
    (failed : ∀ error, ¬ kind' (.error error)) (same : ∀ value, kind' (.ok (f value)) → kind (.ok value))
    (h : Program.Paid kind pays p) :
    Program.Paid kind' pays (p >>= fun value => pure (f value) : Fallible S W I E β) :=
  Program.paidFirst h (fun
    | .ok value => fun unpaid held => unpaid (same value held)
    | .error error => fun _ => failed error)

end Fallible

open Classical in
/-- The tasks that have left their receipt, or never owed one. -/
noncomputable def Config.settled (kind : α → Prop) (pays : W → R → Prop) (c : Config S W I R α) : Nat :=
  c.tasks.countP (fun t => ¬ t.Paid kind pays)

/-- The tasks that have come to a value of the kind. -/
def Program.finished (kind : α → Bool) : Program S W I R α → Bool
  | .done value => kind value
  | _ => false

def Config.finished (kind : α → Bool) (c : Config S W I R α) : Nat := c.tasks.countP (Program.finished kind)

theorem finishedSettled (kind : α → Bool) (pays : W → R → Prop) (c : Config S W I R α) :
    c.finished kind ≤ c.settled (fun value => kind value = true) pays := by
  refine List.countP_mono_left fun t _ done => ?_
  cases t with
  | done value => simpa [Program.Paid,Program.finished] using done
  | read next => cases done
  | write w next => cases done

theorem countSet {p : α → Bool} {l : List α} {index : Nat} {old new : α} (found : l[index]? = some old)
    (same : p new = true → p old = true) : (l.set index new).countP p ≤ l.countP p := by
  obtain ⟨bound,rfl⟩ := List.getElem?_eq_some_iff.mp found
  rw [List.countP_set bound]
  cases held : p new with
  | false => simp
  | true =>
    have old := same held
    have there : 0 < l.countP p := List.countP_pos_iff.mpr ⟨_,List.getElem_mem bound,old⟩
    simp only [old,if_true]
    omega

theorem countSetOne {p : α → Bool} {l : List α} {index : Nat} {old new : α} (found : l[index]? = some old) :
    (l.set index new).countP p ≤ l.countP p + 1 := by
  rw [List.countP_set (List.getElem?_eq_some_iff.mp found).1]
  split <;> split <;> omega

section

variable {sys : System S W I R Q α} {scope : Scope S W Q} {o : Outline sys scope} {kind : α → Prop} {pays : W → R → Prop}
  {receipts : S → Nat}
  (starts : ∀ request s, scope.allow request → sys.admits s request = true → o.Inv s →
    o.Holds (sys.start request) (fun _ _ => True) s)
  (owed : ∀ request, scope.allow request → (sys.start request).Paid kind pays)
  (grown : ∀ a b, o.Past a b → receipts a ≤ receipts b)
  (left : ∀ w s i, o.Inv s → o.Pre w s → pays w (sys.exec w s i).2 → receipts s + 1 ≤ receipts (sys.exec w s i).1)

include owed grown left in
/- A step settles one task at most, and one that it settles by a write leaves its receipt. -/
theorem stepSettled {c c' : Config S W I R α} (sound : o.Sound c) (step : Step sys scope c c') :
    c'.settled kind pays + receipts c.store ≤ c.settled kind pays + receipts c'.store := by
  classical
  obtain ⟨a,meets,applied⟩ := step
  cases a with
  | spawn request =>
    obtain ⟨-,rfl⟩ := spawnTaken applied
    simp [Config.settled,List.countP_append,owed request meets]
  | step index input =>
    rcases stepTaken applied with ⟨next,found,rfl⟩ | ⟨w,next,found,rfl⟩
    · refine Nat.add_le_add_right (countSet found fun unpaid => ?_) _
      simp only [decide_eq_true_eq] at unpaid ⊢
      exact fun paid => unpaid (paid c.store input)
    · have held := sound.tasks _ (List.mem_of_getElem? found)
      obtain ⟨pre,-⟩ := held _ (o.refl _) sound.inv
      by_cases paid : pays w (sys.exec w c.store input).2
      · have more := left w c.store input sound.inv pre paid
        have one : (c.tasks.set index (next (sys.exec w c.store input).2)).countP (fun t => ¬ t.Paid kind pays) ≤
          c.tasks.countP (fun t => ¬ t.Paid kind pays) + 1 := countSetOne found
        simp only [Config.settled]
        omega
      · have rel := (o.keep input sound.inv pre (meets w next found)).2
        refine Nat.add_le_add (countSet found fun unpaid => ?_) (grown _ _ ⟨sound.inv,rel⟩)
        simp only [decide_eq_true_eq] at unpaid ⊢
        exact fun owes => unpaid ((owes _).resolve_left paid)
  | crash index =>
    cases Option.some.inj applied
    exact Nat.add_le_add_right (List.Sublist.countP_le (List.eraseIdx_sublist _ _)) _

include starts owed grown left in
theorem runSettled {c c' : Config S W I R α} (sound : o.Sound c) (run : Run sys scope c c') :
    c'.settled kind pays + receipts c.store ≤ c.settled kind pays + receipts c'.store := by
  induction run with
  | refl => exact Nat.le_refl _
  | tail before step ih =>
    have next := stepSettled owed grown left (Outline.runSound starts sound before).1 step
    omega

end

/- From a start without tasks, the finished programs of a kind are no more than the receipts. -/
theorem runReceipts {sys : System S W I R Q α} {scope : Scope S W Q} {o : Outline sys scope} {kind : α → Bool}
    {pays : W → R → Prop} {receipts : S → Nat}
    (starts : ∀ request s, scope.allow request → sys.admits s request = true → o.Inv s →
      o.Holds (sys.start request) (fun _ _ => True) s)
    (owed : ∀ request, scope.allow request → (sys.start request).Paid (fun value => kind value = true) pays)
    (grown : ∀ a b, o.Past a b → receipts a ≤ receipts b)
    (left : ∀ w s i, o.Inv s → o.Pre w s → pays w (sys.exec w s i).2 → receipts s + 1 ≤ receipts (sys.exec w s i).1)
    {s : S} {c : Config S W I R α} (inv : o.Inv s) (run : Run sys scope (initial s) c) :
    c.finished kind ≤ receipts c.store := by
  have settled := runSettled starts owed grown left (Outline.initialSound inv) run
  have none : (initial s : Config S W I R α).settled (fun value => kind value = true) pays = 0 := rfl
  have finished := finishedSettled kind pays c
  omega

end ESign.StoreProgram
