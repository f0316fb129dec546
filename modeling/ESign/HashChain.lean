import Mathlib.Data.List.Forall2
import Mathlib.Data.List.Induction

/-! Records that name the digest of the record before them. Nothing here says how a
digest is computed: a group of results assumes which facts about a record its digest
binds, and concludes that a head digest binds the whole history behind it. -/
namespace ESign

structure HashChain (ρ κ : Type) where
  previous : ρ → κ
  digest : ρ → κ
  position : ρ → Int

namespace HashChain

variable {ρ κ : Type} (chain : HashChain ρ κ)

def Linked (root : κ) (start : Int) : List ρ → Prop
  | [] => True
  | record :: rest =>
      chain.previous record = root ∧ chain.position record = start ∧ Linked (chain.digest record) (start+1) rest

/-- The digest the record after these has to name. -/
def last (root : κ) : List ρ → κ
  | [] => root
  | record :: rest => last (chain.digest record) rest

variable {chain} {root : κ} {start : Int}

theorem lastSnoc (records : List ρ) (record : ρ) : chain.last root (records ++ [record]) = chain.digest record := by
  induction records generalizing root with
  | nil => rfl
  | cons first rest ih => exact ih

theorem linkedAppend {front back : List ρ} : chain.Linked root start (front ++ back) ↔
    chain.Linked root start front ∧ chain.Linked (chain.last root front) (start+front.length) back := by
  induction front generalizing root start with
  | nil => simp [Linked,last]
  | cons record rest ih =>
    simp only [List.cons_append,Linked,last,ih,List.length_cons,and_assoc]
    rw [show start+1+(rest.length : Int) = start+((rest.length+1 : Nat) : Int) by omega]

theorem linkedSnoc {records : List ρ} {record : ρ} : chain.Linked root start (records ++ [record]) ↔
    chain.Linked root start records ∧ chain.previous record = chain.last root records ∧
      chain.position record = start+records.length := by
  rw [linkedAppend]
  simp [Linked]

theorem positionMem {records : List ρ} (linked : chain.Linked root start records) {record : ρ} (mem : record ∈ records) :
    start ≤ chain.position record ∧ chain.position record < start+records.length := by
  induction records generalizing root start with
  | nil => cases mem
  | cons first rest ih =>
    rw [List.length_cons]
    rcases List.mem_cons.mp mem with same | inside
    · subst same
      have := linked.2.1
      omega
    · have := ih linked.2.2 inside
      omega

variable {Same : ρ → ρ → Prop}

/- The head digests of two chains from one start are equal: all of the records behind them agree. -/
theorem headsAgree {root' : κ} (left right : List ρ) {x y : ρ} (linked : chain.Linked root start (left ++ [x]))
    (linked' : chain.Linked root' start (right ++ [y]))
    (binds : ∀ a ∈ left ++ [x], ∀ b ∈ right ++ [y], chain.digest a = chain.digest b →
      Same a b ∧ chain.previous a = chain.previous b ∧ chain.position a = chain.position b)
    (equal : chain.digest x = chain.digest y) : List.Forall₂ Same (left ++ [x]) (right ++ [y]) := by
  induction left using List.reverseRecOn generalizing right x y with
  | nil =>
    have here := binds x (by simp) y (by simp) equal
    have positions := (linkedSnoc.mp linked).2.2
    have positions' := (linkedSnoc.mp linked').2.2
    have short : right.length = 0 := by
      rw [List.length_nil] at positions
      omega
    rw [List.length_eq_zero_iff.mp short]
    exact .cons here.1 .nil
  | append_singleton front x' ih =>
    have here := binds x (by simp) y (by simp) equal
    have positions := (linkedSnoc.mp linked).2.2
    have positions' := (linkedSnoc.mp linked').2.2
    rcases List.eq_nil_or_concat right with empty | ⟨front',y',snoc⟩
    · subst empty
      simp only [List.length_append,List.length_cons,List.length_nil] at positions positions'
      omega
    · rw [List.concat_eq_append] at snoc
      subst snoc
      have before := (linkedSnoc.mp linked).2.1
      have before' := (linkedSnoc.mp linked').2.1
      rw [lastSnoc] at before before'
      have rest := ih front' (linkedSnoc.mp linked).1 (linkedSnoc.mp linked').1
        (fun a aMem b bMem => binds a (List.mem_append_left _ aMem) b (List.mem_append_left _ bMem))
        (by rw [← before,← before',here.2.1])
      exact List.rel_append rest (.cons here.1 .nil)

end HashChain

end ESign
