import Mathlib.Data.List.Nodup

/-! Tables as lists of rows with a key, and the updates of the rows that a clause hits. -/
namespace ESign

def updateMany {α : Type} (clause : α → Bool) (data : α → α) (rows : List α) : List α :=
  rows.map (fun row => if clause row then data row else row)

/-- `rows[rows.findIndex(clause)] = data`, when there is such a row. -/
def updateFirst {α : Type} (clause : α → Bool) (data : α → α) : List α → List α
  | [] => []
  | row :: rest => if clause row then data row :: rest else row :: updateFirst clause data rest

theorem keysAppended {α β : Type} {key : α → β} {rows : List α} {row : α} (keys : (rows.map key).Nodup)
    (fresh : ∀ r ∈ rows, key r ≠ key row) : ((rows ++ [row]).map key).Nodup := by
  rw [List.map_append,List.nodup_append]
  refine ⟨keys,List.nodup_singleton _,?_⟩
  intro id mem other last
  obtain ⟨r,found,rfl⟩ := List.mem_map.mp mem
  rw [List.map_singleton,List.mem_singleton] at last
  rw [last]
  exact fresh r found

theorem findsOnly {α : Type} {clause : α → Bool} {rows : List α} {row : α} (mem : row ∈ rows) (hit : clause row = true)
    (only : ∀ r ∈ rows, clause r = true → r = row) : rows.find? clause = some row := by
  cases found : rows.find? clause with
  | none => exact absurd hit (by simpa using List.find?_eq_none.mp found row mem)
  | some other => rw [only other (List.mem_of_find?_eq_some found) (List.find?_some found)]

theorem findsKeyed {α β : Type} [DecidableEq β] (key : α → β) {rows : List α} (keys : (rows.map key).Nodup) {row : α}
    (mem : row ∈ rows) : rows.find? (fun other => key other = key row) = some row :=
  findsOnly mem (decide_eq_true rfl) (fun _ found same => List.inj_on_of_nodup_map keys found mem (of_decide_eq_true same))

section
variable {α β : Type} {key : α → β} {clause : α → Bool} {data : α → α} {rows : List α}

theorem updateManyKeys (kept : ∀ row, key (data row) = key row) : (updateMany clause data rows).map key = rows.map key := by
  unfold updateMany
  rw [List.map_map]
  refine List.map_congr_left (fun row _ => ?_)
  simp only [Function.comp]
  split
  · exact kept row
  · rfl

theorem updateManyMem {row' : α} (mem : row' ∈ updateMany clause data rows) :
    ∃ row ∈ rows, (clause row = true ∧ row' = data row) ∨ (clause row = false ∧ row' = row) := by
  obtain ⟨row,old,rfl⟩ := List.mem_map.mp mem
  by_cases hit : clause row = true
  · exact ⟨row,old,.inl ⟨hit,if_pos hit⟩⟩
  · exact ⟨row,old,.inr ⟨by simpa using hit,if_neg hit⟩⟩

theorem updateManyOf {row : α} (mem : row ∈ rows) :
    (clause row = true → data row ∈ updateMany clause data rows) ∧ (clause row = false → row ∈ updateMany clause data rows) :=
  ⟨fun hit => List.mem_map.mpr ⟨row,mem,if_pos hit⟩,fun miss => List.mem_map.mpr ⟨row,mem,if_neg (by simp [miss])⟩⟩

theorem updateManyNone (none : ∀ row ∈ rows, clause row = false) : updateMany clause data rows = rows := by
  unfold updateMany
  conv_rhs => rw [← List.map_id rows]
  exact List.map_congr_left (fun row mem => if_neg (by simp [none row mem]))

theorem updateManyCongr {other : α → Bool} (same : ∀ row ∈ rows, clause row = other row) :
    updateMany clause data rows = updateMany other data rows :=
  List.map_congr_left (fun row mem => by rw [same row mem])

theorem updateFirstFound [DecidableEq β] {row : α} {change : α → α} (keys : (rows.map key).Nodup)
    (found : rows.find? clause = some row) (same : change row = data row) :
    updateFirst clause change rows = updateMany (fun other => decide (key other = key row)) data rows := by
  induction rows with
  | nil => cases found
  | cons head rest ih =>
    rw [List.map_cons,List.nodup_cons] at keys
    obtain ⟨fresh,keys⟩ := keys
    by_cases hit : clause head = true
    · rw [List.find?_cons_of_pos hit] at found
      cases Option.some.inj found
      have others : updateMany (fun other => decide (key other = key row)) data rest = rest := by
        refine updateManyNone (fun other mem => decide_eq_false_iff_not.mpr ?_)
        exact fun same => fresh (List.mem_map.mpr ⟨other,mem,same⟩)
      rw [updateFirst,if_pos hit,same]
      conv_lhs => rw [← others]
      unfold updateMany
      rw [List.map_cons,if_pos (by simp)]
    · rw [List.find?_cons_of_neg hit] at found
      have away : key head ≠ key row := fun same => fresh (List.mem_map.mpr ⟨row,List.mem_of_find?_eq_some found,same.symm⟩)
      rw [updateFirst,if_neg hit,ih keys found]
      unfold updateMany
      rw [List.map_cons,if_neg (by simpa using away)]

theorem updateFirstMany [DecidableEq β] {x : β} {change : α → α} (keys : (rows.map key).Nodup)
    (hits : ∃ row ∈ rows, clause row = true)
    (only : ∀ row ∈ rows, clause row = true → key row = x ∧ change row = data row) :
    updateFirst clause change rows = updateMany (fun row => decide (key row = x)) data rows := by
  obtain ⟨row,found⟩ := Option.isSome_iff_exists.mp (List.find?_isSome.mpr hits)
  obtain ⟨named,same⟩ := only row (List.mem_of_find?_eq_some found) (List.find?_some found)
  rw [updateFirstFound keys found same,named]

end

end ESign
