import ESign.JsText

/-! Absolute POSIX paths, as `path.resolve` computes them: the texts alone decide, no
directory is looked at. -/
namespace ESign.PosixPath
open JsText

/-- One segment after the others. Two dots take one back, but not above the root. -/
def step (kept : List Utf16) (segment : Utf16) : List Utf16 :=
  if segment = [] ∨ segment = [46] then kept
  else if segment = [46,46] then kept.dropLast
  else kept ++ [segment]

def normalize (segments : List Utf16) : List Utf16 := segments.foldl step []

/-- From left to right; an absolute path starts again. -/
def join (base path : Utf16) : Utf16 :=
  if path = [] then base
  else if path.head? = some 47 then path
  else base ++ 47 :: path

def resolve (cwd : Utf16) (paths : List Utf16) : Utf16 :=
  47 :: [47].intercalate (normalize ((paths.foldl join cwd).splitOn 47))

structure Clean (segment : Utf16) : Prop where
  some : segment ≠ []
  dot : segment ≠ [46]
  dots : segment ≠ [46,46]
  slash : 47 ∉ segment

theorem slashFree {path segment : Utf16} (mem : segment ∈ path.splitOn 47) : 47 ∉ segment := by
  induction path generalizing segment with
  | nil =>
    rw [List.splitOn_nil,List.mem_singleton] at mem
    rw [mem]
    exact List.not_mem_nil
  | cons u rest ih =>
    rw [List.splitOn_cons_eq_if_modifyHead] at mem
    split at mem
    · rcases List.mem_cons.mp mem with rfl | later
      · exact List.not_mem_nil
      · exact ih later
    · next other =>
      cases split : rest.splitOn 47 with
      | nil => exact absurd split (List.splitOn_ne_nil 47 rest)
      | cons first others =>
        rw [split,List.modifyHead_cons] at mem
        rw [split] at ih
        rcases List.mem_cons.mp mem with rfl | later
        · intro slash
          rcases List.mem_cons.mp slash with rfl | later
          · exact other (beq_self_eq_true 47)
          · exact ih List.mem_cons_self later
        · exact ih (List.mem_cons_of_mem _ later)

theorem stepsClean {segments kept : List Utf16} (clean : ∀ segment ∈ segments, Clean segment) :
    segments.foldl step kept = kept ++ segments := by
  induction segments generalizing kept with
  | nil => rw [List.foldl_nil,List.append_nil]
  | cons segment rest ih =>
    rw [List.forall_mem_cons] at clean
    obtain ⟨here,later⟩ := clean
    have kept' : step kept segment = kept ++ [segment] := by
      rw [step,if_neg (fun either => either.elim here.some here.dot),if_neg here.dots]
    rw [List.foldl_cons,kept',ih later,List.append_assoc,List.singleton_append]

theorem normalizedClean {segments kept : List Utf16} (free : ∀ segment ∈ segments, 47 ∉ segment)
    (clean : ∀ segment ∈ kept, Clean segment) : ∀ segment ∈ segments.foldl step kept, Clean segment := by
  induction segments generalizing kept with
  | nil => exact clean
  | cons segment rest ih =>
    rw [List.forall_mem_cons] at free
    refine ih free.2 ?_
    rw [step]
    split
    · exact clean
    · next named =>
      split
      · exact fun other mem => clean other (List.mem_of_mem_dropLast mem)
      · next dots =>
        intro other mem
        rcases List.mem_append.mp mem with old | new
        · exact clean other old
        · rw [List.mem_singleton.mp new]
          exact ⟨fun none => named (.inl none),fun dot => named (.inr dot),dots,free.1⟩

theorem resolvedClean (cwd : Utf16) (paths : List Utf16) :
    ∃ segments, resolve cwd paths = 47 :: [47].intercalate segments ∧ ∀ segment ∈ segments, Clean segment :=
  ⟨_,rfl,normalizedClean (fun _ mem => slashFree mem) (List.forall_mem_nil _)⟩

theorem intercalateAppend {front back : List Utf16} (some : front ≠ []) (more : back ≠ []) :
    [47].intercalate (front ++ back) = [47].intercalate front ++ 47 :: [47].intercalate back := by
  induction front with
  | nil => exact absurd rfl some
  | cons first rest ih =>
    rw [List.cons_append]
    cases rest with
    | nil => simp [List.intercalate_cons_of_ne_nil more]
    | cons next others =>
      have inner := ih (List.cons_ne_nil _ _)
      rw [List.cons_append] at inner ⊢
      rw [List.intercalate_cons_cons,inner,List.intercalate_cons_cons]
      simp only [List.append_assoc]

theorem intercalateSome {segments : List Utf16} (some : segments ≠ []) (named : ∀ segment ∈ segments, segment ≠ []) :
    [47].intercalate segments ≠ [] := by
  cases segments with
  | nil => exact absurd rfl some
  | cons first rest =>
    cases rest with
    | nil =>
      rw [List.intercalate_singleton]
      exact named first List.mem_cons_self
    | cons next others => simp [List.intercalate_cons_cons]

theorem joinedSegments {base : List Utf16} (some : base ≠ []) {segments : List Utf16}
    (free : ∀ segment ∈ segments, 47 ∉ segment) :
    segments.foldl join ([47].intercalate base) = [47].intercalate (base ++ segments.filter (· ≠ [])) := by
  induction segments generalizing base with
  | nil => rw [List.foldl_nil,List.filter_nil,List.append_nil]
  | cons segment rest ih =>
    rw [List.forall_mem_cons] at free
    rw [List.foldl_cons,join]
    split
    · next none => rw [ih some free.2,List.filter_cons_of_neg (by simp [none])]
    · next named =>
      have relative : segment.head? ≠ .some 47 := fun slash => free.1 (List.mem_of_head? slash)
      have added := intercalateAppend some (List.cons_ne_nil segment [])
      rw [List.intercalate_singleton] at added
      rw [if_neg relative,← added,ih (by simp) free.2,List.filter_cons_of_pos (by simpa using named),List.append_assoc,
        List.singleton_append]

theorem resolvedBelow {cwd : Utf16} {paths : List Utf16} (below : resolve cwd paths ≠ [47]) {segments : List Utf16}
    (free : ∀ segment ∈ segments, 47 ∉ segment) (clean : ∀ segment ∈ segments.filter (· ≠ []), Clean segment)
    (some : segments.filter (· ≠ []) ≠ []) :
    resolve cwd (resolve cwd paths :: segments) =
      resolve cwd paths ++ 47 :: [47].intercalate (segments.filter (· ≠ [])) := by
  obtain ⟨kept,same,keptClean⟩ := resolvedClean cwd paths
  rw [same] at below ⊢
  have named : kept ≠ [] := by
    rintro rfl
    exact below rfl
  have rooted : 47 :: [47].intercalate kept = [47].intercalate ([] :: kept) := by
    rw [List.intercalate_cons_of_ne_nil named]
    rfl
  have start : join cwd (47 :: [47].intercalate kept) = 47 :: [47].intercalate kept := rfl
  have apart : ∀ segment ∈ [] :: kept ++ segments.filter (· ≠ []), 47 ∉ segment := by
    intro segment mem
    rcases List.mem_append.mp mem with old | new
    · rcases List.mem_cons.mp old with rfl | old
      · exact List.not_mem_nil
      · exact (keptClean segment old).slash
    · exact (clean segment new).slash
  rw [resolve,List.foldl_cons,start,rooted,joinedSegments (List.cons_ne_nil _ _) free,
    List.splitOn_intercalate _ apart (by simp),normalize,List.cons_append,List.foldl_cons]
  have whole : ∀ segment ∈ kept ++ segments.filter (· ≠ []), Clean segment := by
    intro segment mem
    rcases List.mem_append.mp mem with old | new
    · exact keptClean segment old
    · exact clean segment new
  rw [step,if_pos (.inl rfl),stepsClean whole,List.nil_append,intercalateAppend named some,
    List.intercalate_cons_of_ne_nil named]
  rfl

end ESign.PosixPath
