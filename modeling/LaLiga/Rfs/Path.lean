import Mathlib.Tactic

/-! Paths as C strings: lists of bytes, none of them 0. -/
namespace LaLiga.Rfs

abbrev Path := List UInt8

/-- `'/'` -/
def separator : UInt8 := 47

/-- The positions `strchr` visits in turn. -/
def separators (path : Path) : List Nat :=
  (List.range path.length).filter (fun i => path[i]? = some separator)

/-- The prefixes that `inode_of_file` walks. From the third on they keep the separator
that ends them; `none` is the error return. -/
def split_path (path : Path) : Option (List Path) :=
  match separators path with
  | 0 :: rest =>
    if path.length = 1 then some [[separator]]
    else
      match rest with
      | [] => some [[separator], path]
      | p :: ps =>
        let file_tree := [separator] :: path.take p :: ps.map (fun q => path.take (q + 1))
        if file_tree.getLast? = some path then some file_tree else some (file_tree ++ [path])
  | _ => none

example : split_path [47, 97, 47, 98, 47, 99] =
    some [[47], [47, 97], [47, 97, 47, 98, 47], [47, 97, 47, 98, 47, 99]] := by decide

theorem split_path_ne_nil {path : Path} {file_tree : List Path}
    (h : split_path path = some file_tree) : file_tree ≠ [] := by
  unfold split_path at h
  split at h
  · split_ifs at h
    · obtain rfl := Option.some.inj h
      simp
    · split at h
      · obtain rfl := Option.some.inj h
        simp
      · simp only at h
        split_ifs at h <;> (obtain rfl := Option.some.inj h; simp)
  · cases h

/-- The parts of an absolute path between its separators. -/
def components (path : Path) : List Path := path.tail.splitOn separator

/-- Components joined by `'/'`; without any it is the root. -/
def canonical (cs : List Path) : Path := separator :: [separator].intercalate cs

theorem canonical_components {path : Path} (h : path.head? = some separator) :
    canonical (components path) = path := by
  cases path with
  | nil => simp at h
  | cons a p =>
    obtain rfl : a = separator := by simpa using h
    simp [canonical, components, List.intercalate_splitOn]

theorem separator_notMem {path c : Path} (h : c ∈ components path) : separator ∉ c := by
  unfold components at h
  generalize path.tail = p at h
  induction p generalizing c with
  | nil =>
    rw [List.splitOn_nil, List.mem_singleton] at h
    simp [h]
  | cons a p ih =>
    rw [List.splitOn_cons_eq_if_modifyHead] at h
    split_ifs at h with ha
    · rcases List.mem_cons.mp h with rfl | h
      · simp
      · exact ih h
    · obtain ⟨d, ds, hd⟩ := List.exists_cons_of_ne_nil (List.splitOn_ne_nil separator p)
      rw [hd, List.modifyHead_cons, List.mem_cons] at h
      rcases h with rfl | h
      · have hsep : separator ∉ d := ih (hd ▸ List.mem_cons_self)
        have hne : separator ≠ a := fun he => ha (beq_iff_eq.mpr he.symm)
        exact fun hmem => (List.mem_cons.mp hmem).elim hne hsep
      · exact ih (hd ▸ List.mem_cons_of_mem d h)

theorem canonical_eq_flatMap {cs : List Path} (h : cs ≠ []) :
    canonical cs = cs.flatMap (separator :: ·) := by
  induction cs with
  | nil => exact absurd rfl h
  | cons c cs ih =>
    cases cs with
    | nil => simp [canonical, List.intercalate]
    | cons d cs =>
      rw [List.flatMap_cons, ← ih (by simp)]
      simp [canonical, List.intercalate, List.intersperse]

theorem separators_append (p q : Path) :
    separators (p ++ q) = separators p ++ (separators q).map (p.length + ·) := by
  unfold separators
  rw [List.length_append, List.range_add, List.filter_append, List.filter_map]
  congr 1
  · apply List.filter_congr
    intro i hi
    rw [List.getElem?_append_left (List.mem_range.mp hi)]
  · congr 1
    apply List.filter_congr
    intro i _
    simp [List.getElem?_append_right]

theorem separators_component {c : Path} (hc : separator ∉ c) :
    separators (separator :: c) = [0] := by
  have hnone : separators c = [] := by
    unfold separators
    apply List.filter_eq_nil_iff.mpr
    intro i _ hi
    exact hc (List.mem_of_getElem? (of_decide_eq_true hi))
  have happ := separators_append [separator] c
  rw [hnone] at happ
  simpa [separators] using happ

/-- The separators of a path stand where its ancestors end. -/
theorem separators_flatMap {cs : List Path} (h : ∀ c ∈ cs, separator ∉ c) :
    separators (cs.flatMap (separator :: ·)) =
      (List.range cs.length).map (fun j => ((cs.take j).flatMap (separator :: ·)).length) := by
  induction cs with
  | nil => rfl
  | cons c cs ih =>
    have hlen : (c :: cs).length = cs.length + 1 := rfl
    rw [List.flatMap_cons, separators_append, separators_component (h c (by simp)),
      ih fun d hd => h d (by simp [hd]), hlen, List.range_succ_eq_map]
    simp [Function.comp_def]

theorem take_flatMap (cs : List Path) (j : Nat) :
    (cs.flatMap (separator :: ·)).take ((cs.take j).flatMap (separator :: ·)).length =
      (cs.take j).flatMap (separator :: ·) := by
  conv_lhs => rw [← List.take_append_drop j cs, List.flatMap_append]
  rw [List.take_append_drop, List.take_left]

theorem take_succ_flatMap {cs : List Path} {j : Nat} (hj : j < cs.length) :
    (cs.flatMap (separator :: ·)).take (((cs.take j).flatMap (separator :: ·)).length + 1) =
      (cs.take j).flatMap (separator :: ·) ++ [separator] := by
  have hsplit : cs.flatMap (separator :: ·) = (cs.take j).flatMap (separator :: ·) ++
      (separator :: cs[j] ++ (cs.drop (j + 1)).flatMap (separator :: ·)) := by
    conv_lhs => rw [← List.take_append_drop j cs, List.drop_eq_getElem_cons hj]
    rw [List.flatMap_append, List.flatMap_cons]
  rw [hsplit, List.take_append, Nat.add_sub_cancel_left, List.take_of_length_le (by omega)]
  rfl

/-- Where the `j`th ancestor of a path ends. -/
def ancestor_end (path : Path) (j : Nat) : Nat :=
  (((components path).take j).flatMap (separator :: ·)).length

section Ancestors

variable {path : Path} (h : path.head? = some separator)
include h

theorem flatMap_components : (components path).flatMap (separator :: ·) = path := by
  have hne : components path ≠ [] := List.splitOn_ne_nil _ _
  rw [← canonical_eq_flatMap hne, canonical_components h]

theorem separators_eq :
    separators path = (List.range (components path).length).map (ancestor_end path) := by
  conv_lhs => rw [← flatMap_components h]
  exact separators_flatMap fun c hc => separator_notMem hc

variable {j : Nat} (hj : j < (components path).length) (h0 : j ≠ 0)
include hj h0

omit h hj in
theorem canonical_take :
    canonical ((components path).take j) =
      ((components path).take j).flatMap (separator :: ·) := by
  apply canonical_eq_flatMap
  rw [ne_eq, List.take_eq_nil_iff]
  simp [h0, components, List.splitOn_ne_nil]

omit hj in
theorem take_ancestor_end :
    path.take (ancestor_end path j) = canonical ((components path).take j) := by
  have htake := take_flatMap (components path) j
  rw [flatMap_components h] at htake
  rw [canonical_take h0, ← htake, ancestor_end]

theorem take_ancestor_end_succ :
    path.take (ancestor_end path j + 1) =
      canonical ((components path).take j) ++ [separator] := by
  have htake := take_succ_flatMap hj
  rw [flatMap_components h] at htake
  rw [canonical_take h0, ← htake, ancestor_end]

end Ancestors

/-- The ancestors of a path, from the root on, are found under their own names if and only
if there are two of them at most. -/
theorem ancestors_canonical_iff {path : Path} (h : path.head? = some separator)
    (hlast : path.getLast? ≠ some separator) :
    (∃ file_tree, split_path path = some file_tree ∧
      ∀ j < (components path).length,
        file_tree[j]? = some (canonical ((components path).take j))) ↔
      (components path).length ≤ 2 := by
  have hlen : path.length ≠ 1 := by
    intro h1
    obtain ⟨a, rfl⟩ := List.length_eq_one_iff.mp h1
    exact hlast h
  have hseps := separators_eq h
  have hzero : ancestor_end path 0 = 0 := rfl
  match hn : (components path).length with
  | 0 => exact absurd (List.eq_nil_of_length_eq_zero hn) (List.splitOn_ne_nil _ _)
  | 1 =>
    rw [hn, List.range_one, List.map_singleton, hzero] at hseps
    simp [split_path, hseps, hlen, canonical]
  | 2 =>
    have h1 := take_ancestor_end h one_ne_zero
    rw [hn, show List.range 2 = [0, 1] from rfl, List.map_cons, List.map_singleton, hzero]
      at hseps
    simp only [split_path, hseps, hlen, if_false, h1, List.map_nil]
    refine iff_of_true ?_ le_rfl
    split_ifs
    all_goals
      refine ⟨_, rfl, fun j hj => ?_⟩
      interval_cases j <;> simp [canonical]
  | n + 3 =>
    -- the third prefix keeps its separator
    have h2 := take_ancestor_end_succ h (j := 2) (by omega) two_ne_zero
    obtain ⟨e, es, hes⟩ : ∃ e es, separators path = 0 :: e :: ancestor_end path 2 :: es := by
      rw [hseps, hn, List.range_succ_eq_map, List.range_succ_eq_map, List.range_succ_eq_map]
      exact ⟨_, _, rfl⟩
    refine iff_of_false ?_ (by omega)
    rintro ⟨file_tree, hft, hall⟩
    have hthird := hall 2 (by omega)
    simp only [split_path, hes, hlen, if_false, List.map_cons, h2] at hft
    have hget : file_tree[2]? = some (canonical ((components path).take 2) ++ [separator]) := by
      split_ifs at hft <;> (obtain rfl := Option.some.inj hft; rfl)
    rw [hthird] at hget
    exact absurd (congrArg List.length (Option.some.inj hget)) (by simp)

theorem ancestors_canonical_two : ∃ file_tree, split_path [47, 97, 47, 98] = some file_tree ∧
    ∀ j < (components [47, 97, 47, 98]).length,
      file_tree[j]? = some (canonical ((components [47, 97, 47, 98]).take j)) :=
  (ancestors_canonical_iff (by decide) (by decide)).mpr (by decide)

/-- For `/a/b/c` the lock of the directory `/a/b` is looked up as `/a/b/`. -/
theorem ancestor_with_separator : ¬ ∃ file_tree,
    split_path [47, 97, 47, 98, 47, 99] = some file_tree ∧
      ∀ j < (components [47, 97, 47, 98, 47, 99]).length,
        file_tree[j]? = some (canonical ((components [47, 97, 47, 98, 47, 99]).take j)) := by
  rintro ⟨file_tree, hft, hall⟩
  have hsplit : split_path [47, 97, 47, 98, 47, 99] =
      some [[47], [47, 97], [47, 97, 47, 98, 47], [47, 97, 47, 98, 47, 99]] := by decide
  obtain rfl := Option.some.inj (hsplit.symm.trans hft)
  exact absurd (hall 2 (by decide)) (by decide)

end LaLiga.Rfs
