import LaLiga.Rfs.DirectoryBlocks
import LaLiga.Rfs.DirectoryOperations

/-! The inode of a path, by the walk through the tree of directories. -/
namespace LaLiga.Rfs

open LaLiga.Lib

/-- A component of a path. -/
def Component (name : Path) : Prop := name ≠ [] ∧ separator ∉ name

/-- The path of a directory on the way: from the second component on with its separator. -/
def directory_path (names : List Path) : Path :=
  if 2 ≤ names.length then canonical names ++ [separator] else canonical names

/-- The path is split into the root and one path for each name, which it ends in. -/
def Spells (path : Path) (names : List Path) : Prop :=
  ∃ sub_paths, split_path path = some ([separator] :: sub_paths) ∧
    List.Forall₂ (fun path name => active_file_get_file_name path = .ok name) sub_paths names

variable (c : Superblock_constants)

/-- The inode `i` is a well formed directory that lists `es`, each one with an inode of the
image. -/
def Directory_at (fs : Image) (i : Nat) (es : List entry_t) : Prop :=
  ∃ live ds, Directory c live i ds fs ∧ es = listing ds ∧
    ∀ e ∈ es, Inode_locateGroup c e.inode_number < c.TOTAL_GROUPS

/-- The walk along the names goes from the inode `i` to the inode `j`. -/
inductive Leads (fs : Image) : Nat → List Path → Nat → Prop
  | here {i : Nat} : Leads fs i [] i
  | down {i j : Nat} {e : entry_t} {es : List entry_t} {names : List Path} : Directory_at c fs i es →
      e ∈ es → Leads fs e.inode_number names j → Leads fs i (e.file_name :: names) j

/-- What the walk along a proper prefix of the names comes to is a directory. -/
def Directories_along (fs : Image) (i : Nat) (names : List Path) : Prop :=
  ∀ front rest, front ++ rest = names → rest ≠ [] →
    ∀ j, Leads c fs i front j → ∃ es, Directory_at c fs j es

variable {c}

section Names

variable {path p q name : Path} {names : List Path}

theorem parts_append : ((p ++ separator :: q).splitOn separator).filter (· ≠ []) =
    (p.splitOn separator).filter (· ≠ []) ++ (q.splitOn separator).filter (· ≠ []) := by
  rw [List.splitOn_append_cons_self, List.filter_append]

theorem parts_component (h : Component name) :
    (name.splitOn separator).filter (· ≠ []) = [name] := by
  have hsplit : ([separator].intercalate [name]).splitOn separator = [name] :=
    List.splitOn_intercalate separator (by simpa using h.2) (by simp)
  rw [show [separator].intercalate [name] = name by simp [List.intercalate]] at hsplit
  rw [hsplit]
  simp [h.1]

/-- The parts of the path of `names`. -/
theorem parts_flatMap (h : ∀ name ∈ names, Component name) :
    ((names.flatMap (separator :: ·)).splitOn separator).filter (· ≠ []) = names := by
  induction names using List.reverseRecOn with
  | nil => rfl
  | append_singleton names name ih =>
    rw [List.flatMap_append, List.flatMap_singleton, parts_append,
      ih fun d hd => h d (by simp [hd]), parts_component (h name (by simp))]

/-- The path of a directory, with a separator at its end or without one. -/
theorem file_name_of (hpath : path = names.flatMap (separator :: ·) ∨
      path = names.flatMap (separator :: ·) ++ [separator])
    (h : ∀ name ∈ names, Component name) (hlast : names.getLast? = some name) :
    active_file_get_file_name path = .ok name := by
  have hparts : (path.splitOn separator).filter (· ≠ []) = names := by
    rcases hpath with rfl | rfl
    · exact parts_flatMap h
    · rw [parts_append, parts_flatMap h]
      simp
  have hlong : path.length ≠ 1 := by
    intro hone
    obtain ⟨a, rfl⟩ := List.length_eq_one_iff.mp hone
    obtain ⟨init, rfl⟩ := List.getLast?_eq_some_iff.mp hlast
    have hne := (h name (by simp)).1
    have hpos := List.length_pos_of_ne_nil hne
    rcases hpath with hp | hp
    all_goals
      have hlen := congrArg List.length hp
      simp only [List.length_cons, List.length_nil, List.flatMap_append, List.flatMap_singleton,
        List.length_append] at hlen
      omega
  unfold active_file_get_file_name
  rw [if_neg hlong, hparts, hlast]
  rfl

theorem components_canonical (hne : names ≠ []) (h : ∀ name ∈ names, Component name) :
    components (canonical names) = names :=
  List.splitOn_intercalate separator (fun name hname => (h name hname).2) hne

/-- An ancestor ends before the last component, which is not empty. -/
theorem ancestor_end_lt (h : ∀ name ∈ names, Component name) {j : Nat} (hj : j < names.length) :
    ancestor_end (canonical names) j + 1 < (canonical names).length := by
  have hne : names ≠ [] := List.ne_nil_of_length_pos (by omega)
  have hpos := List.length_pos_of_ne_nil (h _ (List.getElem_mem hj)).1
  rw [ancestor_end, components_canonical hne h, canonical_eq_flatMap hne]
  conv_rhs => rw [← List.take_append_drop j names, List.drop_eq_getElem_cons hj]
  simp only [List.flatMap_append, List.flatMap_cons, List.length_append, List.length_cons]
  omega

theorem directory_path_long (h : 2 ≤ names.length) :
    directory_path names = canonical names ++ [separator] := if_pos h

theorem directory_path_name (hne : names ≠ []) (h : ∀ name ∈ names, Component name)
    (hlast : names.getLast? = some name) :
    active_file_get_file_name (directory_path names) = .ok name := by
  refine file_name_of ?_ h hlast
  rw [← canonical_eq_flatMap hne]
  unfold directory_path
  split_ifs
  · exact Or.inr rfl
  · exact Or.inl rfl

section Ancestors

variable (h : ∀ name ∈ names, Component name) {k : Nat} (hk : k < names.length)
include h hk

theorem directory_path_take (h0 : k ≠ 0) : directory_path (names.take k) =
    (canonical names).take (ancestor_end (canonical names) k + if 2 ≤ k then 1 else 0) := by
  have hne : names ≠ [] := List.ne_nil_of_length_pos (by omega)
  have hcomponents := components_canonical hne h
  have hhead : (canonical names).head? = some separator := rfl
  unfold directory_path
  rw [List.length_take_of_le hk.le]
  split_ifs with h2
  · rw [take_ancestor_end_succ hhead (by rwa [hcomponents]) h0, hcomponents]
  · rw [Nat.add_zero, take_ancestor_end hhead h0, hcomponents]

theorem directory_path_short :
    (directory_path (names.take k)).length < (canonical names).length := by
  have hend := ancestor_end_lt h hk
  cases k with
  | zero =>
    have hone : (directory_path (names.take 0)).length = 1 := rfl
    omega
  | succ k =>
    rw [directory_path_take h hk (Nat.succ_ne_zero k), List.length_take]
    split_ifs <;> omega

end Ancestors

/-- The separators of the path of two components or more. -/
theorem separators_two {n : Nat} (h : ∀ name ∈ names, Component name) (hn : names.length = n + 2) :
    separators (canonical names) = 0 :: ancestor_end (canonical names) 1 ::
      (List.range n).map fun j => ancestor_end (canonical names) (j + 2) := by
  have hne : names ≠ [] := List.ne_nil_of_length_pos (by omega)
  have hzero : ancestor_end (canonical names) 0 = 0 := rfl
  rw [separators_eq rfl, components_canonical hne h, hn, List.range_succ_eq_map,
    List.range_succ_eq_map, List.map_cons, List.map_cons, List.map_cons, List.map_map,
    List.map_map, hzero]
  rfl

/-- The paths of the directories on the way, from the root on. -/
theorem directories_two {n : Nat} (h : ∀ name ∈ names, Component name)
    (hn : names.length = n + 2) :
    (List.range (n + 2)).map (fun k => directory_path (names.take k)) =
      [separator] :: (canonical names).take (ancestor_end (canonical names) 1) ::
        (List.range n).map fun j =>
          (canonical names).take (ancestor_end (canonical names) (j + 2) + 1) := by
  rw [List.range_succ_eq_map, List.range_succ_eq_map, List.map_cons, List.map_cons,
    List.map_cons, List.map_map, List.map_map]
  have hone : directory_path (names.take 1) =
      (canonical names).take (ancestor_end (canonical names) 1) :=
    directory_path_take h (by omega) one_ne_zero
  rw [← hone]
  congr 2
  · apply List.map_congr_left
    intro j hj
    have hj := List.mem_range.mp hj
    rw [Function.comp_apply, Function.comp_apply,
      directory_path_take h (by omega) (Nat.succ_ne_zero _), if_pos (by omega)]

/-- The directories above a path, and the path. -/
theorem split_path_canonical (hne : names ≠ []) (h : ∀ name ∈ names, Component name) :
    split_path (canonical names) =
      some ((List.range names.length).map (fun k => directory_path (names.take k)) ++
        [canonical names]) := by
  have hlong : (canonical names).length ≠ 1 := by
    have := ancestor_end_lt h (List.length_pos_of_ne_nil hne)
    omega
  rcases names with _ | ⟨name, _ | ⟨name', names⟩⟩
  · exact absurd rfl hne
  · have hseps : separators (canonical [name]) = [0] := by
      rw [separators_eq rfl, components_canonical hne h]
      rfl
    simp only [split_path, hseps, hlong, if_false]
    rfl
  · have hn : (name :: name' :: names).length = names.length + 2 := rfl
    have hlast : ∀ path ∈ (List.range (names.length + 2)).map
        (fun k => directory_path ((name :: name' :: names).take k)),
        path ≠ canonical (name :: name' :: names) := by
      intro path hpath heq
      obtain ⟨k, hk, rfl⟩ := List.mem_map.mp hpath
      exact absurd (congrArg List.length heq)
        (Nat.ne_of_lt (directory_path_short h (List.mem_range.mp hk)))
    rw [hn, directories_two h hn]
    rw [directories_two h hn] at hlast
    simp only [split_path, separators_two h hn, hlong, if_false, List.map_map, Function.comp_def]
    rw [if_neg fun heq => hlast _ (List.mem_of_getLast? heq) rfl]

/-- The same for the path of a directory on the way. -/
theorem split_path_directory (h : ∀ name ∈ names, Component name) :
    split_path (directory_path names) =
      some ((List.range (names.length + 1)).map fun k => directory_path (names.take k)) := by
  have hdirectories : (List.range (names.length + 1)).map (fun k => directory_path (names.take k)) =
      (List.range names.length).map (fun k => directory_path (names.take k)) ++
        [directory_path names] := by
    rw [List.range_succ, List.map_append, List.map_singleton, List.take_length]
  rw [hdirectories]
  rcases hnames : names with _ | ⟨name, _ | ⟨name', rest⟩⟩
  · rfl
  · subst hnames
    exact split_path_canonical (by simp) h
  · rw [← hnames]
    have hn : names.length = rest.length + 2 := by rw [hnames]; rfl
    have hpath := directory_path_long (show 2 ≤ names.length by omega)
    have hlong : (directory_path names).length ≠ 1 := by
      have := ancestor_end_lt h (j := 0) (by omega)
      rw [hpath, List.length_append, List.length_singleton]
      omega
    have hseps : separators (directory_path names) =
        0 :: ancestor_end (canonical names) 1 ::
          ((List.range rest.length).map (fun j => ancestor_end (canonical names) (j + 2)) ++
            [(canonical names).length]) := by
      rw [hpath, separators_append, separators_two h hn]
      rfl
    have htake : ∀ j < names.length, ∀ k ≤ 1,
        (directory_path names).take (ancestor_end (canonical names) j + k) =
          (canonical names).take (ancestor_end (canonical names) j + k) := by
      intro j hj k hk
      have := ancestor_end_lt h hj
      rw [hpath, List.take_append_of_le_length (by omega)]
    have hwhole : (directory_path names).take ((canonical names).length + 1) =
        directory_path names := by
      rw [List.take_of_length_le (by rw [hpath]; simp)]
    rw [hn, directories_two h hn]
    simp only [split_path, hseps, hlong, if_false, List.map_append, List.map_map,
      Function.comp_def, List.map_singleton, hwhole]
    rw [if_pos (by simp [List.getLast?_cons])]
    have hone := htake 1 (by omega) 0 (by omega)
    rw [Nat.add_zero] at hone
    rw [hone, List.cons_append, List.cons_append]
    congr 4
    apply List.map_congr_left
    intro j hj
    exact htake (j + 2) (by have := List.mem_range.mp hj; omega) 1 le_rfl

theorem file_name_canonical (h : ∀ d ∈ names ++ [name], Component d) :
    active_file_get_file_name (canonical (names ++ [name])) = .ok name :=
  file_name_of (Or.inl (canonical_eq_flatMap (by simp))) h List.getLast?_concat

/-- The directories on the way end in the names. -/
theorem directory_paths_names (h : ∀ name ∈ names, Component name) :
    List.Forall₂ (fun path name => active_file_get_file_name path = .ok name)
      ((List.range names.length).map fun k => directory_path (names.take (k + 1))) names := by
  refine List.forall₂_iff_get.mpr ⟨by simp, ?_⟩
  intro k hk hk'
  rw [List.get_eq_getElem, List.get_eq_getElem, List.getElem_map, List.getElem_range]
  refine directory_path_name (by simp; exact List.ne_nil_of_length_pos (by omega))
    (fun name hin => h name (List.mem_of_mem_take hin)) ?_
  rw [List.take_succ_eq_append_getElem hk', List.getLast?_concat]

theorem directory_path_spells (h : ∀ name ∈ names, Component name) :
    Spells (directory_path names) names := by
  refine ⟨_, ?_, directory_paths_names h⟩
  rw [split_path_directory h, List.range_succ_eq_map, List.map_cons, List.map_map]
  rfl

theorem canonical_spells (h : ∀ name ∈ names, Component name) :
    Spells (canonical names) names := by
  induction names using List.reverseRecOn with
  | nil => exact ⟨[], rfl, .nil⟩
  | append_singleton names name ih =>
    clear ih
    have hdirs := directory_paths_names fun d hd => h d (List.mem_append_left [name] hd)
    refine ⟨(List.range names.length).map (fun k => directory_path (names.take (k + 1))) ++
      [canonical (names ++ [name])], ?_, List.rel_append hdirs (.cons ?_ .nil)⟩
    · rw [split_path_canonical (by simp) h, List.length_append, List.length_singleton,
        List.range_succ_eq_map, List.map_cons, List.map_map, List.cons_append]
      congr 3
      apply List.map_congr_left
      intro k hk
      have hk := List.mem_range.mp hk
      rw [Function.comp_apply, List.take_append_of_le_length hk]
    · exact file_name_canonical h

theorem parent_path_canonical (h : ∀ d ∈ names ++ [name], Component d) :
    parent_path (canonical (names ++ [name])) = .ok (directory_path names) := by
  have hlen : (names ++ [name]).length = names.length + 1 := by simp
  have hsplit := split_path_canonical (by simp) h
  rw [hlen] at hsplit
  have hnone : ((List.range (names.length + 1)).map fun k =>
      directory_path ((names ++ [name]).take k)).findIdx?
        (fun p => p.take (canonical (names ++ [name])).length = canonical (names ++ [name])) =
      none := by
    apply List.findIdx?_eq_none_iff.mpr
    intro p hp
    obtain ⟨k, hk, rfl⟩ := List.mem_map.mp hp
    have hshort := directory_path_short h (k := k) (by rw [hlen]; exact List.mem_range.mp hk)
    apply decide_eq_false
    intro heq
    have hlong := congrArg List.length heq
    rw [List.length_take] at hlong
    omega
  have hlast : [canonical (names ++ [name])].findIdx?
      (fun p => p.take (canonical (names ++ [name])).length = canonical (names ++ [name])) =
      some 0 := by
    simp
  have hzero : Nat.add 0 names.length = names.length := Nat.zero_add _
  unfold parent_path
  rw [hsplit]
  dsimp only
  rw [List.findIdx?_append, hnone, hlast, List.length_map, List.length_range]
  change Except.ok _ = _
  rw [List.getD_append _ _ _ _ (by simp), List.getD_eq_getElem _ _ (by simp), List.getElem_map,
    List.getElem_range, hzero, List.take_left]

end Names

section Walk

variable {fs : Image} {i j : Nat} {e : entry_t} {es es' : List entry_t} {name : Path}
  {names sub_paths : List Path} {w : Worker_state}

theorem Leads.nil_iff : Leads c fs i [] j ↔ j = i := by
  constructor
  · intro h
    cases h
    rfl
  · rintro rfl
    exact .here

/-- A step more at the end of a walk. -/
theorem Leads.snoc (h : Leads c fs i names j) (hes : Directory_at c fs j es) (he : e ∈ es) :
    Leads c fs i (names ++ [e.file_name]) e.inode_number := by
  induction h with
  | here => exact .down hes he .here
  | down hes' he' _ ih => exact .down hes' he' (ih hes)

theorem Directory_at.fits (h : Directory_at c fs i es) : ∀ e ∈ es, e.Fits := by
  obtain ⟨live, ds, hdir, rfl, -⟩ := h
  intro e he
  obtain ⟨d, hd, hin⟩ := List.mem_flatMap.mp (List.mem_filter.mp he).1
  exact (hdir.chain d hd).fits e hin

/-- There is one entry of a name at most. -/
theorem Directory_at.inj (h : Directory_at c fs i es) {e' : entry_t} (he : e ∈ es) (he' : e' ∈ es)
    (hname : e.file_name = e'.file_name) : e = e' := by
  obtain ⟨live, ds, hdir, rfl, -⟩ := h
  exact List.inj_on_of_nodup_map hdir.names he he' hname

theorem Directories_along.down (h : Directories_along c fs i (e.file_name :: names))
    (hes : Directory_at c fs i es) (he : e ∈ es) : Directories_along c fs e.inode_number names := by
  intro front rest hsplit hrest j hj
  exact h (e.file_name :: front) rest (by rw [List.cons_append, hsplit]) hrest j (.down hes he hj)

variable (hsize : Ext2_size c) (hpool : Pool c fs)
include hsize hpool

theorem Directory_at.read (h : Directory_at c fs i es) : read_directory c fs (fs.inode i) = .ok es := by
  obtain ⟨live, ds, hdir, rfl, -⟩ := h
  exact hdir.linked.read hsize hpool

theorem Directory_at.unique (h : Directory_at c fs i es) (h' : Directory_at c fs i es') : es = es' :=
  Except.ok.inj ((h.read hsize hpool).symm.trans (h'.read hsize hpool))

/-- The walk takes the only entry of the next name. -/
theorem Leads.cons_iff (h : Directory_at c fs i es) : Leads c fs i (name :: names) j ↔
    ∃ e ∈ es, e.file_name = name ∧ Leads c fs e.inode_number names j := by
  constructor
  · intro hwalk
    cases hwalk with
    | down hes he hrest =>
      obtain rfl := hes.unique hsize hpool h
      exact ⟨_, he, rfl, hrest⟩
  · rintro ⟨e, he, rfl, hrest⟩
    exact .down h he hrest

omit hsize hpool in
theorem Directory_at.named_iff (h : Directory_at c fs i es) (he : e ∈ es) :
    e.named name ↔ e.file_name = name := by
  constructor
  · exact fun hnamed => hnamed.2
  · rintro rfl
    exact ⟨(h.fits e he).file_name.symm, rfl⟩

omit hsize hpool in
theorem Inode_Global_Read_eq (h : Inode_locateGroup c i < c.TOTAL_GROUPS) :
    Inode_Global_Read c i = .ok i := by
  unfold Inode_Global_Read
  rw [if_pos h]
  rfl

section Search

variable {path : Path} {sub_paths : List Path}
  (hpath : active_file_get_file_name path = .ok name)
include hpath

omit hsize hpool in
theorem search_in_directory_none (hfind : es.find? (fun e => e.named name) = none) :
    search_in_directory c fs (path :: sub_paths) es = .ok 0 := by
  rw [search_in_directory, hpath, ok_bind]
  simp only [hfind]
  rfl

omit hsize hpool in
theorem search_in_directory_last (hfind : es.find? (fun e => e.named name) = some e) :
    search_in_directory c fs [path] es = .ok e.inode_number := by
  rw [search_in_directory, hpath, ok_bind]
  simp only [hfind]
  rfl

theorem search_in_directory_down (hfind : es.find? (fun e => e.named name) = some e)
    (hne : sub_paths ≠ []) (hgroup : Inode_locateGroup c e.inode_number < c.TOTAL_GROUPS)
    (hes : Directory_at c fs e.inode_number es') :
    search_in_directory c fs (path :: sub_paths) es = search_in_directory c fs sub_paths es' := by
  rw [search_in_directory, hpath, ok_bind]
  simp only [hfind]
  rw [if_neg hne, Inode_Global_Read_eq hgroup]
  change (read_directory c fs (fs.inode e.inode_number) >>= _) = _
  rw [hes.read hsize hpool]
  rfl

end Search

/-- The search follows the walk, and returns 0 where there is none. -/
theorem search_in_directory_walk (hpaths : List.Forall₂
      (fun path name => active_file_get_file_name path = .ok name) sub_paths names)
    (hne : names ≠ []) (hes : Directory_at c fs i es) (hdirs : Directories_along c fs i names) :
    (∀ j, Leads c fs i names j →
        j ≠ 0 ∧ Inode_locateGroup c j < c.TOTAL_GROUPS ∧
          search_in_directory c fs sub_paths es = .ok j) ∧
      ((∀ j, ¬ Leads c fs i names j) → search_in_directory c fs sub_paths es = .ok 0) := by
  induction hpaths generalizing i es with
  | nil => exact absurd rfl hne
  | @cons path name sub_paths names hpath hrest ih =>
    have hnumbers := hes.choose_spec.choose_spec.2.2
    cases hfind : es.find? (fun e => e.named name) with
    | none =>
      have hnone := List.find?_eq_none.mp hfind
      refine ⟨fun j hj => ?_, fun _ => search_in_directory_none hpath hfind⟩
      obtain ⟨e, he, hname, -⟩ := (Leads.cons_iff hsize hpool hes).mp hj
      exact absurd ((hes.named_iff he).mpr hname) (by simpa using hnone e he)
    | some e =>
      have he := List.mem_of_find?_eq_some hfind
      have hnamed : e.named name := by simpa using List.find?_some hfind
      have hname : e.file_name = name := (hes.named_iff he).mp hnamed
      have hstep : ∀ j, Leads c fs i (name :: names) j ↔ Leads c fs e.inode_number names j := by
        intro j
        rw [Leads.cons_iff hsize hpool hes]
        constructor
        · rintro ⟨e', he', hname', hwalk⟩
          rwa [hes.inj he he' (hname.trans hname'.symm)]
        · exact fun hwalk => ⟨e, he, hname, hwalk⟩
      have hused : e.inode_number ≠ 0 := by
        obtain ⟨live, ds, -, rfl, -⟩ := hes
        simpa using (List.mem_filter.mp he).2
      simp only [hstep]
      cases hrest with
      | nil =>
        refine ⟨fun j hj => ?_, fun hno => absurd .here (hno _)⟩
        obtain rfl := Leads.nil_iff.mp hj
        exact ⟨hused, hnumbers e he, search_in_directory_last hpath hfind⟩
      | cons hpath' hrest' =>
        subst hname
        have hbelow := hdirs.down hes he
        obtain ⟨es', hes'⟩ := hbelow [] _ rfl (by simp) _ .here
        rw [search_in_directory_down hsize hpool hpath hfind (by simp) (hnumbers e he) hes']
        exact ih (by simp) hes' hbelow

omit hsize hpool in
theorem inode_of_file_root {path : Path} (hsplit : split_path path = some [[separator]]) :
    inode_of_file c path w = .ok (some ROOT_INODE_NUMBER, w) := by
  unfold inode_of_file
  rw [hsplit]
  rfl

omit hsize hpool in
/-- Below the root the result is what the search comes to. -/
theorem inode_of_file_below {path : Path} {n : Nat}
    (hsplit : split_path path = some ([separator] :: sub_paths)) (hne : sub_paths ≠ [])
    (hread : read_directory c w.file (w.file.inode ROOT_INODE_NUMBER) = .ok es)
    (hsearch : search_in_directory c w.file sub_paths es = .ok n) :
    (n = 0 → inode_of_file c path w = .ok (none, { w with errno := some .ENOENT })) ∧
      (n ≠ 0 → Inode_locateGroup c n < c.TOTAL_GROUPS →
        inode_of_file c path w = .ok (some n, w)) := by
  have hlong : ([separator] :: sub_paths).length ≠ 1 := by
    simpa using hne
  unfold inode_of_file
  rw [hsplit]
  dsimp only
  rw [if_neg hlong, hread, List.tail_cons]
  change (n = 0 → (search_in_directory c w.file sub_paths es >>= _) = _) ∧
    (n ≠ 0 → _ → (search_in_directory c w.file sub_paths es >>= _) = _)
  rw [hsearch]
  constructor
  · rintro rfl
    rfl
  · intro hused hgroup
    change (if n = 0 then _ else _) = _
    rw [if_neg hused, Inode_Global_Read_eq hgroup]
    rfl

omit hsize hpool in
/-- The inode of a path that is spelled by names is where their walk from the root comes to. -/
theorem inode_of_file_spelled {path : Path} (hsize : Ext2_size c) (hpool : Pool c w.file)
    (hpath : Spells path names) (hdirs : Directories_along c w.file ROOT_INODE_NUMBER names) :
    (∀ j, inode_of_file c path w = .ok (some j, w) ↔ Leads c w.file ROOT_INODE_NUMBER names j) ∧
    (inode_of_file c path w = .ok (none, { w with errno := some .ENOENT }) ↔
      ∀ j, ¬ Leads c w.file ROOT_INODE_NUMBER names j) := by
  obtain ⟨sub_paths, hsplit, hpaths⟩ := hpath
  by_cases hne : names = []
  · subst hne
    obtain rfl := List.forall₂_nil_right_iff.mp hpaths
    rw [inode_of_file_root hsplit]
    refine ⟨fun j => ?_, ?_⟩
    · rw [Leads.nil_iff]
      constructor
      · intro h
        exact (Option.some.inj (congrArg Prod.fst (Except.ok.inj h))).symm
      · rintro rfl
        rfl
    · refine iff_of_false (fun h => ?_) (fun h => h _ .here)
      exact Option.some_ne_none _ (congrArg Prod.fst (Except.ok.inj h))
  obtain ⟨es, hes⟩ := hdirs [] names rfl hne _ .here
  have hsub : sub_paths ≠ [] := by
    rintro rfl
    exact hne (List.forall₂_nil_left_iff.mp hpaths)
  obtain ⟨hfound, hmissing⟩ := search_in_directory_walk hsize hpool hpaths hne hes hdirs
  have hbelow := fun n => inode_of_file_below (n := n) hsplit hsub (hes.read hsize hpool)
  by_cases hsome : ∃ j, Leads c w.file ROOT_INODE_NUMBER names j
  · obtain ⟨j, hj⟩ := hsome
    obtain ⟨hused, hgroup, hsearch⟩ := hfound j hj
    rw [(hbelow j hsearch).2 hused hgroup]
    refine ⟨fun j' => ⟨fun h => ?_, fun hj' => ?_⟩, ?_⟩
    · obtain rfl := Option.some.inj (congrArg Prod.fst (Except.ok.inj h))
      exact hj
    · obtain ⟨-, -, hsearch'⟩ := hfound j' hj'
      rw [Except.ok.inj (hsearch.symm.trans hsearch')]
    · refine iff_of_false (fun h => ?_) (fun h => h j hj)
      exact Option.some_ne_none _ (congrArg Prod.fst (Except.ok.inj h))
  · have hnone : ∀ j, ¬ Leads c w.file ROOT_INODE_NUMBER names j := not_exists.mp hsome
    rw [(hbelow 0 (hmissing hnone)).1 rfl]
    refine ⟨fun j => iff_of_false (fun h => ?_) (hnone j), iff_of_true rfl hnone⟩
    exact Option.some_ne_none _ (congrArg Prod.fst (Except.ok.inj h)).symm

omit hsize hpool in
/-- Path resolution is the walk from the root along the components. -/
theorem inode_of_file_walk (hsize : Ext2_size c) (hpool : Pool c w.file)
    (hnames : ∀ name ∈ names, Component name)
    (hdirs : Directories_along c w.file ROOT_INODE_NUMBER names) :
    (∀ j, inode_of_file c (canonical names) w = .ok (some j, w) ↔
      Leads c w.file ROOT_INODE_NUMBER names j) ∧
    (inode_of_file c (canonical names) w = .ok (none, { w with errno := some .ENOENT }) ↔
      ∀ j, ¬ Leads c w.file ROOT_INODE_NUMBER names j) :=
  inode_of_file_spelled hsize hpool (canonical_spells hnames) hdirs

end Walk

/-- `.` and `..` of the directory `i` in the root, and one more entry. -/
def small_directory (i : Nat) (e : entry_t) : List entry_t :=
  [⟨i, 12, 1, 2, [46]⟩, ⟨2, 12, 2, 2, [46, 46]⟩, e]

/-- Their block. -/
def small_block (i : Nat) (e : entry_t) : Bytes :=
  copy_entry (copy_entry (copy_entry (fun _ => 0) 0 ⟨i, 12, 1, 2, [46]⟩) 12
    ⟨2, 12, 2, 2, [46, 46]⟩) 24 e

/-- The directories 2 and 5 in the blocks 3 and 4: `a` in the root, and `b` in `a`. -/
def two_directories : Image :=
  { small_file with
    inode := fun n => if n = 2 then one_block_inode (one_group 0 (by decide)) 3
      else if n = 5 then one_block_inode (one_group 0 (by decide)) 4
      else ⟨0, 0, 0, 0, fun _ => 0, 0, 0, 0⟩
    block := fun b => if b = 3 then small_block 2 ⟨5, 1000, 1, 2, [97]⟩
      else if b = 4 then small_block 5 ⟨6, 1000, 1, 1, [98]⟩
      else fun _ => 0 }

theorem two_directories_root : Directory_at (one_group 0 (by decide)) two_directories 2
    (small_directory 2 ⟨5, 1000, 1, 2, [97]⟩) := by
  have hsound : ∀ e ∈ small_directory 2 ⟨5, 1000, 1, 2, [97]⟩,
      e.entry_len % 4 = 0 ∧ get_padded_size e ≤ e.entry_len := by decide
  have hchain : Chain (flat (one_group 0 (by decide)) two_directories) 4096 3072
    (small_directory 2 ⟨5, 1000, 1, 2, [97]⟩) := ⟨rfl, rfl, rfl, rfl⟩
  exact ⟨_, _, one_block_directory (b := 3) rfl (Or.inl rfl) ⟨by decide, by decide⟩ (by decide)
    hchain (fun e he => ⟨(hsound e he).1, (hsound e he).2⟩) (by decide), by decide, by decide⟩

theorem two_directories_a : Directory_at (one_group 0 (by decide)) two_directories 5
    (small_directory 5 ⟨6, 1000, 1, 1, [98]⟩) := by
  have hsound : ∀ e ∈ small_directory 5 ⟨6, 1000, 1, 1, [98]⟩,
      e.entry_len % 4 = 0 ∧ get_padded_size e ≤ e.entry_len := by decide
  have hchain : Chain (flat (one_group 0 (by decide)) two_directories) 5120 4096
    (small_directory 5 ⟨6, 1000, 1, 1, [98]⟩) := ⟨rfl, rfl, rfl, rfl⟩
  exact ⟨_, _, one_block_directory (b := 4) rfl (Or.inl rfl) ⟨by decide, by decide⟩ (by decide)
    hchain (fun e he => ⟨(hsound e he).1, (hsound e he).2⟩) (by decide), by decide, by decide⟩

/-- The path `/a/b`. -/
theorem two_directories_walked : inode_of_file (one_group 0 (by decide)) [47, 97, 47, 98]
    { file := two_directories, errno := none } =
      .ok (some 6, { file := two_directories, errno := none }) := by
  have hroot := two_directories_root
  have ha := two_directories_a
  have hpool : Pool (one_group 0 (by decide)) two_directories := small_file_pool.congr rfl rfl rfl
  have hin : ⟨5, 1000, 1, 2, [97]⟩ ∈ small_directory 2 ⟨5, 1000, 1, 2, [97]⟩ := by decide
  have hin' : ⟨6, 1000, 1, 1, [98]⟩ ∈ small_directory 5 ⟨6, 1000, 1, 1, [98]⟩ := by decide
  have hnames : ∀ name ∈ [[97], [98]], Component name := by
    intro name hname
    simp only [List.mem_cons, List.not_mem_nil, or_false] at hname
    rcases hname with rfl | rfl <;> exact ⟨by decide, by decide⟩
  refine ((inode_of_file_walk (Or.inl rfl) hpool hnames ?_).1 6).mpr ?_
  · intro front rest hsplit hrest j hj
    rcases front with _ | ⟨a, _ | ⟨b, front⟩⟩
    · obtain rfl := Leads.nil_iff.mp hj
      exact ⟨_, hroot⟩
    · obtain ⟨rfl, -⟩ := List.cons.inj hsplit
      obtain ⟨e, he, hname, hwalk⟩ := (Leads.cons_iff (Or.inl rfl) hpool hroot).mp hj
      obtain rfl := Leads.nil_iff.mp hwalk
      obtain rfl : e = ⟨5, 1000, 1, 2, [97]⟩ := hroot.inj he hin hname
      exact ⟨_, ha⟩
    · have hlen := congrArg List.length hsplit
      simp only [List.length_append, List.length_cons, List.length_nil] at hlen
      have hpos := List.length_pos_of_ne_nil hrest
      omega
  · exact .down hroot hin (.down ha hin' .here)

end LaLiga.Rfs
