import LaLiga.Rfs.Path

/-! What each operation and its response do with the entries of the list of active files:
finding them, locking them, finishing with them. The operation runs to its end; where it
goes on the way is told by the outcome. -/
namespace LaLiga.Rfs

/-- The local variables that hold entries. -/
inductive Var
  | file
  | parent_dir
  | sub_paths (i : Nat)
  deriving DecidableEq

inductive Instr
  | active_file_list_find (x : Var) (path : Path)
  | active_file_finished_using (x : Var)
  | RDLOCK (x : Var)
  | WRLOCK (x : Var)
  | UNLOCK (x : Var)
  | read_path (x : Var)
  deriving DecidableEq

namespace Request

open Instr Var

/-- `search_in_directory` standing at `sub_paths[i]` of `count`. `levels` says how many of
the names from here on the directories contain. -/
def search_in_directory (count : Nat) : Nat → Nat → List Instr
  | 0, i =>
    read_path (sub_paths i) :: (List.range' i (count - i)).map (fun v => UNLOCK (sub_paths v)) ++
      [UNLOCK (sub_paths (i - 1))]
  | levels + 1, i =>
    if i + 1 = count then
      [read_path (sub_paths i), UNLOCK (sub_paths (i - 1)), UNLOCK (sub_paths i)]
    else
      read_path (sub_paths i) :: UNLOCK (sub_paths (i - 1)) ::
        search_in_directory count levels (i + 1)

def lock_prefixes (i : Nat) : List Path → List Instr
  | [] => []
  | p :: ps =>
    active_file_list_find (sub_paths i) p :: RDLOCK (sub_paths i) :: lock_prefixes (i + 1) ps

def inode_of_file (levels : Nat) (path : Path) : List Instr :=
  match split_path path with
  | none => []
  | some splitted_path =>
    let count := splitted_path.length
    lock_prefixes 0 splitted_path ++
      if count = 1 then [UNLOCK (sub_paths 0), active_file_finished_using (sub_paths 0)]
      else search_in_directory count levels 1 ++
        (List.range count).map (fun v => active_file_finished_using (sub_paths v))

/-- Whether `inode_of_file` returns an inode. -/
def found (levels : Nat) (path : Path) : Bool :=
  match split_path path with
  | none => false
  | some splitted_path => splitted_path.length ≤ levels + 1

/-- `file_tree[parent_index]`: the prefix before the first one that starts with the path.
For the root there is none, and the index wraps. -/
def parent_path (path : Path) : Option Path :=
  match split_path path with
  | none => none
  | some file_tree =>
    match file_tree.findIdx (path.isPrefixOf ·) with
    | 0 => none
    | parent_index + 1 => file_tree[parent_index]?

/-- The exits of `write_file` on a regular file. -/
inductive Written
  | start_beyond
  | no_block
  | block_beyond
  | done
  deriving DecidableEq

end Request

/-- A request and what its operation finds: `levels` counts the names of the path that the
directories contain, `parent_levels` those of its parent's path. -/
inductive Request
  | list_directory (path : Path) (levels : Nat)
  | read_file (path : Path) (levels : Nat) (regular : Bool)
  | getattr (path : Path) (levels : Nat)
  | open_file (path : Path) (levels : Nat)
  | truncate_file (path : Path) (levels : Nat) (regular : Bool) (not_attached : Nat)
  | write_file (path : Path) (levels : Nat) (regular : Bool) (exit : Request.Written)
  | create_file_dir (path : Path) (levels parent_levels : Nat)
      (inode attached isFile space : Bool)
  | delete_file (path : Path) (levels parent_levels : Nat)
  | delete_dir (path : Path) (levels parent_levels : Nat) (several_blocks addresses : Bool)

namespace Request

open Instr Var

/-- The part of the deleting and creating operations that takes the parent's entry too. If
the parent's inode is used, it has to be there. -/
def with_parent (path : Path) (parent_levels : Nat) (used : Bool) (locked : List Instr) :
    Option (List Instr) :=
  match parent_path path with
  | none => none
  | some parent =>
    if found parent_levels parent ∨ ¬ used then
      some (active_file_list_find parent_dir parent :: read_path parent_dir ::
        inode_of_file parent_levels parent ++ locked ++
        [active_file_finished_using file, active_file_finished_using parent_dir])
    else none

/-- What an operation does after it has looked its path up; `none` if it crashes. -/
def body : Request → Option (List Instr)
  | list_directory _ _ => some [RDLOCK file, UNLOCK file, active_file_finished_using file]
  | read_file path levels regular => some <|
    if found levels path ∧ regular then
      [RDLOCK file, UNLOCK file, active_file_finished_using file]
    else [active_file_finished_using file]
  | getattr _ _ => some [RDLOCK file, UNLOCK file, active_file_finished_using file]
  | open_file _ _ => some [active_file_finished_using file]
  | truncate_file path levels regular not_attached => some <|
    if found levels path ∧ regular then
      -- the block that reports the missing blocks falls through to the normal end
      WRLOCK file :: (if not_attached > 0 then [UNLOCK file] else []) ++
        [UNLOCK file, active_file_finished_using file]
    else [active_file_finished_using file]
  | write_file path levels regular exit => some <|
    if found levels path then
      if regular then
        match exit with
        | .done => [WRLOCK file, UNLOCK file, active_file_finished_using file]
        | _ => [WRLOCK file, active_file_finished_using file]
      else [UNLOCK file, active_file_finished_using file]
    else [active_file_finished_using file]
  | create_file_dir path levels parent_levels inode attached isFile space =>
    if found levels path then some [active_file_finished_using file]
    else
      with_parent path parent_levels inode <|
        if ¬ inode then []
        else if ¬ attached then
          [read_path file, WRLOCK parent_dir, UNLOCK parent_dir]
        else
          [read_path file, WRLOCK parent_dir, WRLOCK file] ++
            (if isFile ∨ space then [] else [read_path file]) ++
            [UNLOCK file, UNLOCK parent_dir]
  | delete_file path levels parent_levels =>
    if found levels path then
      with_parent path parent_levels true
        [WRLOCK parent_dir, read_path file, WRLOCK file, UNLOCK file, UNLOCK parent_dir]
    else some [active_file_finished_using file]
  | delete_dir path levels parent_levels several_blocks addresses =>
    if found levels path ∧ ¬ several_blocks then
      with_parent path parent_levels true <|
        [WRLOCK parent_dir, WRLOCK file] ++
          (if addresses then [read_path file] else []) ++ [UNLOCK file, UNLOCK parent_dir]
    else some [active_file_finished_using file]

/-- The path of a request and how much of it the directories contain. -/
def target : Request → Path × Nat
  | list_directory path levels => (path, levels)
  | read_file path levels _ => (path, levels)
  | getattr path levels => (path, levels)
  | open_file path levels => (path, levels)
  | truncate_file path levels _ _ => (path, levels)
  | write_file path levels _ _ => (path, levels)
  | create_file_dir path levels _ _ _ _ _ => (path, levels)
  | delete_file path levels _ => (path, levels)
  | delete_dir path levels _ _ _ => (path, levels)

/-- A whole operation. -/
def run (r : Request) : Option (List Instr) :=
  r.body.map fun is =>
    active_file_list_find file r.target.1 :: inode_of_file r.target.2 r.target.1 ++ is

/-- Every response locks the path while it is sent. -/
def deliver_response (path : Path) : List Instr :=
  [active_file_list_find file path, RDLOCK file, UNLOCK file, active_file_finished_using file]

/-- What a worker does for a request; paths of more than 40 characters are only answered. -/
def worker (r : Request) : Option (List Instr) :=
  if r.target.1.length ≤ 40 then r.run.map (· ++ deliver_response r.target.1)
  else some (deliver_response r.target.1)

end Request

/-- The variable an instruction reads; finding an entry reads none. -/
def Instr.used : Instr → Option Var
  | .active_file_list_find _ _ => none
  | .active_file_finished_using x => some x
  | .RDLOCK x => some x
  | .WRLOCK x => some x
  | .UNLOCK x => some x
  | .read_path x => some x

/-- The variables in use after an instruction; `none` if it finds into one that is, or uses
one that is not. -/
def Instr.next (o : Finset Var) : Instr → Option (Finset Var)
  | .active_file_list_find x _ => if x ∈ o then none else some (insert x o)
  | .active_file_finished_using x => if x ∈ o then some (o.erase x) else none
  | .RDLOCK x => if x ∈ o then some o else none
  | .WRLOCK x => if x ∈ o then some o else none
  | .UNLOCK x => if x ∈ o then some o else none
  | .read_path x => if x ∈ o then some o else none

def inUse : Finset Var → List Instr → Option (Finset Var)
  | o, [] => some o
  | o, i :: is =>
    match i.next o with
    | none => none
    | some o => inUse o is

section InUse

variable {o p : Finset Var} {i : Instr} {is js : List Instr} {x : Var}

theorem inUse_cons (h : i.next o = some p) : inUse o (i :: is) = inUse p is := by
  rw [inUse, h]

theorem inUse_append (h : inUse o is = some p) : inUse o (is ++ js) = inUse p js := by
  induction is generalizing o with
  | nil =>
    cases h
    rfl
  | cons i is ih =>
    cases hi : i.next o with
    | none => simp [inUse, hi] at h
    | some q =>
      rw [inUse_cons hi] at h
      rw [List.cons_append, inUse_cons hi]
      exact ih h

/-- Locking, unlocking and reading leave the entries in hand as they are. -/
theorem inUse_of_kept (h : ∀ i ∈ is, i.next o = some o) : inUse o is = some o := by
  induction is with
  | nil => rfl
  | cons i is ih =>
    rw [inUse_cons (h i (by simp))]
    exact ih fun j hj => h j (by simp [hj])

end InUse

namespace Request

open Instr Var

/-- The variables `sub_paths[i]` to `sub_paths[i + n - 1]`. -/
def prefixes (i n : Nat) : Finset Var := (Finset.Ico i (i + n)).image sub_paths

section Brackets

variable {o : Finset Var} {i v n count levels : Nat} {p : Path} {ps : List Path}

@[simp]
theorem mem_prefixes : sub_paths v ∈ prefixes i n ↔ i ≤ v ∧ v < i + n := by
  simp [prefixes]

theorem prefixes_succ : prefixes i (n + 1) = insert (sub_paths i) (prefixes (i + 1) n) := by
  unfold prefixes
  rw [← Finset.image_insert]
  congr 1
  ext v
  simp only [Finset.mem_insert, Finset.mem_Ico]
  omega

theorem inUse_lock_prefixes (ho : ∀ v, i ≤ v → sub_paths v ∉ o) :
    inUse o (lock_prefixes i ps) = some (prefixes i ps.length ∪ o) := by
  induction ps generalizing i o with
  | nil => simp [lock_prefixes, inUse, prefixes]
  | cons p ps ih =>
    have hfind : (active_file_list_find (sub_paths i) p).next o =
        some (insert (sub_paths i) o) := if_neg (ho i le_rfl)
    have hlock : (RDLOCK (sub_paths i)).next (insert (sub_paths i) o) =
        some (insert (sub_paths i) o) := if_pos (Finset.mem_insert_self _ _)
    rw [lock_prefixes, inUse_cons hfind, inUse_cons hlock, ih]
    · rw [List.length_cons, prefixes_succ, Finset.insert_union, Finset.union_insert]
    · intro v hv hmem
      rcases Finset.mem_insert.mp hmem with he | hmem
      · cases he
        omega
      · exact ho v (by omega) hmem

theorem inUse_finish_prefixes (ho : ∀ v, sub_paths v ∉ o) :
    inUse (prefixes i n ∪ o)
      ((List.range' i n).map fun v => active_file_finished_using (sub_paths v)) = some o := by
  induction n generalizing i with
  | zero => simp [inUse, prefixes]
  | succ n ih =>
    have hfinish : (active_file_finished_using (sub_paths i)).next (prefixes i (n + 1) ∪ o) =
        some (prefixes (i + 1) n ∪ o) := by
      rw [Instr.next, if_pos (by simp), prefixes_succ, Finset.insert_union, Finset.erase_insert]
      simp [ho]
    rw [List.range'_succ, List.map_cons, inUse_cons hfinish]
    exact ih

theorem search_in_directory_kept (hi : i < count) (ho : ∀ v < count, sub_paths v ∈ o) :
    ∀ j ∈ search_in_directory count levels i, j.next o = some o := by
  induction levels generalizing i with
  | zero =>
    intro j hj
    simp only [search_in_directory, List.cons_append, List.mem_cons, List.mem_append,
      List.mem_map, List.mem_range'_1, List.not_mem_nil, or_false] at hj
    rcases hj with rfl | ⟨v, hv, rfl⟩ | rfl
    · exact if_pos (ho i hi)
    · exact if_pos (ho v (by omega))
    · exact if_pos (ho (i - 1) (by omega))
  | succ levels ih =>
    intro j hj
    unfold search_in_directory at hj
    split_ifs at hj with hlast
    · simp only [List.mem_cons, List.not_mem_nil, or_false] at hj
      rcases hj with rfl | rfl | rfl
      · exact if_pos (ho i hi)
      · exact if_pos (ho (i - 1) (by omega))
      · exact if_pos (ho i hi)
    · simp only [List.mem_cons] at hj
      rcases hj with rfl | rfl | hj
      · exact if_pos (ho i hi)
      · exact if_pos (ho (i - 1) (by omega))
      · exact ih (by omega) j hj

/-- Resolving a path gives back every entry it took. -/
theorem inUse_inode_of_file (ho : ∀ v, sub_paths v ∉ o) :
    inUse o (inode_of_file levels p) = some o := by
  unfold inode_of_file
  cases hsplit : split_path p with
  | none => rfl
  | some ps =>
    have hlen := List.length_pos_of_ne_nil (split_path_ne_nil hsplit)
    rw [inUse_append (inUse_lock_prefixes fun v _ => ho v)]
    split_ifs with hone
    · rw [hone]
      have hroot : sub_paths 0 ∈ prefixes 0 1 ∪ o := by simp
      have hunlock : (UNLOCK (sub_paths 0)).next (prefixes 0 1 ∪ o) = some (prefixes 0 1 ∪ o) :=
        if_pos hroot
      rw [inUse_cons hunlock]
      exact inUse_finish_prefixes (n := 1) ho
    · have hkept : inUse (prefixes 0 ps.length ∪ o) (search_in_directory ps.length levels 1) =
          some (prefixes 0 ps.length ∪ o) := by
        apply inUse_of_kept
        apply search_in_directory_kept (by omega)
        intro v hv
        simp [hv]
      rw [inUse_append hkept, List.range_eq_range']
      exact inUse_finish_prefixes ho

theorem inUse_with_parent {used : Bool} {is js : List Instr}
    (h : with_parent p levels used is = some js)
    (his : inUse {file, parent_dir} is = some {file, parent_dir}) :
    inUse {file} js = some ∅ := by
  unfold with_parent at h
  split at h
  · cases h
  · rename_i q _
    split_ifs at h
    obtain rfl := Option.some.inj h
    have hfind : (active_file_list_find parent_dir q).next {file} = some {parent_dir, file} := rfl
    have hread : (read_path parent_dir).next {parent_dir, file} = some {parent_dir, file} := rfl
    have hpair : ({file, parent_dir} : Finset Var) = {parent_dir, file} := Finset.pair_comm _ _
    rw [hpair] at his
    rw [List.append_assoc, List.cons_append, List.cons_append, inUse_cons hfind, inUse_cons hread,
      inUse_append (inUse_inode_of_file (by simp)), inUse_append his]
    rfl

theorem inUse_body {r : Request} {is : List Instr} (h : r.body = some is) :
    inUse {file} is = some ∅ := by
  cases r with
  | list_directory | getattr | open_file =>
    cases h
    rfl
  | read_file | truncate_file =>
    obtain rfl := Option.some.inj h
    split_ifs <;> rfl
  | write_file path levels regular exit =>
    obtain rfl := Option.some.inj h
    split_ifs
    · cases exit <;> rfl
    · rfl
    · rfl
  | create_file_dir path levels parent_levels inode attached isFile space =>
    simp only [body] at h
    split_ifs at h
    · cases h
      rfl
    all_goals exact inUse_with_parent h rfl
  | delete_file path levels parent_levels =>
    simp only [body] at h
    split_ifs at h
    · exact inUse_with_parent h rfl
    · cases h
      rfl
  | delete_dir path levels parent_levels several_blocks addresses =>
    simp only [body] at h
    split_ifs at h
    · exact inUse_with_parent h rfl
    · exact inUse_with_parent h rfl
    · cases h
      rfl

/-- Whatever a request meets, each entry it finds it finishes with once, and uses only in
between. -/
theorem inUse_worker {r : Request} {is : List Instr} (h : r.worker = some is) :
    inUse ∅ is = some ∅ := by
  unfold worker at h
  split_ifs at h
  · obtain ⟨js, hrun, rfl⟩ := Option.map_eq_some_iff.mp h
    obtain ⟨ks, hbody, rfl⟩ := Option.map_eq_some_iff.mp hrun
    have hfind : (active_file_list_find file r.target.1).next ∅ = some {file} := rfl
    have hops : inUse ∅ (active_file_list_find file r.target.1 ::
        inode_of_file r.target.2 r.target.1 ++ ks) = some ∅ := by
      rw [List.cons_append, inUse_cons hfind, inUse_append (inUse_inode_of_file (by simp))]
      exact inUse_body hbody
    rw [inUse_append hops]
    rfl
  · cases h
    rfl

end Brackets

end Request

end LaLiga.Rfs
