import LaLiga.Rfs.Numbering
import LaLiga.Rfs.Pruning

/-! The block with an index, as it is read and as it is removed. -/
namespace LaLiga.Rfs

open LaLiga.Lib

variable (c : Superblock_constants)

/-- Slot and path of the leaf with the index `n`. -/
def leaf_of (n : Nat) : Nat × List Nat :=
  if n < level_start c 1 then (n, [])
  else if n < level_start c 2 then (12, [n - level_start c 1])
  else if n < level_start c 3 then
    (13, [(n - level_start c 2) % pointers_per_block c,
      (n - level_start c 2) / pointers_per_block c])
  else
    (14, [(n - level_start c 3) % pointers_per_block c,
      (n - level_start c 3) / pointers_per_block c % pointers_per_block c,
      (n - level_start c 3) / pointers_per_block c / pointers_per_block c])

/-- The data block with the index `n`, 0 when there is none. -/
def block_at (fs : Image) (i n : Nat) : Nat := ptr c fs i (leaf_of c n).1 (leaf_of c n).2

/-- The indirect blocks of a path followed from the block `b`. -/
def walk (fs : Image) (b : Nat) (path : List Nat) : Nat :=
  path.foldr (fun k b => indirect c fs b k) b

variable {c} {live : Nat → Prop} {fs fs' : Image} {i s k m n b : Nat} {path : List Nat}

/-- Block sizes of ext2 that this server takes. -/
def Ext2_size (c : Superblock_constants) : Prop :=
  c.BLOCK_SIZE = 1024 ∨ c.BLOCK_SIZE = 2048 ∨ c.BLOCK_SIZE = 4096

section Sizes

variable (hsize : Ext2_size c)
include hsize

theorem Ext2_size.words : c.BLOCK_SIZE = 4 * pointers_per_block c := by
  unfold pointers_per_block
  rcases hsize with h | h | h <;> rw [h]

theorem Ext2_size.pointers : 1 < pointers_per_block c := by
  unfold pointers_per_block
  rcases hsize with h | h | h <;> rw [h] <;> decide

theorem Ext2_size.levels : level_start c 4 < 2 ^ 32 := by
  unfold level_start level_start level_start level_start pointers_per_block
  rcases hsize with h | h | h <;> rw [h] <;> decide

/-- What a size of 32 bits can reach has an index. -/
theorem Ext2_size.reach {file_size : Nat} (h : file_size < 2 ^ 32) :
    Size_In_Blocks c file_size ≤ level_start c 4 := by
  have hlevels : 2 ^ 32 / c.BLOCK_SIZE ≤ level_start c 4 := by
    unfold level_start level_start level_start level_start pointers_per_block
    rcases hsize with h | h | h <;> rw [h] <;> decide
  have hdvd : 2 ^ 32 / c.BLOCK_SIZE * c.BLOCK_SIZE = 2 ^ 32 := by
    rcases hsize with h | h | h <;> rw [h] <;> norm_num
  have hdiv : file_size / c.BLOCK_SIZE < 2 ^ 32 / c.BLOCK_SIZE := by
    rw [Nat.div_lt_iff_lt_mul c.size_pos, hdvd]
    exact h
  unfold Size_In_Blocks
  split_ifs <;> omega

end Sizes

theorem leaf_of_spec (hP : 1 < pointers_per_block c) (hn : n < level_start c 4) :
    Leaf c (leaf_of c n).1 (leaf_of c n).2 ∧
      leaf_index c (leaf_of c n).1 (leaf_of c n).2 = n := by
  have h1 : level_start c 1 = 12 := rfl
  have h2 : level_start c 2 = level_start c 1 + pointers_per_block c ^ 1 := rfl
  have h3 : level_start c 3 = level_start c 2 + pointers_per_block c ^ 2 := rfl
  have h4 : level_start c 4 = level_start c 3 + pointers_per_block c ^ 3 := rfl
  have hpos : 0 < pointers_per_block c := by omega
  unfold leaf_of
  split_ifs with hdirect hsingle hdouble
  · refine ⟨⟨by omega, (height_direct (by omega)).symm, by simp⟩, leaf_index_direct (by omega)⟩
  · rw [pow_one] at h2
    refine ⟨⟨by norm_num, rfl, by simp; omega⟩, ?_⟩
    rw [leaf_index_indirect le_rfl, Nat.ofDigits_singleton]
    show level_start c 1 + _ = n
    omega
  · rw [Nat.pow_two] at h3
    have hrest : (n - level_start c 2) / pointers_per_block c < pointers_per_block c := by
      rw [Nat.div_lt_iff_lt_mul hpos]
      omega
    refine ⟨⟨by norm_num, rfl, ?_⟩, ?_⟩
    · simpa using ⟨Nat.mod_lt _ hpos, hrest⟩
    · rw [leaf_index_indirect (by norm_num), Nat.ofDigits_cons, Nat.ofDigits_singleton,
        Nat.mod_add_div]
      show level_start c 2 + _ = n
      omega
  · have hrest : (n - level_start c 3) / pointers_per_block c / pointers_per_block c <
        pointers_per_block c := by
      rw [Nat.div_lt_iff_lt_mul hpos, Nat.div_lt_iff_lt_mul hpos]
      calc n - level_start c 3 < pointers_per_block c ^ 3 := by omega
        _ = pointers_per_block c * pointers_per_block c * pointers_per_block c := by ring
    refine ⟨⟨by norm_num, rfl, ?_⟩, ?_⟩
    · simpa using ⟨Nat.mod_lt _ hpos, Nat.mod_lt _ hpos, hrest⟩
    · rw [leaf_index_indirect (by norm_num), Nat.ofDigits_cons, Nat.ofDigits_cons,
        Nat.ofDigits_singleton, Nat.mod_add_div, Nat.mod_add_div]
      show level_start c 3 + _ = n
      omega

/-- The leaf of an index is the only one with it. -/
theorem leaf_of_index (hP : 1 < pointers_per_block c) (hleaf : Leaf c s path) :
    leaf_of c (leaf_index c s path) = (s, path) := by
  obtain ⟨hlo, hhi⟩ := hleaf.range hP
  have htop : level_start c (height s + 1) ≤ level_start c 4 :=
    level_start_mono (by have := hleaf.slot; unfold height; omega)
  obtain ⟨hleaf', hindex⟩ := leaf_of_spec hP (hhi.trans_le htop)
  obtain ⟨hs, hpath⟩ := leaf_index_inj hP hleaf' hleaf hindex
  exact Prod.ext hs hpath

theorem block_at_leaf (hP : 1 < pointers_per_block c) (hleaf : Leaf c s path) :
    block_at c fs i (leaf_index c s path) = ptr c fs i s path := by
  rw [block_at, leaf_of_index hP hleaf]

theorem ptr_eq_walk (hne : ptr c fs i s path ≠ 0) :
    ptr c fs i s path = walk c fs (pointer (fs.inode i) s) path := by
  induction path with
  | nil => rfl
  | cons k path ih =>
    rw [ptr_cons (ptr_parent hne), ih (ptr_parent hne)]
    rfl

/-- A level is read by the digits of the index in it. -/
theorem leaf_eq_walk (hP : 1 < pointers_per_block c) (hdigits : ∀ k ∈ path, k < pointers_per_block c) :
    leaf c fs path.length b (Nat.ofDigits (pointers_per_block c) path) = walk c fs b path := by
  induction path using List.reverseRecOn generalizing b with
  | nil => rfl
  | append_singleton q k ih =>
    have hq : ∀ l ∈ q, l < pointers_per_block c := fun l hl => hdigits l (by simp [hl])
    have hlt := Nat.ofDigits_lt_base_pow_length hP hq
    have hpos : 0 < pointers_per_block c ^ q.length := by omega
    rw [List.length_append, List.length_singleton, leaf, Nat.ofDigits_append,
      Nat.ofDigits_singleton, Nat.add_mul_div_left _ _ hpos, Nat.div_eq_of_lt hlt, Nat.zero_add,
      Nat.add_mul_mod_self_left, Nat.mod_eq_of_lt hlt, ih hq]
    simp [walk]

/-- An attached block is read where it is. -/
theorem data_pointer_leaf (hP : 1 < pointers_per_block c) (hleaf : Leaf c s path)
    (hne : ptr c fs i s path ≠ 0) :
    data_pointer c fs (fs.inode i) (leaf_index c s path) = ptr c fs i s path := by
  have hslot := hleaf.slot
  have hlength := hleaf.length
  rw [ptr_eq_walk hne]
  by_cases hs : s < 12
  · rw [height_direct hs] at hlength
    obtain rfl := List.length_eq_zero_iff.mp hlength
    rw [leaf_index_direct hs, data_pointer_direct hs, walk, List.foldr_nil, pointer, if_pos hs]
  · have hlt := Nat.ofDigits_lt_base_pow_length hP hleaf.digits
    have hwalk : leaf c fs path.length (pointer (fs.inode i) s)
        (Nat.ofDigits (pointers_per_block c) path) = walk c fs (pointer (fs.inode i) s) path :=
      leaf_eq_walk hP hleaf.digits
    rw [hlength] at hlt hwalk
    rw [leaf_index_indirect (Nat.not_lt.mp hs), ← hwalk]
    obtain rfl | rfl | rfl : s = 12 ∨ s = 13 ∨ s = 14 := by omega
    · exact data_pointer_level1 hlt
    · exact data_pointer_level2 hlt
    · exact data_pointer_level3

/-- Reading and removing mean the same block by an index: the address that is read there is the
one that is freed, its pointer is cleared, and no other data pointer changes. -/
theorem read_remove_same_block {file_size : Nat} (hsize : Ext2_size c) (hpool : Pool c fs)
    (hown : Owned c (fun j => j = i) fs) (hfile : file_size < 2 ^ 32)
    (hcover : n < Size_In_Blocks c file_size) (hattached : block_at c fs i n ≠ 0) :
    ∃ l fs', Inode_Get_Data_Adressess c fs (fs.inode i) file_size = some l ∧
      l[n]? = some (block_at c fs i n) ∧ Remove_Block c fs i n = .ok fs' ∧
      used c fs (block_at c fs i n) = true ∧ used c fs' (block_at c fs i n) = false ∧
      block_at c fs' i n = 0 ∧
      ∀ m < level_start c 4, m ≠ n → block_at c fs' i m = block_at c fs i m := by
  have hP := hsize.pointers
  have hreach := hsize.reach hfile
  have hn : n < level_start c 4 := hcover.trans_le hreach
  obtain ⟨hleaf, hindex⟩ := leaf_of_spec hP hn
  have hlevels : max (Size_In_Blocks c file_size) 1 ≤ level_start c 4 := by omega
  have hread := Inode_Get_Data_Adressess_eq fs (fs.inode i) hlevels
  have hpointer := data_pointer_leaf hP hleaf hattached
  rw [hindex] at hpointer
  obtain ⟨D, fs', hrun, hremoved⟩ := remove_leaf_removed hsize.words hown hpool rfl hleaf hattached
  have hremove := Remove_Block_eq hP hsize.levels.le hown hpool rfl hleaf hattached
  rw [hindex, hrun] at hremove
  have hheld : Held c (fun j => j = i) ⟨i, (leaf_of c n).1, (leaf_of c n).2⟩ := ⟨rfl, hleaf.valid⟩
  have hblock : IsBlock c (block_at c fs i n) := hown.block _ hheld hattached
  have hused := hown.used ⟨i, (leaf_of c n).1, (leaf_of c n).2⟩ hheld hattached
  refine ⟨_, fs', hread, ?_, hremove, hused, ?_, ?_, ?_⟩
  · rw [List.getElem?_append_left (by simp; omega), List.getElem?_map,
      List.getElem?_range (by omega), Option.map_some, hpointer]
    rfl
  · rw [← Bool.not_eq_true, hremoved.shrunk.used_iff _ hblock]
    rintro ⟨-, hnone⟩
    exact hnone _ hremoved.leaf rfl
  · exact (hremoved.shrunk.freed _ hremoved.leaf).2
  · intro m hm hmn
    obtain ⟨hleaf', hindex'⟩ := leaf_of_spec hP hm
    refine hremoved.shrunk.kept ⟨i, _, _⟩ ⟨rfl, hleaf'.valid⟩ ?_
    -- a leaf on the path of another leaf is that leaf
    intro hD
    obtain ⟨hs, hpath⟩ := hremoved.above _ hD
    have hlength : (leaf_of c m).2.length = (leaf_of c n).2.length := by
      rw [hleaf'.length, hleaf.length]
      exact congrArg height hs
    have heq : leaf_of c m = leaf_of c n := Prod.ext hs (hpath.eq_of_length hlength)
    rw [heq, hindex] at hindex'
    exact hmn hindex'.symm

/-- An inode without indirect blocks has its direct pointers only. -/
theorem ptr_direct_only (hnone : ∀ s, 12 ≤ s → s < 15 → pointer (fs.inode i) s = 0)
    (hvalid : Valid c s path) (hne : ptr c fs i s path ≠ 0) : s < 12 ∧ path = [] := by
  by_cases hs : s < 12
  · have hlength := hvalid.length
    rw [height_direct hs] at hlength
    exact ⟨hs, List.length_eq_zero_iff.mp (Nat.le_zero.mp hlength)⟩
  · exact absurd (ptr_below_suffix List.nil_suffix (hnone s (Nat.not_lt.mp hs) hvalid.slot)) hne

/-- The direct pointers of an inode without indirect blocks. -/
theorem owned_direct (hnone : ∀ s, 12 ≤ s → s < 15 → pointer (fs.inode i) s = 0)
    (hinj : ∀ s < 12, ∀ t < 12, pointer (fs.inode i) s ≠ 0 →
      pointer (fs.inode i) s = pointer (fs.inode i) t → s = t)
    (hblock : ∀ s < 12, pointer (fs.inode i) s ≠ 0 → IsBlock c (pointer (fs.inode i) s))
    (hused : ∀ s < 12, pointer (fs.inode i) s ≠ 0 →
      used c fs (pointer (fs.inode i) s) = true) : Owned c (fun j => j = i) fs := by
  have hnode : ∀ x, Held c (fun j => j = i) x → x.ptr c fs ≠ 0 →
      ∃ s < 12, x = ⟨i, s, []⟩ := by
    rintro ⟨j, s, path⟩ hx hne
    obtain rfl : j = i := hx.inode
    obtain ⟨hs, rfl⟩ := ptr_direct_only hnone hx.valid hne
    exact ⟨s, hs, rfl⟩
  constructor
  · intro x y hx hy hne heq
    obtain ⟨s, hs, rfl⟩ := hnode x hx hne
    obtain ⟨t, ht, rfl⟩ := hnode y hy (heq ▸ hne)
    rw [hinj s hs t ht hne heq]
  · intro x hx hne
    obtain ⟨s, hs, rfl⟩ := hnode x hx hne
    exact hblock s hs hne
  · intro x hx hne
    obtain ⟨s, hs, rfl⟩ := hnode x hx hne
    exact hused s hs hne

/-- Four of eight blocks in use, the last two by the inode 5. -/
def small_file : Image where
  TOTAL_UNALLOCATED_BLOCKS := 4
  TOTAL_UNALLOCATED_INODES := 8
  gdt := fun _ => ⟨2, 2, 4, 8, 0⟩
  bitmap := fun a i => a = 2 ∧ i < 4
  inode := fun n => if n = 5 then
      ⟨EXT2_IFREG, 2048, 1, 4, fun k => if k < 2 then k + 3 else 0, 0, 0, 0⟩
    else ⟨0, 0, 0, 0, fun _ => 0, 0, 0, 0⟩
  block := fun _ _ => 0

theorem small_file_pool : Pool (one_group 0 (by decide)) small_file := by
  refine ⟨?_, ?_, by decide, ?_⟩
  · intro g hg
    obtain rfl : g = 0 := Nat.lt_one_iff.mp hg
    rfl
  · intro g hg
    obtain rfl : g = 0 := Nat.lt_one_iff.mp hg
    decide
  · intro b hb
    have hle : b ≤ 8 := hb.2
    show b * 1024 < 2 ^ 32
    omega

theorem small_file_direct : ∀ s, 12 ≤ s → s < 15 → pointer (small_file.inode 5) s = 0 := by
  intro s hs hs'
  obtain rfl | rfl | rfl : s = 12 ∨ s = 13 ∨ s = 14 := by omega
  all_goals rfl

theorem small_file_owned : Owned (one_group 0 (by decide)) (fun j => j = 5) small_file :=
  owned_direct small_file_direct (by decide) (by decide) (by decide)

theorem second_block_removed : ∃ l fs', Inode_Get_Data_Adressess (one_group 0 (by decide)) small_file
      (small_file.inode 5) 2048 = some l ∧
    l[1]? = some (block_at (one_group 0 (by decide)) small_file 5 1) ∧
    Remove_Block (one_group 0 (by decide)) small_file 5 1 = .ok fs' ∧
    used (one_group 0 (by decide)) small_file
      (block_at (one_group 0 (by decide)) small_file 5 1) = true ∧
    used (one_group 0 (by decide)) fs' (block_at (one_group 0 (by decide)) small_file 5 1) = false ∧
    block_at (one_group 0 (by decide)) fs' 5 1 = 0 ∧
    ∀ m < level_start (one_group 0 (by decide)) 4, m ≠ 1 →
      block_at (one_group 0 (by decide)) fs' 5 m =
        block_at (one_group 0 (by decide)) small_file 5 m :=
  read_remove_same_block (Or.inl rfl) small_file_pool small_file_owned (by decide) (by decide)
    (by decide)

end LaLiga.Rfs
