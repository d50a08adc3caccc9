import LaLiga.Rfs.DirectoryRemoval
import LaLiga.Rfs.TruncateFile

/-! `delete_file`: the entry leaves the parent directory, then the blocks and the inode go. -/
namespace LaLiga.Rfs

open LaLiga.Lib

variable (c : Superblock_constants)

structure Delete_result where
  data : Nat
  worker : Worker_state
  memc : Block_cache

/-- The part of `delete_file` after the entry has left the parent directory. -/
def remove_file (i : Nat) (path : Path) (memc : Block_cache) (w : Worker_state) :
    Except Crash Delete_result := do
  let count := Size_In_Blocks c (uint32 (w.file.inode i).size)
  let fs ← Remove_Blocks c w.file i count
  let fs ← free_inode c (Clear_Inode fs i) i
  pure ⟨0, { w with file := fs }, cache_delete_blocks path count (uint32 (count - count)) memc⟩

/-- What the path leads to is taken for a file, whatever its mode. -/
def delete_file (path : Path) (memc : Block_cache) (w : Worker_state) :
    Except Crash Delete_result := do
  let (found, w) ← inode_of_file c path w
  match found with
  | none => pure ⟨1, w, memc⟩
  | some i => do
    let parent_dir ← parent_path path
    let (parent, w) ← inode_of_file c parent_dir w
    match parent with
    | none => throw .null
    | some parent => do
      let file_name ← active_file_get_file_name path
      let fs ← delete_entry c w.file parent file_name
      remove_file c i path memc { w with file := fs }

variable {c}

/-- The first `N` blocks of an inode are the same ones, with the same bytes. -/
def Same_data (c : Superblock_constants) (j N : Nat) (fs fs' : Image) : Prop :=
  ∀ m < N, block_at c fs' j m = block_at c fs j m ∧
    fs'.block (block_at c fs j m) = fs.block (block_at c fs j m)

/-- The inodes `live` without `i`. -/
def Without (live : Nat → Prop) (i j : Nat) : Prop := live j ∧ j ≠ i

/-- The file `i` is listed in the directory `p` by its name. -/
structure File_entry (c : Superblock_constants) (live : Nat → Prop) (fs : Image) (p i : Nat)
    (name : Path) (ds : List (Nat × List entry_t)) : Prop where
  parent : Directory c live p ds fs
  apart : i ≠ p
  entry : ∃ e ∈ listing ds, e.file_name = name ∧ e.inode_number = i
  allocated : ∃ g < c.TOTAL_GROUPS, ∃ k < c.INODES_PER_GROUP,
    i = inode_number c g k ∧ inode_bit fs g k = true
  plain : (fs.inode i).mode &&& EXT2_IFDIR = 0

/-- The inode `i` has been cleared and its bit too. -/
structure Inode_freed (c : Superblock_constants) (i : Nat) (fs fs' : Image) : Prop where
  inode : fs'.inode i = empty_inode
  others : ∀ j ≠ i, fs'.inode j = fs.inode j
  block : fs'.block = fs.block
  blocks : Same_blocks c fs fs'
  bits : ∀ g < c.TOTAL_GROUPS, ∀ k < c.INODES_PER_GROUP,
    (inode_bit fs' g k = true ↔ inode_bit fs g k = true ∧ inode_number c g k ≠ i)
  accounted : Accounted c fs'

/-- The file of the inode `i`, with the first `count` blocks of it and its entry, has gone. -/
structure File_removed (c : Superblock_constants) (live : Nat → Prop) (p i count : Nat)
  (name : Path)
    (ds ds' : List (Nat × List entry_t)) (fs fs' : Image) : Prop where
  parent : Directory c (Without live i) p ds' fs'
  listing : contents (listing ds') = contents ((listing ds).filter fun e => e.file_name ≠ name)
  inode : fs'.inode i = empty_inode
  modes : ∀ j ≠ i, (fs'.inode j).mode = (fs.inode j).mode
  bits : ∀ g < c.TOTAL_GROUPS, ∀ k < c.INODES_PER_GROUP,
    (inode_bit fs' g k = true ↔ inode_bit fs g k = true ∧ inode_number c g k ≠ i)
  accounted : Accounted c fs'
  freed : ∀ m < count, used c fs' (block_at c fs i m) = false
  kept : ∀ b, IsBlock c b → used c fs' b = true → used c fs b = true
  files : ∀ j N bytes, j ≠ p → j ≠ i → Stored c live j N bytes fs →
    Stored c (Without live i) j N bytes fs' ∧ Same_data c j N fs fs'
  directories : ∀ j es, j ≠ p → j ≠ i → Directory c live j es fs →
    Directory c (Without live i) j es fs'

variable {live reserved : Nat → Prop} {fs fs' fs'' : Image} {w w' : Worker_state}
  {i j k m n b p M N start left : Nat} {path name parent_dir : Path} {names : List Path}
  {bytes : List UInt8} {ds : List (Nat × List entry_t)} {D : List Node} {memc memc' : Block_cache}

section Data

theorem Same_data.trans (h : Same_data c j N fs fs') (h' : Same_data c j N fs' fs'') :
    Same_data c j N fs fs'' := by
  intro m hm
  obtain ⟨hat, hdata⟩ := h m hm
  obtain ⟨hat', hdata'⟩ := h' m hm
  rw [hat] at hdata'
  exact ⟨hat'.trans hat, hdata'.trans hdata⟩

theorem Kept.same_data (hP : 1 < pointers_per_block c) (h : Kept c live i fs fs')
    (hs : Stored c live j N bytes fs) (hj : j ≠ i) (hN : N ≤ level_start c 4) :
    Same_data c j N fs fs' := by
  intro m hm
  have hlevel := hm.trans_le hN
  obtain ⟨hleaf, -⟩ := leaf_of_spec hP hlevel
  exact ⟨h.block_at hP hs.held hj hlevel,
    h.content j _ _ hs.held hj hleaf ((hs.full.filled.block_at hP hlevel).mpr hm)⟩

end Data

section Fewer

variable {live' : Nat → Prop} (hfewer : ∀ j, live' j → live j)
include hfewer

theorem Owned.fewer (h : Owned c live fs) : Owned c live' fs := by
  have hheld : ∀ x, Held c live' x → Held c live x := fun x hx => ⟨hfewer _ hx.inode, hx.valid⟩
  constructor
  · intro x y hx hy
    exact h.inj x y (hheld x hx) (hheld y hy)
  · intro x hx
    exact h.block x (hheld x hx)
  · intro x hx
    exact h.used x (hheld x hx)

omit hfewer in
theorem Stored.fewer (h : Stored c live i N bytes fs) (hi : live' i) :
    Stored c live' i N bytes fs :=
  ⟨hi, h.mode, h.size, h.fits, h.full, h.enough, h.content, h.spare⟩

theorem Directory.fewer (h : Directory c live i ds fs) (hi : live' i) :
    Directory c live' i ds fs :=
  ⟨h.owned.fewer hfewer, hi, h.filled, h.attached, h.size, h.blocks, h.fits, h.chain, h.sound,
    h.names⟩

end Fewer

section Inodes

variable (hblock : fs'.block = fs.block)
include hblock

/-- The pointers of an inode depend on that inode only. -/
theorem ptr_of_inode (hinode : fs'.inode j = fs.inode j) {s : Nat} {q : List Nat} :
    ptr c fs' j s q = ptr c fs j s q := by
  induction q with
  | nil => rw [ptr_nil, ptr_nil, hinode]
  | cons k q ih => simp only [ptr, ih, indirect, hblock]

theorem same_data_of_inode (hinode : fs'.inode j = fs.inode j) : Same_data c j N fs fs' :=
  fun _ _ => ⟨ptr_of_inode hblock hinode, by rw [hblock]⟩

variable (hothers : ∀ j ≠ i, fs'.inode j = fs.inode j) (hsame : Same_blocks c fs fs')
include hothers hsame

theorem Owned.without (h : Owned c live fs) : Owned c (Without live i) fs' := by
  have hptr : ∀ x, Held c (Without live i) x → x.ptr c fs' = x.ptr c fs :=
    fun x hx => ptr_of_inode hblock (hothers _ hx.inode.2)
  have hfewer : Owned c (Without live i) fs := h.fewer fun _ hj => hj.1
  constructor
  · intro x y hx hy
    rw [hptr x hx, hptr y hy]
    exact hfewer.inj x y hx hy
  · intro x hx
    rw [hptr x hx]
    exact hfewer.block x hx
  · intro x hx
    rw [hptr x hx]
    intro hne
    rw [hsame.used (hfewer.block x hx hne)]
    exact hfewer.used x hx hne

/-- Without an inode the blocks in use are accounted for when it has none. -/
theorem Audited.without_iff (h : Audited c live reserved fs) :
    Audited c (Without live i) reserved fs' ↔
      ∀ x, Held c live x → x.inode = i → x.ptr c fs = 0 := by
  have hptr : ∀ x, Held c (Without live i) x → x.ptr c fs' = x.ptr c fs :=
    fun x hx => ptr_of_inode hblock (hothers _ hx.inode.2)
  constructor
  · intro h' x hx hi
    by_contra hne
    have hb := h.owned.block x hx hne
    have hused : used c fs' (x.ptr c fs) = true := by
      rw [hsame.used hb]
      exact h.owned.used x hx hne
    rcases (h'.used_iff _ hb).mp hused with hres | ⟨y, hy, heq⟩
    · exact h.apart x hx hne hres
    · rw [hptr y hy] at heq
      have hnode := h.owned.inj x y hx ⟨hy.inode.1, hy.valid⟩ hne heq.symm
      exact hy.inode.2 (hnode ▸ hi)
  · intro hnone
    refine ⟨h.owned.without hblock hothers hsame, hsame.pool h.pool, ?_, ?_⟩
    · intro b hb
      rw [hsame.used hb, h.used_iff b hb]
      refine or_congr_right ⟨?_, ?_⟩
      · rintro ⟨x, hx, heq⟩
        have hi : x.inode ≠ i := fun hi => hb.ne_zero (heq.symm.trans (hnone x hx hi))
        have hx' : Held c (Without live i) x := ⟨⟨hx.inode, hi⟩, hx.valid⟩
        exact ⟨x, hx', (hptr x hx').trans heq⟩
      · rintro ⟨x, hx, heq⟩
        exact ⟨x, ⟨hx.inode.1, hx.valid⟩, (hptr x hx).symm.trans heq⟩
    · intro x hx
      rw [hptr x hx]
      exact h.apart x ⟨hx.inode.1, hx.valid⟩

omit hsame in
theorem Stored.without (h : Stored c live j N bytes fs) (hj : j ≠ i) :
    Stored c (Without live i) j N bytes fs' := by
  have hptr : ∀ s q, ptr c fs' j s q = ptr c fs j s q :=
    fun s q => ptr_of_inode hblock (hothers j hj)
  refine (h.fewer ⟨h.held, hj⟩).congr ?_ ?_ ?_ ?_
  · rw [hothers j hj]
  · rw [hothers j hj]
  · intro s q hvalid
    rw [hptr]
    exact h.full s q hvalid
  · intro k _ _
    rw [byte_at, byte_at, block_at, block_at, hptr, hblock]

theorem Directory.without (h : Directory c live j ds fs) (hj : j ≠ i) :
    Directory c (Without live i) j ds fs' := by
  have hptr : ∀ s q, ptr c fs' j s q = ptr c fs j s q :=
    fun s q => ptr_of_inode hblock (hothers j hj)
  have hflat : flat c fs' = flat c fs := by
    funext q
    rw [flat, flat, hblock]
  constructor
  · exact h.owned.without hblock hothers hsame
  · exact ⟨h.held, hj⟩
  · intro s q hleaf
    rw [hptr]
    exact h.filled s q hleaf
  · exact h.attached.trans (List.map_congr_left fun m _ => (hptr _ _).symm)
  · rw [hothers j hj]
    exact h.size
  · rw [hothers j hj]
    exact h.blocks
  · exact h.fits
  · rw [hflat]
    exact h.chain
  · exact h.sound
  · exact h.names

end Inodes

section Blocks

variable (hsize : Ext2_size c) (hi : live i) (hN : N ≤ level_start c 4)
include hsize hi hN

/-- The first blocks of a file are taken away in ascending order; those behind them may stay. -/
theorem Remove_Blocks_from_front (left start : Nat) (hown : Owned c live fs) (hpool : Pool c fs)
    (htidy : Tidy c fs i) (hle : start + left ≤ N)
    (hfilled : ∀ s q, Leaf c s q →
      (ptr c fs i s q ≠ 0 ↔ start ≤ leaf_index c s q ∧ leaf_index c s q < N)) :
    ∃ D fs', Remove_Blocks_from c i left start fs = .ok fs' ∧ Shrunk c live i fs D fs' ∧
      Tidy c fs' i ∧ ∀ s q, Leaf c s q →
        (ptr c fs' i s q ≠ 0 ↔ start + left ≤ leaf_index c s q ∧ leaf_index c s q < N) := by
  have hP := hsize.pointers
  induction left generalizing start fs with
  | zero => exact ⟨[], fs, rfl, .refl hown hpool, htidy, hfilled⟩
  | succ left ih =>
    obtain ⟨hleaf, hindex⟩ := leaf_of_spec hP (show start < level_start c 4 by omega)
    have hne : ptr c fs i (leaf_of c start).1 (leaf_of c start).2 ≠ 0 := by
      rw [hfilled _ _ hleaf, hindex]
      omega
    obtain ⟨D, fs₁, hrun, hremoved⟩ := remove_leaf_removed hsize.words hown hpool hi hleaf hne
    have hremove := Remove_Block_eq hP hsize.levels.le hown hpool hi hleaf hne
    rw [hindex, hrun] at hremove
    obtain ⟨D', fs', hrest, hshrunk, htidy', hfilled'⟩ := ih (start + 1) hremoved.shrunk.owned
      hremoved.shrunk.pool (hremoved.tidy_all hi htidy) (by omega) (by
        intro s q hq
        rw [hremoved.leaves hP hi hleaf hq, hfilled s q hq, hindex]
        omega)
    refine ⟨D ++ D', fs', bind_eq_ok.mpr ⟨fs₁, hremove, hrest⟩, hremoved.shrunk.trans hshrunk,
      htidy', ?_⟩
    intro s q hq
    rw [hfilled' s q hq]
    omega

end Blocks

section File

variable (hsize : Ext2_size c) (hs : Stored c live i N bytes fs)
include hsize hs

/-- The blocks that the size asks for are taken away. All have gone when there are no others. -/
theorem Remove_Blocks_all (hown : Owned c live fs) (hpool : Pool c fs) :
    ∃ D fs', Remove_Blocks c fs i (Size_In_Blocks c (uint32 (fs.inode i).size)) = .ok fs' ∧
      Shrunk c live i fs D fs' ∧
      (∀ m < Size_In_Blocks c bytes.length, used c fs' (block_at c fs i m) = false) ∧
      ((∀ x, Held c live x → x.inode = i → x.ptr c fs' = 0) ↔
        N = Size_In_Blocks c bytes.length) := by
  have hP := hsize.pointers
  have hlevels := (filled_lt_levels hs.full.filled hsize hown hpool hs.held).le
  have hcount := hs.enough
  obtain ⟨D, fs', hrun, hshrunk, htidy, hfilled⟩ := Remove_Blocks_from_front hsize hs.held hlevels
    (Size_In_Blocks c bytes.length) 0 hown hpool (hs.full.tidy hP) (by omega) (by
      intro s q hq
      rw [hs.full.filled s q hq]
      omega)
  rw [Nat.zero_add] at hfilled
  refine ⟨D, fs', ?_, hshrunk, ?_, ?_⟩
  · rw [hs.uint32_size, Remove_Blocks, hs.uint32_size, Int.sub_self]
    exact hrun
  · intro m hm
    obtain ⟨hleaf, hindex⟩ := leaf_of_spec hP (show m < level_start c 4 by omega)
    have hx : Held c live ⟨i, _, _⟩ := ⟨hs.held, hleaf.valid⟩
    have hne : ptr c fs i (leaf_of c m).1 (leaf_of c m).2 ≠ 0 := by
      rw [hs.full.filled _ _ hleaf, hindex]
      omega
    have hzero : ptr c fs' i (leaf_of c m).1 (leaf_of c m).2 = 0 := by
      by_contra hset
      rw [← ne_eq, hfilled _ _ hleaf, hindex] at hset
      omega
    have hD : (⟨i, (leaf_of c m).1, (leaf_of c m).2⟩ : Node) ∈ D := by
      by_contra hnot
      exact hne ((hshrunk.kept _ hx hnot).symm.trans hzero)
    by_contra hused
    rw [Bool.not_eq_false] at hused
    exact ((hshrunk.used_iff _ (hown.block _ hx hne)).mp hused).2 _ hD rfl
  · constructor
    · intro hnone
      by_contra hne
      obtain ⟨hleaf, hindex⟩ := leaf_of_spec hP
        (show Size_In_Blocks c bytes.length < level_start c 4 by omega)
      have hset : ptr c fs' i _ _ ≠ 0 := (hfilled _ _ hleaf).mpr (by omega)
      exact hset (hnone ⟨i, _, _⟩ ⟨hs.held, hleaf.valid⟩ rfl)
    · rintro rfl ⟨j, s, q⟩ hx rfl
      have hempty : Filled c fs' j 0 := by
        intro s q hq
        rw [hfilled s q hq]
        omega
      have hfull := full_of_tidy hP hempty htidy s q hx.valid
      by_contra hset
      have := hfull.mp hset
      omega

end File

/-- A file is no directory that would have to be counted. -/
theorem free_inode_freed {g : Nat} (hacc : Accounted c fs) (hg : g < c.TOTAL_GROUPS)
    (hk : k < c.INODES_PER_GROUP) (hset : inode_bit fs g k = true)
    (hplain : (fs.inode (inode_number c g k)).mode &&& EXT2_IFDIR = 0) :
    ∃ fs', free_inode c (Clear_Inode fs (inode_number c g k)) (inode_number c g k) = .ok fs' ∧
      Inode_freed c (inode_number c g k) fs fs' := by
  obtain ⟨fs₁, hfs₁⟩ : ∃ fs₁, fs₁ = Clear_Inode fs (inode_number c g k) := ⟨_, rfl⟩
  have hcons : Inodes_consistent c fs₁ := by
    subst hfs₁
    exact hacc.inodes.congr (fun _ => ⟨rfl, rfl, rfl⟩) (fun _ _ => rfl) rfl
  have hbit : inode_bit fs₁ = inode_bit fs := by
    subst hfs₁
    rfl
  have hcounted : Counted_but c fs₁ (inode_number c g k) := by
    have hdirectory : directory_bit c fs g k = false := by
      simp [directory_bit, hplain]
    refine ((counted_but_iff hg hk hdirectory).mpr hacc.directories).congr ?_ ?_
    · subst hfs₁
      exact fun _ _ => rfl
    · intro h _ j _ hne
      subst hfs₁
      rw [directory_bit, directory_bit, Clear_Inode, set_inode_of_ne hne]
      rfl
  have hfree : free_inode c fs₁ (inode_number c g k) =
      .ok (setFreeInodeBitmap c fs₁ (inode_number c g k)) := by
    unfold free_inode
    rw [locate_inode_number hcons.numbers_fit hg hk, if_pos hg]
    rfl
  have haccounted := (free_inode_accounted hcons hg hk (by rwa [hbit]) hcounted).of_ok hfree
  rw [hfs₁] at hfree
  refine ⟨_, hfree, ?_⟩
  rw [← hfs₁]
  rw [setFreeInodeBitmap_eq hcons hg hk] at haccounted ⊢
  constructor
  · rw [set_inode_bit_inode, hfs₁]
    exact set_inode_self
  · intro j hj
    rw [set_inode_bit_inode, hfs₁]
    exact set_inode_of_ne hj
  · rw [set_inode_bit_block, hfs₁]
    rfl
  · have hblocks : Same_blocks c fs fs₁ := by
      subst hfs₁
      exact ⟨rfl, fun _ => ⟨rfl, rfl⟩, fun _ _ => rfl⟩
    exact hblocks.trans (same_blocks_set_inode_bit hcons hg)
  · intro h hh j hj
    rw [inode_bit_set hcons hg hh, hbit]
    by_cases hhg : h = g
    · subst hhg
      rw [if_pos rfl]
      by_cases hjk : j = k
      · subst hjk
        simp
      · rw [Function.update_of_ne hjk]
        refine (and_iff_left fun heq => ?_).symm
        exact hjk (inode_number_inj hj hk heq).2
    · rw [if_neg hhg]
      refine (and_iff_left fun heq => ?_).symm
      exact hhg (inode_number_inj hj hk heq).1
  · exact haccounted

/-- What is written in the blocks of a directory. -/
theorem Directory.rewritten (h : Directory c live p ds fs) {m : Bytes}
    (hblock : ∀ b ∉ ds.map Prod.fst, (set_flat c fs m).block b = fs.block b) :
    Rewritten c p ds.length fs (set_flat c fs m) := by
  refine ⟨rfl, fun b hb => hblock b ?_⟩
  rw [h.attached]
  intro hmem
  obtain ⟨k, hk, rfl⟩ := List.mem_map.mp hmem
  exact hb k (List.mem_range.mp hk) rfl

theorem remove_file_eq (hs : Stored c live i N bytes w.file)
    (hremove : Remove_Blocks c w.file i (Size_In_Blocks c (uint32 (w.file.inode i).size)) = .ok fs')
    (hfree : free_inode c (Clear_Inode fs' i) i = .ok fs'') :
    remove_file c i path memc w = .ok ⟨0, { w with file := fs'' },
      cache_delete_blocks path (Size_In_Blocks c bytes.length) 0 memc⟩ := by
  unfold remove_file
  dsimp only
  rw [hremove, ok_bind, hfree, ok_bind, hs.uint32_size, Int.sub_self]
  rfl

theorem delete_file_found (memc : Block_cache) (hfound : inode_of_file c path w = .ok (some i, w))
    (hpath : parent_path path = .ok parent_dir)
    (hparent : inode_of_file c parent_dir w = .ok (some p, w))
    (hname : active_file_get_file_name path = .ok name)
    (hdelete : delete_entry c w.file p name = .ok fs) :
    delete_file c path memc w = remove_file c i path memc { w with file := fs } := by
  unfold delete_file
  rw [hfound, ok_bind]
  dsimp only
  rw [hpath, ok_bind, hparent, ok_bind]
  dsimp only
  rw [hname, ok_bind, hdelete, ok_bind]

theorem delete_file_missing (hmissing : inode_of_file c path w = .ok (none, w')) :
    delete_file c path memc w = .ok ⟨1, w', memc⟩ := by
  unfold delete_file
  rw [hmissing, ok_bind]
  rfl

section Main

variable (hsize : Ext2_size c) (hacc : Audited c live reserved w.file)
  (hcounts : Accounted c w.file) (hnames : ∀ d ∈ names ++ [name], Component d)
  (hdirs : Directories_along c w.file ROOT_INODE_NUMBER (names ++ [name]))
  (hwalk : Leads c w.file ROOT_INODE_NUMBER names p)
  (h : File_entry c live w.file p i name ds) (hs : Stored c live i N bytes w.file)
  (hdel : Deletable c name (flat c w.file) ds)
include hsize hacc hcounts hnames hdirs hwalk h hs hdel

theorem delete_file_removed (memc : Block_cache) : ∃ fs' ds',
    delete_file c (canonical (names ++ [name])) memc w = .ok ⟨0, { w with file := fs' },
      cache_delete_blocks (canonical (names ++ [name])) (Size_In_Blocks c bytes.length) 0 memc⟩ ∧
    File_removed c live p i (Size_In_Blocks c bytes.length) name ds ds' w.file fs' ∧
    (Audited c (Without live i) reserved fs' ↔ N = Size_In_Blocks c bytes.length) := by
  have hP := hsize.pointers
  have hpool := hacc.pool
  have hp := h.parent.held
  have hlevels := (filled_lt_levels hs.full.filled hsize hacc.owned hpool hs.held).le
  have hlength := h.parent.linked.extent.lt_levels hsize hpool
  rw [List.length_map] at hlength
  have hfound := child_found hsize hpool hnames hdirs hwalk h.parent h.entry
  obtain ⟨hpath, hparent⟩ := parent_found hsize hpool hnames hdirs hwalk
  obtain ⟨m, ds', hdelete, herased, hcontents, hblock⟩ := h.parent.erased_of hsize hpool hdel
  -- the entry has gone
  have hrewritten := h.parent.rewritten hblock
  have hkept₁ := hrewritten.others hP hacc.owned hpool hp hlength.le
  have hacc₁ := hrewritten.audited hP hp hlength.le hacc
  have hs₁ := hkept₁.stored hP hs h.apart hlevels
  have hsame₁ : Same_inodes c w.file (set_flat c w.file m) := same_block _
  -- the blocks have gone
  obtain ⟨D, fs₂, hremove, hshrunk, hfreed, hall⟩ :=
    Remove_Blocks_all hsize hs₁ hacc₁.owned hacc₁.pool
  have hkept₂ := hshrunk.others hacc₁.owned
  have hacc₂ := hshrunk.audited hacc₁
  have hsame₂ := hshrunk.same
  -- the inode has gone
  obtain ⟨g, hg, k, hk, hi, hbit⟩ := h.allocated
  have hcounts₁ := hsame₁.accounted hcounts
  have hbits : ∀ h < c.TOTAL_GROUPS, inode_bit fs₂ h = inode_bit w.file h := fun h hh =>
    (hsame₂.inode_bit hcounts₁.inodes hh).trans (hsame₁.inode_bit hcounts.inodes hh)
  have hplain : (fs₂.inode i).mode &&& EXT2_IFDIR = 0 := by
    rw [hsame₂.mode, hsame₁.mode]
    exact h.plain
  obtain ⟨fs₃, hfree, hgone⟩ := free_inode_freed (hsame₂.accounted hcounts₁) hg hk
    (by rw [hbits g hg, hbit]) (hi ▸ hplain)
  rw [← hi] at hfree hgone
  have hrun := delete_file_found memc hfound hpath hparent
    (file_name_canonical hnames) hdelete
  refine ⟨fs₃, ds', hrun.trans (remove_file_eq hs₁ hremove hfree), ?_, ?_⟩
  · have hdirectory : ∀ j es, j ≠ i → Directory c live j es (set_flat c w.file m) →
        Directory c (Without live i) j es fs₃ := fun j es hji hd =>
      (hkept₂.directory hP hsize hacc₁.pool hacc₂.owned hd hji).without hgone.block
        hgone.others hgone.blocks hji
    refine ⟨hdirectory p ds' h.apart.symm herased, hcontents, hgone.inode, ?_, ?_, hgone.accounted,
      ?_, ?_, ?_, ?_⟩
    · intro j hj
      rw [hgone.others j hj, hsame₂.mode, hsame₁.mode]
    · intro h hh j hj
      rw [hgone.bits h hh j hj, hbits h hh]
    · intro m' hm'
      have hm := hm'.trans_le (hs.enough.trans hlevels)
      have hset := (hs₁.full.filled.block_at hP hm).mpr (hm'.trans_le hs.enough)
      obtain ⟨hleaf, -⟩ := leaf_of_spec hP hm
      have hb : IsBlock c (block_at c (set_flat c w.file m) i m') :=
        hacc₁.owned.block ⟨i, _, _⟩ ⟨hs.held, hleaf.valid⟩ hset
      rw [← hkept₁.block_at hP hs.held h.apart hm, hgone.blocks.used hb]
      exact hfreed m' hm'
    · intro b hb hused
      rw [hgone.blocks.used hb] at hused
      exact ((hshrunk.used_iff b hb).mp hused).1
    · intro j M others hjp hji hstored
      have hreach := filled_lt_levels hstored.full.filled hsize hacc.owned hpool hstored.held
      have hstored₁ := hkept₁.stored hP hstored hjp hreach.le
      refine ⟨(hkept₂.stored hP hstored₁ hji hreach.le).without hgone.block hgone.others hji, ?_⟩
      exact ((hkept₁.same_data hP hstored hjp hreach.le).trans
        (hkept₂.same_data hP hstored₁ hji hreach.le)).trans
        (same_data_of_inode hgone.block (hgone.others j hji))
    · intro j es hjp hji hd
      exact hdirectory j es hji (hkept₁.directory hP hsize hpool hacc₁.owned hd hjp)
  · exact (hacc₂.without_iff hgone.block hgone.others hgone.blocks).trans hall

/-- A file that is deleted goes from its directory with its inode and the blocks that its size asks
for, and every other file and directory is as it was. Blocks behind those stay in use without a
file that has them, so that the blocks are accounted for exactly when there were none. -/
theorem delete_file_exact (memc : Block_cache) : ∃ fs' ds' memc',
    delete_file c (canonical (names ++ [name])) memc w = .ok ⟨0, { w with file := fs' }, memc'⟩ ∧
    File_removed c live p i (Size_In_Blocks c bytes.length) name ds ds' w.file fs' ∧
    (∀ m < Size_In_Blocks c bytes.length,
      memc' (generate_key (canonical (names ++ [name])) m) = none) ∧
    (Audited c (Without live i) reserved fs' ↔ N = Size_In_Blocks c bytes.length) := by
  obtain ⟨fs', ds', hrun, hremoved, hiff⟩ :=
    delete_file_removed hsize hacc hcounts hnames hdirs hwalk h hs hdel memc
  refine ⟨fs', ds', _, hrun, hremoved, ?_, hiff⟩
  intro m hm
  cases hhit : cache_delete_blocks (canonical (names ++ [name])) (Size_In_Blocks c bytes.length) 0
    memc (generate_key (canonical (names ++ [name])) m) with
  | none => rfl
  | some data =>
    exact absurd rfl ((cache_delete_blocks_hit hhit).2 m (Nat.zero_le m) (by omega))

end Main

/-- The root in the block 3 lists `a`, the file 5 with three bytes in the block 4. -/
def root_and_file : Image where
  TOTAL_UNALLOCATED_BLOCKS := 4
  TOTAL_UNALLOCATED_INODES := 6
  gdt := fun _ => ⟨2, 1, 4, 6, 1⟩
  bitmap := fun a k => (a = 2 ∧ k < 4) ∨ (a = 1 ∧ (k = 1 ∨ k = 4))
  inode := fun n => if n = 2 then one_block_inode (one_group 0 smallest_block_pos) 3
    else if n = 5 then ⟨EXT2_IFREG, 3, 1, 2, fun k => if k = 0 then 4 else 0, 0, 0, 0⟩
    else empty_inode
  block := fun n => if n = 3 then small_block 2 ⟨5, 1000, 1, 1, [97]⟩
    else if n = 4 then fun _ => 7
    else fun _ => 0

theorem root_and_file_pool : Pool (one_group 0 smallest_block_pos) root_and_file := by
  refine ⟨?_, ?_, ?_, ?_⟩
  · intro g hg
    obtain rfl : g = 0 := Nat.lt_one_iff.mp hg
    rfl
  · intro g hg
    obtain rfl : g = 0 := Nat.lt_one_iff.mp hg
    decide
  · decide
  · intro b hb
    have hle : b ≤ 8 := hb.2
    show b * 1024 < 2 ^ 32
    omega

theorem root_and_file_accounted : Accounted (one_group 0 smallest_block_pos) root_and_file := by
  have hone : ∀ g < (one_group 0 smallest_block_pos).TOTAL_GROUPS, g = 0 :=
    fun g hg => Nat.lt_one_iff.mp hg
  refine ⟨⟨by decide, by decide, ?_, ?_, ?_, ?_⟩, ?_⟩
  · intro g hg k hk hne
    exact absurd ((hone g hg).trans (hone k hk).symm) hne
  · intro g _ k _
    show (1 : Nat) ≠ 2
    decide
  · intro g hg
    obtain rfl := hone g hg
    decide
  · decide
  · intro g hg
    obtain rfl := hone g hg
    decide

theorem root_and_file_direct {i : Nat} (hi : i = 2 ∨ i = 5) :
    ∀ s, 12 ≤ s → s < 15 → pointer (root_and_file.inode i) s = 0 := by
  rcases hi with rfl | rfl
  all_goals
    intro s hs hs'
    obtain rfl | rfl | rfl : s = 12 ∨ s = 13 ∨ s = 14 := by omega
    all_goals rfl

theorem root_and_file_audited : Audited (one_group 0 smallest_block_pos) (fun i => i = 2 ∨ i = 5)
    (fun b => b = 1 ∨ b = 2) root_and_file := by
  have hinj : ∀ i ∈ [2, 5], ∀ j ∈ [2, 5], ∀ s < 12, ∀ t < 12,
      pointer (root_and_file.inode i) s ≠ 0 →
      pointer (root_and_file.inode i) s = pointer (root_and_file.inode j) t →
      i = j ∧ s = t := by decide
  have hblock : ∀ i ∈ [2, 5], ∀ s < 12, pointer (root_and_file.inode i) s ≠ 0 →
      IsBlock (one_group 0 smallest_block_pos) (pointer (root_and_file.inode i) s) ∧
        ¬ (pointer (root_and_file.inode i) s = 1 ∨ pointer (root_and_file.inode i) s = 2) := by
    decide
  have hused : ∀ b < 9, 1 ≤ b → (used (one_group 0 smallest_block_pos) root_and_file b = true ↔
      (b = 1 ∨ b = 2) ∨ ∃ i ∈ [2, 5], ∃ s < 12, pointer (root_and_file.inode i) s = b) := by
    decide
  have hlist : ∀ i, i = 2 ∨ i = 5 ↔ i ∈ [2, 5] := by simp
  refine audited_direct root_and_file_pool (fun i hi => root_and_file_direct hi) ?_ ?_ ?_
  · intro i j hi hj
    exact hinj i ((hlist i).mp hi) j ((hlist j).mp hj)
  · intro i hi
    exact hblock i ((hlist i).mp hi)
  · intro b hb
    rw [hused b (Nat.lt_succ_of_le hb.2) hb.1]
    simp only [hlist]

theorem root_and_file_root : Directory (one_group 0 smallest_block_pos) (fun i => i = 2 ∨ i = 5) 2
    [(3, small_directory 2 ⟨5, 1000, 1, 1, [97]⟩)] root_and_file := by
  have hsound : ∀ e ∈ small_directory 2 ⟨5, 1000, 1, 1, [97]⟩,
      e.entry_len % 4 = 0 ∧ get_padded_size e ≤ e.entry_len := by decide
  have hchain : Chain (flat (one_group 0 smallest_block_pos) root_and_file) 4096 3072
    (small_directory 2 ⟨5, 1000, 1, 1, [97]⟩) := ⟨rfl, rfl, rfl, rfl⟩
  exact one_block_directory_of (b := 3) rfl (Or.inl rfl) root_and_file_audited.owned (Or.inl rfl)
    ⟨by decide, by decide⟩ hchain (fun e he => ⟨(hsound e he).1, (hsound e he).2⟩) (by decide)

theorem root_and_file_entry : File_entry (one_group 0 smallest_block_pos) (fun i => i = 2 ∨ i = 5)
    root_and_file 2 5 [97] [(3, small_directory 2 ⟨5, 1000, 1, 1, [97]⟩)] :=
  ⟨root_and_file_root, by decide, ⟨⟨5, 1000, 1, 1, [97]⟩, by decide, rfl, rfl⟩,
    ⟨0, by decide, 4, by decide, rfl, by decide⟩, by decide⟩

theorem root_and_file_stored : Stored (one_group 0 smallest_block_pos) (fun i => i = 2 ∨ i = 5) 5 1
    [7, 7, 7] root_and_file := by
  have hdirect := root_and_file_direct (i := 5) (Or.inr rfl)
  refine ⟨Or.inr rfl, by decide, rfl, by decide, ?_, by decide, by decide, ?_⟩
  · exact full_of_tidy (by decide) (filled_direct (by decide) hdirect (by decide) (by decide))
      (tidy_direct hdirect)
  · intro k hlo hhi
    have hone : Size_In_Blocks (one_group 0 smallest_block_pos) [(7 : UInt8), 7, 7].length = 1 := by
      decide
    omega

theorem root_and_file_along : Directories_along (one_group 0 smallest_block_pos) root_and_file
    ROOT_INODE_NUMBER ([] ++ [[97]]) := by
  intro front rest hsplit hrest j hj
  cases front with
  | nil =>
    obtain rfl := Leads.nil_iff.mp hj
    exact ⟨_, _, _, root_and_file_root, rfl, by decide⟩
  | cons a front =>
    have hlen := congrArg List.length hsplit
    have hpos := List.length_pos_of_ne_nil hrest
    simp only [List.length_append, List.length_cons, List.length_nil] at hlen
    omega

theorem root_and_file_deletable : Deletable (one_group 0 smallest_block_pos) [97]
    (flat (one_group 0 smallest_block_pos) root_and_file)
    [(3, small_directory 2 ⟨5, 1000, 1, 1, [97]⟩)] := by
  refine ⟨[], 3, [⟨2, 12, 1, 2, [46]⟩, ⟨2, 12, 2, 2, [46, 46]⟩], ⟨5, 1000, 1, 1, [97]⟩, [], [], rfl,
    ⟨rfl, rfl⟩, by decide, Or.inl ⟨by simp, by decide, ?_⟩⟩
  intro hnil
  cases hnil

/-- `/a` is deleted, with its only block. -/
theorem only_file_deleted : ∃ fs' ds' memc',
    delete_file (one_group 0 smallest_block_pos) (canonical ([] ++ [[97]])) Cache.empty
      ⟨root_and_file, none⟩ = .ok ⟨0, ⟨fs', none⟩, memc'⟩ ∧
    File_removed (one_group 0 smallest_block_pos) (fun i => i = 2 ∨ i = 5) 2 5
      (Size_In_Blocks (one_group 0 smallest_block_pos) [(7 : UInt8), 7, 7].length) [97]
      [(3, small_directory 2 ⟨5, 1000, 1, 1, [97]⟩)] ds' root_and_file fs' ∧
    (∀ m < Size_In_Blocks (one_group 0 smallest_block_pos) [(7 : UInt8), 7, 7].length,
      memc' (generate_key (canonical ([] ++ [[97]])) m) = none) ∧
    (Audited (one_group 0 smallest_block_pos) (Without (fun i => i = 2 ∨ i = 5) 5)
      (fun b => b = 1 ∨ b = 2) fs' ↔
      1 = Size_In_Blocks (one_group 0 smallest_block_pos) [(7 : UInt8), 7, 7].length) :=
  delete_file_exact (w := ⟨root_and_file, none⟩) (Or.inl rfl) root_and_file_audited
    root_and_file_accounted root_and_a_names root_and_file_along .here root_and_file_entry
    root_and_file_stored root_and_file_deletable Cache.empty

end LaLiga.Rfs
