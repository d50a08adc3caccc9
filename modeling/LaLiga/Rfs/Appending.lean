import LaLiga.Rfs.AttachBlocks

/-! A file that grows while there are blocks for it. -/
namespace LaLiga.Rfs

open LaLiga.Lib

variable {c : Superblock_constants} {live : Nat → Prop} {fs fs' : Image} {w w' : Worker_state}
  {i j s k m n b N d file_size : Nat} {path : List Nat} {D : List Node}

theorem le_needed : n ≤ needed c N n := by
  calc n = ∑ _m ∈ Finset.Ico N (N + n), 1 := by simp
    _ ≤ needed c N n := Finset.sum_le_sum fun m _ => Nat.le_add_left 1 _

section Leaves

variable (hP : 1 < pointers_per_block c)
include hP

theorem Filled.block_at (h : Filled c fs i N) (hm : m < level_start c 4) :
    block_at c fs i m ≠ 0 ↔ m < N := by
  obtain ⟨hleaf, hindex⟩ := leaf_of_spec hP hm
  rw [Rfs.block_at, h _ _ hleaf, hindex]

theorem Grown.block_at (h : Grown c live i fs fs') (hi : live i) (hm : m < level_start c 4)
    (hne : Rfs.block_at c fs i m ≠ 0) : Rfs.block_at c fs' i m = Rfs.block_at c fs i m := by
  obtain ⟨hleaf, -⟩ := leaf_of_spec hP hm
  exact h.ptr ⟨hi, hleaf.valid⟩ hne

/-- Each data block is in the list of blocks once. -/
theorem Owned.block_at_inj (h : Owned c live fs) (hi : live i) (hm : m < level_start c 4)
    (hn : n < level_start c 4) (hne : block_at c fs i m ≠ 0)
    (heq : block_at c fs i m = block_at c fs i n) : m = n := by
  obtain ⟨hleaf, hindex⟩ := leaf_of_spec hP hm
  obtain ⟨hleaf', hindex'⟩ := leaf_of_spec hP hn
  have hnode := h.inj ⟨i, _, _⟩ ⟨i, _, _⟩ ⟨hi, hleaf.valid⟩ ⟨hi, hleaf'.valid⟩ hne heq
  have hs : (leaf_of c m).1 = (leaf_of c n).1 := congrArg Node.slot hnode
  have hpath : (leaf_of c m).2 = (leaf_of c n).2 := congrArg Node.path hnode
  rw [hs, hpath, hindex'] at hindex
  exact hindex.symm

/-- The list of the blocks of a file that has the blocks for its size. -/
theorem Filled.addresses (h : Filled c fs i N) (hcap : N ≤ level_start c 4) (hN : 0 < N)
    (hsize : Size_In_Blocks c file_size = N) :
    Inode_Get_Data_Adressess c fs (fs.inode i) file_size =
      some ((List.range N).map (Rfs.block_at c fs i) ++ [0]) := by
  have hmax : max (Size_In_Blocks c file_size) 1 = N := by omega
  rw [Inode_Get_Data_Adressess_eq _ _ (hmax.trans_le hcap), hmax]
  congr 2
  apply List.map_congr_left
  intro m hm
  have hlt : m < N := List.mem_range.mp hm
  obtain ⟨hleaf, hindex⟩ := leaf_of_spec hP (hlt.trans_le hcap)
  have hne : Rfs.block_at c fs i m ≠ 0 := (h.block_at hP (hlt.trans_le hcap)).mpr hlt
  have hpointer := data_pointer_leaf hP hleaf hne
  rwa [hindex] at hpointer

end Leaves

/-- With enough blocks all that are asked for are attached. -/
theorem Attach_Blocks_attached (hsize : Ext2_size c) (hw : Prepared c live i N 0 w.file)
    (hi : live i) (hclean : Clean c w.file) (herr : w.errno ≠ some .ENOSPC) (hn : 0 < n)
    (hcap : N + n ≤ level_start c 4) (hfree : needed c N n ≤ w.file.TOTAL_UNALLOCATED_BLOCKS) :
    ∃ w', Attach_Blocks c i n w = .ok (0, w') ∧ w'.errno = w.errno ∧
      Reached c live i w.file (N + n) 0 w'.file := by
  have hP := hsize.pointers
  have hle : n ≤ needed c N n := le_needed
  have hnot : ¬ Stuck c live i w.file N n := fun hstuck =>
    absurd (hstuck.few hP hw) (Nat.not_lt.mpr hfree)
  have hk : n = min (level_start c 4 - N) n := by omega
  rcases Attach_Blocks_spec hP hsize.words hi hw (Or.inl hclean) hn (by omega) herr hk with
    ⟨-, -, hfew⟩ | ⟨w', hok, herrno, ⟨hzero, -⟩ | ⟨-, -, hreached, -⟩⟩ | ⟨-, -, hstuck⟩ |
    ⟨x, w', -, hends⟩
  · omega
  · exact absurd hzero hn.ne'
  · rw [Nat.sub_self] at hok
    exact ⟨w', hok, herrno, hreached⟩
  · exact absurd hstuck hnot
  · exact absurd hends.stuck hnot

/-- One more block is the one that was there for it, whatever it holds. -/
theorem Attach_Blocks_next {bytes : Nat → UInt8} (hsize : Ext2_size c)
    (hw : Prepared c live i N 0 w.file) (hi : live i) (hnext : Coming c i N b bytes w.file)
    (herr : w.errno ≠ some .ENOSPC) (hcap : N < level_start c 4) :
    ∃ w', Attach_Blocks c i 1 w = .ok (0, w') ∧ w'.errno = w.errno ∧
      Reached c live i w.file (N + 1) 0 w'.file ∧ block_at c w'.file i N = b ∧
      w'.file.block b = bytes := by
  have hP := hsize.pointers
  have hfree : needed c N 1 ≤ w.file.TOTAL_UNALLOCATED_BLOCKS := by
    have hmissing := hnext.free hw.pool
    rw [hw.full.missing_eq hP hcap, way_card] at hmissing
    simpa [needed] using hmissing
  have hle : 1 ≤ needed c N 1 := le_needed
  have hnot : ¬ Stuck c live i w.file N 1 := fun hstuck =>
    absurd (hstuck.few hP hw) (Nat.not_lt.mpr hfree)
  have hk : 1 = min (level_start c 4 - N) 1 := by omega
  have hready : Ready c i w.file N 1 := Or.inr (Or.inr ⟨rfl, Or.inr ⟨b, bytes, hnext⟩⟩)
  rcases Attach_Blocks_spec hP hsize.words hi hw hready Nat.one_pos hcap herr hk with
    ⟨-, -, hfew⟩ | ⟨w', hok, herrno, ⟨hzero, -⟩ | ⟨-, -, hreached, hgiven⟩⟩ | ⟨-, -, hstuck⟩ |
    ⟨x, w', -, hends⟩
  · omega
  · exact absurd hzero Nat.one_ne_zero
  · obtain ⟨hat, hcontent⟩ := hgiven b bytes rfl hnext
    exact ⟨w', hok, herrno, hreached, hat, hcontent⟩
  · exact absurd hstuck hnot
  · exact absurd hends.stuck hnot

/-- Growing by `n` blocks puts them behind those that are there: the list of the blocks is the old
one and `n` more that were free, as were the new indirect blocks, and what other inodes have is as
it was. -/
theorem Attach_Blocks_appends (hsize : c.BLOCK_SIZE = 1024) (hpool : Pool c w.file)
    (hown : Owned c live w.file) (hi : live i) (hclean : Clean c w.file)
    (hfilled : Filled c w.file i N) (htidy : Tidy c w.file i) (herr : w.errno ≠ some .ENOSPC)
    (hn : 1 ≤ n) (hcap : N + n ≤ level_start c 4)
    (hfree : needed c N n ≤ w.file.TOTAL_UNALLOCATED_BLOCKS) :
    ∃ w' old new, Attach_Blocks c i n w = .ok (0, w') ∧ old.length = N ∧ new.length = n ∧
      (∀ file_size, Size_In_Blocks c file_size = N → 0 < N →
        Inode_Get_Data_Adressess c w.file (w.file.inode i) file_size = some (old ++ [0])) ∧
      (∀ file_size, Size_In_Blocks c file_size = N + n →
        Inode_Get_Data_Adressess c w'.file (w'.file.inode i) file_size =
          some (old ++ new ++ [0])) ∧
      new.Nodup ∧ (∀ b ∈ new, IsBlock c b ∧ used c w.file b = false) ∧
      (∀ s path, Valid c s path → path.length < height s → ptr c w.file i s path = 0 →
        ptr c w'.file i s path ≠ 0 →
          used c w.file (ptr c w'.file i s path) = false ∧ ptr c w'.file i s path ∉ new) ∧
      (∀ j, j ≠ i → w'.file.inode j = w.file.inode j) ∧
      ∀ j s path, live j → j ≠ i → Valid c s path → ptr c w.file j s path ≠ 0 →
        ptr c w'.file j s path = ptr c w.file j s path ∧
          w'.file.block (ptr c w.file j s path) = w.file.block (ptr c w.file j s path) := by
  have hP : 1 < pointers_per_block c := Ext2_size.pointers (Or.inl hsize)
  have hw : Prepared c live i N 0 w.file := ⟨hown, hpool, full_of_tidy hP hfilled htidy⟩
  obtain ⟨w', hok, -, ⟨⟨D, hgrew⟩, hprepared⟩⟩ :=
    Attach_Blocks_attached (Or.inl hsize) hw hi hclean herr hn hcap hfree
  have hfilled' : Filled c w'.file i (N + n) := hprepared.full.filled
  have hold : ∀ m < N, block_at c w'.file i m = block_at c w.file i m := fun m hm =>
    Grown.block_at hP ⟨D, hgrew⟩ hi (by omega) ((hfilled.block_at hP (by omega)).mpr hm)
  -- a pointer that was 0 and is not any more is one of the new ones
  have hnew : ∀ s path, Valid c s path → ptr c w.file i s path = 0 →
      ptr c w'.file i s path ≠ 0 → (⟨i, s, path⟩ : Node) ∈ D := by
    intro s path hvalid hzero hne
    by_contra hD
    exact hne ((hgrew.kept ⟨i, s, path⟩ ⟨hi, hvalid⟩ hD).trans hzero)
  have hleaves : ∀ k < n, (⟨i, (leaf_of c (N + k)).1, (leaf_of c (N + k)).2⟩ : Node) ∈ D := by
    intro k hk
    obtain ⟨hleaf, -⟩ := leaf_of_spec hP (show N + k < level_start c 4 by omega)
    refine hnew _ _ hleaf.valid ?_ ((hfilled'.block_at hP (by omega)).mpr (by omega))
    by_contra hne
    have := (hfilled.block_at hP (by omega)).mp hne
    omega
  refine ⟨w', (List.range N).map (block_at c w.file i),
    (List.range n).map fun k => block_at c w'.file i (N + k), hok, by simp, by simp, ?_, ?_, ?_, ?_,
    ?_, hgrew.rest.others, ?_⟩
  · intro file_size hN hpos
    exact hfilled.addresses hP (by omega) hpos hN
  · intro file_size hN
    rw [hfilled'.addresses hP hcap (by omega) hN, List.range_add, List.map_append, List.map_map]
    congr 2
    apply congrArg₂ _ (List.map_congr_left ?_) rfl
    intro m hm
    exact hold m (List.mem_range.mp hm)
  · refine List.Nodup.map_on ?_ List.nodup_range
    intro k hk l hl heq
    have hk := List.mem_range.mp hk
    have hl := List.mem_range.mp hl
    have hne := (hfilled'.block_at hP (show N + k < level_start c 4 by omega)).mpr (by omega)
    have := hprepared.owned.block_at_inj hP hi (by omega) (by omega) hne heq
    omega
  · intro b hb
    obtain ⟨k, hk, rfl⟩ := List.mem_map.mp hb
    have hD := hleaves k (List.mem_range.mp hk)
    obtain ⟨-, hne, hclear⟩ := hgrew.fresh _ hD
    exact ⟨hprepared.owned.block _ (hgrew.held _ hD) hne, hclear⟩
  · intro s path hvalid hlt hzero hne
    refine ⟨(hgrew.fresh _ (hnew s path hvalid hzero hne)).2.2, ?_⟩
    intro hmem
    obtain ⟨k, hk, heq⟩ := List.mem_map.mp hmem
    have hk := List.mem_range.mp hk
    obtain ⟨hleaf, -⟩ := leaf_of_spec hP (show N + k < level_start c 4 by omega)
    have hnode := hprepared.owned.inj ⟨i, s, path⟩ ⟨i, _, _⟩ ⟨hi, hvalid⟩ ⟨hi, hleaf.valid⟩ hne heq.symm
    have hs : s = (leaf_of c (N + k)).1 := congrArg Node.slot hnode
    have hpath : path = (leaf_of c (N + k)).2 := congrArg Node.path hnode
    rw [hs, hpath] at hlt
    exact absurd hleaf.length hlt.ne
  · intro j s path hj hji hvalid hne
    have hx : Held c live ⟨j, s, path⟩ := ⟨hj, hvalid⟩
    have hkept : ptr c w'.file j s path = ptr c w.file j s path :=
      hgrew.kept ⟨j, s, path⟩ hx fun hD => hji (hgrew.inode _ hD)
    refine ⟨hkept, hgrew.content _ ?_ ?_⟩
    · intro x hD heq
      have hused : used c w.file (ptr c w.file j s path) = true := hown.used ⟨j, s, path⟩ hx hne
      rw [heq, (hgrew.fresh x hD).2.2] at hused
      cases hused
    · intro x hD k p hpath heq
      have hnode := hprepared.owned.inj ⟨j, s, path⟩ ⟨x.inode, x.slot, p⟩ hx
        ((hgrew.held x hD).parent hpath) (hkept.trans_ne hne) (hkept.trans heq)
      have hinode : j = x.inode := congrArg Node.inode hnode
      exact hji (hinode.trans (hgrew.inode x hD))

theorem small_file_clean : Clean (one_group 0 (by decide)) small_file := fun _ _ _ _ _ => rfl

theorem two_blocks_appended : ∃ w' old new,
    Attach_Blocks (one_group 0 (by decide)) 5 2 ⟨small_file, none⟩ = .ok (0, w') ∧
      old.length = 2 ∧ new.length = 2 ∧
      (∀ file_size, Size_In_Blocks (one_group 0 (by decide)) file_size = 2 → 0 < 2 →
        Inode_Get_Data_Adressess (one_group 0 (by decide)) small_file (small_file.inode 5)
          file_size = some (old ++ [0])) ∧
      (∀ file_size, Size_In_Blocks (one_group 0 (by decide)) file_size = 2 + 2 →
        Inode_Get_Data_Adressess (one_group 0 (by decide)) w'.file (w'.file.inode 5) file_size =
          some (old ++ new ++ [0])) ∧
      new.Nodup ∧ (∀ b ∈ new, IsBlock (one_group 0 (by decide)) b ∧
        used (one_group 0 (by decide)) small_file b = false) ∧
      (∀ s path, Valid (one_group 0 (by decide)) s path → path.length < height s →
        ptr (one_group 0 (by decide)) small_file 5 s path = 0 →
        ptr (one_group 0 (by decide)) w'.file 5 s path ≠ 0 →
          used (one_group 0 (by decide)) small_file
            (ptr (one_group 0 (by decide)) w'.file 5 s path) = false ∧
          ptr (one_group 0 (by decide)) w'.file 5 s path ∉ new) ∧
      (∀ j, j ≠ 5 → w'.file.inode j = small_file.inode j) ∧
      ∀ j s path, j = 5 → j ≠ 5 → Valid (one_group 0 (by decide)) s path →
        ptr (one_group 0 (by decide)) small_file j s path ≠ 0 →
        ptr (one_group 0 (by decide)) w'.file j s path =
            ptr (one_group 0 (by decide)) small_file j s path ∧
          w'.file.block (ptr (one_group 0 (by decide)) small_file j s path) =
            small_file.block (ptr (one_group 0 (by decide)) small_file j s path) :=
  Attach_Blocks_appends (w := ⟨small_file, none⟩) rfl small_file_pool small_file_owned rfl
    small_file_clean small_file_filled small_file_tidy (by decide) (by decide) (by decide)
    (by decide)

end LaLiga.Rfs
