import LaLiga.Rfs.BlockIndex

/-! A file that shrinks: the blocks that `Remove_Blocks` frees. -/
namespace LaLiga.Rfs

open LaLiga.Lib

variable (c : Superblock_constants)

/-- Every indirect block of the inode has an entry. -/
def Tidy (fs : Image) (i : Nat) : Prop :=
  ∀ s path, Valid c s path → path.length < height s → ptr c fs i s path ≠ 0 →
    ∃ k, Valid c s (k :: path) ∧ ptr c fs i s (k :: path) ≠ 0

variable {c} {live : Nat → Prop} {fs fs' : Image} {i s k m n N left start : Nat}
  {path : List Nat} {D : List Node}

section Step

variable (hremoved : Leaf_removed c live i s path fs D fs')
include hremoved

/-- A leaf on the path of another leaf is that leaf. -/
theorem Leaf_removed.eq_of_mem {t : Nat} {q : List Nat} (hleaf : Leaf c s path) (hq : Leaf c t q)
    (hD : (⟨i, t, q⟩ : Node) ∈ D) : t = s ∧ q = path := by
  obtain ⟨hs, hpath⟩ := hremoved.above _ hD
  refine ⟨hs, hpath.eq_of_length ?_⟩
  rw [hq.length, hleaf.length]
  exact congrArg height hs

/-- One leaf has gone, and the others are there. -/
theorem Leaf_removed.leaves (hP : 1 < pointers_per_block c) (hi : live i) (hleaf : Leaf c s path)
    {t : Nat} {q : List Nat} (hq : Leaf c t q) : ptr c fs' i t q ≠ 0 ↔
      ptr c fs i t q ≠ 0 ∧ leaf_index c t q ≠ leaf_index c s path := by
  by_cases hD : (⟨i, t, q⟩ : Node) ∈ D
  · obtain ⟨rfl, rfl⟩ := hremoved.eq_of_mem hleaf hq hD
    have hzero : ptr c fs' i t q = 0 := (hremoved.shrunk.freed _ hD).2
    simp [hzero]
  · have hkept : ptr c fs' i t q = ptr c fs i t q :=
      hremoved.shrunk.kept ⟨i, t, q⟩ ⟨hi, hq.valid⟩ hD
    rw [hkept, iff_self_and]
    intro _ heq
    obtain ⟨rfl, rfl⟩ := leaf_index_inj hP hq hleaf heq
    exact hD hremoved.leaf

theorem Leaf_removed.tidy_all (hi : live i) (htidy : Tidy c fs i) : Tidy c fs' i := by
  intro t q hq hlength hne
  by_cases hon : t = s ∧ q <:+ path
  · obtain ⟨rfl, hpath⟩ := hon
    exact hremoved.tidy q hpath hne
  · have hkept : ∀ p, q <:+ p → Valid c t p → ptr c fs' i t p = ptr c fs i t p := by
      intro p hp hvalid
      refine hremoved.shrunk.kept ⟨i, t, p⟩ ⟨hi, hvalid⟩ fun hD => hon ?_
      obtain ⟨hs, hpath⟩ := hremoved.above _ hD
      exact ⟨hs, hp.trans hpath⟩
    rw [hkept q List.suffix_rfl hq] at hne
    obtain ⟨k, hk, hentry⟩ := htidy t q hq hlength hne
    refine ⟨k, hk, ?_⟩
    rwa [hkept _ (List.suffix_cons k q) hk]

end Step

section Run

variable (hsize : Ext2_size c) (hi : live i) (hN : N ≤ level_start c 4)
include hsize hi hN

/-- The blocks from `start` to `N` are taken away in ascending order. -/
theorem Remove_Blocks_from_shrunk (left start : Nat) (hown : Owned c live fs) (hpool : Pool c fs)
    (htidy : Tidy c fs i) (hm : m ≤ start) (hleft : start + left = N)
    (hfilled : ∀ s path, Leaf c s path → (ptr c fs i s path ≠ 0 ↔ leaf_index c s path < m ∨
      start ≤ leaf_index c s path ∧ leaf_index c s path < N)) :
    ∃ D fs', Remove_Blocks_from c i left start fs = .ok fs' ∧ Shrunk c live i fs D fs' ∧
      Filled c fs' i m ∧ Tidy c fs' i := by
  have hP := hsize.pointers
  induction left generalizing start fs with
  | zero =>
    refine ⟨[], fs, rfl, .refl hown hpool, ?_, htidy⟩
    intro s path hleaf
    rw [hfilled s path hleaf]
    omega
  | succ left ih =>
    obtain ⟨hleaf, hindex⟩ := leaf_of_spec hP (show start < level_start c 4 by omega)
    have hne : ptr c fs i (leaf_of c start).1 (leaf_of c start).2 ≠ 0 := by
      rw [hfilled _ _ hleaf, hindex]
      omega
    obtain ⟨D, fs₁, hrun, hremoved⟩ := remove_leaf_removed hsize.words hown hpool hi hleaf hne
    have hremove := Remove_Block_eq hP hsize.levels.le hown hpool hi hleaf hne
    rw [hindex, hrun] at hremove
    obtain ⟨D', fs', hrest, hshrunk, hfilled', htidy'⟩ := ih (start + 1)
      hremoved.shrunk.owned hremoved.shrunk.pool (hremoved.tidy_all hi htidy) (by omega) (by omega)
      (by
        intro s path hq
        rw [hremoved.leaves hP hi hleaf hq, hfilled s path hq, hindex]
        omega)
    exact ⟨D ++ D', fs', bind_eq_ok.mpr ⟨fs₁, hremove, hrest⟩, hremoved.shrunk.trans hshrunk,
      hfilled', htidy'⟩

end Run

theorem uint32_of_lt (h : n < 2 ^ 32) : uint32 (n : Int) = n := by
  unfold uint32
  omega

/-- Shrinking by `N - m` blocks frees exactly the data blocks from `m` on and the indirect blocks
that are left without entries, each once. -/
theorem Remove_Blocks_exact (hsize : Ext2_size c) (hpool : Pool c fs) (hown : Owned c live fs)
    (hi : live i) (hN : N = Size_In_Blocks c (uint32 (fs.inode i).size))
    (hfilled : Filled c fs i N) (htidy : Tidy c fs i) (hm : m ≤ N) :
    ∃ D fs', Remove_Blocks c fs i (N - m) = .ok fs' ∧ Shrunk c live i fs D fs' ∧
      (∀ x, x ∈ D ↔ x.inode = i ∧ Valid c x.slot x.path ∧ x.ptr c fs ≠ 0 ∧ x.ptr c fs' = 0) ∧
      Filled c fs' i m ∧ Tidy c fs' i := by
  have hfile : uint32 (fs.inode i).size < 2 ^ 32 := by
    unfold uint32
    omega
  have hreach : N ≤ level_start c 4 := hN ▸ hsize.reach hfile
  have hlevels := hsize.levels
  have hstart : uint32 ((N : Int) - (N - m : Nat)) = m := by
    rw [show (N : Int) - (N - m : Nat) = m by omega]
    exact uint32_of_lt (by omega)
  obtain ⟨D, fs', hrun, hshrunk, hfilled', htidy'⟩ := Remove_Blocks_from_shrunk hsize hi
    hreach (N - m) m hown hpool htidy le_rfl (by omega) (by
      intro s path hleaf
      rw [hfilled s path hleaf]
      omega)
  refine ⟨D, fs', ?_, hshrunk, ?_, hfilled', htidy'⟩
  · unfold Remove_Blocks
    rw [← hN]
    dsimp only
    rw [hstart]
    exact hrun
  · intro x
    constructor
    · intro hx
      exact ⟨hshrunk.inode x hx, (hshrunk.held x hx).valid, hshrunk.freed x hx⟩
    · rintro ⟨hinode, hvalid, hne, hzero⟩
      by_contra hx
      have hkept := hshrunk.kept x ⟨hinode ▸ hi, hvalid⟩ hx
      exact hne (hkept.symm.trans hzero)

/-- The blocks of an inode without indirect blocks. -/
theorem filled_direct (hP : 1 < pointers_per_block c)
    (hnone : ∀ s, 12 ≤ s → s < 15 → pointer (fs.inode i) s = 0) (hN : N ≤ 12)
    (hset : ∀ s < 12, pointer (fs.inode i) s ≠ 0 ↔ s < N) : Filled c fs i N := by
  intro s path hleaf
  by_cases hs : s < 12
  · have hlength := hleaf.length
    rw [height_direct hs] at hlength
    obtain rfl := List.length_eq_zero_iff.mp hlength
    rw [ptr_nil, leaf_index_direct hs]
    exact hset s hs
  · have hrange := (hleaf.range hP).1
    have hlevel : level_start c 1 ≤ level_start c (height s) :=
      level_start_mono (height_indirect (Nat.not_lt.mp hs))
    have h1 : level_start c 1 = 12 := rfl
    have hzero : ptr c fs i s path = 0 :=
      ptr_below_suffix List.nil_suffix (hnone s (Nat.not_lt.mp hs) hleaf.slot)
    rw [hzero]
    omega

theorem tidy_direct (hnone : ∀ s, 12 ≤ s → s < 15 → pointer (fs.inode i) s = 0) :
    Tidy c fs i := by
  intro s path hvalid hlength hne
  have hdirect := (ptr_direct_only hnone hvalid hne).1
  rw [height_direct hdirect] at hlength
  exact absurd hlength (Nat.not_lt_zero _)

theorem small_file_filled : Filled (one_group 0 (by decide)) small_file 5 2 :=
  filled_direct (by decide) small_file_direct (by decide) (by decide)

theorem small_file_tidy : Tidy (one_group 0 (by decide)) small_file 5 :=
  tidy_direct small_file_direct

theorem last_block_freed : ∃ D fs',
    Remove_Blocks (one_group 0 (by decide)) small_file 5 (2 - 1) = .ok fs' ∧
    Shrunk (one_group 0 (by decide)) (fun j => j = 5) 5 small_file D fs' ∧
    (∀ x, x ∈ D ↔ x.inode = 5 ∧ Valid (one_group 0 (by decide)) x.slot x.path ∧
      x.ptr (one_group 0 (by decide)) small_file ≠ 0 ∧ x.ptr (one_group 0 (by decide)) fs' = 0) ∧
    Filled (one_group 0 (by decide)) fs' 5 1 ∧ Tidy (one_group 0 (by decide)) fs' 5 :=
  Remove_Blocks_exact (Or.inl rfl) small_file_pool small_file_owned rfl (by decide)
    small_file_filled small_file_tidy (by decide)

end LaLiga.Rfs
