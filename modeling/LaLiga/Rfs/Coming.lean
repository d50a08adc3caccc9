import LaLiga.Rfs.AttachNodes

/-! The free block that the next data pointer of an inode gets. -/
namespace LaLiga.Rfs

open LaLiga.Lib

/-- The free blocks below the block `b`. -/
def free_below (c : Superblock_constants) (fs : Image) (b : Nat) : Finset Nat :=
  (Finset.range b).filter fun d => IsBlock c d ∧ used c fs d = false

/-- The nodes on the way to the leaf `N` that have no block. -/
def missing (c : Superblock_constants) (i N : Nat) (fs : Image) : Finset Node :=
  (way c i N).filter fun x => x.ptr c fs = 0

/-- The free block `b`, filled with `m`, is there for the leaf `N`: below it there is one free
block for each indirect block that is missing, and these are clean. -/
structure Coming (c : Superblock_constants) (i N b : Nat) (m : Nat → UInt8) (fs : Image) : Prop where
  block : IsBlock c b
  clear : used c fs b = false
  content : fs.block b = m
  count : (free_below c fs b).card + 1 = (missing c i N fs).card
  clean : ∀ d ∈ free_below c fs b, ∀ j < c.BLOCK_SIZE, fs.block d j = 0

/-- The indirect blocks for the leaf `N` will be clean. -/
def Fresh (c : Superblock_constants) (i N : Nat) (fs : Image) : Prop :=
  Clean c fs ∨ ∃ b m, Coming c i N b m fs

variable {c : Superblock_constants} {live : Nat → Prop} {fs fs' fs₁ : Image}
  {i s N d b v n : Nat} {m : Nat → UInt8} {path : List Nat} {l : List Nat} {x y : Node}

theorem mem_free_below : d ∈ free_below c fs b ↔ d < b ∧ IsBlock c d ∧ used c fs d = false := by
  simp [free_below]

theorem mem_missing : x ∈ missing c i N fs ↔ x ∈ way c i N ∧ x.ptr c fs = 0 := by
  simp [missing]

/-- There are no more free blocks than are counted. -/
theorem Pool.card_le (hpool : Pool c fs) {S : Finset Nat}
    (hS : ∀ d ∈ S, IsBlock c d ∧ used c fs d = false) : S.card ≤ fs.TOTAL_UNALLOCATED_BLOCKS := by
  have hgroup : ∀ d ∈ S, block_group c d ∈ Finset.range c.TOTAL_GROUPS := fun d hd =>
    Finset.mem_range.mpr (hS d hd).1.group_lt
  rw [hpool.total, Finset.card_eq_sum_card_fiberwise hgroup]
  refine Finset.sum_le_sum fun g _ => ?_
  refine Finset.card_le_card_of_injOn (block_bit c) ?_ ?_
  · intro d hmem
    obtain ⟨hd, rfl⟩ := Finset.mem_filter.mp hmem
    have hbit := block_bit_lt (c := c) d
    exact mem_clearIn.mpr ⟨by omega, (hS d hd).2⟩
  · intro a hmem b hmem' heq
    obtain ⟨ha, hga⟩ := Finset.mem_filter.mp hmem
    obtain ⟨hb, hgb⟩ := Finset.mem_filter.mp hmem'
    rw [(hS a ha).1.eq, (hS b hb).1.eq, hga, hgb, heq]

/-- All that are counted are there. -/
theorem Pool.le_card (hpool : Pool c fs) : fs.TOTAL_UNALLOCATED_BLOCKS ≤
    (free_below c fs (c.TOTAL_GROUPS * c.BLOCKS_PER_GROUP + 1)).card := by
  have hgroup : ∀ d ∈ free_below c fs (c.TOTAL_GROUPS * c.BLOCKS_PER_GROUP + 1),
      block_group c d ∈ Finset.range c.TOTAL_GROUPS := fun d hd =>
    Finset.mem_range.mpr (mem_free_below.mp hd).2.1.group_lt
  rw [hpool.total, Finset.card_eq_sum_card_fiberwise hgroup]
  refine Finset.sum_le_sum fun g hg => ?_
  have hg := Finset.mem_range.mp hg
  refine Finset.card_le_card_of_injOn (fun k => k + (g * c.BLOCKS_PER_GROUP + 1)) ?_ ?_
  · intro k hmem
    obtain ⟨⟨-, hk⟩, hclear⟩ := mem_clearIn.mp hmem
    rw [Nat.zero_add] at hk
    have hblock := isBlock_of_bit hg hk
    refine Finset.mem_filter.mpr ⟨mem_free_below.mpr ⟨?_, hblock, ?_⟩, block_group_of_bit hg hk⟩
    · exact Nat.lt_succ_of_le hblock.2
    · rwa [used, block_group_of_bit hg hk, block_bit_of_bit hg hk]
  · intro a _ b _ heq
    exact Nat.add_right_cancel heq

/-- The free blocks in their order. -/
theorem exists_free {k M : Nat} (h : k < (free_below c fs M).card) :
    ∃ b, IsBlock c b ∧ used c fs b = false ∧ (free_below c fs b).card = k := by
  induction M with
  | zero => simp [free_below] at h
  | succ M ih =>
    by_cases hk : k < (free_below c fs M).card
    · exact ih hk
    · have hfree : IsBlock c M ∧ used c fs M = false := by
        by_contra hnot
        rw [free_below, Finset.range_add_one, Finset.filter_insert, if_neg hnot] at h
        exact hk h
      have hle := Finset.card_insert_le M (free_below c fs M)
      rw [free_below, Finset.range_add_one, Finset.filter_insert, if_pos hfree,
        ← free_below] at h
      exact ⟨M, hfree.1, hfree.2, by omega⟩

/-- The blocks that are lower than a lower one are fewer. -/
theorem free_below_lt (h : d ∈ free_below c fs b) :
    (free_below c fs d).card < (free_below c fs b).card := by
  apply Finset.card_lt_card
  obtain ⟨hlt, -⟩ := mem_free_below.mp h
  refine ⟨fun x hx => ?_, fun hsub => ?_⟩
  · obtain ⟨hx, hfree⟩ := mem_free_below.mp hx
    exact mem_free_below.mpr ⟨hx.trans hlt, hfree⟩
  · exact absurd (mem_free_below.mp (hsub h)).1 (Nat.lt_irrefl d)

/-- One block is the lowest free one. -/
theorem Allocated.first (halloc : Allocated c fs 1 [v] fs₁) (hd : IsBlock c d)
    (hclear : used c fs d = false) : v ≤ d := by
  by_contra hlt
  have := halloc.lowest v (List.mem_singleton_self v) d hd hclear (Nat.not_le.mp hlt)
  exact hlt (List.mem_singleton.mp this).ge

namespace Coming

/-- While more than one pointer is missing the next block lies below. -/
theorem next (h : Coming c i N b m fs) (halloc : Allocated c fs 1 [v] fs₁)
    (hx : x ∈ missing c i N fs) (hy : y ∈ missing c i N fs) (hne : x ≠ y) :
    v ∈ free_below c fs b := by
  have hmore : 1 < (missing c i N fs).card := Finset.one_lt_card.mpr ⟨x, hx, y, hy, hne⟩
  have hcount := h.count
  obtain ⟨d, hd⟩ := Finset.card_pos.mp (show 0 < (free_below c fs b).card by omega)
  obtain ⟨hlt, hblock, hclear⟩ := mem_free_below.mp hd
  have hle := halloc.first hblock hclear
  exact mem_free_below.mpr
    ⟨hle.trans_lt hlt, halloc.block v (by simp), halloc.clear v (by simp)⟩

/-- The last pointer gets the block. -/
theorem last (h : Coming c i N b m fs) (halloc : Allocated c fs 1 [v] fs₁)
    (hlast : missing c i N fs = {x}) : v = b := by
  have hcount := h.count
  rw [hlast, Finset.card_singleton] at hcount
  have hnone : free_below c fs b = ∅ := Finset.card_eq_zero.mp (by omega)
  refine (halloc.first h.block h.clear).eq_of_not_lt fun hlt => ?_
  refine Finset.notMem_empty v ?_
  rw [← hnone]
  exact mem_free_below.mpr ⟨hlt, halloc.block v (by simp), halloc.clear v (by simp)⟩

/-- It stays there while the pointers above are set. -/
theorem grew (h : Coming c i N b m fs) (hP : 1 < pointers_per_block c) (hi : live i)
    (hN : N < level_start c 4) (hgrew : Grew c live i fs [x] fs') (hx : x ∈ way c i N)
    (hv : x.ptr c fs' ∈ free_below c fs b) : Coming c i N b m fs' := by
  have hused : ∀ d, IsBlock c d → (used c fs' d = false ↔ used c fs d = false ∧ d ≠ x.ptr c fs') := by
    intro d hd
    rw [← Bool.not_eq_true, hgrew.used_iff d hd, not_or, Bool.not_eq_true]
    simp [eq_comm (b := d)]
  have hlt := (mem_free_below.mp hv).1
  have hclear : used c fs' b = false := (hused b h.block).mpr ⟨h.clear, hlt.ne'⟩
  have hbelow : free_below c fs' b = (free_below c fs b).erase (x.ptr c fs') := by
    ext d
    rw [Finset.mem_erase, mem_free_below, mem_free_below]
    constructor
    · rintro ⟨hdb, hd, hfree⟩
      obtain ⟨hfree, hne⟩ := (hused d hd).mp hfree
      exact ⟨hne, hdb, hd, hfree⟩
    · rintro ⟨hne, hdb, hd, hfree⟩
      exact ⟨hdb, hd, (hused d hd).mpr ⟨hfree, hne⟩⟩
  have hset := hgrew.fresh x (List.mem_singleton_self x)
  have hmissing : missing c i N fs' = (missing c i N fs).erase x := by
    ext y
    rw [Finset.mem_erase, mem_missing, mem_missing]
    by_cases hyx : y = x
    · subst hyx
      simp [hset.2.1]
    · have hkept : y ∈ way c i N → y.ptr c fs' = y.ptr c fs := by
        intro hy
        obtain ⟨hinode, hvalid, -⟩ := (mem_way hP hN).mp hy
        exact hgrew.kept y ⟨hinode ▸ hi, hvalid⟩ (by simpa using hyx)
      constructor
      · rintro ⟨hy, hzero⟩
        exact ⟨hyx, hy, hkept hy ▸ hzero⟩
      · rintro ⟨-, hy, hzero⟩
        exact ⟨hy, (hkept hy).trans hzero⟩
  have hcount := h.count
  have hpos := Finset.card_pos.mpr ⟨_, hv⟩
  refine ⟨h.block, hclear, (hgrew.content_of_clear hclear).trans h.content, ?_, ?_⟩
  · rw [hbelow, hmissing, Finset.card_erase_of_mem hv,
      Finset.card_erase_of_mem (mem_missing.mpr ⟨hx, hset.1⟩)]
    omega
  · intro d hd j hj
    have hfree := (mem_free_below.mp hd).2.2
    rw [hgrew.content_of_clear hfree]
    rw [hbelow] at hd
    exact h.clean d (Finset.mem_of_mem_erase hd) j hj

end Coming

/-- The leaf that comes next has no block yet. -/
theorem Full.leaf_missing (hP : 1 < pointers_per_block c) (h : Full c fs i N d)
    (hN : N < level_start c 4) :
    (⟨i, (leaf_of c N).1, (leaf_of c N).2⟩ : Node) ∈ missing c i N fs := by
  obtain ⟨hleaf, hindex⟩ := leaf_of_spec hP hN
  rw [← first_index_leaf hleaf] at hindex
  refine mem_missing.mpr ⟨(mem_way hP hN).mpr ⟨rfl, hleaf.valid, hindex⟩, ?_⟩
  by_contra hset
  have := (h _ _ hleaf.valid).mp hset
  have := hleaf.length
  omega

/-- The leaf gets the block that was there for it, as it was. -/
theorem Coming.given (h : Coming c i N b m fs) (hP : 1 < pointers_per_block c)
    (hgrew : Grew c live i fs [⟨i, s, path⟩] fs') (hleaf : Leaf c s path)
    (hindex : leaf_index c s path = N) (habove : ∀ k p, path = k :: p → ptr c fs i s p ≠ 0)
    (halloc : Allocated c fs 1 [v] fs₁) (hused : used c fs' = used c fs₁) :
    block_at c fs' i N = b ∧ fs'.block b = m := by
  have hlast : missing c i N fs = {⟨i, s, path⟩} := by
    ext y
    rw [mem_missing, Finset.mem_singleton]
    constructor
    · rintro ⟨hy, hzero⟩
      obtain ⟨t, -, rfl⟩ := Finset.mem_image.mp hy
      rw [← hindex, leaf_of_index hP hleaf] at hzero ⊢
      rcases t with _ | t
      · rfl
      · cases path with
        | nil => rfl
        | cons k p =>
          exact absurd (ptr_below_suffix (List.drop_suffix t p) hzero) (habove k p rfl)
    · rintro rfl
      have hnode := node_mem_way (i := i) hP hleaf.valid
      rw [first_index_leaf hleaf, hindex] at hnode
      exact ⟨hnode, (hgrew.fresh _ (List.mem_singleton_self _)).1⟩
  have hself : ptr c fs' i s path = v := by
    obtain ⟨-, hset, hclear⟩ := hgrew.fresh _ (List.mem_singleton_self _)
    have hx := hgrew.held _ (List.mem_singleton_self _)
    have hblock := hgrew.owned.block _ hx hset
    have hnew := hgrew.owned.used _ hx hset
    rw [hused, halloc.used_iff _ hblock, hclear] at hnew
    exact List.mem_singleton.mp (hnew.resolve_left Bool.false_ne_true)
  have hv : ptr c fs' i s path = b := hself.trans (h.last halloc hlast)
  have hblock : block_at c fs' i N = ptr c fs' i s path := by
    rw [← hindex, block_at_leaf hP hleaf]
  refine ⟨hblock.trans hv, ?_⟩
  rcases hgrew.data _ (List.mem_singleton_self _) hleaf with ⟨hmore, -⟩ | hsame
  · exact absurd hmore (by simp)
  · have hsame : fs'.block (ptr c fs' i s path) = fs.block (ptr c fs' i s path) := hsame
    rw [hv] at hsame
    exact hsame.trans h.content

/-- When nothing is prepared the whole way to the leaf is missing. -/
theorem Full.missing_eq (hP : 1 < pointers_per_block c) (h : Full c fs i N 0)
    (hN : N < level_start c 4) : missing c i N fs = way c i N := by
  refine Finset.filter_true_of_mem fun x hx => ?_
  obtain ⟨rfl, hvalid, hindex⟩ := (mem_way hP hN).mp hx
  by_contra hset
  have hset : ptr c fs x.inode x.slot x.path ≠ 0 := hset
  have := (h _ _ hvalid).mp hset
  omega

theorem Coming.free (h : Coming c i N b m fs) (hpool : Pool c fs) :
    (missing c i N fs).card ≤ fs.TOTAL_UNALLOCATED_BLOCKS := by
  rw [← h.count, ← Finset.card_insert_of_notMem (a := b) (by simp [mem_free_below])]
  refine hpool.card_le fun d hd => ?_
  rcases Finset.mem_insert.mp hd with rfl | hd
  · exact ⟨h.block, h.clear⟩
  · exact (mem_free_below.mp hd).2

section Indirect

variable (hP : 1 < pointers_per_block c) (hfull : Full c fs i N d) (hvalid : Valid c s path)
  (hlt : path.length < height s) (hfirst : first_index c s path = N)
  (hzero : ptr c fs i s path = 0) (halloc : Allocated c fs 1 [v] fs₁)
include hP hfull hvalid hlt hfirst hzero halloc

/-- The block of an indirect block lies below the one for the leaf. -/
theorem Coming.below (h : Coming c i N b m fs) : v ∈ free_below c fs b := by
  have hN : N < level_start c 4 := hfirst ▸ hvalid.first_lt hP
  have hnode : (⟨i, s, path⟩ : Node) ∈ missing c i N fs :=
    mem_missing.mpr ⟨(mem_way hP hN).mpr ⟨rfl, hvalid, hfirst⟩, hzero⟩
  refine h.next halloc hnode (hfull.leaf_missing hP hN) fun heq => ?_
  obtain ⟨hleaf, -⟩ := leaf_of_spec hP hN
  have hs : s = (leaf_of c N).1 := congrArg Node.slot heq
  have hpath : path = (leaf_of c N).2 := congrArg Node.path heq
  rw [hs, hpath] at hlt
  exact absurd hleaf.length hlt.ne

theorem Fresh.clean (h : Fresh c i N fs) : ∀ j < c.BLOCK_SIZE, fs.block v j = 0 := by
  rcases h with hclean | ⟨b, m, hcoming⟩
  · exact hclean v (halloc.block v (by simp)) (halloc.clear v (by simp))
  · exact hcoming.clean v (hcoming.below hP hfull hvalid hlt hfirst hzero halloc)

end Indirect

end LaLiga.Rfs
