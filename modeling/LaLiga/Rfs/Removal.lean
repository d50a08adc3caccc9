import LaLiga.Rfs.Ownership

/-! What taking blocks from an inode leaves, one node after the other. -/
namespace LaLiga.Rfs

open LaLiga.Lib

/-- The block `b` given back to the bitmaps. -/
structure Freed (c : Superblock_constants) (fs : Image) (b : Nat) (fs' : Image) : Prop where
  used_iff : ∀ d, IsBlock c d → (used c fs' d = true ↔ used c fs d = true ∧ d ≠ b)
  pool : Pool c fs'
  total : fs'.TOTAL_UNALLOCATED_BLOCKS = fs.TOTAL_UNALLOCATED_BLOCKS + 1
  counts : ∀ g < c.TOTAL_GROUPS, (fs'.gdt g).UNALLOCATED_BLOCKS =
    (fs.gdt g).UNALLOCATED_BLOCKS + if block_group c b = g then 1 else 0
  inode : fs'.inode = fs.inode
  block : fs'.block = fs.block
  same : Same_inodes c fs fs'

/-- The nodes `D` of the inode `i` taken away: their blocks are free, their pointers 0, and all
other pointers and blocks as they were. -/
structure Shrunk (c : Superblock_constants) (live : Nat → Prop) (i : Nat) (fs : Image)
    (D : List Node) (fs' : Image) : Prop where
  nodup : D.Nodup
  inode : ∀ x ∈ D, x.inode = i
  held : ∀ x ∈ D, Held c live x
  freed : ∀ x ∈ D, x.ptr c fs ≠ 0 ∧ x.ptr c fs' = 0
  kept : ∀ x, Held c live x → x ∉ D → x.ptr c fs' = x.ptr c fs
  owned : Owned c live fs'
  pool : Pool c fs'
  used_iff : ∀ b, IsBlock c b →
    (used c fs' b = true ↔ used c fs b = true ∧ ∀ x ∈ D, x.ptr c fs ≠ b)
  total : fs'.TOTAL_UNALLOCATED_BLOCKS = fs.TOTAL_UNALLOCATED_BLOCKS + D.length
  counts : ∀ g < c.TOTAL_GROUPS, (fs'.gdt g).UNALLOCATED_BLOCKS =
    (fs.gdt g).UNALLOCATED_BLOCKS + D.countP fun x => block_group c (x.ptr c fs) = g
  content : ∀ b, (∀ x ∈ D, ∀ k p, x.path = k :: p → b ≠ ptr c fs x.inode x.slot p) →
    fs'.block b = fs.block b
  rest : Inode_kept fs fs' i
  same : Same_inodes c fs fs'

variable {c : Superblock_constants} {live : Nat → Prop} {fs fs' fs'' : Image}
  {i s k n b : Nat} {path : List Nat} {D D' : List Node} {x : Node}

theorem ptr_congr (hinode : fs'.inode = fs.inode) (hblock : fs'.block = fs.block) :
    ptr c fs' i s path = ptr c fs i s path := by
  induction path with
  | nil => rw [ptr_nil, ptr_nil, hinode]
  | cons k path ih =>
    have hindirect : indirect c fs' = indirect c fs := by
      funext b k
      rw [indirect, indirect, hblock]
    simp only [ptr, ih, hindirect]

theorem set_ptr_congr (c : Superblock_constants) (i s : Nat) (path : List Nat) (v : Nat)
    (hinode : fs'.inode = fs.inode) (hblock : fs'.block = fs.block) :
    (set_ptr c fs' i s path v).inode = (set_ptr c fs i s path v).inode ∧
      (set_ptr c fs' i s path v).block = (set_ptr c fs i s path v).block := by
  cases path with
  | nil =>
    simp only [set_ptr, set_slot, set_pointer_data_0, set_pointer_data_1, set_pointer_data_2,
      set_pointer_data_3, hinode]
    split_ifs <;> exact ⟨by simp only [set_inode, hinode], hblock⟩
  | cons k path =>
    refine ⟨hinode, ?_⟩
    simp only [set_ptr, set_indirect, ptr_congr hinode hblock, hblock]

theorem Owned.congr (h : Owned c live fs) (hinode : fs'.inode = fs.inode)
    (hblock : fs'.block = fs.block) (hused : ∀ x, Held c live x → x.ptr c fs ≠ 0 →
      Rfs.used c fs' (x.ptr c fs) = true) : Owned c live fs' := by
  have hptr : ∀ x : Node, x.ptr c fs' = x.ptr c fs := fun x => ptr_congr hinode hblock
  constructor
  · intro x y hx hy
    rw [hptr, hptr]
    exact h.inj x y hx hy
  · intro x hx
    rw [hptr]
    exact h.block x hx
  · intro x hx
    rw [hptr]
    exact hused x hx

/-- A used block can be freed. -/
theorem free_block_freed (hpool : Pool c fs) (hb : IsBlock c b) (hused : used c fs b = true) :
    ∃ fs', free_block c fs b = .ok fs' ∧ Freed c fs b fs' := by
  have hok : free_block c fs b = .ok (setFreeBlockBitmap c fs b) := if_pos hb.group_lt
  have hfree := fun h hh => free_setFreeBlockBitmap_group hpool.bitmaps hb hused (h := h) hh
  have hlt : free_in_group c fs (block_group c b) < c.BLOCKS_PER_GROUP := by
    have hle := free_in_group_le c (setFreeBlockBitmap_group c fs b) (block_group c b)
    rw [hfree _ hb.group_lt, if_pos rfl] at hle
    exact hle
  have htotal : fs.TOTAL_UNALLOCATED_BLOCKS < c.TOTAL_GROUPS * c.BLOCKS_PER_GROUP := by
    rw [hpool.total]
    calc ∑ k ∈ Finset.range c.TOTAL_GROUPS, free_in_group c fs k
        < ∑ _k ∈ Finset.range c.TOTAL_GROUPS, c.BLOCKS_PER_GROUP :=
          Finset.sum_lt_sum (fun k _ => free_in_group_le c fs k)
            ⟨_, Finset.mem_range.mpr hb.group_lt, hlt⟩
      _ = c.TOTAL_GROUPS * c.BLOCKS_PER_GROUP := by simp
  have hnumbers := c.numbers_fit
  have hgroup := c.group_fits
  have hcounts : ∀ g < c.TOTAL_GROUPS, ((setFreeBlockBitmap c fs b).gdt g).UNALLOCATED_BLOCKS =
      (fs.gdt g).UNALLOCATED_BLOCKS + if block_group c b = g then 1 else 0 := by
    intro g hg
    by_cases hgb : g = block_group c b
    · subst hgb
      have hcount := hpool.counts _ hg
      simp only [setFreeBlockBitmap, setFreeBlockBitmap_super, setFreeBlockBitmap_group,
        Image.setDescriptor, Image.setBitmap, Function.update_self, if_pos]
      rw [Nat.mod_eq_of_lt (by omega)]
    · simp [setFreeBlockBitmap, setFreeBlockBitmap_super, setFreeBlockBitmap_group,
        Image.setDescriptor, Image.setBitmap, hgb, Ne.symm hgb]
  have hTOTAL : (setFreeBlockBitmap c fs b).TOTAL_UNALLOCATED_BLOCKS =
      fs.TOTAL_UNALLOCATED_BLOCKS + 1 := by
    show (fs.TOTAL_UNALLOCATED_BLOCKS + 1) % 2 ^ 32 = _
    exact Nat.mod_eq_of_lt (by omega)
  refine ⟨_, hok, ?_, ⟨?_, ?_, ?_, hpool.mapped⟩, hTOTAL, hcounts, rfl, rfl, same_free_block hok⟩
  · intro d hd
    rw [← used_setFreeBlockBitmap_group hpool.bitmaps hb hd, used, used]
    rfl
  · exact bitmapsInGroup_setFreeBlockBitmap_group hpool.bitmaps
  · intro g hg
    have hg' := hfree g hg
    rw [hcounts g hg, hpool.counts g hg]
    simp only [eq_comm (a := g)] at hg'
    exact hg'.symm
  · rw [hTOTAL, hpool.total]
    have hsum : ∑ g ∈ Finset.range c.TOTAL_GROUPS, free_in_group c (setFreeBlockBitmap c fs b) g =
        ∑ g ∈ Finset.range c.TOTAL_GROUPS,
          (free_in_group c fs g + if g = block_group c b then 1 else 0) :=
      Finset.sum_congr rfl fun g hg => hfree g (Finset.mem_range.mp hg)
    rw [hsum, Finset.sum_add_distrib, Finset.sum_ite_eq' _ _ _,
      if_pos (Finset.mem_range.mpr hb.group_lt)]

theorem Shrunk.refl (hown : Owned c live fs) (hpool : Pool c fs) : Shrunk c live i fs [] fs where
  nodup := List.nodup_nil
  inode := by simp
  held := by simp
  freed := by simp
  kept := fun _ _ _ => rfl
  owned := hown
  pool := hpool
  used_iff := by simp
  total := rfl
  counts := by simp
  content := fun _ _ => rfl
  rest := .of_eq rfl
  same := .refl fs

theorem Shrunk.trans (h : Shrunk c live i fs D fs') (h' : Shrunk c live i fs' D' fs'') :
    Shrunk c live i fs (D ++ D') fs'' := by
  have hapart : ∀ x ∈ D', x ∉ D := fun x hx hD => (h'.freed x hx).1 (h.freed x hD).2
  have hsame : ∀ x ∈ D', x.ptr c fs' = x.ptr c fs := fun x hx =>
    h.kept x (h'.held x hx) (hapart x hx)
  constructor
  · exact List.nodup_append'.mpr ⟨h.nodup, h'.nodup, fun x hx hx' => hapart x hx' hx⟩
  · intro x hx
    rcases List.mem_append.mp hx with hx | hx
    · exact h.inode x hx
    · exact h'.inode x hx
  · intro x hx
    rcases List.mem_append.mp hx with hx | hx
    · exact h.held x hx
    · exact h'.held x hx
  · intro x hx
    rcases List.mem_append.mp hx with hD | hD'
    · refine ⟨(h.freed x hD).1, ?_⟩
      rw [h'.kept x (h.held x hD) fun hx' => hapart x hx' hD]
      exact (h.freed x hD).2
    · rw [← hsame x hD']
      exact h'.freed x hD'
  · intro x hx hnot
    rw [List.mem_append, not_or] at hnot
    rw [h'.kept x hx hnot.2, h.kept x hx hnot.1]
  · exact h'.owned
  · exact h'.pool
  · intro b hb
    rw [h'.used_iff b hb, h.used_iff b hb, List.forall_mem_append, and_assoc]
    refine and_congr_right fun _ => and_congr_right fun _ => ?_
    exact forall₂_congr fun x hx => by rw [hsame x hx]
  · rw [h'.total, h.total, List.length_append, Nat.add_assoc]
  · intro g hg
    have hcount : D'.countP (fun x => block_group c (x.ptr c fs') = g) =
        D'.countP (fun x => block_group c (x.ptr c fs) = g) :=
      List.countP_congr fun x hx => by rw [hsame x hx]
    rw [h'.counts g hg, h.counts g hg, List.countP_append, hcount, Nat.add_assoc]
  · intro b hb
    rw [List.forall_mem_append] at hb
    rw [h'.content b, h.content b hb.1]
    intro x hx k p hpath heq
    refine hb.2 x hx k p hpath (heq.trans ?_)
    have hparent : Held c live ⟨x.inode, x.slot, p⟩ :=
      Held.tail (k := k) (hpath ▸ h'.held x hx)
    refine h.kept _ hparent fun hD => (h'.freed x hx).1 ?_
    have hzero : ptr c fs' x.inode x.slot p = 0 := (h.freed _ hD).2
    exact ptr_below_suffix (hpath ▸ List.suffix_cons k p) hzero
  · exact h.rest.trans h'.rest
  · exact h.same.trans h'.same

section Drop

variable (hown : Owned c live fs) (hpool : Pool c fs)
include hown hpool

/-- A pointer that is changed leaves those above it. -/
theorem ptr_set_ptr_tail {v : Nat} (hx : Held c live ⟨i, s, k :: path⟩)
    (hne : ptr c fs i s path ≠ 0) (hinode : fs'.inode = fs.inode) (hblock : fs'.block = fs.block) :
    ptr c (set_ptr c fs' i s (k :: path) v) i s path = ptr c fs i s path := by
  obtain ⟨hinode', hblock'⟩ := set_ptr_congr c i s (k :: path) v hinode hblock
  rw [ptr_congr hinode' hblock']
  refine (set_ptr_untouched hown hpool hx ?_).ptr hx.tail ?_
  · intro l p hp
    cases hp
    exact hne
  · intro p hp heq
    cases heq
    exact absurd hp.length_le (by simp)

variable (hx : Held c live ⟨i, s, path⟩) (hne : ptr c fs i s path ≠ 0)
  (hbelow : ∀ k, Valid c s (k :: path) → ptr c fs i s (k :: path) = 0)
include hx hne hbelow

/-- A node with nothing below it can be taken away. -/
theorem drop_node : ∃ fs₁, free_block c fs (ptr c fs i s path) = .ok fs₁ ∧
    Shrunk c live i fs [⟨i, s, path⟩] (set_ptr c fs₁ i s path 0) := by
  have hb : IsBlock c (ptr c fs i s path) := hown.block _ hx hne
  obtain ⟨fs₁, hfree, hfreed⟩ := free_block_freed hpool hb (hown.used ⟨i, s, path⟩ hx hne)
  refine ⟨fs₁, hfree, ?_⟩
  have habove : ∀ k p, path = k :: p → ptr c fs i s p ≠ 0 := by
    rintro k p rfl
    exact ptr_parent hne
  -- clearing the pointer in `fs₁` is clearing it in `fs`, but for the bitmaps
  have hset := set_ptr_congr c i s path 0 hfreed.inode hfreed.block
  have hptr : ∀ y : Node, y.ptr c (set_ptr c fs₁ i s path 0) = y.ptr c (set_ptr c fs i s path 0) :=
    fun y => ptr_congr hset.1 hset.2
  have hself : ptr c (set_ptr c fs i s path 0) i s path = 0 :=
    ptr_set_ptr_self hown hpool hx habove (by norm_num)
  have hkept : ∀ y, Held c live y → y ≠ ⟨i, s, path⟩ →
      y.ptr c (set_ptr c fs₁ i s path 0) = y.ptr c fs := by
    intro y hy hyx
    rw [hptr]
    by_cases hunder : y.inode = i ∧ y.slot = s ∧ path <:+ y.path
    · obtain ⟨j, t, q⟩ := y
      obtain ⟨rfl, rfl, hq⟩ := hunder
      obtain ⟨k, hk⟩ := exists_suffix_below hq fun h => hyx (by simp only at h; rw [h])
      have hzero : ptr c fs j t q = 0 := ptr_below_suffix hk (hbelow k (hy.suffix hk).valid)
      show ptr c _ j t q = ptr c fs j t q
      rw [hzero, ptr_below_suffix hq hself]
    · refine (set_ptr_untouched hown hpool hx habove).ptr hy ?_
      intro p hp heq
      cases heq
      exact hunder ⟨rfl, rfl, hp⟩
  have hself' : ptr c (set_ptr c fs₁ i s path 0) i s path = 0 :=
    (hptr ⟨i, s, path⟩).trans hself
  have hused : ∀ b, IsBlock c b → (used c (set_ptr c fs₁ i s path 0) b = true ↔
      used c fs b = true ∧ b ≠ ptr c fs i s path) := by
    intro b hb
    rw [used_set_ptr]
    exact hfreed.used_iff b hb
  have hother : ∀ y : Node, y.ptr c (set_ptr c fs₁ i s path 0) ≠ 0 → y ≠ ⟨i, s, path⟩ := by
    rintro y hy rfl
    exact hy hself'
  constructor
  · exact List.nodup_singleton _
  · simp
  · simpa using hx
  · simpa using ⟨hne, hself'⟩
  · intro y hy hnot
    exact hkept y hy (by simpa using hnot)
  · constructor
    · intro y z hy hz hyne heq
      have hzne : z.ptr c (set_ptr c fs₁ i s path 0) ≠ 0 := heq ▸ hyne
      rw [hkept y hy (hother y hyne)] at heq hyne
      rw [hkept z hz (hother z hzne)] at heq
      exact hown.inj y z hy hz hyne heq
    · intro y hy hyne
      have hyx := hother y hyne
      rw [hkept y hy hyx] at hyne ⊢
      exact hown.block y hy hyne
    · intro y hy hyne
      have hyx := hother y hyne
      rw [hkept y hy hyx] at hyne ⊢
      refine (hused _ (hown.block y hy hyne)).mpr ⟨hown.used y hy hyne, ?_⟩
      exact fun heq => hyx (hown.inj y _ hy hx hyne heq)
  · exact hfreed.pool.congr (by simp) (by simp) (by simp)
  · intro b hb
    rw [hused b hb]
    simp [Node.ptr, ne_comm]
  · rw [set_ptr_total, hfreed.total]
    rfl
  · intro g hg
    rw [set_ptr_gdt, hfreed.counts g hg, List.countP_singleton]
    by_cases hgroup : block_group c (ptr c fs i s path) = g <;> simp [Node.ptr, hgroup]
  · intro b hparent
    rw [hset.2]
    apply set_ptr_block
    rintro k p rfl
    have hslot : slot c (ptr c fs i s p) = ptr c fs i s p :=
      hpool.slot (hown.block _ hx.tail (habove k p rfl))
    rw [hslot]
    exact hparent _ (List.mem_singleton_self _) k p rfl
  · exact (Inode_kept.of_eq hfreed.inode).trans set_ptr_kept
  · exact hfreed.same.trans same_set_ptr

end Drop

end LaLiga.Rfs
