import LaLiga.Lib.Counting
import LaLiga.Rfs.Frames

/-! What one worker alone gets from `Get_Free_Blocks`. -/
namespace LaLiga.Rfs

open LaLiga.Lib

/-- The counts of free blocks are those of the bitmaps, each bitmap lies in its own group, and
no block of the image starts at 2^32 or beyond. -/
structure Pool (c : Superblock_constants) (fs : Image) : Prop where
  bitmaps : BitmapsInGroup c fs
  counts : ∀ g < c.TOTAL_GROUPS, (fs.gdt g).UNALLOCATED_BLOCKS = free_in_group c fs g
  total : fs.TOTAL_UNALLOCATED_BLOCKS = ∑ g ∈ Finset.range c.TOTAL_GROUPS, free_in_group c fs g
  mapped : ∀ b, IsBlock c b → b * c.BLOCK_SIZE < 2 ^ 32

/-- What the search through the groups does to the bitmaps and the counts of the groups. -/
structure Gathered (c : Superblock_constants) (fs : Image) (l : List Nat) (fs' : Image) : Prop where
  nodup : l.Nodup
  block : ∀ b ∈ l, IsBlock c b
  clear : ∀ b ∈ l, used c fs b = false
  used_iff : ∀ b, IsBlock c b → (used c fs' b = true ↔ used c fs b = true ∨ b ∈ l)
  bitmaps : BitmapsInGroup c fs'
  counts : ∀ g < c.TOTAL_GROUPS, (fs'.gdt g).UNALLOCATED_BLOCKS = free_in_group c fs' g
  total : fs'.TOTAL_UNALLOCATED_BLOCKS = fs.TOTAL_UNALLOCATED_BLOCKS
  sum : ∑ g ∈ Finset.range c.TOTAL_GROUPS, free_in_group c fs' g + l.length =
    ∑ g ∈ Finset.range c.TOTAL_GROUPS, free_in_group c fs g

/-- `n` blocks taken from the image: free before and used after, all of them cleaned but the
last one, and nothing else changed. -/
structure Allocated (c : Superblock_constants) (fs : Image) (n : Nat) (l : List Nat)
    (fs' : Image) : Prop where
  length : l.length = n
  nodup : l.Nodup
  block : ∀ b ∈ l, IsBlock c b
  clear : ∀ b ∈ l, used c fs b = false
  used_iff : ∀ b, IsBlock c b → (used c fs' b = true ↔ used c fs b = true ∨ b ∈ l)
  pool : Pool c fs'
  total : fs'.TOTAL_UNALLOCATED_BLOCKS + n = fs.TOTAL_UNALLOCATED_BLOCKS
  inode : fs'.inode = fs.inode
  same : Same_inodes c fs fs'
  lowest : ∀ b ∈ l, ∀ b', IsBlock c b' → used c fs b' = false → b' < b → b' ∈ l
  cleaned : ∀ b ∈ l.dropLast, fs'.block b = fun _ => 0
  kept : ∀ b, b ∉ l.dropLast → fs'.block b = fs.block b

variable {c : Superblock_constants} {fs fs' fs'' : Image} {g k n : Nat} {l m : List Nat}

theorem Gathered.refl (hfs : BitmapsInGroup c fs)
    (hcounts : ∀ g < c.TOTAL_GROUPS, (fs.gdt g).UNALLOCATED_BLOCKS = free_in_group c fs g) :
    Gathered c fs [] fs where
  nodup := List.nodup_nil
  block := by simp
  clear := by simp
  used_iff := by simp
  bitmaps := hfs
  counts := hcounts
  total := rfl
  sum := rfl

theorem Gathered.trans (h : Gathered c fs l fs') (h' : Gathered c fs' m fs'') :
    Gathered c fs (l ++ m) fs'' where
  nodup := by
    refine List.nodup_append'.mpr ⟨h.nodup, h'.nodup, ?_⟩
    intro b hl hm
    have hused := (h.used_iff b (h.block b hl)).mpr (Or.inr hl)
    rw [h'.clear b hm] at hused
    cases hused
  block := by
    intro b hb
    rcases List.mem_append.mp hb with hb | hb
    · exact h.block b hb
    · exact h'.block b hb
  clear := by
    intro b hb
    rcases List.mem_append.mp hb with hb | hb
    · exact h.clear b hb
    · have hclear := h'.clear b hb
      by_contra hused
      rw [Bool.not_eq_false] at hused
      rw [(h.used_iff b (h'.block b hb)).mpr (Or.inl hused)] at hclear
      cases hclear
  used_iff := by
    intro b hb
    rw [h'.used_iff b hb, h.used_iff b hb, List.mem_append, or_assoc]
  bitmaps := h'.bitmaps
  counts := h'.counts
  total := h'.total.trans h.total
  sum := by
    rw [List.length_append, ← h.sum, ← h'.sum]
    omega

theorem Taken.gathered {left : Nat} (h : Taken c fs g k l left fs') (hg : g < c.TOTAL_GROUPS)
    (hfs : BitmapsInGroup c fs)
    (hcounts : ∀ g < c.TOTAL_GROUPS, (fs.gdt g).UNALLOCATED_BLOCKS = free_in_group c fs g) :
    Gathered c fs l fs' where
  nodup := h.nodup
  block := fun b hb => (h.block b hb).1
  clear := h.clear
  used_iff := fun b hb => h.used_iff hfs hg hb
  bitmaps := h.bitmapsInGroup hfs
  counts := by
    intro k hk
    by_cases hkg : k = g
    · subst hkg
      rw [h.count, h.free, hcounts k hk]
    · rw [h.others k hkg, hcounts k hk, h.free_other hfs hg hk hkg]
  total := h.total
  sum := by
    have hsum := sum_change (Finset.mem_range.mpr hg)
      fun k hk hne => h.free_other hfs hg (Finset.mem_range.mp hk) hne
    have hfree := h.free
    have hlength := h.length
    omega

theorem block_group_le {b b' : Nat} (hb : IsBlock c b) (hb' : IsBlock c b') (h : b' ≤ b) :
    block_group c b' ≤ block_group c b := by
  unfold block_group
  rw [hb.pred32, hb'.pred32]
  exact Nat.div_le_div_right (Nat.sub_le_sub_right h 1)

/-- A group that did not have enough has nothing left. -/
theorem Taken.emptied {b left : Nat} (h : Taken c fs g k l left fs') (hleft : left ≠ 0)
    (hgroup : block_group c b = g) : used c fs' b = true := by
  have hnone : free_in_group c fs' g = 0 := by
    have hfree := h.free
    have hleft' := h.left
    omega
  by_contra hclear
  refine Finset.notMem_empty (block_bit c b) ?_
  rw [← Finset.card_eq_zero.mp hnone, mem_clearIn]
  have hbit := block_bit_lt (c := c) b
  refine ⟨by omega, ?_⟩
  rw [← hgroup]
  exact Bool.eq_false_iff.mpr hclear

/-- The search finds what it asks for, when the groups that are left have it, and no free block of
theirs below what it finds is left out. -/
theorem Get_Free_Blocks_groups_gathered {groups : Nat} (fs : Image)
    (hend : g + groups = c.TOTAL_GROUPS)
    (hfs : BitmapsInGroup c fs)
    (hcounts : ∀ g < c.TOTAL_GROUPS, (fs.gdt g).UNALLOCATED_BLOCKS = free_in_group c fs g)
    (hk : k ≤ ∑ h ∈ Finset.Ico g c.TOTAL_GROUPS, free_in_group c fs h) :
    (Get_Free_Blocks_groups c groups g k fs).1.length = k ∧
      Gathered c fs (Get_Free_Blocks_groups c groups g k fs).1
        (Get_Free_Blocks_groups c groups g k fs).2 ∧
      ∀ b ∈ (Get_Free_Blocks_groups c groups g k fs).1, g ≤ block_group c b ∧
        ∀ b', IsBlock c b' → g ≤ block_group c b' → used c fs b' = false → b' < b →
          b' ∈ (Get_Free_Blocks_groups c groups g k fs).1 := by
  induction groups generalizing g k fs with
  | zero =>
    obtain rfl : g = c.TOTAL_GROUPS := hend
    rw [Finset.Ico_self, Finset.sum_empty] at hk
    exact ⟨(Nat.le_zero.mp hk).symm, .refl hfs hcounts, fun b hb => absurd hb List.not_mem_nil⟩
  | succ groups ih =>
    have hg : g < c.TOTAL_GROUPS := by omega
    unfold Get_Free_Blocks_groups
    split_ifs with h0
    · exact ⟨h0.symm, .refl hfs hcounts, fun b hb => absurd hb List.not_mem_nil⟩
    · have htaken := Get_Free_Blocks_group_taken hfs hg (hcounts g hg) k
      generalize Get_Free_Blocks_group c fs g k = r at htaken ⊢
      have hgathered := htaken.gathered hg hfs hcounts
      have hleft : r.2.1 ≤ ∑ h ∈ Finset.Ico (g + 1) c.TOTAL_GROUPS, free_in_group c r.2.2 h := by
        have hothers : ∑ h ∈ Finset.Ico (g + 1) c.TOTAL_GROUPS, free_in_group c r.2.2 h =
            ∑ h ∈ Finset.Ico (g + 1) c.TOTAL_GROUPS, free_in_group c fs h := by
          apply Finset.sum_congr rfl
          intro h hh
          obtain ⟨hlo, hhi⟩ := Finset.mem_Ico.mp hh
          exact htaken.free_other hfs hg hhi (by omega)
        rw [hothers, htaken.left]
        rw [Finset.sum_eq_sum_Ico_succ_bot hg] at hk
        omega
      obtain ⟨hlength, hrest, hlowest⟩ := ih _ (by omega) hgathered.bitmaps hgathered.counts hleft
      refine ⟨?_, hgathered.trans hrest, ?_⟩
      · rw [List.length_append, hlength, htaken.length, htaken.left]
        omega
      · intro b hb
        rw [List.mem_append] at hb
        rcases hb with hb | hb
        · obtain ⟨hblock, hgroup⟩ := htaken.block b hb
          refine ⟨hgroup.ge, fun b' hb' hlo hclear hlt => List.mem_append_left _ ?_⟩
          have hle := block_group_le hblock hb' hlt.le
          exact htaken.lowest b hb b' hb' (by omega) hclear hlt
        · obtain ⟨hgroup, hbelow⟩ := hlowest b hb
          refine ⟨(Nat.le_succ g).trans hgroup, fun b' hb' hlo hclear hlt => ?_⟩
          by_cases hmem : b' ∈ r.1
          · exact List.mem_append_left _ hmem
          · have hclear' : used c r.2.2 b' = false := by
              rw [← Bool.not_eq_true, hgathered.used_iff b' hb', hclear]
              simp [hmem]
            refine List.mem_append_right _ (hbelow b' hb' ?_ hclear' hlt)
            refine hlo.lt_of_ne fun hsame => ?_
            have hsome : r.2.1 ≠ 0 := by
              have := List.length_pos_of_mem hb
              omega
            rw [htaken.emptied hsome hsame.symm] at hclear'
            cases hclear'

/-- Cleaning zeroes all the blocks but the last. -/
theorem CleanBlocks_content (fs : Image) (hl : ∀ b ∈ l, b ≠ 0 ∧ slot c b = b) :
    (∀ b ∈ l.dropLast, (CleanBlocks c fs l).block b = fun _ => 0) ∧
      ∀ b, b ∉ l.dropLast → (CleanBlocks c fs l).block b = fs.block b := by
  induction l generalizing fs with
  | nil => exact ⟨by simp, fun _ _ => rfl⟩
  | cons b l ih =>
    cases l with
    | nil => exact ⟨by simp, fun _ _ => rfl⟩
    | cons next rest =>
      obtain ⟨hzero, hkept⟩ := ih (clear_block c fs b) fun d hd => hl d (by simp [hd])
      have hnext : next ≠ 0 := (hl next (by simp)).1
      have hslot := (hl b (by simp)).2
      unfold CleanBlocks
      rw [if_neg hnext]
      have hself : (clear_block c fs b).block b = fun _ => 0 := by
        rw [clear_block, hslot]
        exact Function.update_self ..
      have hother : ∀ d, d ≠ b → (clear_block c fs b).block d = fs.block d := by
        intro d hd
        rw [clear_block, hslot]
        exact Function.update_of_ne hd ..
      constructor
      · intro d hd
        by_cases hmem : d ∈ (next :: rest).dropLast
        · exact hzero d hmem
        · rw [hkept d hmem]
          rw [List.dropLast_cons_of_ne_nil (by simp)] at hd
          rcases List.mem_cons.mp hd with rfl | hd
          · exact hself
          · exact absurd hd hmem
      · intro d hd
        rw [List.dropLast_cons_of_ne_nil (by simp), List.mem_cons, not_or] at hd
        rw [hkept d hd.2, hother d hd.1]

theorem IsBlock.ne_zero {b : Nat} (h : IsBlock c b) : b ≠ 0 := Nat.one_le_iff_ne_zero.mp h.1

/-- A request for no more blocks than there are is served. -/
theorem Get_Free_Blocks_allocated (hpool : Pool c fs) (hn : n ≤ fs.TOTAL_UNALLOCATED_BLOCKS) :
    ∃ l fs', Get_Free_Blocks c fs n = some (l, fs') ∧ Allocated c fs n l fs' := by
  have hreserve : Get_Free_Blocks_reserve fs n =
      some { fs with TOTAL_UNALLOCATED_BLOCKS := fs.TOTAL_UNALLOCATED_BLOCKS - n } := by
    rw [Get_Free_Blocks_reserve, if_neg (Nat.not_lt.mpr hn)]
  have hsearch := Get_Free_Blocks_groups_gathered (k := n)
    { fs with TOTAL_UNALLOCATED_BLOCKS := fs.TOTAL_UNALLOCATED_BLOCKS - n } (Nat.zero_add c.TOTAL_GROUPS) hpool.bitmaps hpool.counts (by
      rw [Nat.Ico_zero_eq_range]
      exact hn.trans_eq hpool.total)
  have hget : ∃ l fs₁, Get_Free_Blocks c fs n = some (l, CleanBlocks c fs₁ l) ∧ l.length = n ∧
      Gathered c { fs with TOTAL_UNALLOCATED_BLOCKS := fs.TOTAL_UNALLOCATED_BLOCKS - n } l fs₁ ∧
      (∀ b ∈ l, ∀ b', IsBlock c b' → used c fs b' = false → b' < b → b' ∈ l) ∧
      fs₁.block = fs.block := by
    refine ⟨_, _, ?_, hsearch.1, hsearch.2.1, ?_, (Get_Free_Blocks_groups_got (by omega)).block⟩
    rotate_left
    · exact fun b hb b' hb' => (hsearch.2.2 b hb).2 b' hb' (Nat.zero_le _)
    unfold Get_Free_Blocks
    rw [hreserve]
    simp only [padded_length hsearch.1]
  obtain ⟨l, fs₁, hget, hlength, hgathered, hlowest, hblock⟩ := hget
  have hsame := same_Get_Free_Blocks hget
  obtain ⟨fs₂, hgot, heq⟩ := Get_Free_Blocks_got hget
  have hinode : (CleanBlocks c fs₁ l).inode = fs.inode := by
    rw [heq, CleanBlocks_inode, hgot.inode]
  have hslot : ∀ b ∈ l, b ≠ 0 ∧ slot c b = b := fun b hb =>
    ⟨(hgathered.block b hb).ne_zero, slot_eq (hpool.mapped b (hgathered.block b hb))⟩
  obtain ⟨hcleaned, hkept⟩ := CleanBlocks_content fs₁ hslot
  have hfree : ∀ g, free_in_group c (CleanBlocks c fs₁ l) g = free_in_group c fs₁ g := by
    intro g
    rw [free_in_group, free_in_group, CleanBlocks_bitmap, CleanBlocks_gdt]
  have hused : ∀ b, used c (CleanBlocks c fs₁ l) b = used c fs₁ b := by
    intro b
    rw [used, used, CleanBlocks_bitmap, CleanBlocks_gdt]
  have htotal : (CleanBlocks c fs₁ l).TOTAL_UNALLOCATED_BLOCKS =
      fs.TOTAL_UNALLOCATED_BLOCKS - n := by
    rw [CleanBlocks_block]
    exact hgathered.total
  have hsum := hgathered.sum
  refine ⟨l, _, hget, hlength, hgathered.nodup, hgathered.block, hgathered.clear, ?_,
    ⟨?_, ?_, ?_, hpool.mapped⟩, ?_, hinode, hsame, hlowest, hcleaned, ?_⟩
  · intro b hb
    rw [hused]
    exact hgathered.used_iff b hb
  · intro g hg
    rw [Group_Number, CleanBlocks_gdt]
    exact hgathered.bitmaps g hg
  · intro g hg
    rw [CleanBlocks_gdt, hfree, hgathered.counts g hg]
  · have hold := hpool.total
    simp only [hfree]
    rw [htotal, hold]
    change _ + l.length = ∑ g ∈ Finset.range c.TOTAL_GROUPS, free_in_group c fs g at hsum
    omega
  · rw [htotal]
    omega
  · intro b hb
    rw [hkept b hb, hblock]

theorem Get_Free_Blocks_refused (hn : fs.TOTAL_UNALLOCATED_BLOCKS < n) :
    Get_Free_Blocks c fs n = none := by
  unfold Get_Free_Blocks Get_Free_Blocks_reserve
  rw [if_pos hn]

end LaLiga.Rfs
