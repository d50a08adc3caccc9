import LaLiga.Rfs.FreeInodes

/-! Several inodes at once from `Get_Free_Inodes`. -/
namespace LaLiga.Rfs

open LaLiga.Lib

variable (c : Superblock_constants)

/-- `n` inodes given out: their numbers, each of an inode that was free, whose bits and no
others are set, with the counts as the bitmaps have them. -/
structure Inodes_given (fs : Image) (n : Nat) (l : List Nat) (fs' : Image) : Prop where
  length : l.length = n
  nodup : l.Nodup
  range : ∀ x ∈ l, 1 ≤ x ∧ x ≤ c.TOTAL_GROUPS * c.INODES_PER_GROUP
  free : ∀ x ∈ l, inode_bit fs (Inode_locateGroup c x) (Inode_getLocalIndex c x) = false
  bits : ∀ g < c.TOTAL_GROUPS, ∀ i, inode_bit fs' g i = true ↔
    inode_bit fs g i = true ∨ ∃ x ∈ l, Inode_locateGroup c x = g ∧ Inode_getLocalIndex c x = i
  others : ∀ a, (∀ g < c.TOTAL_GROUPS, a ≠ (fs.gdt g).BITMAP_INODE_ADDRESS) →
    fs'.bitmap a = fs.bitmap a
  consistent : Inodes_consistent c fs'

/-- The first group that has a free inode has `n` of them. -/
def First_group_covers (fs : Image) (n : Nat) : Prop :=
  ∀ g < c.TOTAL_GROUPS, (∀ h < g, free_inodes_in_group c fs h = 0) →
    free_inodes_in_group c fs g ≠ 0 → n ≤ free_inodes_in_group c fs g

/-- The bits that the scan of one group takes. -/
def taken_bits (fs : Image) (g n : Nat) : List Nat :=
  (takeClear c.INODES_PER_GROUP 0 n (inode_bit fs g)).1

/-- The first `n` free inodes of the group `g` taken. -/
def take_inodes (fs : Image) (g n : Nat) : Image :=
  set_inode_bits fs g (takeClear c.INODES_PER_GROUP 0 n (inode_bit fs g)).2
    ((fs.gdt g).UNALLOCATED_INODES - n) (fs.TOTAL_UNALLOCATED_INODES - n)

variable {c} {fs fs' : Image} {g h i n groups : Nat} {l : List Nat}

theorem mem_taken_bits (h : i ∈ taken_bits c fs g n) :
    i < c.INODES_PER_GROUP ∧ inode_bit fs g i = false := by
  have hmem := mem_clearIn.mp (mem_takeClear h)
  exact ⟨by omega, hmem.2⟩

theorem taken_bits_length (h : n ≤ free_inodes_in_group c fs g) :
    (taken_bits c fs g n).length = n := by
  unfold free_inodes_in_group at h
  rw [taken_bits, length_takeClear, Nat.min_eq_left h]

theorem map_inode_number_nodup : ((taken_bits c fs g n).map (inode_number c g)).Nodup := by
  refine List.Nodup.map_on ?_ takeClear_nodup
  intro i hi j hj heq
  exact (inode_number_inj (mem_taken_bits hi).1 (mem_taken_bits hj).1 heq).2

/-- What the first group with a free inode gives, when it has enough. -/
theorem take_inodes_given (hcons : Inodes_consistent c fs) (hg : g < c.TOTAL_GROUPS)
    (hn : n ≤ free_inodes_in_group c fs g) :
    Inodes_given c fs n ((taken_bits c fs g n).map (inode_number c g)) (take_inodes c fs g n) := by
  have hlocate : ∀ i ∈ taken_bits c fs g n, Inode_locateGroup c (inode_number c g i) = g ∧
      Inode_getLocalIndex c (inode_number c g i) = i := fun i hi =>
    ⟨locate_inode_number hcons.numbers_fit hg (mem_taken_bits hi).1,
      local_inode_number hcons.numbers_fit hg (mem_taken_bits hi).1⟩
  have hbit : ∀ h < c.TOTAL_GROUPS, inode_bit (take_inodes c fs g n) h =
      if h = g then (takeClear c.INODES_PER_GROUP 0 n (inode_bit fs g)).2 else inode_bit fs h :=
    fun h hh => inode_bit_set_bits hcons hg hh
  refine ⟨?_, map_inode_number_nodup, ?_, ?_, ?_, ?_, ?_⟩
  · rw [List.length_map, taken_bits_length hn]
  · intro x hx
    obtain ⟨i, hi, rfl⟩ := List.mem_map.mp hx
    have hlt := (mem_taken_bits hi).1
    have : (g + 1) * c.INODES_PER_GROUP ≤ c.TOTAL_GROUPS * c.INODES_PER_GROUP :=
      Nat.mul_le_mul_right _ hg
    rw [Nat.add_mul] at this
    unfold inode_number
    omega
  · intro x hx
    obtain ⟨i, hi, rfl⟩ := List.mem_map.mp hx
    rw [(hlocate i hi).1, (hlocate i hi).2]
    exact (mem_taken_bits hi).2
  · intro h hh i
    rw [hbit h hh]
    constructor
    · intro hset
      by_cases hhg : h = g
      · subst hhg
        rw [if_pos rfl, takeClear_bits, Bool.or_eq_true, decide_eq_true_iff] at hset
        rcases hset with hset | hmem
        · exact Or.inl hset
        · exact Or.inr ⟨_, List.mem_map_of_mem hmem, hlocate i hmem⟩
      · rw [if_neg hhg] at hset
        exact Or.inl hset
    · rintro (hset | ⟨x, hx, hxg, hxi⟩)
      · split_ifs with hhg
        · subst hhg
          rw [takeClear_bits, hset, Bool.true_or]
        · exact hset
      · obtain ⟨j, hj, rfl⟩ := List.mem_map.mp hx
        obtain rfl : g = h := (hlocate j hj).1.symm.trans hxg
        obtain rfl : j = i := (hlocate j hj).2.symm.trans hxi
        rw [if_pos rfl, takeClear_bits, Bool.or_eq_true, decide_eq_true_iff]
        exact Or.inr hj
  · intro a ha
    exact Function.update_of_ne (ha g hg) ..
  · have hcard : (clearIn (takeClear c.INODES_PER_GROUP 0 n (inode_bit fs g)).2 0
        c.INODES_PER_GROUP).card = free_inodes_in_group c fs g - n := by
      rw [card_clearIn_takeClear, ← free_inodes_in_group]
      exact congrArg _ (taken_bits_length hn)
    have hle : free_inodes_in_group c fs g ≤ fs.TOTAL_UNALLOCATED_INODES := by
      rw [hcons.total]
      exact Finset.single_le_sum (fun _ _ => Nat.zero_le _) (Finset.mem_range.mpr hg)
    have hfree := hcons.free g hg
    apply set_inode_bits_consistent hcons hg <;> omega

/-- The search up to the first group that has a free inode. -/
theorem Get_Free_Inodes_groups_skip {k : Nat} (groups : Nat) (fs : Image) (hn : n ≠ 0)
    (hskip : ∀ h < k, (fs.gdt (g + h)).UNALLOCATED_INODES = 0) :
    Get_Free_Inodes_groups c (k + groups) g n fs = Get_Free_Inodes_groups c groups (g + k) n fs := by
  induction k generalizing g with
  | zero => rw [Nat.zero_add, Nat.add_zero]
  | succ k ih =>
    have hnext := ih (g := g + 1) fun h hh => by
      rw [Nat.add_assoc, Nat.add_comm 1 h]
      exact hskip (h + 1) (by omega)
    have hzero := hskip 0 (Nat.succ_pos k)
    rw [Nat.add_zero] at hzero
    rw [show k + 1 + groups = (k + groups) + 1 by omega, Get_Free_Inodes_groups, if_neg hn]
    simp only [hzero]
    rw [if_neg (by omega), if_pos trivial, hnext, Nat.add_assoc, Nat.add_comm 1 k]

/-- It never returns more numbers than it was asked for. -/
theorem Get_Free_Inodes_groups_length :
    (Get_Free_Inodes_groups c groups g n fs).1.length ≤ n := by
  induction groups generalizing g n fs with
  | zero => exact Nat.zero_le n
  | succ groups ih =>
    unfold Get_Free_Inodes_groups
    dsimp only
    split
    · exact Nat.zero_le n
    · split
      · simp only [Get_Free_Inodes_In_Group, padded, List.length_append, List.length_replicate,
          List.length_map, length_takeClear]
        omega
      · split
        · exact ih
        · exact ih.trans (Nat.sub_le _ _)

/-- A group that has some free inodes but not enough makes the result too short. -/
theorem Get_Free_Inodes_groups_short (groups : Nat) (fs : Image)
    (hsome : (fs.gdt g).UNALLOCATED_INODES ≠ 0)
    (hless : (fs.gdt g).UNALLOCATED_INODES < n) :
    (Get_Free_Inodes_groups c (groups + 1) g n fs).1.length < n := by
  rw [Get_Free_Inodes_groups, if_neg (by omega)]
  dsimp only
  rw [if_neg (by omega), if_neg hsome]
  refine Nat.lt_of_le_of_lt Get_Free_Inodes_groups_length ?_
  omega

/-- The first group with a free inode, when there is one. -/
theorem exists_first_group (hcons : Inodes_consistent c fs)
    (hpos : 0 < fs.TOTAL_UNALLOCATED_INODES) :
    ∃ g < c.TOTAL_GROUPS, (∀ h < g, free_inodes_in_group c fs h = 0) ∧
      free_inodes_in_group c fs g ≠ 0 := by
  have hsome : ∃ g, g < c.TOTAL_GROUPS ∧ free_inodes_in_group c fs g ≠ 0 := by
    by_contra hall
    push Not at hall
    rw [hcons.total, Finset.sum_eq_zero fun g hg => hall g (Finset.mem_range.mp hg)] at hpos
    exact Nat.lt_irrefl 0 hpos
  obtain ⟨hlt, hne⟩ := Nat.find_spec hsome
  refine ⟨Nat.find hsome, hlt, ?_, hne⟩
  intro h hh
  by_contra hne'
  exact Nat.find_min hsome hh ⟨hh.trans hlt, hne'⟩

section Request

variable (hcons : Inodes_consistent c fs) (hg : g < c.TOTAL_GROUPS)
  (hbefore : ∀ h < g, free_inodes_in_group c fs h = 0)
  (hn : n ≤ fs.TOTAL_UNALLOCATED_INODES) (hpos : 0 < n)
include hcons hg hbefore hn hpos

/-- The request starts at the first group that has a free inode. -/
theorem Get_Free_Inodes_start : Get_Free_Inodes c fs n =
    let r := Get_Free_Inodes_groups c (c.TOTAL_GROUPS - g - 1 + 1) g n
      { fs with TOTAL_UNALLOCATED_INODES := fs.TOTAL_UNALLOCATED_INODES - n }
    some (padded n r.1, r.2) := by
  have hskip := Get_Free_Inodes_groups_skip (c := c) (k := g) (g := 0) (c.TOTAL_GROUPS - g - 1 + 1)
    { fs with TOTAL_UNALLOCATED_INODES := fs.TOTAL_UNALLOCATED_INODES - n }
    (Nat.pos_iff_ne_zero.mp hpos) (by
      intro h hh
      rw [Nat.zero_add]
      exact (hcons.free h (hh.trans hg)).trans (hbefore h hh))
  rw [Nat.zero_add, show g + (c.TOTAL_GROUPS - g - 1 + 1) = c.TOTAL_GROUPS by omega] at hskip
  rw [Get_Free_Inodes, if_neg (Nat.not_lt.mpr hn)]
  dsimp only
  rw [hskip]

theorem Get_Free_Inodes_covered (hcover : n ≤ free_inodes_in_group c fs g) :
    Get_Free_Inodes c fs n =
      some ((taken_bits c fs g n).map (inode_number c g), take_inodes c fs g n) := by
  have hU : n ≤ (fs.gdt g).UNALLOCATED_INODES := hcover.trans_eq (hcons.free g hg).symm
  have hscan : takeClear (c.INODES_PER_GROUP + 1) 0 n (inode_bit fs g) =
      takeClear c.INODES_PER_GROUP 0 n (inode_bit fs g) :=
    takeClear_enough (Nat.le_succ _) hcover
  have hlength : ((takeClear c.INODES_PER_GROUP 0 n (inode_bit fs g)).1.map
      (inode_number c g)).length = n := by
    rw [List.length_map]
    exact taken_bits_length hcover
  have hnumber : (fun var => g * c.INODES_PER_GROUP + var + 1) = inode_number c g := rfl
  have hbits : ({ fs with TOTAL_UNALLOCATED_INODES := fs.TOTAL_UNALLOCATED_INODES - n
      }.setDescriptor g { fs.gdt g with
        UNALLOCATED_INODES := (fs.gdt g).UNALLOCATED_INODES - n }).bitmap
          (fs.gdt g).BITMAP_INODE_ADDRESS = inode_bit fs g := rfl
  rw [Get_Free_Inodes_start hcons hg hbefore hn hpos, Get_Free_Inodes_groups,
    if_neg (Nat.pos_iff_ne_zero.mp hpos)]
  dsimp only
  rw [if_pos hU]
  simp only [Get_Free_Inodes_In_Group, hbits, hscan, hnumber, padded_length hlength]
  rfl

/-- Otherwise a part of the array stays 0. -/
theorem Get_Free_Inodes_uncovered (hsome : free_inodes_in_group c fs g ≠ 0)
    (hless : free_inodes_in_group c fs g < n) (h : Get_Free_Inodes c fs n = some (l, fs')) :
    0 ∈ l := by
  rw [Get_Free_Inodes_start hcons hg hbefore hn hpos] at h
  have hU := hcons.free g hg
  have hshort := Get_Free_Inodes_groups_short (c := c) (n := n) (g := g) (c.TOTAL_GROUPS - g - 1)
    { fs with TOTAL_UNALLOCATED_INODES := fs.TOTAL_UNALLOCATED_INODES - n }
    (by rw [← hU] at hsome; exact hsome) (by rw [← hU] at hless; exact hless)
  obtain ⟨rfl, -⟩ := Prod.mk.inj (Option.some.inj h)
  refine List.mem_append_right _ (List.mem_replicate.mpr ⟨?_, rfl⟩)
  omega

end Request

/-- A request is served as it should be exactly when one group serves it. -/
theorem Get_Free_Inodes_iff (hcons : Inodes_consistent c fs)
    (hn : n ≤ fs.TOTAL_UNALLOCATED_INODES) :
    (∃ l fs', Get_Free_Inodes c fs n = some (l, fs') ∧ Inodes_given c fs n l fs') ↔
      First_group_covers c fs n := by
  rcases Nat.eq_zero_or_pos n with rfl | hpos
  · refine ⟨fun _ _ _ _ _ => Nat.zero_le _, ?_⟩
    intro _
    have hnone : ∀ groups g, Get_Free_Inodes_groups c groups g 0 fs = ([], fs) := by
      intro groups g
      cases groups <;> rfl
    refine ⟨[], fs, ?_, ?_⟩
    · rw [Get_Free_Inodes, if_neg (Nat.not_lt.mpr hn)]
      exact congrArg (fun r => some (padded 0 r.1, r.2)) (hnone c.TOTAL_GROUPS 0)
    · exact ⟨rfl, List.nodup_nil, by simp, by simp, by simp, fun _ _ => rfl, hcons⟩
  · obtain ⟨g, hg, hbefore, hsome⟩ := exists_first_group hcons (hpos.trans_le hn)
    constructor
    · rintro ⟨l, fs', hget, hgiven⟩ k hk hkbefore hksome
      obtain rfl : k = g := by
        rcases Nat.lt_trichotomy k g with hlt | rfl | hlt
        · exact absurd (hbefore k hlt) hksome
        · rfl
        · exact absurd (hkbefore g hlt) hsome
      by_contra hless
      have hzero := Get_Free_Inodes_uncovered hcons hg hbefore hn hpos hsome
        (Nat.not_le.mp hless) hget
      exact absurd (hgiven.range 0 hzero).1 (by decide)
    · intro hcover
      have hle := hcover g hg hbefore hsome
      exact ⟨_, _, Get_Free_Inodes_covered hcons hg hbefore hn hpos hle,
        take_inodes_given hcons hg hle⟩

theorem eight_blocks_fit : 8 < 2 ^ 16 := by decide

/-- Two groups of two inodes. -/
def two_by_two : Superblock_constants where
  BLOCKS_PER_GROUP := 8
  INODES_PER_GROUP := 2
  BLOCK_SIZE := 1024
  TOTAL_GROUPS := 2
  blocks_pos := Nat.succ_pos _
  inodes_pos := Nat.succ_pos _
  size_pos := by decide
  group_fits := eight_blocks_fit
  numbers_fit := by decide

/-- Its first inode in use, the other three free. -/
def three_free : Image where
  TOTAL_UNALLOCATED_BLOCKS := 0
  TOTAL_UNALLOCATED_INODES := 3
  gdt := fun g => if g = 0 then ⟨3, 4, 0, 1, 0⟩ else ⟨11, 12, 0, 2, 0⟩
  bitmap := fun a i => a = 3 ∨ a = 11 ∨ (a = 4 ∧ i = 0)
  inode := fun _ => ⟨0, 0, 0, 0, fun _ => 0, 0, 0, 0⟩
  block := fun _ _ => 0

theorem three_free_consistent : Inodes_consistent two_by_two three_free := by
  refine ⟨by decide, by decide, ?_, ?_, ?_, by decide⟩ <;> decide

theorem one_inode_given : ∃ l fs', Get_Free_Inodes two_by_two three_free 1 = some (l, fs') ∧
    Inodes_given two_by_two three_free 1 l fs' := by
  refine (Get_Free_Inodes_iff three_free_consistent (by decide)).mpr ?_
  intro g _ _ hsome
  exact Nat.one_le_iff_ne_zero.mpr hsome

/-- Of two inodes asked for, one comes from each group, and only the second is returned. -/
theorem two_inodes_short : Inodes_consistent two_by_two three_free ∧
    2 ≤ three_free.TOTAL_UNALLOCATED_INODES ∧
    ¬ ∃ l fs', Get_Free_Inodes two_by_two three_free 2 = some (l, fs') ∧
      Inodes_given two_by_two three_free 2 l fs' := by
  refine ⟨three_free_consistent, by decide, ?_⟩
  rintro ⟨l, fs', hget, hgiven⟩
  have hnumbers : (Get_Free_Inodes two_by_two three_free 2).map Prod.fst = some [3, 0] := by
    decide
  rw [hget] at hnumbers
  obtain rfl : l = [3, 0] := Option.some.inj hnumbers
  exact absurd (hgiven.range 0 (by simp)).1 (by decide)

end LaLiga.Rfs
