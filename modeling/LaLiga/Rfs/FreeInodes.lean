import LaLiga.Lib.Counting
import LaLiga.Rfs.Frames

/-! The inodes as the bitmaps and the counts have them, and what takes and frees one. -/
namespace LaLiga.Rfs

open LaLiga.Lib

variable (c : Superblock_constants)

/-- The inode of the bit `i` of the group `g`. -/
def inode_number (g i : Nat) : Nat := g * c.INODES_PER_GROUP + i + 1

def inode_bit (fs : Image) (g i : Nat) : Bool := fs.bitmap (fs.gdt g).BITMAP_INODE_ADDRESS i

def free_inodes_in_group (fs : Image) (g : Nat) : Nat :=
  (clearIn (inode_bit fs g) 0 c.INODES_PER_GROUP).card

/-- The inodes are counted as the bitmaps have them. A descriptor counts them in a `uint16_t`,
and their numbers are `uint32_t`. -/
structure Inodes_consistent (fs : Image) : Prop where
  group_fits : c.INODES_PER_GROUP < 2 ^ 16
  numbers_fit : c.TOTAL_GROUPS * c.INODES_PER_GROUP < 2 ^ 32
  own : ∀ g < c.TOTAL_GROUPS, ∀ h < c.TOTAL_GROUPS, g ≠ h →
    (fs.gdt g).BITMAP_INODE_ADDRESS ≠ (fs.gdt h).BITMAP_INODE_ADDRESS
  apart : ∀ g < c.TOTAL_GROUPS, ∀ h < c.TOTAL_GROUPS,
    (fs.gdt g).BITMAP_INODE_ADDRESS ≠ (fs.gdt h).BITMAP_BLOCK_ADDRESS
  free : ∀ g < c.TOTAL_GROUPS, (fs.gdt g).UNALLOCATED_INODES = free_inodes_in_group c fs g
  total : fs.TOTAL_UNALLOCATED_INODES =
    ∑ g ∈ Finset.range c.TOTAL_GROUPS, free_inodes_in_group c fs g

/-- The bit `i` of the group `g` set to `v`, with the new counts. -/
def set_inode_bit (fs : Image) (g i : Nat) (v : Bool) (count total : Nat) : Image :=
  let d := fs.gdt g
  { (fs.setDescriptor g { d with UNALLOCATED_INODES := count }).setBitmap d.BITMAP_INODE_ADDRESS
      (Function.update (inode_bit fs g) i v) with
    TOTAL_UNALLOCATED_INODES := total }

/-- All the bits of the group `g` set, with the new counts. -/
def set_inode_bits (fs : Image) (g : Nat) (bits : Nat → Bool) (count total : Nat) : Image :=
  let d := fs.gdt g
  { (fs.setDescriptor g { d with UNALLOCATED_INODES := count }).setBitmap d.BITMAP_INODE_ADDRESS
      bits with
    TOTAL_UNALLOCATED_INODES := total }

def take_inode (fs : Image) (g i : Nat) : Image :=
  set_inode_bit fs g i true ((fs.gdt g).UNALLOCATED_INODES - 1) (fs.TOTAL_UNALLOCATED_INODES - 1)

/-- The bit that the scan finds: the first clear one of the first group that has one. -/
structure First_free (fs : Image) (g i : Nat) : Prop where
  group_lt : g < c.TOTAL_GROUPS
  bit_lt : i < c.INODES_PER_GROUP
  clear : inode_bit fs g i = false
  first : ∀ j < c.INODES_PER_GROUP, inode_bit fs g j = false → i ≤ j
  before : ∀ h < g, ∀ j < c.INODES_PER_GROUP, inode_bit fs h j = true

variable {c} {fs fs' : Image} {g h i j n : Nat} {v : Bool} {count total : Nat}

section Numbers

variable (hfits : c.TOTAL_GROUPS * c.INODES_PER_GROUP < 2 ^ 32)
include hfits

theorem pred32_inode_number (hg : g < c.TOTAL_GROUPS) (hi : i < c.INODES_PER_GROUP) :
    pred32 (inode_number c g i) = c.INODES_PER_GROUP * g + i := by
  have : (g + 1) * c.INODES_PER_GROUP ≤ c.TOTAL_GROUPS * c.INODES_PER_GROUP :=
    Nat.mul_le_mul_right _ hg
  rw [Nat.add_mul] at this
  rw [inode_number, pred32_of_pos (by omega) (by omega), Nat.mul_comm]
  rfl

theorem locate_inode_number (hg : g < c.TOTAL_GROUPS) (hi : i < c.INODES_PER_GROUP) :
    Inode_locateGroup c (inode_number c g i) = g := by
  rw [Inode_locateGroup, pred32_inode_number hfits hg hi, Nat.mul_add_div c.inodes_pos,
    Nat.div_eq_of_lt hi, Nat.add_zero]

theorem local_inode_number (hg : g < c.TOTAL_GROUPS) (hi : i < c.INODES_PER_GROUP) :
    Inode_getLocalIndex c (inode_number c g i) = i := by
  rw [Inode_getLocalIndex, pred32_inode_number hfits hg hi, Nat.mul_add_mod,
    Nat.mod_eq_of_lt hi]

end Numbers

/-- Every inode of the image is that of some bit. -/
theorem exists_inode_number (h1 : 1 ≤ n) (hn : n ≤ c.TOTAL_GROUPS * c.INODES_PER_GROUP) :
    ∃ g < c.TOTAL_GROUPS, ∃ i < c.INODES_PER_GROUP, n = inode_number c g i := by
  refine ⟨(n - 1) / c.INODES_PER_GROUP, ?_, (n - 1) % c.INODES_PER_GROUP,
    Nat.mod_lt _ c.inodes_pos, ?_⟩
  · rw [Nat.div_lt_iff_lt_mul c.inodes_pos]
    omega
  · have := Nat.div_add_mod' (n - 1) c.INODES_PER_GROUP
    rw [inode_number]
    omega

theorem inode_number_inj (hi : i < c.INODES_PER_GROUP) (hj : j < c.INODES_PER_GROUP)
    (heq : inode_number c g i = inode_number c h j) : g = h ∧ i = j := by
  unfold inode_number at heq
  have hdiv : (c.INODES_PER_GROUP * g + i) / c.INODES_PER_GROUP =
      (c.INODES_PER_GROUP * h + j) / c.INODES_PER_GROUP := by
    congr 1
    rw [Nat.mul_comm _ g, Nat.mul_comm _ h]
    omega
  rw [Nat.mul_add_div c.inodes_pos, Nat.mul_add_div c.inodes_pos, Nat.div_eq_of_lt hi,
    Nat.div_eq_of_lt hj, Nat.add_zero, Nat.add_zero] at hdiv
  subst hdiv
  exact ⟨rfl, by omega⟩

/-- What is consistent depends on the descriptors, the bits of the inodes and the total. -/
theorem Inodes_consistent.congr (h : Inodes_consistent c fs)
    (hgdt : ∀ g, (fs'.gdt g).BITMAP_BLOCK_ADDRESS = (fs.gdt g).BITMAP_BLOCK_ADDRESS ∧
      (fs'.gdt g).BITMAP_INODE_ADDRESS = (fs.gdt g).BITMAP_INODE_ADDRESS ∧
      (fs'.gdt g).UNALLOCATED_INODES = (fs.gdt g).UNALLOCATED_INODES)
    (hbit : ∀ g < c.TOTAL_GROUPS, inode_bit fs' g = inode_bit fs g)
    (htotal : fs'.TOTAL_UNALLOCATED_INODES = fs.TOTAL_UNALLOCATED_INODES) :
    Inodes_consistent c fs' where
  group_fits := h.group_fits
  numbers_fit := h.numbers_fit
  own := by
    intro g hg k hk hne
    rw [(hgdt g).2.1, (hgdt k).2.1]
    exact h.own g hg k hk hne
  apart := by
    intro g hg k hk
    rw [(hgdt g).2.1, (hgdt k).1]
    exact h.apart g hg k hk
  free := by
    intro g hg
    rw [(hgdt g).2.2, h.free g hg, free_inodes_in_group, free_inodes_in_group, hbit g hg]
  total := by
    rw [htotal, h.total]
    apply Finset.sum_congr rfl
    intro g hg
    rw [free_inodes_in_group, free_inodes_in_group, hbit g (Finset.mem_range.mp hg)]

/-- Work on blocks leaves the bits of the inodes. -/
theorem Same_inodes.inode_bit (h : Same_inodes c fs fs') (hcons : Inodes_consistent c fs)
    (hg : g < c.TOTAL_GROUPS) : inode_bit fs' g = Rfs.inode_bit fs g := by
  funext i
  rw [Rfs.inode_bit, Rfs.inode_bit, (h.gdt g).2.1, h.bits _ fun k hk => hcons.apart g hg k hk]

theorem Same_inodes.consistent (h : Same_inodes c fs fs') (hcons : Inodes_consistent c fs) :
    Inodes_consistent c fs' :=
  hcons.congr (fun g => ⟨(h.gdt g).1, (h.gdt g).2.1, (h.gdt g).2.2.1⟩)
    (fun _ hg => h.inode_bit hcons hg) h.total

section Bits

variable {bits : Nat → Bool} (hcons : Inodes_consistent c fs) (hg : g < c.TOTAL_GROUPS)
include hcons hg

theorem inode_bit_set_bits (hh : h < c.TOTAL_GROUPS) :
    inode_bit (set_inode_bits fs g bits count total) h =
      if h = g then bits else inode_bit fs h := by
  by_cases hhg : h = g
  · subst hhg
    funext j
    simp [inode_bit, set_inode_bits, Image.setDescriptor, Image.setBitmap]
  · funext j
    have := hcons.own h hh g hg hhg
    simp [inode_bit, set_inode_bits, Image.setDescriptor, Image.setBitmap, hhg, this]

/-- The counts after a change of the bits of a group are right when they follow it. -/
theorem set_inode_bits_consistent
    (hcount : count = (clearIn bits 0 c.INODES_PER_GROUP).card)
    (htotal : total + free_inodes_in_group c fs g = fs.TOTAL_UNALLOCATED_INODES + count) :
    Inodes_consistent c (set_inode_bits fs g bits count total) := by
  have haddr : ∀ k, ((set_inode_bits fs g bits count total).gdt k).BITMAP_BLOCK_ADDRESS =
        (fs.gdt k).BITMAP_BLOCK_ADDRESS ∧
      ((set_inode_bits fs g bits count total).gdt k).BITMAP_INODE_ADDRESS =
        (fs.gdt k).BITMAP_INODE_ADDRESS := by
    intro k
    by_cases hk : k = g <;> simp [set_inode_bits, Image.setDescriptor, Image.setBitmap, hk]
  have hself : free_inodes_in_group c (set_inode_bits fs g bits count total) g = count := by
    rw [free_inodes_in_group, inode_bit_set_bits hcons hg hg, if_pos rfl, hcount]
  have hothers : ∀ k < c.TOTAL_GROUPS, k ≠ g →
      free_inodes_in_group c (set_inode_bits fs g bits count total) k =
        free_inodes_in_group c fs k := by
    intro k hk hne
    rw [free_inodes_in_group, inode_bit_set_bits hcons hg hk, if_neg hne, free_inodes_in_group]
  refine ⟨hcons.group_fits, hcons.numbers_fit, ?_, ?_, ?_, ?_⟩
  · intro k hk l hl hne
    rw [(haddr k).2, (haddr l).2]
    exact hcons.own k hk l hl hne
  · intro k hk l hl
    rw [(haddr k).2, (haddr l).1]
    exact hcons.apart k hk l hl
  · intro k hk
    by_cases hkg : k = g
    · subst hkg
      rw [hself]
      simp [set_inode_bits, Image.setDescriptor, Image.setBitmap]
    · rw [hothers k hk hkg, ← hcons.free k hk]
      simp [set_inode_bits, Image.setDescriptor, Image.setBitmap, hkg]
  · have hsum := sum_change (Finset.mem_range.mpr hg)
      fun k hk hne => hothers k (Finset.mem_range.mp hk) hne
    rw [hself, ← hcons.total] at hsum
    show total = _
    omega

theorem inode_bit_set (hh : h < c.TOTAL_GROUPS) :
    inode_bit (set_inode_bit fs g i v count total) h =
      if h = g then Function.update (inode_bit fs g) i v else inode_bit fs h :=
  inode_bit_set_bits hcons hg hh

end Bits

theorem free_inodes_le (fs : Image) (g : Nat) :
    free_inodes_in_group c fs g ≤ c.INODES_PER_GROUP := by
  have := Finset.card_filter_le (Finset.Ico 0 (0 + c.INODES_PER_GROUP))
    fun j => inode_bit fs g j = false
  simpa [free_inodes_in_group, clearIn] using this

/-- Setting a clear bit leaves one clear bit less. -/
theorem card_clearIn_set {f : Nat → Bool} (hi : i < n) (h : f i = false) :
    (clearIn f 0 n).card = (clearIn (Function.update f i true) 0 n).card + 1 := by
  have hcard := card_clearIn_update_false (f := Function.update f i true) (i := 0) (n := n) (j := i)
    (by omega) (Function.update_self i true f)
  rwa [Function.update_idem, ← h, Function.update_eq_self] at hcard

theorem take_inode_consistent (hcons : Inodes_consistent c fs) (hg : g < c.TOTAL_GROUPS)
    (hi : i < c.INODES_PER_GROUP) (hclear : inode_bit fs g i = false) :
    Inodes_consistent c (take_inode fs g i) := by
  have hcard : free_inodes_in_group c fs g = _ + 1 := card_clearIn_set hi hclear
  have hle : free_inodes_in_group c fs g ≤ fs.TOTAL_UNALLOCATED_INODES := by
    rw [hcons.total]
    exact Finset.single_le_sum (fun _ _ => Nat.zero_le _) (Finset.mem_range.mpr hg)
  have hfree := hcons.free g hg
  apply set_inode_bits_consistent hcons hg <;> omega

/-- The scan takes the first free inode. -/
theorem Get_Free_Inodes_groups_one {groups : Nat} (fs : Image)
    (hend : n + groups = c.TOTAL_GROUPS)
    (hcount : ∀ g < c.TOTAL_GROUPS, (fs.gdt g).UNALLOCATED_INODES = free_inodes_in_group c fs g)
    (hbefore : ∀ h < n, ∀ j < c.INODES_PER_GROUP, inode_bit fs h j = true)
    (hsome : ∃ g < c.TOTAL_GROUPS, free_inodes_in_group c fs g ≠ 0) :
    ∃ g i, First_free c fs g i ∧
      Get_Free_Inodes_groups c groups n 1 fs = ([inode_number c g i],
        set_inode_bit fs g i true ((fs.gdt g).UNALLOCATED_INODES - 1)
          fs.TOTAL_UNALLOCATED_INODES) := by
  induction groups generalizing n with
  | zero =>
    obtain ⟨g, hg, hne⟩ := hsome
    refine absurd (Finset.card_eq_zero.mpr (Finset.eq_empty_of_forall_notMem ?_)) hne
    intro j hj
    obtain ⟨hj, hclear⟩ := mem_clearIn.mp hj
    rw [hbefore g (by omega) j (by omega)] at hclear
    cases hclear
  | succ groups ih =>
    have hn : n < c.TOTAL_GROUPS := by omega
    unfold Get_Free_Inodes_groups
    rw [if_neg one_ne_zero]
    by_cases hfree : free_inodes_in_group c fs n = 0
    · have hU : (fs.gdt n).UNALLOCATED_INODES = 0 := (hcount n hn).trans hfree
      simp only [hU, if_true]
      refine ih (by omega) ?_
      intro h hh j hj
      rcases Nat.lt_succ_iff_lt_or_eq.mp hh with hlt | rfl
      · exact hbefore h hlt j hj
      · by_contra hclear
        have hmem : j ∈ clearIn (inode_bit fs h) 0 c.INODES_PER_GROUP :=
          mem_clearIn.mpr ⟨by omega, by simpa using hclear⟩
        rw [Finset.card_eq_zero.mp hfree] at hmem
        exact Finset.notMem_empty j hmem
    · have hU : 1 ≤ (fs.gdt n).UNALLOCATED_INODES := by
        rw [hcount n hn]
        omega
      obtain ⟨i, hi, hfirst, htake⟩ := takeClear_one (f := inode_bit fs n)
        (Nat.le_succ c.INODES_PER_GROUP)
        (Finset.card_ne_zero.mp hfree)
      obtain ⟨hrange, hclear⟩ := mem_clearIn.mp hi
      refine ⟨n, i, ⟨hn, by omega, hclear, ?_, hbefore⟩, ?_⟩
      · exact fun j hj hj' => hfirst j (mem_clearIn.mpr ⟨by omega, hj'⟩)
      · rw [if_pos hU]
        have hbits : (fs.setDescriptor n { fs.gdt n with
            UNALLOCATED_INODES := (fs.gdt n).UNALLOCATED_INODES - 1 }).bitmap
              (fs.gdt n).BITMAP_INODE_ADDRESS = inode_bit fs n := rfl
        simp only [Get_Free_Inodes_In_Group, hbits, htake]
        rfl

theorem Get_Free_Inodes_one {l : List Nat} (hcons : Inodes_consistent c fs)
    (h : Get_Free_Inodes c fs 1 = some (l, fs')) :
    ∃ g i, First_free c fs g i ∧ l = [inode_number c g i] ∧ fs' = take_inode fs g i := by
  unfold Get_Free_Inodes at h
  split_ifs at h with hnone
  have hsome : ∃ g < c.TOTAL_GROUPS, free_inodes_in_group c fs g ≠ 0 := by
    by_contra hall
    push Not at hall
    refine hnone ?_
    rw [hcons.total, Finset.sum_eq_zero fun g hg => hall g (Finset.mem_range.mp hg)]
    exact Nat.one_pos
  obtain ⟨g, i, hfirst, hrun⟩ := Get_Free_Inodes_groups_one
    { fs with TOTAL_UNALLOCATED_INODES := fs.TOTAL_UNALLOCATED_INODES - 1 }
    (Nat.zero_add c.TOTAL_GROUPS) hcons.free (by simp) hsome
  simp only [hrun] at h
  cases h
  exact ⟨g, i, ⟨hfirst.group_lt, hfirst.bit_lt, hfirst.clear, hfirst.first, hfirst.before⟩,
    rfl, rfl⟩

theorem setFreeInodeBitmap_eq (hcons : Inodes_consistent c fs) (hg : g < c.TOTAL_GROUPS)
    (hi : i < c.INODES_PER_GROUP) : setFreeInodeBitmap c fs (inode_number c g i) =
      set_inode_bit fs g i false (((fs.gdt g).UNALLOCATED_INODES + 1) % 2 ^ 16)
        ((fs.TOTAL_UNALLOCATED_INODES + 1) % 2 ^ 32) := by
  unfold setFreeInodeBitmap
  rw [locate_inode_number hcons.numbers_fit hg hi, local_inode_number hcons.numbers_fit hg hi]
  rfl

theorem setFreeInodeBitmap_consistent (hcons : Inodes_consistent c fs) (hg : g < c.TOTAL_GROUPS)
    (hi : i < c.INODES_PER_GROUP) (hset : inode_bit fs g i = true) :
    Inodes_consistent c (setFreeInodeBitmap c fs (inode_number c g i)) := by
  have hcard : _ = free_inodes_in_group c fs g + 1 :=
    card_clearIn_update_false (n := c.INODES_PER_GROUP) (by omega) hset
  have hle : free_inodes_in_group c fs g + 1 ≤ c.INODES_PER_GROUP := by
    rw [← hcard]
    have := Finset.card_filter_le (Finset.Ico 0 (0 + c.INODES_PER_GROUP))
      fun j => Function.update (inode_bit fs g) i false j = false
    simpa [clearIn] using this
  have htotal : fs.TOTAL_UNALLOCATED_INODES + 1 ≤ c.TOTAL_GROUPS * c.INODES_PER_GROUP := by
    rw [hcons.total]
    calc ∑ k ∈ Finset.range c.TOTAL_GROUPS, free_inodes_in_group c fs k + 1
        ≤ ∑ _k ∈ Finset.range c.TOTAL_GROUPS, c.INODES_PER_GROUP :=
          Finset.sum_lt_sum (fun k _ => free_inodes_le fs k) ⟨g, Finset.mem_range.mpr hg, hle⟩
      _ = c.TOTAL_GROUPS * c.INODES_PER_GROUP := by simp
  have hfree := hcons.free g hg
  have hgroup := hcons.group_fits
  have hfits := hcons.numbers_fit
  rw [setFreeInodeBitmap_eq hcons hg hi]
  apply set_inode_bits_consistent hcons hg
  · rw [hcard, hfree, Nat.mod_eq_of_lt (by omega)]
  · rw [hfree, Nat.mod_eq_of_lt (by omega), Nat.mod_eq_of_lt (by omega)]
    omega

end LaLiga.Rfs
