import LaLiga.Rfs.Blocks

/-! The number of a block and its bit, as ext2 lays them out and as the code does. -/
namespace LaLiga.Rfs

variable (c : Superblock_constants)

/-- `base << shift_left`, on `uint32_t`. -/
def SuperBlock_getBlockSize (shift_left : Nat) : Nat := (1024 <<< shift_left) % 2 ^ 32

/-- The superblock lies in block 1 when blocks have 1024 bytes, in block 0 otherwise. -/
def first_data_block : Nat := if c.BLOCK_SIZE = 1024 then 1 else 0

def ext2_group (b : Nat) : Nat := (b - first_data_block c) / c.BLOCKS_PER_GROUP

def ext2_bit (b : Nat) : Nat := (b - first_data_block c) % c.BLOCKS_PER_GROUP

/-- The blocks of group `g` start at `first_data_block + g * BLOCKS_PER_GROUP`. -/
def BitmapsInOwnGroup (fs : Image) : Prop :=
  ∀ g < c.TOTAL_GROUPS,
    first_data_block c + g * c.BLOCKS_PER_GROUP ≤ (fs.gdt g).BITMAP_BLOCK_ADDRESS ∧
      (fs.gdt g).BITMAP_BLOCK_ADDRESS < first_data_block c + (g + 1) * c.BLOCKS_PER_GROUP

def ext2_address (fs : Image) (b : Nat) : Nat := (fs.gdt (ext2_group c b)).BITMAP_BLOCK_ADDRESS

def ext2_used (fs : Image) (b : Nat) : Bool := fs.bitmap (ext2_address c fs b) (ext2_bit c b)

/-- An allocation that took `fs` to `fs'` and returned `b` has set the bit that ext2 keeps
for `b`, and `setFreeBlockBitmap` clears that one and no other. -/
structure Numbered (fs fs' : Image) (b : Nat) : Prop where
  group : ext2_group c b < c.TOTAL_GROUPS
  clear : ext2_used c fs b = false
  set : ext2_used c fs' b = true
  free : ∀ a i, (setFreeBlockBitmap c fs' b).bitmap a i =
    if a = ext2_address c fs' b ∧ i = ext2_bit c b then false else fs'.bitmap a i

variable {c} {fs fs' : Image} {b g h k shift_left : Nat} {l : List Nat}

theorem addresses_differ (hfs : BitmapsInOwnGroup c fs) (hg : g < c.TOTAL_GROUPS)
    (hh : h < c.TOTAL_GROUPS) (hne : g ≠ h) :
    (fs.gdt g).BITMAP_BLOCK_ADDRESS ≠ (fs.gdt h).BITMAP_BLOCK_ADDRESS := by
  have hig := hfs g hg
  have hih := hfs h hh
  intro he
  rcases Nat.lt_or_gt_of_ne hne with hlt | hlt
  · have := Nat.mul_le_mul_right c.BLOCKS_PER_GROUP (Nat.succ_le_of_lt hlt)
    rw [Nat.succ_eq_add_one] at this
    omega
  · have := Nat.mul_le_mul_right c.BLOCKS_PER_GROUP (Nat.succ_le_of_lt hlt)
    rw [Nat.succ_eq_add_one] at this
    omega

theorem setFreeBlockBitmap_bitmap (a i : Nat) :
    (setFreeBlockBitmap c fs b).bitmap a i =
      if a = (fs.gdt (block_group c b)).BITMAP_BLOCK_ADDRESS ∧ i = block_bit c b then false
      else fs.bitmap a i := by
  simp only [setFreeBlockBitmap, setFreeBlockBitmap_super, setFreeBlockBitmap_group,
    Image.setDescriptor, Image.setBitmap]
  by_cases ha : a = (fs.gdt (block_group c b)).BITMAP_BLOCK_ADDRESS
  · subst ha
    by_cases hi : i = block_bit c b <;> simp [hi]
  · simp [ha]

/-- With blocks of 1024 bytes the code's positions are those of ext2. -/
theorem ext2_of_small (hc : c.BLOCK_SIZE = 1024) (hb : IsBlock c b) :
    ext2_group c b = block_group c b ∧ ext2_bit c b = block_bit c b := by
  have hfdb : first_data_block c = 1 := if_pos hc
  rw [ext2_group, ext2_bit, block_group, block_bit, hfdb, hb.pred32]
  exact ⟨rfl, rfl⟩

theorem bitmapsInGroup_of_small (hc : c.BLOCK_SIZE = 1024) (hfs : BitmapsInOwnGroup c fs)
    (hn : c.TOTAL_GROUPS * c.BLOCKS_PER_GROUP < 2 ^ 32) : BitmapsInGroup c fs := by
  intro g hg
  have hfdb : first_data_block c = 1 := if_pos hc
  obtain ⟨hlo, hhi⟩ := hfs g hg
  rw [hfdb] at hlo hhi
  have hle : (g + 1) * c.BLOCKS_PER_GROUP ≤ c.TOTAL_GROUPS * c.BLOCKS_PER_GROUP :=
    Nat.mul_le_mul_right _ hg
  rw [Group_Number, pred32_of_pos (by omega) (by omega)]
  apply Nat.div_eq_of_lt_le
  · omega
  · omega

/-- With larger blocks the code takes the bit before. -/
theorem position_of_large (hc : c.BLOCK_SIZE ≠ 1024) (hb : 1 ≤ b) (hlt : b < 2 ^ 32)
    (hgroup : ext2_group c b = block_group c b) : ext2_bit c b ≠ block_bit c b := by
  have hfdb : first_data_block c = 0 := if_neg hc
  rw [ext2_group, block_group, hfdb, pred32_of_pos hb hlt] at hgroup
  rw [ext2_bit, block_bit, hfdb, pred32_of_pos hb hlt]
  intro hbit
  have h1 := Nat.div_add_mod (b - 0) c.BLOCKS_PER_GROUP
  have h2 := Nat.div_add_mod (b - 1) c.BLOCKS_PER_GROUP
  rw [hgroup, hbit] at h1
  omega

theorem numbered_of_small (hc : c.BLOCK_SIZE = 1024) (hfs : BitmapsInOwnGroup c fs)
    (h : Get_Free_Blocks c fs k = some (l, fs')) (hb : b ∈ l) (h0 : b ≠ 0) :
    Numbered c fs fs' b := by
  obtain ⟨fs₁, hgot, rfl⟩ := Get_Free_Blocks_got h
  obtain ⟨g, hg, var, hvar, he, hclear, hset⟩ := hgot.taken b hb h0
  rw [block_number, bitmapsInGroup_of_small hc hfs c.numbers_fit g hg] at he
  subst he
  have hpos := ext2_of_small hc (isBlock_of_bit hg hvar)
  rw [block_group_of_bit hg hvar, block_bit_of_bit hg hvar] at hpos
  refine ⟨by rw [hpos.1]; exact hg, ?_, ?_, ?_⟩
  · rw [ext2_used, ext2_address, hpos.1, hpos.2, hclear]
  · rw [ext2_used, ext2_address, hpos.1, hpos.2, CleanBlocks_gdt, CleanBlocks_bitmap,
      (hgot.gdt g).1, hset]
  · intro a i
    rw [setFreeBlockBitmap_bitmap, ext2_address, hpos.1, hpos.2, block_group_of_bit hg hvar,
      block_bit_of_bit hg hvar]

/-- The bit that is cleared is another one, and the one of ext2 stays set. -/
theorem not_numbered_of_large (hc : c.BLOCK_SIZE ≠ 1024) (hfs : BitmapsInOwnGroup c fs')
    (h0 : b ≠ 0) : ¬ Numbered c fs fs' b := by
  intro hn
  have hfdb : first_data_block c = 0 := if_neg hc
  have hlt : b < 2 ^ 32 := by
    have hgroup := hn.group
    rw [ext2_group, hfdb, Nat.sub_zero, Nat.div_lt_iff_lt_mul c.blocks_pos] at hgroup
    exact Nat.lt_trans hgroup c.numbers_fit
  have hcode : block_group c b ≤ ext2_group c b := by
    rw [block_group, ext2_group, hfdb, pred32_of_pos (by omega) hlt]
    exact Nat.div_le_div_right (by omega)
  have hfree := hn.free (ext2_address c fs' b) (ext2_bit c b)
  rw [if_pos ⟨rfl, rfl⟩, setFreeBlockBitmap_bitmap, if_neg, ← ext2_used, hn.set] at hfree
  · cases hfree
  · rintro ⟨haddr, hbit⟩
    have hgroup : ext2_group c b = block_group c b := by
      by_contra hne
      exact addresses_differ hfs hn.group (Nat.lt_of_le_of_lt hcode hn.group) hne haddr
    exact position_of_large hc (by omega) hlt hgroup hbit

theorem getBlockSize_eq_iff : SuperBlock_getBlockSize shift_left = 1024 ↔ shift_left = 0 := by
  unfold SuperBlock_getBlockSize
  rw [Nat.shiftLeft_eq]
  constructor
  · intro h
    by_contra h0
    obtain ⟨n, rfl⟩ := Nat.exists_eq_succ_of_ne_zero h0
    rw [pow_succ] at h
    omega
  · rintro rfl
    rfl

/-- The numbers that an allocation returns stand for the blocks whose bits it sets exactly
when blocks have 1024 bytes. A 0 among them is a cell that it left empty. -/
theorem numbering_iff (hs : c.BLOCK_SIZE = SuperBlock_getBlockSize shift_left)
    (hfs : BitmapsInOwnGroup c fs) (h : Get_Free_Blocks c fs k = some (l, fs'))
    (hb : b ∈ l) (h0 : b ≠ 0) : Numbered c fs fs' b ↔ shift_left = 0 := by
  rw [← getBlockSize_eq_iff, ← hs]
  constructor
  · intro hn
    by_contra hc
    have hfs' : BitmapsInOwnGroup c fs' := by
      obtain ⟨fs₁, hgot, rfl⟩ := Get_Free_Blocks_got h
      intro g hg
      rw [CleanBlocks_gdt, (hgot.gdt g).1]
      exact hfs g hg
    exact not_numbered_of_large hc hfs' h0 hn
  · intro hc
    exact numbered_of_small hc hfs h hb h0

/-- One group of eight blocks, the first two in use. -/
def one_group (shift_left : Nat) (h : 0 < SuperBlock_getBlockSize shift_left) :
    Superblock_constants where
  BLOCKS_PER_GROUP := 8
  INODES_PER_GROUP := 8
  BLOCK_SIZE := SuperBlock_getBlockSize shift_left
  TOTAL_GROUPS := 1
  blocks_pos := by decide
  inodes_pos := by decide
  size_pos := h
  group_fits := by decide
  numbers_fit := by decide

theorem smallest_block_pos : 0 < SuperBlock_getBlockSize 0 := by decide

def two_used : Image where
  TOTAL_UNALLOCATED_BLOCKS := 6
  TOTAL_UNALLOCATED_INODES := 8
  gdt := fun _ => ⟨2, 3, 6, 8, 0⟩
  bitmap := fun a i => a = 2 ∧ i < 2
  inode := fun _ => ⟨0, 0, 0, 0, fun _ => 0, 0, 0, 0⟩
  block := fun _ _ => 0

theorem two_used_bitmaps (h : 0 < SuperBlock_getBlockSize shift_left) :
    BitmapsInOwnGroup (one_group shift_left h) two_used := by
  intro g hg
  obtain rfl : g = 0 := Nat.lt_one_iff.mp hg
  have hfdb : first_data_block (one_group shift_left h) ≤ 1 := by
    unfold first_data_block
    split_ifs <;> decide
  simp only [one_group, two_used] at hfdb ⊢
  omega

theorem numbered_1024 : ∃ fs', Get_Free_Blocks (one_group 0 (by decide)) two_used 1 =
    some ([3], fs') ∧ (Numbered (one_group 0 (by decide)) two_used fs' 3 ↔ 0 = 0) :=
  ⟨_, rfl, numbering_iff (k := 1) (l := [3]) rfl (two_used_bitmaps _) rfl (by decide)
    (by decide)⟩

/-- With blocks of 2048 bytes the first allocation sets the bit of block 2 and returns 3. -/
theorem misnumbered_2048 : ∃ fs', Get_Free_Blocks (one_group 1 (by decide)) two_used 1 =
    some ([3], fs') ∧ ¬ Numbered (one_group 1 (by decide)) two_used fs' 3 :=
  ⟨_, rfl, fun h => absurd h.set (by decide)⟩

end LaLiga.Rfs
