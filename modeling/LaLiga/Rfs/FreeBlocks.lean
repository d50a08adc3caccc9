import LaLiga.Rfs.Ext2

/-! The critical sections of `Get_Free_Blocks` and `setFreeBlockBitmap`. -/
namespace LaLiga.Rfs

open LaLiga.Lib

variable (c : Superblock_constants)

/-- The superblock section of `Get_Free_Blocks`; `none` is the `ENOSPC` exit. -/
def Get_Free_Blocks_reserve (fs : Image) (how_many : Nat) : Option Image :=
  if how_many > fs.TOTAL_UNALLOCATED_BLOCKS then none
  else some { fs with TOTAL_UNALLOCATED_BLOCKS := fs.TOTAL_UNALLOCATED_BLOCKS - how_many }

/-- The section of `Get_Free_Blocks` under `wblocks_mutex[group_number]`: the blocks
copied into `blocks_to_return`, the `how_many` left, and the image. -/
def Get_Free_Blocks_group (fs : Image) (group_number how_many : Nat) :
    List Nat × Nat × Image :=
  let d := fs.gdt group_number
  if d.UNALLOCATED_BLOCKS = 0 then ([], how_many, fs)
  else if how_many ≤ d.UNALLOCATED_BLOCKS then
    let d' := { d with UNALLOCATED_BLOCKS := d.UNALLOCATED_BLOCKS - how_many }
    let r := Get_Free_Blocks_In_Group c (fs.setDescriptor group_number d') how_many d'
    (r.1, 0, r.2)
  else
    let r := Get_Free_Blocks_In_Group c fs d.UNALLOCATED_BLOCKS d
    (r.1, how_many - d.UNALLOCATED_BLOCKS,
      r.2.setDescriptor group_number { d with UNALLOCATED_BLOCKS := 0 })

/-- The part of `setFreeBlockBitmap` before it asks for the superblock mutex. -/
def setFreeBlockBitmap_group (fs : Image) (b : Nat) : Image :=
  let d := fs.gdt (block_group c b)
  let a := d.BITMAP_BLOCK_ADDRESS
  (fs.setBitmap a (Function.update (fs.bitmap a) (block_bit c b) false)).setDescriptor
    (block_group c b) { d with UNALLOCATED_BLOCKS := (d.UNALLOCATED_BLOCKS + 1) % 2 ^ 16 }

/-- The superblock section of `setFreeBlockBitmap`. -/
def setFreeBlockBitmap_super (fs : Image) : Image :=
  { fs with TOTAL_UNALLOCATED_BLOCKS := (fs.TOTAL_UNALLOCATED_BLOCKS + 1) % 2 ^ 32 }

/-- The bit of block `b` in the bitmap of its group. -/
def used (fs : Image) (b : Nat) : Bool :=
  fs.bitmap (fs.gdt (block_group c b)).BITMAP_BLOCK_ADDRESS (block_bit c b)

/-- Clear bits among the first `BLOCKS_PER_GROUP` of the bitmap of group `g`. -/
def free_in_group (fs : Image) (g : Nat) : Nat :=
  (clearIn (fs.bitmap (fs.gdt g).BITMAP_BLOCK_ADDRESS) 0 c.BLOCKS_PER_GROUP).card

/-- Every descriptor's bitmap block lies in its own group. -/
def BitmapsInGroup (fs : Image) : Prop :=
  ∀ g < c.TOTAL_GROUPS, Group_Number c (fs.gdt g) = g

variable {c} {fs : Image} {g h k b : Nat}

variable (c fs g) in
theorem free_in_group_le : free_in_group c fs g ≤ c.BLOCKS_PER_GROUP := by
  have := Finset.card_filter_le (Finset.Ico 0 (0 + c.BLOCKS_PER_GROUP))
    (fun j => fs.bitmap (fs.gdt g).BITMAP_BLOCK_ADDRESS j = false)
  simpa [free_in_group, clearIn] using this

theorem bitmap_addresses_differ (hfs : BitmapsInGroup c fs) (hg : g < c.TOTAL_GROUPS)
    (hh : h < c.TOTAL_GROUPS) (hne : g ≠ h) :
    (fs.gdt g).BITMAP_BLOCK_ADDRESS ≠ (fs.gdt h).BITMAP_BLOCK_ADDRESS := by
  intro he
  apply hne
  rw [← hfs g hg, ← hfs h hh, Group_Number, Group_Number, he]

/-- The effect of both taking branches of the group section at once. -/
structure Taken (c : Superblock_constants) (fs : Image) (g k : Nat) (l : List Nat) (left : Nat)
    (fs' : Image) : Prop where
  length : l.length = min k (free_in_group c fs g)
  nodup : l.Nodup
  left : left = k - min k (free_in_group c fs g)
  block : ∀ b ∈ l, IsBlock c b ∧ block_group c b = g
  clear : ∀ b ∈ l, used c fs b = false
  total : fs'.TOTAL_UNALLOCATED_BLOCKS = fs.TOTAL_UNALLOCATED_BLOCKS
  count : (fs'.gdt g).UNALLOCATED_BLOCKS =
    (fs.gdt g).UNALLOCATED_BLOCKS - min k (free_in_group c fs g)
  address : ∀ h, (fs'.gdt h).BITMAP_BLOCK_ADDRESS = (fs.gdt h).BITMAP_BLOCK_ADDRESS
  others : ∀ h, h ≠ g → fs'.gdt h = fs.gdt h
  bits : ∀ a i, fs'.bitmap a i = true ↔ fs.bitmap a i = true ∨
    a = (fs.gdt g).BITMAP_BLOCK_ADDRESS ∧ ∃ b ∈ l, block_bit c b = i
  free : free_in_group c fs' g = free_in_group c fs g - min k (free_in_group c fs g)
  lowest : ∀ b ∈ l, ∀ b', IsBlock c b' → block_group c b' = g → used c fs b' = false → b' < b →
    b' ∈ l

variable (fs) in
/-- What one in-group scan returns when the group has enough clear bits. -/
theorem Get_Free_Blocks_In_Group_spec {d : Group_Descriptor_t} (hg : g < c.TOTAL_GROUPS)
    (hd : Group_Number c d = g)
    (hk : k ≤ (clearIn (fs.bitmap d.BITMAP_BLOCK_ADDRESS) 0 c.BLOCKS_PER_GROUP).card) :
    let r := Get_Free_Blocks_In_Group c fs k d
    r.1.length = k ∧ r.1.Nodup ∧
      (∀ b ∈ r.1, (IsBlock c b ∧ block_group c b = g) ∧
        fs.bitmap d.BITMAP_BLOCK_ADDRESS (block_bit c b) = false) ∧
      (∀ a i, r.2.bitmap a i = true ↔ fs.bitmap a i = true ∨
        a = d.BITMAP_BLOCK_ADDRESS ∧ ∃ b ∈ r.1, block_bit c b = i) ∧
      (clearIn (r.2.bitmap d.BITMAP_BLOCK_ADDRESS) 0 c.BLOCKS_PER_GROUP).card =
        (clearIn (fs.bitmap d.BITMAP_BLOCK_ADDRESS) 0 c.BLOCKS_PER_GROUP).card - k ∧
      ∀ b ∈ r.1, ∀ b', IsBlock c b' → block_group c b' = g →
        fs.bitmap d.BITMAP_BLOCK_ADDRESS (block_bit c b') = false → b' < b → b' ∈ r.1 := by
  have hlen := length_takeClear (n := c.BLOCKS_PER_GROUP) (i := 0) (k := k)
    (f := fs.bitmap d.BITMAP_BLOCK_ADDRESS)
  rw [Nat.min_eq_left hk] at hlen
  have hnum : ∀ var, block_number c d var = var + (g * c.BLOCKS_PER_GROUP + 1) := by
    intro var
    rw [block_number, hd]
  have hmem : ∀ var ∈ (takeClear c.BLOCKS_PER_GROUP 0 k (fs.bitmap d.BITMAP_BLOCK_ADDRESS)).1,
      var < c.BLOCKS_PER_GROUP ∧ fs.bitmap d.BITMAP_BLOCK_ADDRESS var = false := by
    intro var hv
    have := mem_clearIn.mp (mem_takeClear hv)
    exact ⟨by omega, this.2⟩
  simp only [Get_Free_Blocks_In_Group]
  rw [padded_length (by rw [List.length_map]; exact hlen)]
  refine ⟨by rw [List.length_map]; exact hlen, ?_, ?_, ?_, ?_, ?_⟩
  · refine List.Nodup.map ?_ takeClear_nodup
    intro x y hxy
    simp only [hnum] at hxy
    omega
  · intro b hb
    obtain ⟨var, hv, rfl⟩ := List.mem_map.mp hb
    obtain ⟨hlt, hclear⟩ := hmem var hv
    rw [hnum]
    exact ⟨⟨isBlock_of_bit hg hlt, block_group_of_bit hg hlt⟩,
      by rw [block_bit_of_bit hg hlt]; exact hclear⟩
  · intro a i
    have hbits : (∃ b ∈ (takeClear c.BLOCKS_PER_GROUP 0 k
          (fs.bitmap d.BITMAP_BLOCK_ADDRESS)).1.map (block_number c d), block_bit c b = i) ↔
        i ∈ (takeClear c.BLOCKS_PER_GROUP 0 k (fs.bitmap d.BITMAP_BLOCK_ADDRESS)).1 := by
      simp only [List.mem_map]
      constructor
      · rintro ⟨_, ⟨var, hv, rfl⟩, rfl⟩
        rwa [hnum, block_bit_of_bit hg (hmem var hv).1]
      · intro hi
        exact ⟨_, ⟨i, hi, rfl⟩, by rw [hnum, block_bit_of_bit hg (hmem i hi).1]⟩
    simp only [Image.setBitmap, hbits]
    by_cases ha : a = d.BITMAP_BLOCK_ADDRESS
    · subst ha
      simp [takeClear_bits]
    · simp [ha]
  · simp [Image.setBitmap, card_clearIn_takeClear, hlen]
  · intro b hb b' hb' hgroup hclear hlt
    obtain ⟨var, hv, rfl⟩ := List.mem_map.mp hb
    have heq := hb'.eq
    have hbit : block_bit c b' < c.BLOCKS_PER_GROUP := block_bit_lt b'
    rw [hnum] at hlt
    rw [hgroup] at heq
    refine List.mem_map.mpr ⟨block_bit c b', ?_, by rw [hnum]; omega⟩
    exact takeClear_lowest hv (mem_clearIn.mpr ⟨by omega, hclear⟩) (by omega)

theorem Get_Free_Blocks_group_taken (hfs : BitmapsInGroup c fs) (hg : g < c.TOTAL_GROUPS)
    (hcount : (fs.gdt g).UNALLOCATED_BLOCKS = free_in_group c fs g) (k : Nat) :
    Taken c fs g k (Get_Free_Blocks_group c fs g k).1 (Get_Free_Blocks_group c fs g k).2.1
      (Get_Free_Blocks_group c fs g k).2.2 := by
  have hclear : ∀ b, block_group c b = g →
      fs.bitmap (fs.gdt g).BITMAP_BLOCK_ADDRESS (block_bit c b) = false →
      used c fs b = false := by
    rintro b rfl h
    exact h
  unfold Get_Free_Blocks_group
  simp only
  split_ifs with h0 hle
  · -- nothing free: the section is left at once
    have hz : min k (free_in_group c fs g) = 0 := by omega
    constructor <;> simp [hz]
  · -- the group covers the whole request
    have hmin : min k (free_in_group c fs g) = k := by omega
    have hspec := Get_Free_Blocks_In_Group_spec (fs.setDescriptor g
        { fs.gdt g with UNALLOCATED_BLOCKS := (fs.gdt g).UNALLOCATED_BLOCKS - k })
      (d := { fs.gdt g with UNALLOCATED_BLOCKS := (fs.gdt g).UNALLOCATED_BLOCKS - k })
      hg (hfs g hg) (k := k) (by change k ≤ free_in_group c fs g; omega)
    obtain ⟨hl, hn, hb, hbits, hfree, hlowest⟩ := hspec
    refine ⟨by rw [hmin]; exact hl, hn, by rw [hmin]; simp, fun b h => (hb b h).1,
      fun b h => hclear b (hb b h).1.2 (hb b h).2, rfl, ?_, ?_, ?_, hbits, ?_, ?_⟩
    · simp [Get_Free_Blocks_In_Group, Image.setDescriptor, Image.setBitmap, hmin]
    · intro h
      by_cases hh : h = g <;>
        simp [Get_Free_Blocks_In_Group, Image.setDescriptor, Image.setBitmap, hh]
    · intro h hh
      simp [Get_Free_Blocks_In_Group, Image.setDescriptor, Image.setBitmap, hh]
    · rw [hmin]
      simpa [free_in_group, Get_Free_Blocks_In_Group, Image.setDescriptor, Image.setBitmap]
        using hfree
    · rintro b h b' hb' rfl
      exact hlowest b h b' hb' rfl
  · -- the group is emptied and the scan goes on
    have hmin : min k (free_in_group c fs g) = free_in_group c fs g := by omega
    have hspec := Get_Free_Blocks_In_Group_spec fs (d := fs.gdt g) hg (hfs g hg)
      (k := (fs.gdt g).UNALLOCATED_BLOCKS) (by rw [← free_in_group, ← hcount])
    obtain ⟨hl, hn, hb, hbits, hfree, hlowest⟩ := hspec
    refine ⟨by rw [hmin, ← hcount]; exact hl, hn, by rw [hmin, ← hcount],
      fun b h => (hb b h).1, fun b h => hclear b (hb b h).1.2 (hb b h).2, rfl, ?_, ?_, ?_, hbits,
      ?_, ?_⟩
    · simp [Image.setDescriptor, hmin, hcount]
    · intro h
      by_cases hh : h = g <;>
        simp [Get_Free_Blocks_In_Group, Image.setDescriptor, Image.setBitmap, hh]
    · intro h hh
      simp [Get_Free_Blocks_In_Group, Image.setDescriptor, Image.setBitmap, hh]
    · rw [hmin, ← hcount, Nat.sub_self]
      have hself : (clearIn (fs.bitmap (fs.gdt g).BITMAP_BLOCK_ADDRESS) 0
          c.BLOCKS_PER_GROUP).card - (fs.gdt g).UNALLOCATED_BLOCKS = 0 := by
        rw [← free_in_group, hcount, Nat.sub_self]
      rw [hself] at hfree
      simpa [free_in_group, Get_Free_Blocks_In_Group, Image.setDescriptor, Image.setBitmap]
        using hfree
    · rintro b h b' hb' rfl
      exact hlowest b h b' hb' rfl

/-- The bitmaps stay where they are, and those of the other groups as they are. -/
theorem Taken.bitmapsInGroup {fs' : Image} {l : List Nat} {left : Nat}
    (ht : Taken c fs g k l left fs') (hfs : BitmapsInGroup c fs) : BitmapsInGroup c fs' := by
  intro h hh
  rw [Group_Number, ht.address, ← Group_Number, hfs h hh]

theorem Taken.used_iff {fs' : Image} {l : List Nat} {left : Nat}
    (ht : Taken c fs g k l left fs') (hfs : BitmapsInGroup c fs) (hg : g < c.TOTAL_GROUPS)
    (hb : IsBlock c b) : used c fs' b = true ↔ used c fs b = true ∨ b ∈ l := by
  unfold used
  rw [ht.bits, ht.address]
  constructor
  · rintro (hu | ⟨ha, b', hb', hbit⟩)
    · exact Or.inl hu
    · have hgr : block_group c b = g := by
        by_contra hne
        exact bitmap_addresses_differ hfs hb.group_lt hg hne ha
      have hmem := ht.block b' hb'
      have : b = b' := by rw [hb.eq, hmem.1.eq, hgr, hmem.2, hbit]
      exact Or.inr (this ▸ hb')
  · rintro (hu | hmem)
    · exact Or.inl hu
    · exact Or.inr ⟨by rw [(ht.block b hmem).2], b, hmem, rfl⟩

theorem Taken.free_other {fs' : Image} {l : List Nat} {left : Nat}
    (ht : Taken c fs g k l left fs') (hfs : BitmapsInGroup c fs) (hg : g < c.TOTAL_GROUPS)
    (hh : h < c.TOTAL_GROUPS) (hne : h ≠ g) : free_in_group c fs' h = free_in_group c fs h := by
  have hsame : fs'.bitmap (fs.gdt h).BITMAP_BLOCK_ADDRESS =
      fs.bitmap (fs.gdt h).BITMAP_BLOCK_ADDRESS := by
    funext i
    rw [Bool.eq_iff_iff, ht.bits]
    constructor
    · rintro (hset | ⟨ha, -⟩)
      · exact hset
      · exact absurd ha (bitmap_addresses_differ hfs hh hg hne)
    · exact Or.inl
  rw [free_in_group, free_in_group, ht.address, hsame]

section Release

variable (hfs : BitmapsInGroup c fs) (hb : IsBlock c b)
include hfs hb

theorem used_setFreeBlockBitmap_group {b' : Nat} (hb' : IsBlock c b') :
    used c (setFreeBlockBitmap_group c fs b) b' = true ↔ used c fs b' = true ∧ b' ≠ b := by
  have haddr : ((setFreeBlockBitmap_group c fs b).gdt (block_group c b')).BITMAP_BLOCK_ADDRESS =
      (fs.gdt (block_group c b')).BITMAP_BLOCK_ADDRESS := by
    by_cases hg : block_group c b' = block_group c b <;>
      simp [setFreeBlockBitmap_group, Image.setDescriptor, Image.setBitmap, hg]
  rw [used, haddr]
  by_cases hg : block_group c b' = block_group c b
  · by_cases hi : block_bit c b' = block_bit c b
    · have heq : b' = b := by rw [hb'.eq, hb.eq, hg, hi]
      simp [setFreeBlockBitmap_group, Image.setDescriptor, Image.setBitmap, heq]
    · have hne : b' ≠ b := by rintro rfl; exact hi rfl
      simp [setFreeBlockBitmap_group, Image.setDescriptor, Image.setBitmap, hg, hi, hne, used]
  · have ha := bitmap_addresses_differ hfs hb'.group_lt hb.group_lt hg
    have hne : b' ≠ b := by rintro rfl; exact hg rfl
    simp [setFreeBlockBitmap_group, Image.setDescriptor, Image.setBitmap, ha, hne, used]

theorem free_setFreeBlockBitmap_group (hu : used c fs b = true) (hh : h < c.TOTAL_GROUPS) :
    free_in_group c (setFreeBlockBitmap_group c fs b) h =
      free_in_group c fs h + if h = block_group c b then 1 else 0 := by
  by_cases hg : h = block_group c b
  · subst hg
    have hbit := card_clearIn_update_false (i := 0) (n := c.BLOCKS_PER_GROUP)
      (f := fs.bitmap (fs.gdt (block_group c b)).BITMAP_BLOCK_ADDRESS)
      (j := block_bit c b) ⟨Nat.zero_le _, by simpa using block_bit_lt b⟩ hu
    simpa [free_in_group, setFreeBlockBitmap_group, Image.setDescriptor, Image.setBitmap]
      using hbit
  · have ha := bitmap_addresses_differ hfs hh hb.group_lt hg
    simp [free_in_group, setFreeBlockBitmap_group, Image.setDescriptor, Image.setBitmap, hg, ha]

omit hb in
theorem bitmapsInGroup_setFreeBlockBitmap_group :
    BitmapsInGroup c (setFreeBlockBitmap_group c fs b) := by
  intro h hh
  by_cases hg : h = block_group c b
  · simpa [Group_Number, setFreeBlockBitmap_group, Image.setDescriptor, Image.setBitmap, hg]
      using hfs h hh
  · simpa [Group_Number, setFreeBlockBitmap_group, Image.setDescriptor, Image.setBitmap, hg]
      using hfs h hh

end Release

end LaLiga.Rfs
