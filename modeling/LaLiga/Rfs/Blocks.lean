import LaLiga.Lib.LittleEndian
import LaLiga.Rfs.FreeBlocks

/-! The bytes of the data area, and blocks and inodes handed out by one worker alone. -/
namespace LaLiga.Rfs

open LaLiga.Lib

/-- The values that the file system gives to `errno`. -/
inductive Errno
  | EPERM
  | ENOENT
  | EEXIST
  | ENOTDIR
  | ENOSPC
  | ENOTEMPTY
  | ECANCELED
  deriving DecidableEq

/-- How a request can end without a result: a `NULL` followed, an index outside its array, a
loop without end, or a group that there is not, whose inode table is read, whose inodes or
directories are counted, or whose blocks are. -/
inductive Crash
  | null
  | bounds
  | endless
  | inode_table
  | inode_group
  | block_group
  deriving DecidableEq

variable (c : Superblock_constants)

/-- The block that starts at `b * BLOCK_SIZE`, an offset computed on `uint32_t`. -/
def slot (b : Nat) : Nat := b * c.BLOCK_SIZE % 2 ^ 32 / c.BLOCK_SIZE

/-- `memset` of a whole block with 0. -/
def clear_block (fs : Image) (b : Nat) : Image :=
  { fs with block := Function.update fs.block (slot c b) fun _ => 0 }

/-- The loop stops when the *next* number is 0; the one past the array is taken as 0. -/
def CleanBlocks (fs : Image) : List Nat → Image
  | b :: next :: rest => if next = 0 then fs else CleanBlocks (clear_block c fs b) (next :: rest)
  | _ => fs

/-- The `for` of `Get_Free_Blocks`, with `groups` of them still to visit. -/
def Get_Free_Blocks_groups : Nat → Nat → Nat → Image → List Nat × Image
  | 0, _, _, fs => ([], fs)
  | groups + 1, group_number, how_many, fs =>
    if how_many = 0 then ([], fs)
    else
      let r := Get_Free_Blocks_group c fs group_number how_many
      let rest := Get_Free_Blocks_groups groups (group_number + 1) r.2.1 r.2.2
      (r.1 ++ rest.1, rest.2)

/-- `none` is the `NULL` returned with `ENOSPC`. -/
def Get_Free_Blocks (fs : Image) (how_many : Nat) : Option (List Nat × Image) :=
  match Get_Free_Blocks_reserve fs how_many with
  | none => none
  | some fs =>
    let r := Get_Free_Blocks_groups c c.TOTAL_GROUPS 0 how_many fs
    let blocks_to_return := padded how_many r.1
    some (blocks_to_return, CleanBlocks c r.2 blocks_to_return)

def setFreeBlockBitmap (fs : Image) (b : Nat) : Image :=
  setFreeBlockBitmap_super (setFreeBlockBitmap_group c fs b)

/-- The `for` of `Get_Free_Inodes`. A group that does not cover the request has its
counter cleared first, so that the copy of what it gave is empty. -/
def Get_Free_Inodes_groups : Nat → Nat → Nat → Image → List Nat × Image
  | 0, _, _, fs => ([], fs)
  | groups + 1, group_number, how_many, fs =>
    if how_many = 0 then ([], fs)
    else
      let d := fs.gdt group_number
      if how_many ≤ d.UNALLOCATED_INODES then
        let d' := { d with UNALLOCATED_INODES := d.UNALLOCATED_INODES - how_many }
        Get_Free_Inodes_In_Group c (fs.setDescriptor group_number d') how_many d' group_number
      else if d.UNALLOCATED_INODES = 0 then
        Get_Free_Inodes_groups groups (group_number + 1) how_many fs
      else
        let d' := { d with UNALLOCATED_INODES := 0 }
        let left := how_many - d.UNALLOCATED_INODES
        let r := Get_Free_Inodes_In_Group c (fs.setDescriptor group_number d') left d'
          group_number
        Get_Free_Inodes_groups groups (group_number + 1) left r.2

def Get_Free_Inodes (fs : Image) (how_many : Nat) : Option (List Nat × Image) :=
  if how_many > fs.TOTAL_UNALLOCATED_INODES then none
  else
    let fs := { fs with TOTAL_UNALLOCATED_INODES := fs.TOTAL_UNALLOCATED_INODES - how_many }
    let r := Get_Free_Inodes_groups c c.TOTAL_GROUPS 0 how_many fs
    some (padded how_many r.1, r.2)

def setFreeInodeBitmap (fs : Image) (inode_number : Nat) : Image :=
  let group_number := Inode_locateGroup c inode_number
  let d := fs.gdt group_number
  let bits := Function.update (fs.bitmap d.BITMAP_INODE_ADDRESS)
    (Inode_getLocalIndex c inode_number) false
  let fs := (fs.setBitmap d.BITMAP_INODE_ADDRESS bits).setDescriptor group_number
    { d with UNALLOCATED_INODES := (d.UNALLOCATED_INODES + 1) % 2 ^ 16 }
  { fs with TOTAL_UNALLOCATED_INODES := (fs.TOTAL_UNALLOCATED_INODES + 1) % 2 ^ 32 }

variable {c} {fs fs' : Image} {b : Nat}

theorem slot_eq (h : b * c.BLOCK_SIZE < 2 ^ 32) : slot c b = b := by
  rw [slot, Nat.mod_eq_of_lt h, Nat.mul_div_cancel _ c.size_pos]

/-- Numbers that a scan of the bitmaps can come up with. -/
def Allocatable (c : Superblock_constants) (fs : Image) (b : Nat) : Prop :=
  ∃ g < c.TOTAL_GROUPS, ∃ var < c.BLOCKS_PER_GROUP, b = block_number c (fs.gdt g) var ∧
    fs.bitmap (fs.gdt g).BITMAP_BLOCK_ADDRESS var = false

/-- What an allocation of the blocks `l` does to the image, before they are cleaned. -/
structure Got (c : Superblock_constants) (fs : Image) (l : List Nat) (fs' : Image) : Prop where
  taken : ∀ b ∈ l, b ≠ 0 → ∃ g < c.TOTAL_GROUPS, ∃ var < c.BLOCKS_PER_GROUP,
    b = block_number c (fs.gdt g) var ∧
      fs.bitmap (fs.gdt g).BITMAP_BLOCK_ADDRESS var = false ∧
      fs'.bitmap (fs.gdt g).BITMAP_BLOCK_ADDRESS var = true
  bits : ∀ a i, fs.bitmap a i = true → fs'.bitmap a i = true
  gdt : ∀ g, (fs'.gdt g).BITMAP_BLOCK_ADDRESS = (fs.gdt g).BITMAP_BLOCK_ADDRESS ∧
    (fs'.gdt g).BITMAP_INODE_ADDRESS = (fs.gdt g).BITMAP_INODE_ADDRESS ∧
    (fs'.gdt g).UNALLOCATED_INODES = (fs.gdt g).UNALLOCATED_INODES ∧
    (fs'.gdt g).NUMBER_DIRECTORIES_GROUP = (fs.gdt g).NUMBER_DIRECTORIES_GROUP
  others : ∀ a, (∀ g < c.TOTAL_GROUPS, a ≠ (fs.gdt g).BITMAP_BLOCK_ADDRESS) →
    fs'.bitmap a = fs.bitmap a
  inode : fs'.inode = fs.inode
  block : fs'.block = fs.block
  inodes : fs'.TOTAL_UNALLOCATED_INODES = fs.TOTAL_UNALLOCATED_INODES

theorem Got.refl (fs : Image) : Got c fs [] fs where
  taken := by simp
  bits := fun _ _ h => h
  gdt := fun _ => ⟨rfl, rfl, rfl, rfl⟩
  others := fun _ _ => rfl
  inode := rfl
  block := rfl
  inodes := rfl

theorem block_number_congr {d d' : Group_Descriptor_t}
    (h : d'.BITMAP_BLOCK_ADDRESS = d.BITMAP_BLOCK_ADDRESS) (var : Nat) :
    block_number c d' var = block_number c d var := by
  rw [block_number, block_number, Group_Number, Group_Number, h]

theorem Got.trans {l m : List Nat} {fs'' : Image} (h : Got c fs l fs') (h' : Got c fs' m fs'') :
    Got c fs (l ++ m) fs'' where
  taken := by
    intro b hb h0
    rcases List.mem_append.mp hb with hb | hb
    · obtain ⟨g, hg, var, hvar, he, hclear, hset⟩ := h.taken b hb h0
      exact ⟨g, hg, var, hvar, he, hclear, h'.bits _ _ hset⟩
    · obtain ⟨g, hg, var, hvar, he, hclear, hset⟩ := h'.taken b hb h0
      rw [block_number_congr (h.gdt g).1] at he
      rw [(h.gdt g).1] at hclear hset
      refine ⟨g, hg, var, hvar, he, ?_, hset⟩
      by_contra hnot
      rw [Bool.not_eq_false] at hnot
      rw [h.bits _ _ hnot] at hclear
      cases hclear
  bits := fun a i hi => h'.bits a i (h.bits a i hi)
  gdt := fun g => ⟨(h'.gdt g).1.trans (h.gdt g).1, (h'.gdt g).2.1.trans (h.gdt g).2.1,
    (h'.gdt g).2.2.1.trans (h.gdt g).2.2.1, (h'.gdt g).2.2.2.trans (h.gdt g).2.2.2⟩
  others := by
    intro a ha
    rw [h'.others a fun g hg => (h.gdt g).1 ▸ ha g hg, h.others a ha]
  inode := h'.inode.trans h.inode
  block := h'.block.trans h.block
  inodes := h'.inodes.trans h.inodes

theorem mem_padded {n x : Nat} {l : List Nat} (h : x ∈ padded n l) (h0 : x ≠ 0) : x ∈ l := by
  rcases List.mem_append.mp h with h | h
  · exact h
  · exact absurd (List.eq_of_mem_replicate h) h0

/-- A scan sets the bits it takes, and no others. -/
theorem Got.of_scan {fs fs' : Image} {g k : Nat} {l : List Nat} (hg : g < c.TOTAL_GROUPS)
    (hl : l = padded k ((takeClear c.BLOCKS_PER_GROUP 0 k
      (fs.bitmap (fs.gdt g).BITMAP_BLOCK_ADDRESS)).1.map (block_number c (fs.gdt g))))
    (hbits : fs'.bitmap = Function.update fs.bitmap (fs.gdt g).BITMAP_BLOCK_ADDRESS
      (takeClear c.BLOCKS_PER_GROUP 0 k (fs.bitmap (fs.gdt g).BITMAP_BLOCK_ADDRESS)).2)
    (hgdt : ∀ h, (fs'.gdt h).BITMAP_BLOCK_ADDRESS = (fs.gdt h).BITMAP_BLOCK_ADDRESS ∧
      (fs'.gdt h).BITMAP_INODE_ADDRESS = (fs.gdt h).BITMAP_INODE_ADDRESS ∧
      (fs'.gdt h).UNALLOCATED_INODES = (fs.gdt h).UNALLOCATED_INODES ∧
      (fs'.gdt h).NUMBER_DIRECTORIES_GROUP = (fs.gdt h).NUMBER_DIRECTORIES_GROUP)
    (hinode : fs'.inode = fs.inode) (hblock : fs'.block = fs.block)
    (hinodes : fs'.TOTAL_UNALLOCATED_INODES = fs.TOTAL_UNALLOCATED_INODES) :
    Got c fs l fs' where
  taken := by
    intro b hb h0
    rw [hl] at hb
    obtain ⟨var, hvar, rfl⟩ := List.mem_map.mp (mem_padded hb h0)
    have hclear := mem_clearIn.mp (mem_takeClear hvar)
    refine ⟨g, hg, var, by omega, rfl, hclear.2, ?_⟩
    rw [hbits, Function.update_self, takeClear_bits]
    simp [hvar]
  bits := by
    intro a i hi
    rw [hbits]
    by_cases ha : a = (fs.gdt g).BITMAP_BLOCK_ADDRESS
    · subst ha
      rw [Function.update_self, takeClear_bits, hi, Bool.true_or]
    · rw [Function.update_of_ne ha, hi]
  gdt := hgdt
  others := by
    intro a ha
    rw [hbits, Function.update_of_ne (ha g hg)]
  inode := hinode
  block := hblock
  inodes := hinodes

theorem Get_Free_Blocks_group_got {g : Nat} (hg : g < c.TOTAL_GROUPS) (k : Nat) :
    Got c fs (Get_Free_Blocks_group c fs g k).1 (Get_Free_Blocks_group c fs g k).2.2 := by
  unfold Get_Free_Blocks_group
  simp only
  split_ifs with h0 hle
  · exact Got.refl fs
  · refine Got.of_scan (k := k) hg rfl rfl ?_ rfl rfl rfl
    intro h
    by_cases hh : h = g <;>
      simp [Get_Free_Blocks_In_Group, Image.setDescriptor, Image.setBitmap, hh]
  · refine Got.of_scan (k := (fs.gdt g).UNALLOCATED_BLOCKS) hg rfl rfl ?_ rfl rfl rfl
    intro h
    by_cases hh : h = g <;>
      simp [Get_Free_Blocks_In_Group, Image.setDescriptor, Image.setBitmap, hh]

theorem Get_Free_Blocks_groups_got {groups g k : Nat} (hg : g + groups ≤ c.TOTAL_GROUPS) :
    Got c fs (Get_Free_Blocks_groups c groups g k fs).1
      (Get_Free_Blocks_groups c groups g k fs).2 := by
  induction groups generalizing g k fs with
  | zero => exact Got.refl fs
  | succ groups ih =>
    unfold Get_Free_Blocks_groups
    split_ifs with h0
    · exact Got.refl fs
    · exact (Get_Free_Blocks_group_got (by omega) k).trans (ih (by omega))

/-- The bookkeeping is that of the scan; what is cleaned are blocks that were taken. -/
theorem Get_Free_Blocks_got {k : Nat} {l : List Nat}
    (h : Get_Free_Blocks c fs k = some (l, fs')) :
    ∃ fs₁, Got c fs l fs₁ ∧ fs' = CleanBlocks c fs₁ l := by
  unfold Get_Free_Blocks Get_Free_Blocks_reserve at h
  split at h
  · cases h
  · rename_i fs₀ hres
    split_ifs at hres
    obtain rfl := Option.some.inj hres
    obtain ⟨rfl, rfl⟩ := Prod.mk.inj (Option.some.inj h)
    refine ⟨_, ?_, rfl⟩
    have hgot : Got c _ (Get_Free_Blocks_groups c c.TOTAL_GROUPS 0 k
        { fs with TOTAL_UNALLOCATED_BLOCKS := fs.TOTAL_UNALLOCATED_BLOCKS - k }).1 _ :=
      Get_Free_Blocks_groups_got (by omega)
    exact { hgot with taken := fun b hb h0 => hgot.taken b (mem_padded hb h0) h0 }

/-- Cleaning changes bytes only. -/
theorem CleanBlocks_block {l : List Nat} :
    CleanBlocks c fs l = { fs with block := (CleanBlocks c fs l).block } := by
  induction l generalizing fs with
  | nil => rfl
  | cons b l ih =>
    cases l with
    | nil => rfl
    | cons next rest =>
      unfold CleanBlocks
      split_ifs with h0
      · rfl
      · conv_lhs => rw [ih]
        rfl

section Cleaned

variable (l : List Nat)

@[simp]
theorem CleanBlocks_bitmap : (CleanBlocks c fs l).bitmap = fs.bitmap := by rw [CleanBlocks_block]

@[simp]
theorem CleanBlocks_gdt : (CleanBlocks c fs l).gdt = fs.gdt := by rw [CleanBlocks_block]

@[simp]
theorem CleanBlocks_inode : (CleanBlocks c fs l).inode = fs.inode := by rw [CleanBlocks_block]

end Cleaned

end LaLiga.Rfs
