import LaLiga.Lib.Bitmap

/-! The mapped ext2 image: superblock, descriptors, bitmaps, inodes and blocks. -/
namespace LaLiga.Rfs

open LaLiga.Lib

/-- `Super_constants`, read once from the superblock. The last two fields say that a
descriptor can count the blocks of its group in a `uint16_t` and that every block
number fits a `uint32_t`. -/
structure Superblock_constants where
  BLOCKS_PER_GROUP : Nat
  INODES_PER_GROUP : Nat
  BLOCK_SIZE : Nat
  TOTAL_GROUPS : Nat
  blocks_pos : 0 < BLOCKS_PER_GROUP
  inodes_pos : 0 < INODES_PER_GROUP
  size_pos : 0 < BLOCK_SIZE
  group_fits : BLOCKS_PER_GROUP < 2 ^ 16
  numbers_fit : TOTAL_GROUPS * BLOCKS_PER_GROUP < 2 ^ 32

structure Group_Descriptor_t where
  BITMAP_BLOCK_ADDRESS : Nat
  BITMAP_INODE_ADDRESS : Nat
  UNALLOCATED_BLOCKS : Nat
  UNALLOCATED_INODES : Nat
  NUMBER_DIRECTORIES_GROUP : Nat

def EXT2_IFDIR : Nat := 0x4000
def EXT2_IFREG : Nat := 0x8000

structure inode_t where
  mode : Nat
  size : Int
  links_count : Nat
  blocks : Nat
  pointer_data_0 : Nat → Nat
  pointer_data_1 : Nat
  pointer_data_2 : Nat
  pointer_data_3 : Nat

/-- The image. Bitmaps are kept by the address of their block, inodes by their
number, and the bytes of the data area by block number and offset. -/
structure Image where
  TOTAL_UNALLOCATED_BLOCKS : Nat
  TOTAL_UNALLOCATED_INODES : Nat
  gdt : Nat → Group_Descriptor_t
  bitmap : Nat → Nat → Bool
  inode : Nat → inode_t
  block : Nat → Nat → UInt8

/-- `x - 1` on `uint32_t`. -/
def pred32 (x : Nat) : Nat := (x + (2 ^ 32 - 1)) % 2 ^ 32

theorem pred32_of_pos {x : Nat} (h : 1 ≤ x) (hx : x < 2 ^ 32) : pred32 x = x - 1 := by
  unfold pred32
  omega

namespace Image

def setDescriptor (fs : Image) (g : Nat) (d : Group_Descriptor_t) : Image :=
  { fs with gdt := Function.update fs.gdt g d }

def setBitmap (fs : Image) (a : Nat) (bits : Nat → Bool) : Image :=
  { fs with bitmap := Function.update fs.bitmap a bits }

end Image

variable (c : Superblock_constants)

def Group_Number (d : Group_Descriptor_t) : Nat :=
  pred32 d.BITMAP_BLOCK_ADDRESS / c.BLOCKS_PER_GROUP

/-- The block number of bit `var` in the group of `d`. -/
def block_number (d : Group_Descriptor_t) (var : Nat) : Nat :=
  var + (Group_Number c d * c.BLOCKS_PER_GROUP + 1)

/-- The array of `how_many` numbers that `calloc` cleared before the scan. -/
def padded (how_many : Nat) (l : List Nat) : List Nat :=
  l ++ List.replicate (how_many - l.length) 0

def Get_Free_Blocks_In_Group (fs : Image) (how_many : Nat) (d : Group_Descriptor_t) :
    List Nat × Image :=
  let r := takeClear c.BLOCKS_PER_GROUP 0 how_many (fs.bitmap d.BITMAP_BLOCK_ADDRESS)
  (padded how_many (r.1.map (block_number c d)), fs.setBitmap d.BITMAP_BLOCK_ADDRESS r.2)

/-- The scan also tests the bit after the last one of the group (`<=`). -/
def Get_Free_Inodes_In_Group (fs : Image) (how_many : Nat) (d : Group_Descriptor_t)
    (group_number : Nat) : List Nat × Image :=
  let r := takeClear (c.INODES_PER_GROUP + 1) 0 how_many (fs.bitmap d.BITMAP_INODE_ADDRESS)
  (padded how_many (r.1.map (fun var => group_number * c.INODES_PER_GROUP + var + 1)),
    fs.setBitmap d.BITMAP_INODE_ADDRESS r.2)

def Size_In_Blocks (bytes : Nat) : Nat :=
  bytes / c.BLOCK_SIZE + if bytes % c.BLOCK_SIZE > 0 then 1 else 0

def Inode_locateGroup (anInodeNumber : Nat) : Nat := pred32 anInodeNumber / c.INODES_PER_GROUP

def Inode_getLocalIndex (anInodeNumber : Nat) : Nat := pred32 anInodeNumber % c.INODES_PER_GROUP

/-- Group and bit of a block, as `setFreeBlockBitmap` computes them. -/
def block_group (b : Nat) : Nat := pred32 b / c.BLOCKS_PER_GROUP

def block_bit (b : Nat) : Nat := pred32 b % c.BLOCKS_PER_GROUP

variable {c}

theorem block_bit_lt (b : Nat) : block_bit c b < c.BLOCKS_PER_GROUP :=
  Nat.mod_lt _ c.blocks_pos

/-- Block numbers are those of some bit of some group. -/
def IsBlock (c : Superblock_constants) (b : Nat) : Prop :=
  1 ≤ b ∧ b ≤ c.TOTAL_GROUPS * c.BLOCKS_PER_GROUP

instance (c : Superblock_constants) (b : Nat) : Decidable (IsBlock c b) :=
  inferInstanceAs (Decidable (_ ∧ _))

theorem IsBlock.pred32 {b : Nat} (h : IsBlock c b) : pred32 b = b - 1 :=
  pred32_of_pos h.1 (Nat.lt_of_le_of_lt h.2 c.numbers_fit)

theorem IsBlock.group_lt {b : Nat} (h : IsBlock c b) : block_group c b < c.TOTAL_GROUPS := by
  unfold block_group
  rw [h.pred32, Nat.div_lt_iff_lt_mul c.blocks_pos]
  have := h.1
  have := h.2
  omega

theorem IsBlock.eq {b : Nat} (h : IsBlock c b) :
    b = block_group c b * c.BLOCKS_PER_GROUP + block_bit c b + 1 := by
  have := h.1
  unfold block_group block_bit
  rw [h.pred32, Nat.mul_comm, Nat.div_add_mod]
  omega

section Numbering

variable {g i : Nat} (hg : g < c.TOTAL_GROUPS) (hi : i < c.BLOCKS_PER_GROUP)
include hg hi

theorem isBlock_of_bit : IsBlock c (i + (g * c.BLOCKS_PER_GROUP + 1)) := by
  have : (g + 1) * c.BLOCKS_PER_GROUP ≤ c.TOTAL_GROUPS * c.BLOCKS_PER_GROUP :=
    Nat.mul_le_mul_right _ hg
  rw [Nat.add_mul] at this
  exact ⟨by omega, by omega⟩

theorem block_group_of_bit : block_group c (i + (g * c.BLOCKS_PER_GROUP + 1)) = g := by
  unfold block_group
  rw [(isBlock_of_bit hg hi).pred32,
    show i + (g * c.BLOCKS_PER_GROUP + 1) - 1 = i + c.BLOCKS_PER_GROUP * g by
      rw [Nat.mul_comm]; omega,
    Nat.add_mul_div_left _ _ c.blocks_pos, Nat.div_eq_of_lt hi, Nat.zero_add]

theorem block_bit_of_bit : block_bit c (i + (g * c.BLOCKS_PER_GROUP + 1)) = i := by
  unfold block_bit
  rw [(isBlock_of_bit hg hi).pred32,
    show i + (g * c.BLOCKS_PER_GROUP + 1) - 1 = i + c.BLOCKS_PER_GROUP * g by
      rw [Nat.mul_comm]; omega,
    Nat.add_mul_mod_self_left, Nat.mod_eq_of_lt hi]

end Numbering

theorem padded_length {n : Nat} {l : List Nat} (h : l.length = n) : padded n l = l := by
  simp [padded, h]

end LaLiga.Rfs
