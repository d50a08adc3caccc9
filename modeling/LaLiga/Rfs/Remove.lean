import LaLiga.Lib.Fallible
import LaLiga.Rfs.Attach

/-! Blocks taken from an inode, with the indirect blocks that become empty. -/
namespace LaLiga.Rfs

variable (c : Superblock_constants)

/-- `setFreeBlockBitmap`, which looks up the descriptor of the block's group. -/
def free_block (fs : Image) (b : Nat) : Except Crash Image :=
  if block_group c b < c.TOTAL_GROUPS then pure (setFreeBlockBitmap c fs b)
  else .error .block_group

/-- First and last index of a level, as `uint32_t`. -/
def bounds (level : Nat) : Nat × Nat :=
  (level_start c level % 2 ^ 32, (level_start c (level + 1) - 1) % 2 ^ 32)

/-- The coordinates up to the first -1, by level from the lowest. -/
def find_block_coordinates (block_index : Nat) : List Nat :=
  let pointers_per_block := pointers_per_block c
  let squared_pointers_per_block := pointers_per_block ^ 2
  let inside := fun level =>
    (bounds c level).1 ≤ block_index ∧ block_index ≤ (bounds c level).2
  let rest := fun level => block_index - (bounds c level).1
  if inside 0 then [block_index]
  else if inside 1 then [0, rest 1 % pointers_per_block]
  else if inside 2 then [0, rest 2 % pointers_per_block, rest 2 / pointers_per_block]
  else if inside 3 then
    [0, rest 3 % squared_pointers_per_block % pointers_per_block,
      rest 3 % squared_pointers_per_block / pointers_per_block,
      rest 3 / squared_pointers_per_block]
  else []

/-- Whether the block is empty; if so it is freed, and `next` done. -/
def deleteIfEmpty (fs : Image) (block_index : Nat) (next : Image → Except Crash Image) :
    Except Crash Image :=
  if ∀ j < c.BLOCK_SIZE, fs.block (slot c block_index) j = 0 then do
    let fs ← free_block c fs block_index
    next fs
  else pure fs

def RemoveIndirect (fs : Image) (i block_index : Nat) : Except Crash Image :=
  match find_block_coordinates c block_index with
  | [_, _] =>
    deleteIfEmpty c fs (fs.inode i).pointer_data_1 fun fs => pure (set_pointer_data_1 fs i 0)
  | [_, _, coordinate] =>
    deleteIfEmpty c fs (indirect c fs (fs.inode i).pointer_data_2 coordinate) fun fs =>
      let fs := set_indirect c fs (fs.inode i).pointer_data_2 coordinate 0
      deleteIfEmpty c fs (fs.inode i).pointer_data_2 fun fs => pure (set_pointer_data_2 fs i 0)
  | [_, _, coordinate, coordinate'] =>
    let ind2 := indirect c fs (fs.inode i).pointer_data_3 coordinate'
    deleteIfEmpty c fs (indirect c fs ind2 coordinate) fun fs =>
      let fs := set_indirect c fs ind2 coordinate 0
      deleteIfEmpty c fs (indirect c fs (fs.inode i).pointer_data_3 coordinate') fun fs =>
        let fs := set_indirect c fs (fs.inode i).pointer_data_3 coordinate' 0
        deleteIfEmpty c fs (fs.inode i).pointer_data_3 fun fs => pure (set_pointer_data_3 fs i 0)
  | _ => pure fs

/-- The block of the `k`th pointer in `ind1` freed and the pointer cleared, and then the
indirect blocks above it. -/
def free_entry (fs : Image) (ind1 k i block_index : Nat) : Except Crash Image := do
  let fs ← free_block c fs (indirect c fs ind1 k)
  RemoveIndirect c (set_indirect c fs ind1 k 0) i block_index

def Remove_Block (fs : Image) (i block_index : Nat) : Except Crash Image :=
  match find_block_coordinates c block_index with
  | [coordinate] => do
    let fs ← free_block c fs ((fs.inode i).pointer_data_0 coordinate)
    pure (set_pointer_data_0 fs i coordinate [0])
  | [_, coordinate] =>
    free_entry c fs (fs.inode i).pointer_data_1 coordinate i block_index
  | [_, coordinate, coordinate'] =>
    let ind1 := indirect c fs (fs.inode i).pointer_data_2 coordinate'
    free_entry c fs ind1 coordinate i block_index
  | [_, coordinate, coordinate', coordinate''] =>
    let ind2 := indirect c fs (fs.inode i).pointer_data_3 coordinate''
    let ind1 := indirect c fs ind2 coordinate'
    free_entry c fs ind1 coordinate i block_index
  | _ => pure fs

/-- The `for` of `Remove_Blocks` over `left` indexes; it also drops each from the cache. -/
def Remove_Blocks_from (i : Nat) : Nat → Nat → Image → Except Crash Image
  | 0, _, fs => pure fs
  | left + 1, start_remotion_index, fs => do
    let fs ← Remove_Block c fs i start_remotion_index
    Remove_Blocks_from i left (start_remotion_index + 1) fs

/-- The last `block_amount_to_remove` blocks. -/
def Remove_Blocks (fs : Image) (i block_amount_to_remove : Nat) : Except Crash Image :=
  let start_count := Size_In_Blocks c (uint32 (fs.inode i).size)
  let start_remotion_index := uint32 (start_count - block_amount_to_remove)
  Remove_Blocks_from c i (start_count - start_remotion_index) start_remotion_index fs

end LaLiga.Rfs
