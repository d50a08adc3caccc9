import LaLiga.Rfs.Addresses

/-! Blocks attached to an inode, where it has a free pointer. -/
namespace LaLiga.Rfs

open LaLiga.Lib

/-- What a worker works on: the mapped image, and its own `errno`. -/
structure Worker_state where
  file : Image
  errno : Option Errno

variable (c : Superblock_constants)

/-- The `k`th `uint32_t` of the block `b` set to `v`. -/
def set_indirect (fs : Image) (b k v : Nat) : Image :=
  { fs with block := Function.update fs.block (slot c b) fun j =>
      if 4 * k ≤ j ∧ j < 4 * k + 4 then (le 4 v).getD (j - 4 * k) 0 else fs.block (slot c b) j }

/-- `memcpy` of the numbers `l` to the block `b`, from its `k`th on. -/
def set_indirects (fs : Image) (b : Nat) : Nat → List Nat → Image
  | _, [] => fs
  | k, v :: l => set_indirects (set_indirect c fs b k v) b (k + 1) l

def set_inode (fs : Image) (i : Nat) (anInode : inode_t) : Image :=
  { fs with inode := Function.update fs.inode i anInode }

section Inodes

variable {fs : Image} {i j : Nat} {anInode : inode_t}

@[simp]
theorem set_inode_self : (set_inode fs i anInode).inode i = anInode := Function.update_self ..

theorem set_inode_of_ne (h : j ≠ i) : (set_inode fs i anInode).inode j = fs.inode j :=
  Function.update_of_ne h ..

@[simp]
theorem set_inode_block : (set_inode fs i anInode).block = fs.block := rfl

@[simp]
theorem set_inode_bitmap : (set_inode fs i anInode).bitmap = fs.bitmap := rfl

@[simp]
theorem set_inode_gdt : (set_inode fs i anInode).gdt = fs.gdt := rfl

end Inodes

/-- The index of the first pointer that is 0, if there is one before `limit`. -/
def sub_entries (pointers : Nat → Nat) (limit : Nat) : Nat :=
  ((List.range limit).takeWhile fun k => pointers k ≠ 0).length

/-- The pointer after the call. The `NULL` of `Get_Free_Blocks` is followed. -/
def check_and_set_Ind (indirection : Nat) (w : Worker_state) :
    Except Crash (Nat × Worker_state) :=
  if indirection ≠ 0 then .ok (indirection, w)
  else
    match Get_Free_Blocks c w.file 1 with
    | none => .error .null
    | some (l, fs) => .ok (l.headD 0, { w with file := fs })

/-- `check_and_set_Ind` of the `k`th pointer in the block `b`. -/
def check_and_set_entry (b k : Nat) (w : Worker_state) : Except Crash Worker_state :=
  match check_and_set_Ind c (indirect c w.file b k) w with
  | .error e => .error e
  | .ok (v, w) => .ok { w with file := set_indirect c w.file b k v }

def Inode_Indirect_Attach1 (indirect_block block_offset blocks_to_attach : Nat)
    (w : Worker_state) : Worker_state :=
  match Get_Free_Blocks c w.file blocks_to_attach with
  | none => { w with errno := some .ENOSPC }
  | some (l, fs) =>
    { w with file := set_indirects c fs indirect_block block_offset (l.take blocks_to_attach) }

/-- The blocks attached; `none` is the -1. -/
def check_and_attach1 (block_number blocks_to_attach : Nat) (w : Worker_state) :
    Option Nat × Worker_state :=
  let sub_entries := sub_entries (indirect c w.file block_number) (pointers_per_block c)
  let slots_available := pointers_per_block c - sub_entries
  let slots_to_copy := min slots_available blocks_to_attach
  let w :=
    if slots_available > 0 then
      Inode_Indirect_Attach1 c block_number sub_entries slots_to_copy w
    else w
  (if w.errno = some .ENOSPC then none else some slots_to_copy, w)

/-- The `for` of `Inode_Indirect_Attach2`, with `left` of its turns. -/
def Inode_Indirect_Attach2_entries (indirect_block : Nat) :
    Nat → Nat → Nat → Nat → Worker_state → Except Crash (Nat × Worker_state)
  | 0, _, _, total_attached, w => .ok (total_attached, w)
  | left + 1, entries, blocks_to_attach, total_attached, w =>
    match check_and_set_entry c indirect_block entries w with
    | .error e => .error e
    | .ok w =>
      match check_and_attach1 c (indirect c w.file indirect_block entries) blocks_to_attach w with
      | (none, w) => .ok (total_attached, w)
      | (some attached, w) =>
        if blocks_to_attach - attached = 0 then .ok (total_attached + attached, w)
        else Inode_Indirect_Attach2_entries indirect_block left (entries + 1)
          (blocks_to_attach - attached) (total_attached + attached) w

def Inode_Indirect_Attach2 (indirect_block blocks_to_attach : Nat) (w : Worker_state) :
    Except Crash (Nat × Worker_state) :=
  Inode_Indirect_Attach2_entries c indirect_block (pointers_per_block c) 0 blocks_to_attach 0 w

/-- `pointer_data_0` of the inode `i` given the blocks `l` from `k` on. -/
def set_pointer_data_0 (fs : Image) (i k : Nat) (l : List Nat) : Image :=
  let anInode := fs.inode i
  set_inode fs i { anInode with
    pointer_data_0 := fun j => if k ≤ j ∧ j < k + l.length then l.getD (j - k) 0
      else anInode.pointer_data_0 j }

def set_pointer_data_1 (fs : Image) (i v : Nat) : Image :=
  set_inode fs i { fs.inode i with pointer_data_1 := v }

def set_pointer_data_2 (fs : Image) (i v : Nat) : Image :=
  set_inode fs i { fs.inode i with pointer_data_2 := v }

def set_pointer_data_3 (fs : Image) (i v : Nat) : Image :=
  set_inode fs i { fs.inode i with pointer_data_3 := v }

/-- The return when all blocks are attached, or what is left for the next level. -/
def left_to_attach (new_blocks_amount : Nat) : Nat ⊕ Nat :=
  if new_blocks_amount = 0 then .inl 0 else .inr new_blocks_amount

/-- The direct pointers. -/
def Attach_Blocks_level0 (i new_blocks_amount : Nat) (w : Worker_state) :
    (Nat ⊕ Nat) × Worker_state :=
  let sub_entries := sub_entries (w.file.inode i).pointer_data_0 12
  let slots_available := 12 - sub_entries
  let slots_to_copy := min slots_available new_blocks_amount
  if slots_available > 0 then
    match Get_Free_Blocks c w.file slots_to_copy with
    | none => (.inl slots_available, { w with errno := some .ENOSPC })
    | some (l, fs) => (left_to_attach (new_blocks_amount - slots_to_copy),
        { w with file := set_pointer_data_0 fs i sub_entries (l.take slots_to_copy) })
  else (left_to_attach (new_blocks_amount - slots_to_copy), w)

def Attach_Blocks_level1 (i new_blocks_amount : Nat) (w : Worker_state) :
    Except Crash ((Nat ⊕ Nat) × Worker_state) :=
  match check_and_set_Ind c (w.file.inode i).pointer_data_1 w with
  | .error e => .error e
  | .ok (v, w) =>
    match check_and_attach1 c v new_blocks_amount
        { w with file := set_pointer_data_1 w.file i v } with
    | (none, w) => .ok (.inl new_blocks_amount, w)
    | (some attached, w) => .ok (left_to_attach (new_blocks_amount - attached), w)

def Attach_Blocks_level2 (i new_blocks_amount : Nat) (w : Worker_state) :
    Except Crash ((Nat ⊕ Nat) × Worker_state) :=
  match check_and_set_Ind c (w.file.inode i).pointer_data_2 w with
  | .error e => .error e
  | .ok (v, w) =>
    match Inode_Indirect_Attach2 c v new_blocks_amount
        { w with file := set_pointer_data_2 w.file i v } with
    | .error e => .error e
    | .ok (attached, w) =>
      if w.errno = some .ENOSPC then .ok (.inl attached, w)
      else .ok (left_to_attach (new_blocks_amount - attached), w)

/-- The `for` of level 3. -/
def Attach_Blocks_entries (indirect_block : Nat) :
    Nat → Nat → Nat → Worker_state → Except Crash (Nat × Worker_state)
  | 0, _, new_blocks_amount, w => .ok (new_blocks_amount, w)
  | left + 1, i, new_blocks_amount, w =>
    if new_blocks_amount = 0 then .ok (0, w)
    else
      match check_and_set_entry c indirect_block i w with
      | .error e => .error e
      | .ok w =>
        if w.errno = some .ENOSPC then .ok (new_blocks_amount, w)
        else
          match Inode_Indirect_Attach2 c (indirect c w.file indirect_block i)
              new_blocks_amount w with
          | .error e => .error e
          | .ok (attached, w) =>
            if w.errno = some .ENOSPC then .ok (new_blocks_amount - attached, w)
            else Attach_Blocks_entries indirect_block left (i + 1) (new_blocks_amount - attached) w

def Attach_Blocks_level3 (i new_blocks_amount : Nat) (w : Worker_state) :
    Except Crash (Nat × Worker_state) :=
  match check_and_set_Ind c (w.file.inode i).pointer_data_3 w with
  | .error e => .error e
  | .ok (v, w) =>
    Attach_Blocks_entries c v (pointers_per_block c) 0 new_blocks_amount
      { w with file := set_pointer_data_3 w.file i v }

/-- What it returns, mostly the number of blocks that it could not attach. -/
def Attach_Blocks (i new_blocks_amount : Nat) (w : Worker_state) :
    Except Crash (Nat × Worker_state) :=
  match Attach_Blocks_level0 c i new_blocks_amount w with
  | (.inl r, w) => .ok (r, w)
  | (.inr new_blocks_amount, w) =>
    match Attach_Blocks_level1 c i new_blocks_amount w with
    | .error e => .error e
    | .ok (.inl r, w) => .ok (r, w)
    | .ok (.inr new_blocks_amount, w) =>
      match Attach_Blocks_level2 c i new_blocks_amount w with
      | .error e => .error e
      | .ok (.inl r, w) => .ok (r, w)
      | .ok (.inr new_blocks_amount, w) => Attach_Blocks_level3 c i new_blocks_amount w

end LaLiga.Rfs
