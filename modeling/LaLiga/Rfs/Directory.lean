import LaLiga.Lib.Bytes
import LaLiga.Rfs.Remove

/-! Directories: the entries in their blocks, each one found by the length of the one before. -/
namespace LaLiga.Rfs

open LaLiga.Lib

structure entry_t where
  inode_number : Nat
  entry_len : Nat
  name_len : Nat
  file_type : Nat
  file_name : List UInt8
  deriving DecidableEq

/-- The entry that starts at `p`. -/
def entry_at (m : Bytes) (p : Nat) : entry_t where
  inode_number := m.number p 4
  entry_len := m.number (p + 4) 2
  name_len := m.number (p + 6) 1
  file_type := m.number (p + 7) 1
  file_name := m.read (p + 8) (m.number (p + 6) 1)

def get_padded_size (an_entry : entry_t) : Nat :=
  let unpad_size := 8 + an_entry.name_len
  if unpad_size % 4 > 0 then unpad_size + 4 - unpad_size % 4 else unpad_size

def create_entry (file_name : List UInt8) (inode_number : Nat) : entry_t where
  inode_number
  entry_len := (8 + file_name.length) % 2 ^ 16
  name_len := file_name.length % 2 ^ 8
  file_type := 0
  file_name

/-- The test by length and `strncmp`. -/
def entry_t.named (an_entry : entry_t) (file_name : List UInt8) : Prop :=
  an_entry.name_len = file_name.length ∧ an_entry.file_name = file_name

instance (an_entry : entry_t) (file_name : List UInt8) : Decidable (an_entry.named file_name) :=
  inferInstanceAs (Decidable (_ ∧ _))

def set_entry_len (m : Bytes) (p entry_len : Nat) : Bytes := m.write (p + 4) (le 2 entry_len)

/-- The bytes of the name are moved correctly when they overlap. -/
def copy_entry (m : Bytes) (p : Nat) (an_entry : entry_t) : Bytes :=
  m.write p (le 4 an_entry.inode_number ++ (le 2 an_entry.entry_len ++ (le 1 an_entry.name_len ++
    (le 1 an_entry.file_type ++ an_entry.file_name.take an_entry.name_len))))

/-- The entries in use from `p` to `last`. An entry of length 0 is walked forever. -/
def directory_entries (m : Bytes) (last : Nat) : Nat → Nat → Except Crash (List entry_t)
  | 0, _ => .error .endless
  | turns + 1, p =>
    if p < last then
      match directory_entries m last turns (p + (entry_at m p).entry_len) with
      | .error e => .error e
      | .ok l => .ok (if (entry_at m p).inode_number ≠ 0 then entry_at m p :: l else l)
    else .ok []

/-- The new entry put behind the first one with room for it; `none` without one. -/
def attach_scan (m : Bytes) (last : Nat) (new_entry : entry_t) :
    Nat → Nat → Except Crash (Option Bytes)
  | 0, _ => .error .endless
  | turns + 1, p =>
    if p < last then
      let an_entry := entry_at m p
      let padded_size := get_padded_size an_entry
      let free_space := an_entry.entry_len - padded_size
      if an_entry.entry_len > padded_size ∧ free_space > new_entry.entry_len then
        if padded_size > 8 then
          .ok (some (copy_entry (set_entry_len m p padded_size) (p + padded_size)
            { new_entry with entry_len := free_space }))
        else .ok (some (copy_entry m p { new_entry with entry_len := an_entry.entry_len }))
      else attach_scan m last new_entry turns (p + an_entry.entry_len)
    else .ok none

/-- The entry behind the one at `p` copied over it, with the length of both. -/
def merge_next (m : Bytes) (p : Nat) : Bytes :=
  let next := p + (entry_at m p).entry_len
  let m := set_entry_len m next ((entry_at m next).entry_len + (entry_at m p).entry_len)
  copy_entry m p (entry_at m next)

variable (c : Superblock_constants)

/-- The `while` of `delete_entry` over the entries behind the first one. `none` when the
name is not there. -/
def delete_scan (m : Bytes) (last : Nat) (file_name : List UInt8) :
    Nat → Nat → Nat → Except Crash (Option Bytes)
  | 0, _, _ => .error .endless
  | turns + 1, p, acum_len =>
    if p < last then
      let previous_entry := entry_at m p
      let acum_len := acum_len + previous_entry.entry_len
      let iterate := p + previous_entry.entry_len
      let an_entry := entry_at m iterate
      if an_entry.named file_name then
        if an_entry.entry_len = uint32 (c.BLOCK_SIZE - acum_len) then
          .ok (some (set_entry_len m p (previous_entry.entry_len + an_entry.entry_len)))
        else .ok (some (merge_next m iterate))
      else delete_scan m last file_name turns iterate acum_len
    else .ok none

/-- The mapped bytes by address. -/
def flat (fs : Image) : Bytes := fun p => fs.block (p / c.BLOCK_SIZE) (p % c.BLOCK_SIZE)

def set_flat (fs : Image) (m : Bytes) : Image :=
  { fs with block := fun b j =>
      if j < c.BLOCK_SIZE then m (b * c.BLOCK_SIZE + j) else fs.block b j }

/-- Where the block `b` starts. -/
def block_start (b : Nat) : Nat := slot c b * c.BLOCK_SIZE

/-- The blocks of a directory: the cells before the first 0. -/
def block_list (data_address : List Nat) : List Nat := data_address.takeWhile (· ≠ 0)

def read_blocks (m : Bytes) : List Nat → Except Crash (List entry_t)
  | [] => .ok []
  | b :: rest =>
    match directory_entries m (block_start c b + c.BLOCK_SIZE) (c.BLOCK_SIZE + 1)
        (block_start c b) with
    | .error e => .error e
    | .ok l =>
      match read_blocks m rest with
      | .error e => .error e
      | .ok l' => .ok (l ++ l')

/-- Its `NULL` is followed by the callers. -/
def read_directory (fs : Image) (inode : inode_t) : Except Crash (List entry_t) :=
  match Inode_Get_Data_Adressess c fs inode (uint32 inode.size) with
  | none => .error .null
  | some data_address => read_blocks c (flat c fs) (block_list data_address)

def attach_blocks (m : Bytes) (new_entry : entry_t) : List Nat → Except Crash (Option Bytes)
  | [] => .ok none
  | b :: rest =>
    match attach_scan m (block_start c b + c.BLOCK_SIZE) new_entry (c.BLOCK_SIZE + 1)
        (block_start c b) with
    | .error e => .error e
    | .ok (some m) => .ok (some m)
    | .ok none => attach_blocks m new_entry rest

def int32 (x : Int) : Int := Int.bmod x (2 ^ 32)

/-- One more block in the counts of the inode `i`. -/
def grow (fs : Image) (i : Nat) : Image :=
  set_inode fs i { fs.inode i with
    blocks := ((fs.inode i).blocks + c.BLOCK_SIZE / 512) % 2 ^ 32
    size := int32 ((fs.inode i).size + c.BLOCK_SIZE) }

/-- Each call of itself has taken a block from the image, which bounds their number. -/
def attach_entry (i : Nat) (new_entry : entry_t) : Nat → Worker_state →
    Except Crash (Bool × Worker_state)
  | 0, _ => .error .endless
  | calls + 1, w =>
    let inode := w.file.inode i
    match Inode_Get_Data_Adressess c w.file inode (uint32 (inode.blocks * 512)) with
    | none => .ok (false, w)
    | some data_address =>
      match attach_blocks c (flat c w.file) new_entry (block_list data_address) with
      | .error e => .error e
      | .ok (some m) => .ok (true, { w with file := set_flat c w.file m })
      | .ok none =>
        match Attach_Blocks c i 1 w with
        | .error e => .error e
        | .ok (_, w) =>
          if w.errno = some .ENOSPC then .ok (false, w)
          else
            match attach_entry i new_entry calls { w with file := grow c w.file i } with
            | .ok (false, w) => .ok (false, { w with errno := some .ECANCELED })
            | r => r

/-- The counts of the inode `i` once an entry of `padded_size` has gone with its block. -/
def shrink (fs : Image) (i padded_size : Nat) : Image :=
  set_inode fs i { fs.inode i with
    size := int32 ((fs.inode i).size - padded_size)
    blocks := uint32 ((fs.inode i).blocks - c.BLOCK_SIZE / 512) }

def delete_blocks (i : Nat) (file_name : List UInt8) : List Nat → Nat → Image → Except Crash Image
  | [], _, fs => .ok fs
  | b :: rest, var, fs =>
    let base := block_start c b
    let m := flat c fs
    let an_entry := entry_at m base
    let padded_size := get_padded_size an_entry
    if an_entry.named file_name then
      if an_entry.entry_len = uint32 (c.BLOCK_SIZE - padded_size) then
        match Remove_Block c fs i var with
        | .error e => .error e
        | .ok fs => .ok (shrink c fs i padded_size)
      else .ok (set_flat c fs (merge_next m base))
    else
      match delete_scan c m (base + c.BLOCK_SIZE) file_name (c.BLOCK_SIZE + 1) base 0 with
      | .error e => .error e
      | .ok (some m) => .ok (set_flat c fs m)
      | .ok none => delete_blocks i file_name rest (var + 1) fs

def delete_entry (fs : Image) (i : Nat) (file_name : List UInt8) : Except Crash Image :=
  let inode := fs.inode i
  match Inode_Get_Data_Adressess c fs inode (uint32 (inode.blocks * 512)) with
  | none => .ok fs
  | some data_address => delete_blocks c i file_name (block_list data_address) 0 fs

end LaLiga.Rfs
