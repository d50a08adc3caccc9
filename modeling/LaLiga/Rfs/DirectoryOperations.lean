import LaLiga.Rfs.Directory
import LaLiga.Rfs.Path

/-! Paths looked up, and files and directories created and deleted. -/
namespace LaLiga.Rfs

open LaLiga.Lib

/-- The last part of a path. -/
def active_file_get_file_name (path : Path) : Except Crash Path :=
  if path.length = 1 then pure path
  else
    match ((path.splitOn separator).filter (· ≠ [])).getLast? with
    | none => throw .bounds
    | some file_name => pure file_name

/-- The prefix before the whole path. -/
def parent_path (path : Path) : Except Crash Path :=
  match split_path path with
  | none => throw .null
  | some file_tree =>
    match file_tree.findIdx? fun p => p.take path.length = path with
    | none => throw .null
    | some 0 => throw .bounds
    | some (parent_index + 1) => pure (file_tree.getD parent_index [])

def ROOT_INODE_NUMBER : Nat := 2

variable (c : Superblock_constants)

/-- The number of an inode that lies in the table of some group. -/
def Inode_Global_Read (inode_number : Nat) : Except Crash Nat :=
  if Inode_locateGroup c inode_number < c.TOTAL_GROUPS then pure inode_number
  else throw .inode_table

/-- The number found by the last of `sub_paths`, or 0. -/
def search_in_directory (fs : Image) : List Path → List entry_t → Except Crash Nat
  | [], _ => pure 0
  | path :: sub_paths, old_entries => do
    let file_name ← active_file_get_file_name path
    match old_entries.find? fun e => e.named file_name with
    | none => pure 0
    | some e =>
      if sub_paths = [] then pure e.inode_number
      else do
        let dir_to_list ← Inode_Global_Read c e.inode_number
        let new_entries ← read_directory c fs (fs.inode dir_to_list)
        search_in_directory fs sub_paths new_entries

/-- The inode of a path, if there is one; it changes `errno` only when there is not. -/
def inode_of_file (path : Path) (w : Worker_state) : Except Crash (Option Nat × Worker_state) :=
  match split_path path with
  | none => pure (none, w)
  | some file_tree =>
    if file_tree.length = 1 then pure (some ROOT_INODE_NUMBER, w)
    else do
      let root_entries ← read_directory c w.file (w.file.inode ROOT_INODE_NUMBER)
      let inode_number ← search_in_directory c w.file file_tree.tail root_entries
      if inode_number = 0 then pure (none, { w with errno := some .ENOENT })
      else do
        let found ← Inode_Global_Read c inode_number
        pure (some found, w)

/-- `setFreeInodeBitmap`, which looks up the descriptor of the inode's group. -/
def free_inode (fs : Image) (inode_number : Nat) : Except Crash Image :=
  if Inode_locateGroup c inode_number < c.TOTAL_GROUPS then
    pure (setFreeInodeBitmap c fs inode_number)
  else throw .inode_group

def empty_inode : inode_t := ⟨0, 0, 0, 0, fun _ => 0, 0, 0, 0⟩

def Clear_Inode (fs : Image) (i : Nat) : Image := set_inode fs i empty_inode

def setFileInode (fs : Image) (i mode : Nat) : Image :=
  set_inode fs i { empty_inode with
    links_count := 1
    mode := (mode ||| EXT2_IFREG) % 2 ^ 16 }

/-- `NUMBER_DIRECTORIES_GROUP` of the group changed by `f`. -/
def count_directory (fs : Image) (group_number : Nat) (f : Nat → Nat) : Except Crash Image :=
  if group_number < c.TOTAL_GROUPS then
    let g_desc := fs.gdt group_number
    pure (fs.setDescriptor group_number
      { g_desc with NUMBER_DIRECTORIES_GROUP := f g_desc.NUMBER_DIRECTORIES_GROUP % 2 ^ 16 })
  else throw .inode_group

/-- What an inode of a directory is first. -/
def directory_inode (mode : Nat) : inode_t :=
  { empty_inode with
    blocks := c.BLOCK_SIZE / 512
    links_count := 1
    mode := (mode ||| EXT2_IFDIR) % 2 ^ 16
    size := int32 c.BLOCK_SIZE }

def setDirInode (fs : Image) (inode_number mode : Nat) : Except Crash Image := do
  let fs ← count_directory c fs (inode_number / c.INODES_PER_GROUP) (· + 1)
  pure (set_inode fs inode_number (directory_inode c mode))

structure Create_params where
  path : Path
  mode : Nat
  file : Bool

/-- The entries of a new directory: `.` over the whole block, and `..` attached behind it. -/
def set_base_entries (i parent_inode_number : Nat) (w : Worker_state) :
    Except Crash Worker_state := do
  let base_entry := block_start c ((w.file.inode i).pointer_data_0 0)
  let entry := { create_entry [46] i with entry_len := c.BLOCK_SIZE % 2 ^ 16 }
  let w := { w with file := set_flat c w.file (copy_entry (flat c w.file) base_entry entry) }
  let (_, w) ← attach_entry c i (create_entry [46, 46] parent_inode_number)
    (w.file.TOTAL_UNALLOCATED_BLOCKS + 1) w
  pure w

/-- The part of `create_file_dir` after the entry is in the parent directory. -/
def create_inode (params : Create_params) (file_name : Path) (parent i : Nat) (w : Worker_state) :
    Except Crash (Nat × Worker_state) := do
  let i ← Inode_Global_Read c i
  if params.file then pure (0, { file := setFileInode w.file i params.mode, errno := none })
  else do
    let fs ← setDirInode c w.file i params.mode
    let (_, w) ← Attach_Blocks c i 1 { w with file := fs }
    if w.errno = some .ENOSPC then do
      let fs ← free_inode c w.file i
      let fs ← delete_entry c fs parent file_name
      pure (1, { w with file := Clear_Inode fs i })
    else do
      let w ← set_base_entries c i parent w
      pure (0, { w with errno := none })

/-- What `create_file_dir` does for a path that is not there: an inode is taken and its entry
attached to the parent directory. -/
def create_entry_of (params : Create_params) (w : Worker_state) :
    Except Crash (Nat × Worker_state) := do
  let parent_dir ← parent_path params.path
  let (parent, w) ← inode_of_file c parent_dir { w with errno := none }
  match Get_Free_Inodes c w.file 1 with
  | none => pure (1, { w with errno := some .ENOSPC })
  | some (new_inode_number, fs) => do
    let i := new_inode_number.headD 0
    let file_name ← active_file_get_file_name params.path
    match parent with
    | none => throw .null
    | some parent => do
      let (attached, w) ← attach_entry c parent (create_entry file_name i)
        (fs.TOTAL_UNALLOCATED_BLOCKS + 1) { w with file := fs }
      if attached then create_inode c params file_name parent i w
      else do
        let fs ← free_inode c w.file i
        pure (1, { w with file := fs })

/-- The error code of the answer is 1 or 0. -/
def create_file_dir (params : Create_params) (w : Worker_state) :
    Except Crash (Nat × Worker_state) := do
  let (found, w) ← inode_of_file c params.path w
  if found.isSome then pure (1, { w with errno := some .EEXIST })
  else create_entry_of c params w

/-- Whether the second entry of the block takes all that the first one leaves. -/
def only_base_entries (fs : Image) (b : Nat) : Bool :=
  let m := flat c fs
  let an_entry := entry_at m (block_start c b)
  let first_len := get_padded_size an_entry
  (entry_at m (block_start c b + an_entry.entry_len)).entry_len = uint32 (c.BLOCK_SIZE - first_len)

/-- The part of `delete_dir` after the entry has left the parent directory. -/
def delete_inode (i data_address : Nat) (w : Worker_state) : Except Crash (Nat × Worker_state) :=
  if only_base_entries c w.file data_address then do
    let fs ← Remove_Block c w.file i 0
    let fs ← count_directory c (Clear_Inode fs i) (Inode_locateGroup c i) (· + (2 ^ 16 - 1))
    let fs ← free_inode c fs i
    pure (0, { w with file := fs })
  else pure (1, { w with errno := some .ENOTEMPTY })

def delete_dir (path : Path) (w : Worker_state) : Except Crash (Nat × Worker_state) := do
  let (found, w) ← inode_of_file c path w
  match found with
  | none => pure (1, w)
  | some i =>
    if (w.file.inode i).blocks > c.BLOCK_SIZE / 512 then
      pure (1, { w with errno := some .ENOTEMPTY })
    else do
      let parent_dir ← parent_path path
      let (parent, w) ← inode_of_file c parent_dir w
      match Inode_Get_Data_Adressess c w.file (w.file.inode i)
          (uint32 (w.file.inode i).size) with
      | none => pure (1, w)
      | some data_address => do
        let file_name ← active_file_get_file_name path
        match parent with
        | none => throw .null
        | some parent => do
          let fs ← delete_entry c w.file parent file_name
          delete_inode c i (data_address.headD 0) { w with file := fs }

end LaLiga.Rfs
