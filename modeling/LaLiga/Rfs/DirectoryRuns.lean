import LaLiga.Rfs.DirectoryCount
import LaLiga.Rfs.Numbering

/-! Runs of requests that create and delete directories, and the counts of the groups. -/
namespace LaLiga.Rfs

open LaLiga.Lib

inductive Directory_request
  | create_dir (path : Path) (mode : Nat)
  | delete_dir (path : Path)

variable (c : Superblock_constants)

def Directory_request.run (w : Worker_state) : Directory_request → Except Crash (Nat × Worker_state)
  | .create_dir path mode => create_file_dir c ⟨path, mode, false⟩ w
  | .delete_dir path => Rfs.delete_dir c path w

/-- A request that returns, with either answer. -/
def directory_step (w : Worker_state) (r : Directory_request) (w' : Worker_state) : Prop :=
  ∃ err, r.run c w = .ok (err, w')

/-- The entries that the lookup of the path meets have numbers of inodes of the image. -/
def Names_inodes (path : Path) (w : Worker_state) : Prop :=
  inode_of_file c path w ≠ .error .inode_table

/-- The parent directory of a path has been found, from a state `w` to `w'`. -/
def Parent_found (path : Path) (w : Worker_state) (parent : Nat) (w' : Worker_state) : Prop :=
  ∃ parent_dir, parent_path path = .ok parent_dir ∧
    inode_of_file c parent_dir w = .ok (some parent, w')

/-- The creation of a path gets as far as the inode `n`: its entry is in the parent, in `w'`. -/
def Entered (path : Path) (w : Worker_state) (n : Nat) (w' : Worker_state) : Prop :=
  ∃ w₀ parent w₁ l fs file_name, inode_of_file c path w = .ok (none, w₀) ∧
    Parent_found c path { w₀ with errno := none } parent w₁ ∧
    Get_Free_Inodes c w₁.file 1 = some (l, fs) ∧
    active_file_get_file_name path = .ok file_name ∧
    attach_entry c parent (create_entry file_name n) (fs.TOTAL_UNALLOCATED_BLOCKS + 1)
      { w₁ with file := fs } = .ok (true, w')

/-- The deletion of a path gets as far as its inode `n`: its entry has left the parent. -/
def Left (path : Path) (w : Worker_state) (n : Nat) : Prop :=
  ∃ parent w₁ l file_name fs, inode_of_file c path w = .ok (some n, w) ∧
    (w.file.inode n).blocks ≤ c.BLOCK_SIZE / 512 ∧
    Parent_found c path w parent w₁ ∧
    Inode_Get_Data_Adressess c w.file (w.file.inode n) (uint32 (w.file.inode n).size) = some l ∧
    active_file_get_file_name path = .ok file_name ∧
    delete_entry c w.file parent file_name = .ok fs ∧
    only_base_entries c fs (l.headD 0) = true

/-- When the request counts directories as it should: a new directory does not get the last
inode of a group and gets a block, and what is deleted is an allocated directory. -/
def Directory_request.Counts (w : Worker_state) : Directory_request → Prop
  | .create_dir path _ => Names_inodes c path w ∧
    (∀ w₀ parent_dir, inode_of_file c path w = .ok (none, w₀) → parent_path path = .ok parent_dir →
      Names_inodes c parent_dir { w₀ with errno := none }) ∧
    ∀ g i w', First_free c w.file g i → Entered c path w (inode_number c g i) w' →
      i + 1 ≠ c.INODES_PER_GROUP ∧ 0 < w'.file.TOTAL_UNALLOCATED_BLOCKS
  | .delete_dir path => Names_inodes c path w ∧
    (∀ n parent_dir, inode_of_file c path w = .ok (some n, w) → parent_path path = .ok parent_dir →
      Names_inodes c parent_dir w) ∧
    ∀ n, Left c path w n → ∃ g < c.TOTAL_GROUPS, ∃ i < c.INODES_PER_GROUP,
      n = inode_number c g i ∧ directory_bit c w.file g i = true

variable {c} {fs : Image} {w : Worker_state} {path : Path} {g i n parent : Nat}

theorem ends_directory_entries {m : Bytes} {last turns p : Nat} :
    Ends Of_blocks (fun _ => True) (directory_entries m last turns p) := by
  induction turns generalizing p with
  | zero => exact .error (by decide)
  | succ turns ih =>
    unfold directory_entries
    split
    · split
      · rename_i hres
        exact .error (ih.of_error hres)
      · exact .ok trivial
    · exact .ok trivial

theorem ends_read_blocks {m : Bytes} {l : List Nat} :
    Ends Of_blocks (fun _ => True) (read_blocks c m l) := by
  induction l with
  | nil => exact .ok trivial
  | cons b rest ih =>
    unfold read_blocks
    split
    · rename_i hres
      exact .error (ends_directory_entries.of_error hres)
    · split
      · rename_i hres
        exact .error (ih.of_error hres)
      · exact .ok trivial

theorem ends_read_directory {inode : inode_t} :
    Ends Of_blocks (fun _ => True) (read_directory c fs inode) := by
  unfold read_directory
  split
  · exact .error (by decide)
  · exact ends_read_blocks

theorem ends_active_file_get_file_name :
    Ends Of_blocks (fun _ => True) (active_file_get_file_name path) := by
  unfold active_file_get_file_name
  split_ifs
  · exact .pure trivial
  · split
    · exact .error (by decide)
    · exact .pure trivial

theorem ends_parent_path : Ends Of_blocks (fun _ => True) (parent_path path) := by
  unfold parent_path
  split
  · exact .error (by decide)
  · split
    · exact .error (by decide)
    · exact .error (by decide)
    · exact .pure trivial

theorem ends_Inode_Global_Read :
    Ends (· ≠ .inode_group) (fun m => m = n) (Inode_Global_Read c n) := by
  unfold Inode_Global_Read
  split_ifs
  · exact .pure rfl
  · exact .error (by decide)

theorem ends_search_in_directory {sub_paths : List Path} {old_entries : List entry_t} :
    Ends (· ≠ .inode_group) (fun _ => True)
      (search_in_directory c fs sub_paths old_entries) := by
  induction sub_paths generalizing old_entries with
  | nil => exact .pure trivial
  | cons path sub_paths ih =>
    unfold search_in_directory
    refine (ends_active_file_get_file_name.weaken fun e he => he.2).bind ?_
    intro file_name _ _
    split
    · exact .pure trivial
    · split_ifs
      · exact .pure trivial
      · refine ends_Inode_Global_Read.bind ?_
        intro dir_to_list _ _
        refine (ends_read_directory.weaken fun e he => he.2).bind ?_
        intro new_entries _ _
        exact ih

/-- A path lookup changes `errno` only, and that only when nothing is found. -/
theorem ends_inode_of_file (h : Names_inodes c path w) :
    Ends Of_blocks (fun r => r.2.file = w.file ∧ (r.1 ≠ none → r.2 = w))
      (inode_of_file c path w) := by
  have hgroup : Ends (· ≠ .inode_group) (fun r => r.2.file = w.file ∧ (r.1 ≠ none → r.2 = w))
      (inode_of_file c path w) := by
    unfold inode_of_file
    split
    · exact .pure ⟨rfl, fun _ => rfl⟩
    · split_ifs
      · exact .pure ⟨rfl, fun _ => rfl⟩
      · refine (ends_read_directory.weaken fun e he => he.2).bind ?_
        intro root_entries _ _
        refine ends_search_in_directory.bind ?_
        intro inode_number _ _
        split_ifs
        · exact .pure ⟨rfl, fun hne => absurd rfl hne⟩
        · refine ends_Inode_Global_Read.bind ?_
          intro found _ _
          exact .pure ⟨rfl, fun _ => rfl⟩
  refine ⟨hgroup.1, ?_⟩
  intro e he
  refine ⟨?_, hgroup.of_error he⟩
  rintro rfl
  exact h he

/-- An allocation that asks for no more than there is. -/
theorem Get_Free_Blocks_some (h : n ≤ fs.TOTAL_UNALLOCATED_BLOCKS) :
    ∃ r, Get_Free_Blocks c fs n = some r := by
  unfold Get_Free_Blocks Get_Free_Blocks_reserve
  rw [if_neg (Nat.not_lt.mpr h)]
  exact ⟨_, rfl⟩

/-- The first block of an inode is attached when there is one. -/
theorem Attach_Blocks_first (hempty : (w.file.inode i).pointer_data_0 0 = 0)
    (hfree : 0 < w.file.TOTAL_UNALLOCATED_BLOCKS) :
    ∃ fs, Attach_Blocks c i 1 w = .ok (0, { w with file := fs }) := by
  have hsub : sub_entries (w.file.inode i).pointer_data_0 12 = 0 := by
    simp [sub_entries, List.range_succ_eq_map, hempty]
  obtain ⟨⟨l, fs⟩, hget⟩ := Get_Free_Blocks_some (c := c) hfree
  refine ⟨set_pointer_data_0 fs i 0 (l.take 1), ?_⟩
  simp [Attach_Blocks, Attach_Blocks_level0, hsub, hget, left_to_attach]

theorem directory_mode (mode : Nat) : (mode ||| EXT2_IFDIR) % 2 ^ 16 &&& EXT2_IFDIR ≠ 0 := by
  intro h
  have hdir : EXT2_IFDIR.testBit 14 = true := by decide
  have hbit := congrArg (Nat.testBit · 14) h
  simp only [Nat.testBit_and, Nat.testBit_mod_two_pow, Nat.testBit_or, hdir, Bool.or_true,
    Bool.and_true, Nat.zero_testBit] at hbit
  exact absurd hbit (by decide)

/-- A directory is counted in its group when its inode is not the last one there. -/
theorem setDirInode_accounted (mode : Nat) (hcons : Inodes_consistent c fs)
    (hg : g < c.TOTAL_GROUPS) (hi : i < c.INODES_PER_GROUP) (hset : inode_bit fs g i = true)
    (hcount : Counted_but c fs (inode_number c g i)) (hlast : i + 1 ≠ c.INODES_PER_GROUP) :
    ∃ fs', setDirInode c fs (inode_number c g i) mode = .ok fs' ∧ Accounted c fs' ∧
      fs'.inode (inode_number c g i) = directory_inode c mode ∧
      fs'.TOTAL_UNALLOCATED_BLOCKS = fs.TOTAL_UNALLOCATED_BLOCKS := by
  unfold setDirInode count_directory
  rw [group_of_setDirInode hi hlast, if_pos hg]
  refine ⟨recount fs g (((fs.gdt g).NUMBER_DIRECTORIES_GROUP + 1) % 2 ^ 16) (inode_number c g i)
    (directory_inode c mode), rfl, ⟨recount_consistent hcons, ?_⟩, set_inode_self, rfl⟩
  refine counted_insert hg hi hcons.group_fits hcount ?_
    (fun k _ j _ hne => directory_bit_recount hne) fun k _ => count_recount k
  rw [directory_bit, inode_bit_recount, hset]
  simp only [recount, Image.setDescriptor, set_inode_self]
  exact decide_eq_true (directory_mode mode)

theorem ends_set_base_entries :
    Ends Of_blocks (fun w' => Same_inodes c w.file w'.file) (set_base_entries c i parent w) := by
  unfold set_base_entries
  refine ends_attach_entry.bind ?_
  rintro ⟨attached, w'⟩ _ ⟨hwork, -⟩
  exact .pure ((same_block _).trans hwork)

theorem create_inode_accounted {mode : Nat} {file_name : Path} (hcons : Inodes_consistent c w.file)
    (hg : g < c.TOTAL_GROUPS) (hi : i < c.INODES_PER_GROUP)
    (hset : inode_bit w.file g i = true) (hcount : Counted_but c w.file (inode_number c g i))
    (hlast : i + 1 ≠ c.INODES_PER_GROUP) (hfree : 0 < w.file.TOTAL_UNALLOCATED_BLOCKS)
    (herrno : w.errno = none) :
    Ends Of_blocks (fun r => Accounted c r.2.file)
      (create_inode c ⟨path, mode, false⟩ file_name parent (inode_number c g i) w) := by
  have hgroup : Inode_locateGroup c (inode_number c g i) < c.TOTAL_GROUPS := by
    rw [locate_inode_number hcons.numbers_fit hg hi]
    exact hg
  obtain ⟨fs, hdir, hacc, hinode, hblocks⟩ :=
    setDirInode_accounted mode hcons hg hi hset hcount hlast
  obtain ⟨fs', hattach⟩ := Attach_Blocks_first (c := c) (w := { w with file := fs })
    (i := inode_number c g i) (by rw [hinode]; rfl) (by rw [hblocks]; exact hfree)
  have hwork := ends_Attach_Blocks.of_ok hattach
  have hread : Inode_Global_Read c (inode_number c g i) = .ok (inode_number c g i) := by
    unfold Inode_Global_Read
    rw [if_pos hgroup]
    rfl
  have hnospace : w.errno ≠ some .ENOSPC := by simp [herrno]
  unfold create_inode
  rw [hread]
  show Ends _ _ (setDirInode c w.file (inode_number c g i) mode >>= _)
  rw [hdir]
  show Ends _ _ (Attach_Blocks c (inode_number c g i) 1 { w with file := fs } >>= _)
  rw [hattach]
  show Ends _ _ (if w.errno = some .ENOSPC then _ else _)
  rw [if_neg hnospace]
  refine ends_set_base_entries.bind ?_
  intro w' _ hwork'
  exact .pure ((hwork.same.trans hwork').accounted hacc)

theorem create_dir_accounted {mode : Nat} (hacc : Accounted c w.file)
    (h : (Directory_request.create_dir path mode).Counts c w) :
    Ends Of_blocks (fun r => Accounted c r.2.file)
      ((Directory_request.create_dir path mode).run c w) := by
  obtain ⟨hnames, hparent, hinode⟩ := h
  refine (ends_inode_of_file hnames).bind ?_
  rintro ⟨found, w₀⟩ hfound ⟨hfile, -⟩
  cases found with
  | some n => exact .pure (hfile.symm ▸ hacc)
  | none =>
    refine ends_parent_path.bind ?_
    intro parent_dir hparent_dir _
    refine (ends_inode_of_file (hparent w₀ parent_dir hfound hparent_dir)).bind ?_
    rintro ⟨parent, w₁⟩ hlookup ⟨hfile₁, hsame⟩
    obtain ⟨file, errno⟩ := w₁
    obtain rfl : file = w.file := hfile₁.trans hfile
    dsimp only
    split
    · exact .pure hacc
    · rename_i l fs hget
      obtain ⟨g, i, hfirst, rfl, rfl⟩ := Get_Free_Inodes_one hacc.inodes hget
      have htake := take_inode_consistent hacc.inodes hfirst.group_lt hfirst.bit_lt hfirst.clear
      have hcount : Counted_but c (take_inode w.file g i) (inode_number c g i) := by
        apply counted_but_set_inode_bit hacc.inodes hfirst.group_lt
        refine (counted_but_iff hfirst.group_lt hfirst.bit_lt ?_).mpr hacc.directories
        rw [directory_bit, hfirst.clear, Bool.false_and]
      have hset : inode_bit (take_inode w.file g i) g i = true := by
        rw [take_inode, inode_bit_set hacc.inodes hfirst.group_lt hfirst.group_lt, if_pos rfl,
          Function.update_self]
      refine ends_active_file_get_file_name.bind ?_
      intro file_name hname _
      cases parent with
      | none => exact .error (by decide)
      | some parent =>
        have herrno : errno = none := congrArg Worker_state.errno (hsame (by simp))
        dsimp only
        refine ends_attach_entry.bind ?_
        rintro ⟨attached, w'⟩ hattach ⟨hwork, hkeep⟩
        have hcons' := hwork.consistent htake
        have hset' : inode_bit w'.file g i = true := by
          rw [hwork.inode_bit htake hfirst.group_lt]
          exact hset
        have hcount' := hwork.counted_but htake hcount
        cases attached with
        | false =>
          refine (free_inode_accounted hcons' hfirst.group_lt hfirst.bit_lt hset' hcount').bind ?_
          intro fs _ hfs
          exact .pure hfs
        | true =>
          obtain ⟨hlast, hfree⟩ := hinode g i w' hfirst ⟨w₀, parent, _, _, _, file_name, hfound,
            ⟨parent_dir, hparent_dir, hlookup⟩, hget, hname, hattach⟩
          exact create_inode_accounted hcons' hfirst.group_lt hfirst.bit_lt hset' hcount' hlast hfree
            (hkeep rfl herrno)

/-- A directory that is removed is no longer counted in its group. -/
theorem uncount_directory (hacc : Accounted c fs) (hg : g < c.TOTAL_GROUPS)
    (hi : i < c.INODES_PER_GROUP) (hdir : directory_bit c fs g i = true) :
    Ends Of_blocks (fun fs' => Inodes_consistent c fs' ∧ inode_bit fs' g i = true ∧
        Counted_but c fs' (inode_number c g i))
      (count_directory c (Clear_Inode fs (inode_number c g i))
        (Inode_locateGroup c (inode_number c g i)) (· + (2 ^ 16 - 1))) := by
  rw [locate_inode_number hacc.inodes.numbers_fit hg hi]
  unfold count_directory
  rw [if_pos hg]
  refine .pure (a := recount fs g (((fs.gdt g).NUMBER_DIRECTORIES_GROUP + (2 ^ 16 - 1)) % 2 ^ 16)
    (inode_number c g i) empty_inode) ⟨recount_consistent hacc.inodes, ?_, ?_⟩
  · rw [inode_bit_recount]
    rw [directory_bit, Bool.and_eq_true] at hdir
    exact hdir.1
  · exact counted_erase hg hi hacc.inodes.group_fits hacc.directories hdir
      (fun k _ j _ hne => directory_bit_recount hne) fun k _ => count_recount k

theorem delete_inode_accounted {data_address : Nat} (hacc : Accounted c w.file)
    (hdir : only_base_entries c w.file data_address = true → ∃ g < c.TOTAL_GROUPS,
      ∃ i < c.INODES_PER_GROUP, n = inode_number c g i ∧ directory_bit c w.file g i = true) :
    Ends Of_blocks (fun r => Accounted c r.2.file) (delete_inode c n data_address w) := by
  unfold delete_inode
  split_ifs with hempty
  · obtain ⟨g, hg, i, hi, rfl, hbit⟩ := hdir hempty
    refine ends_Remove_Block.bind ?_
    intro fs _ hwork
    have hbit := (hwork.directory_bit hacc.inodes hg).trans hbit
    refine (uncount_directory (hwork.accounted hacc) hg hi hbit).bind ?_
    rintro fs' _ ⟨hcons, hset, hcount⟩
    refine (free_inode_accounted hcons hg hi hset hcount).bind ?_
    intro fs'' _ hacc
    exact .pure hacc
  · exact .pure hacc

theorem delete_dir_accounted (hacc : Accounted c w.file)
    (h : (Directory_request.delete_dir path).Counts c w) :
    Ends Of_blocks (fun r => Accounted c r.2.file)
      ((Directory_request.delete_dir path).run c w) := by
  obtain ⟨hnames, hparent, hdir⟩ := h
  refine (ends_inode_of_file hnames).bind ?_
  rintro ⟨found, w₀⟩ hfound ⟨hfile, hsame⟩
  cases found with
  | none => exact .pure (hfile.symm ▸ hacc)
  | some n =>
    obtain rfl : w₀ = w := hsame (by simp)
    dsimp only
    split_ifs with hblocks
    · exact .pure hacc
    · refine ends_parent_path.bind ?_
      intro parent_dir hparent_dir _
      refine (ends_inode_of_file (hparent n parent_dir hfound hparent_dir)).bind ?_
      rintro ⟨parent, w₁⟩ hlookup ⟨hfile₁, hsame⟩
      obtain ⟨file, errno⟩ := w₁
      obtain rfl : file = w₀.file := hfile₁
      dsimp only
      split
      · exact .pure hacc
      · rename_i l haddress
        refine ends_active_file_get_file_name.bind ?_
        intro file_name hname _
        cases parent with
        | none => exact .error (by decide)
        | some parent =>
          refine ends_delete_entry.bind ?_
          intro fs hdelete hwork
          refine delete_inode_accounted (hwork.accounted hacc) ?_
          intro hempty
          obtain ⟨g, hg, i, hi, hn, hbit⟩ := hdir n ⟨parent, _, l, file_name, fs, hfound,
            Nat.not_lt.mp hblocks, ⟨parent_dir, hparent_dir, hlookup⟩, haddress, hname, hdelete,
            hempty⟩
          exact ⟨g, hg, i, hi, hn, (hwork.directory_bit hacc.inodes hg).trans hbit⟩

/-- A request that counts keeps the counts, and uses the groups of the image only. -/
theorem Directory_request.accounted {r : Directory_request} (hacc : Accounted c w.file)
    (h : r.Counts c w) : Ends Of_blocks (fun x => Accounted c x.2.file) (r.run c w) := by
  cases r with
  | create_dir path mode => exact create_dir_accounted hacc h
  | delete_dir path => exact delete_dir_accounted hacc h

/-- In every run of requests that count, each descriptor has the number of directories of its
group, and no such request uses the group of an inode that is not in the image. -/
theorem directories_counted_run {rs : List Directory_request} {t : Worker_state}
    (hrun : Trace (Guarded (fun w r => r.Counts c w) (directory_step c)) w rs t)
    (hcons : Inodes_consistent c w.file) (hcount : Directories_counted c w.file) :
    Directories_counted c t.file ∧ ∀ r : Directory_request, r.Counts c t →
      r.run c t ≠ .error .inode_group ∧ r.run c t ≠ .error .inode_table := by
  have hacc : Accounted c t.file := by
    refine hrun.invariant (I := fun w => Accounted c w.file) ?_ ⟨hcons, hcount⟩
    rintro s r t hs ⟨hcounts, err, hstep⟩
    exact (Directory_request.accounted hs hcounts).of_ok hstep
  refine ⟨hacc.directories, ?_⟩
  intro r hcounts
  have hends := Directory_request.accounted hacc hcounts
  exact ⟨fun he => (hends.of_error he).2 rfl, fun he => (hends.of_error he).1 rfl⟩

/-- Blocks of 1024 bytes, six of the eight in use, the last one by the root directory, and
`inodes` of the eight inodes in use. -/
def root_only (inodes : Nat) : Image where
  TOTAL_UNALLOCATED_BLOCKS := 2
  TOTAL_UNALLOCATED_INODES := 8 - inodes
  gdt := fun _ => ⟨3, 4, 2, 8 - inodes, 1⟩
  bitmap := fun a i => (a = 3 ∧ i < 6) ∨ (a = 4 ∧ i < inodes)
  inode := fun n => if n = 2 then
      ⟨EXT2_IFDIR, 1024, 1, 2, fun k => if k = 0 then 6 else 0, 0, 0, 0⟩
    else empty_inode
  block := fun b => if b = 6 then copy_entry (copy_entry (fun _ => 0) 0 ⟨2, 12, 1, 0, [46]⟩) 12
      ⟨2, 1012, 2, 0, [46, 46]⟩ else fun _ => 0

theorem root_only_consistent {inodes : Nat} (h : inodes = 6 ∨ inodes = 7) :
    Inodes_consistent (one_group 0 (by decide)) (root_only inodes) ∧
      Directories_counted (one_group 0 (by decide)) (root_only inodes) := by
  have hone : ∀ g < (one_group 0 (by decide)).TOTAL_GROUPS, g = 0 := fun g hg => Nat.lt_one_iff.mp hg
  refine ⟨⟨by decide, by decide, ?_, ?_, ?_, ?_⟩, ?_⟩
  · intro g hg k hk hne
    exact absurd ((hone g hg).trans (hone k hk).symm) hne
  · intro g _ k _
    show (4 : Nat) ≠ 3
    decide
  · intro g hg
    obtain rfl := hone g hg
    rcases h with rfl | rfl <;> decide
  · rcases h with rfl | rfl <;> decide
  · intro g hg
    obtain rfl := hone g hg
    rcases h with rfl | rfl <;> decide

theorem root_only_first_free (h : First_free (one_group 0 (by decide)) (root_only 6) g i) :
    g = 0 ∧ i = 6 := by
  obtain rfl : g = 0 := Nat.lt_one_iff.mp h.group_lt
  have hle : i ≤ 6 := h.first 6 (by decide) (by decide)
  have hge : ¬ i < 6 := by
    have hclear := h.clear
    simpa [inode_bit, root_only] using hclear
  exact ⟨rfl, by omega⟩

theorem create_counts : (Directory_request.create_dir [47, 97] 0).Counts (one_group 0 (by decide))
    ⟨root_only 6, none⟩ := by
  have hroot : inode_of_file (one_group 0 (by decide)) [47] ⟨root_only 6, none⟩ =
      .ok (some 2, ⟨root_only 6, none⟩) := rfl
  have hparent : parent_path [47, 97] = .ok [47] := by rfl
  have hnames : Names_inodes (one_group 0 (by decide)) [47, 97] ⟨root_only 6, none⟩ := by
    intro h
    have hends : error_of (inode_of_file (one_group 0 (by decide)) [47, 97] ⟨root_only 6, none⟩) =
      none := by decide +kernel
    rw [h] at hends
    cases hends
  refine ⟨hnames, ?_, ?_⟩
  · intro w₀ parent_dir _ hpath h
    obtain rfl := Except.ok.inj (hparent.symm.trans hpath)
    cases h
  · rintro g i w' hfirst ⟨⟨file, errno⟩, parent, w₁, l, fs, file_name, hfound,
      ⟨parent_dir, hpath, hlookup⟩, hget, hname, hattach⟩
    obtain rfl := Except.ok.inj (hparent.symm.trans hpath)
    obtain rfl : file = root_only 6 := ((ends_inode_of_file hnames).of_ok hfound).1
    cases Except.ok.inj (hroot.symm.trans hlookup)
    obtain ⟨g', i', hfirst', -, rfl⟩ :=
      Get_Free_Inodes_one (root_only_consistent (Or.inl rfl)).1 hget
    obtain ⟨rfl, rfl⟩ := root_only_first_free hfirst
    obtain ⟨rfl, rfl⟩ := root_only_first_free hfirst'
    have hlast : active_file_get_file_name [47, 97] = .ok [97] := by rfl
    obtain rfl := Except.ok.inj (hlast.symm.trans hname)
    refine ⟨by decide, ?_⟩
    have htotal : (attach_entry (one_group 0 (by decide)) 2
        (create_entry [97] (inode_number (one_group 0 (by decide)) 0 6))
        ((take_inode (root_only 6) 0 6).TOTAL_UNALLOCATED_BLOCKS + 1)
        ⟨take_inode (root_only 6) 0 6, none⟩).toOption.all
          (fun r => 0 < r.2.file.TOTAL_UNALLOCATED_BLOCKS) = true := by decide +kernel
    rw [hattach] at htotal
    exact of_decide_eq_true htotal

theorem directories_counted_create : ∃ t,
    Trace (Guarded (fun w r => r.Counts (one_group 0 (by decide)) w)
      (directory_step (one_group 0 (by decide)))) ⟨root_only 6, none⟩ [.create_dir [47, 97] 0] t ∧
    Directories_counted (one_group 0 (by decide)) t.file := by
  have hok : error_of ((Directory_request.create_dir [47, 97] 0).run (one_group 0 (by decide))
      ⟨root_only 6, none⟩) = none := by decide +kernel
  obtain ⟨⟨err, t⟩, hrun⟩ := error_of_eq_none.mp hok
  obtain ⟨hcons, hcount⟩ := root_only_consistent (Or.inl rfl)
  have htrace : Trace (Guarded (fun w r => r.Counts (one_group 0 (by decide)) w)
      (directory_step (one_group 0 (by decide)))) ⟨root_only 6, none⟩ [.create_dir [47, 97] 0] t :=
    Trace.single ⟨create_counts, err, hrun⟩
  exact ⟨t, htrace, (directories_counted_run htrace hcons hcount).1⟩

/-- The last inode of the only group is counted in a group that there is not. -/
theorem last_inode_counted : Inodes_consistent (one_group 0 (by decide)) (root_only 7) ∧
    Directories_counted (one_group 0 (by decide)) (root_only 7) ∧
    (Directory_request.create_dir [47, 97] 0).run (one_group 0 (by decide)) ⟨root_only 7, none⟩ =
      .error .inode_group := by
  obtain ⟨hcons, hcount⟩ := root_only_consistent (Or.inr rfl)
  refine ⟨hcons, hcount, error_of_eq_some.mp ?_⟩
  decide +kernel

end LaLiga.Rfs
