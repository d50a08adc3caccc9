import LaLiga.Rfs.DeleteEntry
import LaLiga.Rfs.DirectoryRuns
import LaLiga.Rfs.Resolution

/-! Directories removed with `delete_dir`. -/
namespace LaLiga.Rfs

open LaLiga.Lib

/-- The directory `i` is listed in the directory `p`. It begins with `.` and `..`. -/
structure Subdirectory (c : Superblock_constants) (live : Nat → Prop) (fs : Image) (p i : Nat)
    (name : Path) (ds es : List (Nat × List entry_t)) : Prop where
  parent : Directory c live p ds fs
  child : Directory c live i es fs
  apart : i ≠ p
  entry : ∃ e ∈ listing ds, e.file_name = name ∧ e.inode_number = i
  dots : ∃ b dot dotdot rest post, es = (b, dot :: dotdot :: rest) :: post ∧
    dot.file_name = [46] ∧ dotdot.file_name = [46, 46]
  allocated : ∃ g < c.TOTAL_GROUPS, ∃ k < c.INODES_PER_GROUP,
    i = inode_number c g k ∧ directory_bit c fs g k = true

/-- No entry in use but `.` and `..`. -/
def Empty_directory (es : List (Nat × List entry_t)) : Prop :=
  ∀ e ∈ listing es, e.file_name = [46] ∨ e.file_name = [46, 46]

/-- A refusal leaves the listings of both directories, the inode, the bits and the counts. -/
structure Refused (c : Superblock_constants) (p i : Nat) (fs fs' : Image) : Prop where
  parent : read_directory c fs' (fs'.inode p) = read_directory c fs (fs.inode p)
  directory : read_directory c fs' (fs'.inode i) = read_directory c fs (fs.inode i)
  inode : fs'.inode i = fs.inode i
  used : ∀ b, IsBlock c b → used c fs' b = used c fs b
  bits : ∀ g < c.TOTAL_GROUPS, inode_bit fs' g = inode_bit fs g
  gdt : fs'.gdt = fs.gdt
  blocks : fs'.TOTAL_UNALLOCATED_BLOCKS = fs.TOTAL_UNALLOCATED_BLOCKS
  inodes : fs'.TOTAL_UNALLOCATED_INODES = fs.TOTAL_UNALLOCATED_INODES

/-- A removal takes the entry, the blocks `es` and the inode, and the counts follow. -/
structure Directory_removed (c : Superblock_constants) (p i : Nat) (name : Path)
    (ds es : List (Nat × List entry_t)) (fs fs' : Image) : Prop where
  listing : ∃ l l', read_directory c fs (fs.inode p) = .ok l ∧
    read_directory c fs' (fs'.inode p) = .ok l' ∧
    contents l' = contents (l.filter fun e => e.file_name ≠ name)
  used_iff : ∀ b, IsBlock c b →
    (used c fs' b = true ↔ used c fs b = true ∧ b ∉ es.map Prod.fst)
  bits : ∀ g < c.TOTAL_GROUPS, ∀ k < c.INODES_PER_GROUP,
    (inode_bit fs' g k = true ↔ inode_bit fs g k = true ∧ inode_number c g k ≠ i)
  inode : fs'.inode i = empty_inode
  others : ∀ j ≠ i, fs'.inode j = fs.inode j
  content : ∀ b ∉ ds.map Prod.fst, fs'.block b = fs.block b
  pool : Pool c fs'
  accounted : Accounted c fs'

/-- A directory that is not empty is refused with `ENOTEMPTY`, an empty one removed. -/
def All_or_nothing (c : Superblock_constants) (path : Path) (p i : Nat) (name : Path)
    (ds es : List (Nat × List entry_t)) (w : Worker_state) : Prop :=
  (¬ Empty_directory es → ∃ w', delete_dir c path w = .ok (1, w') ∧
    w'.errno = some .ENOTEMPTY ∧ Refused c p i w.file w'.file) ∧
  (Empty_directory es → ∃ w', delete_dir c path w = .ok (0, w') ∧
    Directory_removed c p i name ds es w.file w'.file)

/-- A directory of several blocks that is not empty, or one of `.` and, right behind it, `..` over
the rest of its only block, in a directory that the name can be deleted from. -/
def Well_handled (c : Superblock_constants) (name : Path) (fs : Image)
    (ds es : List (Nat × List entry_t)) : Prop :=
  (2 ≤ es.length ∧ ¬ Empty_directory es) ∨
    ∃ b dot dotdot, es = [(b, [dot, dotdot])] ∧ dot.entry_len = get_padded_size dot ∧
      Deletable c name (flat c fs) ds

variable {c : Superblock_constants} {live : Nat → Prop} {fs fs' : Image} {p i g k b : Nat}
  {names : List Path} {name path parent_dir : Path} {ds es : List (Nat × List entry_t)}
  {post : List (Nat × List entry_t)} {dot dotdot : entry_t} {rest : List entry_t}
  {w : Worker_state}

section Lookup

variable (hsize : Ext2_size c) (hpool : Pool c w.file)
  (hnames : ∀ d ∈ names ++ [name], Component d)
  (hdirs : Directories_along c w.file ROOT_INODE_NUMBER (names ++ [name]))
  (hwalk : Leads c w.file ROOT_INODE_NUMBER names p)
include hsize hpool hnames hdirs hwalk

theorem parent_found : parent_path (canonical (names ++ [name])) = .ok (directory_path names) ∧
    inode_of_file c (directory_path names) w = .ok (some p, w) := by
  refine ⟨parent_path_canonical hnames, ?_⟩
  have hspells := directory_path_spells fun d hd => hnames d (List.mem_append_left _ hd)
  refine ((inode_of_file_spelled hsize hpool hspells ?_).1 p).mpr hwalk
  intro front rest hsplit hrest j hj
  refine hdirs front (rest ++ [name]) ?_ (by simp) j hj
  rw [← List.append_assoc, hsplit]

/-- The last component is looked up in the parent. -/
theorem child_found (hparent : Directory c live p ds w.file)
    (hentry : ∃ e ∈ listing ds, e.file_name = name ∧ e.inode_number = i) :
    inode_of_file c (canonical (names ++ [name])) w = .ok (some i, w) := by
  obtain ⟨e, he, rfl, rfl⟩ := hentry
  refine ((inode_of_file_walk hsize hpool hnames hdirs).1 _).mpr ?_
  obtain ⟨es, hes⟩ := hdirs names [e.file_name] rfl (by simp) p hwalk
  have hread := hes.read hsize hpool
  rw [hparent.linked.read hsize hpool] at hread
  obtain rfl := Except.ok.inj hread
  exact hwalk.snoc hes he

end Lookup

section Steps

variable (hfound : inode_of_file c path w = .ok (some i, w))
include hfound

theorem delete_dir_several (hblocks : (w.file.inode i).blocks > c.BLOCK_SIZE / 512) :
    delete_dir c path w = .ok (1, { w with errno := some .ENOTEMPTY }) := by
  unfold delete_dir
  rw [hfound]
  change (if (w.file.inode i).blocks > c.BLOCK_SIZE / 512 then _ else _) = _
  rw [if_pos hblocks]
  rfl

/-- The entry leaves the parent before anything else is looked at. -/
theorem delete_dir_single {l : List Nat} (hblocks : ¬ (w.file.inode i).blocks > c.BLOCK_SIZE / 512)
    (hpath : parent_path path = .ok parent_dir)
    (hparent : inode_of_file c parent_dir w = .ok (some p, w))
    (haddress : Inode_Get_Data_Adressess c w.file (w.file.inode i)
      (uint32 (w.file.inode i).size) = some l)
    (hname : active_file_get_file_name path = .ok name)
    (hdelete : delete_entry c w.file p name = .ok fs) :
    delete_dir c path w = delete_inode c i (l.headD 0) { w with file := fs } := by
  unfold delete_dir
  rw [hfound]
  change (if (w.file.inode i).blocks > c.BLOCK_SIZE / 512 then _ else _) = _
  rw [if_neg hblocks, hpath]
  change (inode_of_file c parent_dir w >>= _) = _
  rw [hparent, ok_bind]
  simp only [haddress]
  change (active_file_get_file_name path >>= _) = _
  rw [hname]
  change (delete_entry c w.file p name >>= _) = _
  rw [hdelete]
  rfl

end Steps

/-- The test of the length finds `.` and `..` alone in the block, without room between them. -/
theorem only_base_entries_iff (hsize : Ext2_size c)
    (hchain : Chain (flat c fs) (block_start c b + c.BLOCK_SIZE) (block_start c b)
      (dot :: dotdot :: rest)) (hsound : ∀ e ∈ dot :: dotdot :: rest, e.Sound) :
    only_base_entries c fs b = true ↔ rest = [] ∧ dot.entry_len = get_padded_size dot := by
  have hsmall := hsize.small
  have hends := hchain.ends
  have hroom := (hsound dot (by simp)).room
  simp only [total_cons] at hends
  have htest : only_base_entries c fs b = true ↔
      dotdot.entry_len = uint32 (c.BLOCK_SIZE - get_padded_size dot) := by
    unfold only_base_entries
    rw [decide_eq_true_iff, hchain.1, hchain.2.1]
  rw [htest]
  constructor
  · intro hlen
    unfold uint32 at hlen
    have hrest : total rest = 0 := by omega
    refine ⟨?_, by omega⟩
    cases rest with
    | nil => rfl
    | cons e rest =>
      have height := (hsound e (by simp)).eight
      rw [total_cons] at hrest
      omega
  · rintro ⟨rfl, hlen⟩
    rw [total_nil] at hends
    unfold uint32
    omega

/-- Inodes with blocks of their own have no block together. -/
theorem Extent.disjoint {bs bs' : List Nat} (h : Extent c live i bs fs)
    (h' : Extent c live p bs' fs) (hne : i ≠ p) (hsize : Ext2_size c) (hpool : Pool c fs)
    (hb : b ∈ bs) : b ∉ bs' := by
  intro hb'
  obtain ⟨s, q, hleaf, rfl⟩ := h.node hsize hpool hb
  obtain ⟨s', q', hleaf', heq⟩ := h'.node hsize hpool hb'
  have hnode := h.owned.inj ⟨i, s, q⟩ ⟨p, s', q'⟩ ⟨h.held, hleaf.valid⟩ ⟨h'.held, hleaf'.valid⟩
    (h.block_ne hsize hpool hb) heq.symm
  exact hne (congrArg Node.inode hnode)

/-- The first block of an inode goes when it is a direct one. -/
theorem first_block_removed (hsize : Ext2_size c) (hpool : Pool c fs) (hown : Owned c live fs)
    (hi : live i) (hfirst : ptr c fs i 0 [] = b) (hb : b ≠ 0) :
    ∃ fs', Remove_Block c fs i 0 = .ok fs' ∧
      (∀ d, IsBlock c d → (used c fs' d = true ↔ used c fs d = true ∧ d ≠ b)) ∧
      fs'.block = fs.block ∧ (∀ j ≠ i, fs'.inode j = fs.inode j) ∧ Pool c fs' ∧
      Same_inodes c fs fs' := by
  subst hfirst
  have hleaf : Leaf c 0 [] := ⟨by decide, rfl, by simp⟩
  obtain ⟨D, fs', hremove, hremoved⟩ := remove_leaf_removed hsize.words hown hpool hi hleaf hb
  have hrun := Remove_Block_eq hsize.pointers hsize.levels.le hown hpool hi hleaf hb
  rw [leaf_index_direct (by decide), hremove] at hrun
  have hshrunk := hremoved.shrunk
  have hD : ∀ x ∈ D, x = ⟨i, 0, []⟩ := by
    rintro ⟨j, s, q⟩ hx
    obtain ⟨hs, hq⟩ := hremoved.above _ hx
    obtain rfl : j = i := hshrunk.inode _ hx
    obtain rfl : s = 0 := hs
    obtain rfl : q = [] := List.suffix_nil.mp hq
    rfl
  refine ⟨fs', hrun, ?_, ?_, hshrunk.rest.others, hshrunk.pool, hshrunk.same⟩
  · intro d hd
    rw [hshrunk.used_iff d hd]
    refine and_congr_right fun _ => ⟨fun hnone heq => ?_, fun hne x hx heq => ?_⟩
    · exact hnone _ hremoved.leaf heq.symm
    · rw [hD x hx] at heq
      exact hne heq.symm
  · funext d
    apply hshrunk.content
    intro x hx l q hq
    rw [hD x hx] at hq
    cases hq

/-- The inode of an empty directory goes with its only block. -/
structure Inode_removed (c : Superblock_constants) (i b : Nat) (fs fs' : Image) : Prop where
  used_iff : ∀ d, IsBlock c d → (used c fs' d = true ↔ used c fs d = true ∧ d ≠ b)
  bits : ∀ h < c.TOTAL_GROUPS, ∀ j < c.INODES_PER_GROUP,
    (inode_bit fs' h j = true ↔ inode_bit fs h j = true ∧ inode_number c h j ≠ i)
  inode : fs'.inode i = empty_inode
  others : ∀ j ≠ i, fs'.inode j = fs.inode j
  block : fs'.block = fs.block
  pool : Pool c fs'
  accounted : Accounted c fs'

theorem delete_inode_removed (hsize : Ext2_size c) (hpool : Pool c w.file)
    (hacc : Accounted c w.file) (hown : Owned c live w.file) (hi : live i)
    (hdir : ∃ g < c.TOTAL_GROUPS, ∃ k < c.INODES_PER_GROUP,
      i = inode_number c g k ∧ directory_bit c w.file g k = true)
    (hfirst : ptr c w.file i 0 [] = b) (hb : b ≠ 0)
    (hbase : only_base_entries c w.file b = true) :
    ∃ fs', delete_inode c i b w = .ok (0, { w with file := fs' }) ∧
      Inode_removed c i b w.file fs' := by
  have hends : Ends Of_blocks (fun r => Accounted c r.2.file) (delete_inode c i b w) :=
    delete_inode_accounted hacc fun _ => hdir
  obtain ⟨g, hg, k, hk, rfl, -⟩ := hdir
  obtain ⟨fs₁, hremove, hused, hblock, hothers, hpool₁, hsame⟩ :=
    first_block_removed hsize hpool hown hi hfirst hb
  have hnumbers := hacc.inodes.numbers_fit
  obtain ⟨n, hn⟩ : ∃ n, n = ((fs₁.gdt g).NUMBER_DIRECTORIES_GROUP + (2 ^ 16 - 1)) % 2 ^ 16 :=
    ⟨_, rfl⟩
  obtain ⟨fs₂, hfs₂⟩ : ∃ fs₂, fs₂ = recount fs₁ g n (inode_number c g k) empty_inode := ⟨_, rfl⟩
  have hcount : count_directory c (Clear_Inode fs₁ (inode_number c g k))
      (Inode_locateGroup c (inode_number c g k)) (· + (2 ^ 16 - 1)) = .ok fs₂ := by
    rw [locate_inode_number hnumbers hg hk, hfs₂, hn]
    unfold count_directory
    rw [if_pos hg]
    rfl
  have hcons₂ : Inodes_consistent c fs₂ :=
    hfs₂ ▸ recount_consistent (hsame.consistent hacc.inodes)
  have hfree : free_inode c fs₂ (inode_number c g k) =
      .ok (setFreeInodeBitmap c fs₂ (inode_number c g k)) := by
    unfold free_inode
    rw [locate_inode_number hnumbers hg hk, if_pos hg]
    rfl
  have hresult : delete_inode c (inode_number c g k) b w =
      .ok (0, { w with file := setFreeInodeBitmap c fs₂ (inode_number c g k) }) := by
    unfold delete_inode
    rw [if_pos hbase]
    exact bind_eq_ok.mpr ⟨fs₁, hremove, bind_eq_ok.mpr ⟨fs₂, hcount,
      bind_eq_ok.mpr ⟨_, hfree, rfl⟩⟩⟩
  have hacc' := hends.of_ok hresult
  refine ⟨_, hresult, ?_⟩
  obtain ⟨fs₃, hfs₃⟩ : ∃ fs₃, fs₃ = setFreeInodeBitmap c fs₂ (inode_number c g k) := ⟨_, rfl⟩
  rw [← hfs₃] at hacc' ⊢
  rw [setFreeInodeBitmap_eq hcons₂ hg hk] at hfs₃
  have hblocks₂ : Same_blocks c fs₁ fs₂ := hfs₂ ▸ same_blocks_recount
  have hblocks₃ : Same_blocks c fs₂ fs₃ := hfs₃ ▸ same_blocks_set_inode_bit hcons₂ hg
  have hblocks := hblocks₂.trans hblocks₃
  refine ⟨?_, ?_, ?_, ?_, ?_, hblocks.pool hpool₁, hacc'⟩
  · intro d hd
    rw [hblocks.used hd]
    exact hused d hd
  · intro h hh j hj
    rw [hfs₃, inode_bit_set hcons₂ hg hh]
    have hkept : inode_bit fs₂ h = inode_bit w.file h := by
      rw [hfs₂, inode_bit_recount]
      exact hsame.inode_bit hacc.inodes hh
    by_cases hhg : h = g
    · subst hhg
      rw [if_pos rfl, hkept]
      by_cases hjk : j = k
      · subst hjk
        simp
      · rw [Function.update_of_ne hjk]
        refine (and_iff_left fun heq => ?_).symm
        exact hjk (inode_number_inj hj hk heq).2
    · rw [if_neg hhg, hkept]
      refine (and_iff_left fun heq => ?_).symm
      exact hhg (inode_number_inj hj hk heq).1
  · rw [hfs₃, set_inode_bit_inode, hfs₂, recount_inode, set_inode_self]
  · intro j hj
    rw [hfs₃, set_inode_bit_inode, hfs₂, recount_inode, set_inode_of_ne hj, hothers j hj]
  · rw [hfs₃, set_inode_bit_block, hfs₂, recount_block, hblock]

namespace Subdirectory

variable (h : Subdirectory c live w.file p i name ds es) (hsize : Ext2_size c)
  (hpool : Pool c w.file)
include h hsize hpool

/-- The first block of the directory, which begins with its entries. -/
theorem first (hes : es = (b, dot :: dotdot :: rest) :: post) :
    ptr c w.file i 0 [] = b ∧ b ≠ 0 := by
  have hattached := h.child.attached
  subst hes
  have hmem : b ∈ (((b, dot :: dotdot :: rest) :: post).map Prod.fst) := by simp
  refine ⟨?_, h.child.linked.extent.block_ne hsize hpool hmem⟩
  rw [List.length_cons, List.range_succ_eq_map, List.map_cons, List.map_cons] at hattached
  exact (List.cons.inj hattached).1.symm

/-- The entry goes from the parent without the block of the directory. -/
theorem base_entries {m : Bytes} (hes : es = [(b, dot :: dotdot :: rest)])
    (hblock : ∀ d ∉ ds.map Prod.fst, (set_flat c w.file m).block d = w.file.block d) :
    only_base_entries c (set_flat c w.file m) b = true ↔
      rest = [] ∧ dot.entry_len = get_padded_size dot := by
  subst hes
  have hmem : (b, dot :: dotdot :: rest) ∈ [(b, dot :: dotdot :: rest)] := List.mem_singleton_self _
  have hchain := h.child.chain _ hmem
  have hsound := h.child.sound _ hmem
  have hstart := h.child.linked.start hsize hpool hmem
  have hother : b ∉ ds.map Prod.fst := h.child.linked.extent.disjoint h.parent.linked.extent h.apart
    hsize hpool (List.mem_map_of_mem hmem)
  have hagree := flat_agree (c := c) (hblock b hother)
  refine only_base_entries_iff hsize (hchain.congr hsound ?_) hsound
  intro q hlo hhi
  rw [hstart] at hlo hhi
  exact (hagree q hlo hhi).symm

/-- What the parent lists is not what it has listed. -/
theorem listing_changed {m : Bytes} {ds' : List (Nat × List entry_t)}
    (herased : Directory c live p ds' (set_flat c w.file m))
    (hcontents : contents (listing ds') =
      contents ((listing ds).filter fun e => e.file_name ≠ name)) :
    read_directory c (set_flat c w.file m) ((set_flat c w.file m).inode p) ≠
      read_directory c w.file (w.file.inode p) := by
  intro hread
  rw [h.parent.linked.read hsize hpool,
    herased.linked.read hsize (hpool.congr rfl rfl rfl)] at hread
  have hlen := congrArg List.length hcontents
  rw [contents_length, contents_length, Except.ok.inj hread] at hlen
  obtain ⟨e, he, hname, -⟩ := h.entry
  have hlt : ((listing ds).filter fun e => e.file_name ≠ name).length < (listing ds).length :=
    List.length_filter_lt_length_iff_exists.mpr ⟨e, he, by simp [hname]⟩
  omega

/-- The inode goes after the entry. -/
theorem removed {m : Bytes} {ds' : List (Nat × List entry_t)}
    (herased : Directory c live p ds' (set_flat c w.file m))
    (hcontents : contents (listing ds') =
      contents ((listing ds).filter fun e => e.file_name ≠ name))
    (hblock : ∀ d ∉ ds.map Prod.fst, (set_flat c w.file m).block d = w.file.block d)
    (hinode : Inode_removed c i b (set_flat c w.file m) fs') :
    Directory_removed c p i name ds [(b, dot :: dotdot :: rest)] w.file fs' where
  listing := by
    refine ⟨_, listing ds', h.parent.linked.read hsize hpool, ?_, hcontents⟩
    rw [read_directory_congr hinode.block, hinode.others p h.apart.symm]
    exact herased.linked.read hsize (hpool.congr rfl rfl rfl)
  used_iff := by
    intro d hd
    rw [hinode.used_iff d hd, List.map_singleton, List.mem_singleton]
    rfl
  bits := hinode.bits
  inode := hinode.inode
  others := hinode.others
  content := by
    intro d hd
    rw [hinode.block]
    exact hblock d hd
  pool := hinode.pool
  accounted := hinode.accounted

end Subdirectory

/-- `.` and `..` alone are no entries that count. -/
theorem empty_of_dots (hdots : ∃ b dot dotdot rest post, es = (b, dot :: dotdot :: rest) :: post ∧
      dot.file_name = [46] ∧ dotdot.file_name = [46, 46])
    (hes : es = [(b, dot :: dotdot :: rest)]) (hrest : rest = []) : Empty_directory es := by
  obtain ⟨b', dot', dotdot', rest', post', heq, hdot, hdotdot⟩ := hdots
  subst hrest
  rw [hes] at heq
  cases heq
  subst hes
  intro e he
  have hin : e ∈ [dot, dotdot] := by simpa [listing] using (List.mem_filter.mp he).1
  rcases List.mem_cons.mp hin with rfl | hin
  · exact Or.inl hdot
  · obtain rfl := List.mem_singleton.mp hin
    exact Or.inr hdotdot

section Main

variable (hsize : Ext2_size c) (hpool : Pool c w.file) (hacc : Accounted c w.file)
  (hnames : ∀ d ∈ names ++ [name], Component d)
  (hdirs : Directories_along c w.file ROOT_INODE_NUMBER (names ++ [name]))
  (hwalk : Leads c w.file ROOT_INODE_NUMBER names p)
  (h : Subdirectory c live w.file p i name ds es)
include hsize hpool hnames hdirs hwalk h

/-- Directories of several blocks are refused before anything is changed. -/
theorem all_or_nothing_several (hlen : 2 ≤ es.length) :
    All_or_nothing c (canonical (names ++ [name])) p i name ds es w ↔ ¬ Empty_directory es := by
  have hfound := child_found hsize hpool hnames hdirs hwalk h.parent h.entry
  have hhalf : 0 < c.BLOCK_SIZE / 512 := by rcases hsize with h | h | h <;> rw [h] <;> decide
  have hblocks : (w.file.inode i).blocks > c.BLOCK_SIZE / 512 := by
    rw [h.child.blocks]
    calc c.BLOCK_SIZE / 512 < 2 * (c.BLOCK_SIZE / 512) := by omega
      _ ≤ es.length * (c.BLOCK_SIZE / 512) := Nat.mul_le_mul_right _ hlen
  have hrun := delete_dir_several hfound hblocks
  constructor
  · intro hall hempty
    obtain ⟨w', hdone, -⟩ := hall.2 hempty
    rw [hrun] at hdone
    exact one_ne_zero (congrArg Prod.fst (Except.ok.inj hdone))
  · intro hne
    refine ⟨fun _ => ⟨_, hrun, rfl, ?_⟩, fun hempty => absurd hempty hne⟩
    exact ⟨rfl, rfl, rfl, fun _ _ => rfl, fun _ _ => rfl, rfl, rfl, rfl⟩

include hacc in
/-- Of a directory of one block the entry is gone before the block is looked at. -/
theorem all_or_nothing_single (hes : es = [(b, dot :: dotdot :: rest)])
    (hdel : Deletable c name (flat c w.file) ds) :
    All_or_nothing c (canonical (names ++ [name])) p i name ds es w ↔
      rest = [] ∧ dot.entry_len = get_padded_size dot := by
  have hfound := child_found hsize hpool hnames hdirs hwalk h.parent h.entry
  obtain ⟨hpath, hparent⟩ := parent_found hsize hpool hnames hdirs hwalk
  have hblocks : ¬ (w.file.inode i).blocks > c.BLOCK_SIZE / 512 := by
    rw [h.child.blocks, hes, List.length_singleton, Nat.one_mul]
    exact lt_irrefl _
  obtain ⟨l, haddress, hlist⟩ := h.child.linked.extent.addresses hsize hpool (Or.inl rfl)
  obtain ⟨hfirst, hb⟩ := h.first hsize hpool hes
  have hhead : l.headD 0 = b := by
    rw [hes, List.map_singleton, block_list] at hlist
    cases l with
    | nil => exact absurd hlist (by simp)
    | cons a l =>
      rw [List.takeWhile_cons] at hlist
      split_ifs at hlist
      exact (List.cons.inj hlist).1
  obtain ⟨m, ds', hdelete, herased, hcontents, hblock⟩ := h.parent.erased_of hsize hpool hdel
  have hrun := delete_dir_single hfound hblocks hpath hparent haddress
    (file_name_canonical hnames) hdelete
  rw [hhead] at hrun
  have hbase := h.base_entries hsize hpool hes hblock
  constructor
  · intro hall
    by_contra hnot
    have hrefused : delete_dir c (canonical (names ++ [name])) w =
        .ok (1, { w with file := set_flat c w.file m, errno := some .ENOTEMPTY }) := by
      rw [hrun]
      unfold delete_inode
      rw [if_neg fun htest => hnot (hbase.mp htest)]
      rfl
    by_cases hempty : Empty_directory es
    · obtain ⟨w', hdone, -⟩ := hall.2 hempty
      rw [hrefused] at hdone
      exact one_ne_zero (congrArg Prod.fst (Except.ok.inj hdone))
    · obtain ⟨w', hdone, -, hsame⟩ := hall.1 hempty
      rw [hrefused] at hdone
      cases hdone
      exact h.listing_changed hsize hpool herased hcontents hsame.parent
  · intro hshape
    have hpool' : Pool c (set_flat c w.file m) := hpool.congr rfl rfl rfl
    have hsame : Same_inodes c w.file (set_flat c w.file m) := same_block _
    obtain ⟨g, hg, k, hk, hi, hbit⟩ := h.allocated
    obtain ⟨fs', hremoved, hinode⟩ := delete_inode_removed
      (w := { w with file := set_flat c w.file m }) hsize hpool' (hsame.accounted hacc)
      herased.owned h.child.held
      ⟨g, hg, k, hk, hi, (hsame.directory_bit hacc.inodes hg).trans hbit⟩ hfirst hb
      (hbase.mpr hshape)
    rw [← hrun] at hremoved
    refine ⟨fun hne => absurd ?_ hne, fun _ => ⟨_, hremoved, ?_⟩⟩
    · exact empty_of_dots h.dots hes hshape.1
    · rw [hes]
      exact h.removed hsize hpool herased hcontents hblock hinode

include hacc in
/-- `delete_dir` is all or nothing where the emptiness is decided by the number of blocks, and
where the block is found empty after the entry has gone. -/
theorem delete_dir_all_or_nothing_iff :
    (Well_handled c name w.file ds es →
      All_or_nothing c (canonical (names ++ [name])) p i name ds es w) ∧
    ((es.length = 1 → Deletable c name (flat c w.file) ds) →
      All_or_nothing c (canonical (names ++ [name])) p i name ds es w →
        Well_handled c name w.file ds es) := by
  constructor
  · rintro (⟨hlen, hne⟩ | ⟨b, dot, dotdot, hes, hlen, hdel⟩)
    · exact (all_or_nothing_several hsize hpool hnames hdirs hwalk h hlen).mpr hne
    · exact (all_or_nothing_single hsize hpool hacc hnames hdirs hwalk h hes hdel).mpr ⟨rfl, hlen⟩
  · intro hdel hall
    obtain ⟨b, dot, dotdot, rest, post, hes, -⟩ := h.dots
    cases post with
    | nil =>
      have hdel := hdel (by rw [hes, List.length_singleton])
      obtain ⟨rfl, hlen⟩ :=
        (all_or_nothing_single hsize hpool hacc hnames hdirs hwalk h hes hdel).mp hall
      exact Or.inr ⟨b, dot, dotdot, hes, hlen, hdel⟩
    | cons d post =>
      have hlen : 2 ≤ es.length := by
        rw [hes, List.length_cons, List.length_cons]
        omega
      exact Or.inl ⟨hlen,
        (all_or_nothing_several hsize hpool hnames hdirs hwalk h hlen).mp hall⟩

end Main

/-- What the directory 5 has in its block: `b` is there or not. -/
def below_a (b : Bool) : List entry_t :=
  if b then small_directory 5 ⟨6, 1000, 1, 1, [98]⟩
  else [⟨5, 12, 1, 2, [46]⟩, ⟨2, 1012, 2, 2, [46, 46]⟩]

/-- The root in the block 3 lists `a`, the directory 5 in the block 4. The inode 6 is used for
`b`. -/
def root_and_a (b : Bool) : Image where
  TOTAL_UNALLOCATED_BLOCKS := 4
  TOTAL_UNALLOCATED_INODES := if b then 5 else 6
  gdt := fun _ => ⟨2, 1, 4, if b then 5 else 6, 2⟩
  bitmap := fun a k => (a = 2 ∧ k < 4) ∨ (a = 1 ∧ (k = 1 ∨ k = 4 ∨ (k = 5 ∧ b)))
  inode := fun n => if n = 2 then one_block_inode (one_group 0 smallest_block_pos) 3
    else if n = 5 then one_block_inode (one_group 0 smallest_block_pos) 4
    else empty_inode
  block := fun n => if n = 3 then small_block 2 ⟨5, 1000, 1, 2, [97]⟩
    else if n = 4 then
      if b then small_block 5 ⟨6, 1000, 1, 1, [98]⟩
      else copy_entry (copy_entry (fun _ => 0) 0 ⟨5, 12, 1, 2, [46]⟩) 12 ⟨2, 1012, 2, 2, [46, 46]⟩
    else fun _ => 0

section Small

variable {x : Bool}

theorem root_and_a_pool : Pool (one_group 0 (by decide)) (root_and_a x) := by
  refine ⟨?_, ?_, ?_, ?_⟩
  · intro g hg
    obtain rfl : g = 0 := Nat.lt_one_iff.mp hg
    cases x <;> rfl
  · intro g hg
    obtain rfl : g = 0 := Nat.lt_one_iff.mp hg
    cases x <;> decide
  · cases x <;> decide
  · intro b hb
    have hle : b ≤ 8 := hb.2
    show b * 1024 < 2 ^ 32
    omega

theorem root_and_a_accounted : Accounted (one_group 0 (by decide)) (root_and_a x) := by
  have hone : ∀ g < (one_group 0 (by decide)).TOTAL_GROUPS, g = 0 :=
    fun g hg => Nat.lt_one_iff.mp hg
  refine ⟨⟨by decide, by decide, ?_, ?_, ?_, ?_⟩, ?_⟩
  · intro g hg k hk hne
    exact absurd ((hone g hg).trans (hone k hk).symm) hne
  · intro g _ k _
    show (1 : Nat) ≠ 2
    decide
  · intro g hg
    obtain rfl := hone g hg
    cases x <;> decide
  · cases x <;> decide
  · intro g hg
    obtain rfl := hone g hg
    cases x <;> decide

theorem root_and_a_sub : Subdirectory (one_group 0 (by decide)) (fun j => j = 2 ∨ j = 5)
    (root_and_a x) 2 5 [97] [(3, small_directory 2 ⟨5, 1000, 1, 2, [97]⟩)] [(4, below_a x)] := by
  have hroot : (root_and_a x).inode 2 = one_block_inode (one_group 0 (by decide)) 3 := rfl
  have ha : (root_and_a x).inode 5 = one_block_inode (one_group 0 (by decide)) 4 := rfl
  have hused : used (one_group 0 (by decide)) (root_and_a x) 3 = true ∧
      used (one_group 0 (by decide)) (root_and_a x) 4 = true := by cases x <;> decide
  have hown := two_blocks_owned hroot ha (by decide) ⟨by decide, by decide⟩
    ⟨by decide, by decide⟩ hused.1 hused.2
  have hsound : ∀ e ∈ small_directory 2 ⟨5, 1000, 1, 2, [97]⟩,
      e.entry_len % 4 = 0 ∧ get_padded_size e ≤ e.entry_len := by decide
  have hsound' : ∀ e ∈ below_a x, e.entry_len % 4 = 0 ∧ get_padded_size e ≤ e.entry_len := by
    cases x <;> decide
  have hchain : Chain (flat (one_group 0 (by decide)) (root_and_a x)) 4096 3072
    (small_directory 2 ⟨5, 1000, 1, 2, [97]⟩) := ⟨rfl, rfl, rfl, rfl⟩
  have hchain' : Chain (flat (one_group 0 (by decide)) (root_and_a x)) 5120 4096 (below_a x) := by
    cases x
    · exact ⟨rfl, rfl, rfl⟩
    · exact ⟨rfl, rfl, rfl, rfl⟩
  constructor
  · exact one_block_directory_of hroot (Or.inl rfl) hown (Or.inl rfl) ⟨by decide, by decide⟩ hchain
      (fun e he => ⟨(hsound e he).1, (hsound e he).2⟩) (by decide)
  · exact one_block_directory_of ha (Or.inl rfl) hown (Or.inr rfl) ⟨by decide, by decide⟩ hchain'
      (fun e he => ⟨(hsound' e he).1, (hsound' e he).2⟩) (by cases x <;> decide)
  · decide
  · exact ⟨⟨5, 1000, 1, 2, [97]⟩, by decide, rfl, rfl⟩
  · cases x
    · exact ⟨4, _, _, [], [], rfl, rfl, rfl⟩
    · exact ⟨4, _, _, _, [], rfl, rfl, rfl⟩
  · exact ⟨0, by decide, 4, by decide, rfl, by cases x <;> decide⟩

/-- The walk of `/a` begins in the root. -/
theorem root_and_a_along : Directories_along (one_group 0 (by decide)) (root_and_a x)
    ROOT_INODE_NUMBER ([] ++ [[97]]) := by
  intro front rest hsplit hrest j hj
  cases front with
  | nil =>
    obtain rfl := Leads.nil_iff.mp hj
    exact ⟨_, _, _, root_and_a_sub.parent, rfl, by decide⟩
  | cons a front =>
    have hlen := congrArg List.length hsplit
    have hpos := List.length_pos_of_ne_nil hrest
    simp only [List.length_append, List.length_cons, List.length_nil] at hlen
    omega

theorem root_and_a_names : ∀ d ∈ ([] : List Path) ++ [[97]], Component d := by
  intro d hd
  obtain rfl : d = [97] := List.mem_singleton.mp hd
  exact ⟨by decide, by decide⟩

end Small

/-- `/a` is removed when there is nothing in it. -/
theorem empty_directory_removed : All_or_nothing (one_group 0 (by decide)) [47, 97] 2 5 [97]
    [(3, small_directory 2 ⟨5, 1000, 1, 2, [97]⟩)] [(4, below_a false)]
    ⟨root_and_a false, none⟩ := by
  refine (delete_dir_all_or_nothing_iff (Or.inl rfl) root_and_a_pool root_and_a_accounted
    root_and_a_names root_and_a_along .here root_and_a_sub).1 (Or.inr ?_)
  refine ⟨4, _, _, rfl, rfl, [], 3, [⟨2, 12, 1, 2, [46]⟩, ⟨2, 12, 2, 2, [46, 46]⟩],
    ⟨5, 1000, 1, 2, [97]⟩, [], [], rfl, ⟨rfl, rfl⟩, by decide, Or.inl ⟨by simp, by decide, ?_⟩⟩
  intro hnil
  cases hnil

/-- `/a` with `b` in it is refused, but it is no longer listed in the root. -/
theorem full_directory_lost : ∃ (live : Nat → Prop) (ds es : List (Nat × List entry_t))
    (w : Worker_state), Pool (one_group 0 (by decide)) w.file ∧
      Accounted (one_group 0 (by decide)) w.file ∧
      Directories_along (one_group 0 (by decide)) w.file ROOT_INODE_NUMBER ([] ++ [[97]]) ∧
      Subdirectory (one_group 0 (by decide)) live w.file 2 5 [97] ds es ∧
      ¬ All_or_nothing (one_group 0 (by decide)) [47, 97] 2 5 [97] ds es w := by
  refine ⟨_, _, _, ⟨root_and_a true, none⟩, root_and_a_pool, root_and_a_accounted,
    root_and_a_along, root_and_a_sub, fun hall => ?_⟩
  have hdel : Deletable (one_group 0 (by decide)) [97]
      (flat (one_group 0 (by decide)) (root_and_a true))
      [(3, small_directory 2 ⟨5, 1000, 1, 2, [97]⟩)] := by
    refine ⟨[], 3, [⟨2, 12, 1, 2, [46]⟩, ⟨2, 12, 2, 2, [46, 46]⟩],
      ⟨5, 1000, 1, 2, [97]⟩, [], [], rfl, ⟨rfl, rfl⟩, by decide, Or.inl ⟨by simp, by decide, ?_⟩⟩
    intro hnil
    cases hnil
  have hshape := (all_or_nothing_single (Or.inl rfl) root_and_a_pool root_and_a_accounted
    root_and_a_names root_and_a_along .here root_and_a_sub rfl hdel).mp hall
  exact absurd hshape.1 (by decide)

end LaLiga.Rfs
