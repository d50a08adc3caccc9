import LaLiga.Rfs.NameMap
import LaLiga.Rfs.OutOfSpace

/-! Directories of any number of blocks. -/
namespace LaLiga.Rfs

open LaLiga.Lib

/-- The entries in use of blocks that come with their entries. -/
def listing (ds : List (Nat × List entry_t)) : List entry_t :=
  (ds.flatMap Prod.snd).filter fun e => e.inode_number ≠ 0

/-- The entries without their lengths. -/
def contents (es : List entry_t) : List entry_t := es.map fun e => { e with entry_len := 0 }

/-- The inode `i` has the data blocks `bs`, in this order, and counts them. -/
structure Extent (c : Superblock_constants) (live : Nat → Prop) (i : Nat) (bs : List Nat)
    (fs : Image) : Prop where
  owned : Owned c live fs
  held : live i
  filled : Filled c fs i bs.length
  attached : bs = (List.range bs.length).map (block_at c fs i)
  size : (fs.inode i).size = int32 (bs.length * c.BLOCK_SIZE : Nat)
  blocks : (fs.inode i).blocks = bs.length * (c.BLOCK_SIZE / 512)

/-- Each of the blocks `ds` of the inode `i` is a chain of entries of some length from one end to
the other. -/
structure Linked (c : Superblock_constants) (live : Nat → Prop) (i : Nat)
    (ds : List (Nat × List entry_t)) (fs : Image) : Prop where
  extent : Extent c live i (ds.map Prod.fst) fs
  chain : ∀ d ∈ ds, Chain (flat c fs) (block_start c d.1 + c.BLOCK_SIZE) (block_start c d.1) d.2
  positive : ∀ d ∈ ds, ∀ e ∈ d.2, 0 < e.entry_len

/-- The inode `i` is a directory of the blocks `ds`, each one a chain of entries from one end to
the other. No name is there twice. -/
structure Directory (c : Superblock_constants) (live : Nat → Prop) (i : Nat)
    (ds : List (Nat × List entry_t)) (fs : Image) : Prop where
  owned : Owned c live fs
  held : live i
  filled : Filled c fs i ds.length
  attached : ds.map Prod.fst = (List.range ds.length).map (block_at c fs i)
  size : (fs.inode i).size = (ds.length * c.BLOCK_SIZE : Nat)
  blocks : (fs.inode i).blocks = ds.length * (c.BLOCK_SIZE / 512)
  fits : ds.length * c.BLOCK_SIZE < 2 ^ 31
  chain : ∀ d ∈ ds, Chain (flat c fs) (block_start c d.1 + c.BLOCK_SIZE) (block_start c d.1) d.2
  sound : ∀ d ∈ ds, ∀ e ∈ d.2, e.Sound
  names : ((listing ds).map entry_t.file_name).Nodup

variable {c : Superblock_constants} {live : Nat → Prop} {fs fs' : Image} {i m n b : Nat}
  {bytes : Bytes} {ds ds' pre post : List (Nat × List entry_t)} {d : Nat × List entry_t}
  {e : entry_t} {es es' : List entry_t}

/-- A block that is the same in both images. -/
theorem flat_agree {d : Nat} (h : fs'.block d = fs.block d) :
    Bytes.Agree (flat c fs') (flat c fs) (d * c.BLOCK_SIZE) (d * c.BLOCK_SIZE + c.BLOCK_SIZE) := by
  intro q hlo hhi
  have hdiv : q / c.BLOCK_SIZE = d := by
    apply Nat.div_eq_of_lt_le hlo
    rw [Nat.succ_mul]
    exact hhi
  rw [flat, flat, hdiv, h]

section Same_bytes

variable (hblock : fs'.block = fs.block)
include hblock

theorem indirect_congr : indirect c fs' = indirect c fs := by
  funext b k
  rw [indirect, indirect, hblock]

theorem Indirect_Read_congr : Indirect_Read c fs' = Indirect_Read c fs := by
  funext level
  induction level using Nat.twoStepInduction with
  | zero => rfl
  | one =>
    funext b n
    rw [Indirect_Read, Indirect_Read, Inode_Indirect_Read1, Inode_Indirect_Read1,
      indirect_congr hblock]
  | more level _ ih =>
    funext b n
    simp only [Indirect_Read, indirect_congr hblock, ih]

/-- What is read of an inode depends on the bytes only. -/
theorem read_directory_congr (inode : inode_t) :
    read_directory c fs' inode = read_directory c fs inode := by
  have hflat : flat c fs' = flat c fs := by
    funext p
    rw [flat, flat, hblock]
  unfold read_directory Inode_Get_Data_Adressess
  rw [Indirect_Read_congr hblock, hflat]

end Same_bytes

theorem listing_append : listing (pre ++ post) = listing pre ++ listing post := by
  simp [listing]

theorem listing_cons : listing (d :: ds) =
    d.2.filter (fun e => e.inode_number ≠ 0) ++ listing ds := by
  simp [listing]

theorem contents_append : contents (es ++ es') = contents es ++ contents es' := List.map_append

theorem contents_length : (contents es).length = es.length := List.length_map _

/-- A choice that does not look at the lengths. -/
theorem contents_filter (p : entry_t → Bool) (hp : ∀ e, p { e with entry_len := 0 } = p e) :
    contents (es.filter p) = (contents es).filter p := by
  unfold contents
  rw [List.filter_map]
  congr 2
  funext e
  exact (hp e).symm

theorem contents_names : (contents es).map entry_t.file_name = es.map entry_t.file_name := by
  simp [contents, Function.comp_def]

/-- Blocks with the same entries but for the lengths list the same. -/
theorem contents_listing (h : contents es = contents es') :
    contents (listing (pre ++ (b, es) :: post)) = contents (listing (pre ++ (b, es') :: post)) := by
  simp only [listing_append, listing_cons, contents_append]
  congr 2
  rw [contents_filter _ fun e => rfl, contents_filter _ fun e => rfl, h]

theorem int32_of_lt {x : Int} (hpos : 0 ≤ x) (h : x < 2 ^ 31) : int32 x = x := by
  unfold int32 Int.bmod
  simp only
  split_ifs <;> omega

theorem int32_add (x y : Int) : int32 (int32 x + y) = int32 (x + y) := Int.bmod_add_bmod

theorem uint32_int32 {x : Nat} (h : x < 2 ^ 32) : uint32 (int32 x) = x := by
  unfold uint32 int32 Int.bmod
  simp only
  split_ifs <;> omega

theorem Directory.linked (h : Directory c live i ds fs) : Linked c live i ds fs where
  extent :=
    { owned := h.owned
      held := h.held
      filled := by
        rw [List.length_map]
        exact h.filled
      attached := by
        rw [List.length_map]
        exact h.attached
      size := by
        have hfits := h.fits
        rw [h.size, List.length_map, int32_of_lt (by omega) (by omega)]
      blocks := by
        rw [List.length_map]
        exact h.blocks }
  chain := h.chain
  positive := fun d hd e he => (h.sound d hd e he).positive

section Read

variable (hchain : ∀ d ∈ ds,
    Chain bytes (block_start c d.1 + c.BLOCK_SIZE) (block_start c d.1) d.2)
include hchain

theorem total_block (hd : d ∈ ds) : total d.2 = c.BLOCK_SIZE := by
  have := (hchain d hd).ends
  omega

variable (hpositive : ∀ d ∈ ds, ∀ e ∈ d.2, 0 < e.entry_len)
include hpositive

theorem entries_short (hd : d ∈ ds) : d.2.length ≤ c.BLOCK_SIZE := by
  have := length_le_total (hpositive d hd)
  have := total_block hchain hd
  omega

theorem read_blocks_listing : read_blocks c bytes (ds.map Prod.fst) = .ok (listing ds) := by
  induction ds with
  | nil => rfl
  | cons d ds ih =>
    have hd := List.mem_cons_self (a := d) (l := ds)
    have hshort := entries_short hchain hpositive hd
    have hturns : d.2.length < c.BLOCK_SIZE + 1 := by omega
    have hread := directory_entries_used (hchain d hd) (hpositive d hd) hturns
    rw [List.map_cons, read_blocks, hread,
      ih (fun x hx => hchain x (List.mem_cons_of_mem _ hx))
        (fun x hx => hpositive x (List.mem_cons_of_mem _ hx)), listing_cons]

end Read

namespace Extent

variable {bs bs' : List Nat} (h : Extent c live i bs fs) (hsize : Ext2_size c) (hpool : Pool c fs)
include h hsize hpool

theorem lt_levels : bs.length < level_start c 4 :=
  filled_lt_levels h.filled hsize h.owned hpool h.held

/-- The data pointer to a block. -/
theorem node (hb : b ∈ bs) : ∃ s path, Leaf c s path ∧ ptr c fs i s path = b := by
  have hb := hb
  rw [h.attached, List.mem_map] at hb
  obtain ⟨m, hm, heq⟩ := hb
  obtain ⟨hleaf, -⟩ :=
    leaf_of_spec hsize.pointers ((List.mem_range.mp hm).trans (h.lt_levels hsize hpool))
  exact ⟨_, _, hleaf, heq⟩

theorem block_ne (hb : b ∈ bs) : b ≠ 0 := by
  have hb := hb
  rw [h.attached, List.mem_map] at hb
  obtain ⟨m, hm, heq⟩ := hb
  have hm := List.mem_range.mp hm
  rw [← heq]
  exact (h.filled.block_at hsize.pointers (hm.trans (h.lt_levels hsize hpool))).mpr hm

theorem isBlock (hb : b ∈ bs) : IsBlock c b := by
  obtain ⟨s, path, hleaf, heq⟩ := h.node hsize hpool hb
  have hne := h.block_ne hsize hpool hb
  rw [← heq] at hne ⊢
  exact h.owned.block ⟨i, s, path⟩ ⟨h.held, hleaf.valid⟩ hne

theorem start (hb : b ∈ bs) : block_start c b = b * c.BLOCK_SIZE := by
  rw [block_start, hpool.slot (h.isBlock hsize hpool hb)]

theorem nodup : bs.Nodup := by
  rw [h.attached]
  refine List.Nodup.map_on ?_ List.nodup_range
  intro m hm n hn heq
  have hlevels := h.lt_levels hsize hpool
  have hm := List.mem_range.mp hm
  have hn := List.mem_range.mp hn
  have hne := (h.filled.block_at hsize.pointers (hm.trans hlevels)).mpr hm
  exact h.owned.block_at_inj hsize.pointers h.held (hm.trans hlevels) (hn.trans hlevels) hne heq

theorem bytes_lt : bs.length * c.BLOCK_SIZE < 2 ^ 32 :=
  h.filled.mapped hsize h.owned hpool h.held le_rfl (h.lt_levels hsize hpool).le

/-- Both sizes of the inode lead to all its blocks. -/
theorem addresses (hn : n = uint32 (fs.inode i).size ∨
    n = uint32 ((fs.inode i).blocks * 512)) : ∃ data_address,
      Inode_Get_Data_Adressess c fs (fs.inode i) n = some data_address ∧
        block_list data_address = bs := by
  have hlevels := h.lt_levels hsize hpool
  have hbytes : n = bs.length * c.BLOCK_SIZE := by
    have hlt := h.bytes_lt hsize hpool
    have hblocks : (fs.inode i).blocks * 512 = bs.length * c.BLOCK_SIZE := by
      rw [h.blocks, Nat.mul_assoc]
      congr 1
      rcases hsize with h | h | h <;> rw [h]
    rw [h.size, uint32_int32 hlt] at hn
    rcases hn with rfl | rfl
    · rfl
    · unfold uint32
      omega
  have hin : Size_In_Blocks c n = bs.length := by
    rw [hbytes, Size_In_Blocks, Nat.mul_mod_left, Nat.mul_div_cancel _ c.size_pos]
    rfl
  rcases Nat.eq_zero_or_pos bs.length with hnil | hpos
  · -- the first pointer is read all the same
    obtain rfl := List.length_eq_zero_iff.mp hnil
    have hzero : (fs.inode i).pointer_data_0 0 = 0 := by
      have hdirect : Leaf c 0 [] := ⟨by decide, rfl, by simp⟩
      by_contra hne
      have := (h.filled 0 [] hdirect).mp hne
      exact absurd this (Nat.not_lt_zero _)
    have h12 : 12 ≤ level_start c 4 := level_start_mono (c := c) (show 1 ≤ 4 by decide)
    refine ⟨_, Inode_Get_Data_Adressess_eq _ _ (by rw [hin]; simp; omega), ?_⟩
    rw [hin]
    have hfirst : data_pointer c fs (fs.inode i) 0 = 0 :=
      (data_pointer_direct (show 0 < 12 by decide)).trans hzero
    simp [block_list, hfirst]
  · refine ⟨_, h.filled.addresses hsize.pointers hlevels.le hpos hin, ?_⟩
    rw [← h.attached, block_list, List.takeWhile_append_of_pos]
    · simp
    · intro b hb
      exact decide_eq_true (h.block_ne hsize hpool hb)

/-- Bytes written in the blocks change no pointer. -/
theorem ptr_kept (hinode : fs'.inode = fs.inode)
    (hblock : ∀ b ∉ bs, fs'.block b = fs.block b) {x : Node} (hx : Held c live x) :
    x.ptr c fs' = x.ptr c fs := by
  have huntouched : Untouched c live fs fs' fun _ => False := by
    constructor
    · intro j s _ _ _
      rw [hinode]
    · intro j s path k hj hvalid hne _
      have hparent : Held c live ⟨j, s, path⟩ := ⟨hj, hvalid.tail⟩
      have hslot : slot c (ptr c fs j s path) = ptr c fs j s path :=
        hpool.slot (h.owned.block ⟨j, s, path⟩ hparent hne)
      have hnot : ptr c fs j s path ∉ bs := by
        intro hmem
        obtain ⟨t, q, hleaf, hat⟩ := h.node hsize hpool hmem
        have hnode := h.owned.inj ⟨j, s, path⟩ ⟨i, t, q⟩ hparent ⟨h.held, hleaf.valid⟩ hne hat.symm
        cases hnode
        exact Held.parent_not_leaf (x := ⟨i, s, k :: path⟩) ⟨hj, hvalid⟩ rfl hleaf
      rw [indirect, indirect, hslot, hblock _ hnot]
  exact huntouched.ptr hx fun _ _ => id

/-- The blocks with other bytes in them. -/
theorem set {bytes : Bytes} (hblock : ∀ b ∉ bs, (set_flat c fs bytes).block b = fs.block b) :
    Extent c live i bs (set_flat c fs bytes) := by
  have hptr : ∀ x, Held c live x → x.ptr c (set_flat c fs bytes) = x.ptr c fs := by
    intro x hx
    refine h.ptr_kept hsize hpool ?_ hblock hx
    rfl
  constructor
  · constructor
    · intro x y hx hy
      rw [hptr x hx, hptr y hy]
      exact h.owned.inj x y hx hy
    · intro x hx
      rw [hptr x hx]
      exact h.owned.block x hx
    · intro x hx
      rw [hptr x hx]
      exact h.owned.used x hx
  · exact h.held
  · intro s path hleaf
    have hsame : ptr c (set_flat c fs bytes) i s path = ptr c fs i s path :=
      hptr ⟨i, s, path⟩ ⟨h.held, hleaf.valid⟩
    rw [hsame]
    exact h.filled s path hleaf
  · refine h.attached.trans (List.map_congr_left ?_)
    intro m hm
    obtain ⟨hleaf, -⟩ := leaf_of_spec hsize.pointers
      ((List.mem_range.mp hm).trans (h.lt_levels hsize hpool))
    exact (hptr ⟨i, _, _⟩ ⟨h.held, hleaf.valid⟩).symm
  · exact h.size
  · exact h.blocks

/-- As many blocks in an image where only these have changed are the same ones. -/
theorem same (h' : Extent c live i bs' fs') (hlen : bs'.length = bs.length)
    (hinode : fs'.inode = fs.inode) (hblock : ∀ b ∉ bs, fs'.block b = fs.block b) : bs' = bs := by
  rw [h.attached, h'.attached, hlen]
  apply List.map_congr_left
  intro m hm
  obtain ⟨hleaf, -⟩ := leaf_of_spec hsize.pointers
    ((List.mem_range.mp hm).trans (h.lt_levels hsize hpool))
  exact h.ptr_kept hsize hpool hinode hblock (x := ⟨i, _, _⟩) ⟨h.held, hleaf.valid⟩

end Extent

namespace Linked

variable (h : Linked c live i ds fs) (hsize : Ext2_size c) (hpool : Pool c fs)
include h hsize hpool

theorem lt_levels : ds.length < level_start c 4 := by
  have hlt := h.extent.lt_levels hsize hpool
  rwa [List.length_map] at hlt

theorem isBlock (hd : d ∈ ds) : IsBlock c d.1 :=
  h.extent.isBlock hsize hpool (List.mem_map_of_mem hd)

theorem start (hd : d ∈ ds) : block_start c d.1 = d.1 * c.BLOCK_SIZE :=
  h.extent.start hsize hpool (List.mem_map_of_mem hd)

theorem nodup : (ds.map Prod.fst).Nodup := h.extent.nodup hsize hpool

/-- The listing is that of the entries in use. -/
theorem read : read_directory c fs (fs.inode i) = .ok (listing ds) := by
  obtain ⟨data_address, haddress, hlist⟩ := h.extent.addresses hsize hpool (Or.inl rfl)
  unfold read_directory
  rw [haddress]
  simp only [hlist]
  exact read_blocks_listing h.chain h.positive

/-- The blocks with other entries in them. -/
theorem set {bytes : Bytes}
    (hblock : ∀ b ∉ ds.map Prod.fst, (set_flat c fs bytes).block b = fs.block b)
    (hmap : ds'.map Prod.fst = ds.map Prod.fst)
    (hchain : ∀ d ∈ ds', Chain bytes (block_start c d.1 + c.BLOCK_SIZE) (block_start c d.1) d.2)
    (hpositive : ∀ d ∈ ds', ∀ e ∈ d.2, 0 < e.entry_len) :
    Linked c live i ds' (set_flat c fs bytes) where
  extent := by
    rw [hmap]
    exact h.extent.set hsize hpool hblock
  chain := by rwa [flat_set_flat]
  positive := hpositive

end Linked

namespace Directory

variable (h : Directory c live i ds fs) (hsize : Ext2_size c) (hpool : Pool c fs)
include h hsize hpool

/-- The directory with other entries in its blocks. -/
theorem set {bytes : Bytes}
    (hblock : ∀ b ∉ ds.map Prod.fst, (set_flat c fs bytes).block b = fs.block b)
    (hmap : ds'.map Prod.fst = ds.map Prod.fst)
    (hchain : ∀ d ∈ ds', Chain bytes (block_start c d.1 + c.BLOCK_SIZE) (block_start c d.1) d.2)
    (hsound : ∀ d ∈ ds', ∀ e ∈ d.2, e.Sound)
    (hnames : ((listing ds').map entry_t.file_name).Nodup) :
    Directory c live i ds' (set_flat c fs bytes) := by
  have hlen : ds'.length = ds.length := by simpa using congrArg List.length hmap
  have hextent := h.linked.extent.set hsize hpool hblock
  have hfilled := hextent.filled
  have hattached := hextent.attached
  have hblocks := hextent.blocks
  rw [List.length_map] at hfilled hattached hblocks
  refine ⟨hextent.owned, h.held, hlen ▸ hfilled, ?_, ?_, hlen ▸ hblocks, ?_, ?_, hsound, hnames⟩
  · rw [hmap, hlen]
    exact hattached
  · rw [hlen]
    exact h.size
  · rw [hlen]
    exact h.fits
  · rwa [flat_set_flat]

/-- A directory read in an image where only its blocks have changed has the same blocks. -/
theorem same_blocks (h' : Directory c live i ds' fs') (hinode : fs'.inode = fs.inode)
    (hblock : ∀ b ∉ ds.map Prod.fst, fs'.block b = fs.block b) :
    ds'.map Prod.fst = ds.map Prod.fst := by
  have hlen : ds'.length = ds.length := by
    have hs := h.size
    have hs' := h'.size
    rw [hinode, hs] at hs'
    exact (Nat.eq_of_mul_eq_mul_right c.size_pos (by exact_mod_cast hs')).symm
  exact h.linked.extent.same hsize hpool h'.linked.extent (by simpa using hlen) hinode hblock

end Directory

/-- The inode of a directory in the block `b` alone. -/
def one_block_inode (c : Superblock_constants) (b : Nat) : inode_t where
  mode := EXT2_IFDIR
  size := c.BLOCK_SIZE
  links_count := 1
  blocks := c.BLOCK_SIZE / 512
  pointer_data_0 := fun k => if k = 0 then b else 0
  pointer_data_1 := 0
  pointer_data_2 := 0
  pointer_data_3 := 0

section One_block

variable (hinode : fs.inode i = one_block_inode c b)
include hinode

theorem one_block_indirect (s : Nat) (hs : 12 ≤ s) (hs' : s < 15) :
    pointer (fs.inode i) s = 0 := by
  rw [hinode]
  obtain rfl | rfl | rfl : s = 12 ∨ s = 13 ∨ s = 14 := by omega
  all_goals rfl

theorem one_block_direct {s : Nat} (hs : s < 12) :
    pointer (fs.inode i) s = if s = 0 then b else 0 := by
  rw [hinode, pointer, if_pos hs]
  rfl

/-- The block of such an inode is all it points to. -/
theorem one_block_ptr {x : Node} (hx : Held c (fun j => j = i) x) (hne : x.ptr c fs ≠ 0) :
    x = ⟨i, 0, []⟩ ∧ x.ptr c fs = b := by
  obtain ⟨j, s, path⟩ := x
  obtain rfl : j = i := hx.inode
  obtain ⟨hs, rfl⟩ := ptr_direct_only (one_block_indirect hinode) hx.valid hne
  have hptr : Node.ptr c fs ⟨j, s, []⟩ = if s = 0 then b else 0 := one_block_direct hinode hs
  rw [hptr] at hne ⊢
  by_cases h0 : s = 0
  · subst h0
    exact ⟨rfl, if_pos rfl⟩
  · exact absurd (if_neg h0) hne

theorem one_block_owned (hblock : IsBlock c b) (hused : used c fs b = true) :
    Owned c (fun j => j = i) fs := by
  constructor
  · intro x y hx hy hne heq
    rw [(one_block_ptr hinode hx hne).1, (one_block_ptr hinode hy (heq ▸ hne)).1]
  · intro x hx hne
    rwa [(one_block_ptr hinode hx hne).2]
  · intro x hx hne
    rwa [(one_block_ptr hinode hx hne).2]

/-- Two such inodes with blocks of their own. -/
theorem two_blocks_owned {i' b' : Nat} (hinode' : fs.inode i' = one_block_inode c b') (hne : b ≠ b')
    (hblock : IsBlock c b) (hblock' : IsBlock c b') (hused : used c fs b = true)
    (hused' : used c fs b' = true) : Owned c (fun j => j = i ∨ j = i') fs := by
  have hown := one_block_owned hinode hblock hused
  have hown' := one_block_owned hinode' hblock' hused'
  have hheld : ∀ x, Held c (fun j => j = i ∨ j = i') x →
      Held c (fun j => j = i) x ∨ Held c (fun j => j = i') x := by
    rintro x ⟨hx | hx, hvalid⟩
    · exact Or.inl ⟨hx, hvalid⟩
    · exact Or.inr ⟨hx, hvalid⟩
  constructor
  · intro x y hx hy hx0 heq
    have hy0 : y.ptr c fs ≠ 0 := heq ▸ hx0
    rcases hheld x hx with hx | hx <;> rcases hheld y hy with hy | hy
    · exact hown.inj x y hx hy hx0 heq
    · rw [(one_block_ptr hinode hx hx0).2, (one_block_ptr hinode' hy hy0).2] at heq
      exact absurd heq hne
    · rw [(one_block_ptr hinode' hx hx0).2, (one_block_ptr hinode hy hy0).2] at heq
      exact absurd heq.symm hne
    · exact hown'.inj x y hx hy hx0 heq
  · intro x hx hx0
    rcases hheld x hx with hx | hx
    · exact hown.block x hx hx0
    · exact hown'.block x hx hx0
  · intro x hx hx0
    rcases hheld x hx with hx | hx
    · exact hown.used x hx hx0
    · exact hown'.used x hx hx0

/-- It is a directory when its block is a chain of entries. -/
theorem one_block_directory_of (hsize : Ext2_size c) (hown : Owned c live fs) (hi : live i)
    (hblock : IsBlock c b)
    (hchain : Chain (flat c fs) (block_start c b + c.BLOCK_SIZE) (block_start c b) es)
    (hsound : ∀ e ∈ es, e.Sound)
    (hnames : ((es.filter fun e => e.inode_number ≠ 0).map entry_t.file_name).Nodup) :
    Directory c live i [(b, es)] fs := by
  have hpos := hblock.1
  have hsmall : c.BLOCK_SIZE < 2 ^ 31 := by rcases hsize with h | h | h <;> omega
  have hfilled : Filled c fs i 1 := by
    refine filled_direct hsize.pointers (one_block_indirect hinode) (by decide) ?_
    intro s hs
    rw [one_block_direct hinode hs]
    split_ifs <;> omega
  refine ⟨hown, hi, hfilled, ?_, ?_, ?_, ?_, ?_, ?_, ?_⟩
  · have hfirst : block_at c fs i 0 = pointer (fs.inode i) 0 := rfl
    simp [hfirst, one_block_direct hinode (show 0 < 12 by decide)]
  · rw [hinode]
    simp [one_block_inode]
  · rw [hinode]
    simp [one_block_inode]
  · simpa using hsmall
  · simpa using hchain
  · simpa using hsound
  · simpa [listing] using hnames

theorem one_block_directory (hsize : Ext2_size c)
    (hblock : IsBlock c b) (hused : used c fs b = true)
    (hchain : Chain (flat c fs) (block_start c b + c.BLOCK_SIZE) (block_start c b) es)
    (hsound : ∀ e ∈ es, e.Sound)
    (hnames : ((es.filter fun e => e.inode_number ≠ 0).map entry_t.file_name).Nodup) :
    Directory c (fun j => j = i) i [(b, es)] fs :=
  one_block_directory_of hinode hsize (one_block_owned hinode hblock hused) rfl hblock hchain hsound
    hnames

end One_block

end LaLiga.Rfs
