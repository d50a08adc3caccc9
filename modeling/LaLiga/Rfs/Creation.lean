import LaLiga.Rfs.Attachments
import LaLiga.Rfs.DirectoryRemoval

/-! Files and directories created with `create_file_dir` when inodes or blocks run out. -/
namespace LaLiga.Rfs

open LaLiga.Lib

variable {c : Superblock_constants} {live : Nat → Prop} {fs fs' : Image} {w w' : Worker_state}
  {i p n N b calls : Nat} {m : Bytes} {new e : entry_t} {es before after : List entry_t}
  {ds : List (Nat × List entry_t)}

section Heads

variable (hP : 1 < pointers_per_block c)
include hP

/-- A data block needs an indirect block before it when it is the first one in it. -/
theorem heads_pos_iff (hN : N < level_start c 4) :
    0 < heads c N ↔ 12 ≤ N ∧ (N - 12) % pointers_per_block c = 0 := by
  obtain ⟨hleaf, hindex⟩ := leaf_of_spec hP hN
  rw [← first_index_leaf hleaf] at hindex
  have hslot := hleaf.slot
  have hlength := hleaf.length
  constructor
  · intro hpos
    obtain ⟨hvalid, hfirst⟩ := first_index_drop hP hN hpos
    have hle : heads c N ≤ (leaf_of c N).2.length := (List.takeWhile_prefix _).length_le
    have hdrop : ((leaf_of c N).2.drop 1).length < height (leaf_of c N).1 := by
      rw [List.length_drop]
      omega
    rw [← hfirst]
    exact first_index_mod hslot hdrop
  · rintro ⟨hlo, hmod⟩
    have hindirect : 12 ≤ (leaf_of c N).1 := by
      by_contra hlt
      rw [first_index_direct (by omega)] at hindex
      omega
    have hheight := height_indirect hindirect
    obtain ⟨k, q, hq⟩ : ∃ k q, (leaf_of c N).2 = k :: q := by
      cases hp : (leaf_of c N).2 with
      | nil =>
        rw [hp, List.length_nil] at hlength
        omega
      | cons k q => exact ⟨k, q, rfl⟩
    have hk := hleaf.digits k (by rw [hq]; simp)
    rw [hq, List.length_cons] at hlength
    have htail : q.length < height (leaf_of c N).1 := by omega
    obtain ⟨hlo', hmod'⟩ := first_index_mod (c := c) hslot htail
    rw [hq, first_index_entry hlength] at hindex
    have hzero : k = 0 := by
      have hsum : N - 12 = (first_index c (leaf_of c N).1 q - 12) + k := by omega
      rw [hsum, Nat.add_mod, hmod', Nat.zero_add, Nat.mod_mod, Nat.mod_eq_of_lt hk] at hmod
      exact hmod
    rw [heads, hq, hzero]
    simp

end Heads

section Same

variable (hinode : fs'.inode = fs.inode) (hblock : fs'.block = fs.block)
  (hused : ∀ b, IsBlock c b → used c fs' b = used c fs b)
include hinode hblock

theorem Tidy.congr (h : Tidy c fs i) : Tidy c fs' i := by
  intro s path hvalid hlt hne
  rw [ptr_congr hinode hblock] at hne
  obtain ⟨k, hk, hset⟩ := h s path hvalid hlt hne
  exact ⟨k, hk, by rwa [ptr_congr hinode hblock]⟩

include hused

/-- Work on inodes leaves the directories as they are. -/
theorem Directory.congr (h : Directory c live i ds fs) : Directory c live i ds fs' where
  owned := by
    refine h.owned.congr hinode hblock fun x hx hne => ?_
    rw [hused _ (h.owned.block x hx hne)]
    exact h.owned.used x hx hne
  held := h.held
  filled := by
    intro s path hleaf
    rw [ptr_congr hinode hblock]
    exact h.filled s path hleaf
  attached := by
    refine h.attached.trans (List.map_congr_left fun m _ => ?_)
    exact (ptr_congr hinode hblock).symm
  size := by
    rw [hinode]
    exact h.size
  blocks := by
    rw [hinode]
    exact h.blocks
  fits := h.fits
  chain := by
    have hflat : flat c fs' = flat c fs := by
      funext q
      rw [flat, flat, hblock]
    rw [hflat]
    exact h.chain
  sound := h.sound
  names := h.names

omit hinode hblock in
theorem free_below_congr (b : Nat) : free_below c fs' b = free_below c fs b := by
  apply Finset.filter_congr
  intro d _
  constructor
  · rintro ⟨hd, hfree⟩
    exact ⟨hd, (hused d hd).symm.trans hfree⟩
  · rintro ⟨hd, hfree⟩
    exact ⟨hd, (hused d hd).trans hfree⟩

omit hinode in
theorem Attachable.congr (h : Attachable c new ds fs) : Attachable c new ds fs' := by
  obtain ⟨b, before, e, after, hb, hfree, hcard, hclean, hvacant⟩ := h
  have hflat : flat c fs' = flat c fs := by
    funext q
    rw [flat, flat, hblock]
  refine ⟨b, before, e, after, hb, (hused b hb).trans hfree, ?_, ?_, by rwa [hflat]⟩
  · rwa [free_below_congr hused]
  · rwa [free_below_congr hused, hblock]

omit hinode in
theorem Next_clean.congr (h : Next_clean c N fs) : Next_clean c N fs' := by
  intro d hd hfree hcard
  rw [hused d hd] at hfree
  rw [free_below_congr hused] at hcard
  rw [hblock]
  exact h d hd hfree hcard

end Same

section Short

variable (h : Directory c live p ds w.file) (hsize : Ext2_size c) (hpool : Pool c w.file)
  (htidy : Tidy c w.file p) (herr : w.errno ≠ some .ENOSPC)
include h hsize hpool htidy herr

/-- Without the blocks for one more, those that there are go to indirect blocks, or the call ends
in a `NULL` for one of these. -/
theorem Directory.short (hclean : Next_clean c ds.length w.file)
    (hfew : w.file.TOTAL_UNALLOCATED_BLOCKS ≤ heads c ds.length) (hheads : 0 < heads c ds.length) :
    Attach_Blocks c p 1 w = .error .null ∨
      ∃ r w', Attach_Blocks c p 1 w = .ok (r, w') ∧ w'.errno = some .ENOSPC ∧
        ∃ b, IsBlock c b ∧ used c w.file b = false ∧ used c w'.file b = true := by
  have hP := hsize.pointers
  have hlevels := h.linked.lt_levels hsize hpool
  have hw : Prepared c live p ds.length 0 w.file := ⟨h.owned, hpool, full_of_tidy hP h.filled htidy⟩
  have hall : Clean c w.file := hclean.all hpool hfew
  obtain ⟨hlo, hmod⟩ := (heads_pos_iff hP hlevels).mp hheads
  have hk : 1 = min (level_start c 4 - ds.length) 1 := by omega
  rcases Attach_Blocks_spec hP hsize.words h.held hw (Or.inl hall) Nat.one_pos hlevels herr hk with
    ⟨-, hlt, -⟩ | ⟨w₁, -, -, ⟨hzero, -⟩ | ⟨-, -, hreached, -⟩⟩ | ⟨hok, -⟩ | ⟨x, w₁, hok, hends⟩
  · omega
  · exact absurd hzero Nat.one_ne_zero
  · have hneeded := hreached.needed_le hP h.held hw (by omega)
    have hone : needed c ds.length 1 = heads c ds.length + 1 := by simp [needed]
    omega
  · exact Or.inl hok
  · refine Or.inr ⟨_, w₁, hok, hends.errno, ?_⟩
    rcases hends.left with ⟨-, hloose⟩ | ⟨⟨-, hpart, -⟩, -⟩
    · obtain ⟨N', d', ⟨D, hgrew⟩, -⟩ := hends.reached
      -- a block that was taken makes the difference
      obtain ⟨s, path, hvalid, hlt, hset, hnone⟩ : ∃ s path, Valid c s path ∧
          path.length < height s ∧ ptr c w₁.file p s path ≠ 0 ∧
          ¬ ∃ k, Valid c s (k :: path) ∧ ptr c w₁.file p s (k :: path) ≠ 0 := by
        unfold Tidy at hloose
        push Not at hloose
        obtain ⟨s, path, hvalid, hlt, hset, hnone⟩ := hloose
        exact ⟨s, path, hvalid, hlt, hset, by
          rintro ⟨k, hk, hk'⟩
          exact hk' (hnone k hk)⟩
      have hx : Held c live ⟨p, s, path⟩ := ⟨h.held, hvalid⟩
      have hD : (⟨p, s, path⟩ : Node) ∈ D := by
        by_contra hD
        have hkept : ptr c w₁.file p s path = ptr c w.file p s path := hgrew.kept _ hx hD
        rw [hkept] at hset
        obtain ⟨k, hk, hk'⟩ := htidy s path hvalid hlt hset
        have hstays : ptr c w₁.file p s (k :: path) = ptr c w.file p s (k :: path) :=
          Grown.ptr ⟨D, hgrew⟩ ⟨h.held, hk⟩ hk'
        exact hnone ⟨k, hk, hstays.trans_ne hk'⟩
      obtain ⟨-, hne, hfree⟩ := hgrew.fresh _ hD
      exact ⟨_, hgrew.owned.block _ hx hne, hfree, hgrew.owned.used _ hx hne⟩
    · exact absurd hmod hpart

/-- With no block at all and no indirect block to get first nothing is done. -/
theorem Directory.none_left (hheads : heads c ds.length = 0)
    (hzero : w.file.TOTAL_UNALLOCATED_BLOCKS = 0) :
    ∃ r, Attach_Blocks c p 1 w = .ok (r, { w with errno := some .ENOSPC }) := by
  have hP := hsize.pointers
  have hlevels := h.linked.lt_levels hsize hpool
  have hw : Prepared c live p ds.length 0 w.file := ⟨h.owned, hpool, full_of_tidy hP h.filled htidy⟩
  by_cases hlo : ds.length < 12
  · rw [Attach_Blocks_eq]
    rcases Attach_Blocks_level0_spec hP h.held hw rfl Nat.one_pos with
      ⟨hok, -, -⟩ | ⟨w₁, -, -, ⟨hnone, -⟩ | ⟨-, -, hreached, -⟩⟩
    · rw [hok]
      exact ⟨_, rfl⟩
    · omega
    · rw [Nat.min_eq_right (by omega)] at hreached
      have hneeded := hreached.needed_le hP h.held hw (by omega)
      have hone : needed c ds.length 1 = 1 := by simp [needed, hheads]
      omega
  · have hmod : (ds.length - 12) % pointers_per_block c ≠ 0 := by
      intro hmod
      have := (heads_pos_iff hP hlevels).mpr ⟨by omega, hmod⟩
      omega
    have hrest := Nat.mod_lt (ds.length - 12) (show 0 < pointers_per_block c by omega)
    have hpart : Partial c w.file ds.length 1 := ⟨by omega, hmod, by omega⟩
    have hk : 1 = min (level_start c 4 - ds.length) 1 := by omega
    rcases Attach_Blocks_spec hP hsize.words h.held hw (Or.inr (Or.inl hpart)) Nat.one_pos hlevels
      herr hk with
      ⟨-, hlt, -⟩ | ⟨w₁, -, -, ⟨hnone, -⟩ | ⟨-, hwhole, -⟩⟩ | ⟨-, hwhole, -⟩ | ⟨x, w₁, hok, hends⟩
    · omega
    · exact absurd hnone Nat.one_ne_zero
    · exact absurd hpart hwhole
    · exact absurd hpart hwhole
    · rcases hends.left with ⟨hwhole, -⟩ | ⟨-, hfile, -⟩
      · exact absurd hpart hwhole
      · obtain ⟨file, errno⟩ := w₁
        obtain rfl : file = w.file := hfile
        obtain rfl : errno = some .ENOSPC := hends.errno
        exact ⟨_, hok⟩

end Short

/-- A failed creation leaves the parent, the bits and the counts. -/
structure Untraced (c : Superblock_constants) (p : Nat) (fs fs' : Image) : Prop where
  listing : read_directory c fs' (fs'.inode p) = read_directory c fs (fs.inode p)
  used : ∀ b, IsBlock c b → used c fs' b = used c fs b
  bits : ∀ g < c.TOTAL_GROUPS, inode_bit fs' g = inode_bit fs g
  gdt : fs'.gdt = fs.gdt
  free_blocks : fs'.TOTAL_UNALLOCATED_BLOCKS = fs.TOTAL_UNALLOCATED_BLOCKS
  free_inodes : fs'.TOTAL_UNALLOCATED_INODES = fs.TOTAL_UNALLOCATED_INODES
  size : (fs'.inode p).size = (fs.inode p).size
  blocks : (fs'.inode p).blocks = (fs.inode p).blocks

theorem Untraced.refl : Untraced c p fs fs :=
  ⟨rfl, fun _ _ => rfl, fun _ _ => rfl, rfl, rfl, rfl, rfl, rfl⟩

/-- Who runs out of inodes or blocks answers 1 and leaves no trace. The descriptor of a group that
the image does not have is used where nothing has run out. -/
def No_trace (c : Superblock_constants) (params : Create_params) (p : Nat) (w : Worker_state) :
    Prop :=
  Ends (fun e => e = .inode_group) (fun r => r.1 = 1 → Untraced c p w.file r.2.file)
    (create_file_dir c params w)

section Attach

variable {bs : List Nat} (h : Extent c live p bs w.file) (hsize : Ext2_size c)
  (hpool : Pool c w.file) (hnone : attach_blocks c (flat c w.file) new bs = .ok none)
include h hsize hpool hnone

theorem attach_entry_error {x : Crash} (hattach : Attach_Blocks c p 1 w = .error x) :
    attach_entry c p new (calls + 1) w = .error x := by
  obtain ⟨data_address, haddress, hlist⟩ := h.addresses hsize hpool (Or.inr rfl)
  rw [attach_entry]
  simp only [haddress, hlist, hnone, hattach]

theorem attach_entry_refused {r : Nat} (hattach : Attach_Blocks c p 1 w = .ok (r, w'))
    (herr : w'.errno = some .ENOSPC) : attach_entry c p new (calls + 1) w = .ok (false, w') := by
  obtain ⟨data_address, haddress, hlist⟩ := h.addresses hsize hpool (Or.inr rfl)
  rw [attach_entry]
  simp only [haddress, hlist, hnone, hattach]
  rw [if_pos herr]

end Attach

section Bit

variable {g k count count' total total' : Nat} {v v' : Bool}

theorem inode_bit_changed : inode_bit (set_inode_bit fs g k v count total) g =
    Function.update (inode_bit fs g) k v := by
  funext j
  simp [inode_bit, set_inode_bit, Image.setDescriptor, Image.setBitmap]

/-- Of two changes of one bit the second one counts. -/
theorem set_inode_bit_twice : set_inode_bit (set_inode_bit fs g k v count total) g k v' count' total' =
    set_inode_bit fs g k v' count' total' := by
  rw [set_inode_bit, inode_bit_changed, Function.update_idem]
  simp [set_inode_bit, Image.setDescriptor, Image.setBitmap]

theorem set_inode_bit_self : set_inode_bit fs g k (inode_bit fs g k) (fs.gdt g).UNALLOCATED_INODES
    fs.TOTAL_UNALLOCATED_INODES = fs := by
  have hbits : inode_bit fs g = fs.bitmap (fs.gdt g).BITMAP_INODE_ADDRESS := rfl
  rw [set_inode_bit, Function.update_eq_self, hbits]
  simp [Image.setDescriptor, Image.setBitmap]

theorem count_taken (h : Nat) : ((take_inode fs g k).gdt h).NUMBER_DIRECTORIES_GROUP =
    (fs.gdt h).NUMBER_DIRECTORIES_GROUP := by
  by_cases hg : h = g <;> simp [take_inode, set_inode_bit, Image.setDescriptor, Image.setBitmap, hg]

/-- An inode taken and given back. -/
theorem free_take (hcons : Inodes_consistent c fs) (hfirst : First_free c fs g k) :
    setFreeInodeBitmap c (take_inode fs g k) (inode_number c g k) = fs := by
  have htake := take_inode_consistent hcons hfirst.group_lt hfirst.bit_lt hfirst.clear
  have hcard : free_inodes_in_group c fs g = _ + 1 := card_clearIn_set hfirst.bit_lt hfirst.clear
  have hle := free_inodes_le (c := c) fs g
  have htotal : free_inodes_in_group c fs g ≤ fs.TOTAL_UNALLOCATED_INODES := by
    rw [hcons.total]
    exact Finset.single_le_sum (fun _ _ => Nat.zero_le _) (Finset.mem_range.mpr hfirst.group_lt)
  have hall : fs.TOTAL_UNALLOCATED_INODES ≤ c.TOTAL_GROUPS * c.INODES_PER_GROUP := by
    rw [hcons.total]
    calc ∑ k ∈ Finset.range c.TOTAL_GROUPS, free_inodes_in_group c fs k
        ≤ ∑ _k ∈ Finset.range c.TOTAL_GROUPS, c.INODES_PER_GROUP :=
          Finset.sum_le_sum fun k _ => free_inodes_le fs k
      _ = c.TOTAL_GROUPS * c.INODES_PER_GROUP := by simp
  have hfree := hcons.free g hfirst.group_lt
  have hgroup := hcons.group_fits
  have hfits := hcons.numbers_fit
  have hcount : ((take_inode fs g k).gdt g).UNALLOCATED_INODES = (fs.gdt g).UNALLOCATED_INODES - 1 := by
    simp [take_inode, set_inode_bit, Image.setDescriptor, Image.setBitmap]
  rw [setFreeInodeBitmap_eq htake hfirst.group_lt hfirst.bit_lt, hcount]
  have hback : ((fs.gdt g).UNALLOCATED_INODES - 1 + 1) % 2 ^ 16 = (fs.gdt g).UNALLOCATED_INODES := by
    omega
  have hback' : ((take_inode fs g k).TOTAL_UNALLOCATED_INODES + 1) % 2 ^ 32 =
      fs.TOTAL_UNALLOCATED_INODES := by
    have hless : (take_inode fs g k).TOTAL_UNALLOCATED_INODES = fs.TOTAL_UNALLOCATED_INODES - 1 := rfl
    omega
  rw [hback, hback', take_inode, set_inode_bit_twice, ← hfirst.clear, set_inode_bit_self]

end Bit

section Own_block

variable {mode : Nat} (hsize : Ext2_size c) (hpool : Pool c w.file)
include hsize hpool

/-- A new directory gets the first block that is free. -/
theorem first_block_attached (hinode : w.file.inode i = directory_inode c mode)
    (herr : w.errno ≠ some .ENOSPC) (hfree : 0 < w.file.TOTAL_UNALLOCATED_BLOCKS) :
    ∃ w' b, Attach_Blocks c i 1 w = .ok (0, w') ∧ w'.errno = w.errno ∧
      Extent c (fun j => j = i) i [b] w'.file ∧ Pool c w'.file := by
  have hP := hsize.pointers
  have hnone : ∀ s < 15, pointer (w.file.inode i) s = 0 := by
    intro s hs
    rw [hinode]
    simp only [pointer, directory_inode, empty_inode]
    split_ifs <;> rfl
  have hptr : ∀ x, Held c (fun j => j = i) x → x.ptr c w.file = 0 := by
    intro x hx
    by_contra hne
    obtain ⟨j, s, path⟩ := x
    obtain rfl : j = i := hx.inode
    obtain ⟨hs, rfl⟩ := ptr_direct_only (fun t _ ht => hnone t ht) hx.valid hne
    exact hne (hnone s (hs.trans (by decide)))
  have hown : Owned c (fun j => j = i) w.file :=
    ⟨fun x _ hx _ hne => absurd (hptr x hx) hne, fun x hx hne => absurd (hptr x hx) hne,
      fun x hx hne => absurd (hptr x hx) hne⟩
  have hfilled : Filled c w.file i 0 := by
    intro s path hleaf
    have hzero : ptr c w.file i s path = 0 := hptr ⟨i, s, path⟩ ⟨rfl, hleaf.valid⟩
    simp [hzero]
  have htidy : Tidy c w.file i := by
    intro s path hvalid _ hne
    exact absurd (hptr ⟨i, s, path⟩ ⟨rfl, hvalid⟩) hne
  have hw : Prepared c (fun j => j = i) i 0 0 w.file := ⟨hown, hpool, full_of_tidy hP hfilled htidy⟩
  obtain ⟨b, hblock, hclear, hbelow⟩ := exists_free (hfree.trans_le hpool.le_card)
  have hcap : 0 < level_start c 4 :=
    Nat.lt_of_lt_of_le (show 0 < 12 by decide) (level_start_mono (show 1 ≤ 4 by decide))
  have hheads : heads c 0 = 0 := by
    by_contra hne
    have := (heads_pos_iff hP hcap).mp (Nat.pos_of_ne_zero hne)
    omega
  have hnext : Coming c i 0 b (w.file.block b) w.file := by
    refine ⟨hblock, hclear, rfl, ?_, ?_⟩
    · rw [hw.full.missing_eq hP hcap, way_card, hbelow, hheads]
    · rw [Finset.card_eq_zero.mp hbelow]
      simp
  obtain ⟨w', hattach, herrno, hreached, hat, -⟩ :=
    Attach_Blocks_next hsize hw rfl hnext herr hcap
  obtain ⟨D, hgrew⟩ := hreached.grown
  refine ⟨w', b, hattach, herrno, ⟨hreached.prepared.owned, rfl, hreached.prepared.full.filled, ?_, ?_,
    ?_⟩, hreached.prepared.pool⟩
  · simp [hat]
  · rw [hgrew.rest.size, hinode]
    simp [directory_inode]
  · rw [hgrew.rest.blocks, hinode]
    simp [directory_inode]

/-- `.` is written over the whole block, so that there is room for `..`. -/
theorem base_entries_attached (parent : Nat) (hext : Extent c (fun j => j = i) i [b] w.file)
    (hi : i < 2 ^ 32) :
    ∃ w', set_base_entries c i parent w = .ok w' := by
  have hlen : c.BLOCK_SIZE % 2 ^ 16 = c.BLOCK_SIZE ∧ 1024 ≤ c.BLOCK_SIZE := by
    rcases hsize with h | h | h <;> omega
  obtain ⟨e, he⟩ : ∃ e, e = { create_entry [46] i with entry_len := c.BLOCK_SIZE % 2 ^ 16 } := ⟨_, rfl⟩
  have hfits : e.Fits := by
    have hdot : (create_entry [46] i).Fits := create_entry_fits (by decide) hi
    rw [he]
    exact { hdot with entry_len := Nat.mod_lt _ (by decide) }
  have helen : e.entry_len = c.BLOCK_SIZE := by
    rw [he]
    exact hlen.1
  have hename : e.name_len = 1 := by
    rw [he]
    rfl
  obtain ⟨m, hm⟩ : ∃ m, m = copy_entry (flat c w.file) (block_start c b) e := ⟨_, rfl⟩
  have hout : Outside (flat c w.file) m (block_start c b) (block_start c b + c.BLOCK_SIZE) := by
    rintro q (hq | hq)
    · rw [hm]
      exact copy_before (q := q + 1) (by omega) q q le_rfl (Nat.lt_succ_self q)
    · rw [hm]
      exact copy_after hfits (q := q) (by omega) (q + 1) q le_rfl (Nat.lt_succ_self q)
  have hslot : slot c b = b := hpool.slot (hext.isBlock hsize hpool (by simp))
  have hext' : Extent c (fun j => j = i) i [b] (set_flat c w.file m) := by
    refine hext.set hsize hpool fun d hd => set_flat_block hout ?_
    rw [hslot]
    simpa using hd
  have hchain : Chain m (block_start c b + c.BLOCK_SIZE) (block_start c b) ([] ++ e :: []) := by
    refine ⟨?_, ?_⟩
    · rw [hm]
      exact entry_at_copy hfits
    · show _ = _
      rw [helen]
  have hpadded : get_padded_size e = 12 := by
    unfold get_padded_size
    rw [hename]
    decide
  have hroom : has_room (create_entry [46, 46] parent) e := by
    have hdots : (create_entry [46, 46] parent).entry_len = 10 := rfl
    unfold has_room
    omega
  have hscan : attach_scan m (block_start c b + c.BLOCK_SIZE) (create_entry [46, 46] parent)
      (c.BLOCK_SIZE + 1) (block_start c b) = .ok (some
        (put_entry m (block_start c b + total []) (create_entry [46, 46] parent))) :=
    attach_scan_put hchain (by simp) (by simp) hroom (by simp)
  have hput : attach_blocks c (flat c (set_flat c w.file m)) (create_entry [46, 46] parent) [b] =
      .ok (some (put_entry m (block_start c b + total []) (create_entry [46, 46] parent))) := by
    rw [flat_set_flat, attach_blocks, hscan]
  have hrun : attach_entry c i (create_entry [46, 46] parent)
      ((set_flat c w.file m).TOTAL_UNALLOCATED_BLOCKS + 1) { w with file := set_flat c w.file m } =
        .ok (true, _) :=
    attach_entry_put hext' hsize (hpool.congr rfl rfl rfl) hput
  have hfirst : (w.file.inode i).pointer_data_0 0 = b := by
    have hattached := hext.attached
    exact (List.cons.inj hattached).1.symm
  unfold set_base_entries
  rw [hfirst, ← he]
  dsimp only
  rw [← hm]
  exact ⟨_, bind_eq_ok.mpr ⟨_, hrun, rfl⟩⟩

omit hsize hpool in
/-- Without a block for it nothing is attached to a new directory. -/
theorem own_block_refused (hinode : w.file.inode i = directory_inode c mode)
    (hfree : w.file.TOTAL_UNALLOCATED_BLOCKS = 0) :
    ∃ r, Attach_Blocks c i 1 w = .ok (r, { w with errno := some .ENOSPC }) := by
  have hempty : (w.file.inode i).pointer_data_0 0 = 0 := by
    rw [hinode]
    rfl
  have hsub : sub_entries (w.file.inode i).pointer_data_0 12 = 0 := by
    simp [sub_entries, List.range_succ_eq_map, hempty]
  have hget : Get_Free_Blocks c w.file 1 = none := by
    simp [Get_Free_Blocks, Get_Free_Blocks_reserve, hfree]
  refine ⟨12, ?_⟩
  simp [Attach_Blocks, Attach_Blocks_level0, hsub, hget]

end Own_block

section Own_inode

variable {params : Create_params} (file_name : Path) (parent : Nat)
  (hlocate : Inode_locateGroup c n < c.TOTAL_GROUPS)

theorem count_freed (k : Nat) : ((setFreeInodeBitmap c fs n).gdt k).NUMBER_DIRECTORIES_GROUP =
    (fs.gdt k).NUMBER_DIRECTORIES_GROUP := by
  unfold setFreeInodeBitmap
  generalize Inode_locateGroup c n = g
  by_cases hk : k = g <;> simp [Image.setDescriptor, Image.setBitmap, hk]

/-- The group that `setDirInode` counts the directory in is there or not. -/
theorem setDirInode_eq (mode : Nat) (hcounted : n / c.INODES_PER_GROUP < c.TOTAL_GROUPS) :
    setDirInode c fs n mode = .ok (recount fs (n / c.INODES_PER_GROUP)
      (((fs.gdt (n / c.INODES_PER_GROUP)).NUMBER_DIRECTORIES_GROUP + 1) % 2 ^ 16) n
      (directory_inode c mode)) := by
  unfold setDirInode count_directory
  rw [if_pos hcounted]
  rfl

theorem setDirInode_uncounted (mode : Nat) (hnot : ¬ n / c.INODES_PER_GROUP < c.TOTAL_GROUPS) :
    setDirInode c fs n mode = .error .inode_group := by
  unfold setDirInode count_directory
  rw [if_neg hnot]
  rfl

include hlocate

theorem free_inode_eq : free_inode c fs n = .ok (setFreeInodeBitmap c fs n) := by
  unfold free_inode
  rw [if_pos hlocate]
  rfl

theorem create_inode_file (hfile : params.file = true) :
    ∃ w', create_inode c params file_name parent n w = .ok (0, w') := by
  unfold create_inode
  rw [Inode_Global_Read_eq hlocate, ok_bind, if_pos hfile]
  exact ⟨_, rfl⟩

variable (hdir : ¬ params.file = true)
include hdir

theorem create_inode_uncounted (hnot : ¬ n / c.INODES_PER_GROUP < c.TOTAL_GROUPS) :
    create_inode c params file_name parent n w = .error .inode_group := by
  unfold create_inode
  rw [Inode_Global_Read_eq hlocate, ok_bind, if_neg hdir, setDirInode_uncounted _ hnot, error_bind]

variable (hcounted : n / c.INODES_PER_GROUP < c.TOTAL_GROUPS) (herr : w.errno = none)
include hcounted herr

/-- A directory that there is a block for is created. -/
theorem create_inode_dir (hsize : Ext2_size c) (hpool : Pool c w.file) (hn : n < 2 ^ 32)
    (hfree : 0 < w.file.TOTAL_UNALLOCATED_BLOCKS) :
    ∃ w', create_inode c params file_name parent n w = .ok (0, w') := by
  obtain ⟨fs, hfs⟩ : ∃ fs, fs = recount w.file (n / c.INODES_PER_GROUP)
    (((w.file.gdt (n / c.INODES_PER_GROUP)).NUMBER_DIRECTORIES_GROUP + 1) % 2 ^ 16) n
    (directory_inode c params.mode) := ⟨_, rfl⟩
  have hinode : fs.inode n = directory_inode c params.mode := by
    rw [hfs, recount_inode, set_inode_self]
  have hblocks : Same_blocks c w.file fs := hfs ▸ same_blocks_recount
  obtain ⟨w₁, b, hattach, herrno, hext, hpool₁⟩ := first_block_attached (w := { w with file := fs })
    hsize (hblocks.pool hpool) hinode (by simp [herr]) (by rw [hblocks.total]; exact hfree)
  have hnospace : w₁.errno ≠ some .ENOSPC := by
    rw [herrno]
    simp [herr]
  obtain ⟨w₂, hbase⟩ := base_entries_attached hsize hpool₁ parent hext hn
  refine ⟨{ w₂ with errno := none }, ?_⟩
  unfold create_inode
  rw [Inode_Global_Read_eq hlocate, ok_bind, if_neg hdir, setDirInode_eq _ hcounted, ok_bind, ← hfs,
    hattach, ok_bind]
  dsimp only
  rw [if_neg hnospace, hbase, ok_bind]
  rfl

omit herr in
/-- Without a block for it a directory stays counted in its group. -/
theorem create_inode_traced (hfree : w.file.TOTAL_UNALLOCATED_BLOCKS = 0) :
    Ends (· ≠ .inode_group) (fun r => r.1 = 1 ∧
        (r.2.file.gdt (n / c.INODES_PER_GROUP)).NUMBER_DIRECTORIES_GROUP ≠
          (w.file.gdt (n / c.INODES_PER_GROUP)).NUMBER_DIRECTORIES_GROUP)
      (create_inode c params file_name parent n w) := by
  obtain ⟨fs, hfs⟩ : ∃ fs, fs = recount w.file (n / c.INODES_PER_GROUP)
    (((w.file.gdt (n / c.INODES_PER_GROUP)).NUMBER_DIRECTORIES_GROUP + 1) % 2 ^ 16) n
    (directory_inode c params.mode) := ⟨_, rfl⟩
  have hinode : fs.inode n = directory_inode c params.mode := by
    rw [hfs, recount_inode, set_inode_self]
  obtain ⟨r, hattach⟩ := own_block_refused (w := { w with file := fs }) hinode (by rw [hfs]; exact hfree)
  unfold create_inode
  rw [Inode_Global_Read_eq hlocate, ok_bind, if_neg hdir, setDirInode_eq _ hcounted, ok_bind, ← hfs,
    hattach, ok_bind]
  dsimp only
  rw [if_pos rfl, free_inode_eq hlocate, ok_bind]
  refine (ends_delete_entry.weaken fun e he => he.2).bind ?_
  intro fs' _ hsame
  refine .pure ⟨rfl, ?_⟩
  have hcount : (fs'.gdt (n / c.INODES_PER_GROUP)).NUMBER_DIRECTORIES_GROUP =
      ((w.file.gdt (n / c.INODES_PER_GROUP)).NUMBER_DIRECTORIES_GROUP + 1) % 2 ^ 16 := by
    rw [(hsame.gdt _).2.2.2, count_freed, hfs, count_recount, if_pos rfl]
  show (fs'.gdt (n / c.INODES_PER_GROUP)).NUMBER_DIRECTORIES_GROUP ≠ _
  omega

end Own_inode

/-- Some entry has room for one with the name. -/
def Roomy (name : Path) (ds : List (Nat × List entry_t)) : Prop :=
  ∃ d ∈ ds, ∃ e ∈ d.2, has_room (create_entry name 0) e

/-- Where no entry has room the walk of the blocks ends without a place. -/
theorem full_refuses {name : Path} (h : Directory c live p ds fs) (n : Nat) (hfull : ¬ Roomy name ds) :
    attach_blocks c (flat c fs) (create_entry name n) (ds.map Prod.fst) = .ok none := by
  have hnone : ∀ d ∈ ds, ∀ e ∈ d.2, ¬ has_room (create_entry name n) e :=
    fun d hd e he hroom => hfull ⟨d, hd, e, he, hroom⟩
  have hahead := attach_blocks_ahead (l := []) h.chain h.linked.positive hnone
  rwa [List.append_nil] at hahead

/-- Only the last inode of all is free. -/
def Last_only (c : Superblock_constants) (fs : Image) : Prop :=
  ∀ g < c.TOTAL_GROUPS, ∀ k < c.INODES_PER_GROUP, inode_bit fs g k = false →
    inode_number c g k = c.TOTAL_GROUPS * c.INODES_PER_GROUP

/-- The descriptor for the number of an inode is none of the table for the last inode. -/
theorem last_only_iff {g k : Nat} (hfirst : First_free c fs g k) :
    Last_only c fs ↔ ¬ inode_number c g k / c.INODES_PER_GROUP < c.TOTAL_GROUPS := by
  have hpos := c.inodes_pos
  have hbit := hfirst.bit_lt
  have hgroup : (g + 1) * c.INODES_PER_GROUP ≤ c.TOTAL_GROUPS * c.INODES_PER_GROUP :=
    Nat.mul_le_mul_right _ hfirst.group_lt
  have hsum : (g + 1) * c.INODES_PER_GROUP = g * c.INODES_PER_GROUP + c.INODES_PER_GROUP :=
    Nat.succ_mul ..
  rw [Nat.div_lt_iff_lt_mul hpos]
  constructor
  · intro hlast
    rw [hlast g hfirst.group_lt k hbit hfirst.clear]
    exact lt_irrefl _
  · intro hnot h hh j hj hclear
    unfold inode_number at hnot ⊢
    have hge : g ≤ h := by
      by_contra hlt
      rw [hfirst.before h (by omega) j hj] at hclear
      cases hclear
    have hmul : (h + 1) * c.INODES_PER_GROUP ≤ c.TOTAL_GROUPS * c.INODES_PER_GROUP :=
      Nat.mul_le_mul_right _ hh
    have hsum' : (h + 1) * c.INODES_PER_GROUP = h * c.INODES_PER_GROUP + c.INODES_PER_GROUP :=
      Nat.succ_mul ..
    have hmul' : g * c.INODES_PER_GROUP ≤ h * c.INODES_PER_GROUP := Nat.mul_le_mul_right _ hge
    have hgh : g = h := by
      by_contra hne
      have hlt : (g + 1) * c.INODES_PER_GROUP ≤ h * c.INODES_PER_GROUP :=
        Nat.mul_le_mul_right _ (by omega)
      omega
    subst hgh
    have hle := hfirst.first j hj hclear
    omega

section First

variable {g k : Nat} (hfirst : First_free c fs g k) (hcons : Inodes_consistent c fs)
include hfirst hcons

theorem First_free.located : Inode_locateGroup c (inode_number c g k) < c.TOTAL_GROUPS := by
  rw [locate_inode_number hcons.numbers_fit hfirst.group_lt hfirst.bit_lt]
  exact hfirst.group_lt

theorem First_free.word : inode_number c g k < 2 ^ 32 := by
  have hbit := hfirst.bit_lt
  have hfits := hcons.numbers_fit
  have hgroup : (g + 1) * c.INODES_PER_GROUP ≤ c.TOTAL_GROUPS * c.INODES_PER_GROUP :=
    Nat.mul_le_mul_right _ hfirst.group_lt
  rw [Nat.succ_mul] at hgroup
  unfold inode_number
  omega

/-- Directories are as they were when an inode has been taken. -/
theorem First_free.taken (hpool : Pool c fs) (h : Directory c live p ds fs) :
    Pool c (take_inode fs g k) ∧ Directory c live p ds (take_inode fs g k) ∧
      ∀ b, IsBlock c b → used c (take_inode fs g k) b = used c fs b := by
  have hsame : Same_blocks c fs (take_inode fs g k) :=
    same_blocks_set_inode_bit hcons hfirst.group_lt
  have hused : ∀ b, IsBlock c b → used c (take_inode fs g k) b = used c fs b :=
    fun b hb => hsame.used hb
  exact ⟨hsame.pool hpool, h.congr (by rfl) (by rfl) hused, hused⟩

end First

section Request

variable {names : List Path} {name : Path} {params : Create_params} (hsize : Ext2_size c)
  (hpool : Pool c w.file) (hcons : Inodes_consistent c w.file)
  (hnames : ∀ d ∈ names ++ [name], Component d)
  (hdirs : Directories_along c w.file ROOT_INODE_NUMBER (names ++ [name]))
  (hwalk : Leads c w.file ROOT_INODE_NUMBER names p)
  (hmissing : ∀ j, ¬ Leads c w.file ROOT_INODE_NUMBER (names ++ [name]) j)
  (hpath : params.path = canonical (names ++ [name]))
include hsize hpool hnames hdirs hwalk hmissing hpath

/-- Without an inode there is nothing to undo. -/
theorem create_file_dir_no_inode (hnone : w.file.TOTAL_UNALLOCATED_INODES = 0) :
    create_file_dir c params w = .ok (1, ⟨w.file, some .ENOSPC⟩) := by
  have hfound := (inode_of_file_walk hsize hpool hnames hdirs).2.mpr hmissing
  obtain ⟨hparent, hlookup⟩ := parent_found (w := ⟨w.file, none⟩) hsize hpool hnames hdirs hwalk
  have hget : Get_Free_Inodes c w.file 1 = none := by
    unfold Get_Free_Inodes
    rw [if_pos (by omega)]
  unfold create_file_dir
  rw [hpath, hfound, ok_bind]
  dsimp only
  rw [if_neg (by simp)]
  unfold create_entry_of
  rw [hpath, hparent, ok_bind]
  dsimp only
  rw [hlookup, ok_bind]
  dsimp only
  rw [hget]
  rfl

include hcons

/-- The inode is taken before its entry is attached. -/
theorem create_file_dir_inode (hsome : w.file.TOTAL_UNALLOCATED_INODES ≠ 0) :
    ∃ g k, First_free c w.file g k ∧ create_file_dir c params w =
      (attach_entry c p (create_entry name (inode_number c g k))
          (w.file.TOTAL_UNALLOCATED_BLOCKS + 1) ⟨take_inode w.file g k, none⟩ >>= fun r =>
        if r.1 then create_inode c params name p (inode_number c g k) r.2
        else free_inode c r.2.file (inode_number c g k) >>= fun fs =>
          pure (1, { r.2 with file := fs })) := by
  have hfound := (inode_of_file_walk hsize hpool hnames hdirs).2.mpr hmissing
  obtain ⟨hparent, hlookup⟩ := parent_found (w := ⟨w.file, none⟩) hsize hpool hnames hdirs hwalk
  have hget : ∃ r, Get_Free_Inodes c w.file 1 = some r := by
    unfold Get_Free_Inodes
    rw [if_neg (by omega)]
    exact ⟨_, rfl⟩
  obtain ⟨⟨l, fs⟩, hget⟩ := hget
  obtain ⟨g, k, hfirst, rfl, rfl⟩ := Get_Free_Inodes_one hcons hget
  refine ⟨g, k, hfirst, ?_⟩
  unfold create_file_dir
  rw [hpath, hfound, ok_bind]
  dsimp only
  rw [if_neg (by simp)]
  unfold create_entry_of
  rw [hpath, hparent, ok_bind]
  dsimp only
  rw [hlookup, ok_bind]
  dsimp only
  rw [hget]
  dsimp only
  rw [file_name_canonical hnames, ok_bind]
  rfl

end Request

/-- A file gets no block. A directory gets one of the `free` ones, and where its inode is the last
of all the descriptor that it is counted in is not there. -/
def Own_block (c : Superblock_constants) (file : Bool) (fs : Image) (free : Nat) : Prop :=
  file = true ∨ 0 < free ∨ Last_only c fs

/-- There is no inode; or there is room for the entry and then a block for the directory; or no
block has room and the next one can be attached, or there is none and no indirect block is due. -/
def Undone (c : Superblock_constants) (file : Bool) (name : Path) (ds : List (Nat × List entry_t))
    (fs : Image) : Prop :=
  fs.TOTAL_UNALLOCATED_INODES = 0 ∨
  Roomy name ds ∧ Own_block c file fs fs.TOTAL_UNALLOCATED_BLOCKS ∨
  ¬ Roomy name ds ∧ (Attachable c (create_entry name 0) ds fs ∧
      Own_block c file fs (fs.TOTAL_UNALLOCATED_BLOCKS - (heads c ds.length + 1)) ∨
    heads c ds.length = 0 ∧ fs.TOTAL_UNALLOCATED_BLOCKS = 0)

section Given_inode

variable {name : Path} {params : Create_params} {g k : Nat} (hsize : Ext2_size c)
  (hpool : Pool c w.file) (hcons : Inodes_consistent c w.file) (hfirst : First_free c w.file g k)
  (hrun : create_file_dir c params w =
    (attach_entry c p (create_entry name (inode_number c g k))
        (w.file.TOTAL_UNALLOCATED_BLOCKS + 1) ⟨take_inode w.file g k, none⟩ >>= fun r =>
      if r.1 then create_inode c params name p (inode_number c g k) r.2
      else free_inode c r.2.file (inode_number c g k) >>= fun fs =>
        pure (1, { r.2 with file := fs })))
include hcons hfirst hrun

include hsize in
/-- Once the entry is attached all depends on the block of the directory. -/
theorem no_trace_attached
    (hattach : attach_entry c p (create_entry name (inode_number c g k))
      (w.file.TOTAL_UNALLOCATED_BLOCKS + 1) ⟨take_inode w.file g k, none⟩ = .ok (true, w'))
    (hpool' : Pool c w'.file) : No_trace c params p w ↔
      Own_block c params.file w.file w'.file.TOTAL_UNALLOCATED_BLOCKS := by
  have hlocate := hfirst.located hcons
  obtain ⟨hsame, herr⟩ := ends_attach_entry.of_ok hattach
  have herr : w'.errno = none := herr rfl rfl
  unfold No_trace Own_block
  rw [hrun, hattach, ok_bind, if_pos rfl, last_only_iff hfirst]
  by_cases hfile : params.file = true
  · obtain ⟨w'', hdone⟩ := create_inode_file (w := w') name p hlocate hfile
    rw [hdone]
    exact iff_of_true (.ok fun h => absurd h zero_ne_one) (Or.inl hfile)
  by_cases hcounted : inode_number c g k / c.INODES_PER_GROUP < c.TOTAL_GROUPS
  · rcases Nat.eq_zero_or_pos w'.file.TOTAL_UNALLOCATED_BLOCKS with hzero | hfree
    · have htraced := create_inode_traced (w := w') name p hlocate hfile
        hcounted hzero
      refine iff_of_false (fun hends => ?_) (by simp [hfile, hzero, hcounted])
      cases hdone : create_inode c params name p (inode_number c g k) w' with
      | error e => exact htraced.of_error hdone (hends.of_error hdone)
      | ok r =>
        obtain ⟨hone, hcount⟩ := htraced.of_ok hdone
        refine absurd ?_ hcount
        have huntraced := hends.of_ok hdone hone
        rw [huntraced.gdt, (hsame.gdt _).2.2.2]
        exact (count_taken _).symm
    · obtain ⟨w'', hdone⟩ := create_inode_dir (w := w') name p hlocate hfile
        hcounted herr hsize hpool' (hfirst.word hcons) hfree
      rw [hdone]
      exact iff_of_true (.ok fun h => absurd h zero_ne_one) (Or.inr (Or.inl hfree))
  · rw [create_inode_uncounted name p hlocate hfile hcounted]
    exact iff_of_true (.error rfl) (Or.inr (Or.inr hcounted))

/-- An entry that is refused gives its inode back. -/
theorem create_refused
    (hattach : attach_entry c p (create_entry name (inode_number c g k))
      (w.file.TOTAL_UNALLOCATED_BLOCKS + 1) ⟨take_inode w.file g k, none⟩ = .ok (false, w')) :
    create_file_dir c params w =
      .ok (1, { w' with file := setFreeInodeBitmap c w'.file (inode_number c g k) }) := by
  rw [hrun, hattach, ok_bind, if_neg (by simp),
    free_inode_eq (hfirst.located hcons)]
  rfl

/-- With no block at all the inode is all there is to undo. -/
theorem no_trace_untouched (hattach : attach_entry c p (create_entry name (inode_number c g k))
      (w.file.TOTAL_UNALLOCATED_BLOCKS + 1) ⟨take_inode w.file g k, none⟩ =
        .ok (false, ⟨take_inode w.file g k, some .ENOSPC⟩)) :
    No_trace c params p w := by
  unfold No_trace
  rw [create_refused hcons hfirst hrun hattach]
  refine .ok fun _ => ?_
  dsimp only
  rw [free_take hcons hfirst]
  exact .refl

/-- A block that stays with the parent is a trace. -/
theorem trace_of_block (hattach : attach_entry c p (create_entry name (inode_number c g k))
      (w.file.TOTAL_UNALLOCATED_BLOCKS + 1) ⟨take_inode w.file g k, none⟩ = .ok (false, w'))
    (hblock : IsBlock c b) (hfree : used c w.file b = false) (hused : used c w'.file b = true) :
    ¬ No_trace c params p w := by
  intro hno
  unfold No_trace at hno
  rw [create_refused hcons hfirst hrun hattach] at hno
  have huntraced := hno.of_ok rfl rfl
  have htake := take_inode_consistent hcons hfirst.group_lt hfirst.bit_lt hfirst.clear
  obtain ⟨hsame, -⟩ := ends_attach_entry.of_ok hattach
  have hcons' : Inodes_consistent c w'.file := hsame.consistent htake
  have hkept : used c (setFreeInodeBitmap c w'.file (inode_number c g k)) b = used c w'.file b := by
    rw [setFreeInodeBitmap_eq hcons' hfirst.group_lt hfirst.bit_lt]
    exact (same_blocks_set_inode_bit hcons' hfirst.group_lt).used hblock
  have heq := huntraced.used b hblock
  dsimp only at heq
  rw [hkept, hused, hfree] at heq
  cases heq

variable (h : Directory c live p ds w.file) (htidy : Tidy c w.file p)
include hsize hpool h

omit htidy in
theorem no_trace_roomy (hroom : Roomy name ds) : No_trace c params p w ↔
    Own_block c params.file w.file w.file.TOTAL_UNALLOCATED_BLOCKS := by
  obtain ⟨hpool₁, h₁, hused₁⟩ := hfirst.taken hcons hpool h
  obtain ⟨m, hput⟩ : ∃ m, attach_blocks c (flat c (take_inode w.file g k))
      (create_entry name (inode_number c g k)) (ds.map Prod.fst) = .ok (some m) :=
    attach_blocks_put h₁.chain h₁.linked.positive hroom
  have hattach : attach_entry c p (create_entry name (inode_number c g k))
      (w.file.TOTAL_UNALLOCATED_BLOCKS + 1) ⟨take_inode w.file g k, none⟩ =
        .ok (true, ⟨set_flat c (take_inode w.file g k) m, none⟩) :=
    attach_entry_put (w := ⟨take_inode w.file g k, none⟩) h₁.linked.extent hsize hpool₁ hput
  have hpool' : Pool c (set_flat c (take_inode w.file g k) m) := hpool₁.congr rfl rfl rfl
  have hiff := no_trace_attached hsize hcons hfirst hrun hattach hpool'
  exact hiff

include htidy

theorem no_trace_extended (hfull : ¬ Roomy name ds)
    (hok : Attachable c (create_entry name 0) ds w.file) : No_trace c params p w ↔
    Own_block c params.file w.file
      (w.file.TOTAL_UNALLOCATED_BLOCKS - (heads c ds.length + 1)) := by
  obtain ⟨hpool₁, h₁, hused₁⟩ := hfirst.taken hcons hpool h
  obtain ⟨b, before, e, after, hblock, hfree, hcard, hclean, hvacant⟩ :=
    hok.congr (by rfl) hused₁
  have hok₁ : Attachable c (create_entry name (inode_number c g k)) ds (take_inode w.file g k) :=
    ⟨b, before, e, after, hblock, hfree, hcard, hclean, hvacant.chain, hvacant.header,
      hvacant.passed, hvacant.room, hvacant.unused, hvacant.free⟩
  have hnone : ∀ d ∈ ds, ∀ e ∈ d.2, ¬ has_room (create_entry name (inode_number c g k)) e :=
    fun d hd e he hroom => hfull ⟨d, hd, e, he, hroom⟩
  obtain ⟨w', b', before', e', after', -, hpool', -, -, -, hattach, htotal⟩ :=
    h₁.extended_put (w := ⟨take_inode w.file g k, none⟩) hsize hpool₁ (htidy.congr (by rfl) (by rfl))
      (by simp) hnone hok₁
  have hleft : w'.file.TOTAL_UNALLOCATED_BLOCKS =
      w.file.TOTAL_UNALLOCATED_BLOCKS - (heads c ds.length + 1) := by
    have htaken : (take_inode w.file g k).TOTAL_UNALLOCATED_BLOCKS =
      w.file.TOTAL_UNALLOCATED_BLOCKS := rfl
    dsimp only at htotal
    omega
  rw [no_trace_attached hsize hcons hfirst hrun hattach (Pool.congr hpool' rfl rfl rfl), ← hleft]
  exact Iff.rfl

theorem no_trace_none (hfull : ¬ Roomy name ds) (hheads : heads c ds.length = 0)
    (hzero : w.file.TOTAL_UNALLOCATED_BLOCKS = 0) : No_trace c params p w := by
  obtain ⟨hpool₁, h₁, hused₁⟩ := hfirst.taken hcons hpool h
  obtain ⟨r, hnone⟩ := h₁.none_left (w := ⟨take_inode w.file g k, none⟩) hsize hpool₁
    (htidy.congr (by rfl) (by rfl)) (by simp) hheads hzero
  have hahead := full_refuses h₁ (inode_number c g k) hfull
  have hattach : attach_entry c p (create_entry name (inode_number c g k))
      (w.file.TOTAL_UNALLOCATED_BLOCKS + 1) ⟨take_inode w.file g k, none⟩ = .ok (false, _) :=
    attach_entry_refused (w := ⟨take_inode w.file g k, none⟩) h₁.linked.extent hsize hpool₁ hahead
      hnone rfl
  exact no_trace_untouched hcons hfirst hrun hattach

/-- Indirect blocks are kept when there are none for what they should point to. -/
theorem trace_few (hfull : ¬ Roomy name ds) (hclean : Next_clean c ds.length w.file)
    (hfew : w.file.TOTAL_UNALLOCATED_BLOCKS ≤ heads c ds.length) (hheads : 0 < heads c ds.length) :
    ¬ No_trace c params p w := by
  obtain ⟨hpool₁, h₁, hused₁⟩ := hfirst.taken hcons hpool h
  have hahead := full_refuses h₁ (inode_number c g k) hfull
  rcases h₁.short (w := ⟨take_inode w.file g k, none⟩) hsize hpool₁
    (htidy.congr (by rfl) (by rfl)) (by simp) (hclean.congr (by rfl) hused₁) hfew hheads with
    hnull | ⟨r, w', hnone, herr, b, hblock, hfree, hused⟩
  · have hattach : attach_entry c p (create_entry name (inode_number c g k))
        (w.file.TOTAL_UNALLOCATED_BLOCKS + 1) ⟨take_inode w.file g k, none⟩ = .error .null :=
      attach_entry_error (w := ⟨take_inode w.file g k, none⟩) h₁.linked.extent hsize hpool₁ hahead hnull
    intro hno
    unfold No_trace at hno
    rw [hrun, hattach, error_bind] at hno
    cases hno.of_error rfl
  · have hattach : attach_entry c p (create_entry name (inode_number c g k))
        (w.file.TOTAL_UNALLOCATED_BLOCKS + 1) ⟨take_inode w.file g k, none⟩ = .ok (false, w') :=
      attach_entry_refused (w := ⟨take_inode w.file g k, none⟩) h₁.linked.extent hsize hpool₁ hahead
        hnone herr
    exact trace_of_block hcons hfirst hrun hattach hblock ((hused₁ b hblock).symm.trans hfree) hused

end Given_inode

/-- A creation that fails for want of inodes or blocks is undone just where it has nothing to undo
but the inode. Where the next blocks have something in them already, the second part leaves open what
the walk through them comes to. -/
theorem create_file_dir_no_trace_iff {names : List Path} {name : Path} {params : Create_params}
    (hsize : Ext2_size c) (hpool : Pool c w.file) (hcons : Inodes_consistent c w.file)
    (hnames : ∀ d ∈ names ++ [name], Component d)
    (hdirs : Directories_along c w.file ROOT_INODE_NUMBER (names ++ [name]))
    (hwalk : Leads c w.file ROOT_INODE_NUMBER names p)
    (hmissing : ∀ j, ¬ Leads c w.file ROOT_INODE_NUMBER (names ++ [name]) j)
    (hpath : params.path = canonical (names ++ [name])) (h : Directory c live p ds w.file)
    (htidy : Tidy c w.file p) :
    (Undone c params.file name ds w.file → No_trace c params p w) ∧
    ((¬ Roomy name ds → Next_clean c ds.length w.file ∧
        (heads c ds.length < w.file.TOTAL_UNALLOCATED_BLOCKS →
          Attachable c (create_entry name 0) ds w.file)) →
      No_trace c params p w → Undone c params.file name ds w.file) := by
  by_cases hnone : w.file.TOTAL_UNALLOCATED_INODES = 0
  · refine ⟨fun _ => ?_, fun _ _ => Or.inl hnone⟩
    unfold No_trace
    rw [create_file_dir_no_inode hsize hpool hnames hdirs hwalk hmissing hpath hnone]
    exact .ok fun _ => .refl
  obtain ⟨g, k, hfirst, hrun⟩ :=
    create_file_dir_inode hsize hpool hcons hnames hdirs hwalk hmissing hpath hnone
  by_cases hroom : Roomy name ds
  · have hiff := no_trace_roomy hsize hpool hcons hfirst hrun h hroom
    refine ⟨?_, fun _ hno => Or.inr (Or.inl ⟨hroom, hiff.mp hno⟩)⟩
    rintro (hzero | ⟨-, hown⟩ | ⟨hfull, -⟩)
    · exact absurd hzero hnone
    · exact hiff.mpr hown
    · exact absurd hroom hfull
  · constructor
    · rintro (hzero | ⟨hyes, -⟩ | ⟨-, ⟨hok, hown⟩ | ⟨hheads, hzero⟩⟩)
      · exact absurd hzero hnone
      · exact absurd hyes hroom
      · exact (no_trace_extended hsize hpool hcons hfirst hrun h htidy hroom hok).mpr hown
      · exact no_trace_none hsize hpool hcons hfirst hrun h htidy hroom hheads hzero
    · intro hblocks hno
      obtain ⟨hclean, hok⟩ := hblocks hroom
      refine Or.inr (Or.inr ⟨hroom, ?_⟩)
      by_cases hmore : heads c ds.length < w.file.TOTAL_UNALLOCATED_BLOCKS
      · have hok := hok hmore
        exact Or.inl ⟨hok,
          (no_trace_extended hsize hpool hcons hfirst hrun h htidy hroom hok).mp hno⟩
      · have hheads : heads c ds.length = 0 := by
          by_contra hne
          exact trace_few hsize hpool hcons hfirst hrun h htidy hroom hclean (by omega) (by omega) hno
        exact Or.inr ⟨hheads, by omega⟩

/-- The root and `a` when all the blocks are in use. -/
def no_blocks_left : Image :=
  { root_and_a false with
    TOTAL_UNALLOCATED_BLOCKS := 0
    gdt := fun _ => ⟨2, 1, 0, 6, 2⟩
    bitmap := fun a k => a = 2 ∨ (a = 1 ∧ (k = 1 ∨ k = 4)) }

theorem no_blocks_left_pool : Pool (one_group 0 (by decide)) no_blocks_left := by
  refine ⟨?_, ?_, by decide, ?_⟩
  · intro g hg
    obtain rfl : g = 0 := Nat.lt_one_iff.mp hg
    rfl
  · intro g hg
    obtain rfl : g = 0 := Nat.lt_one_iff.mp hg
    decide
  · intro b hb
    have hle : b ≤ 8 := hb.2
    show b * 1024 < 2 ^ 32
    omega

theorem no_blocks_left_consistent : Inodes_consistent (one_group 0 (by decide)) no_blocks_left := by
  have hone : ∀ g < (one_group 0 (by decide)).TOTAL_GROUPS, g = 0 :=
    fun g hg => Nat.lt_one_iff.mp hg
  refine ⟨by decide, by decide, ?_, ?_, ?_, by decide⟩
  · intro g hg k hk hne
    exact absurd ((hone g hg).trans (hone k hk).symm) hne
  · intro g _ k _
    show (1 : Nat) ≠ 2
    decide
  · intro g hg
    obtain rfl := hone g hg
    decide

theorem no_blocks_left_root : Directory (one_group 0 (by decide)) (fun j => j = 2) 2
    [(3, small_directory 2 ⟨5, 1000, 1, 2, [97]⟩)] no_blocks_left := by
  have hsound : ∀ e ∈ small_directory 2 ⟨5, 1000, 1, 2, [97]⟩,
      e.entry_len % 4 = 0 ∧ get_padded_size e ≤ e.entry_len := by decide
  have hchain : Chain (flat (one_group 0 (by decide)) no_blocks_left) 4096 3072
    (small_directory 2 ⟨5, 1000, 1, 2, [97]⟩) := ⟨rfl, rfl, rfl, rfl⟩
  exact one_block_directory rfl (Or.inl rfl) ⟨by decide, by decide⟩ (by decide) hchain
    (fun e he => ⟨(hsound e he).1, (hsound e he).2⟩) (by decide)

theorem no_blocks_left_tidy : Tidy (one_group 0 (by decide)) no_blocks_left 2 := by
  intro s path hvalid hlt hne
  have hinode : no_blocks_left.inode 2 = one_block_inode (one_group 0 (by decide)) 3 := rfl
  obtain ⟨heq, -⟩ := one_block_ptr (x := ⟨2, s, path⟩) hinode ⟨rfl, hvalid⟩ hne
  cases heq
  exact absurd hlt (by decide)

theorem no_blocks_left_along : Directories_along (one_group 0 (by decide)) no_blocks_left
    ROOT_INODE_NUMBER ([] ++ [[98]]) := by
  intro front rest hsplit hrest j hj
  cases front with
  | nil =>
    obtain rfl := Leads.nil_iff.mp hj
    exact ⟨_, _, _, no_blocks_left_root, rfl, by decide⟩
  | cons a front =>
    have hlen := congrArg List.length hsplit
    have hpos := List.length_pos_of_ne_nil hrest
    simp only [List.length_append, List.length_cons, List.length_nil] at hlen
    omega

/-- There is no `b`. -/
theorem no_blocks_left_missing (j : Nat) :
    ¬ Leads (one_group 0 (by decide)) no_blocks_left ROOT_INODE_NUMBER ([] ++ [[98]]) j := by
  intro hj
  have hroot : Directory_at (one_group 0 (by decide)) no_blocks_left 2 _ :=
    ⟨_, _, no_blocks_left_root, rfl, by decide⟩
  obtain ⟨e, he, hname, -⟩ := (Leads.cons_iff (Or.inl rfl) no_blocks_left_pool hroot).mp hj
  have hnone : ∀ e ∈ listing [(3, small_directory 2 ⟨5, 1000, 1, 2, [97]⟩)],
    e.file_name ≠ [98] := by decide
  exact hnone e he hname

theorem no_blocks_left_names : ∀ d ∈ ([] : List Path) ++ [[98]], Component d := by
  intro d hd
  obtain rfl : d = [98] := List.mem_singleton.mp hd
  exact ⟨by decide, by decide⟩

/-- A file needs no block. -/
theorem file_without_blocks :
    No_trace (one_group 0 (by decide)) ⟨[47, 98], 0, true⟩ 2 ⟨no_blocks_left, none⟩ := by
  refine (create_file_dir_no_trace_iff (Or.inl rfl) no_blocks_left_pool no_blocks_left_consistent
    no_blocks_left_names no_blocks_left_along .here no_blocks_left_missing rfl no_blocks_left_root
    no_blocks_left_tidy).1 (Or.inr (Or.inl ⟨?_, Or.inl rfl⟩))
  exact ⟨_, List.mem_singleton_self _, ⟨5, 1000, 1, 2, [97]⟩, by decide, by decide⟩

/-- A directory that gets no block is counted in its group all the same. -/
theorem directory_stays_counted : ∃ (live : Nat → Prop) (ds : List (Nat × List entry_t))
    (w : Worker_state), Pool (one_group 0 (by decide)) w.file ∧
      Inodes_consistent (one_group 0 (by decide)) w.file ∧
      Directories_along (one_group 0 (by decide)) w.file ROOT_INODE_NUMBER ([] ++ [[98]]) ∧
      (∀ j, ¬ Leads (one_group 0 (by decide)) w.file ROOT_INODE_NUMBER ([] ++ [[98]]) j) ∧
      Directory (one_group 0 (by decide)) live 2 ds w.file ∧
      Tidy (one_group 0 (by decide)) w.file 2 ∧
      ¬ No_trace (one_group 0 (by decide)) ⟨[47, 98], 0, false⟩ 2 w := by
  refine ⟨_, _, ⟨no_blocks_left, none⟩, no_blocks_left_pool, no_blocks_left_consistent,
    no_blocks_left_along, no_blocks_left_missing, no_blocks_left_root, no_blocks_left_tidy,
    fun hno => ?_⟩
  have hrun : (create_file_dir (one_group 0 (by decide)) ⟨[47, 98], 0, false⟩
      ⟨no_blocks_left, none⟩).toOption.map
        (fun r => (r.1, (r.2.file.gdt 0).NUMBER_DIRECTORIES_GROUP)) = some (1, 3) := by
    decide +kernel
  unfold No_trace at hno
  cases hdone : create_file_dir (one_group 0 (by decide)) ⟨[47, 98], 0, false⟩
      ⟨no_blocks_left, none⟩ with
  | error e =>
    rw [hdone] at hrun
    cases hrun
  | ok r =>
    rw [hdone] at hrun
    obtain ⟨hone, hcount⟩ := Prod.mk.inj (Option.some.inj hrun)
    rw [(hno.of_ok hdone hone).gdt] at hcount
    exact absurd hcount (by decide)

end LaLiga.Rfs
