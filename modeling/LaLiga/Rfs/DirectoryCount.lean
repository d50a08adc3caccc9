import LaLiga.Lib.Transition
import LaLiga.Rfs.Allocation
import LaLiga.Rfs.DirectoryOperations
import LaLiga.Rfs.FreeInodes

/-! The directories of each group, as its descriptor counts them. -/
namespace LaLiga.Rfs

open LaLiga.Lib

variable (c : Superblock_constants)

/-- An allocated inode that is a directory. -/
def directory_bit (fs : Image) (g i : Nat) : Bool :=
  inode_bit fs g i && decide ((fs.inode (inode_number c g i)).mode &&& EXT2_IFDIR ≠ 0)

/-- The directories of the group `g`. -/
def directories_in_group (fs : Image) (g : Nat) : Nat :=
  ∑ i ∈ Finset.range c.INODES_PER_GROUP, if directory_bit c fs g i then 1 else 0

/-- Those that are not the inode `n`. -/
def directories_but (fs : Image) (n g : Nat) : Nat :=
  ∑ i ∈ Finset.range c.INODES_PER_GROUP,
    if directory_bit c fs g i ∧ inode_number c g i ≠ n then 1 else 0

/-- Every descriptor has the number of directories of its group. -/
def Directories_counted (fs : Image) : Prop :=
  ∀ g < c.TOTAL_GROUPS, (fs.gdt g).NUMBER_DIRECTORIES_GROUP = directories_in_group c fs g

/-- The same without the inode `n`. -/
def Counted_but (fs : Image) (n : Nat) : Prop :=
  ∀ g < c.TOTAL_GROUPS, (fs.gdt g).NUMBER_DIRECTORIES_GROUP = directories_but c fs n g

variable {c} {fs fs' : Image} {g h i j n : Nat} {v : Bool} {count total : Nat}

/-- `setDirInode` finds the group of an inode unless it is the last one of it. -/
theorem group_of_setDirInode (hi : i < c.INODES_PER_GROUP) (hlast : i + 1 ≠ c.INODES_PER_GROUP) :
    inode_number c g i / c.INODES_PER_GROUP = g := by
  have hnum : inode_number c g i = c.INODES_PER_GROUP * g + (i + 1) := by
    rw [inode_number, Nat.mul_comm]
    rfl
  rw [hnum, Nat.mul_add_div c.inodes_pos, Nat.div_eq_of_lt (by omega), Nat.add_zero]

/-- The directories of a group are those without an inode of it, and that one. -/
theorem directories_split (c : Superblock_constants) (fs : Image) (g : Nat)
    (hi : i < c.INODES_PER_GROUP) :
    directories_in_group c fs g = directories_but c fs (inode_number c g i) g +
      if directory_bit c fs g i then 1 else 0 := by
  have hsum := sum_change (S := Finset.range c.INODES_PER_GROUP)
    (F := fun j => if directory_bit c fs g j ∧ inode_number c g j ≠ inode_number c g i then 1 else 0)
    (G := fun j => if directory_bit c fs g j then 1 else 0) (Finset.mem_range.mpr hi) (by
      intro j hj hne
      have : inode_number c g j ≠ inode_number c g i := fun heq =>
        hne (inode_number_inj (Finset.mem_range.mp hj) hi heq).2
      simp [this])
  simpa [directories_in_group, directories_but] using hsum

theorem directories_but_other (hi : i < c.INODES_PER_GROUP) (hne : h ≠ g) :
    directories_but c fs (inode_number c g i) h = directories_in_group c fs h := by
  apply Finset.sum_congr rfl
  intro j hj
  have : inode_number c h j ≠ inode_number c g i := fun heq =>
    hne (inode_number_inj (Finset.mem_range.mp hj) hi heq).1
  simp [this]

theorem directories_le (c : Superblock_constants) (fs : Image) (g : Nat) : directories_in_group c fs g ≤ c.INODES_PER_GROUP := by
  calc directories_in_group c fs g
      ≤ ∑ _i ∈ Finset.range c.INODES_PER_GROUP, 1 :=
        Finset.sum_le_sum fun i _ => by split_ifs <;> omega
    _ = c.INODES_PER_GROUP := by simp

/-- An inode that is no directory does not count. -/
theorem counted_but_iff (hg : g < c.TOTAL_GROUPS) (hi : i < c.INODES_PER_GROUP)
    (hbit : directory_bit c fs g i = false) :
    Counted_but c fs (inode_number c g i) ↔ Directories_counted c fs := by
  have heq : ∀ h, directories_but c fs (inode_number c g i) h = directories_in_group c fs h := by
    intro h
    by_cases hh : h = g
    · subst hh
      rw [directories_split _ _ _ hi, hbit]
      simp
    · exact directories_but_other hi hh
  simp only [Counted_but, Directories_counted, heq]

theorem Counted_but.congr (h : Counted_but c fs n)
    (hcount : ∀ g < c.TOTAL_GROUPS,
      (fs'.gdt g).NUMBER_DIRECTORIES_GROUP = (fs.gdt g).NUMBER_DIRECTORIES_GROUP)
    (hbit : ∀ g < c.TOTAL_GROUPS, ∀ i < c.INODES_PER_GROUP, inode_number c g i ≠ n →
      directory_bit c fs' g i = directory_bit c fs g i) : Counted_but c fs' n := by
  intro g hg
  rw [hcount g hg, h g hg]
  apply Finset.sum_congr rfl
  intro i hi
  by_cases hn : inode_number c g i = n
  · simp [hn]
  · rw [hbit g hg i (Finset.mem_range.mp hi) hn]

/-- One more directory, and one more counted in its group. -/
theorem counted_insert (hg : g < c.TOTAL_GROUPS) (hi : i < c.INODES_PER_GROUP)
    (hfits : c.INODES_PER_GROUP < 2 ^ 16) (h : Counted_but c fs (inode_number c g i))
    (hbit : directory_bit c fs' g i = true)
    (hbits : ∀ h < c.TOTAL_GROUPS, ∀ j < c.INODES_PER_GROUP, inode_number c h j ≠ inode_number c g i →
      directory_bit c fs' h j = directory_bit c fs h j)
    (hcount : ∀ h < c.TOTAL_GROUPS, (fs'.gdt h).NUMBER_DIRECTORIES_GROUP =
      if h = g then ((fs.gdt g).NUMBER_DIRECTORIES_GROUP + 1) % 2 ^ 16
      else (fs.gdt h).NUMBER_DIRECTORIES_GROUP) : Directories_counted c fs' := by
  have hbut : ∀ h < c.TOTAL_GROUPS, directories_but c fs' (inode_number c g i) h =
      directories_but c fs (inode_number c g i) h := by
    intro h hh
    apply Finset.sum_congr rfl
    intro j hj
    by_cases hn : inode_number c h j = inode_number c g i
    · simp [hn]
    · rw [hbits h hh j (Finset.mem_range.mp hj) hn]
  intro k hk
  rw [hcount k hk]
  by_cases hkg : k = g
  · subst hkg
    have hle := directories_le c fs' k
    rw [directories_split _ _ _ hi, hbit, if_pos rfl, hbut k hk] at hle
    rw [if_pos rfl, directories_split _ _ _ hi, hbit, if_pos rfl, hbut k hk, h k hk,
      Nat.mod_eq_of_lt (by omega)]
  · rw [if_neg hkg, h k hk, ← hbut k hk, directories_but_other hi hkg]

/-- One directory less in the count of its group. -/
theorem counted_erase (hg : g < c.TOTAL_GROUPS) (hi : i < c.INODES_PER_GROUP)
    (hfits : c.INODES_PER_GROUP < 2 ^ 16) (h : Directories_counted c fs)
    (hbit : directory_bit c fs g i = true)
    (hbits : ∀ h < c.TOTAL_GROUPS, ∀ j < c.INODES_PER_GROUP, inode_number c h j ≠ inode_number c g i →
      directory_bit c fs' h j = directory_bit c fs h j)
    (hcount : ∀ h < c.TOTAL_GROUPS, (fs'.gdt h).NUMBER_DIRECTORIES_GROUP =
      if h = g then ((fs.gdt g).NUMBER_DIRECTORIES_GROUP + (2 ^ 16 - 1)) % 2 ^ 16
      else (fs.gdt h).NUMBER_DIRECTORIES_GROUP) : Counted_but c fs' (inode_number c g i) := by
  intro k hk
  have hbut : directories_but c fs' (inode_number c g i) k =
      directories_but c fs (inode_number c g i) k := by
    apply Finset.sum_congr rfl
    intro j hj
    by_cases hn : inode_number c k j = inode_number c g i
    · simp [hn]
    · rw [hbits k hk j (Finset.mem_range.mp hj) hn]
  rw [hcount k hk, hbut]
  by_cases hkg : k = g
  · subst hkg
    have hle := directories_le c fs k
    have hsplit := directories_split c fs k hi
    rw [hbit, if_pos rfl] at hsplit
    rw [if_pos rfl, h k hk]
    omega
  · rw [if_neg hkg, h k hk, directories_but_other hi hkg]

/-- Nothing changes in what is counted when the bits, the modes and the counts stay. -/
theorem Same_inodes.directory_bit (h : Same_inodes c fs fs') (hcons : Inodes_consistent c fs)
    (hg : g < c.TOTAL_GROUPS) : directory_bit c fs' g i = Rfs.directory_bit c fs g i := by
  rw [Rfs.directory_bit, Rfs.directory_bit, h.inode_bit hcons hg, h.mode]

theorem Same_inodes.counted_but (h : Same_inodes c fs fs') (hcons : Inodes_consistent c fs)
    (hcount : Counted_but c fs n) : Counted_but c fs' n :=
  hcount.congr (fun g _ => (h.gdt g).2.2.2) fun _ hg _ _ _ => h.directory_bit hcons hg

/-- The inode `n` written, and the directories of the group `g` counted anew. -/
def recount (fs : Image) (g count n : Nat) (anInode : inode_t) : Image :=
  (set_inode fs n anInode).setDescriptor g
    { fs.gdt g with NUMBER_DIRECTORIES_GROUP := count }

section Recount

variable {anInode : inode_t}

theorem inode_bit_recount (k : Nat) : inode_bit (recount fs g count n anInode) k =
    inode_bit fs k := by
  funext j
  by_cases hk : k = g <;> simp [inode_bit, recount, Image.setDescriptor, hk]

theorem recount_consistent (hcons : Inodes_consistent c fs) :
    Inodes_consistent c (recount fs g count n anInode) := by
  refine hcons.congr ?_ (fun k _ => inode_bit_recount k) rfl
  intro k
  by_cases hk : k = g <;> simp [recount, Image.setDescriptor, hk]

theorem directory_bit_recount {k j : Nat} (hne : inode_number c k j ≠ n) :
    directory_bit c (recount fs g count n anInode) k j = directory_bit c fs k j := by
  unfold directory_bit
  rw [inode_bit_recount]
  simp only [recount, Image.setDescriptor, set_inode_of_ne hne]

theorem count_recount (k : Nat) :
    ((recount fs g count n anInode).gdt k).NUMBER_DIRECTORIES_GROUP =
      if k = g then count else (fs.gdt k).NUMBER_DIRECTORIES_GROUP := by
  by_cases hk : k = g <;> simp [recount, Image.setDescriptor, hk]

end Recount

/-- The inodes and the directories are counted as they are. -/
structure Accounted (c : Superblock_constants) (fs : Image) : Prop where
  inodes : Inodes_consistent c fs
  directories : Directories_counted c fs

theorem Same_inodes.accounted (h : Same_inodes c fs fs') (hacc : Accounted c fs) :
    Accounted c fs' := by
  refine ⟨h.consistent hacc.inodes, ?_⟩
  intro g hg
  rw [(h.gdt g).2.2.2, hacc.directories g hg]
  apply Finset.sum_congr rfl
  intro i _
  rw [h.directory_bit hacc.inodes hg]

section Bits

variable (hcons : Inodes_consistent c fs) (hg : g < c.TOTAL_GROUPS)
include hcons hg

/-- A change of one bit touches only that inode. -/
theorem counted_but_set_inode_bit (hcount : Counted_but c fs (inode_number c g i)) :
    Counted_but c (set_inode_bit fs g i v count total) (inode_number c g i) := by
  refine hcount.congr ?_ ?_
  · intro k _
    by_cases hk : k = g <;> simp [set_inode_bit, Image.setDescriptor, Image.setBitmap, hk]
  · intro k hk j _ hne
    have hbit : inode_bit (set_inode_bit fs g i v count total) k j = inode_bit fs k j := by
      rw [inode_bit_set hcons hg hk]
      by_cases hkg : k = g
      · subst hkg
        have hji : j ≠ i := fun heq => hne (by rw [heq])
        rw [if_pos rfl, Function.update_of_ne hji]
      · rw [if_neg hkg]
    unfold directory_bit
    rw [hbit]
    rfl

/-- An inode freed no longer counts. -/
theorem free_inode_accounted (hi : i < c.INODES_PER_GROUP) (hset : inode_bit fs g i = true)
    (hcount : Counted_but c fs (inode_number c g i)) :
    Ends Of_blocks (Accounted c) (free_inode c fs (inode_number c g i)) := by
  have hgroup : Inode_locateGroup c (inode_number c g i) < c.TOTAL_GROUPS := by
    rw [locate_inode_number hcons.numbers_fit hg hi]
    exact hg
  unfold free_inode
  rw [if_pos hgroup]
  have hfree := setFreeInodeBitmap_consistent hcons hg hi hset
  refine .pure ⟨hfree, ?_⟩
  rw [setFreeInodeBitmap_eq hcons hg hi] at hfree ⊢
  refine (counted_but_iff hg hi ?_).mp (counted_but_set_inode_bit hcons hg hcount)
  rw [directory_bit, inode_bit_set hcons hg hg, if_pos rfl, Function.update_self]
  rfl

end Bits

theorem recount_inode {anInode : inode_t} :
    (recount fs g count n anInode).inode = (set_inode fs n anInode).inode := rfl

theorem recount_block {anInode : inode_t} : (recount fs g count n anInode).block = fs.block := rfl

theorem set_inode_bit_inode : (set_inode_bit fs g i v count total).inode = fs.inode := rfl

theorem set_inode_bit_block : (set_inode_bit fs g i v count total).block = fs.block := rfl

/-- The bits of the blocks and their counts, which work on inodes leaves. -/
structure Same_blocks (c : Superblock_constants) (fs fs' : Image) : Prop where
  total : fs'.TOTAL_UNALLOCATED_BLOCKS = fs.TOTAL_UNALLOCATED_BLOCKS
  gdt : ∀ g, (fs'.gdt g).BITMAP_BLOCK_ADDRESS = (fs.gdt g).BITMAP_BLOCK_ADDRESS ∧
    (fs'.gdt g).UNALLOCATED_BLOCKS = (fs.gdt g).UNALLOCATED_BLOCKS
  bits : ∀ g < c.TOTAL_GROUPS, fs'.bitmap (fs.gdt g).BITMAP_BLOCK_ADDRESS =
    fs.bitmap (fs.gdt g).BITMAP_BLOCK_ADDRESS

namespace Same_blocks

theorem trans {fs'' : Image} (h : Same_blocks c fs fs') (h' : Same_blocks c fs' fs'') :
    Same_blocks c fs fs'' where
  total := h'.total.trans h.total
  gdt := fun g => ⟨(h'.gdt g).1.trans (h.gdt g).1, (h'.gdt g).2.trans (h.gdt g).2⟩
  bits := by
    intro g hg
    have hbits := h'.bits g hg
    rw [(h.gdt g).1] at hbits
    exact hbits.trans (h.bits g hg)

theorem used (h : Same_blocks c fs fs') {b : Nat} (hb : IsBlock c b) :
    used c fs' b = Rfs.used c fs b := by
  rw [Rfs.used, Rfs.used, (h.gdt _).1, h.bits _ hb.group_lt]

theorem pool (h : Same_blocks c fs fs') (hpool : Pool c fs) : Pool c fs' := by
  have hfree : ∀ g < c.TOTAL_GROUPS, free_in_group c fs' g = free_in_group c fs g := by
    intro g hg
    rw [free_in_group, free_in_group, (h.gdt g).1, h.bits g hg]
  constructor
  · intro g hg
    rw [Group_Number, (h.gdt g).1]
    exact hpool.bitmaps g hg
  · intro g hg
    rw [(h.gdt g).2, hfree g hg]
    exact hpool.counts g hg
  · rw [h.total, hpool.total]
    exact Finset.sum_congr rfl fun g hg => (hfree g (Finset.mem_range.mp hg)).symm
  · exact hpool.mapped

end Same_blocks

theorem same_blocks_recount {anInode : inode_t} :
    Same_blocks c fs (recount fs g count n anInode) := by
  refine ⟨rfl, fun k => ?_, fun _ _ => rfl⟩
  by_cases hk : k = g <;> simp [recount, Image.setDescriptor, hk]

theorem same_blocks_set_inode_bit (hcons : Inodes_consistent c fs) (hg : g < c.TOTAL_GROUPS) :
    Same_blocks c fs (set_inode_bit fs g i v count total) := by
  refine ⟨rfl, fun k => ?_, fun k hk => ?_⟩
  · by_cases hk : k = g <;> simp [set_inode_bit, Image.setDescriptor, Image.setBitmap, hk]
  · have hne := (hcons.apart g hg k hk).symm
    simp [set_inode_bit, Image.setDescriptor, Image.setBitmap, hne]

end LaLiga.Rfs
