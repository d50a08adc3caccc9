import LaLiga.Lib.Flat
import LaLiga.Rfs.AttachEntry
import LaLiga.Rfs.ReadFile

/-! Regular files as strings of bytes, and what changes to one of them leave of the rest. -/
namespace LaLiga.Rfs

open LaLiga.Lib

/-- The byte with the index `k` of an inode. -/
def byte_at (c : Superblock_constants) (fs : Image) (i k : Nat) : UInt8 :=
  fs.block (block_at c fs i (k / c.BLOCK_SIZE)) (k % c.BLOCK_SIZE)

/-- The inode `i` is a regular file with these bytes. It has `N` blocks, which may be more than
its size asks for; those behind are filled with zeros. -/
structure Stored (c : Superblock_constants) (live : Nat → Prop) (i N : Nat) (bytes : List UInt8)
    (fs : Image) : Prop where
  held : live i
  mode : (fs.inode i).mode &&& EXT2_IFREG ≠ 0
  size : (fs.inode i).size = bytes.length
  fits : bytes.length < 2 ^ 31
  full : Full c fs i N 0
  enough : Size_In_Blocks c bytes.length ≤ N
  content : ∀ k < bytes.length, bytes[k]? = some (byte_at c fs i k)
  spare : ∀ k, Size_In_Blocks c bytes.length ≤ k / c.BLOCK_SIZE → k / c.BLOCK_SIZE < N →
    byte_at c fs i k = 0

/-- What is not of the inode `i` is as it was. -/
structure Kept (c : Superblock_constants) (live : Nat → Prop) (i : Nat) (fs fs' : Image) :
    Prop where
  same : Same_inodes c fs fs'
  inode : ∀ j ≠ i, fs'.inode j = fs.inode j
  ptr : ∀ j s path, live j → j ≠ i → Valid c s path → ptr c fs' j s path = ptr c fs j s path
  content : ∀ j s path, live j → j ≠ i → Leaf c s path → Rfs.ptr c fs j s path ≠ 0 →
    fs'.block (Rfs.ptr c fs j s path) = fs.block (Rfs.ptr c fs j s path)

/-- The blocks in use are the `reserved` ones and those of the inodes `live`, each of these
blocks being that of one pointer. -/
structure Audited (c : Superblock_constants) (live reserved : Nat → Prop) (fs : Image) :
    Prop where
  owned : Owned c live fs
  pool : Pool c fs
  used_iff : ∀ b, IsBlock c b →
    (used c fs b = true ↔ reserved b ∨ ∃ x, Held c live x ∧ x.ptr c fs = b)
  apart : ∀ x, Held c live x → x.ptr c fs ≠ 0 → ¬ reserved (x.ptr c fs)

/-- Bytes may differ in the first `N` data blocks of the inode `i`. -/
structure Rewritten (c : Superblock_constants) (i N : Nat) (fs fs' : Image) : Prop where
  image : fs' = { fs with block := fs'.block }
  block : ∀ b, (∀ m < N, b ≠ block_at c fs i m) → fs'.block b = fs.block b

/-- What has become of the file of the inode `i`, and of the rest. -/
structure Updated (c : Superblock_constants) (live reserved : Nat → Prop) (i N : Nat)
    (bytes : List UInt8) (fs fs' : Image) : Prop where
  stored : Stored c live i N bytes fs'
  others : Kept c live i fs fs'
  audited : Audited c live reserved fs'

/-- The cache has blocks of the file as they are, or those that it had and that have stayed. The
file had `M` blocks for its size and has `M'`. -/
structure Recached (c : Superblock_constants) (i M M' : Nat) (path : Path) (fs fs' : Image)
    (memc memc' : Block_cache) : Prop where
  own : ∀ m data, m < level_start c 4 → memc' (generate_key path m) = some data →
    m < M' ∧ data = fs'.block (block_at c fs' i m) ∨
    memc (generate_key path m) = some data ∧ (m < M → m < M' ∧
      block_at c fs' i m = block_at c fs i m ∧
        fs'.block (block_at c fs i m) = fs.block (block_at c fs i m))
  foreign : ∀ key data, (∀ m < level_start c 4, key ≠ generate_key path m) →
    memc' key = some data → memc key = some data

/-- What the last block holds behind the end of the file are zeros. -/
def Trimmed (c : Superblock_constants) (i size : Nat) (fs : Image) : Prop :=
  ∀ k, size ≤ k → k / c.BLOCK_SIZE < Size_In_Blocks c size → byte_at c fs i k = 0

/-- The inode `i` with another size and count of sectors. -/
def set_counts (fs : Image) (i : Nat) (size : Int) (blocks : Nat) : Image :=
  set_inode fs i { fs.inode i with size, blocks }

variable {c : Superblock_constants} {live reserved : Nat → Prop} {fs fs' fs'' : Image}
  {i j k m n N M : Nat} {bytes : List UInt8} {D : List Node} {x : Node}

section Sizes

theorem Size_In_Blocks_le_iff : Size_In_Blocks c n ≤ k ↔ n ≤ k * c.BLOCK_SIZE := by
  constructor
  · intro h
    by_contra hlt
    exact absurd (lt_Size_In_Blocks (Nat.not_le.mp hlt)) (Nat.not_lt.mpr h)
  · intro h
    have hdiv := Nat.div_add_mod' n c.BLOCK_SIZE
    have hle : n / c.BLOCK_SIZE ≤ k := Nat.div_le_of_le_mul (by rwa [Nat.mul_comm])
    unfold Size_In_Blocks
    split_ifs with hmod
    · by_contra hk
      obtain rfl : k = n / c.BLOCK_SIZE := by omega
      omega
    · omega

theorem le_Size_In_Blocks_mul (n : Nat) : n ≤ Size_In_Blocks c n * c.BLOCK_SIZE :=
  Size_In_Blocks_le_iff.mp le_rfl

theorem lt_Size_In_Blocks_iff : k < Size_In_Blocks c n ↔ k * c.BLOCK_SIZE < n := by
  rw [← Nat.not_le, Size_In_Blocks_le_iff, Nat.not_le]

theorem Size_In_Blocks_mono (h : m ≤ n) : Size_In_Blocks c m ≤ Size_In_Blocks c n :=
  Size_In_Blocks_le_iff.mpr (h.trans (le_Size_In_Blocks_mul n))

theorem Size_In_Blocks_add (m n : Nat) :
    Size_In_Blocks c (m + n) ≤ Size_In_Blocks c m + Size_In_Blocks c n := by
  rw [Size_In_Blocks_le_iff, Nat.add_mul]
  exact Nat.add_le_add (le_Size_In_Blocks_mul m) (le_Size_In_Blocks_mul n)

end Sizes

section Counts

variable {size : Int} {blocks : Nat}

@[simp]
theorem set_counts_self : (set_counts fs i size blocks).inode i =
    { fs.inode i with size, blocks } := set_inode_self

theorem set_counts_of_ne (h : j ≠ i) : (set_counts fs i size blocks).inode j = fs.inode j :=
  set_inode_of_ne h

/-- The counts of an inode are no part of its pointers. -/
theorem set_counts_ptr (x : Node) : x.ptr c (set_counts fs i size blocks) = x.ptr c fs := by
  obtain ⟨j, s, path⟩ := x
  show ptr c (set_counts fs i size blocks) j s path = ptr c fs j s path
  induction path with
  | nil =>
    rw [ptr_nil, ptr_nil]
    by_cases hj : j = i
    · subst hj
      rw [set_counts_self]
      rfl
    · rw [set_counts_of_ne hj]
  | cons k path ih =>
    have hblock : (set_counts fs i size blocks).block = fs.block := rfl
    simp only [ptr, ih, indirect, hblock]

theorem set_counts_block_at : block_at c (set_counts fs i size blocks) j m = block_at c fs j m :=
  set_counts_ptr ⟨j, _, _⟩

theorem set_counts_byte_at : byte_at c (set_counts fs i size blocks) j k = byte_at c fs j k := by
  rw [byte_at, set_counts_block_at]
  rfl

theorem set_counts_full {d : Nat} (h : Full c fs i N d) :
    Full c (set_counts fs i size blocks) i N d := by
  intro s path hvalid
  have hsame : ptr c (set_counts fs i size blocks) i s path = ptr c fs i s path :=
    set_counts_ptr ⟨i, s, path⟩
  rw [hsame]
  exact h s path hvalid

theorem set_counts_eq_self : set_counts fs i (fs.inode i).size (fs.inode i).blocks = fs := by
  rw [set_counts, set_inode, Function.update_eq_self]

theorem set_counts_others : Kept c live i fs (set_counts fs i size blocks) where
  same := by
    refine ⟨rfl, fun _ => ⟨rfl, rfl, rfl, rfl⟩, fun _ _ => rfl, fun j => ?_⟩
    by_cases hj : j = i
    · rw [hj, set_counts_self]
    · rw [set_counts_of_ne hj]
  inode := fun _ hj => set_counts_of_ne hj
  ptr := fun j s path _ _ _ => set_counts_ptr ⟨j, s, path⟩
  content := fun _ _ _ _ _ _ _ => rfl

end Counts

/-- The same pointers own the same blocks. -/
theorem Owned.of_ptr (h : Owned c live fs) (hptr : ∀ x, Held c live x → x.ptr c fs' = x.ptr c fs)
    (hused : ∀ b, Rfs.used c fs' b = Rfs.used c fs b) : Owned c live fs' := by
  constructor
  · intro x y hx hy
    rw [hptr x hx, hptr y hy]
    exact h.inj x y hx hy
  · intro x hx
    rw [hptr x hx]
    exact h.block x hx
  · intro x hx
    rw [hptr x hx, hused]
    exact h.used x hx

theorem Audited.of_ptr (h : Audited c live reserved fs)
    (hptr : ∀ x, Held c live x → x.ptr c fs' = x.ptr c fs)
    (hused : ∀ b, used c fs' b = used c fs b) (hpool : Pool c fs') :
    Audited c live reserved fs' := by
  refine ⟨h.owned.of_ptr hptr hused, hpool, ?_, ?_⟩
  · intro b hb
    rw [hused, h.used_iff b hb]
    refine or_congr_right ⟨?_, ?_⟩
    · rintro ⟨x, hx, heq⟩
      exact ⟨x, hx, (hptr x hx).trans heq⟩
    · rintro ⟨x, hx, heq⟩
      exact ⟨x, hx, (hptr x hx).symm.trans heq⟩
  · intro x hx
    rw [hptr x hx]
    exact h.apart x hx

/-- The block of a byte of a file. -/
theorem Stored.lt_blocks (h : Stored c live i N bytes fs) (hk : k < bytes.length) :
    k / c.BLOCK_SIZE < N :=
  (lt_Size_In_Blocks ((Nat.div_mul_le_self k c.BLOCK_SIZE).trans_lt hk)).trans_le h.enough

theorem Stored.uint32_size (h : Stored c live i N bytes fs) :
    uint32 (fs.inode i).size = bytes.length := by
  rw [h.size]
  exact uint32_of_lt (h.fits.trans (by decide))

/-- The same bytes in the same number of blocks. -/
theorem Stored.congr (h : Stored c live i N bytes fs)
    (hmode : (fs'.inode i).mode = (fs.inode i).mode)
    (hsize : (fs'.inode i).size = (fs.inode i).size) (hfull : Full c fs' i N 0)
      (hbyte : ∀ k, k / c.BLOCK_SIZE < N →
      k < bytes.length ∨ Size_In_Blocks c bytes.length ≤ k / c.BLOCK_SIZE →
      byte_at c fs' i k = byte_at c fs i k) : Stored c live i N bytes fs' where
  held := h.held
  mode := hmode.symm ▸ h.mode
  size := hsize.trans h.size
  fits := h.fits
  full := hfull
  enough := h.enough
  content := fun k hk => by
    rw [hbyte k (h.lt_blocks hk) (Or.inl hk)]
    exact h.content k hk
  spare := fun k hlo hhi => by
    rw [hbyte k hhi (Or.inr hlo)]
    exact h.spare k hlo hhi

theorem set_counts_audited {size : Int} {blocks : Nat} (h : Audited c live reserved fs) :
    Audited c live reserved (set_counts fs i size blocks) :=
  h.of_ptr (fun x _ => set_counts_ptr x) (fun _ => rfl) (h.pool.congr rfl rfl rfl)

section Kept

theorem Kept.refl (fs : Image) : Kept c live i fs fs :=
  ⟨.refl fs, fun _ _ => rfl, fun _ _ _ _ _ _ => rfl, fun _ _ _ _ _ _ _ => rfl⟩

theorem Kept.trans (h : Kept c live i fs fs') (h' : Kept c live i fs' fs'') :
    Kept c live i fs fs'' where
  same := h.same.trans h'.same
  inode := fun j hj => (h'.inode j hj).trans (h.inode j hj)
  ptr := fun j s path hlive hj hvalid =>
    (h'.ptr j s path hlive hj hvalid).trans (h.ptr j s path hlive hj hvalid)
  content := by
    intro j s path hlive hj hleaf hne
    have hptr := h.ptr j s path hlive hj hleaf.valid
    have hcontent := h'.content j s path hlive hj hleaf (hptr.trans_ne hne)
    rw [hptr] at hcontent
    exact hcontent.trans (h.content j s path hlive hj hleaf hne)

variable (hP : 1 < pointers_per_block c)
include hP

theorem Kept.block_at (h : Kept c live i fs fs') (hlive : live j) (hj : j ≠ i)
    (hm : m < level_start c 4) : block_at c fs' j m = block_at c fs j m := by
  obtain ⟨hleaf, -⟩ := leaf_of_spec hP hm
  exact h.ptr j _ _ hlive hj hleaf.valid

/-- The other files are as they were. -/
theorem Kept.stored (h : Kept c live i fs fs') (hs : Stored c live j N bytes fs) (hj : j ≠ i)
    (hN : N ≤ level_start c 4) : Stored c live j N bytes fs' := by
  refine hs.congr (by rw [h.inode j hj]) (by rw [h.inode j hj]) ?_ ?_
  · intro s path hvalid
    rw [h.ptr j s path hs.held hj hvalid]
    exact hs.full s path hvalid
  · intro k hk _
    obtain ⟨hleaf, -⟩ := leaf_of_spec hP (hk.trans_le hN)
    have hne := (hs.full.filled.block_at hP (hk.trans_le hN)).mpr hk
    have hcontent : fs'.block (Rfs.block_at c fs j (k / c.BLOCK_SIZE)) =
        fs.block (Rfs.block_at c fs j (k / c.BLOCK_SIZE)) := h.content j _ _ hs.held hj hleaf hne
    rw [byte_at, byte_at, h.block_at hP hs.held hj (hk.trans_le hN), hcontent]

/-- The directories are as they were. -/
theorem Kept.directory {ds : List (Nat × List entry_t)} (h : Kept c live i fs fs')
    (hsize : Ext2_size c) (hpool : Pool c fs) (hown' : Owned c live fs')
    (hd : Directory c live j ds fs) (hj : j ≠ i) : Directory c live j ds fs' := by
  have hlevels := hd.linked.extent.lt_levels hsize hpool
  rw [List.length_map] at hlevels
  constructor
  · exact hown'
  · exact hd.held
  · intro s path hleaf
    rw [h.ptr j s path hd.held hj hleaf.valid]
    exact hd.filled s path hleaf
  · refine hd.attached.trans (List.map_congr_left fun m hm => ?_)
    exact (h.block_at hP hd.held hj ((List.mem_range.mp hm).trans hlevels)).symm
  · rw [h.inode j hj]
    exact hd.size
  · rw [h.inode j hj]
    exact hd.blocks
  · exact hd.fits
  · intro d hin
    have hmem : d.1 ∈ ds.map Prod.fst := List.mem_map_of_mem hin
    have hstart := hd.linked.extent.start hsize hpool hmem
    obtain ⟨s, path, hleaf, hptr⟩ := hd.linked.extent.node hsize hpool hmem
    have hne : Rfs.ptr c fs j s path ≠ 0 :=
      hptr.trans_ne (hd.linked.extent.block_ne hsize hpool hmem)
    have hcontent := h.content j s path hd.held hj hleaf hne
    rw [hptr] at hcontent
    have hchain := hd.chain d hin
    rw [hstart] at hchain ⊢
    exact hchain.congr (hd.sound d hin) (flat_agree hcontent).symm
  · exact hd.sound
  · exact hd.names

end Kept

section Grown

/-- What is given to an inode changes no data block that is there. -/
theorem Grew.leaf_content (h : Grew c live i fs D fs') (hown : Owned c live fs) (hx : Held c live x)
    (hleaf : Leaf c x.slot x.path) (hne : x.ptr c fs ≠ 0) :
    x.ptr c fs' = x.ptr c fs ∧ fs'.block (x.ptr c fs) = fs.block (x.ptr c fs) := by
  refine ⟨h.kept x hx fun hD => hne (h.fresh x hD).1, ?_⟩
  have hgrown : Grown c live i fs fs' := ⟨D, h⟩
  exact hgrown.data_kept hx hleaf hne (hown.used x hx hne)

theorem Grew.block_at (hP : 1 < pointers_per_block c) (h : Grew c live i fs D fs')
    (hown : Owned c live fs) (hi : live i) (hm : m < level_start c 4)
    (hne : Rfs.block_at c fs i m ≠ 0) : Rfs.block_at c fs' i m = Rfs.block_at c fs i m ∧
      fs'.block (Rfs.block_at c fs i m) = fs.block (Rfs.block_at c fs i m) := by
  obtain ⟨hleaf, -⟩ := leaf_of_spec hP hm
  exact h.leaf_content hown (x := ⟨i, _, _⟩) ⟨hi, hleaf.valid⟩ hleaf hne

theorem Grew.byte_at (hP : 1 < pointers_per_block c) (h : Grew c live i fs D fs')
    (hown : Owned c live fs) (hi : live i) (hfull : Full c fs i N 0) (hN : N ≤ level_start c 4)
    (hk : k / c.BLOCK_SIZE < N) : Rfs.byte_at c fs' i k = Rfs.byte_at c fs i k := by
  obtain ⟨hat, hcontent⟩ := h.block_at hP hown hi (hk.trans_le hN)
    ((hfull.filled.block_at hP (hk.trans_le hN)).mpr hk)
  rw [Rfs.byte_at, Rfs.byte_at, hat, hcontent]

/-- A file with more blocks that are clean. -/
theorem Grew.stored (hP : 1 < pointers_per_block c) (h : Grew c live i fs D fs')
    (hown : Owned c live fs) (hclean : Clean c fs) (hs : Stored c live i N bytes fs)
    (hfull : Full c fs' i M 0) (hNM : N ≤ M) (hM : M ≤ level_start c 4) :
    Stored c live i M bytes fs' := by
  have hold : ∀ k, k / c.BLOCK_SIZE < N → Rfs.byte_at c fs' i k = Rfs.byte_at c fs i k :=
    fun k hk => h.byte_at hP hown hs.held hs.full (hNM.trans hM) hk
  constructor
  · exact hs.held
  · rw [h.rest.mode]
    exact hs.mode
  · rw [h.rest.size]
    exact hs.size
  · exact hs.fits
  · exact hfull
  · exact hs.enough.trans hNM
  · intro k hk
    rw [hold k (hs.lt_blocks hk)]
    exact hs.content k hk
  · intro k hlo hhi
    by_cases hm : k / c.BLOCK_SIZE < N
    · rw [hold k hm]
      exact hs.spare k hlo hm
    · have hlevels := hhi.trans_le hM
      obtain ⟨hleaf, -⟩ := leaf_of_spec hP hlevels
      have hzero : Rfs.block_at c fs i (k / c.BLOCK_SIZE) = 0 := by
        by_contra hne
        exact hm ((hs.full.filled.block_at hP hlevels).mp hne)
      have hset := (hfull.filled.block_at hP hlevels).mpr hhi
      refine h.data_clean (x := ⟨i, _, _⟩) hclean ?_ hleaf _ (Nat.mod_lt _ c.size_pos)
      by_contra hD
      exact hset ((h.kept ⟨i, _, _⟩ ⟨hs.held, hleaf.valid⟩ hD).trans hzero)

theorem Grew.others (h : Grew c live i fs D fs') (hown : Owned c live fs) :
    Kept c live i fs fs' where
  same := h.same
  inode := h.rest.others
  ptr := fun j s path hlive hj hvalid =>
    h.kept ⟨j, s, path⟩ ⟨hlive, hvalid⟩ fun hD => hj (h.inode _ hD)
  content := fun j s path hlive _ hleaf hne =>
    (h.leaf_content hown (x := ⟨j, s, path⟩) ⟨hlive, hleaf.valid⟩ hleaf hne).2

theorem Grew.audited (h : Grew c live i fs D fs') (hacc : Audited c live reserved fs) :
    Audited c live reserved fs' where
  owned := h.owned
  pool := h.pool
  used_iff := by
    intro b hb
    rw [h.used_iff b hb, hacc.used_iff b hb]
    constructor
    · rintro ((hres | ⟨x, hx, hptr⟩) | ⟨x, hD, hptr⟩)
      · exact Or.inl hres
      · have hne : x.ptr c fs ≠ 0 := by
          rw [hptr]
          exact hb.ne_zero
        exact Or.inr ⟨x, hx, (h.kept x hx fun hD => hne (h.fresh x hD).1).trans hptr⟩
      · exact Or.inr ⟨x, h.held x hD, hptr⟩
    · rintro (hres | ⟨x, hx, hptr⟩)
      · exact Or.inl (Or.inl hres)
      · by_cases hD : x ∈ D
        · exact Or.inr ⟨x, hD, hptr⟩
        · exact Or.inl (Or.inr ⟨x, hx, (h.kept x hx hD).symm.trans hptr⟩)
  apart := by
    intro x hx hne
    by_cases hD : x ∈ D
    · obtain ⟨-, -, hclear⟩ := h.fresh x hD
      intro hres
      have hused := (hacc.used_iff _ (h.owned.block x hx hne)).mpr (Or.inl hres)
      rw [hclear] at hused
      cases hused
    · rw [h.kept x hx hD] at hne ⊢
      exact hacc.apart x hx hne

end Grown

section Shrunk

/-- What is taken from an inode changes no data block that stays. -/
theorem Shrunk.leaf_content (h : Shrunk c live i fs D fs') (hown : Owned c live fs)
    (hx : Held c live x) (hleaf : Leaf c x.slot x.path) (hne : x.ptr c fs ≠ 0) :
    fs'.block (x.ptr c fs) = fs.block (x.ptr c fs) := by
  refine h.content _ ?_
  intro y hD k p hpath heq
  have hnode := hown.inj x ⟨y.inode, y.slot, p⟩ hx ((h.held y hD).parent hpath) hne heq
  subst hnode
  exact (h.held y hD).parent_not_leaf hpath hleaf

theorem Shrunk.others (h : Shrunk c live i fs D fs') (hown : Owned c live fs) :
    Kept c live i fs fs' where
  same := h.same
  inode := h.rest.others
  ptr := fun j s path hlive hj hvalid =>
    h.kept ⟨j, s, path⟩ ⟨hlive, hvalid⟩ fun hD => hj (h.inode _ hD)
  content := fun j s path hlive _ hleaf hne =>
    h.leaf_content hown (x := ⟨j, s, path⟩) ⟨hlive, hleaf.valid⟩ hleaf hne

theorem Shrunk.audited (h : Shrunk c live i fs D fs') (hacc : Audited c live reserved fs) :
    Audited c live reserved fs' where
  owned := h.owned
  pool := h.pool
  used_iff := by
    intro b hb
    rw [h.used_iff b hb, hacc.used_iff b hb]
    constructor
    · rintro ⟨hres | ⟨x, hx, hptr⟩, hnot⟩
      · exact Or.inl hres
      · exact Or.inr ⟨x, hx, (h.kept x hx fun hD => hnot x hD hptr).trans hptr⟩
    · rintro (hres | ⟨x, hx, hptr⟩)
      · refine ⟨Or.inl hres, ?_⟩
        intro x hD hptr
        have hne : x.ptr c fs ≠ 0 := (h.freed x hD).1
        exact hacc.apart x (h.held x hD) hne (hptr ▸ hres)
      · have hne : x.ptr c fs' ≠ 0 := by
          rw [hptr]
          exact hb.ne_zero
        have hD : x ∉ D := fun hD => hne (h.freed x hD).2
        have hkept := h.kept x hx hD
        refine ⟨Or.inr ⟨x, hx, hkept.symm.trans hptr⟩, ?_⟩
        intro y hyD hy
        have hnode := hacc.owned.inj y x (h.held y hyD) hx (h.freed y hyD).1
          (hy.trans (hptr.symm.trans hkept))
        exact hD (hnode ▸ hyD)
  apart := by
    intro x hx hne
    have hD : x ∉ D := fun hD => hne (h.freed x hD).2
    rw [h.kept x hx hD] at hne ⊢
    exact hacc.apart x hx hne

end Shrunk

section Rewritten

theorem Rewritten.refl (fs : Image) : Rewritten c i N fs fs := ⟨rfl, fun _ _ => rfl⟩

variable (hP : 1 < pointers_per_block c) (hown : Owned c live fs) (hpool : Pool c fs) (hi : live i)
  (hN : N ≤ level_start c 4)
include hP hown hpool hi hN

theorem Rewritten.ptr (h : Rewritten c i N fs fs') (hx : Held c live x) :
    x.ptr c fs' = x.ptr c fs := by
  have hinode : fs'.inode = fs.inode := by rw [h.image]
  have huntouched : Untouched c live fs fs' fun _ => False := by
    constructor
    · intro j s _ _ _
      rw [hinode]
    · intro j s path k hj hvalid hne _
      have hparent : Held c live ⟨j, s, path⟩ := ⟨hj, hvalid.tail⟩
      have hslot : slot c (Rfs.ptr c fs j s path) = Rfs.ptr c fs j s path :=
        hpool.slot (hown.block ⟨j, s, path⟩ hparent hne)
      have hsame : fs'.block (Rfs.ptr c fs j s path) = fs.block (Rfs.ptr c fs j s path) := by
        refine h.block _ ?_
        intro m hm heq
        obtain ⟨hleaf, -⟩ := leaf_of_spec hP (hm.trans_le hN)
        have hnode := hown.inj ⟨j, s, path⟩ ⟨i, _, _⟩ hparent ⟨hi, hleaf.valid⟩ hne heq
        cases hnode
        have hbelow : Held c live ⟨i, _, k :: _⟩ := ⟨hj, hvalid⟩
        exact hbelow.parent_not_leaf rfl hleaf
      rw [indirect, indirect, hslot, hsame]
  exact huntouched.ptr hx fun _ _ => id

theorem Rewritten.block_at (h : Rewritten c i N fs fs') (hm : m < level_start c 4) :
    block_at c fs' i m = block_at c fs i m := by
  obtain ⟨hleaf, -⟩ := leaf_of_spec hP hm
  exact h.ptr hP hown hpool hi hN (x := ⟨i, _, _⟩) ⟨hi, hleaf.valid⟩

theorem Rewritten.owned (h : Rewritten c i N fs fs') : Owned c live fs' := by
  refine hown.of_ptr (fun x hx => h.ptr hP hown hpool hi hN hx) ?_
  intro b
  rw [h.image]
  rfl

omit hP hown hi hN in
theorem Rewritten.pool (h : Rewritten c i N fs fs') : Pool c fs' :=
  hpool.congr (by rw [h.image]) (by rw [h.image]) (by rw [h.image])

theorem Rewritten.full {d : Nat} (h : Rewritten c i N fs fs') (hfull : Full c fs i M d) :
    Full c fs' i M d := by
  intro s path hvalid
  have hkept : Rfs.ptr c fs' i s path = Rfs.ptr c fs i s path :=
    h.ptr hP hown hpool hi hN (x := ⟨i, s, path⟩) ⟨hi, hvalid⟩
  rw [hkept]
  exact hfull s path hvalid

omit hpool in
/-- The free blocks are not among those of the file. -/
theorem Rewritten.clean (h : Rewritten c i N fs fs') (hfull : Full c fs i N 0)
    (hclean : Clean c fs) : Clean c fs' := by
  intro b hb hfree
  have hused : used c fs b = false := by
    rw [h.image] at hfree
    exact hfree
  rw [h.block b]
  · exact hclean b hb hused
  · intro m hm heq
    obtain ⟨hleaf, -⟩ := leaf_of_spec hP (hm.trans_le hN)
    have hne := (hfull.filled.block_at hP (hm.trans_le hN)).mpr hm
    have htaken := hown.used ⟨i, _, _⟩ ⟨hi, hleaf.valid⟩ hne
    rw [heq] at hused
    exact absurd (htaken.symm.trans hused) (by decide)

theorem Rewritten.trans (h : Rewritten c i N fs fs') (h' : Rewritten c i N fs' fs'') :
    Rewritten c i N fs fs'' := by
  constructor
  · rw [h'.image, h.image]
  · intro b hb
    refine (h'.block b ?_).trans (h.block b hb)
    intro m hm
    rw [h.block_at hP hown hpool hi hN (hm.trans_le hN)]
    exact hb m hm

theorem Rewritten.others (h : Rewritten c i N fs fs') : Kept c live i fs fs' where
  same := by
    rw [h.image]
    exact same_block _
  inode := fun j _ => by rw [h.image]
  ptr := fun j s path hlive _ hvalid =>
    h.ptr hP hown hpool hi hN (x := ⟨j, s, path⟩) ⟨hlive, hvalid⟩
  content := by
    intro j s path hlive hj hleaf hne
    refine h.block _ ?_
    intro m hm heq
    obtain ⟨hleaf', -⟩ := leaf_of_spec hP (hm.trans_le hN)
    have hnode := hown.inj ⟨j, s, path⟩ ⟨i, _, _⟩ ⟨hlive, hleaf.valid⟩ ⟨hi, hleaf'.valid⟩ hne heq
    exact hj (congrArg Node.inode hnode)

omit hown hpool in
theorem Rewritten.audited (h : Rewritten c i N fs fs') (hacc : Audited c live reserved fs) :
    Audited c live reserved fs' := by
  refine hacc.of_ptr (fun x hx => h.ptr hP hacc.owned hacc.pool hi hN hx) ?_ (h.pool hacc.pool)
  intro b
  rw [h.image]
  rfl

end Rewritten

/-- Inodes without indirect blocks, with each of their pointers to a block of its own. -/
theorem audited_direct (hpool : Pool c fs)
    (hnone : ∀ i, live i → ∀ s, 12 ≤ s → s < 15 → pointer (fs.inode i) s = 0)
    (hinj : ∀ i j, live i → live j → ∀ s < 12, ∀ t < 12, pointer (fs.inode i) s ≠ 0 →
      pointer (fs.inode i) s = pointer (fs.inode j) t → i = j ∧ s = t)
    (hblock : ∀ i, live i → ∀ s < 12, pointer (fs.inode i) s ≠ 0 →
      IsBlock c (pointer (fs.inode i) s) ∧ ¬ reserved (pointer (fs.inode i) s))
    (hused : ∀ b, IsBlock c b → (used c fs b = true ↔
      reserved b ∨ ∃ i, live i ∧ ∃ s < 12, pointer (fs.inode i) s = b)) :
    Audited c live reserved fs := by
  have hnode : ∀ x, Held c live x → x.ptr c fs ≠ 0 → ∃ i s, live i ∧ s < 12 ∧ x = ⟨i, s, []⟩ := by
    rintro ⟨j, s, path⟩ hx hne
    obtain ⟨hs, rfl⟩ := ptr_direct_only (hnone j hx.inode) hx.valid hne
    exact ⟨j, s, hx.inode, hs, rfl⟩
  have hheld : ∀ i s, live i → s < 12 → Held c live ⟨i, s, []⟩ := fun i s hi hs =>
    ⟨hi, show s < 15 by omega, Nat.zero_le _, by simp⟩
  refine ⟨⟨?_, ?_, ?_⟩, hpool, ?_, ?_⟩
  · intro x y hx hy hne heq
    obtain ⟨i, s, hi, hs, rfl⟩ := hnode x hx hne
    obtain ⟨j, t, hj, ht, rfl⟩ := hnode y hy (heq ▸ hne)
    obtain ⟨rfl, rfl⟩ := hinj i j hi hj s hs t ht hne heq
    rfl
  · intro x hx hne
    obtain ⟨i, s, hi, hs, rfl⟩ := hnode x hx hne
    exact (hblock i hi s hs hne).1
  · intro x hx hne
    obtain ⟨i, s, hi, hs, rfl⟩ := hnode x hx hne
    exact (hused _ (hblock i hi s hs hne).1).mpr (Or.inr ⟨i, hi, s, hs, rfl⟩)
  · intro b hb
    rw [hused b hb]
    refine or_congr_right ⟨?_, ?_⟩
    · rintro ⟨i, hi, s, hs, hptr⟩
      exact ⟨⟨i, s, []⟩, hheld i s hi hs, hptr⟩
    · rintro ⟨x, hx, hptr⟩
      obtain ⟨i, s, hi, hs, rfl⟩ := hnode x hx (hptr.trans_ne hb.ne_zero)
      exact ⟨i, hi, s, hs, hptr⟩
  · intro x hx hne
    obtain ⟨i, s, hi, hs, rfl⟩ := hnode x hx hne
    exact (hblock i hi s hs hne).2

theorem small_file_audited :
    Audited (one_group 0 (by decide)) (fun j => j = 5) (fun b => b = 1 ∨ b = 2) small_file := by
  refine audited_direct small_file_pool ?_ ?_ ?_ ?_
  · rintro i rfl
    exact small_file_direct
  · rintro i j rfl rfl s hs t ht hne heq
    have hall : ∀ s < 12, ∀ t < 12, pointer (small_file.inode 5) s ≠ 0 →
      pointer (small_file.inode 5) s = pointer (small_file.inode 5) t → s = t := by decide
    exact ⟨rfl, hall s hs t ht hne heq⟩
  · rintro i rfl
    decide
  · intro b hb
    have hall : ∀ b < 9, 1 ≤ b → (used (one_group 0 (by decide)) small_file b = true ↔
      (b = 1 ∨ b = 2) ∨ ∃ s < 12, pointer (small_file.inode 5) s = b) := by decide
    rw [hall b (Nat.lt_succ_of_le hb.2) hb.1]
    simp

/-- Both blocks of the file are full of zeros. -/
theorem small_file_stored : Stored (one_group 0 (by decide)) (fun j => j = 5) 5 2
    (List.replicate 2048 0) small_file where
  held := rfl
  mode := by decide
  size := by
    rw [List.length_replicate]
    rfl
  fits := by
    rw [List.length_replicate]
    decide
  full := full_of_tidy (by decide) small_file_filled small_file_tidy
  enough := by
    rw [List.length_replicate]
    decide
  content := fun k hk => by
    rw [List.length_replicate] at hk
    exact List.getElem?_replicate_of_lt hk
  spare := fun _ _ _ => rfl

end LaLiga.Rfs
