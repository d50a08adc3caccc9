import LaLiga.Rfs.Directory

/-! What the work on blocks and entries leaves as it was: the inodes as the bitmaps and the
descriptors count them, and their modes. -/
namespace LaLiga.Rfs

open LaLiga.Lib

/-- Only blocks, their bitmaps and counts, and what inodes say of their blocks have changed. -/
structure Same_inodes (c : Superblock_constants) (fs fs' : Image) : Prop where
  total : fs'.TOTAL_UNALLOCATED_INODES = fs.TOTAL_UNALLOCATED_INODES
  gdt : ∀ g, (fs'.gdt g).BITMAP_BLOCK_ADDRESS = (fs.gdt g).BITMAP_BLOCK_ADDRESS ∧
    (fs'.gdt g).BITMAP_INODE_ADDRESS = (fs.gdt g).BITMAP_INODE_ADDRESS ∧
    (fs'.gdt g).UNALLOCATED_INODES = (fs.gdt g).UNALLOCATED_INODES ∧
    (fs'.gdt g).NUMBER_DIRECTORIES_GROUP = (fs.gdt g).NUMBER_DIRECTORIES_GROUP
  bits : ∀ a, (∀ g < c.TOTAL_GROUPS, a ≠ (fs.gdt g).BITMAP_BLOCK_ADDRESS) →
    fs'.bitmap a = fs.bitmap a
  mode : ∀ i, (fs'.inode i).mode = (fs.inode i).mode

variable {c : Superblock_constants} {fs fs' fs'' : Image} {w w' w'' : Worker_state}
  {b i k n r v : Nat}

theorem Same_inodes.refl (fs : Image) : Same_inodes c fs fs where
  total := rfl
  gdt := fun _ => ⟨rfl, rfl, rfl, rfl⟩
  bits := fun _ _ => rfl
  mode := fun _ => rfl

theorem Same_inodes.trans (h : Same_inodes c fs fs') (h' : Same_inodes c fs' fs'') :
    Same_inodes c fs fs'' where
  total := h'.total.trans h.total
  gdt := fun g => ⟨(h'.gdt g).1.trans (h.gdt g).1, (h'.gdt g).2.1.trans (h.gdt g).2.1,
    (h'.gdt g).2.2.1.trans (h.gdt g).2.2.1, (h'.gdt g).2.2.2.trans (h.gdt g).2.2.2⟩
  bits := by
    intro a ha
    rw [h'.bits a fun g hg => (h.gdt g).1 ▸ ha g hg, h.bits a ha]
  mode := fun i => (h'.mode i).trans (h.mode i)

theorem same_block (block : Nat → Nat → UInt8) : Same_inodes c fs { fs with block := block } where
  total := rfl
  gdt := fun _ => ⟨rfl, rfl, rfl, rfl⟩
  bits := fun _ _ => rfl
  mode := fun _ => rfl

theorem same_set_inode {anInode : inode_t} (h : anInode.mode = (fs.inode i).mode) :
    Same_inodes c fs (set_inode fs i anInode) where
  total := rfl
  gdt := fun _ => ⟨rfl, rfl, rfl, rfl⟩
  bits := fun _ _ => rfl
  mode := by
    intro j
    by_cases hj : j = i
    · subst hj
      rw [set_inode_self, h]
    · rw [set_inode_of_ne hj]

theorem same_set_indirect : Same_inodes c fs (set_indirect c fs b k v) := same_block _

theorem same_set_indirects (l : List Nat) : Same_inodes c fs (set_indirects c fs b k l) := by
  induction l generalizing fs k with
  | nil => exact .refl fs
  | cons v l ih => exact same_set_indirect.trans ih

theorem same_Get_Free_Blocks {l : List Nat} (h : Get_Free_Blocks c fs n = some (l, fs')) :
    Same_inodes c fs fs' := by
  obtain ⟨fs₁, hgot, rfl⟩ := Get_Free_Blocks_got h
  constructor
  · rw [CleanBlocks_block]
    exact hgot.inodes
  · intro g
    rw [CleanBlocks_gdt]
    exact hgot.gdt g
  · intro a ha
    rw [CleanBlocks_bitmap]
    exact hgot.others a ha
  · intro i
    rw [CleanBlocks_inode, hgot.inode]

theorem same_free_block (h : free_block c fs b = .ok fs') : Same_inodes c fs fs' := by
  unfold free_block at h
  split_ifs at h with hgroup
  obtain rfl := Except.ok.inj h
  constructor
  · rfl
  · intro g
    by_cases hg : g = block_group c b <;>
      simp [setFreeBlockBitmap, setFreeBlockBitmap_super, setFreeBlockBitmap_group,
        Image.setDescriptor, Image.setBitmap, hg]
  · intro a ha
    simp [setFreeBlockBitmap, setFreeBlockBitmap_super, setFreeBlockBitmap_group,
      Image.setDescriptor, Image.setBitmap, ha _ hgroup]
  · intro i
    rfl

/-- The sizes of the inodes are as they were. -/
def Sizes_kept (fs fs' : Image) : Prop := ∀ j, (fs'.inode j).size = (fs.inode j).size

theorem Sizes_kept.of_eq (h : fs'.inode = fs.inode) : Sizes_kept fs fs' := fun j => by rw [h]

theorem sizes_set_inode {anInode : inode_t} (h : anInode.size = (fs.inode i).size) :
    Sizes_kept fs (set_inode fs i anInode) := by
  intro j
  by_cases hj : j = i
  · subst hj
    rw [set_inode_self, h]
  · rw [set_inode_of_ne hj]

theorem inode_set_indirects (l : List Nat) : (set_indirects c fs b k l).inode = fs.inode := by
  induction l generalizing fs k with
  | nil => rfl
  | cons v l ih => exact ih

theorem inode_Get_Free_Blocks {l : List Nat} (h : Get_Free_Blocks c fs n = some (l, fs')) :
    fs'.inode = fs.inode := by
  obtain ⟨fs₁, hgot, rfl⟩ := Get_Free_Blocks_got h
  rw [CleanBlocks_inode, hgot.inode]

/-- Such work, which sets `errno` at most to `ENOSPC` and no size. -/
structure Block_work (c : Superblock_constants) (w w' : Worker_state) : Prop where
  same : Same_inodes c w.file w'.file
  errno : w'.errno = w.errno ∨ w'.errno = some .ENOSPC
  sizes : Sizes_kept w.file w'.file

theorem Block_work.refl (w : Worker_state) : Block_work c w w :=
  ⟨.refl _, Or.inl rfl, .of_eq rfl⟩

theorem Block_work.trans (h : Block_work c w w') (h' : Block_work c w' w'') :
    Block_work c w w'' where
  same := h.same.trans h'.same
  errno := by
    rcases h'.errno with he | he
    · rw [he]
      exact h.errno
    · exact Or.inr he
  sizes := fun j => (h'.sizes j).trans (h.sizes j)

theorem Block_work.of_same (h : Same_inodes c w.file fs) (hsizes : Sizes_kept w.file fs) :
    Block_work c w { w with file := fs } := ⟨h, Or.inl rfl, hsizes⟩

/-- Errors other than those of the group of an inode. -/
def Of_blocks (e : Crash) : Prop := e ≠ .inode_table ∧ e ≠ .inode_group

instance : DecidablePred Of_blocks :=
  fun e => inferInstanceAs (Decidable (e ≠ .inode_table ∧ e ≠ .inode_group))

theorem ends_check_and_set_Ind :
    Ends Of_blocks (fun r => Block_work c w r.2) (check_and_set_Ind c k w) := by
  unfold check_and_set_Ind
  split_ifs with h0
  · exact .ok (.refl w)
  · split
    · exact .error (by decide)
    · rename_i hget
      exact .ok (.of_same (same_Get_Free_Blocks hget) (.of_eq (inode_Get_Free_Blocks hget)))

theorem ends_check_and_set_entry :
    Ends Of_blocks (Block_work c w) (check_and_set_entry c b k w) := by
  have hset := ends_check_and_set_Ind (c := c) (k := indirect c w.file b k) (w := w)
  unfold check_and_set_entry
  split
  · rename_i hres
    exact .error (hset.of_error hres)
  · rename_i hres
    exact .ok ((hset.of_ok hres).trans (.of_same same_set_indirect (.of_eq rfl)))

theorem work_Inode_Indirect_Attach1 : Block_work c w (Inode_Indirect_Attach1 c b k n w) := by
  unfold Inode_Indirect_Attach1
  split
  · exact ⟨.refl _, Or.inr rfl, .of_eq rfl⟩
  · rename_i hget
    refine .of_same ((same_Get_Free_Blocks hget).trans (same_set_indirects _)) (.of_eq ?_)
    rw [inode_set_indirects, inode_Get_Free_Blocks hget]

theorem work_check_and_attach1 : Block_work c w (check_and_attach1 c b n w).2 := by
  unfold check_and_attach1
  simp only
  split_ifs
  all_goals first | exact work_Inode_Indirect_Attach1 | exact .refl w

theorem ends_Attach2_entries {left total : Nat} : Ends Of_blocks (fun r => Block_work c w r.2)
    (Inode_Indirect_Attach2_entries c b left k n total w) := by
  induction left generalizing k n total w with
  | zero => exact .ok (.refl w)
  | succ left ih =>
    have hset := ends_check_and_set_entry (c := c) (b := b) (k := k) (w := w)
    unfold Inode_Indirect_Attach2_entries
    split
    · rename_i hres
      exact .error (hset.of_error hres)
    · rename_i w₁ hres
      have hset := hset.of_ok hres
      have hattach := work_check_and_attach1 (c := c) (b := indirect c w₁.file b k) (n := n)
        (w := w₁)
      split
      · rename_i hres
        rw [hres] at hattach
        exact .ok (hset.trans hattach)
      · rename_i hres
        rw [hres] at hattach
        split_ifs
        · exact .ok (hset.trans hattach)
        · exact ih.mono fun r hr => (hset.trans hattach).trans hr

theorem work_Attach_Blocks_level0 : Block_work c w (Attach_Blocks_level0 c i n w).2 := by
  unfold Attach_Blocks_level0
  simp only
  split_ifs
  · split
    · exact ⟨.refl _, Or.inr rfl, .of_eq rfl⟩
    · rename_i l fs₁ hget
      have hset : ∀ k l, Sizes_kept fs₁ (set_pointer_data_0 fs₁ i k l) := fun _ _ =>
        sizes_set_inode rfl
      refine .of_same ((same_Get_Free_Blocks hget).trans (same_set_inode rfl)) fun j => ?_
      exact (hset _ _ j).trans (Sizes_kept.of_eq (inode_Get_Free_Blocks hget) j)
  · exact .refl w

theorem ends_Attach_Blocks_level1 :
    Ends Of_blocks (fun r => Block_work c w r.2) (Attach_Blocks_level1 c i n w) := by
  have hset := ends_check_and_set_Ind (c := c) (k := (w.file.inode i).pointer_data_1) (w := w)
  unfold Attach_Blocks_level1
  split
  · rename_i hres
    exact .error (hset.of_error hres)
  · rename_i v w₁ hres
    have hset := (hset.of_ok hres).trans
      (.of_same (same_set_inode rfl : Same_inodes c w₁.file (set_pointer_data_1 w₁.file i v))
        (sizes_set_inode rfl))
    have hattach := work_check_and_attach1 (c := c) (b := v) (n := n)
      (w := { w₁ with file := set_pointer_data_1 w₁.file i v })
    split
    all_goals
      rename_i hres
      rw [hres] at hattach
      exact .ok (hset.trans hattach)

theorem ends_Attach_Blocks_level2 :
    Ends Of_blocks (fun r => Block_work c w r.2) (Attach_Blocks_level2 c i n w) := by
  have hset := ends_check_and_set_Ind (c := c) (k := (w.file.inode i).pointer_data_2) (w := w)
  unfold Attach_Blocks_level2
  split
  · rename_i hres
    exact .error (hset.of_error hres)
  · rename_i v w₁ hres
    have hset := (hset.of_ok hres).trans
      (.of_same (same_set_inode rfl : Same_inodes c w₁.file (set_pointer_data_2 w₁.file i v))
        (sizes_set_inode rfl))
    have hattach : Ends Of_blocks _ (Inode_Indirect_Attach2 c v n
      { w₁ with file := set_pointer_data_2 w₁.file i v }) := ends_Attach2_entries
    split
    · rename_i hres
      exact .error (hattach.of_error hres)
    · rename_i hres
      split_ifs
      all_goals exact .ok (hset.trans (hattach.of_ok hres))

theorem ends_Attach_Blocks_entries {left : Nat} :
    Ends Of_blocks (fun r => Block_work c w r.2) (Attach_Blocks_entries c b left k n w) := by
  induction left generalizing k n w with
  | zero => exact .ok (.refl w)
  | succ left ih =>
    have hset := ends_check_and_set_entry (c := c) (b := b) (k := k) (w := w)
    unfold Attach_Blocks_entries
    split_ifs
    · exact .ok (.refl w)
    · split
      · rename_i hres
        exact .error (hset.of_error hres)
      · rename_i w₁ hres
        have hset := hset.of_ok hres
        split_ifs
        · exact .ok hset
        · have hattach : Ends Of_blocks _ (Inode_Indirect_Attach2 c (indirect c w₁.file b k) n w₁) :=
            ends_Attach2_entries
          split
          · rename_i hres
            exact .error (hattach.of_error hres)
          · rename_i hres
            have hattach := hattach.of_ok hres
            split_ifs
            · exact .ok (hset.trans hattach)
            · exact ih.mono fun r hr => (hset.trans hattach).trans hr

theorem ends_Attach_Blocks_level3 :
    Ends Of_blocks (fun r => Block_work c w r.2) (Attach_Blocks_level3 c i n w) := by
  have hset := ends_check_and_set_Ind (c := c) (k := (w.file.inode i).pointer_data_3) (w := w)
  unfold Attach_Blocks_level3
  split
  · rename_i hres
    exact .error (hset.of_error hres)
  · rename_i v w₁ hres
    have hset := (hset.of_ok hres).trans
      (.of_same (same_set_inode rfl : Same_inodes c w₁.file (set_pointer_data_3 w₁.file i v))
        (sizes_set_inode rfl))
    exact ends_Attach_Blocks_entries.mono fun r hr => hset.trans hr

theorem ends_Attach_Blocks :
    Ends Of_blocks (fun r => Block_work c w r.2) (Attach_Blocks c i n w) := by
  have h0 := work_Attach_Blocks_level0 (c := c) (i := i) (n := n) (w := w)
  unfold Attach_Blocks
  split
  · rename_i hres
    rw [hres] at h0
    exact .ok h0
  · rename_i left w₁ hres
    rw [hres] at h0
    have h1 := ends_Attach_Blocks_level1 (c := c) (i := i) (n := left) (w := w₁)
    split
    · rename_i hres
      exact .error (h1.of_error hres)
    · rename_i hres
      exact .ok (h0.trans (h1.of_ok hres))
    · rename_i left' w₂ hres
      have h1 := h0.trans (h1.of_ok hres)
      have h2 := ends_Attach_Blocks_level2 (c := c) (i := i) (n := left') (w := w₂)
      split
      · rename_i hres
        exact .error (h2.of_error hres)
      · rename_i hres
        exact .ok (h1.trans (h2.of_ok hres))
      · rename_i hres
        exact ends_Attach_Blocks_level3.mono fun r hr => (h1.trans (h2.of_ok hres)).trans hr

theorem ends_attach_scan {m : Bytes} {last p turns : Nat} {new : entry_t} :
    Ends Of_blocks (fun _ => True) (attach_scan m last new turns p) := by
  induction turns generalizing p with
  | zero => exact .error (by decide)
  | succ turns ih =>
    simp only [attach_scan]
    split_ifs
    all_goals first | exact .ok trivial | exact ih

theorem ends_attach_blocks {m : Bytes} {new : entry_t} {l : List Nat} :
    Ends Of_blocks (fun _ => True) (attach_blocks c m new l) := by
  induction l with
  | nil => exact .ok trivial
  | cons b rest ih =>
    unfold attach_blocks
    split
    · rename_i hres
      exact .error (ends_attach_scan.of_error hres)
    · exact .ok trivial
    · exact ih

/-- An entry attached leaves `errno` as it was. -/
theorem ends_attach_entry {new : entry_t} {calls : Nat} :
    Ends Of_blocks (fun r => Same_inodes c w.file r.2.file ∧
      (r.1 = true → w.errno = none → r.2.errno = none)) (attach_entry c i new calls w) := by
  induction calls generalizing w with
  | zero => exact .error (by decide)
  | succ calls ih =>
    simp only [attach_entry]
    split
    · exact .ok ⟨.refl _, by simp⟩
    · split
      · rename_i hres
        exact .error (ends_attach_blocks.of_error hres)
      · exact .ok ⟨same_block _, fun _ he => he⟩
      · have hattach := ends_Attach_Blocks (c := c) (i := i) (n := 1) (w := w)
        split
        · rename_i hres
          exact .error (hattach.of_error hres)
        · rename_i w₁ hres
          have hwork := hattach.of_ok hres
          have hgrow : Same_inodes c w₁.file (grow c w₁.file i) := same_set_inode rfl
          have hcall := ih (w := { w₁ with file := grow c w₁.file i })
          split_ifs with hfull
          · exact .ok ⟨hwork.same, by simp⟩
          · split
            · rename_i hres
              exact .ok ⟨(hwork.same.trans hgrow).trans (hcall.of_ok hres).1, by simp⟩
            · refine hcall.mono ?_
              rintro r ⟨hsame, herrno⟩
              refine ⟨(hwork.same.trans hgrow).trans hsame, ?_⟩
              intro hdone hnone
              refine herrno hdone ?_
              rcases hwork.errno with he | he
              · exact he.trans hnone
              · exact absurd he hfull

theorem ends_free_block : Ends Of_blocks (Same_inodes c fs) (free_block c fs b) := by
  refine ⟨fun _ => same_free_block, ?_⟩
  intro e he
  unfold free_block at he
  split_ifs at he
  · cases he
  · cases he
    decide

theorem ends_deleteIfEmpty {next : Image → Except Crash Image}
    (hnext : ∀ fs₁, Same_inodes c fs fs₁ → Ends Of_blocks (Same_inodes c fs) (next fs₁)) :
    Ends Of_blocks (Same_inodes c fs) (deleteIfEmpty c fs b next) := by
  unfold deleteIfEmpty
  split_ifs
  · exact ends_free_block.bind fun fs₁ _ => hnext fs₁
  · exact .pure (.refl fs)

theorem ends_RemoveIndirect : Ends Of_blocks (Same_inodes c fs) (RemoveIndirect c fs i b) := by
  unfold RemoveIndirect
  split
  · refine ends_deleteIfEmpty ?_
    intro fs₁ h₁
    exact .pure (h₁.trans (same_set_inode rfl))
  · refine ends_deleteIfEmpty ?_
    intro fs₁ h₁
    refine (ends_deleteIfEmpty ?_).mono fun fs₃ h₃ => (h₁.trans same_set_indirect).trans h₃
    intro fs₂ h₂
    exact .pure (h₂.trans (same_set_inode rfl))
  · refine ends_deleteIfEmpty ?_
    intro fs₁ h₁
    refine (ends_deleteIfEmpty ?_).mono fun fs₃ h₃ => (h₁.trans same_set_indirect).trans h₃
    intro fs₂ h₂
    refine (ends_deleteIfEmpty ?_).mono fun fs₃ h₃ => (h₂.trans same_set_indirect).trans h₃
    intro fs₃ h₃
    exact .pure (h₃.trans (same_set_inode rfl))
  · exact .pure (.refl fs)

theorem ends_free_entry : Ends Of_blocks (Same_inodes c fs) (free_entry c fs b k i n) := by
  unfold free_entry
  refine ends_free_block.bind ?_
  intro fs₁ _ h₁
  exact ends_RemoveIndirect.mono fun fs₂ h₂ => (h₁.trans same_set_indirect).trans h₂

theorem ends_Remove_Block : Ends Of_blocks (Same_inodes c fs) (Remove_Block c fs i n) := by
  unfold Remove_Block
  split
  · refine ends_free_block.bind ?_
    intro fs₁ _ h₁
    exact .pure (h₁.trans (same_set_inode rfl))
  · exact ends_free_entry
  · exact ends_free_entry
  · exact ends_free_entry
  · exact .pure (.refl fs)

theorem ends_delete_scan {m : Bytes} {file_name : List UInt8} {last p turns acum_len : Nat} :
    Ends Of_blocks (fun _ => True) (delete_scan c m last file_name turns p acum_len) := by
  induction turns generalizing p acum_len with
  | zero => exact .error (by decide)
  | succ turns ih =>
    simp only [delete_scan]
    split_ifs
    all_goals first | exact .ok trivial | exact ih

theorem ends_delete_blocks {file_name : List UInt8} {l : List Nat} :
    Ends Of_blocks (Same_inodes c fs) (delete_blocks c i file_name l k fs) := by
  induction l generalizing k with
  | nil => exact .ok (.refl fs)
  | cons b rest ih =>
    simp only [delete_blocks]
    split_ifs
    · have hremove := @ends_Remove_Block c fs i k
      split
      · rename_i hres
        exact .error (hremove.of_error hres)
      · rename_i hres
        exact .ok ((hremove.of_ok hres).trans (same_set_inode rfl))
    · exact .ok (same_block _)
    · split
      · rename_i hres
        exact .error (ends_delete_scan.of_error hres)
      · exact .ok (same_block _)
      · exact ih

theorem ends_delete_entry {file_name : List UInt8} :
    Ends Of_blocks (Same_inodes c fs) (delete_entry c fs i file_name) := by
  simp only [delete_entry]
  split
  · exact .ok (.refl fs)
  · exact ends_delete_blocks

end LaLiga.Rfs
