import LaLiga.Rfs.Removal

/-! What giving blocks to an inode leaves, one allocation after the other. -/
namespace LaLiga.Rfs

open LaLiga.Lib

/-- The free blocks are filled with zeros. -/
def Clean (c : Superblock_constants) (fs : Image) : Prop :=
  ∀ b, IsBlock c b → used c fs b = false → ∀ j < c.BLOCK_SIZE, fs.block b j = 0

/-- The nodes `D` of the inode `i` given a block each, that was free before, and all other
pointers and blocks as they were. -/
structure Grew (c : Superblock_constants) (live : Nat → Prop) (i : Nat) (fs : Image)
    (D : List Node) (fs' : Image) : Prop where
  nodup : D.Nodup
  inode : ∀ x ∈ D, x.inode = i
  held : ∀ x ∈ D, Held c live x
  fresh : ∀ x ∈ D, x.ptr c fs = 0 ∧ x.ptr c fs' ≠ 0 ∧ used c fs (x.ptr c fs') = false
  kept : ∀ x, Held c live x → x ∉ D → x.ptr c fs' = x.ptr c fs
  owned : Owned c live fs'
  pool : Pool c fs'
  used_iff : ∀ b, IsBlock c b →
    (used c fs' b = true ↔ used c fs b = true ∨ ∃ x ∈ D, x.ptr c fs' = b)
  total : fs'.TOTAL_UNALLOCATED_BLOCKS + D.length = fs.TOTAL_UNALLOCATED_BLOCKS
  content : ∀ b, (∀ x ∈ D, b ≠ x.ptr c fs') →
    (∀ x ∈ D, ∀ k p, x.path = k :: p → b ≠ ptr c fs' x.inode x.slot p) →
    fs'.block b = fs.block b
  data : ∀ x ∈ D, Leaf c x.slot x.path → 1 < D.length ∧ fs'.block (x.ptr c fs') = (fun _ => 0) ∨
    fs'.block (x.ptr c fs') = fs.block (x.ptr c fs')
  rest : Inode_kept fs fs' i
  same : Same_inodes c fs fs'

variable {c : Superblock_constants} {live : Nat → Prop} {fs fs' fs'' fs₁ : Image}
  {i j s k n b : Nat} {path : List Nat} {D D' : List Node} {l : List Nat} {x y : Node}

theorem Grew.refl (hown : Owned c live fs) (hpool : Pool c fs) : Grew c live i fs [] fs where
  nodup := List.nodup_nil
  inode := by simp
  held := by simp
  fresh := by simp
  kept := fun _ _ _ => rfl
  owned := hown
  pool := hpool
  used_iff := by simp
  total := rfl
  content := fun _ _ _ => rfl
  data := by simp
  rest := .of_eq rfl
  same := .refl fs

/-- The node above a node. -/
theorem Held.parent (h : Held c live x) (hpath : x.path = k :: path) :
    Held c live ⟨x.inode, x.slot, path⟩ := by
  refine ⟨h.inode, ?_⟩
  have hvalid := h.valid
  rw [hpath] at hvalid
  exact hvalid.tail

theorem Node.parent_ne (hpath : x.path = k :: path) (hne : x.ptr c fs ≠ 0) :
    Node.ptr c fs ⟨x.inode, x.slot, path⟩ ≠ 0 := by
  unfold Node.ptr at hne ⊢
  rw [hpath] at hne
  exact ptr_parent hne

/-- A node above another one is no leaf. -/
theorem Held.parent_not_leaf (h : Held c live x) (hpath : x.path = k :: path) :
    ¬ Leaf c x.slot path := by
  intro hleaf
  have hvalid := h.valid
  rw [hpath] at hvalid
  exact absurd hleaf.length hvalid.lt.ne

theorem Grew.trans (h : Grew c live i fs D fs') (h' : Grew c live i fs' D' fs'') :
    Grew c live i fs (D ++ D') fs'' := by
  have hapart : ∀ x ∈ D, x ∉ D' := fun x hx hD' => (h.fresh x hx).2.1 (h'.fresh x hD').1
  have hlater : ∀ x ∈ D, x.ptr c fs'' = x.ptr c fs' := fun x hx =>
    h'.kept x (h.held x hx) (hapart x hx)
  have hearlier : ∀ x ∈ D', x.ptr c fs = 0 := by
    intro x hx
    rw [← h.kept x (h'.held x hx) fun hD => hapart x hD hx]
    exact (h'.fresh x hx).1
  have hmono : ∀ b, IsBlock c b → used c fs b = true → used c fs' b = true := fun b hb hused =>
    (h.used_iff b hb).mpr (Or.inl hused)
  have hblock : ∀ x ∈ D, IsBlock c (x.ptr c fs') := fun x hx =>
    h.owned.block x (h.held x hx) (h.fresh x hx).2.1
  have hblock' : ∀ x ∈ D', IsBlock c (x.ptr c fs'') := fun x hx =>
    h'.owned.block x (h'.held x hx) (h'.fresh x hx).2.1
  -- a free block stays free while others are given out
  have hclear : ∀ x ∈ D', used c fs (x.ptr c fs'') = false := by
    intro x hx
    by_contra hused
    rw [Bool.not_eq_false] at hused
    have := (h'.fresh x hx).2.2
    rw [hmono _ (hblock' x hx) hused] at this
    cases this
  have hparent : ∀ x ∈ D, ∀ k p, x.path = k :: p →
      ptr c fs'' x.inode x.slot p = ptr c fs' x.inode x.slot p := by
    intro x hx k p hpath
    refine h'.kept _ ((h.held x hx).parent hpath) fun hD' => ?_
    exact Node.parent_ne hpath (h.fresh x hx).2.1 (h'.fresh _ hD').1
  constructor
  · exact List.nodup_append'.mpr ⟨h.nodup, h'.nodup, fun x hx hx' => hapart x hx hx'⟩
  · intro x hx
    rcases List.mem_append.mp hx with hx | hx
    · exact h.inode x hx
    · exact h'.inode x hx
  · intro x hx
    rcases List.mem_append.mp hx with hx | hx
    · exact h.held x hx
    · exact h'.held x hx
  · intro x hx
    rcases List.mem_append.mp hx with hD | hD'
    · rw [hlater x hD]
      exact h.fresh x hD
    · exact ⟨hearlier x hD', (h'.fresh x hD').2.1, hclear x hD'⟩
  · intro x hx hnot
    rw [List.mem_append, not_or] at hnot
    rw [h'.kept x hx hnot.2, h.kept x hx hnot.1]
  · exact h'.owned
  · exact h'.pool
  · intro b hb
    rw [h'.used_iff b hb, h.used_iff b hb, or_assoc]
    refine or_congr_right ?_
    constructor
    · rintro (⟨x, hx, heq⟩ | ⟨x, hx, heq⟩)
      · exact ⟨x, List.mem_append_left _ hx, (hlater x hx).trans heq⟩
      · exact ⟨x, List.mem_append_right _ hx, heq⟩
    · rintro ⟨x, hx, heq⟩
      rcases List.mem_append.mp hx with hx | hx
      · exact Or.inl ⟨x, hx, (hlater x hx).symm.trans heq⟩
      · exact Or.inr ⟨x, hx, heq⟩
  · have htotal := h.total
    have htotal' := h'.total
    rw [List.length_append]
    omega
  · intro b hnew habove
    rw [List.forall_mem_append] at hnew habove
    rw [h'.content b hnew.2 habove.2, h.content b]
    · intro x hx
      rw [← hlater x hx]
      exact hnew.1 x hx
    · intro x hx k p hpath
      rw [← hparent x hx k p hpath]
      exact habove.1 x hx k p hpath
  · intro x hx hleaf
    rcases List.mem_append.mp hx with hD | hD'
    · have hsame : fs''.block (x.ptr c fs') = fs'.block (x.ptr c fs') := by
        apply h'.content
        · intro y hy heq
          have hused := (h.used_iff _ (hblock x hD)).mpr (Or.inr ⟨x, hD, rfl⟩)
          have hfree := (h'.fresh y hy).2.2
          rw [← heq, hused] at hfree
          cases hfree
        · intro y hy k p hpath heq
          have hne : x.ptr c fs'' ≠ 0 := (hlater x hD).trans_ne (h.fresh x hD).2.1
          have hnode := h'.owned.inj x _ (h.held x hD) ((h'.held y hy).parent hpath) hne
            ((hlater x hD).trans heq)
          rw [hnode] at hleaf
          exact (h'.held y hy).parent_not_leaf hpath hleaf
      rw [hlater x hD, hsame]
      refine (h.data x hD hleaf).imp_left fun hzero => ⟨?_, hzero.2⟩
      rw [List.length_append]
      omega
    · have hsame : fs'.block (x.ptr c fs'') = fs.block (x.ptr c fs'') := by
        have hfree := (h'.fresh x hD').2.2
        apply h.content
        · intro y hy heq
          have hused := (h.used_iff _ (hblock y hy)).mpr (Or.inr ⟨y, hy, rfl⟩)
          rw [heq, hused] at hfree
          cases hfree
        · intro y hy k p hpath heq
          have hused := h.owned.used _ ((h.held y hy).parent hpath)
            (Node.parent_ne hpath (h.fresh y hy).2.1)
          rw [heq] at hfree
          exact absurd hused (Bool.eq_false_iff.mp hfree)
      rw [← hsame]
      refine (h'.data x hD' hleaf).imp_left fun hzero => ⟨?_, hzero.2⟩
      rw [List.length_append]
      omega
  · exact h.rest.trans h'.rest
  · exact h.same.trans h'.same

/-- A block that is still free is as it was. -/
theorem Grew.content_of_clear (h : Grew c live i fs D fs') (hclear : used c fs' b = false) :
    fs'.block b = fs.block b := by
  have hnot : ∀ x, Held c live x → x.ptr c fs' ≠ 0 → b ≠ x.ptr c fs' := by
    rintro x hx hne rfl
    rw [h.owned.used x hx hne] at hclear
    cases hclear
  refine h.content b (fun x hx => hnot x (h.held x hx) (h.fresh x hx).2.1) ?_
  intro x hx k p hpath
  exact hnot _ ((h.held x hx).parent hpath) (Node.parent_ne hpath (h.fresh x hx).2.1)

theorem Grew.clear_before (h : Grew c live i fs D fs') (hb : IsBlock c b)
    (hclear : used c fs' b = false) : used c fs b = false := by
  by_contra hused
  rw [Bool.not_eq_false] at hused
  rw [(h.used_iff b hb).mpr (Or.inl hused)] at hclear
  cases hclear

theorem Grew.clean (h : Grew c live i fs D fs') (hclean : Clean c fs) : Clean c fs' := by
  intro b hb hclear
  rw [h.content_of_clear hclear]
  exact hclean b hb (h.clear_before hb hclear)

/-- A data block that is given out clean is clean. -/
theorem Grew.data_clean (h : Grew c live i fs D fs') (hclean : Clean c fs) (hx : x ∈ D)
    (hleaf : Leaf c x.slot x.path) : ∀ j < c.BLOCK_SIZE, fs'.block (x.ptr c fs') j = 0 := by
  obtain ⟨-, hne, hfree⟩ := h.fresh x hx
  intro j hj
  rcases h.data x hx hleaf with ⟨-, hzero⟩ | hsame
  · rw [hzero]
  · rw [hsame]
    exact hclean _ (h.owned.block x (h.held x hx) hne) hfree j hj

/-- The blocks of an allocation stored in the pointers of the nodes `D`. -/
theorem Grew.of_allocated (hown : Owned c live fs) (halloc : Allocated c fs n l fs₁)
    (hnodup : D.Nodup) (hinode : ∀ x ∈ D, x.inode = i) (hheld : ∀ x ∈ D, Held c live x)
    (hold : ∀ x ∈ D, x.ptr c fs = 0) (hptr : D.map (Node.ptr c fs') = l)
    (hkept : ∀ x, Held c live x → x ∉ D → x.ptr c fs' = x.ptr c fs)
    (hbitmap : fs'.bitmap = fs₁.bitmap) (hgdt : fs'.gdt = fs₁.gdt)
    (htotal : fs'.TOTAL_UNALLOCATED_BLOCKS = fs₁.TOTAL_UNALLOCATED_BLOCKS)
    (hcontent : ∀ b, (∀ x ∈ D, ∀ k p, x.path = k :: p → b ≠ ptr c fs' x.inode x.slot p) →
      fs'.block b = fs₁.block b)
    (hrest : Inode_kept fs₁ fs' i) (hsame : Same_inodes c fs₁ fs') :
    Grew c live i fs D fs' := by
  have hmem : ∀ b, b ∈ l ↔ ∃ x ∈ D, x.ptr c fs' = b := by
    intro b
    rw [← hptr, List.mem_map]
  have hused : ∀ b, used c fs' b = used c fs₁ b := by
    intro b
    rw [used, used, hbitmap, hgdt]
  have hlength : D.length = n := by
    rw [← halloc.length, ← hptr, List.length_map]
  have hin : ∀ x ∈ D, x.ptr c fs' ∈ l := fun x hx => (hmem _).mpr ⟨x, hx, rfl⟩
  -- no pointer that was there leads to a new block
  have hapart : ∀ x, Held c live x → x ∉ D → x.ptr c fs' ≠ 0 → x.ptr c fs' ∉ l := by
    intro x hx hD hne hl
    have hfree := halloc.clear _ hl
    rw [hkept x hx hD] at hne hfree
    rw [hown.used x hx hne] at hfree
    cases hfree
  have howned : Owned c live fs' := by
    constructor
    · intro x y hx hy hne heq
      have hney : y.ptr c fs' ≠ 0 := heq ▸ hne
      by_cases hxD : x ∈ D
      · by_cases hyD : y ∈ D
        · have hinj := halloc.nodup
          rw [← hptr] at hinj
          exact List.inj_on_of_nodup_map hinj hxD hyD heq
        · exact absurd (heq ▸ hin x hxD) (hapart y hy hyD hney)
      · by_cases hyD : y ∈ D
        · exact absurd (heq ▸ hin y hyD) (hapart x hx hxD hne)
        · rw [hkept x hx hxD] at hne heq
          rw [hkept y hy hyD] at heq
          exact hown.inj x y hx hy hne heq
    · intro x hx hne
      by_cases hxD : x ∈ D
      · exact halloc.block _ (hin x hxD)
      · rw [hkept x hx hxD] at hne ⊢
        exact hown.block x hx hne
    · intro x hx hne
      rw [hused]
      by_cases hxD : x ∈ D
      · exact (halloc.used_iff _ (halloc.block _ (hin x hxD))).mpr (Or.inr (hin x hxD))
      · rw [hkept x hx hxD] at hne ⊢
        exact (halloc.used_iff _ (hown.block x hx hne)).mpr (Or.inl (hown.used x hx hne))
  constructor
  · exact hnodup
  · exact hinode
  · exact hheld
  · intro x hx
    exact ⟨hold x hx, (halloc.block _ (hin x hx)).ne_zero, halloc.clear _ (hin x hx)⟩
  · exact hkept
  · exact howned
  · exact halloc.pool.congr hbitmap hgdt htotal
  · intro b hb
    rw [hused, halloc.used_iff b hb, hmem]
  · rw [htotal, hlength, halloc.total]
  · intro b hnew habove
    have hnot : b ∉ l.dropLast := by
      intro hb
      obtain ⟨x, hx, heq⟩ := (hmem b).mp (List.mem_of_mem_dropLast hb)
      exact hnew x hx heq.symm
    rw [hcontent b habove, halloc.kept b hnot]
  · intro x hx hleaf
    rw [hcontent]
    · by_cases hlast : x.ptr c fs' ∈ l.dropLast
      · have hmore := List.length_pos_of_mem hlast
        rw [List.length_dropLast, halloc.length] at hmore
        exact Or.inl ⟨by omega, halloc.cleaned _ hlast⟩
      · exact Or.inr (halloc.kept _ hlast)
    · intro y hy k p hpath heq
      have hnode := howned.inj x _ (hheld x hx) ((hheld y hy).parent hpath)
        (halloc.block _ (hin x hx)).ne_zero heq
      rw [hnode] at hleaf
      exact (hheld y hy).parent_not_leaf hpath hleaf
  · exact (Inode_kept.of_eq halloc.inode).trans hrest
  · exact halloc.same.trans hsame

end LaLiga.Rfs
