import LaLiga.Rfs.Nodes

/-! Each block belongs to one pointer, and what that says of changes to pointers. -/
namespace LaLiga.Rfs

open LaLiga.Lib

variable (c : Superblock_constants)

/-- The block that a node points to. -/
def Node.ptr (fs : Image) (x : Node) : Nat := Rfs.ptr c fs x.inode x.slot x.path

/-- A node of one of the inodes `live`. -/
structure Held (live : Nat → Prop) (x : Node) : Prop where
  inode : live x.inode
  valid : Valid c x.slot x.path

/-- Every pointer of the inodes `live` that is set has a block of its own, and it is in use. -/
structure Owned (live : Nat → Prop) (fs : Image) : Prop where
  inj : ∀ x y, Held c live x → Held c live y → x.ptr c fs ≠ 0 → x.ptr c fs = y.ptr c fs → x = y
  block : ∀ x, Held c live x → x.ptr c fs ≠ 0 → IsBlock c (x.ptr c fs)
  used : ∀ x, Held c live x → x.ptr c fs ≠ 0 → Rfs.used c fs (x.ptr c fs) = true

/-- The pointers that are the same in both images: all but those of the nodes in `T`. -/
structure Untouched (live : Nat → Prop) (fs fs' : Image) (T : Node → Prop) : Prop where
  slots : ∀ i s, live i → s < 15 → ¬ T ⟨i, s, []⟩ →
    pointer (fs'.inode i) s = pointer (fs.inode i) s
  entries : ∀ i s path k, live i → Valid c s (k :: path) → ptr c fs i s path ≠ 0 →
    ¬ T ⟨i, s, k :: path⟩ →
    indirect c fs' (ptr c fs i s path) k = indirect c fs (ptr c fs i s path) k

def set_slot (fs : Image) (i s v : Nat) : Image :=
  if s < 12 then set_pointer_data_0 fs i s [v]
  else if s = 12 then set_pointer_data_1 fs i v
  else if s = 13 then set_pointer_data_2 fs i v
  else set_pointer_data_3 fs i v

/-- The pointer of a node set to `v`, where it is stored. -/
def set_ptr (fs : Image) (i s : Nat) : List Nat → Nat → Image
  | [], v => set_slot fs i s v
  | k :: path, v => set_indirect c fs (ptr c fs i s path) k v

variable {c} {fs fs' fs₁ : Image} {live : Nat → Prop} {T : Node → Prop} {x y : Node}
  {i j s t k n b v : Nat} {path q : List Nat} {l : List Nat}

theorem Held.tail (h : Held c live ⟨i, s, k :: path⟩) : Held c live ⟨i, s, path⟩ :=
  ⟨h.inode, h.valid.tail⟩

theorem Held.suffix (h : Held c live ⟨i, s, path⟩) (hq : q <:+ path) : Held c live ⟨i, s, q⟩ := by
  refine ⟨h.inode, h.valid.slot, hq.length_le.trans h.valid.length, ?_⟩
  intro k hk
  exact h.valid.digits k (hq.subset hk)

/-- Below a pointer that is 0 all are. -/
theorem ptr_below_suffix (hq : q <:+ path) (h0 : ptr c fs i s q = 0) : ptr c fs i s path = 0 := by
  induction path with
  | nil => rwa [List.suffix_nil.mp hq] at h0
  | cons k path ih =>
    rcases List.suffix_cons_iff.mp hq with rfl | hq
    · exact h0
    · exact ptr_below (ih hq)

/-- The node below `q` on the way to a longer path. -/
theorem exists_suffix_below (hq : q <:+ path) (hne : q ≠ path) : ∃ k, k :: q <:+ path := by
  obtain ⟨l, rfl⟩ := hq
  rcases List.eq_nil_or_concat l with rfl | ⟨l, k, rfl⟩
  · exact absurd rfl hne
  · exact ⟨k, l, by simp⟩

/-- A pointer stays when no node above it has been touched. -/
theorem Untouched.ptr (h : Untouched c live fs fs' T) (hx : Held c live x)
    (hnot : ∀ p, p <:+ x.path → ¬ T ⟨x.inode, x.slot, p⟩) : x.ptr c fs' = x.ptr c fs := by
  obtain ⟨i, s, path⟩ := x
  induction path with
  | nil => exact h.slots i s hx.inode hx.valid.slot (hnot [] List.suffix_rfl)
  | cons k path ih =>
    have hpath : Rfs.ptr c fs' i s path = Rfs.ptr c fs i s path :=
      ih hx.tail fun p hp => hnot p (hp.trans (List.suffix_cons k path))
    show Rfs.ptr c fs' i s (k :: path) = Rfs.ptr c fs i s (k :: path)
    by_cases h0 : Rfs.ptr c fs i s path = 0
    · rw [ptr_below h0, ptr_below (hpath.trans h0)]
    · have hne : Rfs.ptr c fs' i s path ≠ 0 := fun h' => h0 (hpath.symm.trans h')
      rw [ptr_cons h0, ptr_cons hne, hpath]
      exact h.entries i s path k hx.inode hx.valid h0 (hnot (k :: path) List.suffix_rfl)

theorem IsBlock.lt (h : IsBlock c b) : b < 2 ^ 32 := Nat.lt_of_le_of_lt h.2 c.numbers_fit

section Entries

variable {b' k' m : Nat}

theorem set_indirect_block {d : Nat} (hd : d ≠ slot c b) :
    (set_indirect c fs b k v).block d = fs.block d := Function.update_of_ne hd ..

theorem indirect_set_other (h : slot c b' ≠ slot c b ∨ k' ≠ k) :
    indirect c (set_indirect c fs b k v) b' k' = indirect c fs b' k' := by
  unfold indirect
  congr 1
  apply List.map_congr_left
  intro j hj
  have hj := List.mem_range.mp hj
  by_cases hb : slot c b' = slot c b
  · have hk : k' ≠ k := h.resolve_left fun hne => hne hb
    simp only [set_indirect, hb, Function.update_self]
    rw [if_neg (by omega)]
  · rw [set_indirect_block hb]

theorem indirect_set_self (hb : slot c b' = slot c b) (hv : v < 2 ^ 32) :
    indirect c (set_indirect c fs b k v) b' k = v := by
  have hle : (List.range 4).map (fun j => (le 4 v).getD j 0) = le 4 v := by
    apply List.ext_getElem
    · simp
    · intro j hj hj'
      simp [List.getD_eq_getElem?_getD, List.getElem?_eq_getElem hj']
  have hbytes : (List.range 4).map
      (fun j => (set_indirect c fs b k v).block (slot c b') (4 * k + j)) = le 4 v := by
    rw [← hle]
    apply List.map_congr_left
    intro j hj
    have hj := List.mem_range.mp hj
    simp only [set_indirect, hb, Function.update_self]
    rw [if_pos (by omega), Nat.add_sub_cancel_left]
  rw [indirect, hbytes, ofLe_le_of_lt (by norm_num; exact hv)]

/-- The pointers after `set_indirects`. -/
theorem indirect_set_indirects (hl : ∀ v ∈ l, v < 2 ^ 32) :
    indirect c (set_indirects c fs b m l) b' k' =
      if slot c b' = slot c b ∧ m ≤ k' ∧ k' < m + l.length then l.getD (k' - m) 0
      else indirect c fs b' k' := by
  induction l generalizing fs m with
  | nil =>
    rw [if_neg (by rw [List.length_nil]; omega)]
    rfl
  | cons v l ih =>
    rw [set_indirects, ih fun w hw => hl w (by simp [hw])]
    by_cases hb : slot c b' = slot c b
    · by_cases hk : k' = m
      · subst hk
        rw [if_neg (by omega), indirect_set_self hb (hl v (by simp)), if_pos ⟨hb, by simp⟩]
        simp
      · rw [indirect_set_other (Or.inr hk)]
        by_cases hin : m + 1 ≤ k' ∧ k' < m + 1 + l.length
        · have hlen : k' < m + (v :: l).length := by
            rw [List.length_cons]
            omega
          obtain ⟨d, rfl⟩ : ∃ d, k' = m + 1 + d := ⟨k' - (m + 1), by omega⟩
          rw [if_pos ⟨hb, hin⟩, if_pos ⟨hb, by omega, hlen⟩, Nat.add_sub_cancel_left,
            show m + 1 + d - m = d + 1 by omega, List.getD_cons_succ]
        · rw [if_neg (fun h => hin h.2), if_neg]
          rintro ⟨-, hlo, hhi⟩
          rw [List.length_cons] at hhi
          omega
    · rw [indirect_set_other (Or.inl hb), if_neg (fun h => hb h.1), if_neg (fun h => hb h.1)]

theorem set_indirects_block {d : Nat} (hd : d ≠ slot c b) :
    (set_indirects c fs b m l).block d = fs.block d := by
  induction l generalizing fs m with
  | nil => rfl
  | cons v l ih => rw [set_indirects, ih, set_indirect_block hd]

/-- It writes bytes only. -/
theorem set_indirects_image :
    set_indirects c fs b m l = { fs with block := (set_indirects c fs b m l).block } := by
  induction l generalizing fs m with
  | nil => rfl
  | cons v l ih =>
    rw [set_indirects, ih]
    rfl

end Entries

section Slots

theorem pointer_set_slot (hs : s < 15) (ht : t < 15) :
    pointer ((set_slot fs i s v).inode j) t =
      if j = i ∧ t = s then v else pointer (fs.inode j) t := by
  by_cases hj : j = i
  · subst hj
    unfold set_slot
    split_ifs <;>
      simp [pointer, set_pointer_data_0, set_pointer_data_1, set_pointer_data_2,
        set_pointer_data_3] <;> split_ifs <;> first | rfl | omega | simp_all
  · rw [if_neg fun h => hj h.1]
    unfold set_slot
    split_ifs <;>
      simp [set_pointer_data_0, set_pointer_data_1, set_pointer_data_2, set_pointer_data_3,
        set_inode_of_ne hj]

/-- Only pointers of the inode `i` may differ. -/
structure Inode_kept (fs fs' : Image) (i : Nat) : Prop where
  others : ∀ j ≠ i, fs'.inode j = fs.inode j
  mode : (fs'.inode i).mode = (fs.inode i).mode
  size : (fs'.inode i).size = (fs.inode i).size
  links : (fs'.inode i).links_count = (fs.inode i).links_count
  blocks : (fs'.inode i).blocks = (fs.inode i).blocks

theorem Inode_kept.of_eq (h : fs'.inode = fs.inode) : Inode_kept fs fs' i := by
  constructor <;> simp [h]

theorem Inode_kept.trans {fs'' : Image} (h : Inode_kept fs fs' i) (h' : Inode_kept fs' fs'' i) :
    Inode_kept fs fs'' i where
  others := fun j hj => (h'.others j hj).trans (h.others j hj)
  mode := h'.mode.trans h.mode
  size := h'.size.trans h.size
  links := h'.links.trans h.links
  blocks := h'.blocks.trans h.blocks

theorem set_slot_kept : Inode_kept fs (set_slot fs i s v) i := by
  unfold set_slot
  split_ifs <;> constructor <;>
    first
    | exact fun j hj => set_inode_of_ne hj
    | simp [set_pointer_data_0, set_pointer_data_1, set_pointer_data_2, set_pointer_data_3]

end Slots

section Pointers

variable (c fs i s path v)

@[simp]
theorem set_ptr_bitmap : (set_ptr c fs i s path v).bitmap = fs.bitmap := by
  cases path with
  | nil => simp only [set_ptr, set_slot]; split_ifs <;> rfl
  | cons k path => rfl

@[simp]
theorem set_ptr_gdt : (set_ptr c fs i s path v).gdt = fs.gdt := by
  cases path with
  | nil => simp only [set_ptr, set_slot]; split_ifs <;> rfl
  | cons k path => rfl

@[simp]
theorem set_ptr_total :
    (set_ptr c fs i s path v).TOTAL_UNALLOCATED_BLOCKS = fs.TOTAL_UNALLOCATED_BLOCKS := by
  cases path with
  | nil => simp only [set_ptr, set_slot]; split_ifs <;> rfl
  | cons k path => rfl

variable {c fs i s path v}

theorem set_ptr_kept : Inode_kept fs (set_ptr c fs i s path v) i := by
  cases path with
  | nil => exact set_slot_kept
  | cons k path => exact .of_eq rfl

theorem same_set_ptr : Same_inodes c fs (set_ptr c fs i s path v) := by
  cases path with
  | nil =>
    simp only [set_ptr, set_slot]
    split_ifs <;> exact same_set_inode rfl
  | cons k path => exact same_set_indirect

/-- It writes to the block above the node, if there is one. -/
theorem set_ptr_block (h : ∀ k p, path = k :: p → b ≠ slot c (ptr c fs i s p)) :
    (set_ptr c fs i s path v).block b = fs.block b := by
  cases path with
  | nil => simp only [set_ptr, set_slot]; split_ifs <;> rfl
  | cons k path => exact Function.update_of_ne (h k path rfl) ..

@[simp]
theorem used_set_ptr : used c (set_ptr c fs i s path v) b = used c fs b := by
  simp [used]

theorem Pool.congr (h : Pool c fs) (hbitmap : fs'.bitmap = fs.bitmap) (hgdt : fs'.gdt = fs.gdt)
    (htotal : fs'.TOTAL_UNALLOCATED_BLOCKS = fs.TOTAL_UNALLOCATED_BLOCKS) : Pool c fs' where
  bitmaps := by
    intro g hg
    rw [hgdt]
    exact h.bitmaps g hg
  counts := by
    intro g hg
    rw [free_in_group, hgdt, hbitmap]
    exact h.counts g hg
  total := by
    simp only [free_in_group, hgdt, hbitmap, htotal]
    exact h.total
  mapped := h.mapped

theorem Pool.slot (h : Pool c fs) (hb : IsBlock c b) : slot c b = b := slot_eq (h.mapped b hb)

section Set

variable (hown : Owned c live fs) (hpool : Pool c fs) (hx : Held c live ⟨i, s, path⟩)
  (habove : ∀ k p, path = k :: p → ptr c fs i s p ≠ 0)
include hown hpool hx habove

theorem set_ptr_untouched :
    Untouched c live fs (set_ptr c fs i s path v) fun y => y = ⟨i, s, path⟩ where
  slots := by
    intro j t hj ht hnot
    cases path with
    | nil =>
      rw [set_ptr, pointer_set_slot hx.valid.slot ht, if_neg]
      rintro ⟨rfl, rfl⟩
      exact hnot rfl
    | cons k path => rfl
  entries := by
    intro j t q l hj hvalid hne hnot
    cases path with
    | nil =>
      have hblock : (set_ptr c fs i s [] v).block = fs.block := by
        funext b
        exact set_ptr_block fun k p h => by cases h
      unfold indirect
      rw [hblock]
    | cons k path =>
      have habove := habove k path rfl
      have hq : Held c live ⟨j, t, q⟩ := ⟨hj, hvalid.tail⟩
      apply indirect_set_other
      by_cases heq : ptr c fs j t q = ptr c fs i s path
      · refine Or.inr fun hl => ?_
        have hnode := hown.inj _ _ hq hx.tail hne heq
        cases hnode
        exact hnot (by rw [hl])
      · refine Or.inl ?_
        have hslot : slot c (ptr c fs j t q) = ptr c fs j t q := hpool.slot (hown.block _ hq hne)
        have hslot' : slot c (ptr c fs i s path) = ptr c fs i s path :=
          hpool.slot (hown.block _ hx.tail habove)
        rw [hslot, hslot']
        exact heq

theorem ptr_set_ptr_self (hv : v < 2 ^ 32) : ptr c (set_ptr c fs i s path v) i s path = v := by
  cases path with
  | nil =>
    rw [ptr_nil, set_ptr, pointer_set_slot hx.valid.slot hx.valid.slot, if_pos ⟨rfl, rfl⟩]
  | cons k path =>
    have hup : ptr c (set_ptr c fs i s (k :: path) v) i s path = ptr c fs i s path := by
      refine (set_ptr_untouched hown hpool hx habove).ptr hx.tail ?_
      intro p hp heq
      cases heq
      exact absurd hp.length_le (by simp)
    have hne := habove k path rfl
    rw [ptr_cons (by rw [hup]; exact hne), hup, set_ptr, indirect_set_self rfl hv]

end Set

end Pointers

end LaLiga.Rfs
