import LaLiga.Rfs.Shrinking

/-! The nodes of an inode in the order of their first leaves. -/
namespace LaLiga.Rfs

open LaLiga.Lib

variable (c : Superblock_constants)

/-- The index of the first leaf under a node. -/
def first_index (s : Nat) (path : List Nat) : Nat :=
  if s < 12 then s
  else level_start c (height s) +
    pointers_per_block c ^ (height s - path.length) * Nat.ofDigits (pointers_per_block c) path

/-- The path to the first leaf under a node. -/
def down (s : Nat) (path : List Nat) : List Nat :=
  List.replicate (height s - path.length) 0 ++ path

/-- The pointers of the first `N` leaves are set and those above them, and of the indirect blocks
of the next leaf the first `d` that it does not share. -/
def Full (fs : Image) (i N d : Nat) : Prop :=
  ∀ s path, Valid c s path → (ptr c fs i s path ≠ 0 ↔ first_index c s path < N ∨
    first_index c s path = N ∧ path.length < d ∧ path.length < height s)

/-- The indirect blocks whose first leaf has the index `n`: one for each 0 at the end of the way
to it. -/
def heads (n : Nat) : Nat := ((leaf_of c n).2.takeWhile (· = 0)).length

/-- The nodes of the inode `i` with the first leaf `n`. -/
def way (i n : Nat) : Finset Node :=
  (Finset.range (heads c n + 1)).image fun t => ⟨i, (leaf_of c n).1, (leaf_of c n).2.drop t⟩

/-- The blocks that an inode with `N` data blocks takes for `n` more. -/
def needed (N n : Nat) : Nat := ∑ m ∈ Finset.Ico N (N + n), (heads c m + 1)

variable {c} {fs fs' : Image} {i s t k m n a b N d : Nat} {path q : List Nat} {x : Node}

theorem first_index_direct (h : s < 12) : first_index c s path = s := if_pos h

theorem first_index_indirect (h : 12 ≤ s) : first_index c s path = level_start c (height s) +
    pointers_per_block c ^ (height s - path.length) * Nat.ofDigits (pointers_per_block c) path :=
  if_neg (Nat.not_lt.mpr h)

theorem first_index_cons (h : 12 ≤ s) (hlt : path.length < height s) :
    first_index c s (k :: path) = first_index c s path +
      k * pointers_per_block c ^ (height s - path.length - 1) := by
  rw [first_index_indirect h, first_index_indirect h, Nat.ofDigits_cons, List.length_cons,
    show height s - path.length = height s - (path.length + 1) + 1 by omega, Nat.add_sub_cancel]
  ring

theorem first_index_leaf (hleaf : Leaf c s path) : first_index c s path = leaf_index c s path := by
  by_cases hs : s < 12
  · rw [first_index_direct hs, leaf_index_direct hs]
  · rw [first_index_indirect (Nat.not_lt.mp hs), leaf_index_indirect (Nat.not_lt.mp hs),
      hleaf.length, Nat.sub_self, pow_zero, Nat.one_mul]

theorem Valid.down (hpos : 0 < pointers_per_block c) (h : Valid c s path) :
    Leaf c s (Rfs.down s path) := by
  refine ⟨h.slot, ?_, ?_⟩
  · have := h.length
    rw [Rfs.down, List.length_append, List.length_replicate]
    omega
  · intro k hk
    rcases List.mem_append.mp hk with hk | hk
    · rw [List.eq_of_mem_replicate hk]
      exact hpos
    · exact h.digits k hk

theorem leaf_index_down : leaf_index c s (down s path) = first_index c s path := by
  by_cases hs : s < 12
  · rw [first_index_direct hs, leaf_index_direct hs]
  · rw [first_index_indirect (Nat.not_lt.mp hs), leaf_index_indirect (Nat.not_lt.mp hs), down,
      Nat.ofDigits_append, Nat.ofDigits_replicate_zero, Nat.zero_add, List.length_replicate]

theorem down_leaf (hleaf : Leaf c s path) : down s path = path := by
  rw [down, hleaf.length, Nat.sub_self]
  rfl

theorem down_suffix : path <:+ down s path := List.suffix_append _ _

theorem indirect_of_lt (hlt : path.length < height s) : 12 ≤ s := by
  by_contra hs
  rw [height_direct (Nat.not_le.mp hs)] at hlt
  exact absurd hlt (Nat.not_lt_zero _)

section Order

variable (hP : 1 < pointers_per_block c)
include hP

/-- Nodes with the same first leaf lie on the way to it. -/
theorem first_index_inj (h : Valid c s path) (h' : Valid c t q)
    (heq : first_index c s path = first_index c t q) : s = t ∧ down s path = down t q := by
  rw [← leaf_index_down, ← leaf_index_down] at heq
  exact leaf_index_inj hP (h.down (by omega)) (h'.down (by omega)) heq

theorem leaf_of_first_index (h : Valid c s path) :
    leaf_of c (first_index c s path) = (s, down s path) := by
  rw [← leaf_index_down]
  exact leaf_of_index hP (h.down (by omega))

theorem Valid.first_lt (h : Valid c s path) : first_index c s path < level_start c 4 := by
  rw [← leaf_index_down]
  have hrange := ((h.down (by omega)).range hP).2
  have hheight : height s + 1 ≤ 4 := by
    have := h.slot
    unfold height
    omega
  exact hrange.trans_le (level_start_mono hheight)

/-- The nodes on the way to a leaf that start with it. -/
theorem first_index_drop (hm : m < level_start c 4) (ht : t ≤ heads c m) :
    Valid c (leaf_of c m).1 ((leaf_of c m).2.drop t) ∧
      first_index c (leaf_of c m).1 ((leaf_of c m).2.drop t) = m := by
  obtain ⟨hleaf, hindex⟩ := leaf_of_spec hP hm
  have hle : t ≤ (leaf_of c m).2.length :=
    ht.trans (List.takeWhile_prefix _).length_le
  have hzeros : (leaf_of c m).2.take t = List.replicate t 0 := by
    refine List.eq_replicate_iff.mpr ⟨by rw [List.length_take, Nat.min_eq_left hle], ?_⟩
    intro k hk
    have htakes : (leaf_of c m).2.take t <+: (leaf_of c m).2.takeWhile (· = 0) := by
      refine List.prefix_of_prefix_length_le (List.take_prefix ..) (List.takeWhile_prefix _) ?_
      exact (List.length_take_le ..).trans ht
    simpa using List.all_eq_true.mp List.all_takeWhile k (htakes.subset hk)
  have hdown : down (leaf_of c m).1 ((leaf_of c m).2.drop t) = (leaf_of c m).2 := by
    rw [down, List.length_drop, ← hleaf.length, Nat.sub_sub_self hle, ← hzeros,
      List.take_append_drop]
  refine ⟨⟨hleaf.slot, ?_, ?_⟩, ?_⟩
  · rw [List.length_drop, ← hleaf.length]
    exact Nat.sub_le ..
  · intro k hk
    exact hleaf.digits k (List.mem_of_mem_drop hk)
  · rw [← leaf_index_down, hdown, hindex]

theorem le_heads (h : Valid c s path) : height s - path.length ≤ heads c (first_index c s path) := by
  rw [heads, leaf_of_first_index hP h, Rfs.down,
    List.takeWhile_append_of_pos (by simp), List.length_append, List.length_replicate]
  omega

/-- A node is on the way to its first leaf. -/
theorem node_mem_way (h : Valid c s path) :
    (⟨i, s, path⟩ : Node) ∈ way c i (first_index c s path) := by
  have hzeros := le_heads hP h
  refine Finset.mem_image.mpr ⟨height s - path.length, Finset.mem_range.mpr (by omega), ?_⟩
  rw [leaf_of_first_index hP h]
  simp [Rfs.down]

theorem mem_way (hm : m < level_start c 4) : x ∈ way c i m ↔
    x.inode = i ∧ Valid c x.slot x.path ∧ first_index c x.slot x.path = m := by
  constructor
  · intro hx
    obtain ⟨t, ht, rfl⟩ := Finset.mem_image.mp hx
    exact ⟨rfl, first_index_drop hP hm (Nat.lt_succ_iff.mp (Finset.mem_range.mp ht))⟩
  · obtain ⟨j, s, path⟩ := x
    rintro ⟨rfl, hvalid, rfl⟩
    exact node_mem_way hP hvalid

omit hP in
theorem way_card : (way c i m).card = heads c m + 1 := by
  rw [way, Finset.card_image_of_injOn, Finset.card_range]
  intro a ha b hb heq
  have ha : a ≤ (leaf_of c m).2.length :=
    (Nat.lt_succ_iff.mp (Finset.mem_range.mp ha)).trans (List.takeWhile_prefix _).length_le
  have hb : b ≤ (leaf_of c m).2.length :=
    (Nat.lt_succ_iff.mp (Finset.mem_range.mp hb)).trans (List.takeWhile_prefix _).length_le
  have hlength := congrArg (fun x : Node => x.path.length) heq
  simp only [List.length_drop] at hlength
  omega

omit hP in
theorem Full.filled (h : Full c fs i N d) : Filled c fs i N := by
  intro s path hleaf
  rw [h s path hleaf.valid, first_index_leaf hleaf]
  have := hleaf.length
  omega

/-- The first leaf under a node lies under its first entry. -/
theorem exists_entry_iff (hs : 12 ≤ s) (hvalid : Valid c s path) (hlt : path.length < height s) :
    (∃ k, Valid c s (k :: path) ∧ first_index c s (k :: path) < N) ↔ first_index c s path < N := by
  constructor
  · rintro ⟨k, -, hk⟩
    rw [first_index_cons hs hlt] at hk
    omega
  · intro h
    refine ⟨0, hvalid.cons hlt (by omega), ?_⟩
    rwa [first_index_cons hs hlt, Nat.zero_mul, Nat.add_zero]

/-- An inode whose data pointers are those of the first indexes and whose indirect blocks are
those that have an entry. -/
theorem full_of_tidy (hfilled : Filled c fs i N) (htidy : Tidy c fs i) : Full c fs i N 0 := by
  have hnodes : ∀ r s path, Valid c s path → path.length + r = height s →
      (ptr c fs i s path ≠ 0 ↔ first_index c s path < N) := by
    intro r
    induction r with
    | zero =>
      intro s path hvalid hlength
      have hleaf := hvalid.leaf hlength
      rw [hfilled s path hleaf, first_index_leaf hleaf]
    | succ r ih =>
      intro s path hvalid hlength
      have hlt : path.length < height s := by omega
      rw [← exists_entry_iff hP (indirect_of_lt hlt) hvalid hlt]
      constructor
      · intro hne
        obtain ⟨k, hk, hentry⟩ := htidy s path hvalid hlt hne
        exact ⟨k, hk, (ih s _ hk (by rw [List.length_cons]; omega)).mp hentry⟩
      · rintro ⟨k, hk, hindex⟩
        exact ptr_parent ((ih s _ hk (by rw [List.length_cons]; omega)).mpr hindex)
  intro s path hvalid
  have hle := hvalid.length
  rw [hnodes (height s - path.length) s path hvalid (by omega)]
  omega

theorem Full.tidy (h : Full c fs i N 0) : Tidy c fs i := by
  intro s path hvalid hlt hne
  have hindex : first_index c s path < N := by
    have := (h s path hvalid).mp hne
    omega
  obtain ⟨k, hk, hentry⟩ := (exists_entry_iff hP (indirect_of_lt hlt) hvalid hlt).mpr hindex
  exact ⟨k, hk, (h s _ hk).mpr (Or.inl hentry)⟩

/-- Nodes whose first leaves lie in a range are no more than the blocks needed for it. -/
theorem nodes_length_le {E : List Node} (hnodup : E.Nodup)
    (hE : ∀ x ∈ E, x.inode = i ∧ Valid c x.slot x.path ∧ a ≤ first_index c x.slot x.path ∧
      first_index c x.slot x.path < b) :
    E.length ≤ ∑ m ∈ Finset.Ico a b, (heads c m + 1) := by
  have hsub : E.toFinset ⊆ (Finset.Ico a b).biUnion (way c i) := by
    intro x hx
    obtain ⟨hinode, hvalid, hlo, hhi⟩ := hE x (List.mem_toFinset.mp hx)
    obtain ⟨j, s, path⟩ := x
    dsimp only at hinode hvalid hlo hhi
    subst hinode
    exact Finset.mem_biUnion.mpr ⟨_, Finset.mem_Ico.mpr ⟨hlo, hhi⟩, node_mem_way hP hvalid⟩
  calc E.length = E.toFinset.card := (List.toFinset_card_of_nodup hnodup).symm
    _ ≤ _ := Finset.card_le_card hsub
    _ ≤ ∑ m ∈ Finset.Ico a b, (way c i m).card := Finset.card_biUnion_le
    _ ≤ ∑ m ∈ Finset.Ico a b, (heads c m + 1) := by
      refine Finset.sum_le_sum fun m _ => ?_
      exact Finset.card_image_le.trans_eq (Finset.card_range _)

end Order

end LaLiga.Rfs
