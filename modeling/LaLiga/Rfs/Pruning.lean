import LaLiga.Rfs.Removal

/-! `Remove_Block` on the tree of pointers: a leaf is taken, and the indirect blocks on the way
up that it leaves empty. -/
namespace LaLiga.Rfs

open LaLiga.Lib

variable (c : Superblock_constants)

/-- The indirect block of a node taken away if it is empty, and then those above it. -/
def prune (i s : Nat) : List Nat → Image → Except Crash Image
  | [], fs => deleteIfEmpty c fs (ptr c fs i s []) fun fs => pure (set_ptr c fs i s [] 0)
  | k :: path, fs => deleteIfEmpty c fs (ptr c fs i s (k :: path)) fun fs =>
      prune i s path (set_ptr c fs i s (k :: path) 0)

/-- A leaf taken away, and the indirect blocks above it that become empty. -/
def remove_leaf (fs : Image) (i s : Nat) (path : List Nat) : Except Crash Image := do
  let fs₁ ← free_block c fs (ptr c fs i s path)
  match path with
  | [] => pure (set_ptr c fs₁ i s [] 0)
  | k :: path => prune c i s path (set_ptr c fs₁ i s (k :: path) 0)

variable {c} {live : Nat → Prop} {fs fs' fs₁ : Image} {i s k n b : Nat} {path : List Nat}

section Coordinates

/-- An index lies between the bounds of one level only. -/
theorem inside_iff {level : Nat} (hlo : level_start c k ≤ n) (hhi : n < level_start c (k + 1)) :
    level_start c level ≤ n ∧ n ≤ level_start c (level + 1) - 1 ↔ level = k := by
  constructor
  · rintro ⟨hlo', hhi'⟩
    have hpos : level_start c 1 ≤ level_start c (level + 1) := level_start_mono (by omega)
    have h1 : level_start c 1 = 12 := rfl
    rcases Nat.lt_trichotomy level k with hlt | heq | hlt
    · have : level_start c (level + 1) ≤ level_start c k := level_start_mono hlt
      omega
    · exact heq
    · have : level_start c (k + 1) ≤ level_start c level := level_start_mono hlt
      omega
  · rintro rfl
    omega

variable (hP : 1 < pointers_per_block c) (hlevels : level_start c 4 ≤ 2 ^ 32)
include hP hlevels

theorem bounds_eq {level : Nat} (h : level < 4) :
    bounds c level = (level_start c level, level_start c (level + 1) - 1) := by
  have hle : level_start c level ≤ level_start c 3 := level_start_mono (by omega)
  have hle' : level_start c (level + 1) ≤ level_start c 4 := level_start_mono h
  have hlast : level_start c 3 < level_start c 4 := by
    rw [level_start_succ]
    exact Nat.lt_add_of_pos_right (Nat.pow_pos (by omega))
  rw [bounds, Nat.mod_eq_of_lt (by omega), Nat.mod_eq_of_lt (by omega)]

/-- The coordinates of an index are the way to its leaf. -/
theorem find_block_coordinates_leaf (h : Leaf c s path) :
    find_block_coordinates c (leaf_index c s path) = if s < 12 then [s] else 0 :: path := by
  obtain ⟨hlo, hhi⟩ := h.range hP
  simp only [find_block_coordinates, bounds_eq hP hlevels (show 0 < 4 by decide),
    bounds_eq hP hlevels (show 1 < 4 by decide), bounds_eq hP hlevels (show 2 < 4 by decide),
    bounds_eq hP hlevels (show 3 < 4 by decide), inside_iff hlo hhi]
  by_cases hs : s < 12
  · rw [leaf_index_direct hs, height_direct hs, if_pos rfl, if_pos hs]
  · have hslot := h.slot
    have hlength := h.length
    rw [if_neg hs, leaf_index_indirect (Nat.not_lt.mp hs)]
    obtain rfl | rfl | rfl : s = 12 ∨ s = 13 ∨ s = 14 := by omega
    · obtain ⟨k, rfl⟩ := List.length_eq_one_iff.mp hlength
      have hk := h.digits k (by simp)
      have hheight : height 12 = 1 := rfl
      rw [hheight, if_neg (by decide), if_pos rfl, Nat.add_sub_cancel_left, Nat.ofDigits_singleton,
        Nat.mod_eq_of_lt hk]
    · obtain ⟨k, k', rfl⟩ := List.length_eq_two.mp hlength
      have hk := h.digits k (by simp)
      have hheight : height 13 = 2 := rfl
      rw [hheight, if_neg (by decide), if_neg (by decide), if_pos rfl, Nat.add_sub_cancel_left,
        Nat.ofDigits_cons, Nat.ofDigits_singleton, Nat.add_mul_mod_self_left, Nat.mod_eq_of_lt hk,
        Nat.add_mul_div_left _ _ (by omega), Nat.div_eq_of_lt hk, Nat.zero_add]
    · obtain ⟨k, k', k'', rfl⟩ := List.length_eq_three.mp hlength
      have hk := h.digits k (by simp)
      have hk' := h.digits k' (by simp)
      have hheight : height 14 = 3 := rfl
      have hlow : k + pointers_per_block c * k' < pointers_per_block c ^ 2 := by
        have hmul : pointers_per_block c * (k' + 1) ≤ pointers_per_block c * pointers_per_block c :=
          Nat.mul_le_mul_left _ hk'
        rw [Nat.pow_two]
        rw [Nat.mul_add] at hmul
        omega
      have hrest : Nat.ofDigits (pointers_per_block c) [k, k', k''] =
          k + pointers_per_block c * k' + pointers_per_block c ^ 2 * k'' := by
        simp only [Nat.ofDigits_cons, Nat.ofDigits_nil]
        ring
      rw [hheight, if_neg (by decide), if_neg (by decide), if_neg (by decide), if_pos rfl,
        Nat.add_sub_cancel_left, hrest, Nat.add_mul_mod_self_left, Nat.mod_eq_of_lt hlow,
        Nat.add_mul_mod_self_left, Nat.mod_eq_of_lt hk, Nat.add_mul_div_left _ _ (by omega),
        Nat.div_eq_of_lt hk, Nat.add_mul_div_left _ _ (Nat.pow_pos (by omega)),
        Nat.div_eq_of_lt hlow, Nat.zero_add, Nat.zero_add]

end Coordinates

section Code

variable {next next' : Image → Except Crash Image}

theorem free_block_ok (h : free_block c fs b = .ok fs₁) :
    fs₁.inode = fs.inode ∧ fs₁.block = fs.block := by
  unfold free_block at h
  split_ifs at h
  obtain rfl := Except.ok.inj h
  exact ⟨rfl, rfl⟩

theorem deleteIfEmpty_congr (h : ∀ fs₁, free_block c fs b = .ok fs₁ → next fs₁ = next' fs₁) :
    deleteIfEmpty c fs b next = deleteIfEmpty c fs b next' := by
  unfold deleteIfEmpty
  split_ifs
  · cases hfree : free_block c fs b with
    | error e => rfl
    | ok fs₁ => exact h fs₁ hfree
  · rfl

theorem ptr_single (hne : pointer (fs.inode i) s ≠ 0) :
    ptr c fs i s [k] = indirect c fs (pointer (fs.inode i) s) k := ptr_cons hne

/-- What `RemoveIndirect` does for a leaf that lies in the indirect block of `path`. -/
theorem RemoveIndirect_eq (hcoord : find_block_coordinates c n = 0 :: k :: path)
    (hslot : 12 ≤ s ∧ s < 15) (hlength : path.length + 1 = height s)
    (hne : ptr c fs i s path ≠ 0) :
    RemoveIndirect c fs i n = prune c i s path fs := by
  have hroot : pointer (fs.inode i) s ≠ 0 := fun h0 =>
    hne (ptr_below_suffix (List.nil_suffix) h0)
  obtain rfl | rfl | rfl : s = 12 ∨ s = 13 ∨ s = 14 := by omega
  · obtain rfl := List.length_eq_zero_iff.mp (Nat.succ.inj hlength)
    simp only [RemoveIndirect, hcoord]
    rfl
  · obtain ⟨k', rfl⟩ := List.length_eq_one_iff.mp (Nat.succ.inj hlength)
    simp only [RemoveIndirect, hcoord, prune, ptr_single hroot]
    apply deleteIfEmpty_congr
    intro fs₁ hfree
    have hinode := (free_block_ok hfree).1
    simp only [set_ptr, ptr_nil, set_indirect, hinode]
    rfl
  · obtain ⟨k', k'', rfl⟩ := List.length_eq_two.mp (Nat.succ.inj hlength)
    have htop : ptr c fs i 14 [k''] = indirect c fs (fs.inode i).pointer_data_3 k'' :=
      ptr_single hroot
    have hmid : ptr c fs i 14 [k', k''] =
        indirect c fs (indirect c fs (fs.inode i).pointer_data_3 k'') k' := by
      rw [ptr_cons (ptr_parent hne), htop]
    simp only [RemoveIndirect, hcoord, prune]
    rw [hmid]
    apply deleteIfEmpty_congr
    intro fs₁ hfree
    obtain ⟨hinode, hblock⟩ := free_block_ok hfree
    have htop₁ : ptr c fs₁ i 14 [k''] = indirect c fs (fs.inode i).pointer_data_3 k'' :=
      (ptr_congr hinode hblock).trans htop
    have hset : set_ptr c fs₁ i 14 [k', k''] 0 =
        set_indirect c fs₁ (indirect c fs (fs.inode i).pointer_data_3 k'') k' 0 := by
      rw [set_ptr, htop₁]
    rw [hset]
    generalize hfs₂ : set_indirect c fs₁ (indirect c fs (fs.inode i).pointer_data_3 k'') k' 0 = fs₂
    have hinode₂ : fs₂.inode = fs.inode := by
      rw [← hfs₂, ← hinode]
      rfl
    have hroot₂ : pointer (fs₂.inode i) 14 ≠ 0 := by
      rw [hinode₂]
      exact hroot
    have htop₂ : ptr c fs₂ i 14 [k''] = indirect c fs₂ (fs₂.inode i).pointer_data_3 k'' :=
      ptr_single hroot₂
    rw [htop₂]
    rfl

/-- `Remove_Block` takes the leaf with its index away. -/
theorem Remove_Block_eq (hP : 1 < pointers_per_block c) (hlevels : level_start c 4 ≤ 2 ^ 32)
    (hown : Owned c live fs) (hpool : Pool c fs) (hi : live i) (hleaf : Leaf c s path)
    (hne : ptr c fs i s path ≠ 0) :
    Remove_Block c fs i (leaf_index c s path) = remove_leaf c fs i s path := by
  have hcoord := find_block_coordinates_leaf hP hlevels hleaf
  have hslot := hleaf.slot
  have hlength := hleaf.length
  by_cases hs : s < 12
  · rw [if_pos hs] at hcoord
    rw [height_direct hs] at hlength
    obtain rfl := List.length_eq_zero_iff.mp hlength
    have hptr : ptr c fs i s [] = (fs.inode i).pointer_data_0 s := by
      rw [ptr_nil, pointer, if_pos hs]
    have hset : ∀ fs₁, set_ptr c fs₁ i s [] 0 = set_pointer_data_0 fs₁ i s [0] := by
      intro fs₁
      rw [set_ptr, set_slot, if_pos hs]
    simp only [Remove_Block, hcoord, remove_leaf, hptr, hset]
  · rw [if_neg hs] at hcoord
    have hheight := height_indirect (Nat.not_lt.mp hs)
    obtain ⟨k, p, rfl⟩ : ∃ k p, path = k :: p := by
      cases path with
      | nil => exact absurd hlength (by rw [List.length_nil]; omega)
      | cons k p => exact ⟨k, p, rfl⟩
    have hparent := ptr_parent hne
    have hentry : Remove_Block c fs i (leaf_index c s (k :: p)) =
        free_entry c fs (ptr c fs i s p) k i (leaf_index c s (k :: p)) := by
      have hroot : pointer (fs.inode i) s ≠ 0 := fun h0 =>
        hparent (ptr_below_suffix List.nil_suffix h0)
      obtain rfl | rfl | rfl : s = 12 ∨ s = 13 ∨ s = 14 := by omega
      · obtain rfl := List.length_eq_zero_iff.mp (Nat.succ.inj hlength)
        simp only [Remove_Block, hcoord]
        rfl
      · obtain ⟨k', rfl⟩ := List.length_eq_one_iff.mp (Nat.succ.inj hlength)
        simp only [Remove_Block, hcoord, ptr_single hroot]
        rfl
      · obtain ⟨k', k'', rfl⟩ := List.length_eq_two.mp (Nat.succ.inj hlength)
        simp only [Remove_Block, hcoord, ptr_cons (ptr_parent hparent), ptr_single hroot]
        rfl
    rw [hentry, free_entry, remove_leaf, ptr_cons hparent]
    cases hfree : free_block c fs (indirect c fs (ptr c fs i s p) k) with
    | error e => rfl
    | ok fs₁ =>
      obtain ⟨hinode, hblock⟩ := free_block_ok hfree
      have hset : set_ptr c fs₁ i s (k :: p) 0 = set_indirect c fs₁ (ptr c fs i s p) k 0 := by
        rw [set_ptr, ptr_congr hinode hblock]
      have hup := ptr_set_ptr_tail (v := 0) hown hpool ⟨hi, hleaf.valid⟩ hparent hinode hblock
      rw [hset] at hup
      show RemoveIndirect c _ i _ = prune c i s p _
      rw [hset]
      exact RemoveIndirect_eq hcoord ⟨Nat.not_lt.mp hs, hslot⟩ hlength (hup.trans_ne hparent)

end Code

section Empty

theorem ofLe_eq_zero {l : List UInt8} : ofLe l = 0 ↔ ∀ x ∈ l, x = 0 := by
  induction l with
  | nil => simp [ofLe]
  | cons x l ih =>
    rw [ofLe, List.forall_mem_cons, ← ih]
    constructor
    · intro h
      exact ⟨UInt8.toNat_inj.mp (by simp; omega), by omega⟩
    · rintro ⟨rfl, hl⟩
      simp [hl]

theorem indirect_eq_zero : indirect c fs b k = 0 ↔ ∀ j < 4, fs.block (slot c b) (4 * k + j) = 0 := by
  rw [indirect, ofLe_eq_zero]
  simp only [List.mem_map, List.mem_range, forall_exists_index, and_imp, forall_apply_eq_imp_iff₂]

/-- A block is empty when it has no pointer. -/
theorem empty_iff (hwords : c.BLOCK_SIZE = 4 * pointers_per_block c) :
    (∀ j < c.BLOCK_SIZE, fs.block (slot c b) j = 0) ↔
      ∀ k < pointers_per_block c, indirect c fs b k = 0 := by
  constructor
  · intro h k hk
    exact indirect_eq_zero.mpr fun j hj => h _ (by omega)
  · intro h j hj
    have hbytes := indirect_eq_zero.mp (h (j / 4) (by omega)) (j % 4) (Nat.mod_lt _ (by decide))
    rwa [Nat.div_add_mod] at hbytes

end Empty

section Prune

variable (hwords : c.BLOCK_SIZE = 4 * pointers_per_block c)
include hwords

/-- Pruning takes away nodes of the path, and leaves no indirect block on it without entries. -/
theorem prune_shrunk (hown : Owned c live fs) (hpool : Pool c fs) (hx : Held c live ⟨i, s, path⟩)
    (hlength : path.length < height s) (hne : ptr c fs i s path ≠ 0) :
    ∃ D fs', prune c i s path fs = .ok fs' ∧ Shrunk c live i fs D fs' ∧
      (∀ x ∈ D, x.slot = s ∧ x.path <:+ path) ∧
      ∀ q, q <:+ path → ptr c fs' i s q ≠ 0 →
        ∃ k, Valid c s (k :: q) ∧ ptr c fs' i s (k :: q) ≠ 0 := by
  induction path generalizing fs with
  | nil =>
    unfold prune deleteIfEmpty
    by_cases hempty : ∀ k < pointers_per_block c, indirect c fs (ptr c fs i s []) k = 0
    · rw [if_pos ((empty_iff hwords).mpr hempty)]
      have hbelow : ∀ k, Valid c s [k] → ptr c fs i s [k] = 0 := by
        intro k hk
        rw [ptr_cons hne]
        exact hempty k hk.digit
      obtain ⟨fs₁, hfree, hshrunk⟩ := drop_node hown hpool hx hne hbelow
      refine ⟨_, _, by rw [hfree]; rfl, hshrunk, by simp, ?_⟩
      intro q hq hq0
      obtain rfl := List.suffix_nil.mp hq
      exact absurd (hshrunk.freed _ (List.mem_singleton_self _)).2 hq0
    · rw [if_neg fun h => hempty ((empty_iff hwords).mp h)]
      push Not at hempty
      obtain ⟨k, hk, hentry⟩ := hempty
      refine ⟨[], fs, rfl, .refl hown hpool, by simp, ?_⟩
      intro q hq _
      obtain rfl := List.suffix_nil.mp hq
      refine ⟨k, hx.valid.cons hlength hk, ?_⟩
      rwa [ptr_cons hne]
  | cons l path ih =>
    unfold prune deleteIfEmpty
    by_cases hempty : ∀ k < pointers_per_block c, indirect c fs (ptr c fs i s (l :: path)) k = 0
    · rw [if_pos ((empty_iff hwords).mpr hempty)]
      have hbelow : ∀ k, Valid c s (k :: l :: path) → ptr c fs i s (k :: l :: path) = 0 := by
        intro k hk
        rw [ptr_cons hne]
        exact hempty k hk.digit
      obtain ⟨fs₁, hfree, hshrunk⟩ := drop_node hown hpool hx hne hbelow
      have hkept : ptr c (set_ptr c fs₁ i s (l :: path) 0) i s path = ptr c fs i s path :=
        hshrunk.kept ⟨i, s, path⟩ hx.tail (by simp)
      obtain ⟨D, fs', hrun, hshrunk', habove, htidy⟩ := ih hshrunk.owned hshrunk.pool hx.tail
        (Nat.lt_of_succ_lt hlength) (hkept.trans_ne (ptr_parent hne))
      refine ⟨_, fs', by rw [hfree]; exact hrun, hshrunk.trans hshrunk', ?_, ?_⟩
      · intro x hx
        rcases List.mem_append.mp hx with hx | hx
        · obtain rfl := List.mem_singleton.mp hx
          exact ⟨rfl, List.suffix_rfl⟩
        · exact ⟨(habove x hx).1, (habove x hx).2.trans (List.suffix_cons l path)⟩
      · intro q hq hq0
        rcases List.suffix_cons_iff.mp hq with rfl | hq
        · exact absurd ((hshrunk.trans hshrunk').freed ⟨i, s, l :: path⟩ (by simp)).2 hq0
        · exact htidy q hq hq0
    · rw [if_neg fun h => hempty ((empty_iff hwords).mp h)]
      push Not at hempty
      obtain ⟨k, hk, hentry⟩ := hempty
      refine ⟨[], fs, rfl, .refl hown hpool, by simp, ?_⟩
      intro q hq _
      by_cases hlast : q = l :: path
      · subst hlast
        refine ⟨k, hx.valid.cons hlength hk, ?_⟩
        rwa [ptr_cons hne]
      · obtain ⟨k, hk⟩ := exists_suffix_below hq hlast
        exact ⟨k, (hx.suffix hk).valid, fun h0 => hne (ptr_below_suffix hk h0)⟩

/-- A leaf of an inode taken away with the indirect blocks above it that it leaves empty. -/
structure Leaf_removed (c : Superblock_constants) (live : Nat → Prop) (i s : Nat)
    (path : List Nat) (fs : Image) (D : List Node) (fs' : Image) : Prop where
  shrunk : Shrunk c live i fs D fs'
  leaf : (⟨i, s, path⟩ : Node) ∈ D
  above : ∀ x ∈ D, x.slot = s ∧ x.path <:+ path
  tidy : ∀ q, q <:+ path → ptr c fs' i s q ≠ 0 →
    ∃ k, Valid c s (k :: q) ∧ ptr c fs' i s (k :: q) ≠ 0

theorem remove_leaf_removed (hown : Owned c live fs) (hpool : Pool c fs) (hi : live i)
    (hleaf : Leaf c s path) (hne : ptr c fs i s path ≠ 0) :
    ∃ D fs', remove_leaf c fs i s path = .ok fs' ∧ Leaf_removed c live i s path fs D fs' := by
  have hx : Held c live ⟨i, s, path⟩ := ⟨hi, hleaf.valid⟩
  have hbelow : ∀ k, Valid c s (k :: path) → ptr c fs i s (k :: path) = 0 := by
    intro k hk
    exact absurd hk.lt (Nat.not_lt.mpr hleaf.length.ge)
  obtain ⟨fs₁, hfree, hshrunk⟩ := drop_node hown hpool hx hne hbelow
  have hzero : ptr c (set_ptr c fs₁ i s path 0) i s path = 0 :=
    (hshrunk.freed _ (List.mem_singleton_self _)).2
  unfold remove_leaf
  rw [hfree]
  cases path with
  | nil =>
    refine ⟨_, _, rfl, hshrunk, by simp, by simp, ?_⟩
    intro q hq hq0
    obtain rfl := List.suffix_nil.mp hq
    exact absurd hzero hq0
  | cons k path =>
    have hkept : ptr c (set_ptr c fs₁ i s (k :: path) 0) i s path = ptr c fs i s path :=
      hshrunk.kept ⟨i, s, path⟩ hx.tail (by simp)
    obtain ⟨D, fs', hrun, hshrunk', habove, htidy⟩ := prune_shrunk hwords hshrunk.owned
      hshrunk.pool hx.tail (by have := hleaf.length; rw [List.length_cons] at this; omega)
      (hkept.trans_ne (ptr_parent hne))
    refine ⟨_, fs', hrun, hshrunk.trans hshrunk', by simp, ?_, ?_⟩
    · intro x hx
      rcases List.mem_append.mp hx with hx | hx
      · obtain rfl := List.mem_singleton.mp hx
        exact ⟨rfl, List.suffix_rfl⟩
      · exact ⟨(habove x hx).1, (habove x hx).2.trans (List.suffix_cons k path)⟩
    · intro q hq hq0
      rcases List.suffix_cons_iff.mp hq with rfl | hq
      · exact absurd ((hshrunk.trans hshrunk').freed ⟨i, s, k :: path⟩ (by simp)).2 hq0
      · exact htidy q hq hq0

end Prune

end LaLiga.Rfs
