import Mathlib.Data.Nat.Digits.Lemmas
import LaLiga.Rfs.Allocation

/-! The blocks of an inode as a tree of pointers, and the block that each pointer owns. -/
namespace LaLiga.Rfs

open LaLiga.Lib

variable (c : Superblock_constants)

/-- A pointer: the one in a slot of an inode, or one below it, by the indexes in the indirect
blocks on the way, the last one first. -/
structure Node where
  inode : Nat
  slot : Nat
  path : List Nat
  deriving DecidableEq

/-- The slots of an inode: twelve direct pointers, and one for each level of indirection. -/
def pointer (anInode : inode_t) (s : Nat) : Nat :=
  if s < 12 then anInode.pointer_data_0 s
  else if s = 12 then anInode.pointer_data_1
  else if s = 13 then anInode.pointer_data_2
  else anInode.pointer_data_3

def height (s : Nat) : Nat := s - 11

/-- The pointer of a node, 0 when one above it is. -/
def ptr (fs : Image) (i s : Nat) : List Nat → Nat
  | [] => pointer (fs.inode i) s
  | k :: path => if ptr fs i s path = 0 then 0 else indirect c fs (ptr fs i s path) k

/-- A node that there is in an inode. -/
structure Valid (s : Nat) (path : List Nat) : Prop where
  slot : s < 15
  length : path.length ≤ height s
  digits : ∀ k ∈ path, k < pointers_per_block c

/-- A node whose pointer is to data. -/
structure Leaf (s : Nat) (path : List Nat) : Prop where
  slot : s < 15
  length : path.length = height s
  digits : ∀ k ∈ path, k < pointers_per_block c

/-- The logical index of a leaf. -/
def leaf_index (s : Nat) (path : List Nat) : Nat :=
  if s < 12 then s else level_start c (height s) + Nat.ofDigits (pointers_per_block c) path

/-- The inode has data pointers exactly at the first `N` indexes. -/
def Filled (fs : Image) (i N : Nat) : Prop :=
  ∀ s path, Leaf c s path → (ptr c fs i s path ≠ 0 ↔ leaf_index c s path < N)

variable {c} {fs fs' : Image} {i j s k N : Nat} {path : List Nat}

@[simp]
theorem ptr_nil : ptr c fs i s [] = pointer (fs.inode i) s := rfl

theorem ptr_cons (h : ptr c fs i s path ≠ 0) :
    ptr c fs i s (k :: path) = indirect c fs (ptr c fs i s path) k := if_neg h

theorem ptr_below (h : ptr c fs i s path = 0) : ptr c fs i s (k :: path) = 0 := if_pos h

/-- Above a pointer that is set all are. -/
theorem ptr_parent (h : ptr c fs i s (k :: path) ≠ 0) : ptr c fs i s path ≠ 0 :=
  fun h0 => h (ptr_below h0)

theorem Leaf.valid (h : Leaf c s path) : Valid c s path := ⟨h.slot, h.length.le, h.digits⟩

theorem Valid.tail (h : Valid c s (k :: path)) : Valid c s path :=
  ⟨h.slot, (Nat.le_succ _).trans h.length, fun l hl => h.digits l (List.mem_cons_of_mem _ hl)⟩

theorem Valid.lt (h : Valid c s (k :: path)) : path.length < height s := h.length

theorem Valid.digit (h : Valid c s (k :: path)) : k < pointers_per_block c :=
  h.digits k List.mem_cons_self

theorem Valid.cons (h : Valid c s path) (hlt : path.length < height s)
    (hk : k < pointers_per_block c) : Valid c s (k :: path) := by
  refine ⟨h.slot, hlt, ?_⟩
  intro l hl
  rcases List.mem_cons.mp hl with rfl | hl
  · exact hk
  · exact h.digits l hl

theorem Valid.leaf (h : Valid c s path) (hlength : path.length = height s) : Leaf c s path :=
  ⟨h.slot, hlength, h.digits⟩

section Indexes

theorem leaf_index_direct (h : s < 12) : leaf_index c s path = s := if_pos h

theorem leaf_index_indirect (h : 12 ≤ s) : leaf_index c s path =
    level_start c (height s) + Nat.ofDigits (pointers_per_block c) path :=
  if_neg (Nat.not_lt.mpr h)

theorem leaf_index_cons (h : 12 ≤ s) :
    leaf_index c s (k :: path) = leaf_index c s (0 :: path) + k := by
  rw [leaf_index_indirect h, leaf_index_indirect h, Nat.ofDigits_cons, Nat.ofDigits_cons]
  omega

/-- The leaves below the next indirect block come behind all those below this one. -/
theorem leaf_index_next (h : 12 ≤ s) : leaf_index c s (0 :: (k + 1) :: path) =
    leaf_index c s (0 :: k :: path) + pointers_per_block c := by
  rw [leaf_index_indirect h, leaf_index_indirect h]
  simp only [Nat.ofDigits_cons]
  ring

theorem leaf_index_next₂ (h : 12 ≤ s) : leaf_index c s (0 :: 0 :: (k + 1) :: path) =
    leaf_index c s (0 :: 0 :: k :: path) + pointers_per_block c ^ 2 := by
  rw [leaf_index_indirect h, leaf_index_indirect h]
  simp only [Nat.ofDigits_cons]
  ring

theorem level_start_mono {a b : Nat} (h : a ≤ b) : level_start c a ≤ level_start c b := by
  induction h with
  | refl => exact le_rfl
  | step _ ih =>
    refine ih.trans ?_
    rename_i m _
    cases m with
    | zero => exact Nat.zero_le _
    | succ m => exact Nat.le_add_right _ _

theorem height_direct (h : s < 12) : height s = 0 := Nat.sub_eq_zero_of_le (by omega)

theorem height_indirect (h : 12 ≤ s) : 1 ≤ height s := Nat.le_sub_of_add_le (by omega)

variable (hP : 1 < pointers_per_block c)
include hP

/-- Where the index of a leaf lies. -/
theorem Leaf.range (h : Leaf c s path) :
    level_start c (height s) ≤ leaf_index c s path ∧
      leaf_index c s path < level_start c (height s + 1) := by
  by_cases hs : s < 12
  · rw [leaf_index_direct hs, height_direct hs]
    exact ⟨Nat.zero_le s, hs⟩
  · have hlt := Nat.ofDigits_lt_base_pow_length hP h.digits
    obtain ⟨level, hlevel⟩ := Nat.exists_eq_add_of_le' (height_indirect (Nat.not_lt.mp hs))
    rw [leaf_index_indirect (Nat.not_lt.mp hs)]
    rw [h.length, hlevel] at hlt
    rw [hlevel, level_start_succ]
    omega

theorem leaf_index_inj {t : Nat} {path' : List Nat} (h : Leaf c s path) (h' : Leaf c t path')
    (heq : leaf_index c s path = leaf_index c t path') : s = t ∧ path = path' := by
  have hr := h.range hP
  have hr' := h'.range hP
  have hheight : height s = height t := by
    by_contra hne
    rcases Nat.lt_or_gt_of_ne hne with hlt | hlt
    · have : level_start c (height s + 1) ≤ level_start c (height t) := level_start_mono hlt
      omega
    · have : level_start c (height t + 1) ≤ level_start c (height s) := level_start_mono hlt
      omega
  have hslot : s = t := by
    by_cases hs : s < 12
    · have ht : t < 12 := by
        rw [height_direct hs] at hheight
        by_contra hge
        have := height_indirect (Nat.not_lt.mp hge)
        omega
      rwa [leaf_index_direct hs, leaf_index_direct ht] at heq
    · unfold height at hheight
      omega
  subst hslot
  refine ⟨rfl, ?_⟩
  by_cases hs : s < 12
  · have hlength := h.length
    have hlength' := h'.length
    rw [height_direct hs] at hlength hlength'
    rw [List.length_eq_zero_iff.mp hlength, List.length_eq_zero_iff.mp hlength']
  · rw [leaf_index_indirect (Nat.not_lt.mp hs), leaf_index_indirect (Nat.not_lt.mp hs)] at heq
    exact Nat.ofDigits_inj_of_len_eq hP (h.length.trans h'.length.symm) h.digits h'.digits
      (Nat.add_left_cancel heq)

end Indexes

end LaLiga.Rfs
