import LaLiga.Rfs.GrowthSteps

/-! The nodes that the steps of `Attach_Blocks` set, in the order of the leaves. -/
namespace LaLiga.Rfs

open LaLiga.Lib

variable {c : Superblock_constants} {live : Nat → Prop} {fs fs' : Image}
  {i s t e k n b r N d : Nat} {path q : List Nat} {l : List Nat} {D : List Node} {x : Node}

/-- What is under an indirect block starts at a multiple of the pointers of a block. -/
theorem first_index_above (hs : s < 15) (hlt : path.length < height s) :
    ∃ m, first_index c s path = 12 + pointers_per_block c * m := by
  have hindirect := indirect_of_lt hlt
  have hpow : pointers_per_block c ^ (height s - path.length) =
      pointers_per_block c * pointers_per_block c ^ (height s - path.length - 1) := by
    rw [← pow_succ', Nat.sub_add_cancel (Nat.sub_pos_of_lt hlt)]
  have hstart : ∃ m, level_start c (height s) = 12 + pointers_per_block c * m := by
    obtain rfl | rfl | rfl : s = 12 ∨ s = 13 ∨ s = 14 := by omega
    · exact ⟨0, by rw [Nat.mul_zero]; rfl⟩
    · exact ⟨1, by rw [Nat.mul_one]; show 12 + _ ^ 1 = _; rw [pow_one]⟩
    · refine ⟨1 + pointers_per_block c, ?_⟩
      show 12 + pointers_per_block c ^ 1 + pointers_per_block c ^ 2 = _
      ring
  obtain ⟨m, hm⟩ := hstart
  rw [first_index_indirect hindirect, hpow, hm]
  exact ⟨m + pointers_per_block c ^ (height s - path.length - 1) *
    Nat.ofDigits (pointers_per_block c) path, by ring⟩

theorem first_index_mod (hs : s < 15) (hlt : path.length < height s) :
    12 ≤ first_index c s path ∧ (first_index c s path - 12) % pointers_per_block c = 0 := by
  obtain ⟨m, hm⟩ := first_index_above (c := c) hs hlt
  rw [hm, Nat.add_sub_cancel_left, Nat.mul_mod_right]
  exact ⟨Nat.le_add_right .., rfl⟩

/-- The first leaves under the entries of an indirect block at the lowest level. -/
theorem first_index_entry (hlength : path.length + 1 = height s) :
    first_index c s (k :: path) = first_index c s path + k := by
  have hlt : path.length < height s := hlength ▸ Nat.lt_succ_self _
  rw [first_index_cons (indirect_of_lt hlt) hlt, ← hlength, Nat.add_sub_cancel_left, Nat.sub_self,
    pow_zero, Nat.mul_one]

section Full

variable (hP : 1 < pointers_per_block c) (hfull : Full c fs i N d) (hi : live i)
include hP hfull hi

/-- With an indirect block for the next leaf. -/
theorem Full.grow_indirect (hgrew : Grew c live i fs [⟨i, s, path⟩] fs')
    (hvalid : Valid c s path) (hlt : path.length < height s) (hfirst : first_index c s path = N)
    (habove : ∀ k p, path = k :: p → ptr c fs i s p ≠ 0) :
    Full c fs' i N (path.length + 1) := by
  obtain ⟨hzero, hset, -⟩ := hgrew.fresh _ (List.mem_singleton_self _)
  change ptr c fs i s path = 0 at hzero
  intro t q hq
  by_cases heq : t = s ∧ q = path
  · obtain ⟨rfl, rfl⟩ := heq
    refine iff_of_true hset (Or.inr ⟨hfirst, Nat.lt_succ_self _, hlt⟩)
  · have hkept : ptr c fs' i t q = ptr c fs i t q := by
      refine hgrew.kept ⟨i, t, q⟩ ⟨hi, hq⟩ ?_
      rw [List.mem_singleton]
      intro hnode
      cases hnode
      exact heq ⟨rfl, rfl⟩
    rw [hkept, hfull t q hq]
    refine or_congr_right ?_
    constructor
    · rintro ⟨hq0, hd, hlt'⟩
      refine ⟨hq0, ?_, hlt'⟩
      by_contra hlong
      obtain ⟨rfl, hdown⟩ := first_index_inj hP hq hvalid (hq0.trans hfirst.symm)
      have hsuffix : path <:+ q :=
        List.suffix_of_suffix_length_le (down_suffix (s := t)) (hdown ▸ down_suffix) (by omega)
      exact (hfull t q hq).mpr (Or.inr ⟨hq0, hd, hlt'⟩) (ptr_below_suffix hsuffix hzero)
    · rintro ⟨hq0, hlong, hlt'⟩
      obtain ⟨rfl, hdown⟩ := first_index_inj hP hq hvalid (hq0.trans hfirst.symm)
      have hsuffix : q <:+ path :=
        List.suffix_of_suffix_length_le (hdown ▸ down_suffix (s := t)) down_suffix (by omega)
      obtain ⟨k, hk⟩ := exists_suffix_below hsuffix fun h => heq ⟨rfl, h⟩
      have hne : ptr c fs i t q ≠ 0 := by
        cases path with
        | nil => simp at hk
        | cons l p =>
          have hqp : q <:+ p := by
            rcases List.suffix_cons_iff.mp hk with hk | hk
            · rw [(List.cons.inj hk).2]
            · exact (List.suffix_cons k q).trans hk
          exact fun h0 => habove l p rfl (ptr_below_suffix hqp h0)
      have := (hfull t q hq).mp hne
      omega

/-- With data blocks in the next entries of an indirect block. -/
theorem Full.grow_entries (hgrew : Grew c live i fs (entries i s path e k) fs')
    (hvalid : Valid c s path) (hlength : path.length + 1 = height s)
    (hne : ptr c fs i s path ≠ 0) (hN : N = first_index c s path + e)
    (he : e + k ≤ pointers_per_block c) (hk : 0 < k) : Full c fs' i (N + k) 0 := by
  intro t q hq
  by_cases hmem : (⟨i, t, q⟩ : Node) ∈ entries i s path e k
  · have hset : ptr c fs' i t q ≠ 0 := (hgrew.fresh _ hmem).2.1
    obtain ⟨j, hj, heq⟩ := mem_entries.mp hmem
    cases heq
    refine iff_of_true hset (Or.inl ?_)
    rw [first_index_entry hlength]
    omega
  · have hkept : ptr c fs' i t q = ptr c fs i t q := hgrew.kept ⟨i, t, q⟩ ⟨hi, hq⟩ hmem
    rw [hkept]
    constructor
    · intro hset
      have := (hfull t q hq).mp hset
      omega
    · intro hindex
      by_cases hold : first_index c t q < N
      · exact (hfull t q hq).mpr (Or.inl hold)
      · obtain ⟨j, hj⟩ : ∃ j, first_index c t q = first_index c s path + j :=
          ⟨first_index c t q - first_index c s path, by omega⟩
        have hleaf : Leaf c s (j :: path) :=
          (hvalid.cons (by omega) (by omega)).leaf (by rw [List.length_cons, hlength])
        obtain ⟨rfl, hdown⟩ := first_index_inj hP hq hleaf.valid (hj.trans (first_index_entry hlength).symm)
        rw [down_leaf hleaf] at hdown
        have hsuffix : q <:+ j :: path := hdown ▸ down_suffix
        rcases List.suffix_cons_iff.mp hsuffix with rfl | hsuffix
        · refine absurd (mem_entries.mpr ⟨j - e, by omega, ?_⟩) hmem
          rw [Nat.add_sub_cancel' (by omega)]
        · exact fun h0 => hne (ptr_below_suffix hsuffix h0)

omit hP in
/-- With data blocks in the next direct pointers. -/
theorem Full.grow_slots (hgrew : Grew c live i fs (slots i N k) fs') (hN : N + k ≤ 12)
    (hk : 0 < k) : Full c fs' i (N + k) 0 := by
  intro t q hq
  by_cases ht : t < 12
  · have hnil : q = [] := by
      have hlength := hq.length
      rw [height_direct ht] at hlength
      exact List.length_eq_zero_iff.mp (Nat.le_zero.mp hlength)
    subst hnil
    rw [first_index_direct ht, height_direct ht]
    by_cases hmem : (⟨i, t, []⟩ : Node) ∈ slots i N k
    · have hset : ptr c fs' i t [] ≠ 0 := (hgrew.fresh _ hmem).2.1
      obtain ⟨j, hj, heq⟩ := mem_slots.mp hmem
      cases heq
      exact iff_of_true hset (Or.inl (by omega))
    · have hkept : ptr c fs' i t [] = ptr c fs i t [] := hgrew.kept ⟨i, t, []⟩ ⟨hi, hq⟩ hmem
      have hout : ¬ (N ≤ t ∧ t < N + k) := fun h =>
        hmem (mem_slots.mpr ⟨t - N, by omega, by rw [Nat.add_sub_cancel' h.1]⟩)
      rw [hkept, hfull t [] hq, first_index_direct ht, height_direct ht]
      omega
  · have hmem : (⟨i, t, q⟩ : Node) ∉ slots i N k := by
      intro h
      obtain ⟨j, hj, heq⟩ := mem_slots.mp h
      cases heq
      omega
    have hkept : ptr c fs' i t q = ptr c fs i t q := hgrew.kept ⟨i, t, q⟩ ⟨hi, hq⟩ hmem
    have hstart : 12 ≤ first_index c t q := by
      rw [first_index_indirect (Nat.not_lt.mp ht)]
      have h1 : level_start c 1 ≤ level_start c (height t) :=
        level_start_mono (height_indirect (Nat.not_lt.mp ht))
      have h12 : level_start c 1 = 12 := rfl
      omega
    rw [hkept, hfull t q hq]
    omega

end Full

/-- The number of leading pointers that are set. -/
theorem sub_entries_eq {pointers : Nat → Nat} {limit count : Nat}
    (h : ∀ k < limit, (pointers k ≠ 0 ↔ k < count)) :
    sub_entries pointers limit = min limit count := by
  have hrange : (List.range limit).takeWhile (fun k => pointers k ≠ 0) =
      List.range (min limit count) := by
    induction limit with
    | zero => simp
    | succ limit ih =>
      have ih := ih fun k hk => h k (by omega)
      rw [List.range_succ, List.takeWhile_append, ih]
      by_cases hall : limit ≤ count
      · rw [Nat.min_eq_left hall, if_pos (by simp)]
        by_cases hlast : limit < count
        · have hset := (h limit (by omega)).mpr hlast
          rw [Nat.min_eq_left (by omega), List.range_succ]
          simp [hset]
        · have hzero : pointers limit = 0 := by
            by_contra hne
            exact hlast ((h limit (by omega)).mp hne)
          rw [Nat.min_eq_right (by omega), show count = limit by omega]
          simp [hzero]
      · rw [Nat.min_eq_right (by omega), Nat.min_eq_right (by omega), if_neg (by simp; omega)]
  rw [sub_entries, hrange, List.length_range]

end LaLiga.Rfs
