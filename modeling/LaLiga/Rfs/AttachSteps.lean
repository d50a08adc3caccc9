import LaLiga.Rfs.Coming

/-! What `check_and_set_Ind` and `check_and_attach1` do to an inode that is filled from the
start. -/
namespace LaLiga.Rfs

open LaLiga.Lib

/-- The first `N` leaves of the inode are set, with `d` levels of indirect blocks for the next
one. -/
structure Prepared (c : Superblock_constants) (live : Nat → Prop) (i N d : Nat) (fs : Image) :
    Prop where
  owned : Owned c live fs
  pool : Pool c fs
  full : Full c fs i N d

def Grown (c : Superblock_constants) (live : Nat → Prop) (i : Nat) (fs fs' : Image) : Prop :=
  ∃ D, Grew c live i fs D fs'

/-- `fs'` comes from `fs` by blocks given to the inode, which then has its first `N` leaves. -/
structure Reached (c : Superblock_constants) (live : Nat → Prop) (i : Nat) (fs : Image)
    (N d : Nat) (fs' : Image) : Prop where
  grown : Grown c live i fs fs'
  prepared : Prepared c live i N d fs'

/-- On the way from `N` to `N + k` leaves there are not enough blocks for what comes next. -/
def Stuck (c : Superblock_constants) (live : Nat → Prop) (i : Nat) (fs : Image) (N k : Nat) :
    Prop :=
  ∃ (fs' : Image) (N' d' : Nat) (E : List Node), Reached c live i fs N' d' fs' ∧ N ≤ N' ∧
    E.Nodup ∧ (∀ x ∈ E, x.inode = i ∧ Valid c x.slot x.path ∧ x.ptr c fs' = 0 ∧
      N' ≤ first_index c x.slot x.path ∧ first_index c x.slot x.path < N + k) ∧
    fs'.TOTAL_UNALLOCATED_BLOCKS < E.length

/-- Not enough blocks for the rest of the indirect block that the last data block is in, or for
the `r` that are asked for. -/
def Partial (c : Superblock_constants) (fs : Image) (N r : Nat) : Prop :=
  12 ≤ N ∧ (N - 12) % pointers_per_block c ≠ 0 ∧ fs.TOTAL_UNALLOCATED_BLOCKS <
    min (pointers_per_block c - (N - 12) % pointers_per_block c) r

/-- The new indirect blocks are clean, or there will be none. -/
def Ready (c : Superblock_constants) (i : Nat) (fs : Image) (N r : Nat) : Prop :=
  Clean c fs ∨ Partial c fs N r ∨ r = 1 ∧ Fresh c i N fs

/-- A single block is the one that was there for the leaf. -/
def Given (c : Superblock_constants) (i N r : Nat) (fs fs' : Image) : Prop :=
  ∀ b m, r = 1 → Coming c i N b m fs → block_at c fs' i N = b ∧ fs'.block b = m

/-- An inode with `N` blocks gets `k` of the `r` that are asked for. -/
def Attached (c : Superblock_constants) (live : Nat → Prop) (i N k r : Nat)
    (w w' : Worker_state) : Prop :=
  w'.errno = w.errno ∧ (k = 0 ∧ w' = w ∨
    (0 < k ∧ k ≤ r) ∧ ¬ Partial c w.file N r ∧ Reached c live i w.file (N + k) 0 w'.file ∧
      Given c i N r w.file w'.file)

variable {c : Superblock_constants} {live : Nat → Prop} {fs fs' fs'' fs₁ : Image}
  {w w' w'' : Worker_state} {i s t e k n b r v N N' d d' : Nat} {path q : List Nat} {l : List Nat}
  {D : List Node} {x : Node}

theorem Grown.clean (h : Grown c live i fs fs') (hclean : Clean c fs) : Clean c fs' := by
  obtain ⟨D, hgrew⟩ := h
  exact hgrew.clean hclean

theorem Grown.trans (h : Grown c live i fs fs') (h' : Grown c live i fs' fs'') :
    Grown c live i fs fs'' := by
  obtain ⟨D, hgrew⟩ := h
  obtain ⟨D', hgrew'⟩ := h'
  exact ⟨_, hgrew.trans hgrew'⟩

/-- A pointer that is set stays. -/
theorem Grown.ptr (h : Grown c live i fs fs') (hx : Held c live ⟨t, s, path⟩)
    (hne : Rfs.ptr c fs t s path ≠ 0) : Rfs.ptr c fs' t s path = Rfs.ptr c fs t s path := by
  obtain ⟨D, hgrew⟩ := h
  exact hgrew.kept ⟨t, s, path⟩ hx fun hD => hne (hgrew.fresh _ hD).1

theorem Prepared.reached (h : Prepared c live i N d fs) : Reached c live i fs N d fs :=
  ⟨⟨[], .refl h.owned h.pool⟩, h⟩

theorem Grew.reached (hgrew : Grew c live i fs D fs') (hfull : Full c fs' i N' d') :
    Reached c live i fs N' d' fs' :=
  ⟨⟨D, hgrew⟩, hgrew.owned, hgrew.pool, hfull⟩

theorem Reached.trans (h : Reached c live i fs N d fs') (h' : Reached c live i fs' N' d' fs'') :
    Reached c live i fs N' d' fs'' := ⟨h.grown.trans h'.grown, h'.prepared⟩

theorem Stuck.after {k' : Nat} (h : Stuck c live i fs' N' k') (hreached : Reached c live i fs N' d fs')
    (hle : N ≤ N') (hend : N' + k' ≤ N + k) : Stuck c live i fs N k := by
  obtain ⟨fs'', M, d'', E, hreached', hM, hnodup, hE, hfew⟩ := h
  refine ⟨fs'', M, d'', E, hreached.trans hreached', hle.trans hM, hnodup, ?_, hfew⟩
  intro x hx
  obtain ⟨hinode, hvalid, hzero, hlo, hhi⟩ := hE x hx
  exact ⟨hinode, hvalid, hzero, hlo, by omega⟩

/-- Who gets stuck did not have the blocks to begin with. -/
theorem Stuck.few (hP : 1 < pointers_per_block c) (h : Stuck c live i fs N k)
    (hw : Prepared c live i N d fs) : fs.TOTAL_UNALLOCATED_BLOCKS < needed c N k := by
  obtain ⟨fs', N', d', E, ⟨⟨D, hgrew⟩, hprepared⟩, hN, hnodup, hE, hfew⟩ := h
  have hsome : N' < N + k := by
    obtain ⟨x, hx⟩ := List.exists_mem_of_length_pos (Nat.zero_lt_of_lt hfew)
    obtain ⟨-, -, -, hlo, hhi⟩ := hE x hx
    omega
  have happend : (D ++ E).Nodup := by
    refine List.nodup_append'.mpr ⟨hgrew.nodup, hnodup, ?_⟩
    intro x hD hx
    exact (hgrew.fresh x hD).2.1 (hE x hx).2.2.1
  have hle := nodes_length_le (i := i) (a := N) (b := N + k) hP happend (by
    intro x hx
    rcases List.mem_append.mp hx with hD | hx
    · obtain ⟨hzero, hset, -⟩ := hgrew.fresh x hD
      have hinode := hgrew.inode x hD
      have hvalid := (hgrew.held x hD).valid
      obtain ⟨j, s, path⟩ := x
      obtain rfl : j = i := hinode
      have hbefore : ¬ first_index c s path < N := fun hlt =>
        (hw.full s path hvalid).mpr (Or.inl hlt) hzero
      have hafter := (hprepared.full s path hvalid).mp hset
      exact ⟨rfl, hvalid, by simp only; omega, by simp only; omega⟩
    · obtain ⟨hinode, hvalid, -, hlo, hhi⟩ := hE x hx
      exact ⟨hinode, hvalid, by omega, hhi⟩)
  have htotal := hgrew.total
  rw [List.length_append] at hle
  unfold needed
  omega

section Same

theorem le_ofLe (l : List UInt8) : le l.length (ofLe l) = l := by
  induction l with
  | nil => rfl
  | cons x l ih =>
    have hx := x.toNat_lt
    rw [List.length_cons, ofLe, le, Nat.add_mul_div_left _ _ (by decide),
      Nat.div_eq_of_lt (by omega), Nat.zero_add, ih]
    congr 1
    apply UInt8.toNat_inj.mp
    simp

theorem set_indirect_same : set_indirect c fs b k (indirect c fs b k) = fs := by
  have hbytes : le 4 (indirect c fs b k) =
      (List.range 4).map fun j => fs.block (slot c b) (4 * k + j) := by
    have h := le_ofLe ((List.range 4).map fun j => fs.block (slot c b) (4 * k + j))
    rwa [List.length_map, List.length_range] at h
  have hblock : (fun j => if 4 * k ≤ j ∧ j < 4 * k + 4 then
      (le 4 (indirect c fs b k)).getD (j - 4 * k) 0 else fs.block (slot c b) j) =
      fs.block (slot c b) := by
    funext j
    split_ifs with hj
    · rw [hbytes, List.getD_eq_getElem _ _ (by simp; omega), List.getElem_map, List.getElem_range,
        Nat.add_sub_cancel' hj.1]
    · rfl
  unfold set_indirect
  rw [hblock, Function.update_eq_self]

theorem set_slot_same (hs : s < 15) : set_slot fs i s (pointer (fs.inode i) s) = fs := by
  have hself : ∀ anInode, anInode = fs.inode i → set_inode fs i anInode = fs := by
    rintro _ rfl
    unfold set_inode
    rw [Function.update_eq_self]
  unfold set_slot pointer
  split_ifs
  · apply hself
    have hdata : (fun j => if s ≤ j ∧ j < s + 1 then [(fs.inode i).pointer_data_0 s].getD (j - s) 0
        else (fs.inode i).pointer_data_0 j) = (fs.inode i).pointer_data_0 := by
      funext j
      split_ifs with hj
      · obtain rfl : j = s := by omega
        rw [Nat.sub_self]
        rfl
      · rfl
    simp only [List.length_singleton, hdata]
  · exact hself _ rfl
  · exact hself _ rfl
  · exact hself _ rfl

/-- A pointer written as it is. -/
theorem set_ptr_same (hs : s < 15) (habove : ∀ k p, path = k :: p → ptr c fs i s p ≠ 0) :
    set_ptr c fs i s path (ptr c fs i s path) = fs := by
  cases path with
  | nil => exact set_slot_same hs
  | cons k path =>
    rw [set_ptr, ptr_cons (habove k path rfl)]
    exact set_indirect_same

end Same

theorem partial_iff (hs : s < 15) (hlength : path.length + 1 = height s)
    (hfirst : first_index c s path ≤ N) (hlt : N < first_index c s path + pointers_per_block c) :
    Partial c fs N r ↔ first_index c s path < N ∧
      fs.TOTAL_UNALLOCATED_BLOCKS < min (first_index c s path + pointers_per_block c - N) r := by
  obtain ⟨m, hm⟩ := first_index_above (c := c) hs (show path.length < height s by omega)
  have hmod : (N - 12) % pointers_per_block c = N - first_index c s path := by
    rw [show N - 12 = N - first_index c s path + pointers_per_block c * m by omega,
      Nat.add_mul_mod_self_left, Nat.mod_eq_of_lt (by omega)]
  unfold Partial
  rw [hmod]
  omega

/-- `check_and_attach1` with an indirect block without a free pointer. -/
theorem check_and_attach1_full
    (h : pointers_per_block c ≤ sub_entries (indirect c w.file b) (pointers_per_block c)) :
    check_and_attach1 c b r w = (if w.errno = some .ENOSPC then none else some 0, w) := by
  have hnone : pointers_per_block c -
      sub_entries (indirect c w.file b) (pointers_per_block c) = 0 := Nat.sub_eq_zero_of_le h
  unfold check_and_attach1
  simp only [hnone, Nat.zero_min, gt_iff_lt, Nat.lt_irrefl, if_false]

/-- `check_and_attach1` with an indirect block whose first `e` pointers are set. -/
theorem check_and_attach1_of_lt
    (h : sub_entries (indirect c w.file b) (pointers_per_block c) = e)
    (he : e < pointers_per_block c) :
    check_and_attach1 c b r w =
      (if (Inode_Indirect_Attach1 c b e (min (pointers_per_block c - e) r) w).errno =
          some .ENOSPC then none else some (min (pointers_per_block c - e) r),
        Inode_Indirect_Attach1 c b e (min (pointers_per_block c - e) r) w) := by
  have hsome : 0 < pointers_per_block c - e := Nat.sub_pos_of_lt he
  unfold check_and_attach1
  simp only [h, gt_iff_lt, hsome, if_true]

section Steps

variable (hP : 1 < pointers_per_block c) (hwords : c.BLOCK_SIZE = 4 * pointers_per_block c)
  (hw : Prepared c live i N d w.file) (hi : live i) (hvalid : Valid c s path)
include hP hw hi hvalid

include hwords in
/-- An indirect block is there after `check_and_set_Ind`, if there was a block for it. -/
theorem check_and_set_Ind_spec (hlt : path.length < height s) (hfirst : first_index c s path ≤ N)
    (hfresh : first_index c s path = N → Fresh c i N w.file)
    (habove : ∀ k p, path = k :: p → ptr c w.file i s p ≠ 0) :
    (check_and_set_Ind c (ptr c w.file i s path) w = .error .null ∧ first_index c s path = N ∧
      Stuck c live i w.file N 1) ∨
    ∃ v fs₁ d', check_and_set_Ind c (ptr c w.file i s path) w = .ok (v, { w with file := fs₁ }) ∧
      fs₁.inode = w.file.inode ∧ fs₁.block = w.file.block ∧
      Reached c live i w.file N d' (set_ptr c fs₁ i s path v) ∧
      ptr c (set_ptr c fs₁ i s path v) i s path ≠ 0 ∧
      (first_index c s path < N → set_ptr c fs₁ i s path v = w.file) ∧
      ∀ b m, Coming c i N b m w.file → Coming c i N b m (set_ptr c fs₁ i s path v) := by
  have hx : Held c live ⟨i, s, path⟩ := ⟨hi, hvalid⟩
  unfold check_and_set_Ind
  by_cases hzero : ptr c w.file i s path = 0
  · have heq : first_index c s path = N := by
      have : ¬ first_index c s path < N := fun h =>
        (hw.full s path hvalid).mpr (Or.inl h) hzero
      omega
    rw [if_neg (not_not.mpr hzero)]
    rcases Nat.eq_zero_or_pos w.file.TOTAL_UNALLOCATED_BLOCKS with hnone | hsome
    · rw [Get_Free_Blocks_refused (by omega)]
      refine Or.inl ⟨rfl, heq, w.file, N, d, [⟨i, s, path⟩], hw.reached, le_rfl,
        List.nodup_singleton _, ?_, hnone.trans_lt Nat.one_pos⟩
      intro y hy
      obtain rfl := List.mem_singleton.mp hy
      exact ⟨rfl, hvalid, hzero, heq.ge, by simp only; omega⟩
    · obtain ⟨l, fs₁, hget, halloc⟩ := Get_Free_Blocks_allocated hw.pool hsome
      obtain ⟨b, rfl⟩ := List.length_eq_one_iff.mp halloc.length
      have hblock : IsBlock c b := halloc.block b (by simp)
      have hempty : ∀ k < pointers_per_block c, indirect c w.file b k = 0 := by
        intro k hk
        refine indirect_eq_zero.mpr fun j hj => ?_
        rw [hw.pool.slot hblock]
        exact (hfresh heq).clean hP hw.full hvalid hlt heq hzero halloc _ (by omega)
      have hgrew := grow_indirect hw.owned hw.pool hx hzero habove halloc hempty
      have hset := (hgrew.fresh _ (List.mem_singleton_self _)).2.1
      have hself := ptr_grow_indirect hw.owned hw.pool hx habove halloc
      have hcoming : ∀ d m, Coming c i N d m w.file →
          Coming c i N d m (set_ptr c fs₁ i s path b) := by
        intro d m hcoming
        have hN : N < level_start c 4 := heq ▸ hvalid.first_lt hP
        refine hcoming.grew hP hi hN hgrew ((mem_way hP hN).mpr ⟨rfl, hvalid, heq⟩) ?_
        have hbelow := hcoming.below hP hw.full hvalid hlt heq hzero halloc
        rwa [← hself] at hbelow
      rw [hget]
      exact Or.inr ⟨b, fs₁, path.length + 1, rfl, halloc.inode,
        funext fun d => halloc.kept d (by simp),
        hgrew.reached (hw.full.grow_indirect hP hi hgrew hvalid hlt heq habove), hset,
        fun h => absurd heq h.ne, hcoming⟩
  · have hsame := set_ptr_same hvalid.slot habove
    rw [if_pos hzero]
    refine Or.inr ⟨_, w.file, d, rfl, rfl, rfl, ?_, ?_, fun _ => hsame, ?_⟩
    · rw [hsame]
      exact hw.reached
    · rw [hsame]
      exact hzero
    · rw [hsame]
      exact fun _ _ h => h

include hwords in
theorem check_and_set_entry_spec (hlt : path.length + 1 < height s)
    (hk : k < pointers_per_block c) (hfirst : first_index c s (k :: path) ≤ N)
    (hfresh : first_index c s (k :: path) = N → Fresh c i N w.file)
    (hne : ptr c w.file i s path ≠ 0) :
    (check_and_set_entry c (ptr c w.file i s path) k w = .error .null ∧
      first_index c s (k :: path) = N ∧ Stuck c live i w.file N 1) ∨
    ∃ w' d', check_and_set_entry c (ptr c w.file i s path) k w = .ok w' ∧ w'.errno = w.errno ∧
      Reached c live i w.file N d' w'.file ∧ ptr c w'.file i s (k :: path) ≠ 0 ∧
      (first_index c s (k :: path) < N → w' = w) ∧
      ∀ b m, Coming c i N b m w.file → Coming c i N b m w'.file := by
  have hentry : Valid c s (k :: path) := hvalid.cons (by omega) hk
  have habove : ∀ l p, k :: path = l :: p → ptr c w.file i s p ≠ 0 := by
    intro l p h
    cases h
    exact hne
  have hspec := check_and_set_Ind_spec hP hwords hw hi hentry hlt hfirst hfresh habove
  rw [ptr_cons hne] at hspec
  unfold check_and_set_entry
  rcases hspec with ⟨herror, heq, hstuck⟩ | ⟨v, fs₁, d', hok, hinode, hblock, hreached, hset, hsame, hcoming⟩
  · rw [herror]
    exact Or.inl ⟨rfl, heq, hstuck⟩
  · rw [hok]
    have hptr : set_ptr c fs₁ i s (k :: path) v =
        set_indirect c fs₁ (ptr c w.file i s path) k v := by
      rw [set_ptr, ptr_congr hinode hblock]
    rw [hptr] at hreached hset hsame hcoming
    refine Or.inr ⟨_, d', rfl, rfl, hreached, hset, ?_, hcoming⟩
    intro h
    rw [hsame h]

omit hP hi in
/-- The pointers of an indirect block at the lowest level. -/
theorem sub_entries_level1 (hlength : path.length + 1 = height s)
    (hne : ptr c w.file i s path ≠ 0) :
    sub_entries (indirect c w.file (ptr c w.file i s path)) (pointers_per_block c) =
      min (pointers_per_block c) (N - first_index c s path) := by
  apply sub_entries_eq
  intro k hk
  have hentry : Valid c s (k :: path) := hvalid.cons (by omega) hk
  rw [← ptr_cons hne, hw.full s _ hentry, first_index_entry hlength, List.length_cons]
  omega

/-- `check_and_attach1` fills the indirect block as far as it is asked to, or does nothing. -/
theorem check_and_attach1_spec (hlength : path.length + 1 = height s)
    (hne : ptr c w.file i s path ≠ 0) (hfirst : first_index c s path ≤ N) (hr : 0 < r)
    (hk : k = min (first_index c s path + pointers_per_block c - N) r) :
    (∃ w', check_and_attach1 c (ptr c w.file i s path) r w =
      (if w.errno = some .ENOSPC then none else some k, w') ∧ Attached c live i N k r w w') ∨
    (check_and_attach1 c (ptr c w.file i s path) r w =
      (none, { w with errno := some .ENOSPC }) ∧ 0 < k ∧
      w.file.TOTAL_UNALLOCATED_BLOCKS < k ∧ Stuck c live i w.file N k) := by
  have hx : Held c live ⟨i, s, path⟩ := ⟨hi, hvalid⟩
  have hsub := sub_entries_level1 hw hvalid hlength hne
  rcases Nat.eq_zero_or_pos k with hk0 | hkpos
  · -- all the pointers of the block are set
    rw [check_and_attach1_full (by omega), hk0]
    exact Or.inl ⟨w, rfl, rfl, Or.inl ⟨rfl, rfl⟩⟩
  · obtain ⟨e, he⟩ : ∃ e, N = first_index c s path + e := ⟨N - first_index c s path, by omega⟩
    have hcopy : min (pointers_per_block c - e) r = k := by omega
    rw [check_and_attach1_of_lt (e := e) (by omega) (by omega), hcopy, Inode_Indirect_Attach1]
    have hzero : ∀ j < k, ptr c w.file i s ((e + j) :: path) = 0 := by
      intro j hj
      have hentry : Valid c s ((e + j) :: path) := hvalid.cons (by omega) (by omega)
      by_contra hset
      have := (hw.full s _ hentry).mp hset
      rw [first_index_entry hlength, List.length_cons] at this
      omega
    by_cases hfew : w.file.TOTAL_UNALLOCATED_BLOCKS < k
    · rw [Get_Free_Blocks_refused hfew]
      refine Or.inr ⟨rfl, hkpos, hfew, w.file, N, d, entries i s path e k, hw.reached, le_rfl,
        entries_nodup, ?_, by simpa [entries] using hfew⟩
      intro y hy
      obtain ⟨j, hj, rfl⟩ := mem_entries.mp hy
      have hentry : Valid c s ((e + j) :: path) := hvalid.cons (by omega) (by omega)
      refine ⟨rfl, hentry, hzero j hj, ?_, ?_⟩
      · rw [first_index_entry hlength]
        omega
      · rw [first_index_entry hlength]
        omega
    · obtain ⟨l, fs₁, hget, halloc⟩ := Get_Free_Blocks_allocated hw.pool (Nat.not_lt.mp hfew)
      rw [hget]
      dsimp only
      rw [List.take_of_length_le halloc.length.le]
      have hwhole : ¬ Partial c w.file N r := by
        intro hpart
        have := ((partial_iff hvalid.slot hlength hfirst (by omega)).mp hpart).2
        omega
      have hgrew := grow_entries hw.owned hw.pool hx hlength hne (e := e) (by omega) (by
        intro j hj
        rw [← ptr_cons hne]
        exact hzero j hj) halloc
      have hreached := hgrew.reached (hw.full.grow_entries hP hi hgrew hvalid hlength hne he
        (by omega) hkpos)
      have hgiven : Given c i N r w.file (set_indirects c fs₁ (ptr c w.file i s path) e l) := by
        rintro b m rfl hcoming
        obtain rfl : k = 1 := by omega
        obtain ⟨v, rfl⟩ := List.length_eq_one_iff.mp halloc.length
        have hentry : Valid c s (e :: path) := hvalid.cons (by omega) (by omega)
        have hleaf : Leaf c s (e :: path) := hentry.leaf (by rw [List.length_cons, hlength])
        refine hcoming.given hP hgrew hleaf ?_ ?_ halloc ?_
        · rw [Nat.add_zero, ← first_index_leaf hleaf, first_index_entry hlength, he]
        · rintro _ _ ⟨⟩
          exact hne
        · rw [set_indirects_image]
          rfl
      exact Or.inl ⟨_, rfl, rfl, Or.inr ⟨⟨hkpos, by omega⟩, hwhole, hreached, hgiven⟩⟩

end Steps

end LaLiga.Rfs
