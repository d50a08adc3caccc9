import LaLiga.Rfs.Growth
import LaLiga.Rfs.Tree

/-! The allocations of `Attach_Blocks`: an indirect block, some entries of one, some direct
pointers. -/
namespace LaLiga.Rfs

open LaLiga.Lib

variable {c : Superblock_constants} {live : Nat → Prop} {fs fs' fs₁ : Image} {T : Node → Prop}
  {i j s t e k n b : Nat} {path q : List Nat} {l : List Nat} {x : Node}

/-- Where only leaves have been touched, the other nodes are as they were. -/
theorem Untouched.kept (h : Untouched c live fs fs' T) (hT : ∀ y, T y → Leaf c y.slot y.path)
    (hx : Held c live x) (hnot : ¬ T x) : x.ptr c fs' = x.ptr c fs := by
  refine h.ptr hx ?_
  intro p hp hmem
  have hlength : x.path.length ≤ p.length := hx.valid.length.trans_eq (hT _ hmem).length.symm
  obtain ⟨i, s, path⟩ := x
  rw [hp.eq_of_length_le hlength] at hmem
  exact hnot hmem

/-- An allocation leaves the indirect blocks in use as they are. -/
theorem Allocated.indirect (hpool : Pool c fs) (halloc : Allocated c fs n l fs₁)
    (hb : IsBlock c b) (hused : used c fs b = true) : indirect c fs₁ b k = Rfs.indirect c fs b k := by
  have hnot : b ∉ l.dropLast := by
    intro hmem
    have hfree := halloc.clear b (List.mem_of_mem_dropLast hmem)
    rw [hused] at hfree
    cases hfree
  rw [Rfs.indirect, Rfs.indirect, hpool.slot hb, halloc.kept b hnot]

section Indirect

variable (hown : Owned c live fs) (hpool : Pool c fs)
include hown hpool

/-- The new block can be found through the pointer. -/
theorem ptr_grow_indirect (hx : Held c live ⟨i, s, path⟩)
    (habove : ∀ k p, path = k :: p → ptr c fs i s p ≠ 0) (halloc : Allocated c fs 1 [b] fs₁) :
    ptr c (set_ptr c fs₁ i s path b) i s path = b := by
  have hblock : IsBlock c b := halloc.block b (by simp)
  have hkept₁ : fs₁.block = fs.block := funext fun d => halloc.kept d (by simp)
  have hset := set_ptr_congr c i s path b halloc.inode hkept₁
  rw [ptr_congr hset.1 hset.2]
  exact ptr_set_ptr_self hown hpool hx habove hblock.lt

/-- A new indirect block without entries. -/
theorem grow_indirect (hx : Held c live ⟨i, s, path⟩) (hzero : ptr c fs i s path = 0)
    (habove : ∀ k p, path = k :: p → ptr c fs i s p ≠ 0) (halloc : Allocated c fs 1 [b] fs₁)
    (hempty : ∀ k < pointers_per_block c, indirect c fs b k = 0) :
    Grew c live i fs [⟨i, s, path⟩] (set_ptr c fs₁ i s path b) := by
  have hblock : IsBlock c b := halloc.block b (by simp)
  have hkept₁ : fs₁.block = fs.block := funext fun d => halloc.kept d (by simp)
  have hset := set_ptr_congr c i s path b halloc.inode hkept₁
  have hptr : ∀ y : Node, y.ptr c (set_ptr c fs₁ i s path b) =
      y.ptr c (set_ptr c fs i s path b) := fun y => ptr_congr hset.1 hset.2
  have hself : ptr c (set_ptr c fs i s path b) i s path = b :=
    ptr_set_ptr_self hown hpool hx habove hblock.lt
  -- the block above is in use, so it is not the new one
  have hnew : ∀ k p, path = k :: p → b ≠ slot c (ptr c fs i s p) := by
    rintro k p rfl heq
    have hne := habove k p rfl
    have hslot : slot c (ptr c fs i s p) = ptr c fs i s p :=
      hpool.slot (hown.block ⟨i, s, p⟩ hx.tail hne)
    have hfree := halloc.clear b (by simp)
    have hused : used c fs (ptr c fs i s p) = true := hown.used ⟨i, s, p⟩ hx.tail hne
    rw [heq, hslot, hused] at hfree
    cases hfree
  have hbelow : ∀ k, Valid c s (k :: path) →
      ptr c (set_ptr c fs i s path b) i s (k :: path) = 0 := by
    intro k hk
    have hne : ptr c (set_ptr c fs i s path b) i s path ≠ 0 := hself.trans_ne hblock.ne_zero
    rw [ptr_cons hne, hself, indirect, hpool.slot hblock, set_ptr_block hnew]
    have hentry := hempty k hk.digit
    rwa [indirect, hpool.slot hblock] at hentry
  refine Grew.of_allocated hown halloc (List.nodup_singleton _) (by simp) (by simpa using hx)
    ?_ ?_ ?_ (by simp) (by simp) (by simp) ?_ set_ptr_kept same_set_ptr
  · intro y hy
    obtain rfl := List.mem_singleton.mp hy
    exact hzero
  · rw [List.map_singleton]
    exact congrArg (fun v => [v]) (ptr_grow_indirect hown hpool hx habove halloc)
  · intro y hy hnot
    have hyx : y ≠ ⟨i, s, path⟩ := by simpa using hnot
    rw [hptr]
    by_cases hunder : y.inode = i ∧ y.slot = s ∧ path <:+ y.path
    · obtain ⟨j, t, q⟩ := y
      obtain ⟨rfl, rfl, hq⟩ := hunder
      obtain ⟨k, hk⟩ := exists_suffix_below hq fun h => hyx (by simp only at h; rw [h])
      show ptr c _ j t q = ptr c fs j t q
      rw [ptr_below_suffix hq hzero, ptr_below_suffix hk (hbelow k (hy.suffix hk).valid)]
    · refine (set_ptr_untouched hown hpool hx habove).ptr hy ?_
      intro p hp heq
      cases heq
      exact hunder ⟨rfl, rfl, hp⟩
  · intro d hparent
    apply set_ptr_block
    rintro k p rfl
    have hne := habove k p rfl
    have hup : ptr c (set_ptr c fs₁ i s (k :: p) b) i s p = ptr c fs i s p :=
      ptr_set_ptr_tail hown hpool hx hne halloc.inode hkept₁
    have hslot : slot c (ptr c fs i s p) = ptr c fs i s p :=
      hpool.slot (hown.block ⟨i, s, p⟩ hx.tail hne)
    rw [ptr_congr halloc.inode hkept₁, hslot, ← hup]
    exact hparent _ (List.mem_singleton_self _) k p rfl

/-- The nodes of `k` entries of an indirect block from `e` on. -/
def entries (i s : Nat) (path : List Nat) (e k : Nat) : List Node :=
  (List.range k).map fun j => ⟨i, s, (e + j) :: path⟩

omit hown hpool in
theorem mem_entries : x ∈ entries i s path e k ↔ ∃ j < k, x = ⟨i, s, (e + j) :: path⟩ := by
  simp [entries, eq_comm]

omit hown hpool in
theorem entries_nodup : (entries i s path e k).Nodup := by
  refine List.Nodup.map ?_ List.nodup_range
  intro a b h
  simpa using h

/-- New data blocks in the next entries of an indirect block. -/
theorem grow_entries (hx : Held c live ⟨i, s, path⟩) (hlength : path.length + 1 = height s)
    (hne : ptr c fs i s path ≠ 0) (he : e + k ≤ pointers_per_block c)
    (hold : ∀ j < k, indirect c fs (ptr c fs i s path) (e + j) = 0)
    (halloc : Allocated c fs k l fs₁) :
    Grew c live i fs (entries i s path e k) (set_indirects c fs₁ (ptr c fs i s path) e l) := by
  have hblock : IsBlock c (ptr c fs i s path) := hown.block ⟨i, s, path⟩ hx hne
  have hl : ∀ v ∈ l, v < 2 ^ 32 := fun v hv => (halloc.block v hv).lt
  have himage : set_indirects c fs₁ (ptr c fs i s path) e l =
      { fs₁ with block := (set_indirects c fs₁ (ptr c fs i s path) e l).block } :=
    set_indirects_image
  have hinode : (set_indirects c fs₁ (ptr c fs i s path) e l).inode = fs.inode := by
    rw [himage]
    exact halloc.inode
  have hleaf : ∀ y ∈ entries i s path e k, Leaf c y.slot y.path := by
    intro y hy
    obtain ⟨j, hj, rfl⟩ := mem_entries.mp hy
    have hvalid : Valid c s path := hx.valid
    exact (hvalid.cons (by omega) (by omega)).leaf (by rw [List.length_cons, hlength])
  have huntouched : Untouched c live fs (set_indirects c fs₁ (ptr c fs i s path) e l)
      (· ∈ entries i s path e k) := by
    constructor
    · intro j t _ _ _
      rw [hinode]
    · intro j t q k' hj hvalid hne' hnot
      have hq : Held c live ⟨j, t, q⟩ := ⟨hj, hvalid.tail⟩
      have hblock' : IsBlock c (ptr c fs j t q) := hown.block ⟨j, t, q⟩ hq hne'
      have hsame : indirect c fs₁ (ptr c fs j t q) k' = indirect c fs (ptr c fs j t q) k' :=
        halloc.indirect hpool hblock' (hown.used ⟨j, t, q⟩ hq hne')
      rw [indirect_set_indirects hl, if_neg, hsame]
      rintro ⟨hslot, hlo, hhi⟩
      rw [hpool.slot hblock', hpool.slot hblock] at hslot
      cases hown.inj ⟨j, t, q⟩ ⟨i, s, path⟩ hq hx hne' hslot
      rw [halloc.length] at hhi
      exact hnot (mem_entries.mpr ⟨k' - e, by omega, by rw [Nat.add_sub_cancel' hlo]⟩)
  have hkept : ∀ y, Held c live y → y ∉ entries i s path e k →
      y.ptr c (set_indirects c fs₁ (ptr c fs i s path) e l) = y.ptr c fs := fun y hy hnot =>
    huntouched.kept hleaf hy hnot
  have hup : ptr c (set_indirects c fs₁ (ptr c fs i s path) e l) i s path = ptr c fs i s path := by
    refine hkept ⟨i, s, path⟩ hx fun hmem => ?_
    obtain ⟨j, -, heq⟩ := mem_entries.mp hmem
    have hpath : path = (e + j) :: path := congrArg Node.path heq
    exact absurd (congrArg List.length hpath) (by simp)
  refine Grew.of_allocated hown halloc entries_nodup ?_ ?_ ?_ ?_ hkept ?_ ?_ ?_ ?_ ?_ ?_
  · intro y hy
    obtain ⟨j, -, rfl⟩ := mem_entries.mp hy
    rfl
  · intro y hy
    refine ⟨?_, (hleaf y hy).valid⟩
    obtain ⟨j, -, rfl⟩ := mem_entries.mp hy
    exact hx.inode
  · intro y hy
    obtain ⟨j, hj, rfl⟩ := mem_entries.mp hy
    show ptr c fs i s ((e + j) :: path) = 0
    rw [ptr_cons hne, hold j hj]
  · apply List.ext_getElem
    · rw [entries, List.length_map, List.length_map, List.length_range, halloc.length]
    · intro j hj hj'
      have hjk : j < k := halloc.length ▸ hj'
      simp only [entries, List.getElem_map, List.getElem_range]
      show ptr c _ i s ((e + j) :: path) = l[j]
      rw [ptr_cons (hup.trans_ne hne), hup, indirect_set_indirects hl,
        if_pos ⟨rfl, Nat.le_add_right e j, by rw [halloc.length]; omega⟩, Nat.add_sub_cancel_left,
        List.getD_eq_getElem _ _ hj']
  · rw [himage]
  · rw [himage]
  · rw [himage]
  · intro d hparent
    rcases Nat.eq_zero_or_pos k with rfl | hk
    · obtain rfl := List.length_eq_zero_iff.mp halloc.length
      rfl
    · have hd : d ≠ ptr c fs i s path := by
        rw [← hup]
        exact hparent _ (mem_entries.mpr ⟨0, hk, rfl⟩) (e + 0) path rfl
      apply set_indirects_block
      rwa [hpool.slot hblock]
  · rw [himage]
    exact .of_eq rfl
  · exact same_set_indirects l

/-- The nodes of `k` direct pointers from `n` on. -/
def slots (i n k : Nat) : List Node := (List.range k).map fun j => ⟨i, n + j, []⟩

omit hown hpool in
theorem mem_slots : x ∈ slots i n k ↔ ∃ j < k, x = ⟨i, n + j, []⟩ := by
  simp [slots, eq_comm]

omit hown hpool in
theorem slots_nodup : (slots i n k).Nodup := by
  refine List.Nodup.map ?_ List.nodup_range
  intro a b h
  simpa using h

/-- New data blocks in the next direct pointers. -/
theorem grow_slots (hi : live i) (hn : n + k ≤ 12)
    (hold : ∀ j < k, (fs.inode i).pointer_data_0 (n + j) = 0) (halloc : Allocated c fs k l fs₁) :
    Grew c live i fs (slots i n k) (set_pointer_data_0 fs₁ i n l) := by
  have hleaf : ∀ y ∈ slots i n k, Leaf c y.slot y.path := by
    intro y hy
    obtain ⟨j, hj, rfl⟩ := mem_slots.mp hy
    exact ⟨by simp only; omega, (height_direct (by simp only; omega)).symm, by simp⟩
  have hpointer : ∀ j t, t < 15 → pointer ((set_pointer_data_0 fs₁ i n l).inode j) t =
      if j = i ∧ n ≤ t ∧ t < n + k then l.getD (t - n) 0 else pointer (fs.inode j) t := by
    intro j t ht
    have hlen := halloc.length
    by_cases hj : j = i
    · subst hj
      by_cases hin : n ≤ t ∧ t < n + k
      · rw [if_pos ⟨rfl, hin⟩, pointer, if_pos (by omega), set_pointer_data_0, set_inode_self]
        exact if_pos (by rw [hlen]; exact hin)
      · rw [if_neg fun h => hin h.2, set_pointer_data_0, set_inode_self]
        simp only [pointer, hlen, if_neg hin, halloc.inode]
    · rw [set_pointer_data_0, set_inode_of_ne hj, halloc.inode, if_neg fun h => hj h.1]
  have huntouched : Untouched c live fs (set_pointer_data_0 fs₁ i n l) (· ∈ slots i n k) := by
    constructor
    · intro j t _ ht hnot
      rw [hpointer j t ht, if_neg]
      rintro ⟨rfl, hlo, hhi⟩
      exact hnot (mem_slots.mpr ⟨t - n, by omega, by rw [Nat.add_sub_cancel' hlo]⟩)
    · intro j t q k' hj hvalid hne _
      have hq : Held c live ⟨j, t, q⟩ := ⟨hj, hvalid.tail⟩
      show indirect c fs₁ (ptr c fs j t q) k' = indirect c fs (ptr c fs j t q) k'
      exact halloc.indirect hpool (hown.block ⟨j, t, q⟩ hq hne) (hown.used ⟨j, t, q⟩ hq hne)
  refine Grew.of_allocated hown halloc slots_nodup ?_ ?_ ?_ ?_
    (fun y hy hnot => huntouched.kept hleaf hy hnot) rfl rfl rfl (fun _ _ => rfl) ?_
    (same_set_inode rfl)
  · intro y hy
    obtain ⟨j, -, rfl⟩ := mem_slots.mp hy
    rfl
  · intro y hy
    refine ⟨?_, (hleaf y hy).valid⟩
    obtain ⟨j, -, rfl⟩ := mem_slots.mp hy
    exact hi
  · intro y hy
    obtain ⟨j, hj, rfl⟩ := mem_slots.mp hy
    show pointer (fs.inode i) (n + j) = 0
    rw [pointer, if_pos (by omega), hold j hj]
  · apply List.ext_getElem
    · rw [slots, List.length_map, List.length_map, List.length_range, halloc.length]
    · intro j hj hj'
      have hjk : j < k := halloc.length ▸ hj'
      simp only [slots, List.getElem_map, List.getElem_range]
      show pointer _ (n + j) = l[j]
      rw [hpointer i (n + j) (by omega), if_pos ⟨rfl, by omega, by omega⟩, Nat.add_sub_cancel_left,
        List.getD_eq_getElem _ _ hj']
  · constructor
    · exact fun j hj => set_inode_of_ne hj
    all_goals simp [set_pointer_data_0]

end Indirect

end LaLiga.Rfs
