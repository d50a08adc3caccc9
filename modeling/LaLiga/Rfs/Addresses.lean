import LaLiga.Rfs.Blocks

/-! The data blocks of an inode, directly and through up to three levels of indirection. -/
namespace LaLiga.Rfs

open LaLiga.Lib

variable (c : Superblock_constants)

/-- `x` as a `uint32_t`. -/
def uint32 (x : Int) : Nat := (x % 2 ^ 32).toNat

def pointers_per_block : Nat := c.BLOCK_SIZE / 4

/-- The `k`th `uint32_t` of the block `b`. -/
def indirect (fs : Image) (b k : Nat) : Nat :=
  ofLe ((List.range 4).map fun j => fs.block (slot c b) (4 * k + j))

def Inode_Indirect_Read1 (fs : Image) (indirect_block blocks_to_read : Nat) :
    Option (List Nat) :=
  if blocks_to_read > pointers_per_block c then none
  else some ((List.range blocks_to_read).map (indirect c fs indirect_block))

/-- `Inode_Indirect_Read1` for level 1, `Inode_Indirect_Read23` for those above. The powers
are exact as `double`, and a level is only reached when they fit a `uint32_t`. -/
def Indirect_Read (fs : Image) : Nat → Nat → Nat → Option (List Nat)
  | 0, _, _ => none
  | 1, indirect_block, blocks_to_read => Inode_Indirect_Read1 c fs indirect_block blocks_to_read
  | level + 2, indirect_block, blocks_to_read =>
    let max_blocks_to_read_level := pointers_per_block c ^ (level + 2)
    let blocks_per_full_entry := pointers_per_block c ^ (level + 1)
    let full_read_entries := blocks_to_read / blocks_per_full_entry
    let remaining_blocks_to_read := blocks_to_read % blocks_per_full_entry
    if blocks_to_read > max_blocks_to_read_level then none
    else do
      let full ← (List.range full_read_entries).mapM fun i =>
        Indirect_Read fs (level + 1) (indirect c fs indirect_block i) blocks_per_full_entry
      let rest ←
        if remaining_blocks_to_read > 0 then
          Indirect_Read fs (level + 1) (indirect c fs indirect_block full_read_entries)
            remaining_blocks_to_read
        else some []
      some (full.flatten ++ rest)

/-- The list has one more cell than blocks, which `calloc` left 0. -/
def Inode_Get_Data_Adressess (fs : Image) (anInode : inode_t) (file_size : Nat) :
    Option (List Nat) :=
  let cantidadDeBloques := max (Size_In_Blocks c file_size) 1
  let cantidadPunterosABloques := pointers_per_block c
  let directos := fun n => (List.range n).map anInode.pointer_data_0
  if cantidadDeBloques ≤ 12 then some (directos cantidadDeBloques ++ [0])
  else do
    let cantidadDeBloques := cantidadDeBloques - 12
    if cantidadDeBloques ≤ cantidadPunterosABloques then
      let level1 ← Indirect_Read c fs 1 anInode.pointer_data_1 cantidadDeBloques
      some (directos 12 ++ level1 ++ [0])
    else
      let level1 ← Indirect_Read c fs 1 anInode.pointer_data_1 cantidadPunterosABloques
      let cantidadDeBloques := cantidadDeBloques - cantidadPunterosABloques
      if cantidadDeBloques ≤ cantidadPunterosABloques ^ 2 then
        let level2 ← Indirect_Read c fs 2 anInode.pointer_data_2 cantidadDeBloques
        some (directos 12 ++ level1 ++ level2 ++ [0])
      else
        let level2 ← Indirect_Read c fs 2 anInode.pointer_data_2 (cantidadPunterosABloques ^ 2)
        let cantidadDeBloques := cantidadDeBloques - cantidadPunterosABloques ^ 2
        if cantidadDeBloques ≤ cantidadPunterosABloques ^ 3 then
          let level3 ← Indirect_Read c fs 3 anInode.pointer_data_3 cantidadDeBloques
          some (directos 12 ++ level1 ++ level2 ++ level3 ++ [0])
        else none

/-- The block that the `k`th leaf under the indirect block `b` points to. -/
def leaf (fs : Image) : Nat → Nat → Nat → Nat
  | 0, b, _ => b
  | level + 1, b, k =>
    leaf fs level (indirect c fs b (k / pointers_per_block c ^ level))
      (k % pointers_per_block c ^ level)

/-- Where the indexes of each level start. -/
def level_start : Nat → Nat
  | 0 => 0
  | 1 => 12
  | level + 2 => level_start (level + 1) + pointers_per_block c ^ (level + 1)

/-- The block with logical index `n` of an inode. -/
def data_pointer (fs : Image) (anInode : inode_t) (n : Nat) : Nat :=
  if n < level_start c 1 then anInode.pointer_data_0 n
  else if n < level_start c 2 then leaf c fs 1 anInode.pointer_data_1 (n - level_start c 1)
  else if n < level_start c 3 then leaf c fs 2 anInode.pointer_data_2 (n - level_start c 2)
  else leaf c fs 3 anInode.pointer_data_3 (n - level_start c 3)

variable {c} {fs : Image} {b n level : Nat}

/-- Reading a range by runs of `per`, and what is left at the end. -/
theorem map_range_runs {α : Type*} (f : Nat → α) (per m r : Nat) :
    (List.range (m * per + r)).map f =
      ((List.range m).map fun i => (List.range per).map fun k => f (i * per + k)).flatten ++
        (List.range r).map fun k => f (m * per + k) := by
  induction m generalizing r with
  | zero => simp
  | succ m ih =>
    rw [List.range_succ, List.map_append, List.flatten_append, List.append_assoc, Nat.add_mul,
      Nat.one_mul, Nat.add_assoc, ih, List.range_add, List.map_append]
    simp [Nat.add_assoc, Function.comp_def]

theorem mapM_eq_some_map {α β : Type*} {f : α → Option β} {g : α → β} {l : List α}
    (h : ∀ x ∈ l, f x = some (g x)) : l.mapM f = some (l.map g) := by
  induction l with
  | nil => rfl
  | cons x l ih =>
    rw [List.mapM_cons, h x (by simp), ih fun y hy => h y (by simp [hy])]
    rfl

theorem leaf_run {per i k : Nat} (hper : per = pointers_per_block c ^ (level + 1))
    (hk : k < per) :
    leaf c fs (level + 2) b (i * per + k) = leaf c fs (level + 1) (indirect c fs b i) k := by
  have hpos : 0 < per := by omega
  have hdiv : (i * per + k) / per = i := by
    rw [Nat.mul_comm, Nat.mul_add_div hpos, Nat.div_eq_of_lt hk, Nat.add_zero]
  have hmod : (i * per + k) % per = k := by
    rw [Nat.mul_comm, Nat.mul_add_mod, Nat.mod_eq_of_lt hk]
  rw [leaf, ← hper, hdiv, hmod]

/-- Reading a level returns its first leaves in order. -/
theorem Indirect_Read_eq (h : n ≤ pointers_per_block c ^ (level + 1)) :
    Indirect_Read c fs (level + 1) b n =
      some ((List.range n).map (leaf c fs (level + 1) b)) := by
  induction level generalizing b n with
  | zero =>
    rw [Nat.zero_add, pow_one] at h
    rw [Indirect_Read, Inode_Indirect_Read1, if_neg (by omega)]
    congr 1
    apply List.map_congr_left
    intro k _
    simp [leaf]
  | succ level ih =>
    generalize hper : pointers_per_block c ^ (level + 1) = per at ih
    have hfull : (List.range (n / per)).mapM (fun i =>
        Indirect_Read c fs (level + 1) (indirect c fs b i) per) =
        some ((List.range (n / per)).map fun i =>
          (List.range per).map fun k => leaf c fs (level + 2) b (i * per + k)) := by
      apply mapM_eq_some_map
      intro i _
      rw [ih le_rfl]
      congr 1
      apply List.map_congr_left
      intro k hk
      rw [leaf_run hper.symm (List.mem_range.mp hk)]
    have hrest : (if n % per > 0 then
        Indirect_Read c fs (level + 1) (indirect c fs b (n / per)) (n % per) else some []) =
        some ((List.range (n % per)).map fun k =>
          leaf c fs (level + 2) b (n / per * per + k)) := by
      split_ifs with hpos
      · have hlt : n % per < per := by
          apply Nat.mod_lt
          rcases Nat.eq_zero_or_pos per with rfl | hp
          · rw [pow_succ, hper, Nat.zero_mul] at h
            omega
          · exact hp
        rw [ih hlt.le]
        congr 1
        apply List.map_congr_left
        intro k hk
        rw [leaf_run hper.symm (Nat.lt_trans (List.mem_range.mp hk) hlt)]
      · rw [Nat.eq_zero_of_not_pos hpos]
        rfl
    have hmax : ¬ n > pointers_per_block c ^ (level + 2) := Nat.not_lt.mpr h
    simp only [Indirect_Read, if_neg hmax, hper, hfull, Option.bind_eq_bind, Option.bind_some]
    by_cases hpos : n % per > 0
    · rw [if_pos hpos] at hrest
      rw [if_pos hpos, hrest]
      conv_rhs => rw [← Nat.div_add_mod n per, Nat.mul_comm per, map_range_runs]
      rfl
    · rw [if_neg hpos] at hrest
      rw [if_neg hpos]
      conv_rhs => rw [← Nat.div_add_mod n per, Nat.mul_comm per, map_range_runs]
      rw [← Option.some.inj hrest]

theorem level_start_succ : level_start c (level + 2) =
    level_start c (level + 1) + pointers_per_block c ^ (level + 1) := rfl

section Levels

variable {anInode : inode_t} {k : Nat}

theorem data_pointer_direct (hk : k < level_start c 1) :
    data_pointer c fs anInode k = anInode.pointer_data_0 k := if_pos hk

theorem data_pointer_level1 (hk : k < pointers_per_block c ^ 1) :
    data_pointer c fs anInode (level_start c 1 + k) = leaf c fs 1 anInode.pointer_data_1 k := by
  have hstart : level_start c 2 = level_start c 1 + pointers_per_block c ^ 1 := rfl
  rw [data_pointer, if_neg (by omega), if_pos (by omega), Nat.add_sub_cancel_left]

theorem data_pointer_level2 (hk : k < pointers_per_block c ^ 2) :
    data_pointer c fs anInode (level_start c 2 + k) = leaf c fs 2 anInode.pointer_data_2 k := by
  have hstart : level_start c 2 = level_start c 1 + pointers_per_block c ^ 1 := rfl
  have hnext : level_start c 3 = level_start c 2 + pointers_per_block c ^ 2 := rfl
  rw [data_pointer, if_neg (by omega), if_neg (by omega), if_pos (by omega),
    Nat.add_sub_cancel_left]

theorem data_pointer_level3 :
    data_pointer c fs anInode (level_start c 3 + k) = leaf c fs 3 anInode.pointer_data_3 k := by
  have hstart : level_start c 2 = level_start c 1 + pointers_per_block c ^ 1 := rfl
  have hnext : level_start c 3 = level_start c 2 + pointers_per_block c ^ 2 := rfl
  rw [data_pointer, if_neg (by omega), if_neg (by omega), if_neg (by omega),
    Nat.add_sub_cancel_left]

end Levels

/-- The part of an index range that lies in one level, read from there. -/
theorem map_range_level {α : Type*} {f g : Nat → α} {start m : Nat}
    (h : ∀ k < m, f (start + k) = g k) :
    (List.range (start + m)).map f = (List.range start).map f ++ (List.range m).map g := by
  rw [List.range_add, List.map_append, List.map_map]
  congr 1
  apply List.map_congr_left
  intro k hk
  exact h k (List.mem_range.mp hk)

/-- What `Inode_Get_Data_Adressess` returns: the blocks by their index, and a 0. -/
theorem Inode_Get_Data_Adressess_eq (fs : Image) (anInode : inode_t) {file_size : Nat}
    (h : max (Size_In_Blocks c file_size) 1 ≤ level_start c 4) :
    Inode_Get_Data_Adressess c fs anInode file_size =
      some ((List.range (max (Size_In_Blocks c file_size) 1)).map
        (data_pointer c fs anInode) ++ [0]) := by
  have h1 : level_start c 1 = 12 := rfl
  have h2 : level_start c 2 = 12 + pointers_per_block c ^ 1 := rfl
  have h3 : level_start c 3 = level_start c 2 + pointers_per_block c ^ 2 := rfl
  have h4 : level_start c 4 = level_start c 3 + pointers_per_block c ^ 3 := rfl
  have hP : pointers_per_block c ^ 1 = pointers_per_block c := pow_one _
  have hdirect : ∀ n ≤ 12, (List.range n).map (data_pointer c fs anInode) =
      (List.range n).map anInode.pointer_data_0 := by
    intro n hn
    apply List.map_congr_left
    intro k hk
    exact data_pointer_direct (Nat.lt_of_lt_of_le (List.mem_range.mp hk) hn)
  have hlevel1 : ∀ m ≤ pointers_per_block c ^ 1,
      (List.range (12 + m)).map (data_pointer c fs anInode) =
        (List.range 12).map anInode.pointer_data_0 ++
          (List.range m).map (leaf c fs 1 anInode.pointer_data_1) := by
    intro m hm
    rw [← hdirect 12 le_rfl]
    exact map_range_level fun k hk => data_pointer_level1 (Nat.lt_of_lt_of_le hk hm)
  have hlevel2 : ∀ m ≤ pointers_per_block c ^ 2,
      (List.range (level_start c 2 + m)).map (data_pointer c fs anInode) =
        (List.range (level_start c 2)).map (data_pointer c fs anInode) ++
          (List.range m).map (leaf c fs 2 anInode.pointer_data_2) := by
    intro m hm
    exact map_range_level fun k hk => data_pointer_level2 (Nat.lt_of_lt_of_le hk hm)
  have hread1 : ∀ m ≤ pointers_per_block c,
      Indirect_Read c fs 1 anInode.pointer_data_1 m =
        some ((List.range m).map (leaf c fs 1 anInode.pointer_data_1)) := by
    intro m hm
    apply Indirect_Read_eq
    rw [Nat.zero_add, pow_one]
    exact hm
  unfold Inode_Get_Data_Adressess
  generalize max (Size_In_Blocks c file_size) 1 = n at h ⊢
  simp only
  split_ifs with hle hle1 hle2 hle3
  · rw [hdirect n hle]
  · obtain ⟨m, rfl⟩ : ∃ m, n = 12 + m := ⟨n - 12, by omega⟩
    rw [Nat.add_sub_cancel_left] at hle1 ⊢
    rw [hread1 m hle1, hlevel1 m (by omega)]
    rfl
  · obtain ⟨m, rfl⟩ : ∃ m, n = level_start c 2 + m := ⟨n - level_start c 2, by omega⟩
    have hm : level_start c 2 + m - 12 - pointers_per_block c = m := by omega
    rw [hm] at hle2 ⊢
    rw [hread1 _ le_rfl, Indirect_Read_eq hle2, hlevel2 m hle2, h2, hlevel1 _ le_rfl, hP]
    rfl
  · obtain ⟨m, rfl⟩ : ∃ m, n = level_start c 3 + m := ⟨n - level_start c 3, by omega⟩
    have hm : level_start c 3 + m - 12 - pointers_per_block c - pointers_per_block c ^ 2 = m := by
      omega
    rw [hm] at hle3 ⊢
    rw [hread1 _ le_rfl, Indirect_Read_eq le_rfl, Indirect_Read_eq hle3,
      map_range_level fun k _ => data_pointer_level3, h3, hlevel2 _ le_rfl, h2,
      hlevel1 _ le_rfl, hP]
    rfl
  · omega

end LaLiga.Rfs
