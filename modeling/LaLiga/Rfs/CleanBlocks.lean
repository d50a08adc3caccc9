import LaLiga.Rfs.Allocation
import LaLiga.Rfs.Numbering

/-! The words that the cleaning loop of `Get_Free_Blocks` reads, and the blocks that it cleans. -/
namespace LaLiga.Rfs

open LaLiga.Lib

variable (c : Superblock_constants)

/-- The `k`th word from the start of the array; `past` lies behind its end. -/
def word (blocks_indexes : List Nat) (past : Nat → Nat) (k : Nat) : Nat :=
  if k < blocks_indexes.length then blocks_indexes.getD k 0 else past (k - blocks_indexes.length)

/-- The loop of `CleanBlocks` from `count` on, with the indexes of the words that it reads.
`none` when it does not end in so many turns. -/
def CleanBlocks_loop (blocks_indexes : Nat → Nat) : Nat → Nat → Image → Option (List Nat × Image)
  | 0, _, _ => none
  | turns + 1, count, fs =>
    if blocks_indexes (count + 1) = 0 then some ([count + 1], fs)
    else
      (CleanBlocks_loop blocks_indexes turns (count + 1)
        (clear_block c fs (blocks_indexes count))).map fun r => ((count + 1) :: count :: r.1, r.2)

/-- `Get_Free_Blocks` up to its call of `CleanBlocks`. -/
def Get_Free_Blocks_numbers (fs : Image) (how_many : Nat) : Option (List Nat × Image) :=
  (Get_Free_Blocks_reserve fs how_many).map fun fs =>
    let r := Get_Free_Blocks_groups c c.TOTAL_GROUPS 0 how_many fs
    (padded how_many r.1, r.2)

/-- `Get_Free_Blocks` with the memory behind its array: the array, the words of it that are
read for cleaning, and the image. -/
def Get_Free_Blocks_reading (past : Nat → Nat) (turns : Nat) (fs : Image) (how_many : Nat) :
    Option (List Nat × List Nat × Image) := do
  let (blocks_to_return, fs) ← Get_Free_Blocks_numbers c fs how_many
  let (reads, fs) ← CleanBlocks_loop c (word blocks_to_return past) turns 0 fs
  some (blocks_to_return, reads, fs)

/-- What `how_many` blocks should come as. A 0 in the array is what `calloc` left there, and no
block. -/
structure Zero_filled (fs : Image) (how_many : Nat) (blocks reads : List Nat) (fs' : Image) :
    Prop where
  length : blocks.length = how_many
  block : ∀ b ∈ blocks, b ≠ 0
  zero : ∀ b ∈ blocks, ∀ j < c.BLOCK_SIZE, fs'.block (slot c b) j = 0
  others : ∀ b, (∀ d ∈ blocks, slot c d ≠ b) → fs'.block b = fs.block b
  reads : ∀ k ∈ reads, k < how_many

variable {c} {fs fs' : Image} {blocks_indexes past : Nat → Nat} {count turns n : Nat}
  {l reads : List Nat}

/-- The loop goes on over all the words that are not 0, and reads the next one. -/
theorem CleanBlocks_loop_reads (hword : ∀ k < n, blocks_indexes k ≠ 0) (hcount : count < n)
    (h : CleanBlocks_loop c blocks_indexes turns count fs = some (reads, fs')) : n ∈ reads := by
  induction turns generalizing count fs reads with
  | zero => cases h
  | succ turns ih =>
    unfold CleanBlocks_loop at h
    split at h
    · rename_i hzero
      have hlast : n = count + 1 := by
        by_contra hne
        exact hword (count + 1) (by omega) hzero
      cases h
      rw [hlast]
      exact List.mem_singleton_self _
    · obtain ⟨⟨rest, fs₁⟩, hrun, heq⟩ := Option.map_eq_some_iff.mp h
      obtain ⟨rfl, rfl⟩ := Prod.mk.inj heq
      rcases Nat.lt_or_ge (count + 1) n with hlt | hge
      · exact List.mem_cons_of_mem _ (List.mem_cons_of_mem _ (ih hlt hrun))
      · obtain rfl : n = count + 1 := by omega
        exact List.mem_cons_self

/-- With 0 behind the array, the loop cleans as `CleanBlocks` does. -/
theorem CleanBlocks_loop_eq (fs : Image) (hword : ∀ k, blocks_indexes (count + k) = l.getD k 0)
    (hturns : l.length ≤ turns) :
    ∃ reads, CleanBlocks_loop c blocks_indexes (turns + 1) count fs =
      some (reads, CleanBlocks c fs l) := by
  induction l generalizing count turns fs with
  | nil =>
    have hnext : blocks_indexes (count + 1) = 0 := hword 1
    refine ⟨[count + 1], ?_⟩
    rw [CleanBlocks_loop, if_pos hnext]
    rfl
  | cons b l ih =>
    cases l with
    | nil =>
      have hnext : blocks_indexes (count + 1) = 0 := hword 1
      refine ⟨[count + 1], ?_⟩
      rw [CleanBlocks_loop, if_pos hnext]
      rfl
    | cons next rest =>
      have hnext : blocks_indexes (count + 1) = next := hword 1
      have hself : blocks_indexes count = b := hword 0
      by_cases h0 : next = 0
      · refine ⟨[count + 1], ?_⟩
        rw [CleanBlocks_loop, if_pos (hnext.trans h0), CleanBlocks, if_pos h0]
      · obtain ⟨turns, rfl⟩ : ∃ m, turns = m + 1 := by
          rw [List.length_cons] at hturns
          exact ⟨turns - 1, by omega⟩
        have hrest : ∀ k, blocks_indexes (count + 1 + k) = (next :: rest).getD k 0 := by
          intro k
          rw [Nat.add_assoc, Nat.add_comm 1 k]
          exact hword (k + 1)
        obtain ⟨reads, hrun⟩ := ih (clear_block c fs b) hrest
          (Nat.le_of_succ_le_succ hturns)
        refine ⟨(count + 1) :: count :: reads, ?_⟩
        rw [CleanBlocks_loop, if_neg (by rw [hnext]; exact h0), hself, hrun, CleanBlocks,
          if_neg h0]
        rfl

/-- The model of `Get_Free_Blocks` is the one with 0 behind the array. -/
theorem Get_Free_Blocks_of_reading (h : Get_Free_Blocks c fs n = some (l, fs')) :
    ∃ reads, Get_Free_Blocks_reading c (fun _ => 0) (l.length + 1) fs n = some (l, reads, fs') := by
  unfold Get_Free_Blocks at h
  split at h
  · cases h
  · rename_i fs₁ hreserve
    dsimp only at h
    obtain ⟨rfl, rfl⟩ := Prod.mk.inj (Option.some.inj h)
    generalize hl : padded n (Get_Free_Blocks_groups c c.TOTAL_GROUPS 0 n fs₁).1 = l
    have hword : ∀ k, word l (fun _ => 0) (0 + k) = l.getD k 0 := by
      intro k
      rw [Nat.zero_add, word]
      split
      · rfl
      · rename_i hge
        rw [List.getD_eq_default _ _ (Nat.not_lt.mp hge)]
    obtain ⟨reads, hrun⟩ := CleanBlocks_loop_eq (c := c)
      (Get_Free_Blocks_groups c c.TOTAL_GROUPS 0 n fs₁).2 hword le_rfl
    refine ⟨reads, ?_⟩
    simp [Get_Free_Blocks_reading, Get_Free_Blocks_numbers, hreserve, hl, hrun]

/-- No request for blocks brings them zero-filled: the loop reads on behind the array. -/
theorem Get_Free_Blocks_not_zero_filled (hn : 1 ≤ n) :
    ¬ ∃ turns l reads fs', Get_Free_Blocks_reading c past turns fs n = some (l, reads, fs') ∧
      Zero_filled c fs n l reads fs' := by
  rintro ⟨turns, l, reads, fs', h, hzero⟩
  obtain ⟨⟨l', fs₁⟩, -, h⟩ := Option.bind_eq_some_iff.mp h
  obtain ⟨⟨reads', fs₂⟩, hrun, h⟩ := Option.bind_eq_some_iff.mp h
  obtain ⟨rfl, heq⟩ := Prod.mk.inj (Option.some.inj h)
  obtain ⟨rfl, rfl⟩ := Prod.mk.inj heq
  have hword : ∀ k < n, word l' past k ≠ 0 := by
    intro k hk
    have hlt : k < l'.length := hk.trans_eq hzero.length.symm
    rw [word, if_pos hlt, List.getD_eq_getElem _ _ hlt]
    exact hzero.block _ (List.getElem_mem hlt)
  have hpast := CleanBlocks_loop_reads hword hn hrun
  exact Nat.lt_irrefl n (hzero.reads n hpast)

theorem two_blocks_not_zero_filled : 1 ≤ 2 ∧
    ¬ ∃ turns l reads fs', Get_Free_Blocks_reading (one_group 0 (by decide)) (fun _ => 0) turns
      two_used 2 = some (l, reads, fs') ∧
      Zero_filled (one_group 0 (by decide)) two_used 2 l reads fs' :=
  ⟨by decide, Get_Free_Blocks_not_zero_filled (by decide)⟩

/-- The six free blocks hold what they held before they were freed. -/
def old_bytes : Image := { two_used with block := fun _ _ => 7 }

/-- A single block is not cleaned at all, and the word behind the array is read. -/
theorem one_block_dirty : ∃ fs', Get_Free_Blocks_reading (one_group 0 (by decide)) (fun _ => 0) 1
      old_bytes 1 = some ([3], [1], fs') ∧
    fs'.block (slot (one_group 0 (by decide)) 3) 0 = 7 ∧
    ¬ Zero_filled (one_group 0 (by decide)) old_bytes 1 [3] [1] fs' := by
  refine ⟨_, rfl, rfl, ?_⟩
  intro h
  have hbyte := h.zero 3 (by decide) 0 (by decide)
  exact absurd hbyte (by decide)

end LaLiga.Rfs
