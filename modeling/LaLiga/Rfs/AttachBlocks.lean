import LaLiga.Rfs.AttachLevels

/-! `Attach_Blocks` level by level, for an inode that is filled from the start. -/
namespace LaLiga.Rfs

open LaLiga.Lib

/-- The next level with what this one leaves. -/
def next_level (level : Except Crash ((Nat ⊕ Nat) × Worker_state))
    (rest : Nat → Worker_state → Except Crash (Nat × Worker_state)) :
    Except Crash (Nat × Worker_state) :=
  match level with
  | .error e => .error e
  | .ok (.inl r, w) => .ok (r, w)
  | .ok (.inr new_blocks_amount, w) => rest new_blocks_amount w

variable {c : Superblock_constants} {live : Nat → Prop} {fs fs' : Image}
  {w w' w₁ : Worker_state} {i s t e k k₁ k₂ n r b v N N' d d' : Nat} {path : List Nat}
  {done short short₁ short₂ : Nat} {level : Except Crash ((Nat ⊕ Nat) × Worker_state)}
  {rest : Nat → Worker_state → Except Crash (Nat × Worker_state)}

theorem Attach_Blocks_eq : Attach_Blocks c i n w =
    next_level (.ok (Attach_Blocks_level0 c i n w)) fun n w =>
      next_level (Attach_Blocks_level1 c i n w) fun n w =>
        next_level (Attach_Blocks_level2 c i n w) fun n w => Attach_Blocks_level3 c i n w := by
  unfold Attach_Blocks
  rcases Attach_Blocks_level0 c i n w with ⟨x | n, w⟩
  · rfl
  · rcases hlevel1 : Attach_Blocks_level1 c i n w with e | ⟨x | n, w⟩
    · simp only [next_level, hlevel1]
    · simp only [next_level, hlevel1]
    · rcases hlevel2 : Attach_Blocks_level2 c i n w with e | ⟨x | n, w⟩ <;>
        simp only [next_level, hlevel1, hlevel2]

/-- What one level attaches, then the levels above it. -/
theorem Outcome.next (k₂ short₂ : Nat) (hw : Prepared c live i N d w.file)
    (hready : Ready c i w.file N n) (hle : k₁ ≤ n)
    (h : Outcome c live i N k₁ n (left_to_attach (n - k₁)) .inl short₁ w level)
    (hall : k₁ = n → k = n ∧ done = 0) (hsum : k₁ < n → k₁ + k₂ = k)
    (hmod : k₁ < n → 0 < k₁ → (N + k₁ - 12) % pointers_per_block c = 0)
    (hshort : 0 < k₁ → short₁ = short) (hshort' : k₁ = 0 → short₂ = short)
    (hrest : k₁ < n → ∀ w₁ d₁, Prepared c live i (N + k₁) d₁ w₁.file →
      Ready c i w₁.file (N + k₁) (n - k₁) → w₁.errno = w.errno →
        Outcome c live i (N + k₁) k₂ (n - k₁) done id short₂ w₁ (rest (n - k₁) w₁)) :
    Outcome c live i N k n done id short w (next_level level rest) := by
  have hk : k₁ ≤ k := by
    rcases hle.lt_or_eq with hlt | heq
    · have := hsum hlt
      omega
    · exact heq.trans_le (hall heq).1.ge
  rcases h with ⟨w₁, rfl, hattached⟩ | ⟨rfl, hwhole, hstuck⟩ | ⟨x, w₁, rfl, hends⟩
  · rcases hle.lt_or_eq with hlt | rfl
    · obtain ⟨d₁, hreached⟩ := hattached.reached hw
      have hleft : left_to_attach (n - k₁) = .inr (n - k₁) := if_neg (by omega)
      rw [hleft]
      exact Outcome.after hw hattached (hsum hlt) (hmod hlt) hshort'
        (hrest hlt w₁ d₁ hreached.prepared (hattached.ready hready hlt) hattached.1)
    · obtain ⟨rfl, rfl⟩ := hall rfl
      rw [Nat.sub_self]
      exact Or.inl ⟨w₁, rfl, hattached⟩
  · exact Or.inr (Or.inl ⟨rfl, hwhole, hstuck.mono hk⟩)
  · refine Or.inr (Or.inr ⟨x, w₁, rfl, hends.errno, hends.stuck.mono hk, hends.reached, ?_⟩)
    refine hends.left.imp_right ?_
    rintro ⟨hpart, hfile, rfl⟩
    exact ⟨hpart, hfile, hshort hends.stuck.pos⟩

/-- A level that returns is the last one. -/
theorem Outcome.returned
    (h : Outcome c live i N k n (.inl done) .inl short w level) :
    Outcome c live i N k n done id short w (next_level level rest) := by
  rcases h with ⟨w₁, rfl, hattached⟩ | ⟨rfl, hstuck⟩ | ⟨x, w₁, rfl, hends⟩
  · exact Or.inl ⟨w₁, rfl, hattached⟩
  · exact Or.inr (Or.inl ⟨rfl, hstuck⟩)
  · exact Or.inr (Or.inr ⟨x, w₁, rfl, hends⟩)

theorem first_index_root (hs : 12 ≤ s) : first_index c s [] = level_start c (height s) := by
  rw [first_index_indirect hs, Nat.ofDigits_nil, Nat.mul_zero, Nat.add_zero]

section Levels

variable (hP : 1 < pointers_per_block c) (hwords : c.BLOCK_SIZE = 4 * pointers_per_block c)
  (hi : live i) (hw : Prepared c live i N d w.file)
include hP hwords hi hw

/-- The indirect block of a level. -/
theorem check_and_set_Ind_root (hs : 12 ≤ s) (hslot : s < 15)
    (hfirst : level_start c (height s) ≤ N)
    (hfresh : level_start c (height s) = N → Fresh c i N w.file) :
    (check_and_set_Ind c (pointer (w.file.inode i) s) w = .error .null ∧
      level_start c (height s) = N ∧ (N - 12) % pointers_per_block c = 0 ∧
      Stuck c live i w.file N 1) ∨
    ∃ v fs₁ w₁ d', check_and_set_Ind c (pointer (w.file.inode i) s) w =
        .ok (v, { w with file := fs₁ }) ∧
      { w with file := set_slot fs₁ i s v } = w₁ ∧ w₁.errno = w.errno ∧
      ptr c w₁.file i s [] = v ∧ v ≠ 0 ∧ Reached c live i w.file N d' w₁.file ∧
      (level_start c (height s) < N → w₁ = w) ∧
      ∀ b m, Coming c i N b m w.file → Coming c i N b m w₁.file := by
  have hvalid : Valid c s [] := ⟨hslot, Nat.zero_le _, by simp⟩
  have hlt : ([] : List Nat).length < height s := height_indirect hs
  obtain ⟨-, hmod⟩ := first_index_mod (c := c) hslot hlt
  rw [← first_index_root hs] at hfirst hfresh ⊢
  rcases check_and_set_Ind_spec hP hwords hw hi hvalid hlt hfirst hfresh (by simp) with
    ⟨herror, heq, hstuck⟩ | ⟨v, fs₁, d', hok, -, -, hreached, hset, hsame, hcoming⟩
  · exact Or.inl ⟨herror, heq, heq ▸ hmod, hstuck⟩
  · have hself : ptr c (set_slot fs₁ i s v) i s [] = v := by
      rw [ptr_nil, pointer_set_slot hslot hslot, if_pos ⟨rfl, rfl⟩]
    have hself_ne : v ≠ 0 := hself ▸ hset
    have hw₁ : first_index c s [] < N → { w with file := set_slot fs₁ i s v } = w := by
      intro h
      have hfile : set_slot fs₁ i s v = w.file := hsame h
      rw [hfile]
    exact Or.inr ⟨v, fs₁, _, d', hok, rfl, rfl, hself, hself_ne, hreached, hw₁, hcoming⟩

theorem Attach_Blocks_level1_spec (hn : 0 < n) (hN : level_start c 1 ≤ N)
    (hfresh : level_start c 1 = N → Fresh c i N w.file)
    (hk : k = min (level_start c 2 - N) n) :
    Outcome c live i N k n (if w.errno = some .ENOSPC then .inl n else left_to_attach (n - k)) .inl n
      w (Attach_Blocks_level1 c i n w) := by
  have hstart : level_start c 2 = level_start c 1 + pointers_per_block c := by
    rw [level_start_succ, pow_one]
  have hroot : first_index c 12 [] = level_start c 1 := first_index_root le_rfl
  have hvalid : Valid c 12 [] := ⟨by decide, Nat.zero_le _, by simp⟩
  unfold Attach_Blocks_level1
  rcases check_and_set_Ind_root hP hwords hi hw le_rfl (by decide) hN hfresh with
    ⟨herror, heq, hmod, hstuck⟩ | ⟨v, fs₁, w₁, d', hok, hw₁, herrno, hself, hv, hreached, hsame, hcoming⟩
  · have herror : check_and_set_Ind c (w.file.inode i).pointer_data_1 w = .error .null := herror
    have heq : level_start c 1 = N := heq
    rw [herror]
    exact Or.inr (Or.inl ⟨rfl, whole_block hmod, hstuck.mono (by omega)⟩)
  · have hok : check_and_set_Ind c (w.file.inode i).pointer_data_1 w =
        .ok (v, { w with file := fs₁ }) := hok
    have hslot : { w with file := set_pointer_data_1 fs₁ i v } = w₁ := hw₁
    rw [hok]
    dsimp only
    rw [hslot]
    refine Outcome.after_indirect hreached herrno hN hsame (fun heq => by omega) ?_ hcoming ?_
    · rw [← hroot]
      exact (first_index_mod (by decide) (by decide)).2
    · have hattach := check_and_attach1_spec (k := k) hP hreached.prepared hi hvalid rfl (hself ▸ hv)
        (hroot ▸ hN) hn (by omega)
      rw [hself] at hattach
      rcases hattach with ⟨w₂, hok₂, hattached⟩ | ⟨hnone, hpos, hfew, hstuck⟩
      · rw [hok₂, herrno]
        by_cases herr : w.errno = some .ENOSPC
        · rw [if_pos herr, if_pos herr]
          exact Or.inl ⟨w₂, rfl, hattached⟩
        · rw [if_neg herr, if_neg herr]
          exact Or.inl ⟨w₂, rfl, hattached⟩
      · rw [hnone]
        refine Or.inr (Or.inr ⟨n, _, rfl, rfl, hstuck,
          ⟨N, d', hreached.prepared.reached⟩, ?_⟩)
        rcases hN.lt_or_eq with hlt | heq
        · refine Or.inr ⟨(partial_iff (by decide) rfl (hroot ▸ hN) (by omega)).mpr ?_, rfl, rfl⟩
          omega
        · refine Or.inl ⟨whole_block ?_, hreached.prepared.full.not_tidy hvalid rfl (hself ▸ hv)
            (hroot.trans heq)⟩
          rw [← heq, ← hroot]
          exact (first_index_mod (by decide) (by decide)).2

variable (hready : Ready c i w.file N n)
include hready

theorem Attach_Blocks_level2_spec (hn : 0 < n) (hN : level_start c 2 ≤ N)
    (herr : w.errno ≠ some .ENOSPC) (hk : k = min (level_start c 3 - N) n) :
    Outcome c live i N k n (left_to_attach (n - k)) .inl 0 w (Attach_Blocks_level2 c i n w) := by
  have hstart : level_start c 3 =
      level_start c 2 + pointers_per_block c * pointers_per_block c := by
    rw [level_start_succ, Nat.pow_two]
  have hroot : first_index c 13 [] = level_start c 2 := first_index_root (by decide)
  have hmod : (level_start c 2 - 12) % pointers_per_block c = 0 := by
    rw [← hroot]
    exact (first_index_mod (by decide) (by decide)).2
  have hfresh : level_start c 2 = N → Fresh c i N w.file := fun heq => hready.fresh (heq ▸ hmod)
  have hvalid : Valid c 13 [] := ⟨by decide, Nat.zero_le _, by simp⟩
  have hsquare : 0 < pointers_per_block c * pointers_per_block c :=
    Nat.mul_pos (by omega) (by omega)
  unfold Attach_Blocks_level2
  rcases check_and_set_Ind_root (s := 13) hP hwords hi hw (by decide) (by decide) hN hfresh with
    ⟨herror, heq, -, hstuck⟩ | ⟨v, fs₁, w₁, d', hok, hw₁, herrno, hself, hv, hreached, hsame, hcoming⟩
  · have herror : check_and_set_Ind c (w.file.inode i).pointer_data_2 w = .error .null := herror
    have heq : level_start c 2 = N := heq
    rw [herror]
    exact Or.inr (Or.inl ⟨rfl, whole_block (heq ▸ hmod), hstuck.mono (by omega)⟩)
  · have hok : check_and_set_Ind c (w.file.inode i).pointer_data_2 w =
        .ok (v, { w with file := fs₁ }) := hok
    have hslot : { w with file := set_pointer_data_2 fs₁ i v } = w₁ := hw₁
    rw [hok]
    dsimp only
    rw [hslot]
    have hready₁ := hready.after_indirect hreached hN hsame hmod hcoming
    refine Outcome.after_indirect hreached herrno hN hsame (fun heq => by omega) hmod hcoming ?_
    · have hattach := Inode_Indirect_Attach2_spec (k := k) hP hwords hi hvalid rfl hreached.prepared
        hready₁ (herrno.trans_ne herr) (hself ▸ hv) hn (hroot ▸ hN) (by omega)
      rw [hself] at hattach
      rcases hattach with ⟨w₂, hok₂, hattached⟩ | ⟨hnone, hwhole, hstuck⟩ | ⟨x, w₂, hok₂, hends⟩
      · rw [hok₂]
        dsimp only
        rw [if_neg (hattached.1.trans_ne (herrno.trans_ne herr))]
        exact Or.inl ⟨w₂, rfl, hattached⟩
      · rw [hnone]
        exact Or.inr (Or.inl ⟨rfl, hwhole, hstuck⟩)
      · rw [hok₂]
        dsimp only
        rw [if_pos hends.errno]
        exact Or.inr (Or.inr ⟨x, w₂, rfl, hends⟩)

theorem Attach_Blocks_level3_spec (hn : 0 < n) (hN : level_start c 3 ≤ N)
    (hcap : N < level_start c 4) (herr : w.errno ≠ some .ENOSPC)
    (hk : k = min (level_start c 4 - N) n) :
    Outcome c live i N k n (n - k) id n w (Attach_Blocks_level3 c i n w) := by
  have hstart : level_start c 4 = level_start c 3 +
      pointers_per_block c * (pointers_per_block c * pointers_per_block c) := by
    rw [level_start_succ]
    ring
  have hroot : first_index c 14 [] = level_start c 3 := first_index_root (by decide)
  have hmod : (level_start c 3 - 12) % pointers_per_block c = 0 := by
    rw [← hroot]
    exact (first_index_mod (by decide) (by decide)).2
  have hfresh : level_start c 3 = N → Fresh c i N w.file := fun heq => hready.fresh (heq ▸ hmod)
  have hvalid : Valid c 14 [] := ⟨by decide, Nat.zero_le _, by simp⟩
  unfold Attach_Blocks_level3
  rcases check_and_set_Ind_root (s := 14) hP hwords hi hw (by decide) (by decide) hN hfresh with
    ⟨herror, heq, -, hstuck⟩ | ⟨v, fs₁, w₁, d', hok, hw₁, herrno, hself, hv, hreached, hsame, hcoming⟩
  · have herror : check_and_set_Ind c (w.file.inode i).pointer_data_3 w = .error .null := herror
    rw [herror]
    exact Or.inr (Or.inl ⟨rfl, whole_block (heq ▸ hmod), hstuck.mono (by omega)⟩)
  · have hok : check_and_set_Ind c (w.file.inode i).pointer_data_3 w =
        .ok (v, { w with file := fs₁ }) := hok
    have hslot : { w with file := set_pointer_data_3 fs₁ i v } = w₁ := hw₁
    rw [hok]
    dsimp only
    rw [hslot]
    have hready₁ := hready.after_indirect hreached hN hsame hmod hcoming
    refine Outcome.after_indirect hreached herrno hN hsame (fun heq => by omega) hmod hcoming ?_
    · have hattach := Attach_Blocks_entries_spec (k := k) (e := 0) hP hwords hi hvalid rfl
        hreached.prepared hready₁ (herrno.trans_ne herr) (hself ▸ hv) (Nat.zero_add _) (by omega)
        (by omega)
      rwa [hself] at hattach

/-- What `Attach_Blocks` returns where it stops in a block that is partly filled. -/
def stopped (c : Superblock_constants) (N n : Nat) : Nat :=
  if level_start c 2 ≤ N ∧ N < level_start c 3 then 0 else n

theorem Attach_Blocks_above2 (hn : 0 < n) (hN : level_start c 2 ≤ N) (hcap : N < level_start c 4)
    (herr : w.errno ≠ some .ENOSPC) (hk : k = min (level_start c 4 - N) n) :
    Outcome c live i N k n (n - k) id (stopped c N n) w
      (next_level (Attach_Blocks_level2 c i n w) fun n w => Attach_Blocks_level3 c i n w) := by
  have hstart : level_start c 3 < level_start c 4 :=
    Nat.lt_add_of_pos_right (Nat.pow_pos (by omega))
  obtain ⟨k₁, hk₁⟩ : ∃ k₁, k₁ = min (level_start c 3 - N) n := ⟨_, rfl⟩
  obtain ⟨k₂, hk₂⟩ : ∃ k₂, k₂ = min (level_start c 4 - (N + k₁)) (n - k₁) := ⟨_, rfl⟩
  refine Outcome.next k₂ (n - k₁) hw hready (by omega)
    (Attach_Blocks_level2_spec hP hwords hi hw hready hn hN herr hk₁) (by omega) (by omega) ?_ ?_ ?_ ?_
  · intro hlt hpos
    have hroot : first_index c 14 [] = level_start c 3 := first_index_root (by decide)
    rw [show N + k₁ = first_index c 14 [] by omega]
    exact (first_index_mod (by decide) (by decide)).2
  · intro hpos
    rw [stopped, if_pos (by omega)]
  · intro hzero
    rw [stopped, if_neg (by omega), hzero, Nat.sub_zero]
  · intro hlt w₁ d₁ hw₁ hready₁ herrno
    rw [show n - k = n - k₁ - k₂ by omega]
    exact Attach_Blocks_level3_spec hP hwords hi hw₁ hready₁ (by omega) (by omega) (by omega)
      (herrno.trans_ne herr) hk₂

theorem Attach_Blocks_above1 (hn : 0 < n) (hN : level_start c 1 ≤ N) (hcap : N < level_start c 4)
    (herr : w.errno ≠ some .ENOSPC) (hk : k = min (level_start c 4 - N) n) :
    Outcome c live i N k n (n - k) id (stopped c N n) w
      (next_level (Attach_Blocks_level1 c i n w) fun n w =>
        next_level (Attach_Blocks_level2 c i n w) fun n w => Attach_Blocks_level3 c i n w) := by
  have hstart : level_start c 2 < level_start c 4 := by
    have hmono : level_start c 3 ≤ level_start c 4 := level_start_mono (by decide)
    exact (Nat.lt_add_of_pos_right (Nat.pow_pos (by omega))).trans_le hmono
  obtain ⟨k₁, hk₁⟩ : ∃ k₁, k₁ = min (level_start c 2 - N) n := ⟨_, rfl⟩
  obtain ⟨k₂, hk₂⟩ : ∃ k₂, k₂ = min (level_start c 4 - (N + k₁)) (n - k₁) := ⟨_, rfl⟩
  have hfresh : level_start c 1 = N → Fresh c i N w.file := by
    rintro rfl
    exact hready.fresh (Nat.zero_mod _)
  have hlevel := Attach_Blocks_level1_spec hP hwords hi hw hn hN hfresh hk₁
  rw [if_neg herr] at hlevel
  refine Outcome.next k₂ (stopped c (N + k₁) (n - k₁)) hw hready (by omega) hlevel (by omega)
    (by omega) ?_ ?_ ?_ ?_
  · intro hlt hpos
    have hroot : first_index c 13 [] = level_start c 2 := first_index_root (by decide)
    rw [show N + k₁ = first_index c 13 [] by omega]
    exact (first_index_mod (by decide) (by decide)).2
  · intro hpos
    rw [stopped, if_neg (by omega)]
  · intro hzero
    rw [hzero, Nat.add_zero, Nat.sub_zero]
  · intro hlt w₁ d₁ hw₁ hready₁ herrno
    rw [show n - k = n - k₁ - k₂ by omega]
    exact Attach_Blocks_above2 hP hwords hi hw₁ hready₁ (by omega) (by omega) (by omega)
      (herrno.trans_ne herr) hk₂

omit hwords hready in
/-- The direct pointers get the blocks, or none is there. -/
theorem Attach_Blocks_level0_spec (hk : k = min (12 - N) n) (hn : 0 < n) :
    (Attach_Blocks_level0 c i n w = (.inl (12 - N), { w with errno := some .ENOSPC }) ∧
      N < 12 ∧ w.file.TOTAL_UNALLOCATED_BLOCKS < k) ∨
    ∃ w', Attach_Blocks_level0 c i n w = (left_to_attach (n - k), w') ∧
      Attached c live i N k n w w' := by
  have hdirect : ∀ s < 12, ((w.file.inode i).pointer_data_0 s ≠ 0 ↔ s < N) := by
    intro s hs
    have hvalid : Valid c s [] := ⟨by omega, Nat.zero_le _, by simp⟩
    have h := hw.full s [] hvalid
    rw [ptr_nil, pointer, if_pos hs, first_index_direct hs, height_direct hs] at h
    rw [h]
    omega
  have hsub := sub_entries_eq hdirect
  unfold Attach_Blocks_level0
  rw [hsub]
  dsimp only
  by_cases hN : N < 12
  · rw [Nat.min_eq_right hN.le, if_pos (by omega), ← hk]
    by_cases hfew : w.file.TOTAL_UNALLOCATED_BLOCKS < k
    · rw [Get_Free_Blocks_refused hfew]
      exact Or.inl ⟨rfl, hN, hfew⟩
    · obtain ⟨l, fs₁, hget, halloc⟩ := Get_Free_Blocks_allocated hw.pool (Nat.not_lt.mp hfew)
      rw [hget]
      dsimp only
      rw [List.take_of_length_le halloc.length.le]
      have hgrew := grow_slots hw.owned hw.pool hi (n := N) (by omega) (by
        intro j hj
        by_contra hne
        have := (hdirect (N + j) (by omega)).mp hne
        omega) halloc
      have hreached := hgrew.reached (hw.full.grow_slots hi hgrew (by omega) (by omega))
      have hgiven : Given c i N n w.file (set_pointer_data_0 fs₁ i N l) := by
        rintro b m rfl hcoming
        obtain rfl : k = 1 := by omega
        obtain ⟨v, rfl⟩ := List.length_eq_one_iff.mp halloc.length
        have hleaf : Leaf c N [] := ⟨by omega, (height_direct hN).symm, by simp⟩
        exact hcoming.given hP hgrew hleaf (leaf_index_direct hN) (by simp) halloc rfl
      exact Or.inr ⟨_, rfl, rfl, Or.inr ⟨by omega, fun hpart => absurd hpart.1 (by omega),
        hreached, hgiven⟩⟩
  · rw [Nat.min_eq_left (by omega), if_neg (by decide)]
    obtain rfl : k = 0 := by omega
    exact Or.inr ⟨w, rfl, rfl, Or.inl ⟨rfl, rfl⟩⟩

/-- The ends of `Attach_Blocks` for `n` blocks: it stops at the direct pointers, or it attaches
what the inode has pointers for, or there are not enough blocks. -/
theorem Attach_Blocks_spec (hn : 0 < n) (hcap : N < level_start c 4)
    (herr : w.errno ≠ some .ENOSPC) (hk : k = min (level_start c 4 - N) n) :
    (Attach_Blocks c i n w = .ok (12 - N, { w with errno := some .ENOSPC }) ∧ N < 12 ∧
      w.file.TOTAL_UNALLOCATED_BLOCKS < min (12 - N) n) ∨
    Outcome c live i N k n (n - k) id (stopped c N n) w (Attach_Blocks c i n w) := by
  have hstart : 12 < level_start c 4 := by
    have hmono : level_start c 2 ≤ level_start c 4 := level_start_mono (by decide)
    have hpos : 0 < pointers_per_block c ^ 1 := Nat.pow_pos (by omega)
    exact (Nat.lt_add_of_pos_right hpos).trans_le hmono
  obtain ⟨k₁, hk₁⟩ : ∃ k₁, k₁ = min (12 - N) n := ⟨_, rfl⟩
  obtain ⟨k₂, hk₂⟩ : ∃ k₂, k₂ = min (level_start c 4 - (N + k₁)) (n - k₁) := ⟨_, rfl⟩
  rw [Attach_Blocks_eq]
  rcases Attach_Blocks_level0_spec hP hi hw hk₁ hn with ⟨hlevel, hN, hfew⟩ | ⟨w₁, hlevel, hattached⟩
  · rw [hlevel]
    exact Or.inl ⟨rfl, hN, hk₁ ▸ hfew⟩
  · rw [hlevel]
    refine Or.inr (Outcome.next k₂ (stopped c (N + k₁) (n - k₁)) hw hready (by omega)
      (Or.inl ⟨w₁, rfl, hattached⟩) (by omega) (by omega) ?_ (fun _ => rfl) ?_ ?_)
    · intro hlt hpos
      rw [show N + k₁ - 12 = 0 by omega, Nat.zero_mod]
    · intro hzero
      rw [hzero, Nat.add_zero, Nat.sub_zero]
    · intro hlt w₂ d₂ hw₂ hready₂ herrno
      have h1 : level_start c 1 = 12 := rfl
      rw [show n - k = n - k₁ - k₂ by omega]
      exact Attach_Blocks_above1 hP hwords hi hw₂ hready₂ (by omega) (by omega) (by omega)
        (herrno.trans_ne herr) hk₂

/-- With an `errno` that is still `ENOSPC` the first level is the last one. -/
theorem Attach_Blocks_stale_spec (hn : 0 < n) (hcap : N < level_start c 2)
    (herr : w.errno = some .ENOSPC) (hk : k = min (level_start c 2 - N) n) :
    (Attach_Blocks c i n w = .ok (12 - N, { w with errno := some .ENOSPC }) ∧ N < 12 ∧
      w.file.TOTAL_UNALLOCATED_BLOCKS < min (12 - N) n) ∨
    Outcome c live i N k n (n - min (12 - N) n) id n w (Attach_Blocks c i n w) := by
  have hstart : 12 < level_start c 2 := by
    have hpos : 0 < pointers_per_block c ^ 1 := Nat.pow_pos (by omega)
    exact Nat.lt_add_of_pos_right hpos
  obtain ⟨k₁, hk₁⟩ : ∃ k₁, k₁ = min (12 - N) n := ⟨_, rfl⟩
  obtain ⟨k₂, hk₂⟩ : ∃ k₂, k₂ = min (level_start c 2 - (N + k₁)) (n - k₁) := ⟨_, rfl⟩
  rw [Attach_Blocks_eq, ← hk₁]
  rcases Attach_Blocks_level0_spec hP hi hw hk₁ hn with ⟨hlevel, hN, hfew⟩ | ⟨w₁, hlevel, hattached⟩
  · rw [hlevel]
    exact Or.inl ⟨rfl, hN, hk₁ ▸ hfew⟩
  · rw [hlevel]
    refine Or.inr (Outcome.next k₂ (n - k₁) hw hready (by omega) (Or.inl ⟨w₁, rfl, hattached⟩)
      (by omega) (by omega) ?_ (fun _ => rfl) ?_ ?_)
    · intro hlt hpos
      rw [show N + k₁ - 12 = 0 by omega, Nat.zero_mod]
    · intro hzero
      rw [hzero, Nat.sub_zero]
    · intro hlt w₂ d₂ hw₂ hready₂ herrno
      have h1 : level_start c 1 = 12 := rfl
      have hfresh : level_start c 1 = N + k₁ → Fresh c i (N + k₁) w₂.file := by
        intro heq
        exact hready₂.fresh (by rw [← heq]; exact Nat.zero_mod _)
      have hspec := Attach_Blocks_level1_spec hP hwords hi hw₂ (by omega) (by omega) hfresh hk₂
      rw [if_pos (herrno.trans herr)] at hspec
      exact hspec.returned

end Levels

end LaLiga.Rfs
