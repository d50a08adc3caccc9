import LaLiga.Rfs.Appending

/-! A file that grows more than there are blocks for. -/
namespace LaLiga.Rfs

open LaLiga.Lib

/-- `r` is what was not attached of `n` blocks for an inode with `N`, and no block was taken for
nothing. -/
structure Reported (c : Superblock_constants) (i N n r : Nat) (fs : Image) (w' : Worker_state) :
    Prop where
  errno : w'.errno = some .ENOSPC
  le : r ≤ n
  filled : Filled c w'.file i (N + (n - r))
  kept : ∀ m < N, block_at c w'.file i m = block_at c fs i m
  reachable : ∀ b, IsBlock c b → used c fs b = false → used c w'.file b = true →
    ∃ s path, Valid c s path ∧ ptr c w'.file i s path = b ∧
      (Leaf c s path ∨ ∃ k, Valid c s (k :: path) ∧ ptr c w'.file i s (k :: path) ≠ 0)

/-- When `Attach_Blocks` stops before it has done anything, and returns what was asked for: at
the direct pointers, in a block that is partly filled but not one of the second level, or with an
`errno` of before. -/
def Reports (c : Superblock_constants) (w : Worker_state) (N n : Nat) : Prop :=
  N < 12 ∧ n = 12 - N ∨
  Partial c w.file N n ∧ (N < level_start c 2 ∨ level_start c 3 ≤ N) ∨
  w.errno = some .ENOSPC ∧ level_start c 2 ≤ N

variable {c : Superblock_constants} {live : Nat → Prop} {fs fs' : Image} {w w' : Worker_state}
  {i s t k m n r b N M d d' : Nat} {path : List Nat} {D E : List Node}

section Count

variable (hP : 1 < pointers_per_block c)
include hP

/-- What has all the nodes whose first leaves lie in a range has the blocks needed for it. -/
theorem needed_le_length (hcap : N + n ≤ level_start c 4)
    (hE : ∀ s path, Valid c s path → N ≤ first_index c s path →
      first_index c s path < N + n → (⟨i, s, path⟩ : Node) ∈ E) : needed c N n ≤ E.length := by
  have hway : ∀ m ∈ Finset.Ico N (N + n), ∀ x ∈ way c i m,
      x.inode = i ∧ Valid c x.slot x.path ∧ first_index c x.slot x.path = m := by
    intro m hm x hx
    have hm := Finset.mem_Ico.mp hm
    exact (mem_way hP (by omega)).mp hx
  have hdisjoint : (Finset.Ico N (N + n) : Set Nat).PairwiseDisjoint (way c i) := by
    intro a ha b hb hab
    refine Finset.disjoint_left.mpr fun x hxa hxb => hab ?_
    exact (hway a ha x hxa).2.2.symm.trans (hway b hb x hxb).2.2
  have hsub : (Finset.Ico N (N + n)).biUnion (way c i) ⊆ E.toFinset := by
    intro x hx
    obtain ⟨m, hm, hx⟩ := Finset.mem_biUnion.mp hx
    obtain ⟨hinode, hvalid, hfirst⟩ := hway m hm x hx
    obtain ⟨j, s, path⟩ := x
    obtain rfl : j = i := hinode
    have hm := Finset.mem_Ico.mp hm
    exact List.mem_toFinset.mpr (hE s path hvalid (hm.1.trans_eq hfirst.symm)
      (hfirst.trans_lt hm.2))
  calc needed c N n = ∑ m ∈ Finset.Ico N (N + n), (way c i m).card :=
        Finset.sum_congr rfl fun m _ => way_card.symm
    _ = ((Finset.Ico N (N + n)).biUnion (way c i)).card := (Finset.card_biUnion hdisjoint).symm
    _ ≤ E.toFinset.card := Finset.card_le_card hsub
    _ ≤ E.length := List.toFinset_card_le E

/-- Who has got `n` blocks has taken those needed for them. -/
theorem Reached.needed_add_le (h : Reached c live i fs (N + n) d fs') (hi : live i)
    (hw : Prepared c live i N 0 fs) (hcap : N + n ≤ level_start c 4) :
    fs'.TOTAL_UNALLOCATED_BLOCKS + needed c N n ≤ fs.TOTAL_UNALLOCATED_BLOCKS := by
  obtain ⟨⟨D, hgrew⟩, hprepared⟩ := h
  have hle : needed c N n ≤ D.length := by
    refine needed_le_length (i := i) hP hcap ?_
    intro s path hvalid hlo hhi
    have hzero : ptr c fs i s path = 0 := by
      by_contra hne
      have := (hw.full s path hvalid).mp hne
      omega
    have hset : ptr c fs' i s path ≠ 0 := (hprepared.full s path hvalid).mpr (Or.inl hhi)
    by_contra hD
    exact hset ((hgrew.kept ⟨i, s, path⟩ ⟨hi, hvalid⟩ hD).trans hzero)
  rw [← hgrew.total]
  exact Nat.add_le_add_left hle _

theorem Reached.needed_le (h : Reached c live i fs (N + n) d fs') (hi : live i)
    (hw : Prepared c live i N 0 fs) (hcap : N + n ≤ level_start c 4) :
    needed c N n ≤ fs.TOTAL_UNALLOCATED_BLOCKS :=
  (Nat.le_add_left ..).trans (h.needed_add_le hP hi hw hcap)

/-- And it has taken no others. -/
theorem Reached.total (h : Reached c live i fs (N + n) 0 fs') (hi : live i)
    (hw : Prepared c live i N 0 fs) (hcap : N + n ≤ level_start c 4) :
    fs'.TOTAL_UNALLOCATED_BLOCKS + needed c N n = fs.TOTAL_UNALLOCATED_BLOCKS := by
  have hge := h.needed_add_le hP hi hw hcap
  obtain ⟨⟨D, hgrew⟩, hprepared⟩ := h
  have hle : D.length ≤ needed c N n := by
    refine nodes_length_le (i := i) (a := N) (b := N + n) hP hgrew.nodup ?_
    intro x hx
    obtain ⟨hzero, hset, -⟩ := hgrew.fresh x hx
    have hinode := hgrew.inode x hx
    have hvalid := (hgrew.held x hx).valid
    obtain ⟨j, s, path⟩ := x
    obtain rfl : j = i := hinode
    have hbefore : ¬ first_index c s path < N := fun hlt =>
      (hw.full s path hvalid).mpr (Or.inl hlt) hzero
    have hafter := (hprepared.full s path hvalid).mp hset
    exact ⟨rfl, hvalid, by simp only; omega, by simp only; omega⟩
  have htotal := hgrew.total
  omega

/-- The number of blocks of an inode is determined. -/
theorem Filled.unique (h : Filled c fs i N) (h' : Filled c fs i M) (hN : N < level_start c 4) :
    N = M := by
  rcases Nat.lt_trichotomy N M with hlt | heq | hlt
  · exact absurd ((h.block_at hP hN).mp ((h'.block_at hP hN).mpr hlt)) (Nat.lt_irrefl N)
  · exact heq
  · have hM := hlt.trans hN
    exact absurd ((h'.block_at hP hM).mp ((h.block_at hP hM).mpr hlt)) (Nat.lt_irrefl M)

end Count

/-- The data blocks lie below 2^32 with no two in one place. -/
theorem Filled.mapped (h : Filled c fs i N) (hsize : Ext2_size c) (hown : Owned c live fs)
    (hpool : Pool c fs) (hi : live i) (hM : M ≤ N) (hcap : M ≤ level_start c 4) :
    M * c.BLOCK_SIZE < 2 ^ 32 := by
  have hP := hsize.pointers
  have hne : ∀ m < M, Rfs.block_at c fs i m ≠ 0 := fun m hm =>
    (h.block_at hP (hm.trans_le hcap)).mpr (hm.trans_le hM)
  have hblock : ∀ m < M, IsBlock c (Rfs.block_at c fs i m) := by
    intro m hm
    obtain ⟨hleaf, -⟩ := leaf_of_spec hP (hm.trans_le hcap)
    exact hown.block ⟨i, _, _⟩ ⟨hi, hleaf.valid⟩ (hne m hm)
  have hmaps : ∀ m ∈ Finset.range M,
      Rfs.block_at c fs i m - 1 ∈ Finset.range ((2 ^ 32 - 1) / c.BLOCK_SIZE) := by
    intro m hm
    have hb := hblock m (Finset.mem_range.mp hm)
    have hpos := hb.1
    have hle : Rfs.block_at c fs i m ≤ (2 ^ 32 - 1) / c.BLOCK_SIZE :=
      (Nat.le_div_iff_mul_le c.size_pos).mpr (Nat.le_sub_one_of_lt (hpool.mapped _ hb))
    exact Finset.mem_range.mpr (by omega)
  have hinj : Set.InjOn (fun m => Rfs.block_at c fs i m - 1) (Finset.range M) := by
    intro a ha b hb heq
    have ha := Finset.mem_range.mp ha
    have hb := Finset.mem_range.mp hb
    have hpos := (hblock a ha).1
    have hpos' := (hblock b hb).1
    exact hown.block_at_inj hP hi (ha.trans_le hcap) (hb.trans_le hcap) (hne a ha)
      (by dsimp only at heq; omega)
  have hcard : M ≤ (2 ^ 32 - 1) / c.BLOCK_SIZE := by
    simpa using Finset.card_le_card_of_injOn _ hmaps hinj
  have hle := (Nat.le_div_iff_mul_le c.size_pos).mp hcard
  omega

/-- There are more pointers in an inode than blocks that 32 bits can reach. -/
theorem filled_lt_levels (h : Filled c fs i N) (hsize : Ext2_size c) (hown : Owned c live fs)
    (hpool : Pool c fs) (hi : live i) : N < level_start c 4 := by
  by_contra hge
  have hmapped := h.mapped hsize hown hpool hi (Nat.not_lt.mp hge) le_rfl
  have hlevels : 2 ^ 32 ≤ level_start c 4 * c.BLOCK_SIZE := by
    unfold level_start level_start level_start level_start pointers_per_block
    rcases hsize with h | h | h <;> rw [h] <;> decide
  omega

/-- Where all that was taken can be reached, no indirect block is without entries. -/
theorem Reported.tidy (h : Reported c i N n r fs w') (hi : live i) (htidy : Tidy c fs i)
    (hgrew : Grew c live i fs D w'.file) : Tidy c w'.file i := by
  intro s path hvalid hlt hne
  by_cases hold : ptr c fs i s path = 0
  · have hD : (⟨i, s, path⟩ : Node) ∈ D := by
      by_contra hD
      exact hne ((hgrew.kept ⟨i, s, path⟩ ⟨hi, hvalid⟩ hD).trans hold)
    have hx : Held c live ⟨i, s, path⟩ := ⟨hi, hvalid⟩
    obtain ⟨t, q, hq, hsame, hends⟩ := h.reachable _ (hgrew.owned.block _ hx hne)
      (hgrew.fresh _ hD).2.2 (hgrew.owned.used ⟨i, s, path⟩ hx hne)
    have hnode := hgrew.owned.inj ⟨i, s, path⟩ ⟨i, t, q⟩ hx ⟨hi, hq⟩ hne hsame.symm
    cases hnode
    rcases hends with hleaf | hentry
    · exact absurd hleaf.length hlt.ne
    · exact hentry
  · obtain ⟨k, hk, hentry⟩ := htidy s path hvalid hlt hold
    have hkept : ptr c w'.file i s (k :: path) = ptr c fs i s (k :: path) :=
      Grown.ptr ⟨D, hgrew⟩ ⟨hi, hk⟩ hentry
    exact ⟨k, hk, hkept.trans_ne hentry⟩

/-- Nothing done, and all that was asked for returned. -/
theorem Reported.of_same (herrno : w'.errno = some .ENOSPC) (hfile : w'.file = fs)
    (hfilled : Filled c fs i N) : Reported c i N n n fs w' := by
  refine ⟨herrno, le_rfl, ?_, ?_, ?_⟩
  · rw [hfile, Nat.sub_self, Nat.add_zero]
    exact hfilled
  · intro m _
    rw [hfile]
  · intro b _ hfree hused
    rw [hfile, hfree] at hused
    cases hused

section Ends

variable (hsize : Ext2_size c) (hi : live i) (hw : Prepared c live i N 0 w.file) (hn : 0 < n)
include hsize hi hw hn

/-- With an `errno` of before nothing is done above the first level. -/
theorem Attach_Blocks_stale_above (hN : level_start c 2 ≤ N) (herr : w.errno = some .ENOSPC) :
    Attach_Blocks c i n w = .ok (n, w) := by
  have hP := hsize.pointers
  have hstart : 12 < level_start c 2 := by
    have hpos : 0 < pointers_per_block c ^ 1 := Nat.pow_pos (by omega)
    exact Nat.lt_add_of_pos_right hpos
  have h1 : level_start c 1 = 12 := rfl
  have hleft : left_to_attach (n - 0) = .inr n := if_neg hn.ne'
  have hdirect : (0 : Nat) = min (12 - N) n := by omega
  have hlevel : (0 : Nat) = min (level_start c 2 - N) n := by omega
  rw [Attach_Blocks_eq]
  rcases Attach_Blocks_level0_spec hP hi hw hdirect hn with
    ⟨-, hlt, -⟩ | ⟨w₁, hok, -, ⟨-, rfl⟩ | ⟨hpos, -⟩⟩
  · omega
  · have hspec := Attach_Blocks_level1_spec hP hsize.words hi hw hn (by omega)
      (fun heq => by omega) hlevel
    rw [if_pos herr] at hspec
    rw [hok, hleft]
    rcases hspec with ⟨w₂, hok₂, -, ⟨-, rfl⟩ | ⟨hpos, -⟩⟩ | ⟨-, -, hstuck⟩ | ⟨x, w₂, -, hends⟩
    · show next_level (Attach_Blocks_level1 c i n w₂) _ = _
      rw [hok₂]
      rfl
    · exact absurd hpos.1 (Nat.lt_irrefl 0)
    · exact absurd hstuck.pos (Nat.lt_irrefl 0)
    · exact absurd hends.stuck.pos (Nat.lt_irrefl 0)
  · exact absurd hpos.1 (Nat.lt_irrefl 0)

omit hsize hi in
/-- Stopping in a block that is partly filled. -/
theorem Reported.of_partial {result : Except Crash (Nat × Worker_state)} {done : Nat}
    (hk : 0 < k) (hpart : Partial c w.file N n)
    (h : Outcome c live i N k n done id n w result) :
    ∃ r w', result = .ok (r, w') ∧ Reported c i N n r w.file w' := by
  rcases h with ⟨w', -, -, ⟨hzero, -⟩ | ⟨-, hwhole, -⟩⟩ | ⟨-, hwhole, -⟩ | ⟨x, w', rfl, hends⟩
  · exact absurd hzero hk.ne'
  · exact absurd hpart hwhole
  · exact absurd hpart hwhole
  · rcases hends.left with ⟨hwhole, -⟩ | ⟨-, hfile, rfl⟩
    · exact absurd hpart hwhole
    · exact ⟨_, w', rfl, .of_same hends.errno hfile hw.full.filled⟩

/-- Where it has done nothing it says so. -/
theorem Attach_Blocks_reports (hN : N < level_start c 4)
    (hfew : w.file.TOTAL_UNALLOCATED_BLOCKS < needed c N n) (h : Reports c w N n) :
    ∃ r w', Attach_Blocks c i n w = .ok (r, w') ∧ Reported c i N n r w.file w' := by
  have hP := hsize.pointers
  have hstart : level_start c 2 < level_start c 4 := by
    have hmono : level_start c 3 ≤ level_start c 4 := level_start_mono (by decide)
    exact (Nat.lt_add_of_pos_right (Nat.pow_pos (by omega))).trans_le hmono
  rcases h with ⟨hlt, hall⟩ | ⟨hpart, hlevel⟩ | ⟨herr, habove⟩
  · rcases Attach_Blocks_level0_spec hP hi hw rfl hn with
      ⟨hok, -, -⟩ | ⟨w', -, -, ⟨hzero, -⟩ | ⟨-, -, hreached, -⟩⟩
    · rw [Attach_Blocks_eq, hok]
      refine ⟨_, _, rfl, ?_⟩
      rw [← hall]
      exact .of_same rfl rfl hw.full.filled
    · omega
    · have h12 : 12 ≤ level_start c 4 := level_start_mono (c := c) (show 1 ≤ 4 by decide)
      rw [Nat.min_eq_right hall.le] at hreached
      exact absurd (hreached.needed_le hP hi hw (by omega)) (Nat.not_le.mpr hfew)
  · by_cases herr : w.errno = some .ENOSPC
    · by_cases hbelow : N < level_start c 2
      · rcases Attach_Blocks_stale_spec hP hsize.words hi hw (Or.inr (Or.inl hpart)) hn hbelow herr rfl with
          ⟨-, hlt, -⟩ | hends
        · exact absurd hpart.1 (Nat.not_le.mpr hlt)
        · exact Reported.of_partial hw hn (by omega) hpart hends
      · rw [Attach_Blocks_stale_above hsize hi hw hn (by omega) herr]
        exact ⟨n, w, rfl, .of_same herr rfl hw.full.filled⟩
    · rcases Attach_Blocks_spec hP hsize.words hi hw (Or.inr (Or.inl hpart)) hn hN herr rfl with
        ⟨-, hlt, -⟩ | hends
      · exact absurd hpart.1 (Nat.not_le.mpr hlt)
      · rw [stopped, if_neg (by omega)] at hends
        exact Reported.of_partial hw hn (by omega) hpart hends
  · rw [Attach_Blocks_stale_above hsize hi hw hn habove herr]
    exact ⟨n, w, rfl, .of_same herr rfl hw.full.filled⟩

omit hn in
/-- What it says is right only there. -/
theorem reports_of_outcome {short done : Nat} (hN : N < level_start c 4)
    (hdone : ∀ w', Attached c live i N k n w w' → ¬ Reported c i N n done w.file w')
    (hshort : short = n → N < level_start c 2 ∨ level_start c 3 ≤ N)
    (h : Outcome c live i N k n done id short w (.ok (r, w')))
    (hreported : Reported c i N n r w.file w') : Reports c w N n := by
  have hP := hsize.pointers
  rcases h with ⟨w'', heq, hattached⟩ | ⟨heq, -⟩ | ⟨x, w'', heq, hends⟩
  · obtain ⟨rfl, rfl⟩ := Prod.mk.inj (Except.ok.inj heq)
    exact absurd hreported (hdone w' hattached)
  · cases heq
  · obtain ⟨rfl, rfl⟩ := Prod.mk.inj (Except.ok.inj heq)
    rcases hends.left with ⟨-, htidy⟩ | ⟨hpart, hfile, rfl⟩
    · obtain ⟨N', d', ⟨D, hgrew⟩, -⟩ := hends.reached
      exact absurd (hreported.tidy hi (hw.full.tidy hP) hgrew) htidy
    · have hfilled := hreported.filled
      rw [hfile] at hfilled
      have hsame := hw.full.filled.unique hP hfilled hN
      have hle := hreported.le
      exact Or.inr (Or.inl ⟨hpart, hshort (by omega)⟩)

theorem reports_of_reported (hN : N < level_start c 4) (hclean : Clean c w.file)
    (hfew : w.file.TOTAL_UNALLOCATED_BLOCKS < needed c N n)
    (h : Attach_Blocks c i n w = .ok (r, w')) (hreported : Reported c i N n r w.file w') :
    Reports c w N n := by
  have hP := hsize.pointers
  have hmono : level_start c 3 ≤ level_start c 4 := level_start_mono (by decide)
  have h12 : 12 < level_start c 2 := Nat.lt_add_of_pos_right (Nat.pow_pos (by omega))
  have hstart : level_start c 2 < level_start c 4 :=
    (Nat.lt_add_of_pos_right (Nat.pow_pos (by omega))).trans_le hmono
  have hdirect : Attach_Blocks c i n w = .ok (12 - N, { w with errno := some .ENOSPC }) →
      N < 12 → Reports c w N n := by
    intro hok hlt
    rw [hok] at h
    obtain ⟨rfl, rfl⟩ := Prod.mk.inj (Except.ok.inj h)
    have hsame := hw.full.filled.unique hP hreported.filled hN
    have hle := hreported.le
    exact Or.inl ⟨hlt, by omega⟩
  by_cases herr : w.errno = some .ENOSPC
  · by_cases hbelow : N < level_start c 2
    · rcases Attach_Blocks_stale_spec hP hsize.words hi hw (Or.inl hclean) hn hbelow herr rfl with
        ⟨hok, hlt, -⟩ | hends
      · exact hdirect hok hlt
      · rw [h] at hends
        refine reports_of_outcome hsize hi hw hN ?_ (fun _ => Or.inl hbelow) hends hreported
        -- more was attached than is taken off, or all of it
        rintro w'' ⟨-, ⟨hzero, -⟩ | ⟨-, -, hreached, -⟩⟩ hreported'
        · omega
        · have hsame := hreached.prepared.full.filled.unique hP hreported'.filled (by omega)
          have hall : min (level_start c 2 - N) n = n := by omega
          rw [hall] at hreached
          exact absurd (hreached.needed_le hP hi hw (by omega)) (Nat.not_le.mpr hfew)
    · exact Or.inr (Or.inr ⟨herr, Nat.not_lt.mp hbelow⟩)
  · rcases Attach_Blocks_spec hP hsize.words hi hw (Or.inl hclean) hn hN herr rfl with
      ⟨hok, hlt, -⟩ | hends
    · exact hdirect hok hlt
    · rw [h] at hends
      refine reports_of_outcome hsize hi hw hN ?_ ?_ hends hreported
      · intro w'' hattached hreported'
        exact herr (hattached.1.symm.trans hreported'.errno)
      · intro hshort
        unfold stopped at hshort
        split_ifs at hshort <;> omega

end Ends

/-- When there are not enough blocks `Attach_Blocks` returns the number of those that it has not
attached, and has taken none for nothing, if it stops before it has done anything and returns what
was asked for; with clean free blocks, only then. -/
theorem Attach_Blocks_reported_iff (hsize : Ext2_size c) (hpool : Pool c w.file)
    (hown : Owned c live w.file) (hi : live i) (hfilled : Filled c w.file i N)
    (htidy : Tidy c w.file i) (hn : 1 ≤ n)
    (hfew : w.file.TOTAL_UNALLOCATED_BLOCKS < needed c N n) :
    (Reports c w N n →
      ∃ r w', Attach_Blocks c i n w = .ok (r, w') ∧ Reported c i N n r w.file w') ∧
    (Clean c w.file → ((∃ r w', Attach_Blocks c i n w = .ok (r, w') ∧
      Reported c i N n r w.file w') ↔ Reports c w N n)) := by
  have hP := hsize.pointers
  have hw : Prepared c live i N 0 w.file := ⟨hown, hpool, full_of_tidy hP hfilled htidy⟩
  have hN : N < level_start c 4 := filled_lt_levels hfilled hsize hown hpool hi
  have hreports := Attach_Blocks_reports hsize hi hw hn hN hfew
  refine ⟨hreports, fun hclean => ⟨?_, hreports⟩⟩
  rintro ⟨r, w', hok, hreported⟩
  exact reports_of_reported hsize hi hw hn hN hclean hfew hok hreported

theorem ten_blocks_refused :
    (Reports (one_group 0 (by decide)) ⟨small_file, none⟩ 2 10 → ∃ r w',
      Attach_Blocks (one_group 0 (by decide)) 5 10 ⟨small_file, none⟩ = .ok (r, w') ∧
        Reported (one_group 0 (by decide)) 5 2 10 r small_file w') ∧
    (Clean (one_group 0 (by decide)) small_file → ((∃ r w',
      Attach_Blocks (one_group 0 (by decide)) 5 10 ⟨small_file, none⟩ = .ok (r, w') ∧
        Reported (one_group 0 (by decide)) 5 2 10 r small_file w') ↔
      Reports (one_group 0 (by decide)) ⟨small_file, none⟩ 2 10)) :=
  Attach_Blocks_reported_iff (w := ⟨small_file, none⟩) (Or.inl rfl) small_file_pool
    small_file_owned rfl small_file_filled small_file_tidy (by decide) (by decide)

/-- Of five blocks for two that are there, with four free, ten are said to be left. -/
theorem five_blocks_misreported : Pool (one_group 0 (by decide)) small_file ∧
    Owned (one_group 0 (by decide)) (fun j => j = 5) small_file ∧
    Filled (one_group 0 (by decide)) small_file 5 2 ∧ Tidy (one_group 0 (by decide)) small_file 5 ∧
    Clean (one_group 0 (by decide)) small_file ∧
    small_file.TOTAL_UNALLOCATED_BLOCKS < needed (one_group 0 (by decide)) 2 5 ∧
    ¬ ∃ r w', Attach_Blocks (one_group 0 (by decide)) 5 5 ⟨small_file, none⟩ = .ok (r, w') ∧
      Reported (one_group 0 (by decide)) 5 2 5 r small_file w' := by
  refine ⟨small_file_pool, small_file_owned, small_file_filled, small_file_tidy, small_file_clean,
    by decide, ?_⟩
  rintro ⟨r, w', hok, hreported⟩
  have hrun : Attach_Blocks (one_group 0 (by decide)) 5 5 ⟨small_file, none⟩ =
      .ok (10, ⟨small_file, some .ENOSPC⟩) := rfl
  rw [hrun] at hok
  obtain ⟨rfl, -⟩ := Prod.mk.inj (Except.ok.inj hok)
  exact absurd hreported.le (by decide)

end LaLiga.Rfs
