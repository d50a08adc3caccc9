import LaLiga.Rfs.WriteFile

/-! `truncate_file`: blocks given or taken away, and the new size. -/
namespace LaLiga.Rfs

open LaLiga.Lib

variable (c : Superblock_constants)

structure Truncate_params where
  path : Path
  size : UInt64

structure Truncate_result where
  data : Nat
  worker : Worker_state
  memc : Block_cache

def cache_delete (path : Path) (memc : Block_cache) (block_number : Nat) : Block_cache :=
  memc.delete (generate_key path block_number)

/-- The keys that the `for` of `Remove_Blocks` drops. -/
def cache_delete_blocks (path : Path) : Nat → Nat → Block_cache → Block_cache
  | 0, _, memc => memc
  | left + 1, start_remotion_index, memc =>
    cache_delete_blocks path left (start_remotion_index + 1)
      (cache_delete path memc start_remotion_index)

/-- The blocks of the file changed by the difference of the two counts. -/
def change_blocks (i before after : Nat) (path : Path) (memc : Block_cache) (w : Worker_state) :
    Except Crash (Nat × Worker_state × Block_cache) :=
  if after > before then
    match Attach_Blocks c i (after - before) w with
    | .error e => .error e
    | .ok (not_attached, w) => .ok (not_attached, w, memc)
  else if after < before then
    match Remove_Blocks c w.file i (before - after) with
    | .error e => .error e
    | .ok fs => .ok (0, { w with file := fs },
        cache_delete_blocks path (before - after) (uint32 (before - (before - after : Nat))) memc)
  else .ok (0, w, memc)

/-- After blocks that did not come the function goes on, so that the size is the new one anyway. -/
def truncate_file (file_inode : Option Nat) (params : Truncate_params) (memc : Block_cache)
    (w : Worker_state) : Except Crash Truncate_result :=
  match file_inode with
  | none => .ok ⟨1, w, memc⟩
  | some i =>
    let new_size := params.size.toNat % 2 ^ 32
    if (w.file.inode i).mode &&& EXT2_IFREG = 0 then
      .ok ⟨1, { w with errno := some .EPERM }, memc⟩
    else
      let before := Size_In_Blocks c (uint32 (w.file.inode i).size)
      let after := Size_In_Blocks c new_size
      match change_blocks c i before after params.path memc w with
      | .error e => .error e
      | .ok (not_attached, w, memc) =>
        let fs :=
          if not_attached > 0 then
            let size := int32 ((w.file.inode i).size +
              ((after : Int) - before - not_attached) * c.BLOCK_SIZE)
            set_counts w.file i size (Size_In_Blocks c (uint32 size) / 512)
          else w.file
        .ok ⟨0, { w with
          file := set_counts fs i (int32 new_size) (Size_In_Blocks c new_size / 512) }, memc⟩

variable {c} {live reserved : Nat → Prop} {fs fs' : Image} {w w' : Worker_state}
  {i k m n b M N new_size left start : Nat} {path : Path} {bytes : List UInt8} {D : List Node}
  {memc memc' : Block_cache} {params : Truncate_params}

/-- What is still there is not of the blocks taken away. -/
theorem cache_delete_blocks_hit {key : List UInt8} {data : Nat → UInt8}
    (h : cache_delete_blocks path left start memc key = some data) :
    memc key = some data ∧ ∀ m, start ≤ m → m < start + left → key ≠ generate_key path m := by
  induction left generalizing start memc with
  | zero =>
    refine ⟨h, ?_⟩
    omega
  | succ left ih =>
    obtain ⟨hhit, hne⟩ := ih h
    obtain ⟨hfirst, hbefore⟩ := Cache.hit_of_delete hhit
    refine ⟨hbefore, ?_⟩
    intro m hlo hhi
    by_cases hm : m = start
    · rw [hm]
      exact hfirst
    · exact hne m (by omega) (by omega)

section Shrinking

variable (hP : 1 < pointers_per_block c) (hown : Owned c live fs)
  (h : Shrunk c live i fs D fs')
include hP hown h

theorem Shrunk.block_at (hi : live i) (hm : m < level_start c 4) (hne : Rfs.block_at c fs i m ≠ 0)
    (hstays : Rfs.block_at c fs' i m ≠ 0) : Rfs.block_at c fs' i m = Rfs.block_at c fs i m ∧
      fs'.block (Rfs.block_at c fs i m) = fs.block (Rfs.block_at c fs i m) := by
  obtain ⟨hleaf, -⟩ := leaf_of_spec hP hm
  have hx : Held c live ⟨i, _, _⟩ := ⟨hi, hleaf.valid⟩
  exact ⟨h.kept _ hx fun hD => hstays (h.freed _ hD).2, h.leaf_content hown hx hleaf hne⟩

theorem Shrunk.byte_at (hi : live i) (hfull : Full c fs i N 0) (hfull' : Full c fs' i M 0)
    (hMN : M ≤ N) (hN : N ≤ level_start c 4) (hk : k / c.BLOCK_SIZE < M) :
    Rfs.byte_at c fs' i k = Rfs.byte_at c fs i k := by
  have hlevels := (hk.trans_le hMN).trans_le hN
  obtain ⟨hat, hcontent⟩ := h.block_at hP hown hi hlevels
    ((hfull.filled.block_at hP hlevels).mpr (hk.trans_le hMN))
    ((hfull'.filled.block_at hP hlevels).mpr hk)
  rw [Rfs.byte_at, Rfs.byte_at, hat, hcontent]

end Shrinking

/-- The file before its size is changed: it has `M` blocks, those that it had as they were. -/
structure Reblocked (c : Superblock_constants) (live reserved : Nat → Prop) (i N M : Nat)
    (bytes : List UInt8) (fs fs' : Image) : Prop where
  others : Kept c live i fs fs'
  audited : Audited c live reserved fs'
  mode : (fs'.inode i).mode = (fs.inode i).mode
  full : Full c fs' i M 0
  byte : ∀ k, k / c.BLOCK_SIZE < N → k / c.BLOCK_SIZE < M → byte_at c fs' i k = byte_at c fs i k
  fresh : ∀ k, N ≤ k / c.BLOCK_SIZE → k / c.BLOCK_SIZE < M → byte_at c fs' i k = 0

section Changing

variable {before after : Nat} (hsize : Ext2_size c) (hacc : Audited c live reserved w.file)
  (hs : Stored c live i N bytes w.file) (hbefore : before = Size_In_Blocks c bytes.length)
include hsize hacc hs hbefore

theorem change_blocks_grow (path : Path) (memc : Block_cache) (hmore : before < after)
    (hcap : (after - before) * c.BLOCK_SIZE < 2 ^ 32)
    (hroom : Room c N (after - before) w) :
    ∃ w', change_blocks c i before after path memc w = .ok (0, w', memc) ∧ w'.errno = w.errno ∧
      Reblocked c live reserved i N (N + (after - before)) bytes w.file w'.file ∧
      Clean c w'.file ∧ Recached c i before after path w.file w'.file memc memc := by
  have hP := hsize.pointers
  have hown := hacc.owned
  have hN := (filled_lt_levels hs.full.filled hsize hown hacc.pool hs.held).le
  obtain ⟨w', D, hattach, herr, hgrew, hs'⟩ :=
    Attach_Blocks_stored hsize hown hacc.pool hs hroom (by omega) hcap
  have henough := hs.enough
  refine ⟨w', ?_, herr, ?_, hgrew.clean (hroom (by omega)).1, ?_⟩
  · rw [change_blocks, if_pos hmore, hattach]
  · exact ⟨hgrew.others hown, hgrew.audited hacc, hgrew.rest.mode, hs'.full,
      fun k hk _ => hgrew.byte_at hP hown hs.held hs.full hN hk,
      fun k hlo hhi => hs'.spare k (henough.trans hlo) hhi⟩
  · refine ⟨fun m data hm hhit => Or.inr ⟨hhit, fun hlt => ⟨hlt.trans hmore, ?_⟩⟩,
      fun _ _ _ hhit => hhit⟩
    exact hgrew.block_at hP hown hs.held hm ((hs.full.filled.block_at hP hm).mpr (by omega))

theorem change_blocks_shrink (path : Path) (memc : Block_cache) (hless : after < before)
    (hN : N = before) :
    ∃ w' memc', change_blocks c i before after path memc w = .ok (0, w', memc') ∧
      w'.errno = w.errno ∧
      Reblocked c live reserved i N after bytes w.file w'.file ∧
      Recached c i before after path w.file w'.file memc memc' := by
  have hP := hsize.pointers
  have hown := hacc.owned
  have hlen := hs.uint32_size
  have hlevels := filled_lt_levels hs.full.filled hsize hown hacc.pool hs.held
  have hall := hsize.levels
  obtain ⟨D, fs', hremove, hshrunk, -, hfilled, htidy⟩ := Remove_Blocks_exact (m := after) hsize
    hacc.pool hown hs.held (by rw [hlen, hN, hbefore]) hs.full.filled
    (hs.full.tidy hP) (by omega)
  have hfull : Full c fs' i after 0 := full_of_tidy hP hfilled htidy
  have hfirst : uint32 ((before : Int) - (before - after : Nat)) = after := by
    rw [show (before : Int) - (before - after : Nat) = after by omega]
    exact uint32_of_lt (by omega)
  refine ⟨{ w with file := fs' }, cache_delete_blocks path (before - after) after memc, ?_, rfl,
    ?_, ?_⟩
  · rw [change_blocks, if_neg (by omega), if_pos hless, ← hN, hremove, hN, hfirst]
  · refine ⟨hshrunk.others hown, hshrunk.audited hacc, hshrunk.rest.mode, hfull, ?_, by omega⟩
    intro k _ hk
    exact hshrunk.byte_at hP hown hs.held hs.full hfull (by omega) hlevels.le hk
  · constructor
    · intro m data hm hhit
      obtain ⟨hold, hkey⟩ := cache_delete_blocks_hit hhit
      refine Or.inr ⟨hold, ?_⟩
      intro hlt
      have hstays : m < after := by
        by_contra hnot
        exact hkey m (by omega) (by omega) rfl
      exact ⟨hstays, hshrunk.block_at hP hown hs.held hm
        ((hs.full.filled.block_at hP hm).mpr (by omega)) ((hfilled.block_at hP hm).mpr hstays)⟩
    · intro key data _ hhit
      exact (cache_delete_blocks_hit hhit).1

omit hsize in
theorem change_blocks_same (path : Path) (memc : Block_cache) (hsame : before = after) :
    change_blocks c i before after path memc w = .ok (0, w, memc) ∧
      Reblocked c live reserved i N N bytes w.file w.file ∧
      Recached c i before after path w.file w.file memc memc := by
  refine ⟨?_, ⟨.refl _, hacc, rfl, hs.full, fun _ _ _ => rfl, by omega⟩, ?_⟩
  · rw [change_blocks, if_neg (by omega), if_neg (by omega)]
  · exact ⟨fun m data _ hhit => Or.inr
      ⟨hhit, fun hlt => ⟨hsame ▸ hlt, rfl, rfl⟩⟩, fun _ _ _ hhit => hhit⟩

end Changing

/-- The bytes that a larger size brings back: those behind the end in the last block. -/
def Uncovered (c : Superblock_constants) (i size new_size : Nat) (fs : Image) : Prop :=
  ∃ k, size ≤ k ∧ k < new_size ∧ k / c.BLOCK_SIZE < Size_In_Blocks c size ∧ byte_at c fs i k ≠ 0

theorem Trimmed.covered {size : Nat} (h : Trimmed c i size fs) : ¬ Uncovered c i size new_size fs := by
  rintro ⟨k, hlo, -, hblock, hne⟩
  exact hne (h k hlo hblock)

/-- With the new size the file is the old one cut or filled up with zeros, unless old bytes come
back. -/
theorem Reblocked.stored_iff (blocks : Nat)
    (h : Reblocked c live reserved i N M bytes fs fs') (hs : Stored c live i N bytes fs)
    (hnew : new_size < 2 ^ 31) (henough : Size_In_Blocks c new_size ≤ M)
    (hspare : Size_In_Blocks c bytes.length ≤ Size_In_Blocks c new_size ∨
      M = Size_In_Blocks c new_size) :
    Stored c live i M (resize 0 bytes new_size) (set_counts fs' i new_size blocks) ↔
      ¬ Uncovered c i bytes.length new_size fs := by
  have hin : ∀ k < new_size, k / c.BLOCK_SIZE < M := fun k hk =>
    (lt_Size_In_Blocks ((Nat.div_mul_le_self k c.BLOCK_SIZE).trans_lt hk)).trans_le henough
  constructor
  · rintro hstored ⟨k, hlo, hhi, hblock, hne⟩
    have hbyte := hstored.content k (by rwa [length_resize])
    rw [getElem?_resize, if_pos hhi, if_neg (Nat.not_lt.mpr hlo), set_counts_byte_at,
      h.byte k (hblock.trans_le hs.enough) (hin k hhi)] at hbyte
    exact hne (Option.some.inj hbyte).symm
  · intro hcovered
    constructor
    · exact hs.held
    · rw [set_counts_self, h.mode]
      exact hs.mode
    · rw [set_counts_self, length_resize]
    · rwa [length_resize]
    · exact set_counts_full h.full
    · rwa [length_resize]
    · intro k hk
      rw [length_resize] at hk
      rw [getElem?_resize, if_pos hk, set_counts_byte_at]
      by_cases hold : k < bytes.length
      · rw [if_pos hold, h.byte k (hs.lt_blocks hold) (hin k hk)]
        exact hs.content k hold
      · rw [if_neg hold]
        congr 1
        by_cases hN : k / c.BLOCK_SIZE < N
        · rw [h.byte k hN (hin k hk)]
          by_cases htail : k / c.BLOCK_SIZE < Size_In_Blocks c bytes.length
          · by_contra hne
            exact hcovered ⟨k, Nat.not_lt.mp hold, hk, htail, Ne.symm hne⟩
          · exact (hs.spare k (Nat.not_lt.mp htail) hN).symm
        · exact (h.fresh k (Nat.not_lt.mp hN) (hin k hk)).symm
    · intro k hlo hhi
      rw [length_resize] at hlo
      rw [set_counts_byte_at]
      by_cases hN : k / c.BLOCK_SIZE < N
      · rw [h.byte k hN hhi]
        exact hs.spare k (by omega) hN
      · exact h.fresh k (Nat.not_lt.mp hN) hhi

/-- A regular file gets its new size, with the blocks for it, and nothing else changes. It ends in
zeros when it grows, exactly when no old bytes come back. -/
theorem truncate_file_updated (params : Truncate_params) (memc : Block_cache) (hsize : Ext2_size c)
    (hacc : Audited c live reserved w.file)
    (hs : Stored c live i N bytes w.file) (hnew : new_size = params.size.toNat % 2 ^ 32)
    (hlt : new_size < 2 ^ 31)
    (hM : M = N + Size_In_Blocks c new_size - Size_In_Blocks c bytes.length)
    (hroom : Room c N (Size_In_Blocks c new_size - Size_In_Blocks c bytes.length) w)
    (hshrink : Size_In_Blocks c new_size < Size_In_Blocks c bytes.length →
      N = Size_In_Blocks c bytes.length) :
    ∃ w' memc', truncate_file c (some i) params memc w = .ok ⟨0, w', memc'⟩ ∧
      w'.errno = w.errno ∧ Kept c live i w.file w'.file ∧ Audited c live reserved w'.file ∧
      (Stored c live i M (resize 0 bytes new_size) w'.file ↔
        ¬ Uncovered c i bytes.length new_size w.file) ∧
      (Size_In_Blocks c bytes.length ≤ Size_In_Blocks c new_size → Clean c w.file →
        Clean c w'.file) ∧
      Recached c i (Size_In_Blocks c bytes.length) (Size_In_Blocks c new_size) params.path w.file
        w'.file memc memc' := by
  have hlen := hs.uint32_size
  have henough := hs.enough
  have hchanged : ∃ w' memc', change_blocks c i (Size_In_Blocks c bytes.length)
        (Size_In_Blocks c new_size) params.path memc w = .ok (0, w', memc') ∧
      w'.errno = w.errno ∧ Reblocked c live reserved i N M bytes w.file w'.file ∧
      (Size_In_Blocks c bytes.length ≤ Size_In_Blocks c new_size → Clean c w.file →
        Clean c w'.file) ∧
      Recached c i (Size_In_Blocks c bytes.length) (Size_In_Blocks c new_size) params.path w.file
        w'.file memc memc' := by
    rcases lt_trichotomy (Size_In_Blocks c bytes.length) (Size_In_Blocks c new_size) with
      hmore | hsame | hless
    · have hcap : (Size_In_Blocks c new_size - Size_In_Blocks c bytes.length) * c.BLOCK_SIZE <
          2 ^ 32 := by
        have hone : Size_In_Blocks c new_size ≤ new_size / c.BLOCK_SIZE + 1 := by
          unfold Size_In_Blocks
          split_ifs <;> omega
        have hmul := Nat.mul_le_mul_right c.BLOCK_SIZE
          ((Nat.sub_le _ (Size_In_Blocks c bytes.length)).trans hone)
        have hfloor := Nat.div_mul_le_self new_size c.BLOCK_SIZE
        have hblock : c.BLOCK_SIZE ≤ 4096 := by
          rcases hsize with h | h | h <;> rw [h] <;> decide
        rw [Nat.succ_mul] at hmul
        omega
      obtain ⟨w', hchange, herr, hblocks, hclean, hcache⟩ := change_blocks_grow hsize hacc
        hs rfl params.path memc hmore hcap hroom
      rw [hM, show N + Size_In_Blocks c new_size - Size_In_Blocks c bytes.length =
        N + (Size_In_Blocks c new_size - Size_In_Blocks c bytes.length) by omega]
      exact ⟨w', memc, hchange, herr, hblocks, fun _ _ => hclean, hcache⟩
    · obtain ⟨hchange, hblocks, hcache⟩ := change_blocks_same hacc hs rfl params.path memc
        hsame
      have hkept : M = N := by omega
      exact ⟨w, memc, hchange, rfl, hkept.symm ▸ hblocks, fun _ => id, hcache⟩
    · obtain ⟨w', memc', hchange, herr, hblocks, hcache⟩ := change_blocks_shrink hsize hacc hs
        rfl params.path memc hless (hshrink hless)
      rw [hM, hshrink hless, Nat.add_sub_cancel_left]
      rw [hshrink hless] at hblocks
      exact ⟨w', memc', hchange, herr, hblocks, fun hle => absurd hless
        (Nat.not_lt.mpr hle), hcache⟩
  obtain ⟨w', memc', hchange, herr, hblocks, hclean, hcache⟩ := hchanged
  have hstored := hblocks.stored_iff (Size_In_Blocks c new_size / 512) hs hlt (by omega) (by omega)
  refine ⟨{ w' with file := set_counts w'.file i new_size (Size_In_Blocks c new_size / 512) }, memc',
    ?_, herr, hblocks.others.trans set_counts_others, set_counts_audited hblocks.audited, hstored,
    fun hle hw b hb hfree => hclean hle hw b hb hfree, ?_⟩
  · rw [truncate_file, if_neg hs.mode]
    simp only [← hnew, hlen, hchange]
    rw [if_neg (by omega), int32_of_lt (by omega) (by omega)]
  · refine ⟨?_, hcache.foreign⟩
    intro m data hm hhit
    rw [set_counts_block_at]
    exact hcache.own m data hm hhit

/-- What `truncate_file` does to a file, to the other files and to the blocks in use: the file is
cut or filled up with zeros exactly when no old bytes come back. -/
theorem truncate_file_exact (hsize : Ext2_size c) (hacc : Audited c live reserved w.file)
    (hs : Stored c live i N bytes w.file) (hnew : new_size = params.size.toNat % 2 ^ 32)
    (hlt : new_size < 2 ^ 31)
    (hroom : Room c N (Size_In_Blocks c new_size - Size_In_Blocks c bytes.length) w)
    (hshrink : Size_In_Blocks c new_size < Size_In_Blocks c bytes.length →
      N = Size_In_Blocks c bytes.length) :
    ∃ w' memc', truncate_file c (some i) params memc w = .ok ⟨0, w', memc'⟩ ∧
      (Stored c live i (N + Size_In_Blocks c new_size - Size_In_Blocks c bytes.length)
        (resize 0 bytes new_size) w'.file ↔ ¬ Uncovered c i bytes.length new_size w.file) ∧
      Audited c live reserved w'.file ∧
      ∀ j M others, j ≠ i → Stored c live j M others w.file → Stored c live j M others w'.file := by
  obtain ⟨w', memc', htruncate, -, hkept, hacc', hiff, -⟩ := truncate_file_updated params
    memc hsize hacc hs hnew hlt rfl hroom hshrink
  refine ⟨w', memc', htruncate, hiff, hacc', ?_⟩
  intro j M others hj hstored
  have hlevels := filled_lt_levels hstored.full.filled hsize hacc.owned hacc.pool hstored.held
  exact hkept.stored hsize.pointers hstored hj hlevels.le

/-- A file of two blocks cut in the middle of the first. -/
theorem half_block_left : ∃ w' memc', truncate_file (one_group 0 (by decide)) (some 5)
      ⟨[separator, 97], 512⟩ Cache.empty ⟨small_file, none⟩ = .ok ⟨0, w', memc'⟩ ∧
      (Stored (one_group 0 (by decide)) (fun j => j = 5) 5
        (2 + Size_In_Blocks (one_group 0 (by decide)) 512 - Size_In_Blocks (one_group 0 (by decide))
          (List.replicate 2048 (0 : UInt8)).length)
        (resize 0 (List.replicate 2048 0) 512) w'.file ↔ ¬ Uncovered (one_group 0 (by decide)) 5
          (List.replicate 2048 (0 : UInt8)).length 512 small_file) ∧
      Audited (one_group 0 (by decide)) (fun j => j = 5) (fun b => b = 1 ∨ b = 2) w'.file ∧
      ∀ j M others, j ≠ 5 → Stored (one_group 0 (by decide)) (fun j => j = 5) j M others small_file
        →
        Stored (one_group 0 (by decide)) (fun j => j = 5) j M others w'.file := by
  have hlen : (List.replicate 2048 (0 : UInt8)).length = 2048 := List.length_replicate
  refine truncate_file_exact (w := ⟨small_file, none⟩) (Or.inl rfl)
    small_file_audited small_file_stored rfl (by decide) ?_ ?_
  · rw [hlen]
    exact fun h => absurd rfl h
  · rw [hlen]
    exact fun _ => rfl

end LaLiga.Rfs
