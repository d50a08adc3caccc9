import LaLiga.Lib.Refinement
import LaLiga.Rfs.ReadFile

/-! `read_file` with blocks in the cache, against the same request with none. -/
namespace LaLiga.Rfs

open LaLiga.Lib

variable {c : Superblock_constants} {fs : Image} {path : Path} {file_data : List Nat}
  {memc memc' memc₀ : Block_cache} {n b q : Nat} {s t : Reading} {log log' : List Nat}

/-- What the cache has for the path are blocks of the file as they are. -/
def Backed (c : Superblock_constants) (fs : Image) (path : Path) (file_data : List Nat)
    (memc : Block_cache) : Prop :=
  ∀ n data, n < 2 ^ 32 → memc (generate_key path n) = some data →
    ∃ b, file_data[n]? = some b ∧ data = fs.block (slot c b)

/-- The cache `memc` comes from `memc₀` by the blocks that the log names. -/
def Refilled (c : Superblock_constants) (fs : Image) (path : Path) (file_data : List Nat)
    (memc₀ memc : Block_cache) (log : List Nat) : Prop :=
  ∀ key data, memc key = some data → memc₀ key = some data ∨
    ∃ n ∈ log, ∃ b, key = generate_key path n ∧ file_data[n]? = some b ∧ data = fs.block (slot c b)

theorem backed_empty : Backed c fs path file_data Cache.empty := by
  intro n data _ hhit
  cases hhit

theorem Backed.set (h : Backed c fs path file_data memc) (hn : n < 2 ^ 32)
    (hb : file_data[n]? = some b) :
    Backed c fs path file_data (memc.set (generate_key path n) (fs.block (slot c b))) := by
  intro m data hm hhit
  by_cases hkey : generate_key path m = generate_key path n
  · obtain rfl : m = n := generate_key_inj hm hn hkey
    rw [Cache.set_self] at hhit
    exact ⟨b, hb, (Option.some.inj hhit).symm⟩
  · rw [Cache.set_of_ne hkey] at hhit
    exact h m data hm hhit

theorem Refilled.refl : Refilled c fs path file_data memc memc log :=
  fun _ _ hhit => Or.inl hhit

theorem Refilled.mono (h : Refilled c fs path file_data memc₀ memc log)
    (hlog : ∀ n ∈ log, n ∈ log') : Refilled c fs path file_data memc₀ memc log' := by
  intro key data hhit
  rcases h key data hhit with hold | ⟨n, hn, hset⟩
  · exact Or.inl hold
  · exact Or.inr ⟨n, hlog n hn, hset⟩

theorem Refilled.set (h : Refilled c fs path file_data memc₀ memc log) (hn : n ∈ log)
    (hb : file_data[n]? = some b) :
    Refilled c fs path file_data memc₀
      (memc.set (generate_key path n) (fs.block (slot c b))) log := by
  intro key data hhit
  by_cases hkey : key = generate_key path n
  · rw [hkey, Cache.set_self] at hhit
    exact Or.inr ⟨n, hn, b, hkey, hb, (Option.some.inj hhit).symm⟩
  · rw [Cache.set_of_ne hkey] at hhit
    exact h key data hhit

/-- The same reading but for the cache, and each cache with blocks as they are. -/
structure Alike (c : Superblock_constants) (fs : Image) (path : Path) (file_data : List Nat)
    (memc₀ : Block_cache) (s t : Reading) : Prop where
  same : { s with memc := Cache.empty } = { t with memc := Cache.empty }
  backed : Backed c fs path file_data s.memc
  backed' : Backed c fs path file_data t.memc
  refilled : Refilled c fs path file_data memc₀ s.memc s.server_log
  number : s.block_number < 2 ^ 32

theorem Alike.bytes (h : Alike c fs path file_data memc₀ s t) : s.bytes_to_read = t.bytes_to_read :=
  (Reading.mk.inj h.same).2.2.1

/-- A block from the cache is the one in the image. -/
theorem lookup_matches (log : List Nat) (h : Backed c fs path file_data memc)
    (h' : Backed c fs path file_data memc')
    (hn : n < 2 ^ 32) (hlog : n ∈ log) (hrefilled : Refilled c fs path file_data memc₀ memc log) :
    Matches (fun r r' => r.1 = r'.1 ∧ Backed c fs path file_data r.2 ∧
        Backed c fs path file_data r'.2 ∧ Refilled c fs path file_data memc₀ r.2 log)
      (cache_fs_get_set c fs memc path n file_data)
      (cache_fs_get_set c fs memc' path n file_data) := by
  unfold cache_fs_get_set
  cases hhit : memc (generate_key path n) with
  | some data =>
    obtain ⟨b, hb, hdata⟩ := h n data hn hhit
    cases hhit' : memc' (generate_key path n) with
    | some data' =>
      obtain ⟨b', hb', hdata'⟩ := h' n data' hn hhit'
      obtain rfl := Option.some.inj (hb.symm.trans hb')
      exact .ok ⟨hdata.trans hdata'.symm, h, h', hrefilled⟩
    | none =>
      simp only [hb]
      exact .ok ⟨hdata, h, h'.set hn hb, hrefilled⟩
  | none =>
    cases hhit' : memc' (generate_key path n) with
    | some data' =>
      obtain ⟨b, hb, hdata'⟩ := h' n data' hn hhit'
      simp only [hb]
      exact .ok ⟨hdata'.symm, h.set hn hb, h', hrefilled.set hlog hb⟩
    | none =>
      cases hb : file_data[n]? with
      | none => exact .error _
      | some b => exact .ok ⟨rfl, h.set hn hb, h'.set hn hb, hrefilled.set hlog hb⟩

theorem copy_block_matches (h : Alike c fs path file_data memc₀ s t) :
    Matches (Alike c fs path file_data memc₀) (copy_block c fs path file_data b q s)
      (copy_block c fs path file_data b q t) := by
  obtain ⟨hsame, hs, ht, hrefilled, hn⟩ := h
  obtain ⟨read_data, read_so_far, bytes_to_read, block_number, memc, server_log⟩ := s
  obtain ⟨read_data', read_so_far', bytes_to_read', block_number', memc', server_log'⟩ := t
  obtain ⟨rfl, rfl, rfl, rfl, -, rfl⟩ := Reading.mk.inj hsame
  have hlookup := lookup_matches (server_log ++ [block_number]) hs ht hn (by simp)
    (hrefilled.mono fun n hn => List.mem_append_left _ hn)
  unfold copy_block
  rcases hlookup.cases with ⟨e, h1, h2⟩ | ⟨⟨data, m⟩, ⟨data', m'⟩, h1, h2, hdata, hm, hm', hset⟩
  · simp only [h1, h2]
    exact .error e
  · simp only at hdata
    subst hdata
    simp only [h1, h2]
    cases memcpy read_data read_so_far (fun i => data (b + i)) q with
    | none => exact .error _
    | some dst => exact .ok ⟨rfl, hm, hm', hset, Nat.mod_lt _ (by decide)⟩

theorem read_turn_matches (h : Alike c fs path file_data memc₀ s t) :
    Matches (Sum.LiftRel (Alike c fs path file_data memc₀) (Alike c fs path file_data memc₀))
      (read_turn c fs path file_data s) (read_turn c fs path file_data t) := by
  have hcopy := copy_block_matches (b := 0) (q := min s.bytes_to_read c.BLOCK_SIZE) h
  unfold read_turn
  rw [← h.bytes]
  by_cases hpos : s.bytes_to_read > 0
  · rw [if_pos hpos, if_pos hpos]
    rcases hcopy.cases with ⟨e, h1, h2⟩ | ⟨s', t', h1, h2, hnext⟩
    · rw [h1, h2]
      exact .error e
    · rw [h1, h2]
      exact .ok (.inl hnext)
  · rw [if_neg hpos, if_neg hpos]
    exact .ok (.inr h)

/-- A request reads the same, fails the same and logs the same with any blocks in the cache that
are as they are in the image. -/
theorem read_file_matches {file_inode : inode_t} (params : Read_params)
    (hdata : file_data =
      (Inode_Get_Data_Adressess c fs file_inode (uint32 file_inode.size)).getD [])
    (h : Backed c fs params.path file_data memc) (h' : Backed c fs params.path file_data memc') :
    Matches (fun r r' => { r with memc := Cache.empty } = { r' with memc := Cache.empty } ∧
        Refilled c fs params.path file_data memc r.memc r.server_log)
      (read_file c fs (some file_inode) params memc)
      (read_file c fs (some file_inode) params memc') := by
  have hfirst : ∀ read_data bytes_to_read,
      Alike c fs params.path file_data memc
        ⟨read_data, 0, bytes_to_read, params.offset.toNat / c.BLOCK_SIZE, memc, []⟩
        ⟨read_data, 0, bytes_to_read, params.offset.toNat / c.BLOCK_SIZE, memc', []⟩ := by
    intro read_data bytes_to_read
    exact ⟨rfl, h, h', .refl, (Nat.div_le_self ..).trans_lt params.offset.toNat_lt⟩
  by_cases hmode : file_inode.mode &&& EXT2_IFREG = 0
  · simp only [read_file, if_pos hmode]
    exact .ok ⟨rfl, .refl⟩
  · simp only [read_file, if_neg hmode, ← hdata]
    rcases (copy_block_matches (hfirst _ _)).cases with ⟨e, h1, h2⟩ | ⟨s, t, h1, h2, hst⟩
    · rw [h1, h2]
      exact .error e
    · rw [h1, h2]
      simp only [← hst.bytes]
      have hrest : Matches (Alike c fs params.path file_data memc)
          (if s.bytes_to_read > c.BLOCK_SIZE - params.offset.toNat % c.BLOCK_SIZE then
            loop .endless (read_turn c fs params.path file_data) (s.bytes_to_read + 1) s
          else .ok s)
          (if s.bytes_to_read > c.BLOCK_SIZE - params.offset.toNat % c.BLOCK_SIZE then
            loop .endless (read_turn c fs params.path file_data) (s.bytes_to_read + 1) t
          else .ok t) := by
        split_ifs
        · exact loop_matches (fun s t h => read_turn_matches h) _ hst
        · exact .ok hst
      rcases hrest.cases with ⟨e, h3, h4⟩ | ⟨s', t', h3, h4, hst'⟩
      · rw [h3, h4]
        exact .error e
      · rw [h3, h4]
        obtain ⟨hread_data, -, -, -, -, hlog⟩ := Reading.mk.inj hst'.same
        refine .ok ⟨?_, hst'.refilled⟩
        rw [hread_data, hlog]

end LaLiga.Rfs
