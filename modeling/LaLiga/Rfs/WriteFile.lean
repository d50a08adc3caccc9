import LaLiga.Rfs.Files

/-! `write_file`: the file gets the blocks that the request reaches to, and then its bytes, block
by block. -/
namespace LaLiga.Rfs

open LaLiga.Lib

variable (c : Superblock_constants)

/-- The buffer is as long as it is said to be. -/
structure Write_params where
  path : Path
  offset : UInt32
  bytes_to_write : UInt32
  write_buffer : List UInt8
  whole : write_buffer.length = bytes_to_write.toNat

/-- The bytes `src` copied to the block `b`, from its byte `k` on. -/
def memcpy_block (fs : Image) (b k : Nat) (src : List UInt8) : Image :=
  { fs with block := Function.update fs.block (slot c b) fun j =>
      if k ≤ j ∧ j < k + src.length then src.getD (j - k) 0 else fs.block (slot c b) j }

/-- `memset` of the last block behind the end of the file, when a request starts behind it. -/
def clear_tail (i offset : Nat) (fs : Image) : Except Crash Image :=
  let size := uint32 (fs.inode i).size
  let start := size % c.BLOCK_SIZE
  if offset > size ∧ start > 0 then
    let file_data := (Inode_Get_Data_Adressess c fs (fs.inode i) size).getD []
    match file_data[Size_In_Blocks c size - 1]? with
    | none => .error .bounds
    | some b => .ok (memcpy_block c fs b start (List.replicate (c.BLOCK_SIZE - start) 0))
  else .ok fs

/-- The variables of `write_file` from the first block on. -/
structure Writing where
  file : Image
  memc : Block_cache
  bytes_to_write : Nat
  bytes_written : Nat
  block_number : Nat

/-- One block: `bytes_to_copy` of the buffer copied to it, and the block put in the cache. -/
def write_block (path : Path) (write_buffer : List UInt8) (file_data : List Nat)
    (start_byte bytes_to_copy : Nat) (s : Writing) : Except Crash Writing :=
  match file_data[s.block_number]? with
  | none => .error .bounds
  | some b =>
    if s.bytes_written + bytes_to_copy ≤ write_buffer.length then
      let file := memcpy_block c s.file b start_byte
        ((write_buffer.drop s.bytes_written).take bytes_to_copy)
      .ok
        { file
          memc := s.memc.set (generate_key path s.block_number) (file.block (slot c b))
          bytes_to_write := s.bytes_to_write - bytes_to_copy
          bytes_written := s.bytes_written + bytes_to_copy
          block_number := (s.block_number + 1) % 2 ^ 32 }
    else .error .bounds

/-- A turn of the `for` over the blocks after the first; `false` is the return inside it. -/
def write_turn (path : Path) (write_buffer : List UInt8) (file_data : List Nat) (count : Nat)
    (s : Writing) : Except Crash (Writing ⊕ Writing × Bool) :=
  if s.bytes_to_write > 0 then
    if s.block_number > count then .ok (.inr (s, false))
    else
      match write_block c path write_buffer file_data 0 (min s.bytes_to_write c.BLOCK_SIZE) s with
      | .error e => .error e
      | .ok s' => .ok (.inl s')
  else .ok (.inr (s, true))

/-- The size and the count of sectors of a file that has been written up to `reached`. -/
def extend_size (fs : Image) (i reached : Nat) : Image :=
  let anInode := fs.inode i
  if reached > uint32 anInode.size then
    let size := int32 (anInode.size + uint32 (reached - anInode.size))
    set_inode fs i { anInode with
      size
      blocks := Size_In_Blocks c (uint32 size) * (c.BLOCK_SIZE / 512) % 2 ^ 32 }
  else fs

structure Write_result where
  data : Option Nat
  worker : Worker_state
  memc : Block_cache

/-- The blocks written, once they are there. -/
def write_blocks (i : Nat) (params : Write_params) (file_data : List Nat) (count : Nat)
    (memc : Block_cache) (w : Worker_state) : Except Crash Write_result :=
  let offset := params.offset.toNat
  let remaining_space := c.BLOCK_SIZE - offset % c.BLOCK_SIZE
  let start : Writing :=
    ⟨w.file, memc, params.bytes_to_write.toNat, 0, offset / c.BLOCK_SIZE⟩
  match write_block c params.path params.write_buffer file_data (offset % c.BLOCK_SIZE)
      (min params.bytes_to_write.toNat remaining_space) start with
  | .error e => .error e
  | .ok s =>
    let rest :=
      if s.bytes_to_write > s.bytes_written then
        loop .endless (write_turn c params.path params.write_buffer file_data count)
          (s.bytes_to_write + 1) s
      else .ok (s, true)
    match rest with
    | .error e => .error e
    | .ok (s, false) => .ok ⟨some s.bytes_written, { w with file := s.file }, s.memc⟩
    | .ok (s, true) => .ok ⟨some s.bytes_written,
        { w with file := extend_size c s.file i ((offset + s.bytes_written) % 2 ^ 32) }, s.memc⟩

/-- `file_inode` is the number of the inode that `inode_of_file` found. A `NULL` from
`Inode_Get_Data_Adressess` is a list without cells. -/
def write_file (file_inode : Option Nat) (params : Write_params) (memc : Block_cache)
    (w : Worker_state) : Except Crash Write_result :=
  match file_inode with
  | none => .ok ⟨none, w, memc⟩
  | some i =>
    if (w.file.inode i).mode &&& EXT2_IFREG = 0 then
      .ok ⟨none, { w with errno := some .EPERM }, memc⟩
    else
      let size := (w.file.inode i).size
      let reached : Nat := params.offset.toNat + params.bytes_to_write.toNat
      let count := Size_In_Blocks c (uint32 reached)
      let diff : Int := reached - size
      match clear_tail c i params.offset.toNat w.file with
      | .error e => .error e
      | .ok fs =>
        let attached :=
          if count > Size_In_Blocks c (uint32 size) then
            Attach_Blocks c i (Size_In_Blocks c (uint32 diff)) { w with file := fs }
          else .ok (0, { w with file := fs })
        match attached with
        | .error e => .error e
        | .ok (_, w) =>
          let file_data :=
            (Inode_Get_Data_Adressess c w.file (w.file.inode i) (uint32 (size + diff))).getD []
          if params.offset.toNat / c.BLOCK_SIZE > count then .ok ⟨some 0, w, memc⟩
          else
            match file_data[pred32 count]? with
            | none => .error .bounds
            | some 0 => .ok ⟨some 0, w, memc⟩
            | some _ => write_blocks c i params file_data count memc w

/-- The bytes that a request for `n` of them writes: when those left after the first block are no
more than those in it, they are forgotten. -/
def written (offset n : Nat) : Nat :=
  let remaining_space := c.BLOCK_SIZE - offset % c.BLOCK_SIZE
  if remaining_space < n ∧ n ≤ 2 * remaining_space then remaining_space else n

variable {c} {live reserved : Nat → Prop} {fs fs' : Image} {w w' : Worker_state}
  {i j k m n b M N offset start : Nat} {path : Path} {bytes src write_buffer : List UInt8}
  {file_data : List Nat} {memc memc' : Block_cache} {resolve : Path → Option Nat}

section Bytes

variable (hP : 1 < pointers_per_block c) (hown : Owned c live fs) (hpool : Pool c fs) (hi : live i)
  (hN : N ≤ level_start c 4) (hfull : Full c fs i N 0)
include hP hown hpool hi hN hfull

theorem slot_block_at (hm : m < N) : slot c (block_at c fs i m) = block_at c fs i m := by
  obtain ⟨hleaf, -⟩ := leaf_of_spec hP (hm.trans_le hN)
  have hne := (hfull.filled.block_at hP (hm.trans_le hN)).mpr hm
  exact hpool.slot (hown.block ⟨i, _, _⟩ ⟨hi, hleaf.valid⟩ hne)

theorem rewritten_memcpy (start : Nat) (src : List UInt8) (hm : m < N) :
    Rewritten c i N fs (memcpy_block c fs (block_at c fs i m) start src) := by
  refine ⟨rfl, ?_⟩
  intro b hb
  have hslot := slot_block_at hP hown hpool hi hN hfull hm
  exact Function.update_of_ne (by rw [hslot]; exact hb m hm) ..

/-- What a copy to a block is to the bytes of the file. -/
theorem byte_at_memcpy (hm : m < N) (hfits : start + src.length ≤ c.BLOCK_SIZE)
    (hk : k / c.BLOCK_SIZE < N) :
    byte_at c (memcpy_block c fs (block_at c fs i m) start src) i k =
      if m * c.BLOCK_SIZE + start ≤ k ∧ k < m * c.BLOCK_SIZE + start + src.length then
        src.getD (k - (m * c.BLOCK_SIZE + start)) 0
      else byte_at c fs i k := by
  have hslot := slot_block_at hP hown hpool hi hN hfull hm
  have hrewritten := rewritten_memcpy hP hown hpool hi hN hfull start src hm
  have hsame := hrewritten.block_at hP hown hpool hi hN (hk.trans_le hN)
  have hdiv := Nat.div_add_mod' k c.BLOCK_SIZE
  have hmod := Nat.mod_lt k c.size_pos
  rw [byte_at, hsame]
  simp only [memcpy_block, hslot]
  by_cases heq : k / c.BLOCK_SIZE = m
  · rw [heq, Function.update_self, byte_at, heq]
    rw [heq] at hdiv
    by_cases hin : start ≤ k % c.BLOCK_SIZE ∧ k % c.BLOCK_SIZE < start + src.length
    · rw [if_pos hin, if_pos (by omega), show k % c.BLOCK_SIZE - start =
        k - (m * c.BLOCK_SIZE + start) by omega]
    · rw [if_neg hin, if_neg (by omega)]
  · have hne : block_at c fs i (k / c.BLOCK_SIZE) ≠ block_at c fs i m := by
      intro h
      have hset := (hfull.filled.block_at hP (hk.trans_le hN)).mpr hk
      exact heq (hown.block_at_inj hP hi (hk.trans_le hN) (hm.trans_le hN) hset h)
    rw [Function.update_of_ne hne, if_neg, byte_at]
    rintro ⟨hlo, hhi⟩
    apply heq
    apply Nat.div_eq_of_lt_le
    · omega
    · rw [Nat.succ_mul]
      omega

omit hown hpool hi in
/-- The array of the block numbers. -/
theorem Full.address {file_size : Nat} (hM : Size_In_Blocks c file_size = M) (hle : M ≤ N)
    (hk : k < M) :
    ((Inode_Get_Data_Adressess c fs (fs.inode i) file_size).getD [])[k]? =
      some (block_at c fs i k) := by
  have hmax : max (Size_In_Blocks c file_size) 1 = M := by omega
  obtain ⟨hleaf, hindex⟩ := leaf_of_spec hP ((hk.trans_le hle).trans_le hN)
  have hne := (hfull.filled.block_at hP ((hk.trans_le hle).trans_le hN)).mpr (hk.trans_le hle)
  have hpointer := data_pointer_leaf hP hleaf hne
  rw [hindex] at hpointer
  rw [Inode_Get_Data_Adressess_eq _ _ (hmax.trans_le (hle.trans hN)), hmax, Option.getD_some,
    List.getElem?_append_left (by simpa using hk), List.getElem?_map, List.getElem?_range hk,
    Option.map_some, hpointer]
  rfl

end Bytes

/-- What has been written of `total` bytes from `offset` on. The cache has the blocks as they are
now, unless they are as they were. -/
structure Written_so_far (c : Superblock_constants) (i N : Nat) (fs : Image) (path : Path)
    (offset : Nat) (write_buffer : List UInt8) (memc : Block_cache) (s : Writing) : Prop where
  sum : s.bytes_written + s.bytes_to_write = write_buffer.length
  rewritten : Rewritten c i N fs s.file
  bytes : ∀ k, k / c.BLOCK_SIZE < N → byte_at c s.file i k =
    if offset ≤ k ∧ k < offset + s.bytes_written then write_buffer.getD (k - offset) 0
    else byte_at c fs i k
  cached : ∀ m < N, m * c.BLOCK_SIZE < offset + s.bytes_written ∧
      s.memc (generate_key path m) = some (s.file.block (block_at c fs i m)) ∨
    s.memc (generate_key path m) = memc (generate_key path m) ∧
      s.file.block (block_at c fs i m) = fs.block (block_at c fs i m)
  foreign : ∀ key, (∀ m < N, key ≠ generate_key path m) → s.memc key = memc key

theorem Written_so_far.nothing {n b : Nat} (hn : write_buffer.length = n) :
    Written_so_far c i N fs path offset write_buffer memc ⟨fs, memc, n, 0, b⟩ := by
  refine ⟨by simp [hn], .refl fs, ?_, fun m _ => Or.inr ⟨rfl, rfl⟩, fun _ _ => rfl⟩
  intro k _
  rw [if_neg (by simp only; omega)]

section Turns

variable (hP : 1 < pointers_per_block c) (hown : Owned c live fs) (hpool : Pool c fs) (hi : live i)
  (hN : N ≤ level_start c 4) (hfull : Full c fs i N 0) (hMN : M ≤ N) (hsize : N < 2 ^ 32)
  (haddress : ∀ k < M, file_data[k]? = some (block_at c fs i k))
include hP hown hpool hi hN hfull hMN hsize haddress

/-- What is copied to one block is the part of the buffer that belongs there. -/
theorem write_block_eq {q b : Nat} {s : Writing}
    (hs : Written_so_far c i N fs path offset write_buffer memc s) (hpos : 0 < q)
    (hq : q ≤ s.bytes_to_write) (hb : b + q ≤ c.BLOCK_SIZE) (hk : s.block_number < M)
    (hat : s.block_number * c.BLOCK_SIZE + b = offset + s.bytes_written) :
    ∃ s', write_block c path write_buffer file_data b q s = .ok s' ∧
      Written_so_far c i N fs path offset write_buffer memc s' ∧
      s'.bytes_to_write = s.bytes_to_write - q ∧ s'.bytes_written = s.bytes_written + q ∧
      s'.block_number = s.block_number + 1 := by
  have hsum := hs.sum
  have hkN := hk.trans_le hMN
  have hrewritten := hs.rewritten
  have hown' := hrewritten.owned hP hown hpool hi hN
  have hpool' := hrewritten.pool hpool
  have hfull' := hrewritten.full hP hown hpool hi hN hfull
  have hsame := hrewritten.block_at hP hown hpool hi hN (hkN.trans_le hN)
  have hslot := slot_block_at hP hown hpool hi hN hfull hkN
  have hlen : ((write_buffer.drop s.bytes_written).take q).length = q := by
    rw [List.length_take, List.length_drop]
    omega
  have hone := rewritten_memcpy hP hown' hpool' hi hN hfull' b
    ((write_buffer.drop s.bytes_written).take q) hkN
  let file := memcpy_block c s.file (block_at c fs i s.block_number) b
    ((write_buffer.drop s.bytes_written).take q)
  refine ⟨⟨file, s.memc.set (generate_key path s.block_number)
      (file.block (slot c (block_at c fs i s.block_number))), s.bytes_to_write - q,
    s.bytes_written + q, (s.block_number + 1) % 2 ^ 32⟩, ?_, ?_, rfl, rfl,
    Nat.mod_eq_of_lt (by omega)⟩
  · rw [write_block, haddress _ hk]
    simp only
    rw [if_pos (by omega)]
  constructor
  · simp only
    omega
  · simp only [file]
    rw [← hsame]
    exact hrewritten.trans hP hown hpool hi hN hone
  · intro k hin
    simp only [file]
    rw [← hsame, byte_at_memcpy hP hown' hpool' hi hN hfull' hkN (by omega) hin, hlen,
      hs.bytes k hin, hat]
    by_cases hnew : offset + s.bytes_written ≤ k ∧ k < offset + s.bytes_written + q
    · rw [if_pos hnew, if_pos (by omega), List.getD_eq_getElem?_getD, List.getD_eq_getElem?_getD,
        List.getElem?_take_of_lt (by omega), List.getElem?_drop,
        show s.bytes_written + (k - (offset + s.bytes_written)) = k - offset by omega]
    · rw [if_neg hnew]
      by_cases hold : offset ≤ k ∧ k < offset + s.bytes_written
      · rw [if_pos hold, if_pos (by omega)]
      · rw [if_neg hold, if_neg (by omega)]
  · intro m hm
    simp only [file, hslot]
    by_cases hmk : m = s.block_number
    · subst hmk
      exact Or.inl ⟨by omega, Cache.set_self⟩
    · have hkey : generate_key path m ≠ generate_key path s.block_number := fun heq =>
        hmk (generate_key_inj (by omega) (by omega) heq)
      have hne : block_at c fs i m ≠ block_at c fs i s.block_number := by
        intro heq
        have hset := (hfull.filled.block_at hP (hm.trans_le hN)).mpr hm
        exact hmk (hown.block_at_inj hP hi (hm.trans_le hN) (hkN.trans_le hN) hset heq)
      have hblock : (memcpy_block c s.file (block_at c fs i s.block_number) b
          ((write_buffer.drop s.bytes_written).take q)).block (block_at c fs i m) =
          s.file.block (block_at c fs i m) :=
        Function.update_of_ne (by rw [hslot]; exact hne) ..
      rw [Cache.set_of_ne hkey, hblock]
      exact (hs.cached m hm).imp_left fun h => ⟨by omega, h.2⟩
  · intro key hforeign
    exact (Cache.set_of_ne (hforeign _ hkN)).trans (hs.foreign key hforeign)

/-- The `for` copies all that is left. -/
theorem write_turns {turns : Nat} {s : Writing}
    (hs : Written_so_far c i N fs path offset write_buffer memc s)
    (hat : s.bytes_to_write > 0 → s.block_number * c.BLOCK_SIZE = offset + s.bytes_written)
    (hend : ∀ k, k * c.BLOCK_SIZE < offset + write_buffer.length → k < M)
    (hturns : s.bytes_to_write < turns) :
    ∃ s', loop .endless (write_turn c path write_buffer file_data M) turns s = .ok (s', true) ∧
      Written_so_far c i N fs path offset write_buffer memc s' ∧ s'.bytes_to_write = 0 := by
  have hstep : ∀ s, Written_so_far c i N fs path offset write_buffer memc s →
      s.bytes_to_write > 0 → s.block_number * c.BLOCK_SIZE = offset + s.bytes_written →
      ∃ s', write_turn c path write_buffer file_data M s = .ok (.inl s') ∧
        Written_so_far c i N fs path offset write_buffer memc s' ∧
        s'.bytes_to_write = s.bytes_to_write - min s.bytes_to_write c.BLOCK_SIZE ∧
        s'.block_number = s.block_number + 1 := by
    intro s hs hpos hat
    have hsum := hs.sum
    have hk : s.block_number < M := hend _ (by omega)
    obtain ⟨s', hcopy, hs', hleft, -, hnext⟩ := write_block_eq (b := 0)
      (q := min s.bytes_to_write c.BLOCK_SIZE) hP hown hpool hi hN hfull hMN hsize haddress hs
      (by have := c.size_pos; omega) (by omega) (by omega) hk (by omega)
    refine ⟨s', ?_, hs', hleft, hnext⟩
    rw [write_turn, if_pos hpos, if_neg (by omega), hcopy]
  refine loop_rule
    (I := fun s => Written_so_far c i N fs path offset write_buffer memc s ∧
      (s.bytes_to_write > 0 → s.block_number * c.BLOCK_SIZE = offset + s.bytes_written))
    (R := fun r => ∃ s', r = .ok (s', true) ∧
      Written_so_far c i N fs path offset write_buffer memc s' ∧ s'.bytes_to_write = 0)
    Writing.bytes_to_write ?_ ?_ ?_ turns s ⟨hs, hat⟩ hturns
  · rintro s e ⟨hs, hat⟩ hbody
    by_cases hpos : s.bytes_to_write > 0
    · obtain ⟨s', hok, -⟩ := hstep s hs hpos (hat hpos)
      rw [hok] at hbody
      cases hbody
    · rw [write_turn, if_neg hpos] at hbody
      cases hbody
  · rintro s t ⟨hs, hat⟩ hbody
    by_cases hpos : s.bytes_to_write > 0
    · obtain ⟨s', hok, hs', hleft, hnext⟩ := hstep s hs hpos (hat hpos)
      obtain rfl : s' = t := by
        rw [hok] at hbody
        exact Sum.inl.inj (Except.ok.inj hbody)
      have hsize := c.size_pos
      have hsum := hs.sum
      have hsum' := hs'.sum
      have hpos' := hat hpos
      refine ⟨⟨hs', ?_⟩, by omega⟩
      intro hmore
      rw [hnext, Nat.add_mul, Nat.one_mul]
      omega
    · rw [write_turn, if_neg hpos] at hbody
      cases hbody
  · rintro s a ⟨hs, hat⟩ hbody
    by_cases hpos : s.bytes_to_write > 0
    · obtain ⟨s', hok, -⟩ := hstep s hs hpos (hat hpos)
      rw [hok] at hbody
      cases hbody
    · rw [write_turn, if_neg hpos] at hbody
      obtain rfl := Sum.inr.inj (Except.ok.inj hbody)
      exact ⟨s, rfl, hs, by omega⟩

end Turns

section Tail

variable (hsize : Ext2_size c) (hown : Owned c live fs) (hpool : Pool c fs)
  (hs : Stored c live i N bytes fs) (hN : N ≤ level_start c 4)
include hsize hown hpool hs hN

/-- The tail behind the end is cleared when the request leaves a gap, and nothing else done. -/
theorem clear_tail_eq (offset : Nat) : ∃ fs', clear_tail c i offset fs = .ok fs' ∧ Rewritten c i N
    fs fs' ∧
    Stored c live i N bytes fs' ∧ (bytes.length < offset → Trimmed c i bytes.length fs') ∧
    (Trimmed c i bytes.length fs ∨ offset ≤ bytes.length → fs' = fs) := by
  have hP := hsize.pointers
  have hlen := hs.uint32_size
  have hdiv := Nat.div_add_mod' bytes.length c.BLOCK_SIZE
  have hmod := Nat.mod_lt bytes.length c.size_pos
  simp only [clear_tail, hlen]
  by_cases hgap : offset > bytes.length ∧ bytes.length % c.BLOCK_SIZE > 0
  · rw [if_pos hgap]
    have hcount : Size_In_Blocks c bytes.length = bytes.length / c.BLOCK_SIZE + 1 := by
      rw [Size_In_Blocks, if_pos (by omega)]
    have hm : bytes.length / c.BLOCK_SIZE < N := by
      have := hs.enough
      omega
    have hat := hs.full.address hP hN rfl hs.enough (k := bytes.length / c.BLOCK_SIZE)
      (by rw [hcount]; exact Nat.lt_succ_self _)
    rw [hcount, Nat.add_sub_cancel, hat]
    simp only
    let zeros : List UInt8 :=
      List.replicate (c.BLOCK_SIZE - bytes.length % c.BLOCK_SIZE) 0
    let b := block_at c fs i (bytes.length / c.BLOCK_SIZE)
    have hzeros : zeros.length = c.BLOCK_SIZE - bytes.length % c.BLOCK_SIZE := List.length_replicate
    have hzero : ∀ j, zeros.getD j 0 = 0 := fun j => by
      rw [List.getD_eq_getElem?_getD, List.getElem?_getD_replicate_default_eq]
    have hlast : bytes.length + (c.BLOCK_SIZE - bytes.length % c.BLOCK_SIZE) =
        Size_In_Blocks c bytes.length * c.BLOCK_SIZE := by
      rw [hcount, Nat.succ_mul]
      omega
    have hbyte : ∀ k, k / c.BLOCK_SIZE < N →
        byte_at c (memcpy_block c fs b (bytes.length % c.BLOCK_SIZE) zeros) i k =
          if bytes.length ≤ k ∧ k < Size_In_Blocks c bytes.length * c.BLOCK_SIZE then 0
          else byte_at c fs i k := by
      intro k hk
      rw [byte_at_memcpy hP hown hpool hs.held hN hs.full hm (by omega) hk, hzeros, hdiv, hlast,
        hzero]
    have hrewritten : Rewritten c i N fs
        (memcpy_block c fs b (bytes.length % c.BLOCK_SIZE) zeros) :=
      rewritten_memcpy hP hown hpool hs.held hN hs.full _ _ hm
    refine ⟨_, rfl, hrewritten, ?_, ?_, ?_⟩
    · refine hs.congr rfl rfl (hrewritten.full hP hown hpool hs.held hN hs.full) ?_
      intro k hk hpart
      rw [hbyte k hk, if_neg]
      rintro ⟨hlo, hhi⟩
      have := (Nat.le_div_iff_mul_le c.size_pos).mp (hpart.resolve_left (by omega))
      omega
    · intro _ k hlo hhi
      rw [hbyte k (hhi.trans_le hs.enough), if_pos ⟨hlo, (Nat.div_lt_iff_lt_mul c.size_pos).mp hhi⟩]
    · intro hcond
      have htrim := hcond.resolve_right (by omega)
      have hslot := slot_block_at hP hown hpool hs.held hN hs.full hm
      have hsame : (fun j => if bytes.length % c.BLOCK_SIZE ≤ j ∧
          j < bytes.length % c.BLOCK_SIZE + zeros.length then
          zeros.getD (j - bytes.length % c.BLOCK_SIZE) 0 else fs.block b j) = fs.block b := by
        funext j
        by_cases hj : bytes.length % c.BLOCK_SIZE ≤ j ∧
            j < bytes.length % c.BLOCK_SIZE + zeros.length
        · have hjB : j < c.BLOCK_SIZE := by omega
          rw [if_pos hj, hzero]
          have hk := htrim (bytes.length / c.BLOCK_SIZE * c.BLOCK_SIZE + j) (by omega) (by
            rw [Nat.div_lt_iff_lt_mul c.size_pos]
            omega)
          have hblock : (bytes.length / c.BLOCK_SIZE * c.BLOCK_SIZE + j) / c.BLOCK_SIZE =
              bytes.length / c.BLOCK_SIZE := by
            rw [Nat.mul_comm, Nat.mul_add_div c.size_pos, Nat.div_eq_of_lt hjB, Nat.add_zero]
          rw [byte_at, hblock, Nat.mul_comm, Nat.mul_add_mod, Nat.mod_eq_of_lt hjB] at hk
          exact hk.symm
        · rw [if_neg hj]
      rw [memcpy_block, hslot, hsame, Function.update_eq_self]
  · rw [if_neg hgap]
    refine ⟨fs, rfl, .refl fs, hs, ?_, fun _ => rfl⟩
    intro hlt k hlo hhi
    rw [lt_Size_In_Blocks_iff] at hhi
    have hfloor : bytes.length / c.BLOCK_SIZE ≤ k / c.BLOCK_SIZE := Nat.div_le_div_right hlo
    have := Nat.mul_le_mul_right c.BLOCK_SIZE hfloor
    have := Nat.div_mul_le_self k c.BLOCK_SIZE
    omega

end Tail

/-- Blocks are given to a file as they are wanted. -/
def Room (c : Superblock_constants) (N n : Nat) (w : Worker_state) : Prop :=
  n ≠ 0 → Clean c w.file ∧ w.errno ≠ some .ENOSPC ∧ needed c N n ≤ w.file.TOTAL_UNALLOCATED_BLOCKS

/-- The blocks that `write_file` asks for. -/
def asked (c : Superblock_constants) (size reached : Nat) : Nat :=
  if Size_In_Blocks c reached > Size_In_Blocks c size then Size_In_Blocks c (reached - size) else 0

theorem le_add_asked {size : Nat} (reached : Nat) (hN : Size_In_Blocks c size ≤ N) :
    Size_In_Blocks c reached ≤ N + asked c size reached := by
  unfold asked
  split_ifs with hmore
  · have hadd := Size_In_Blocks_add (c := c) size (reached - size)
    have hle := Size_In_Blocks_mono (c := c) (show reached ≤ size + (reached - size) by omega)
    omega
  · omega

section Giving

variable (hsize : Ext2_size c) (hown : Owned c live w.file) (hpool : Pool c w.file)
  (hs : Stored c live i N bytes w.file)
include hsize hown hpool hs

theorem Stored.lt_levels (hn : n * c.BLOCK_SIZE < 2 ^ 32) : N + n ≤ level_start c 4 := by
  have hlt := filled_lt_levels hs.full.filled hsize hown hpool hs.held
  have hN := hs.full.filled.mapped hsize hown hpool hs.held le_rfl hlt.le
  have hlevels : 2 ^ 33 ≤ level_start c 4 * c.BLOCK_SIZE := by
    unfold level_start level_start level_start level_start pointers_per_block
    rcases hsize with h | h | h <;> rw [h] <;> decide
  refine Nat.le_of_mul_le_mul_right ?_ c.size_pos
  rw [Nat.add_mul]
  omega

/-- The blocks that are wanted come, and are clean. -/
theorem Attach_Blocks_stored (hroom : Room c N n w) (hn : 0 < n)
    (hcap : n * c.BLOCK_SIZE < 2 ^ 32) :
    ∃ w' D, Attach_Blocks c i n w = .ok (0, w') ∧ w'.errno = w.errno ∧
      Grew c live i w.file D w'.file ∧ Stored c live i (N + n) bytes w'.file := by
  have hP := hsize.pointers
  have hlevels := hs.lt_levels hsize hown hpool hcap
  obtain ⟨hclean, herr, hfree⟩ := hroom hn.ne'
  obtain ⟨w', hattach, hsame, ⟨D, hgrew⟩, hprepared⟩ :=
    Attach_Blocks_attached hsize ⟨hown, hpool, hs.full⟩ hs.held hclean herr hn hlevels hfree
  exact ⟨w', D, hattach, hsame, hgrew,
    hgrew.stored hP hown hclean hs hprepared.full (Nat.le_add_right ..) hlevels⟩

end Giving

section Writing

variable {params : Write_params}

theorem written_le {offset n : Nat} : written c offset n ≤ n := by
  simp only [written]
  split_ifs with h <;> omega

theorem written_pos {offset n : Nat} (hn : 0 < n) : 0 < written c offset n := by
  have := Nat.mod_lt offset c.size_pos
  simp only [written]
  split_ifs with h <;> omega

/-- The blocks, once they are there, get the bytes of the buffer. -/
theorem write_blocks_eq (memc : Block_cache) (hP : 1 < pointers_per_block c)
    (hown : Owned c live w.file)
    (hpool : Pool c w.file) (hi : live i) (hN : N ≤ level_start c 4)
    (hfull : Full c w.file i N 0) (hMN : M ≤ N) (hsize : N < 2 ^ 32)
    (haddress : ∀ k < M, file_data[k]? = some (block_at c w.file i k))
    (hpos : 0 < params.bytes_to_write.toNat)
    (hM : M = Size_In_Blocks c (params.offset.toNat + params.bytes_to_write.toNat))
    (hreach : params.offset.toNat + params.bytes_to_write.toNat < 2 ^ 31) :
    ∃ s, write_blocks c i params file_data M memc w =
        .ok ⟨some s.bytes_written, { w with
          file := extend_size c s.file i (params.offset.toNat + s.bytes_written) }, s.memc⟩ ∧
      Written_so_far c i N w.file params.path params.offset.toNat params.write_buffer memc s ∧
      s.bytes_written = written c params.offset.toNat params.bytes_to_write.toNat := by
  have hinside := Nat.mod_lt params.offset.toNat c.size_pos
  have hdiv := Nat.div_add_mod' params.offset.toNat c.BLOCK_SIZE
  have hwhole := params.whole
  have hend : ∀ k, k * c.BLOCK_SIZE < params.offset.toNat + params.write_buffer.length → k < M := by
    intro k hk
    rw [hM]
    exact lt_Size_In_Blocks (by omega)
  have hinit : Written_so_far c i N w.file params.path params.offset.toNat params.write_buffer memc
      ⟨w.file, memc, params.bytes_to_write.toNat, 0, params.offset.toNat / c.BLOCK_SIZE⟩ :=
    Written_so_far.nothing hwhole
  obtain ⟨s, hfirst, hs, hleft, hdone, hnext⟩ := write_block_eq
    (b := params.offset.toNat % c.BLOCK_SIZE) (q := min params.bytes_to_write.toNat
      (c.BLOCK_SIZE - params.offset.toNat % c.BLOCK_SIZE)) hP hown hpool hi hN hfull hMN hsize
    haddress hinit (by omega) (Nat.min_le_left _ _) (by omega) (hend _ (by simp only; omega)) hdiv
  simp only at hleft hdone hnext
  have hsum := hs.sum
  by_cases hmore : s.bytes_to_write > s.bytes_written
  · have hat : s.bytes_to_write > 0 →
        s.block_number * c.BLOCK_SIZE = params.offset.toNat + s.bytes_written := by
      intro _
      rw [hnext, Nat.add_mul, Nat.one_mul]
      omega
    obtain ⟨s', hloop, hs', hzero⟩ := write_turns hP hown hpool hi hN hfull hMN hsize haddress hs
      hat
      hend (Nat.lt_succ_self _)
    have hsum' := hs'.sum
    refine ⟨s', ?_, hs', ?_⟩
    · simp only [write_blocks, hfirst, if_pos hmore, hloop]
      rw [Nat.mod_eq_of_lt (by omega)]
    · simp only [written]
      rw [if_neg (by omega)]
      omega
  · refine ⟨s, ?_, hs, ?_⟩
    · simp only [write_blocks, hfirst, if_neg hmore]
      rw [Nat.mod_eq_of_lt (by omega)]
    · simp only [written]
      split_ifs <;> omega

/-- The size reaches to the end of what has been written. -/
theorem extend_size_eq {size : Nat} (reached : Nat) (hsame : (fs.inode i).size = size)
    (hlt : size < 2 ^ 31) (hreach : reached < 2 ^ 31) :
    ∃ blocks, extend_size c fs i reached = set_counts fs i (max size reached : Nat) blocks := by
  have hold : uint32 (fs.inode i).size = size := by
    rw [hsame]
    exact uint32_of_lt (hlt.trans (by decide))
  simp only [extend_size, hold]
  split_ifs with hmore
  · have hdiff : uint32 ((reached : Int) - size) = reached - size := by
      rw [← Nat.cast_sub (by omega)]
      exact uint32_of_lt (by omega)
    rw [hsame, hdiff, int32_of_lt (by omega) (by omega),
      show (size : Int) + (reached - size : Nat) = (max size reached : Nat) by omega]
    exact ⟨_, rfl⟩
  · refine ⟨(fs.inode i).blocks, ?_⟩
    rw [show max size reached = size by omega, ← hsame]
    exact set_counts_eq_self.symm

/-- The bytes behind the end of a file are zeros wherever it has blocks for them. -/
theorem Stored.behind (h : Stored c live i N bytes fs) (htrim : Trimmed c i bytes.length fs)
    (hlo : bytes.length ≤ k) (hk : k / c.BLOCK_SIZE < N) : byte_at c fs i k = 0 := by
  by_cases htail : k / c.BLOCK_SIZE < Size_In_Blocks c bytes.length
  · exact htrim k hlo htail
  · exact h.spare k (Nat.not_lt.mp htail) hk

/-- The file once the bytes are written, and its size with them. -/
theorem Written_so_far.stored {size : Nat} {data : List UInt8} {s : Writing}
    (blocks : Nat) (h : Written_so_far c i N fs path offset write_buffer memc s)
    (hP : 1 < pointers_per_block c) (hown : Owned c live fs) (hpool : Pool c fs)
    (hs : Stored c live i N bytes fs) (hN : N ≤ level_start c 4)
    (htrim : bytes.length < offset → Trimmed c i bytes.length fs)
    (hdata : data = write_buffer.take s.bytes_written)
    (hreach : offset + s.bytes_written < 2 ^ 31)
    (henough : Size_In_Blocks c (offset + s.bytes_written) ≤ N)
    (hend : size = max bytes.length (offset + s.bytes_written)) :
    Stored c live i N (overwrite 0 bytes offset data) (set_counts s.file i size blocks) := by
  have hfits := hs.fits
  have hsum := h.sum
  have hlen : data.length = s.bytes_written := by
    rw [hdata, List.length_take]
    omega
  have hnew : (overwrite 0 bytes offset data).length = size := by
    rw [length_overwrite, hlen, hend]
  have hinode : s.file.inode = fs.inode := by rw [h.rewritten.image]
  have hsize : Size_In_Blocks c size ≤ N := by
    rw [hend]
    rcases max_choice bytes.length (offset + s.bytes_written) with hmax | hmax <;> rw [hmax]
    · exact hs.enough
    · exact henough
  have hblock : ∀ k < size, k / c.BLOCK_SIZE < N := fun k hk =>
    (lt_Size_In_Blocks ((Nat.div_mul_le_self k c.BLOCK_SIZE).trans_lt hk)).trans_le hsize
  constructor
  · exact hs.held
  · rw [set_counts_self, hinode]
    exact hs.mode
  · rw [set_counts_self, hnew]
  · rw [hnew]
    omega
  · exact set_counts_full (h.rewritten.full hP hown hpool hs.held hN hs.full)
  · rw [hnew]
    exact hsize
  · intro k hk
    rw [hnew] at hk
    rw [set_counts_byte_at, h.bytes k (hblock k hk), getElem?_overwrite, hlen]
    by_cases hbefore : k < offset
    · rw [if_pos hbefore, if_neg (show ¬ (offset ≤ k ∧ k < offset + s.bytes_written) by omega)]
      by_cases hin : k < bytes.length
      · rw [if_pos hin]
        exact hs.content k hin
      · rw [if_neg hin, hs.behind (htrim (by omega)) (by omega) (hblock k hk)]
    · rw [if_neg hbefore]
      by_cases hwritten : k < offset + s.bytes_written
      · rw [if_pos hwritten, if_pos (by omega), hdata, List.getElem?_take_of_lt (by omega),
          List.getD_eq_getElem?_getD, List.getElem?_eq_getElem (by omega), Option.getD_some]
      · rw [if_neg hwritten, if_neg fun hin => hwritten hin.2]
        exact hs.content k (by omega)
  · intro k hlo hhi
    rw [hnew] at hlo
    have hk : size ≤ k :=
      Size_In_Blocks_le_iff.mp hlo |>.trans (Nat.div_mul_le_self k c.BLOCK_SIZE)
    rw [set_counts_byte_at, h.bytes k hhi, if_neg (by omega)]
    exact hs.spare k ((Size_In_Blocks_mono (by omega)).trans hlo) hhi

/-- The file is given the blocks that `write_file` asks for. -/
theorem attached_stored {size : Nat} (reached : Nat) (hsize : Ext2_size c)
    (hown : Owned c live w.file)
    (hpool : Pool c w.file) (hs : Stored c live i N bytes w.file) (hlen : size = bytes.length)
    (hreach : reached < 2 ^ 31) (hroom : Room c N (asked c size reached) w) :
    ∃ w' D, (if Size_In_Blocks c reached > Size_In_Blocks c size then
          Attach_Blocks c i (Size_In_Blocks c (reached - size)) w else .ok (0, w)) = .ok (0, w') ∧
      w'.errno = w.errno ∧ Grew c live i w.file D w'.file ∧
      Stored c live i (N + asked c size reached) bytes w'.file := by
  have hfits := hs.fits
  by_cases hmore : Size_In_Blocks c reached > Size_In_Blocks c size
  · have hasked : asked c size reached = Size_In_Blocks c (reached - size) := if_pos hmore
    have hpos : 0 < Size_In_Blocks c (reached - size) := by
      have hadd := Size_In_Blocks_add (c := c) size (reached - size)
      have hle := Size_In_Blocks_mono (c := c) (show reached ≤ size + (reached - size) by omega)
      omega
    have hcap : Size_In_Blocks c (reached - size) * c.BLOCK_SIZE < 2 ^ 32 := by
      have hone : Size_In_Blocks c (reached - size) ≤ (reached - size) / c.BLOCK_SIZE + 1 := by
        unfold Size_In_Blocks
        split_ifs <;> omega
      have hmul := Nat.mul_le_mul_right c.BLOCK_SIZE hone
      have hfloor := Nat.div_mul_le_self (reached - size) c.BLOCK_SIZE
      have hblock : c.BLOCK_SIZE ≤ 4096 := by
        rcases hsize with h | h | h <;> rw [h] <;> decide
      rw [Nat.succ_mul] at hmul
      omega
    rw [if_pos hmore, hasked]
    rw [hasked] at hroom
    exact Attach_Blocks_stored hsize hown hpool hs hroom hpos hcap
  · have hasked : asked c size reached = 0 := if_neg hmore
    rw [if_neg hmore, hasked]
    exact ⟨w, [], rfl, rfl, .refl hown hpool, hs⟩

/-- A request within a file, behind its end or with a gap between: what is written is in the file
afterwards, zeros are in the gap, and nothing else has changed. -/
theorem write_file_updated {off n : Nat} (params : Write_params) (memc : Block_cache)
    (hsize : Ext2_size c)
    (hacc : Audited c live reserved w.file) (hs : Stored c live i N bytes w.file)
    (hoff : off = params.offset.toNat) (hn : n = params.bytes_to_write.toNat) (hpos : 0 < n)
    (hreach : off + n < 2 ^ 31) (hroom : Room c N (asked c bytes.length (off + n)) w) :
    ∃ w' memc', write_file c (some i) params memc w = .ok ⟨some (written c off n), w', memc'⟩ ∧
      w'.errno = w.errno ∧
      Updated c live reserved i (N + asked c bytes.length (off + n))
        (overwrite 0 bytes off (params.write_buffer.take (written c off n))) w.file w'.file ∧
      (Clean c w.file → Clean c w'.file) ∧
      (Trimmed c i bytes.length w.file →
        Trimmed c i (max bytes.length (off + written c off n)) w'.file) ∧
      (Trimmed c i bytes.length w.file ∨ off ≤ bytes.length →
        Recached c i (Size_In_Blocks c bytes.length)
          (Size_In_Blocks c (max bytes.length (off + written c off n))) params.path w.file w'.file
            memc
          memc') := by
  have hP := hsize.pointers
  have hown := hacc.owned
  have hpool := hacc.pool
  have hfits := hs.fits
  have hNlevels := (filled_lt_levels hs.full.filled hsize hown hpool hs.held).le
  have hlen : uint32 (bytes.length : Int) = bytes.length :=
    uint32_of_lt (hfits.trans (by decide))
  have hcount : uint32 ((off + n : Nat) : Int) = off + n := uint32_of_lt (by omega)
  have hle : written c off n ≤ n := written_le
  -- the tail behind the end
  obtain ⟨fs₁, hclear, hrew, hs₁, htrim₁, hsame₁⟩ :=
    clear_tail_eq hsize hown hpool hs hNlevels off
  have hacc₁ := hrew.audited hP hs.held hNlevels hacc
  have hroom₁ : Room c N (asked c bytes.length (off + n)) { w with file := fs₁ } := by
    intro hasked
    obtain ⟨hclean, herr, hfree⟩ := hroom hasked
    refine ⟨hrew.clean hP hown hs.held hNlevels hs.full hclean, herr, ?_⟩
    rw [hrew.image]
    exact hfree
  -- the blocks
  obtain ⟨w₂, D, hattach, herr₂, hgrew, hs₂⟩ := attached_stored (off + n)
    (w := { w with file := fs₁ }) hsize hacc₁.owned hacc₁.pool hs₁ rfl hreach hroom₁
  have hacc₂ := hgrew.audited hacc₁
  have hN₂ := filled_lt_levels hs₂.full.filled hsize hacc₂.owned hacc₂.pool hs.held
  have henough := le_add_asked (off + n) hs.enough
  have hlevels := hsize.levels
  have htrim₂ : Trimmed c i bytes.length fs₁ → Trimmed c i bytes.length w₂.file := by
    intro htrim k hlo hhi
    rw [hgrew.byte_at hP hacc₁.owned hs.held hs₁.full hNlevels (hhi.trans_le hs.enough)]
    exact htrim k hlo hhi
  -- the bytes
  have haddress : ∀ k < Size_In_Blocks c (off + n),
      ((Inode_Get_Data_Adressess c w₂.file (w₂.file.inode i) (off + n)).getD [])[k]? =
        some (block_at c w₂.file i k) := fun k hk =>
    hs₂.full.address hP hN₂.le rfl henough hk
  obtain ⟨s, hblocks, hs₃, hdone⟩ := write_blocks_eq memc hP hacc₂.owned hacc₂.pool
    hs.held hN₂.le hs₂.full henough (hN₂.trans hlevels) haddress (hn ▸ hpos) (by rw [hoff, hn])
    (by rw [← hoff, ← hn]; exact hreach)
  rw [← hoff, ← hn] at hdone
  rw [← hoff] at hs₃ hblocks
  have hinode : (s.file.inode i).size = bytes.length := by
    rw [hs₃.rewritten.image]
    exact hs₂.size
  obtain ⟨blocks, hextend⟩ := extend_size_eq (c := c) (off + s.bytes_written) hinode hfits
    (by omega)
  have hacc₃ := hs₃.rewritten.audited hP hs.held hN₂.le hacc₂
  have hgap : bytes.length < off → Trimmed c i bytes.length w₂.file := fun h => htrim₂ (htrim₁ h)
  have hstored := hs₃.stored blocks hP hacc₂.owned hacc₂.pool hs₂ hN₂.le hgap rfl
    (by omega) ((Size_In_Blocks_mono (by omega)).trans henough) rfl
  refine ⟨{ w₂ with file := extend_size c s.file i (off + s.bytes_written) }, s.memc, ?_, herr₂,
    ?_, ?_, ?_, ?_⟩
  · have hfirst : off / c.BLOCK_SIZE < Size_In_Blocks c (off + n) :=
      lt_Size_In_Blocks ((Nat.div_mul_le_self off c.BLOCK_SIZE).trans_lt (by omega))
    have hsome : 0 < Size_In_Blocks c (off + n) := Nat.zero_lt_of_lt hfirst
    have hlast := haddress (Size_In_Blocks c (off + n) - 1) (by omega)
    have hset := (hs₂.full.filled.block_at hP (m := Size_In_Blocks c (off + n) - 1) (by omega)).mpr
      (by omega)
    obtain ⟨b, hb⟩ := Nat.exists_eq_succ_of_ne_zero hset
    rw [hb] at hlast
    have hpred : pred32 (Size_In_Blocks c (off + n)) = Size_In_Blocks c (off + n) - 1 :=
      pred32_of_pos (by omega) (by omega)
    have hwhole : uint32 ((bytes.length : Int) + (((off + n : Nat) : Int) - bytes.length)) =
        off + n := by
      rw [show (bytes.length : Int) + (((off + n : Nat) : Int) - bytes.length) =
        ((off + n : Nat) : Int) by omega, hcount]
    have hgiven : (if Size_In_Blocks c (off + n) > Size_In_Blocks c bytes.length then
          Attach_Blocks c i (Size_In_Blocks c (uint32 (((off + n : Nat) : Int) - bytes.length)))
            { w with file := fs₁ }
        else .ok (0, { w with file := fs₁ })) = .ok (0, w₂) := by
      rw [← hattach]
      split_ifs with hmore
      · have hbeyond : bytes.length < off + n := by
          by_contra hnot
          exact absurd (Size_In_Blocks_mono (Nat.not_lt.mp hnot)) (Nat.not_le.mpr hmore)
        rw [← Nat.cast_sub hbeyond.le, uint32_of_lt (by omega)]
      · rfl
    rw [write_file, if_neg hs.mode]
    simp only [← hoff, ← hn, hclear, hs.size, hlen, hcount, hgiven, hwhole,
      if_neg (Nat.not_lt.mpr hfirst.le), hpred, hlast]
    rw [hblocks, hdone]
  · rw [hextend, ← hdone]
    refine ⟨hstored, ?_, set_counts_audited hacc₃⟩
    have h₁ := hrew.others hP hown hpool hs.held hNlevels
    have h₂ := hgrew.others hacc₁.owned
    have h₃ := hs₃.rewritten.others hP hacc₂.owned hacc₂.pool hs.held hN₂.le
    exact ((h₁.trans h₂).trans h₃).trans set_counts_others
  · intro hclean
    rw [hextend]
    have hclean₁ := hrew.clean hP hown hs.held hNlevels hs.full hclean
    have hclean₃ := hs₃.rewritten.clean hP hacc₂.owned hs.held hN₂.le hs₂.full (hgrew.clean hclean₁)
    exact fun b hb hfree => hclean₃ b hb hfree
  · intro htrim k hlo hhi
    obtain rfl := hsame₁ (Or.inl htrim)
    have hin : k / c.BLOCK_SIZE < N + asked c bytes.length (off + n) := by
      refine hhi.trans_le ?_
      rcases max_choice bytes.length (off + written c off n) with hmax | hmax <;> rw [hmax]
      · exact hs₂.enough
      · exact (Size_In_Blocks_mono (by omega)).trans henough
    rw [hextend, set_counts_byte_at, hs₃.bytes k hin, if_neg (by omega)]
    exact hs₂.behind (htrim₂ htrim) (by omega) hin
  · intro hcond
    obtain rfl := hsame₁ hcond
    rw [hextend]
    constructor
    · intro m data hm hhit
      by_cases hin : m < N + asked c bytes.length (off + n)
      · rw [set_counts_block_at, hs₃.rewritten.block_at hP hacc₂.owned hacc₂.pool hs.held hN₂.le hm]
        rcases hs₃.cached m hin with ⟨hwritten, hnew⟩ | ⟨hold, hsame⟩
        · refine Or.inl ⟨lt_Size_In_Blocks (by omega), ?_⟩
          exact Option.some.inj (hhit.symm.trans hnew)
        · refine Or.inr ⟨hold ▸ hhit, ?_⟩
          intro hlt
          obtain ⟨hat, hcontent⟩ := hgrew.block_at hP hown hs.held hm
            ((hs.full.filled.block_at hP hm).mpr (hlt.trans_le hs.enough))
          rw [hat] at hsame
          exact ⟨hlt.trans_le (Size_In_Blocks_mono (le_max_left _ _)), hat, hsame.trans hcontent⟩
      · refine Or.inr ⟨?_, ?_⟩
        · rw [← hs₃.foreign (generate_key params.path m)]
          · exact hhit
          · intro m' hm' heq
            obtain rfl : m = m' := generate_key_inj (by omega) (by omega) heq
            exact hin hm'
        · intro hlt
          have := hs.enough
          omega
    · intro key data hkey hhit
      rw [← hs₃.foreign key fun m hm => hkey m (by omega)]
      exact hhit

/-- What `write_file` does to a file, to the other files and to the blocks in use, for every
request that there are blocks for. -/
theorem write_file_exact {off n : Nat} (hsize : Ext2_size c)
    (hacc : Audited c live reserved w.file) (hs : Stored c live i N bytes w.file)
    (hoff : off = params.offset.toNat) (hn : n = params.bytes_to_write.toNat) (hpos : 0 < n)
    (hreach : off + n < 2 ^ 31) (hroom : Room c N (asked c bytes.length (off + n)) w) :
    ∃ w' memc', write_file c (some i) params memc w = .ok ⟨some (written c off n), w', memc'⟩ ∧
      Stored c live i (N + asked c bytes.length (off + n))
        (overwrite 0 bytes off (params.write_buffer.take (written c off n))) w'.file ∧
      Audited c live reserved w'.file ∧
      ∀ j M others, j ≠ i → Stored c live j M others w.file → Stored c live j M others w'.file := by
  obtain ⟨w', memc', hwrite, -, hupdated, -⟩ := write_file_updated params memc hsize hacc hs
    hoff hn hpos hreach hroom
  refine ⟨w', memc', hwrite, hupdated.stored, hupdated.audited, ?_⟩
  intro j M others hj hstored
  have hlevels := filled_lt_levels hstored.full.filled hsize hacc.owned hacc.pool hstored.held
  exact hupdated.others.stored hsize.pointers hstored hj hlevels.le

/-- Three bytes from the last one of a file of two blocks on, with a third block for them. -/
theorem three_bytes_written : ∃ w' memc', write_file (one_group 0 (by decide)) (some 5)
      ⟨[separator, 97], 2047, 3, [1, 2, 3], rfl⟩ Cache.empty ⟨small_file, none⟩ =
        .ok ⟨some (written (one_group 0 (by decide)) 2047 3), w', memc'⟩ ∧
      Stored (one_group 0 (by decide)) (fun j => j = 5) 5
        (2 + asked (one_group 0 (by decide)) (List.replicate 2048 (0 : UInt8)).length (2047 + 3))
        (overwrite 0 (List.replicate 2048 0) 2047
          ([1, 2, 3].take (written (one_group 0 (by decide)) 2047 3))) w'.file ∧
      Audited (one_group 0 (by decide)) (fun j => j = 5) (fun b => b = 1 ∨ b = 2) w'.file ∧
      ∀ j M others, j ≠ 5 → Stored (one_group 0 (by decide)) (fun j => j = 5) j M others small_file
        →
        Stored (one_group 0 (by decide)) (fun j => j = 5) j M others w'.file := by
  refine write_file_exact (w := ⟨small_file, none⟩) (Or.inl rfl)
    small_file_audited small_file_stored rfl rfl (by decide) (by decide) ?_
  rw [List.length_replicate]
  exact fun _ => ⟨small_file_clean, by decide, by decide⟩

end Writing

end LaLiga.Rfs
