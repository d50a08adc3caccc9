import LaLiga.Lib.Cache
import LaLiga.Lib.Loop
import LaLiga.Rfs.Addresses
import LaLiga.Rfs.Numbering
import LaLiga.Rfs.Path

/-! `read_file`, with the block cache in front of the image. -/
namespace LaLiga.Rfs

open LaLiga.Lib

variable (c : Superblock_constants)

structure Read_params where
  path : Path
  offset : UInt32
  bytes_to_read : UInt32

/-- `memcpy` of `n` bytes of `src` to `dst` from `i` on. -/
def memcpy (dst : List UInt8) (i : Nat) (src : Nat → UInt8) (n : Nat) : Option (List UInt8) :=
  if i + n ≤ dst.length then some (dst.take i ++ (List.range n).map src ++ dst.drop (i + n))
  else none

abbrev Block_cache := Cache (List UInt8) (Nat → UInt8)

def generate_key (path : Path) (block_number : Nat) : List UInt8 := path ++ le 4 block_number

def cache_fs_get_set (fs : Image) (memc : Block_cache) (path : Path) (block_number : Nat)
    (file_data : List Nat) : Except Crash ((Nat → UInt8) × Block_cache) :=
  match memc (generate_key path block_number) with
  | some data => .ok (data, memc)
  | none =>
    match file_data[block_number]? with
    | none => .error .bounds
    | some b => .ok (fs.block (slot c b),
        memc.set (generate_key path block_number) (fs.block (slot c b)))

/-- The variables of `read_file`; `server_log` has the numbers it writes there. -/
structure Reading where
  read_data : List UInt8
  read_so_far : Nat
  bytes_to_read : Nat
  block_number : Nat
  memc : Block_cache
  server_log : List Nat

/-- One block: looked up, logged, and `bytes_to_copy` of it copied. -/
def copy_block (fs : Image) (path : Path) (file_data : List Nat) (start_byte bytes_to_copy : Nat)
    (s : Reading) : Except Crash Reading :=
  match cache_fs_get_set c fs s.memc path s.block_number file_data with
  | .error e => .error e
  | .ok (data, memc) =>
    match memcpy s.read_data s.read_so_far (fun i => data (start_byte + i)) bytes_to_copy with
    | none => .error .bounds
    | some read_data => .ok
        { read_data
          read_so_far := s.read_so_far + bytes_to_copy
          bytes_to_read := s.bytes_to_read - bytes_to_copy
          block_number := (s.block_number + 1) % 2 ^ 32
          memc
          server_log := s.server_log ++ [s.block_number] }

/-- A turn of the `for` over the blocks after the first. -/
def read_turn (fs : Image) (path : Path) (file_data : List Nat) (s : Reading) :
    Except Crash (Reading ⊕ Reading) :=
  if s.bytes_to_read > 0 then
    match copy_block c fs path file_data 0 (min s.bytes_to_read c.BLOCK_SIZE) s with
    | .error e => .error e
    | .ok s' => .ok (.inl s')
  else .ok (.inr s)

structure Read_result where
  read_bytes : Nat
  data : Option (List UInt8)
  errno : Option Errno
  memc : Block_cache
  server_log : List Nat

/-- `bytes_to_read` once the end of the file has been looked at. The difference of an
`int32_t` and a `uint32_t` is a `uint32_t`. -/
def clip (size : Int) (offset bytes_to_read : Nat) : Nat :=
  if size ≤ (offset + bytes_to_read : Nat) then uint32 (size - offset) else bytes_to_read

/-- `file_inode` is what `inode_of_file` found. A `NULL` from `Inode_Get_Data_Adressess` is a
list without cells. -/
def read_file (fs : Image) (file_inode : Option inode_t) (params : Read_params)
    (memc : Block_cache) : Except Crash Read_result :=
  match file_inode with
  | none => .ok ⟨0, none, none, memc, []⟩
  | some file_inode =>
    let offset := params.offset.toNat
    let start_byte_in_start_block := offset % c.BLOCK_SIZE
    if file_inode.mode &&& EXT2_IFREG = 0 then .ok ⟨0, none, some .EPERM, memc, []⟩
    else
      let file_data :=
        (Inode_Get_Data_Adressess c fs file_inode (uint32 file_inode.size)).getD []
      let bytes_to_read := clip file_inode.size offset params.bytes_to_read.toNat
      let remaining_bytes_in_start_block := c.BLOCK_SIZE - start_byte_in_start_block
      let start : Reading :=
        ⟨List.replicate params.bytes_to_read.toNat 0, 0, bytes_to_read, offset / c.BLOCK_SIZE,
          memc, []⟩
      match copy_block c fs params.path file_data start_byte_in_start_block
          (min bytes_to_read remaining_bytes_in_start_block) start with
      | .error e => .error e
      | .ok s =>
        let rest :=
          if s.bytes_to_read > remaining_bytes_in_start_block then
            loop .endless (read_turn c fs params.path file_data) (s.bytes_to_read + 1) s
          else .ok s
        match rest with
        | .error e => .error e
        | .ok s => .ok ⟨bytes_to_read, some s.read_data, none, s.memc, s.server_log⟩

/-- The byte `i` of a file. -/
def file_byte (fs : Image) (anInode : inode_t) (i : Nat) : UInt8 :=
  fs.block (data_pointer c fs anInode (i / c.BLOCK_SIZE)) (i % c.BLOCK_SIZE)

/-- A regular file with its blocks attached. `FS_SIZE` is a `uint32_t`, so that no block of the
mapped image starts beyond. -/
structure Regular_file (fs : Image) (anInode : inode_t) : Prop where
  mode : anInode.mode &&& EXT2_IFREG ≠ 0
  int32 : -2 ^ 31 ≤ anInode.size ∧ anInode.size < 2 ^ 31
  addressable : Size_In_Blocks c (uint32 anInode.size) ≤ level_start c 4
  attached : ∀ k < Size_In_Blocks c (uint32 anInode.size), data_pointer c fs anInode k ≠ 0
  mapped : ∀ k < Size_In_Blocks c (uint32 anInode.size),
    data_pointer c fs anInode k * c.BLOCK_SIZE < 2 ^ 32

/-- A request reads the file: as many bytes as asked for and there are, those of the file, by
blocks that the file has. -/
def Reads (fs : Image) (anInode : inode_t) (params : Read_params)
    (r : Except Crash Read_result) : Prop :=
  ∃ result data, r = .ok result ∧ result.data = some data ∧
    (result.read_bytes : Int) =
      min (params.bytes_to_read.toNat : Int) (max 0 (anInode.size - params.offset.toNat)) ∧
    (∀ i < result.read_bytes,
      data[i]? = some (file_byte c fs anInode (params.offset.toNat + i))) ∧
    ∀ k ∈ result.server_log, k < Size_In_Blocks c (uint32 anInode.size)

/-- The first byte asked for is in the file, and either the first block has all that there is
to read, or what is left is more than was left of the first block, or it is all 0. A request at
the end of the file is also served, when the last block is not full. -/
def Readable (fs : Image) (anInode : inode_t) (params : Read_params) : Prop :=
  let offset := params.offset.toNat
  let left := c.BLOCK_SIZE - offset % c.BLOCK_SIZE
  let there := min params.bytes_to_read.toNat (anInode.size - offset).toNat
  ((offset : Int) < anInode.size ∧ (there ≤ left ∨ 2 * left < there ∨
    ∀ i, left ≤ i → i < there → file_byte c fs anInode (offset + i) = 0)) ∨
  (uint32 anInode.size = offset ∧ offset % c.BLOCK_SIZE ≠ 0)

variable {c} {fs : Image} {anInode : inode_t} {params : Read_params} {memc : Block_cache}

section Copying

variable {dst : List UInt8} {i n : Nat}

theorem memcpy_fits (h : i + n ≤ dst.length) (src : Nat → UInt8) : ∃ dst', memcpy dst i src n = some dst' ∧
    dst'.length = dst.length ∧ (∀ j, i ≤ j → j < i + n → dst'[j]? = some (src (j - i))) ∧
    ∀ j, j < i ∨ i + n ≤ j → dst'[j]? = dst[j]? := by
  refine ⟨_, if_pos h, ?_, ?_, ?_⟩
  · simp only [List.length_append, List.length_take, List.length_map, List.length_range,
      List.length_drop]
    omega
  · intro j hij hj
    rw [List.getElem?_append_left (by simp; omega), List.getElem?_append_right (by simp; omega)]
    have hlen : (dst.take i).length = i := by simp; omega
    rw [hlen, List.getElem?_map, List.getElem?_range (by omega)]
    rfl
  · rintro j (hj | hj)
    · rw [List.getElem?_append_left (by simp; omega),
        List.getElem?_append_left (by simp; omega), List.getElem?_take_of_lt hj]
    · have hlen : (dst.take i ++ (List.range n).map src).length = i + n := by simp; omega
      rw [List.getElem?_append_right (by omega), hlen, List.getElem?_drop]
      congr 1
      omega

end Copying

section Keys

variable {path : Path} {k l : Nat}

/-- Blocks of one file have different keys. -/
theorem generate_key_inj (hk : k < 2 ^ 32) (hl : l < 2 ^ 32)
    (h : generate_key path k = generate_key path l) : k = l := by
  have hle : le 4 k = le 4 l := List.append_cancel_left h
  rw [← ofLe_le_of_lt (w := 4) (n := k) (by omega), hle, ofLe_le_of_lt (by omega)]

end Keys

theorem lt_Size_In_Blocks {k n : Nat} (h : k * c.BLOCK_SIZE < n) : k < Size_In_Blocks c n := by
  have hdiv := Nat.div_add_mod n c.BLOCK_SIZE
  have hlt := Nat.mod_lt n c.size_pos
  unfold Size_In_Blocks
  split_ifs with hmod
  · by_contra hnot
    have : (n / c.BLOCK_SIZE + 1) * c.BLOCK_SIZE ≤ k * c.BLOCK_SIZE :=
      Nat.mul_le_mul_right _ (by omega)
    rw [Nat.add_mul, Nat.mul_comm] at this
    omega
  · by_contra hnot
    have : n / c.BLOCK_SIZE * c.BLOCK_SIZE ≤ k * c.BLOCK_SIZE :=
      Nat.mul_le_mul_right _ (by omega)
    rw [Nat.mul_comm] at this
    omega

theorem Size_In_Blocks_le (n : Nat) : Size_In_Blocks c n ≤ n := by
  have hdiv := Nat.div_add_mod n c.BLOCK_SIZE
  have hle : n / c.BLOCK_SIZE ≤ c.BLOCK_SIZE * (n / c.BLOCK_SIZE) :=
    Nat.le_mul_of_pos_left _ c.size_pos
  unfold Size_In_Blocks
  split_ifs <;> omega

theorem uint32_lt (x : Int) : uint32 x < 2 ^ 32 := by
  unfold uint32
  omega

/-- What has been read of `total` bytes from `offset` on, before the rest of them. -/
structure Read_so_far (c : Superblock_constants) (fs : Image) (anInode : inode_t) (path : Path)
    (offset total n : Nat) (s : Reading) : Prop where
  sum : s.read_so_far + s.bytes_to_read = total
  fits : total ≤ n
  length : s.read_data.length = n
  data : ∀ i < s.read_so_far, s.read_data[i]? = some (file_byte c fs anInode (offset + i))
  zero : ∀ i, s.read_so_far ≤ i → i < n → s.read_data[i]? = some 0
  log : ∀ k ∈ s.server_log, k < Size_In_Blocks c (uint32 anInode.size)
  miss : ∀ k, s.block_number ≤ k → k < 2 ^ 32 → s.memc (generate_key path k) = none

/-- The array of the blocks of a regular file. -/
theorem Regular_file.file_data (h : Regular_file c fs anInode) {k : Nat}
    (hk : k < Size_In_Blocks c (uint32 anInode.size)) :
    ((Inode_Get_Data_Adressess c fs anInode (uint32 anInode.size)).getD [])[k]? =
      some (data_pointer c fs anInode k) := by
  have hone : 1 ≤ level_start c 4 := by
    have h2 : level_start c 4 = 12 + pointers_per_block c ^ 1 + pointers_per_block c ^ 2 +
      pointers_per_block c ^ 3 := rfl
    omega
  rw [Inode_Get_Data_Adressess_eq _ _ (max_le h.addressable hone), Option.getD_some,
    List.getElem?_append_left (by simp; omega), List.getElem?_map,
    List.getElem?_range (by omega)]
  rfl

/-- What is copied of one block is the part of the file that it holds. -/
theorem copy_block_eq (h : Regular_file c fs anInode) {path : Path} {offset total n q b : Nat}
    {s : Reading} (hs : Read_so_far c fs anInode path offset total n s)
    (hq : q ≤ s.bytes_to_read) (hb : b + q ≤ c.BLOCK_SIZE)
    (hk : s.block_number < Size_In_Blocks c (uint32 anInode.size))
    (hat : q = 0 ∨ s.block_number * c.BLOCK_SIZE + b = offset + s.read_so_far) :
    ∃ s', copy_block c fs path
        ((Inode_Get_Data_Adressess c fs anInode (uint32 anInode.size)).getD []) b q s = .ok s' ∧
      Read_so_far c fs anInode path offset total n s' ∧
      s'.bytes_to_read = s.bytes_to_read - q ∧ s'.block_number = s.block_number + 1 := by
  have hsum := hs.sum
  have hfits := hs.fits
  have h32 : s.block_number + 1 < 2 ^ 32 := by
    have := Size_In_Blocks_le (c := c) (uint32 anInode.size)
    have := uint32_lt anInode.size
    omega
  have hslot : slot c (data_pointer c fs anInode s.block_number) =
      data_pointer c fs anInode s.block_number := slot_eq (h.mapped _ hk)
  have hroom : s.read_so_far + q ≤ s.read_data.length := by
    rw [hs.length]
    omega
  obtain ⟨read_data, hcopy, hlen, hin, hout⟩ := memcpy_fits hroom
    fun i => fs.block (data_pointer c fs anInode s.block_number) (b + i)
  refine ⟨⟨read_data, s.read_so_far + q, s.bytes_to_read - q, (s.block_number + 1) % 2 ^ 32,
    s.memc.set (generate_key path s.block_number)
      (fs.block (data_pointer c fs anInode s.block_number)),
    s.server_log ++ [s.block_number]⟩, ?_, ?_, rfl, Nat.mod_eq_of_lt h32⟩
  · unfold copy_block cache_fs_get_set
    rw [hs.miss _ le_rfl (by omega)]
    simp only [h.file_data hk, hslot, hcopy]
  · constructor
    · simp only
      omega
    · exact hs.fits
    · rw [hlen, hs.length]
    · intro i hi
      by_cases hlt : i < s.read_so_far
      · rw [hout i (Or.inl hlt), hs.data i hlt]
      · simp only at hi
        rw [hin i (by omega) hi]
        congr 1
        have hq0 : q ≠ 0 := by omega
        have hpos : offset + i = s.block_number * c.BLOCK_SIZE + (b + (i - s.read_so_far)) := by
          have := hat.resolve_left hq0
          omega
        have hlt' : b + (i - s.read_so_far) < c.BLOCK_SIZE := by omega
        rw [file_byte, hpos, Nat.mul_comm, Nat.mul_add_div c.size_pos, Nat.mul_add_mod,
          Nat.div_eq_of_lt hlt', Nat.mod_eq_of_lt hlt', Nat.add_zero]
    · intro i hi hin'
      simp only at hi
      rw [hout i (Or.inr hi), hs.zero i (by omega) hin']
    · intro k hk'
      rcases List.mem_append.mp hk' with hk' | hk'
      · exact hs.log k hk'
      · rw [List.mem_singleton.mp hk']
        exact hk
    · intro k hle hk'
      simp only [Nat.mod_eq_of_lt h32] at hle
      have hne : generate_key path k ≠ generate_key path s.block_number := by
        intro heq
        have := generate_key_inj hk' (by omega) heq
        omega
      exact (Cache.set_of_ne hne).trans (hs.miss k (by omega) hk')

/-- The `for` copies all that is left. -/
theorem read_turns (h : Regular_file c fs anInode) {path : Path} {offset total n turns : Nat}
    {s : Reading} (hs : Read_so_far c fs anInode path offset total n s)
    (hat : s.bytes_to_read > 0 → s.block_number * c.BLOCK_SIZE = offset + s.read_so_far)
    (hend : offset + total ≤ uint32 anInode.size) (hturns : s.bytes_to_read < turns) :
    ∃ s', loop .endless (read_turn c fs path
        ((Inode_Get_Data_Adressess c fs anInode (uint32 anInode.size)).getD [])) turns s = .ok s' ∧
      Read_so_far c fs anInode path offset total n s' ∧ s'.bytes_to_read = 0 := by
  have hstep : ∀ s, Read_so_far c fs anInode path offset total n s → s.bytes_to_read > 0 →
      s.block_number * c.BLOCK_SIZE = offset + s.read_so_far →
      ∃ s', read_turn c fs path
          ((Inode_Get_Data_Adressess c fs anInode (uint32 anInode.size)).getD []) s =
          .ok (.inl s') ∧ Read_so_far c fs anInode path offset total n s' ∧
        s'.bytes_to_read = s.bytes_to_read - min s.bytes_to_read c.BLOCK_SIZE ∧
        s'.block_number = s.block_number + 1 := by
    intro s hs hpos hat
    have hsum := hs.sum
    have hk : s.block_number < Size_In_Blocks c (uint32 anInode.size) :=
      lt_Size_In_Blocks (by omega)
    obtain ⟨s', hcopy, hs', hleft, hnext⟩ := copy_block_eq (b := 0)
      (q := min s.bytes_to_read c.BLOCK_SIZE) h hs (by omega) (by omega) hk (Or.inr (by omega))
    refine ⟨s', ?_, hs', hleft, hnext⟩
    rw [read_turn, if_pos hpos, hcopy]
  refine loop_rule
    (I := fun s => Read_so_far c fs anInode path offset total n s ∧
      (s.bytes_to_read > 0 → s.block_number * c.BLOCK_SIZE = offset + s.read_so_far))
    (R := fun r => ∃ s', r = .ok s' ∧ Read_so_far c fs anInode path offset total n s' ∧
      s'.bytes_to_read = 0) Reading.bytes_to_read ?_ ?_ ?_ turns s ⟨hs, hat⟩ hturns
  · rintro s e ⟨hs, hat⟩ hbody
    by_cases hpos : s.bytes_to_read > 0
    · obtain ⟨s', hok, -⟩ := hstep s hs hpos (hat hpos)
      rw [hok] at hbody
      cases hbody
    · rw [read_turn, if_neg hpos] at hbody
      cases hbody
  · rintro s t ⟨hs, hat⟩ hbody
    by_cases hpos : s.bytes_to_read > 0
    · obtain ⟨s', hok, hs', hleft, hnext⟩ := hstep s hs hpos (hat hpos)
      obtain rfl : s' = t := by
        rw [hok] at hbody
        exact Sum.inl.inj (Except.ok.inj hbody)
      have hsize := c.size_pos
      have hsum := hs.sum
      have hsum' := hs'.sum
      have hpos' := hat hpos
      refine ⟨⟨hs', ?_⟩, by omega⟩
      intro hmore
      rw [hnext, Nat.add_mul, Nat.one_mul]
      omega
    · rw [read_turn, if_neg hpos] at hbody
      cases hbody
  · rintro s a ⟨hs, hat⟩ hbody
    by_cases hpos : s.bytes_to_read > 0
    · obtain ⟨s', hok, -⟩ := hstep s hs hpos (hat hpos)
      rw [hok] at hbody
      cases hbody
    · rw [read_turn, if_neg hpos] at hbody
      obtain rfl : s = a := Sum.inr.inj (Except.ok.inj hbody)
      exact ⟨s, rfl, hs, by omega⟩

section Clipped

variable {size : Int} {offset n : Nat}

theorem clip_inside (hsize : size < 2 ^ 31) (h : (offset : Int) < size) :
    clip size offset n = min n (size - offset).toNat := by
  unfold clip uint32
  split_ifs <;> omega

/-- From the end of the file on, nothing is read at the end only. -/
theorem clip_outside (hoffset : offset < 2 ^ 32) (h : ¬ (offset : Int) < size) :
    clip size offset n = 0 ↔ uint32 size = offset := by
  unfold clip uint32
  split_ifs <;> omega

end Clipped

/-- A request from a block of the file on, for bytes of the file, is served but for what is left
after the first block when that is no more than was left of the block. -/
theorem read_file_served (h : Regular_file c fs anInode)
    (hmiss : ∀ n, memc (generate_key params.path n) = none)
    {m left : Nat} (hm : m = clip anInode.size params.offset.toNat params.bytes_to_read.toNat)
    (hleft : left = c.BLOCK_SIZE - params.offset.toNat % c.BLOCK_SIZE)
    (hfits : m ≤ params.bytes_to_read.toNat)
    (hend : params.offset.toNat + m ≤ uint32 anInode.size)
    (hstart : params.offset.toNat / c.BLOCK_SIZE < Size_In_Blocks c (uint32 anInode.size)) :
    ∃ s, read_file c fs (some anInode) params memc =
        .ok ⟨m, some s.read_data, none, s.memc, s.server_log⟩ ∧
      Read_so_far c fs anInode params.path params.offset.toNat m params.bytes_to_read.toNat s ∧
      ((m ≤ left ∨ 2 * left < m) ∧ s.bytes_to_read = 0 ∨
        left < m ∧ m ≤ 2 * left ∧ s.read_so_far = left) := by
  have hinside := Nat.mod_lt params.offset.toNat c.size_pos
  have hdiv := Nat.div_add_mod' params.offset.toNat c.BLOCK_SIZE
  have hinit : Read_so_far c fs anInode params.path params.offset.toNat m
      params.bytes_to_read.toNat ⟨List.replicate params.bytes_to_read.toNat 0, 0, m,
        params.offset.toNat / c.BLOCK_SIZE, memc, []⟩ := by
    constructor
    · exact Nat.zero_add m
    · exact hfits
    · exact List.length_replicate
    · intro i hi
      exact absurd hi (Nat.not_lt_zero i)
    · intro i _ hi
      exact List.getElem?_replicate_of_lt hi
    · intro k hk
      cases hk
    · intro k _ _
      exact hmiss k
  obtain ⟨s, hcopy, hs, hbytes, hnext⟩ := copy_block_eq (b := params.offset.toNat % c.BLOCK_SIZE)
    (q := min m left) h hinit (Nat.min_le_left _ _) (by omega) hstart (Or.inr hdiv)
  have hsum := hs.sum
  simp only at hbytes hnext
  by_cases hmore : s.bytes_to_read > left
  · have hat : s.bytes_to_read > 0 →
        s.block_number * c.BLOCK_SIZE = params.offset.toNat + s.read_so_far := by
      intro _
      rw [hnext, Nat.add_mul, Nat.one_mul]
      omega
    obtain ⟨s', hloop, hs', hzero⟩ := read_turns h hs hat hend (Nat.lt_succ_self _)
    refine ⟨s', ?_, hs', Or.inl ⟨Or.inr (by omega), hzero⟩⟩
    simp only [read_file, if_neg h.mode, ← hm, ← hleft, hcopy, if_pos hmore, hloop]
  · refine ⟨s, ?_, hs, by omega⟩
    simp only [read_file, if_neg h.mode, ← hm, ← hleft, hcopy, if_neg hmore]

/-- Whatever it reads, the count is the clipped one, and no block but the first is read when
that is 0. -/
theorem read_file_ok {result : Read_result} (hmode : anInode.mode &&& EXT2_IFREG ≠ 0)
    (h : read_file c fs (some anInode) params memc = .ok result) :
    result.read_bytes = clip anInode.size params.offset.toNat params.bytes_to_read.toNat ∧
      (result.read_bytes = 0 → result.server_log = [params.offset.toNat / c.BLOCK_SIZE]) := by
  simp only [read_file, if_neg hmode] at h
  split at h
  · cases h
  · rename_i s hcopy
    split at h
    · cases h
    · rename_i t hrest
      obtain rfl := Except.ok.inj h
      refine ⟨rfl, ?_⟩
      intro hzero
      simp only at hzero
      unfold copy_block at hcopy
      split at hcopy
      · cases hcopy
      · split at hcopy
        · cases hcopy
        · obtain rfl := Except.ok.inj hcopy
          simp only [hzero] at hrest
          rw [if_neg (by omega)] at hrest
          obtain rfl := Except.ok.inj hrest
          rfl

/-- `read_file` returns the bytes of the file exactly for the requests that are readable. -/
theorem read_file_iff (h : Regular_file c fs anInode)
    (hmiss : ∀ n, memc (generate_key params.path n) = none) :
    Reads c fs anInode params (read_file c fs (some anInode) params memc) ↔
      Readable c fs anInode params := by
  have hoffset : params.offset.toNat < 2 ^ 32 := params.offset.toNat_lt
  have hinside := Nat.mod_lt params.offset.toNat c.size_pos
  have hdiv := Nat.div_add_mod' params.offset.toNat c.BLOCK_SIZE
  by_cases hlt : (params.offset.toNat : Int) < anInode.size
  · -- Something is there to read, and what matters is how it lies in the blocks.
    have hsize : uint32 anInode.size = anInode.size.toNat := by
      have := h.int32
      unfold uint32
      omega
    have hclip := clip_inside (n := params.bytes_to_read.toNat) h.int32.2 hlt
    obtain ⟨s, hread, hs, hcase⟩ := read_file_served h hmiss rfl rfl
      (by omega) (by omega) (lt_Size_In_Blocks (by omega))
    rw [hread, hclip] at *
    have hsum := hs.sum
    constructor
    · rintro ⟨result, data, hok, hdata, -, hbytes, -⟩
      obtain rfl := Except.ok.inj hok
      obtain rfl := Option.some.inj hdata
      refine Or.inl ⟨hlt, ?_⟩
      rcases hcase with ⟨hfull, -⟩ | ⟨hmore, -, hfar⟩
      · exact hfull.imp_right Or.inl
      · refine Or.inr (Or.inr ?_)
        intro i hi hthere
        have hbyte := hbytes i hthere
        rw [hs.zero i (by omega) (by omega)] at hbyte
        exact (Option.some.inj hbyte).symm
    · rintro (⟨-, hcond⟩ | ⟨hend, -⟩)
      · refine ⟨_, _, rfl, rfl, by simp only; omega, ?_, hs.log⟩
        intro i hi
        by_cases hfar : i < s.read_so_far
        · exact hs.data i hfar
        · simp only at hi
          rw [hs.zero i (by omega) (by omega)]
          rcases hcase with ⟨-, hdone⟩ | ⟨hmore, hless, hleft⟩
          · omega
          · have hzero := (hcond.resolve_left (by omega)).resolve_left (by omega)
            rw [hzero i (by omega) hi]
      · omega
  · -- Nothing is there: the count is right at the end of the file only.
    have hclip := clip_outside (n := params.bytes_to_read.toNat) hoffset hlt
    have hnone : min (params.bytes_to_read.toNat : Int)
        (max 0 (anInode.size - params.offset.toNat)) = 0 := by omega
    constructor
    · rintro ⟨result, data, hok, -, hcount, -, hlog⟩
      obtain ⟨hbytes, hfirst⟩ := read_file_ok h.mode hok
      have hzero : result.read_bytes = 0 := by omega
      have hend := hclip.mp (hbytes.symm.trans hzero)
      refine Or.inr ⟨hend, ?_⟩
      intro hmod
      have hstart := hlog (params.offset.toNat / c.BLOCK_SIZE) (by
        rw [hfirst hzero]
        exact List.mem_singleton_self _)
      rw [hend, Size_In_Blocks, if_neg (by omega)] at hstart
      omega
    · rintro (⟨hcond, -⟩ | ⟨hend, hmod⟩)
      · exact absurd hcond hlt
      · have hzero := hclip.mpr hend
        obtain ⟨s, hread, hs, -⟩ := read_file_served h hmiss rfl rfl
          (by omega) (by omega) (lt_Size_In_Blocks (by omega))
        rw [hread, hzero]
        refine ⟨_, _, rfl, rfl, by simp only; omega, ?_, hs.log⟩
        intro i hi
        exact absurd hi (Nat.not_lt_zero i)

/-- A file of two blocks of 1024 bytes, none of them 0. -/
def two_blocks : inode_t := ⟨EXT2_IFREG, 2048, 1, 4, fun k => k + 3, 0, 0, 0⟩

def sevens : Image := { two_used with block := fun _ _ => 7 }

theorem two_blocks_regular : Regular_file (one_group 0 (by decide)) sevens two_blocks where
  mode := by decide
  int32 := by decide
  addressable := by decide
  attached := by decide
  mapped := by decide

theorem read_file_last_three : Reads (one_group 0 (by decide)) sevens two_blocks
    ⟨[separator, 97], 1021, 3⟩
    (read_file (one_group 0 (by decide)) sevens (some two_blocks) ⟨[separator, 97], 1021, 3⟩
      Cache.empty) :=
  (read_file_iff two_blocks_regular fun _ => rfl).mpr (Or.inl ⟨by decide, Or.inl (by decide)⟩)

/-- Of four bytes around the end of the first block, the last two are not copied. -/
theorem read_file_around : Regular_file (one_group 0 (by decide)) sevens two_blocks ∧
    ¬ Reads (one_group 0 (by decide)) sevens two_blocks ⟨[separator, 97], 1022, 4⟩
      (read_file (one_group 0 (by decide)) sevens (some two_blocks) ⟨[separator, 97], 1022, 4⟩
        Cache.empty) := by
  refine ⟨two_blocks_regular, ?_⟩
  rintro ⟨result, data, hok, hdata, hcount, hbytes, -⟩
  have hread : (read_file (one_group 0 (by decide)) sevens (some two_blocks)
      ⟨[separator, 97], 1022, 4⟩ Cache.empty).toOption.bind Read_result.data =
      some [7, 7, 0, 0] := by decide
  rw [hok] at hread
  obtain rfl : data = [7, 7, 0, 0] := Option.some.inj (hdata.symm.trans hread)
  have hcount : (result.read_bytes : Int) = 4 := hcount
  have hbyte := hbytes 2 (by omega)
  exact absurd hbyte (by decide)

end LaLiga.Rfs
