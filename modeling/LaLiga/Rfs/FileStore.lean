import LaLiga.Rfs.CachedRead
import LaLiga.Rfs.Resolution
import LaLiga.Rfs.TruncateFile

/-! The requests that write, truncate and read the files of a tree of directories, one after the
other, against a map from files to their bytes. -/
namespace LaLiga.Rfs

open LaLiga.Lib

/-- What a request for `n` bytes reads. The bytes that `written` forgets stay zeros. -/
def fetched (c : Superblock_constants) (bytes : List UInt8) (offset n : Nat) : List UInt8 :=
  let there := min n (bytes.length - offset)
  let copied := written c offset there
  window bytes offset copied ++ List.replicate (n - copied) 0

/-- The directories of an image and the path by which each file is asked for. None of the requests
here changes them. -/
structure Layout where
  live : Nat → Prop
  reserved : Nat → Prop
  directory : Nat → Option (List (Nat × List entry_t))
  home : Nat → Option Path
  home_inj : ∀ i j path, home i = some path → home j = some path → i = j

namespace Layout

/-- The walk along the names, from the directory `i` on. -/
def lookup (L : Layout) : Nat → List Path → Option Nat
  | i, [] => some i
  | i, name :: names =>
    match L.directory i with
    | none => none
    | some ds =>
      match (listing ds).find? fun e => e.file_name = name with
      | none => none
      | some e => L.lookup e.inode_number names

/-- Whatever the walk comes to before the last name is a directory. -/
def Passable (L : Layout) : Nat → List Path → Prop
  | _, [] => True
  | i, name :: names => ∃ ds, L.directory i = some ds ∧
      ∀ e, (listing ds).find? (fun e => e.file_name = name) = some e →
        L.Passable e.inode_number names

/-- The inode that the path leads to. -/
def locate (L : Layout) (path : Path) : Option Nat := L.lookup ROOT_INODE_NUMBER (components path)

/-- A path without empty components that leads to a file by which it is asked for, or to nothing. -/
def Addressed (L : Layout) (path : Path) : Prop :=
  ∃ names, names ≠ [] ∧ (∀ name ∈ names, Component name) ∧ path = canonical names ∧
    L.Passable ROOT_INODE_NUMBER names ∧
    ∀ i, L.lookup ROOT_INODE_NUMBER names = some i → L.home i = some path

end Layout

/-- The image has the directories of the layout and the files with their bytes. -/
structure Mounted (c : Superblock_constants) (L : Layout) (files : Nat → Option (List UInt8))
    (fs : Image) : Prop where
  audited : Audited c L.live L.reserved fs
  directory : ∀ j ds, L.directory j = some ds → Directory c L.live j ds fs ∧
    ∀ e ∈ listing ds, Inode_locateGroup c e.inode_number < c.TOTAL_GROUPS
  file : ∀ i bytes, files i = some bytes → ∃ N, Stored c L.live i N bytes fs
  home : ∀ i, (files i).isSome = (L.home i).isSome
  apart : ∀ i ds, L.directory i = some ds → files i = none

/-- What the cache has of the files are blocks of theirs as they are. -/
def Cached (c : Superblock_constants) (L : Layout) (fs : Image) (key : List UInt8)
    (data : Nat → UInt8) : Prop :=
  ∀ i path m, L.home i = some path → m < 2 ^ 32 → key = generate_key path m →
    m < level_start c 4 ∧ m < Size_In_Blocks c (uint32 (fs.inode i).size) ∧
      data = fs.block (block_at c fs i m)

structure Server where
  file : Image
  memc : Block_cache

/-- The requests of this system, and what memcached does on its own. -/
inductive File_request
  | write (params : Write_params)
  | truncate (params : Truncate_params)
  | read (params : Read_params)
  | drop (key : List UInt8)

/-- The result of the operation with `errno` as its error; the first is `ENAMETOOLONG`. -/
inductive File_reply
  | name_too_long
  | write (data : Option Nat) (error : Option Errno)
  | truncate (data : Nat) (error : Option Errno)
  | read (read_bytes : Nat) (data : Option (List UInt8)) (error : Option Errno)
  | nothing

/-- The turn of a `worker`: a path of more than 40 bytes is not looked for. -/
def serve (c : Superblock_constants) (s : Server) :
    File_request → Except Crash (Server × File_reply)
  | .write params =>
    if params.path.length ≤ 40 then do
      let (file_inode, w) ← inode_of_file c params.path ⟨s.file, none⟩
      let r ← write_file c file_inode params s.memc w
      pure (⟨r.worker.file, r.memc⟩, .write r.data r.worker.errno)
    else pure (s, .name_too_long)
  | .truncate params =>
    if params.path.length ≤ 40 then do
      let (file_inode, w) ← inode_of_file c params.path ⟨s.file, none⟩
      let r ← truncate_file c file_inode params s.memc w
      pure (⟨r.worker.file, r.memc⟩, .truncate r.data r.worker.errno)
    else pure (s, .name_too_long)
  | .read params =>
    if params.path.length ≤ 40 then do
      let (file_inode, w) ← inode_of_file c params.path ⟨s.file, none⟩
      let r ← read_file c w.file (file_inode.map w.file.inode) params s.memc
      pure (⟨w.file, r.memc⟩, .read r.read_bytes r.data (r.errno.or w.errno))
    else pure (s, .name_too_long)
  | .drop key => pure (⟨s.file, s.memc.delete key⟩, .nothing)

/-- The same on the map from files to their bytes. -/
def answer (c : Superblock_constants) (L : Layout) (files : Nat → Option (List UInt8)) :
    File_request → (Nat → Option (List UInt8)) × File_reply
  | .write params =>
    if params.path.length ≤ 40 then
      match L.locate params.path with
      | none => (files, .write none (some .ENOENT))
      | some i =>
        let n := written c params.offset.toNat params.bytes_to_write.toNat
        (Function.update files i (some (overwrite 0 ((files i).getD []) params.offset.toNat
          (params.write_buffer.take n))), .write (some n) none)
    else (files, .name_too_long)
  | .truncate params =>
    if params.path.length ≤ 40 then
      match L.locate params.path with
      | none => (files, .truncate 1 (some .ENOENT))
      | some i => (Function.update files i
          (some (resize 0 ((files i).getD []) (params.size.toNat % 2 ^ 32))), .truncate 0 none)
    else (files, .name_too_long)
  | .read params =>
    if params.path.length ≤ 40 then
      match L.locate params.path with
      | none => (files, .read 0 none (some .ENOENT))
      | some i =>
        let bytes := (files i).getD []
        let offset := params.offset.toNat
        let n := params.bytes_to_read.toNat
        (files, .read (min n (bytes.length - offset)) (some (fetched c bytes offset n)) none)
    else (files, .name_too_long)
  | .drop _ => (files, .nothing)

/-- What a request needs of the image: the blocks that it asks for, zeros where it leaves a gap, no
more blocks than the size says where it takes some away, and a byte to read. -/
def Admitted (c : Superblock_constants) (L : Layout) (s : Server) : File_request → Prop
  | .write params =>
    let reached := params.offset.toNat + params.bytes_to_write.toNat
    params.path.length ≤ 40 → L.Addressed params.path ∧ 0 < params.bytes_to_write.toNat ∧
      reached < 2 ^ 31 ∧ ∀ i size N, L.locate params.path = some i →
        (s.file.inode i).size = (size : Nat) → Full c s.file i N 0 →
        Room c N (asked c size reached) ⟨s.file, none⟩ ∧
          (size < params.offset.toNat → Trimmed c i size s.file)
  | .truncate params =>
    let new_size := params.size.toNat % 2 ^ 32
    params.path.length ≤ 40 → L.Addressed params.path ∧ new_size < 2 ^ 31 ∧
      ∀ i size N, L.locate params.path = some i → (s.file.inode i).size = (size : Nat) →
        Full c s.file i N 0 →
        Room c N (Size_In_Blocks c new_size - Size_In_Blocks c size) ⟨s.file, none⟩ ∧
          (Size_In_Blocks c new_size < Size_In_Blocks c size → N = Size_In_Blocks c size) ∧
          ¬ Uncovered c i size new_size s.file
  | .read params =>
    params.path.length ≤ 40 → L.Addressed params.path ∧
      ∀ i, L.locate params.path = some i → (params.offset.toNat : Int) < (s.file.inode i).size
  | .drop _ => True

/-- The server has the files, and a cache that agrees with it. -/
structure Serving (c : Superblock_constants) (L : Layout) (s : Server)
    (files : Nat → Option (List UInt8)) : Prop where
  mounted : Mounted c L files s.file
  coherent : s.memc.Coherent (Cached c L s.file)

/-- The path of the file that a request is about. -/
def File_request.path : File_request → Path
  | .write params => params.path
  | .truncate params => params.path
  | .read params => params.path
  | .drop _ => []

/-- What a turn leaves: the inodes in use with their modes, and what the cache has but for the
blocks of the file, if there is one. -/
structure Confined (c : Superblock_constants) (L : Layout) (path : Path) (s s' : Server) :
    Prop where
  inodes : Same_inodes c s.file s'.file
  cache : ∀ key data, (∀ i m, L.home i = some path → key ≠ generate_key path m) →
    s'.memc key = some data → s.memc key = some data

variable {c : Superblock_constants} {live reserved : Nat → Prop} {fs fs' : Image}
  {i j k m n b N : Nat} {path : Path} {bytes : List UInt8} {memc memc' : Block_cache} {L : Layout}
  {files files' : Nat → Option (List UInt8)} {names : List Path} {w : Worker_state}
  {s s' : Server} {req : File_request}

section Reading

variable (hsize : Ext2_size c) (hown : Owned c live fs) (hpool : Pool c fs)
  (hs : Stored c live i N bytes fs)
include hsize hown hpool hs

theorem Stored.pointer_at (hm : m < N) :
    data_pointer c fs (fs.inode i) m = block_at c fs i m ∧ block_at c fs i m ≠ 0 := by
  have hP := hsize.pointers
  have hlevels := hm.trans (filled_lt_levels hs.full.filled hsize hown hpool hs.held)
  obtain ⟨hleaf, hindex⟩ := leaf_of_spec hP hlevels
  have hne := (hs.full.filled.block_at hP hlevels).mpr hm
  have hpointer := data_pointer_leaf hP hleaf hne
  rw [hindex] at hpointer
  exact ⟨hpointer, hne⟩

theorem Stored.regular : Regular_file c fs (fs.inode i) := by
  have hP := hsize.pointers
  have hlevels := filled_lt_levels hs.full.filled hsize hown hpool hs.held
  have hmapped := hs.full.filled.mapped hsize hown hpool hs.held le_rfl hlevels.le
  have hfits := hs.fits
  constructor
  · exact hs.mode
  · rw [hs.size]
    omega
  · rw [hs.uint32_size]
    exact hs.enough.trans hlevels.le
  · intro k hk
    rw [hs.uint32_size] at hk
    obtain ⟨hat, hne⟩ := hs.pointer_at hsize hown hpool (hk.trans_le hs.enough)
    rwa [hat]
  · intro k hk
    rw [hs.uint32_size] at hk
    obtain ⟨hat, hne⟩ := hs.pointer_at hsize hown hpool (hk.trans_le hs.enough)
    obtain ⟨hleaf, -⟩ := leaf_of_spec hP ((hk.trans_le hs.enough).trans hlevels)
    rw [hat]
    exact hpool.mapped _ (hown.block ⟨i, _, _⟩ ⟨hs.held, hleaf.valid⟩ hne)

theorem Stored.file_byte_at (hk : k < bytes.length) :
    bytes[k]? = some (file_byte c fs (fs.inode i) k) := by
  rw [hs.content k hk, byte_at, file_byte, (hs.pointer_at hsize hown hpool (hs.lt_blocks hk)).1]

/-- A request within the file reads its bytes, from the cache or from the image. -/
theorem read_file_stored (params : Read_params) {off : Nat} {file_data : List Nat}
    (hoff : off = params.offset.toNat) (hn : n = params.bytes_to_read.toNat)
    (hin : off < bytes.length)
    (hdata : file_data =
      (Inode_Get_Data_Adressess c fs (fs.inode i) (uint32 (fs.inode i).size)).getD [])
    (hbacked : Backed c fs params.path file_data memc) :
    ∃ r, read_file c fs (some (fs.inode i)) params memc = .ok r ∧
      r.read_bytes = min n (bytes.length - off) ∧ r.data = some (fetched c bytes off n) ∧
      r.errno = none ∧ Refilled c fs params.path file_data memc r.memc r.server_log ∧
      ∀ k ∈ r.server_log, k < Size_In_Blocks c bytes.length := by
  have hfits := hs.fits
  have hregular := hs.regular hsize hown hpool
  have hinside := Nat.mod_lt off c.size_pos
  have hclip : clip (fs.inode i).size off n = min n (bytes.length - off) := by
    rw [hs.size, clip_inside (by omega) (by omega)]
    omega
  have hwhole := hs.uint32_size
  obtain ⟨s, hread, hsofar, hcase⟩ := read_file_served hregular
    (show ∀ n, (Cache.empty : Block_cache) (generate_key params.path n) = none from fun _ => rfl)
    rfl rfl (by rw [← hoff, ← hn, hclip]; omega)
    (by rw [← hoff, ← hn, hclip, hwhole]; omega)
    (by
      rw [← hoff, hwhole]
      exact lt_Size_In_Blocks ((Nat.div_mul_le_self off c.BLOCK_SIZE).trans_lt hin))
  rw [← hoff, ← hn, hclip] at hsofar hread hcase
  have hsum := hsofar.sum
  have hcopied : s.read_so_far = written c off (min n (bytes.length - off)) := by
    simp only [written]
    split_ifs <;> omega
  obtain ⟨r', hr', hsame, hrefilled⟩ : ∃ r', _ ∧ _ ∧ _ := by
    have hmatch := read_file_matches params hdata hbacked backed_empty
    rcases hmatch.cases with ⟨e, -, h2⟩ | ⟨r, r', h1, h2, hsame, hrefilled⟩
    · rw [hread] at h2
      cases h2
    · rw [hread] at h2
      obtain rfl := Except.ok.inj h2
      exact ⟨r, h1, hsame, hrefilled⟩
  obtain ⟨hbytes, hdata', herr, -, hlog⟩ := Read_result.mk.inj hsame
  refine ⟨r', hr', hbytes, ?_, herr, hrefilled, ?_⟩
  · have hwindow : (window bytes off s.read_so_far).length = s.read_so_far := by
      rw [length_window]
      omega
    rw [hdata', fetched, ← hcopied]
    refine congrArg some (List.ext_getElem? fun k => ?_)
    by_cases hread : k < s.read_so_far
    · rw [hsofar.data k hread, List.getElem?_append_left (by omega), getElem?_window hread,
        hs.file_byte_at hsize hown hpool (by omega)]
    · rw [List.getElem?_append_right (by omega), hwindow]
      by_cases hk : k < n
      · rw [hsofar.zero k (by omega) hk, List.getElem?_replicate_of_lt (by omega)]
      · rw [List.getElem?_eq_none (by rw [hsofar.length]; omega),
          List.getElem?_eq_none (by rw [List.length_replicate]; omega)]
  · rw [hlog, ← hwhole]
    exact hsofar.log

end Reading

section Walking

variable (hsize : Ext2_size c) (hm : Mounted c L files fs)
include hsize hm

omit hsize in
theorem Mounted.directory_at {ds : List (Nat × List entry_t)} (h : L.directory i = some ds) :
    Directory_at c fs i (listing ds) :=
  ⟨_, ds, (hm.directory i ds h).1, rfl, (hm.directory i ds h).2⟩

/-- The walk in the image is the one in the layout. -/
theorem Mounted.leads_iff (hpass : L.Passable i names) :
    Leads c fs i names j ↔ L.lookup i names = some j := by
  have hpool := hm.audited.pool
  induction names generalizing i with
  | nil =>
    rw [Leads.nil_iff, Layout.lookup, Option.some.injEq, eq_comm]
  | cons name names ih =>
    obtain ⟨ds, hds, hrest⟩ := hpass
    have hes := hm.directory_at hds
    rw [Leads.cons_iff hsize hpool hes, Layout.lookup, hds]
    simp only
    cases hfind : (listing ds).find? fun e => e.file_name = name with
    | none =>
      simp only [reduceCtorEq, iff_false]
      rintro ⟨e, he, hname, -⟩
      exact List.find?_eq_none.mp hfind e he (decide_eq_true hname)
    | some e =>
      have hname : e.file_name = name := by simpa using List.find?_some hfind
      have he := List.mem_of_find?_eq_some hfind
      refine Iff.trans ?_ (ih (hrest e hfind))
      constructor
      · rintro ⟨e', he', hname', hwalk⟩
        rwa [hes.inj he he' (hname.trans hname'.symm)]
      · exact fun hwalk => ⟨e, he, hname, hwalk⟩

theorem Mounted.directories_along (hpass : L.Passable i names) : Directories_along c fs i names :=
    by
  have hpool := hm.audited.pool
  induction names generalizing i with
  | nil =>
    rintro front rest hsplit hrest
    exact absurd (List.append_eq_nil_iff.mp hsplit).2 hrest
  | cons name names ih =>
    obtain ⟨ds, hds, hdown⟩ := hpass
    have hes := hm.directory_at hds
    intro front rest hsplit hrest k hwalk
    cases front with
    | nil =>
      obtain rfl := Leads.nil_iff.mp hwalk
      exact ⟨_, hes⟩
    | cons first front =>
      obtain ⟨rfl, hsplit'⟩ := List.cons.inj hsplit
      obtain ⟨e, he, hname, hwalk⟩ := (Leads.cons_iff hsize hpool hes).mp hwalk
      refine ih (hdown e ?_) front rest hsplit' hrest k hwalk
      cases hfind : (listing ds).find? fun e => e.file_name = first with
      | none => exact absurd (decide_eq_true hname) (List.find?_eq_none.mp hfind e he)
      | some e' =>
        have hname' : e'.file_name = first := by simpa using List.find?_some hfind
        rw [hes.inj he (List.mem_of_find?_eq_some hfind) (hname.trans hname'.symm)]

end Walking

/-- `inode_of_file` finds what the layout has, whatever the files hold. -/
theorem Mounted.inode_of_file (hsize : Ext2_size c) (hm : Mounted c L files w.file)
    (hnames : ∀ name ∈ names, Component name) (hpass : L.Passable ROOT_INODE_NUMBER names) :
    Rfs.inode_of_file c (canonical names) w = .ok
      (match L.lookup ROOT_INODE_NUMBER names with
        | some j => (some j, w)
        | none => (none, { w with errno := some .ENOENT })) := by
  obtain ⟨hfound, hnone⟩ := inode_of_file_walk hsize hm.audited.pool hnames
    (hm.directories_along hsize hpass)
  cases hlookup : L.lookup ROOT_INODE_NUMBER names with
  | some j => exact (hfound j).mpr ((hm.leads_iff hsize hpass).mpr hlookup)
  | none =>
    refine hnone.mpr fun j hwalk => ?_
    rw [hm.leads_iff hsize hpass, hlookup] at hwalk
    cases hwalk

theorem generate_key_path {path' : Path} (h : generate_key path m = generate_key path' k) :
    path = path' :=
  (List.append_inj' h (by rw [le_length, le_length])).1

section Updating

variable (hsize : Ext2_size c) (hm : Mounted c L files fs)
include hsize hm

/-- A file is another one, and the rest is as it was. -/
theorem Mounted.updated (h : Updated c L.live L.reserved i N bytes fs fs')
    (hhome : L.home i = some path) : Mounted c L (Function.update files i (some bytes)) fs' := by
  have hP := hsize.pointers
  have hpool := hm.audited.pool
  have hsome : (files i).isSome := by
    rw [hm.home, hhome]
    rfl
  have hne : ∀ j ds, L.directory j = some ds → j ≠ i := by
    rintro j ds hds rfl
    rw [hm.apart j ds hds] at hsome
    cases hsome
  constructor
  · exact h.audited
  · intro j ds hds
    obtain ⟨hdir, hgroup⟩ := hm.directory j ds hds
    exact ⟨h.others.directory hP hsize hpool h.audited.owned hdir (hne j ds hds), hgroup⟩
  · intro j bytes' hj
    by_cases hji : j = i
    · subst hji
      rw [Function.update_self] at hj
      obtain rfl := Option.some.inj hj
      exact ⟨N, h.stored⟩
    · rw [Function.update_of_ne hji] at hj
      obtain ⟨N', hstored⟩ := hm.file j bytes' hj
      have hlevels := filled_lt_levels hstored.full.filled hsize hm.audited.owned hpool hstored.held
      exact ⟨N', h.others.stored hP hstored hji hlevels.le⟩
  · intro j
    by_cases hji : j = i
    · rw [hji, Function.update_self, hhome]
      rfl
    · rw [Function.update_of_ne hji, hm.home]
  · intro j ds hds
    rw [Function.update_of_ne (hne j ds hds)]
    exact hm.apart j ds hds

/-- The cache still agrees with the files. -/
theorem Mounted.recached {size size' : Nat} (hcoherent : memc.Coherent (Cached c L fs))
    (hhome : L.home i = some path) (hold : (fs.inode i).size = size) (hlt : size < 2 ^ 31)
    (hnew : (fs'.inode i).size = size') (hlt' : size' < 2 ^ 31) (hkept : Kept c L.live i fs fs')
    (h : Recached c i (Size_In_Blocks c size) (Size_In_Blocks c size') path fs fs' memc memc') :
    memc'.Coherent (Cached c L fs') := by
  have hP := hsize.pointers
  have hlevels := hsize.levels
  have hcount : uint32 (fs.inode i).size = size := by
    rw [hold]
    exact uint32_of_lt (by omega)
  have hcount' : uint32 (fs'.inode i).size = size' := by
    rw [hnew]
    exact uint32_of_lt (by omega)
  intro key data hhit j path' m hj hm32 hkey
  subst hkey
  by_cases hji : j = i
  · subst hji
    obtain rfl := Option.some.inj (hhome.symm.trans hj)
    rw [hcount']
    by_cases hlevel : m < level_start c 4
    · rcases h.own m data hlevel hhit with ⟨hin, hdata⟩ | ⟨hbefore, hstays⟩
      · exact ⟨hlevel, hin, hdata⟩
      · obtain ⟨-, hin, hdata⟩ := hcoherent _ data hbefore j path m hj hm32 rfl
        rw [hcount] at hin
        obtain ⟨hin', hat, hcontent⟩ := hstays hin
        exact ⟨hlevel, hin', by rw [hat, hcontent, hdata]⟩
    · have hbefore := h.foreign _ data (fun m' hm' heq => hlevel
        (generate_key_inj hm32 (hm'.trans hlevels) heq ▸ hm')) hhit
      exact absurd (hcoherent _ data hbefore j path m hj hm32 rfl).1 hlevel
  · have hbefore := h.foreign _ data (fun m' _ heq => hji
      (L.home_inj j i path (generate_key_path heq ▸ hj) hhome)) hhit
    obtain ⟨hlevel, hin, hdata⟩ := hcoherent _ data hbefore j path' m hj hm32 rfl
    obtain ⟨bytes', hbytes⟩ : ∃ bytes', files j = some bytes' := by
      rw [← Option.isSome_iff_exists, hm.home, hj]
      rfl
    obtain ⟨N', hstored⟩ := hm.file j bytes' hbytes
    rw [hkept.inode j hji]
    rw [hstored.uint32_size] at hin ⊢
    obtain ⟨hleaf, -⟩ := leaf_of_spec hP hlevel
    have hne := (hstored.full.filled.block_at hP hlevel).mpr (hin.trans_le hstored.enough)
    have hcontent : fs'.block (block_at c fs j m) = fs.block (block_at c fs j m) :=
      hkept.content j _ _ hstored.held hji hleaf hne
    refine ⟨hlevel, hin, ?_⟩
    rw [hkept.block_at hP hstored.held hji hlevel, hcontent]
    exact hdata

end Updating

theorem Confined.refl (s : Server) : Confined c L path s s := ⟨.refl _, fun _ _ _ hhit => hhit⟩

section Serving

variable (hsize : Ext2_size c) (h : Serving c L s files)
include hsize h

/-- A path leads to its file or to nothing. -/
theorem Serving.resolved (hpath : L.Addressed path) :
    (∃ i bytes N, L.locate path = some i ∧ L.home i = some path ∧ files i = some bytes ∧
      Stored c L.live i N bytes s.file ∧
      inode_of_file c path ⟨s.file, none⟩ = .ok (some i, ⟨s.file, none⟩)) ∨
    L.locate path = none ∧
      inode_of_file c path ⟨s.file, none⟩ = .ok (none, ⟨s.file, some .ENOENT⟩) := by
  obtain ⟨names, hne, hnames, rfl, hpass, hhome⟩ := hpath
  have hresolve := h.mounted.inode_of_file (w := ⟨s.file, none⟩) hsize hnames hpass
  rw [Layout.locate, components_canonical hne hnames]
  cases hlookup : L.lookup ROOT_INODE_NUMBER names with
  | none =>
    rw [hlookup] at hresolve
    exact Or.inr ⟨rfl, hresolve⟩
  | some i =>
    rw [hlookup] at hresolve
    have hi := hhome i hlookup
    obtain ⟨bytes, hbytes⟩ : ∃ bytes, files i = some bytes := by
      rw [← Option.isSome_iff_exists, h.mounted.home, hi]
      rfl
    obtain ⟨N, hstored⟩ := h.mounted.file i bytes hbytes
    exact Or.inl ⟨i, bytes, N, rfl, hi, hbytes, hstored, hresolve⟩

theorem serve_write {params : Write_params} (hadm : Admitted c L s (.write params)) :
    ∃ s', serve c s (.write params) = .ok (s', (answer c L files (.write params)).2) ∧
      Serving c L s' (answer c L files (.write params)).1 ∧ Confined c L params.path s s' := by
  by_cases hshort : params.path.length ≤ 40
  · obtain ⟨hpath, hpos, hreach, hneeds⟩ := hadm hshort
    rcases h.resolved hsize hpath with
      ⟨i, bytes, N, hlocate, hhome, hbytes, hstored, hresolve⟩ | ⟨hlocate, hresolve⟩
    · obtain ⟨hroom, htrim⟩ := hneeds i bytes.length N hlocate hstored.size hstored.full
      have hgap : Trimmed c i bytes.length s.file ∨ params.offset.toNat ≤ bytes.length := by
        by_cases hlt : bytes.length < params.offset.toNat
        · exact Or.inl (htrim hlt)
        · exact Or.inr (Nat.not_lt.mp hlt)
      obtain ⟨w', memc', hwrite, herr, hupdated, -, -, hcache⟩ := write_file_updated
        (w := ⟨s.file, none⟩) params s.memc hsize h.mounted.audited hstored rfl rfl hpos hreach
          hroom
      have hlen := hupdated.stored.size
      have hfits := hupdated.stored.fits
      have hwritten : written c params.offset.toNat params.bytes_to_write.toNat ≤
          params.write_buffer.length := written_le.trans params.whole.ge
      rw [length_overwrite, List.length_take, Nat.min_eq_left hwritten] at hlen hfits
      refine ⟨⟨w'.file, memc'⟩, ?_, ?_, hupdated.others.same,
        fun key data hkey => (hcache hgap).foreign key data fun m _ => hkey i m hhome⟩
      · simp only [serve, if_pos hshort, hresolve, ok_bind, hwrite, answer, hlocate, herr]
        rfl
      · simp only [answer, if_pos hshort, hlocate, hbytes, Option.getD_some]
        exact ⟨h.mounted.updated hsize hupdated hhome, h.mounted.recached hsize h.coherent hhome
          hstored.size hstored.fits hlen hfits hupdated.others (hcache hgap)⟩
    · refine ⟨s, ?_, ?_, .refl s⟩
      · simp only [serve, if_pos hshort, hresolve, ok_bind, answer, hlocate]
        rfl
      · simp only [answer, if_pos hshort, hlocate]
        exact h
  · refine ⟨s, ?_, ?_, .refl s⟩
    · simp only [serve, if_neg hshort, answer]
      rfl
    · simp only [answer, if_neg hshort]
      exact h

theorem serve_truncate {params : Truncate_params} (hadm : Admitted c L s (.truncate params)) :
    ∃ s', serve c s (.truncate params) = .ok (s', (answer c L files (.truncate params)).2) ∧
      Serving c L s' (answer c L files (.truncate params)).1 ∧ Confined c L params.path s s' := by
  by_cases hshort : params.path.length ≤ 40
  · obtain ⟨hpath, hlt, hneeds⟩ := hadm hshort
    rcases h.resolved hsize hpath with
      ⟨i, bytes, N, hlocate, hhome, hbytes, hstored, hresolve⟩ | ⟨hlocate, hresolve⟩
    · obtain ⟨hroom, hshrink, hcovered⟩ := hneeds i bytes.length N hlocate hstored.size hstored.full
      obtain ⟨w', memc', htruncate, herr, hkept, hacc, hiff, -, hcache⟩ := truncate_file_updated
        (w := ⟨s.file, none⟩) params s.memc hsize h.mounted.audited hstored rfl hlt rfl hroom
          hshrink
      have hstored' := hiff.mpr hcovered
      have hlen := hstored'.size
      rw [length_resize] at hlen
      refine ⟨⟨w'.file, memc'⟩, ?_, ?_, hkept.same,
        fun key data hkey => hcache.foreign key data fun m _ => hkey i m hhome⟩
      · simp only [serve, if_pos hshort, hresolve, ok_bind, htruncate, answer, hlocate, herr]
        rfl
      · simp only [answer, if_pos hshort, hlocate, hbytes, Option.getD_some]
        exact ⟨h.mounted.updated hsize ⟨hstored', hkept, hacc⟩ hhome, h.mounted.recached hsize
          h.coherent hhome hstored.size hstored.fits hlen hlt hkept hcache⟩
    · refine ⟨s, ?_, ?_, .refl s⟩
      · simp only [serve, if_pos hshort, hresolve, ok_bind, answer, hlocate]
        rfl
      · simp only [answer, if_pos hshort, hlocate]
        exact h
  · refine ⟨s, ?_, ?_, .refl s⟩
    · simp only [serve, if_neg hshort, answer]
      rfl
    · simp only [answer, if_neg hshort]
      exact h

/-- The blocks that the cache has for the file are in its list of blocks. -/
theorem Serving.backed (hstored : Stored c L.live i N bytes s.file) (hhome : L.home i = some path) :
    Backed c s.file path ((Inode_Get_Data_Adressess c s.file (s.file.inode i)
      (uint32 (s.file.inode i).size)).getD []) s.memc := by
  have hpool := h.mounted.audited.pool
  have hown := h.mounted.audited.owned
  have hlevels := filled_lt_levels hstored.full.filled hsize hown hpool hstored.held
  intro m data hm32 hhit
  obtain ⟨-, hin, hdata⟩ := h.coherent _ data hhit i path m hhome hm32 rfl
  rw [hstored.uint32_size] at hin ⊢
  refine ⟨_, hstored.full.address hsize.pointers hlevels.le rfl hstored.enough hin, ?_⟩
  rw [slot_block_at hsize.pointers hown hpool hstored.held hlevels.le hstored.full
    (hin.trans_le hstored.enough)]
  exact hdata

theorem serve_read {params : Read_params} (hadm : Admitted c L s (.read params)) :
    ∃ s', serve c s (.read params) = .ok (s', (answer c L files (.read params)).2) ∧
      Serving c L s' (answer c L files (.read params)).1 ∧ Confined c L params.path s s' := by
  have hpool := h.mounted.audited.pool
  have hown := h.mounted.audited.owned
  by_cases hshort : params.path.length ≤ 40
  · obtain ⟨hpath, hneeds⟩ := hadm hshort
    rcases h.resolved hsize hpath with
      ⟨i, bytes, N, hlocate, hhome, hbytes, hstored, hresolve⟩ | ⟨hlocate, hresolve⟩
    · have hin := hneeds i hlocate
      rw [hstored.size, Int.ofNat_lt] at hin
      have hlevels := filled_lt_levels hstored.full.filled hsize hown hpool hstored.held
      obtain ⟨r, hread, hcount, hdata, herr, hrefilled, hlog⟩ := read_file_stored
        hsize hown hpool hstored params rfl rfl hin rfl (h.backed hsize hstored hhome)
      refine ⟨⟨s.file, r.memc⟩, ?_, ?_, .refl _, ?_⟩
      · simp only [serve, if_pos hshort, hresolve, ok_bind, Option.map_some, hread, answer, hlocate,
          hbytes, Option.getD_some, hcount, hdata, herr]
        rfl
      · simp only [answer, if_pos hshort, hlocate]
        refine ⟨h.mounted, ?_⟩
        intro key data hhit j path m hj hm32 hkey
        rcases hrefilled key data hhit with hold | ⟨m', hm', b, hset, hb, hblock⟩
        · exact h.coherent key data hold j path m hj hm32 hkey
        · have hm' := hlog m' hm'
          rw [hset] at hkey
          obtain rfl := generate_key_path hkey
          obtain rfl := L.home_inj i j _ hhome hj
          have hall := hsize.levels
          have := hstored.enough
          obtain rfl : m' = m := generate_key_inj (by omega) hm32 hkey
          rw [hstored.uint32_size] at hb ⊢
          rw [hstored.full.address hsize.pointers hlevels.le rfl hstored.enough hm'] at hb
          obtain rfl := Option.some.inj hb
          refine ⟨by omega, hm', ?_⟩
          rw [hblock, slot_block_at hsize.pointers hown hpool hstored.held hlevels.le hstored.full
            (hm'.trans_le hstored.enough)]
      · intro key data hkey hhit
        rcases hrefilled key data hhit with hold | ⟨m', -, b, hset, -⟩
        · exact hold
        · exact absurd hset (hkey i m' hhome)
    · refine ⟨s, ?_, ?_, .refl s⟩
      · simp only [serve, if_pos hshort, hresolve, ok_bind, Option.map_none, read_file, answer,
          hlocate]
        rfl
      · simp only [answer, if_pos hshort, hlocate]
        exact h
  · refine ⟨s, ?_, ?_, .refl s⟩
    · simp only [serve, if_neg hshort, answer]
      rfl
    · simp only [answer, if_neg hshort]
      exact h

/-- Every request that is admitted is served as the map answers it. -/
theorem serve_answer (hadm : Admitted c L s req) :
    ∃ s', serve c s req = .ok (s', (answer c L files req).2) ∧
      Serving c L s' (answer c L files req).1 ∧ Confined c L req.path s s' := by
  cases req with
  | write params => exact serve_write hsize h hadm
  | truncate params => exact serve_truncate hsize h hadm
  | read params => exact serve_read hsize h hadm
  | drop key =>
    exact ⟨⟨s.file, s.memc.delete key⟩, rfl, ⟨h.mounted, h.coherent.drop key⟩, .refl _,
      fun _ _ _ hhit => (Cache.hit_of_delete hhit).2⟩

end Serving

/-- A request and the reply to it, as a step of the server and as one of the map. -/
def Served (c : Superblock_constants) (s : Server) (e : File_request × File_reply) (s' : Server) :
    Prop :=
  serve c s e.1 = .ok (s', e.2)

def Answered (c : Superblock_constants) (L : Layout) (files : Nat → Option (List UInt8))
    (e : File_request × File_reply) (files' : Nat → Option (List UInt8)) : Prop :=
  answer c L files e.1 = (files', e.2)

theorem served_simulated (hsize : Ext2_size c) : Simulated (Serving c L)
    (Guarded (fun s e => Admitted c L s e.1) (Served c)) (Answered c L) := by
  rintro s e s' files h ⟨hadm, hserved⟩
  obtain ⟨s₁, hserve, h₁, -⟩ := serve_answer hsize h hadm
  obtain ⟨rfl, hreply⟩ := Prod.mk.inj (Except.ok.inj (hserve.symm.trans hserved))
  exact ⟨_, Prod.ext rfl hreply, h₁⟩

/-- A run of requests that are admitted is one of the map from files to bytes, with the same
replies; what it comes to still has an image and a cache that agree with the map, and serves
whatever is admitted there. -/
theorem file_store_refines {xs : List (File_request × File_reply)} (hsize : Ext2_size c)
    (h : Serving c L s files)
    (hrun : Trace (Guarded (fun s e => Admitted c L s e.1) (Served c)) s xs s') :
    ∃ files', Trace (Answered c L) files xs files' ∧ Serving c L s' files' ∧
      ∀ req, Admitted c L s' req → ∃ s₁ reply, Served c s' (req, reply) s₁ := by
  obtain ⟨files', htrace, hserving⟩ := (served_simulated hsize).trace hrun h
  refine ⟨files', htrace, hserving, ?_⟩
  intro req hadm
  obtain ⟨s₁, hserve, -⟩ := serve_answer hsize hserving hadm
  exact ⟨s₁, _, hserve⟩

/-- The file `a` of three bytes in the root. -/
def one_file : Image :=
  { small_file with
    inode := fun n => if n = 2 then one_block_inode (one_group 0 smallest_block_pos) 3
      else if n = 5 then ⟨EXT2_IFREG, 3, 1, 2, fun k => if k = 0 then 4 else 0, 0, 0, 0⟩
      else empty_inode
    block := fun b => if b = 3 then small_block 2 ⟨5, 1000, 1, 1, [97]⟩ else fun _ => 7 }

def one_name : Layout where
  live := fun i => i = 2 ∨ i = 5
  reserved := fun b => b = 1 ∨ b = 2
  directory := fun i => if i = 2 then some [(3, small_directory 2 ⟨5, 1000, 1, 1, [97]⟩)] else none
  home := fun i => if i = 5 then some (canonical [[97]]) else none
  home_inj := by
    intro i j path hi hj
    split_ifs at hi hj with h5 h5'
    exact h5.trans h5'.symm

def three_sevens (i : Nat) : Option (List UInt8) := if i = 5 then some [7, 7, 7] else none

theorem one_file_audited : Audited (one_group 0 smallest_block_pos) one_name.live
    one_name.reserved one_file := by
  have hpool : Pool (one_group 0 smallest_block_pos) one_file := small_file_pool.congr rfl rfl rfl
  have hall : ∀ i, one_name.live i → i < 6 := by
    rintro i (rfl | rfl) <;> decide
  refine audited_direct hpool ?_ ?_ ?_ ?_
  · rintro i (rfl | rfl)
    all_goals
      intro s hs hs'
      obtain rfl | rfl | rfl : s = 12 ∨ s = 13 ∨ s = 14 := by omega
      all_goals rfl
  · rintro i j (rfl | rfl) (rfl | rfl)
    · have hself : ∀ s < 12, ∀ t < 12, pointer (one_file.inode 2) s ≠ 0 →
        pointer (one_file.inode 2) s = pointer (one_file.inode 2) t → s = t := by decide
      exact fun s hs t ht hne heq => ⟨rfl, hself s hs t ht hne heq⟩
    · have hother : ∀ s < 12, ∀ t < 12, pointer (one_file.inode 2) s ≠ 0 →
        pointer (one_file.inode 2) s ≠ pointer (one_file.inode 5) t := by decide
      exact fun s hs t ht hne heq => absurd heq (hother s hs t ht hne)
    · have hother : ∀ s < 12, ∀ t < 12, pointer (one_file.inode 5) s ≠ 0 →
        pointer (one_file.inode 5) s ≠ pointer (one_file.inode 2) t := by decide
      exact fun s hs t ht hne heq => absurd heq (hother s hs t ht hne)
    · have hself : ∀ s < 12, ∀ t < 12, pointer (one_file.inode 5) s ≠ 0 →
        pointer (one_file.inode 5) s = pointer (one_file.inode 5) t → s = t := by decide
      exact fun s hs t ht hne heq => ⟨rfl, hself s hs t ht hne heq⟩
  · rintro i (rfl | rfl)
    · have hblock : ∀ s < 12, pointer (one_file.inode 2) s ≠ 0 →
        IsBlock (one_group 0 smallest_block_pos) (pointer (one_file.inode 2) s) ∧
          ¬ (pointer (one_file.inode 2) s = 1 ∨ pointer (one_file.inode 2) s = 2) := by decide
      exact hblock
    · have hblock : ∀ s < 12, pointer (one_file.inode 5) s ≠ 0 →
        IsBlock (one_group 0 smallest_block_pos) (pointer (one_file.inode 5) s) ∧
          ¬ (pointer (one_file.inode 5) s = 1 ∨ pointer (one_file.inode 5) s = 2) := by decide
      exact hblock
  · intro b hb
    have hused : ∀ b < 9, 1 ≤ b → (used (one_group 0 smallest_block_pos) one_file b = true ↔
      (b = 1 ∨ b = 2) ∨ (∃ s < 12, pointer (one_file.inode 2) s = b) ∨
        ∃ s < 12, pointer (one_file.inode 5) s = b) := by decide
    rw [hused b (Nat.lt_succ_of_le hb.2) hb.1]
    refine or_congr_right ⟨?_, ?_⟩
    · rintro (h | h)
      · exact ⟨2, Or.inl rfl, h⟩
      · exact ⟨5, Or.inr rfl, h⟩
    · rintro ⟨i, rfl | rfl, h⟩
      · exact Or.inl h
      · exact Or.inr h

theorem one_file_serving : Serving (one_group 0 smallest_block_pos) one_name
    ⟨one_file, Cache.empty⟩ three_sevens := by
  have hsound : ∀ e ∈ small_directory 2 ⟨5, 1000, 1, 1, [97]⟩,
      e.entry_len % 4 = 0 ∧ get_padded_size e ≤ e.entry_len := by decide
  have hchain : Chain (flat (one_group 0 smallest_block_pos) one_file) 4096 3072
    (small_directory 2 ⟨5, 1000, 1, 1, [97]⟩) := ⟨rfl, rfl, rfl, rfl⟩
  have hdirect : ∀ s, 12 ≤ s → s < 15 → pointer (one_file.inode 5) s = 0 := by
    intro s hs hs'
    obtain rfl | rfl | rfl : s = 12 ∨ s = 13 ∨ s = 14 := by omega
    all_goals rfl
  refine ⟨⟨one_file_audited, ?_, ?_, ?_, ?_⟩, Cache.coherent_empty⟩
  · intro j ds hds
    simp only [one_name] at hds
    split_ifs at hds with h2
    obtain rfl := Option.some.inj hds
    subst h2
    exact ⟨one_block_directory_of (b := 3) rfl (Or.inl rfl) one_file_audited.owned (Or.inl rfl)
      ⟨by decide, by decide⟩ hchain (fun e he => ⟨(hsound e he).1, (hsound e he).2⟩) (by decide),
      by decide⟩
  · intro i bytes hi
    simp only [three_sevens] at hi
    split_ifs at hi with h5
    obtain rfl := Option.some.inj hi
    subst h5
    refine ⟨1, Or.inr rfl, by decide, rfl, by decide, ?_, by decide, by decide, ?_⟩
    · exact full_of_tidy (by decide) (filled_direct (by decide) hdirect (by decide) (by decide))
        (tidy_direct hdirect)
    · intro k hlo hhi
      have hone : Size_In_Blocks (one_group 0 smallest_block_pos) [(7 : UInt8), 7, 7].length = 1 :=
        by
        decide
      omega
  · intro i
    simp only [three_sevens, one_name]
    split_ifs <;> rfl
  · intro i ds hds
    simp only [one_name] at hds
    split_ifs at hds with h2
    subst h2
    rfl

/-- Two bytes written at the end of `/a`. -/
def two_at_the_end : File_request := .write ⟨canonical [[97]], 2, 2, [1, 2], rfl⟩

theorem two_at_the_end_admitted : Admitted (one_group 0 smallest_block_pos) one_name
    ⟨one_file, Cache.empty⟩ two_at_the_end := by
  intro _
  have hpass : one_name.Passable ROOT_INODE_NUMBER [[97]] := ⟨_, rfl, fun _ _ => trivial⟩
  have hlookup : one_name.lookup ROOT_INODE_NUMBER [[97]] = some 5 := by decide
  refine ⟨⟨[[97]], by decide, ?_, rfl, hpass, ?_⟩, by decide, by decide, ?_⟩
  · intro name hname
    rw [List.mem_singleton.mp hname]
    exact ⟨by decide, by decide⟩
  · intro i hi
    obtain rfl := Option.some.inj (hlookup.symm.trans hi)
    rfl
  · intro i size N hi hlen _
    have hlocate : one_name.locate (canonical [[97]]) = some 5 := by decide
    obtain rfl := Option.some.inj (hlocate.symm.trans hi)
    obtain rfl : 3 = size := Int.ofNat.inj hlen
    exact ⟨fun h => absurd rfl h, fun h => absurd h (by decide)⟩

theorem two_at_the_end_written : ∃ s' files',
    Trace (Answered (one_group 0 smallest_block_pos) one_name) three_sevens
        [(two_at_the_end,
          (answer (one_group 0 smallest_block_pos) one_name three_sevens two_at_the_end).2)] files' ∧
      Serving (one_group 0 smallest_block_pos) one_name s' files' ∧
      ∀ req, Admitted (one_group 0 smallest_block_pos) one_name s' req →
        ∃ s₁ reply, Served (one_group 0 smallest_block_pos) s' (req, reply) s₁ := by
  obtain ⟨s', hserve, -⟩ := serve_answer (Or.inl rfl) one_file_serving two_at_the_end_admitted
  obtain ⟨files', h⟩ := file_store_refines (Or.inl rfl) one_file_serving
    (Trace.single (a := (two_at_the_end, _)) ⟨two_at_the_end_admitted, hserve⟩)
  exact ⟨s', files', h⟩

end LaLiga.Rfs
