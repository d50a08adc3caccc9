import LaLiga.Rfs.CreateFile
import LaLiga.Rfs.FileStore

/-! Files created, deleted, written, truncated and read by their paths, one request after the
other, against a map from paths to bytes. The directories stay. -/
namespace LaLiga.Rfs

open LaLiga.Lib

/-- The directories of a tree, by the names that lead to each, with their inodes. -/
structure Folders where
  inode : List Path → Option Nat
  root : inode [] = some ROOT_INODE_NUMBER
  parent : ∀ names name, (inode (names ++ [name])).isSome → (inode names).isSome
  inj : ∀ names names' i, inode names = some i → inode names' = some i → names = names'
  names : ∀ names i, inode names = some i → ∀ name ∈ names, Component name

/-- `name` is not the name of a directory, and `.` and `..` are not in paths. -/
structure Folders.Below (F : Folders) (names : List Path) (p : Nat) (name : Path) : Prop where
  folder : F.inode names = some p
  component : Component name
  file : F.inode (names ++ [name]) = none
  dot : name ≠ [46]
  dotdot : name ≠ [46, 46]

/-- A path of a file in one of the directories, there or not. -/
def Folders.File_path (F : Folders) (path : Path) : Prop :=
  ∃ names p name, F.Below names p name ∧ path = canonical (names ++ [name])

inductive Path_request
  | create (path : Path) (mode : Nat)
  | open_file (path : Path)
  | delete (path : Path)
  | file (req : File_request)

inductive Path_reply
  | name_too_long
  | create (data : Nat) (error : Option Errno)
  | open_file (data : Nat) (error : Option Errno)
  | delete (data : Nat) (error : Option Errno)
  | file (reply : File_reply)

/-- Whatever there is by that path will do. -/
def open_file (c : Superblock_constants) (path : Path) (w : Worker_state) :
    Except Crash (Nat × Worker_state) := do
  let (found, w) ← inode_of_file c path w
  pure (if found.isSome then 0 else 1, w)

/-- The turn of a `worker`. -/
def serve_path (c : Superblock_constants) (s : Server) :
    Path_request → Except Crash (Server × Path_reply)
  | .create path mode =>
    if path.length ≤ 40 then do
      let (data, w) ← create_file_dir c ⟨path, mode, true⟩ ⟨s.file, none⟩
      pure (⟨w.file, s.memc⟩, .create data w.errno)
    else pure (s, .name_too_long)
  | .open_file path =>
    if path.length ≤ 40 then do
      let (data, w) ← open_file c path ⟨s.file, none⟩
      pure (⟨w.file, s.memc⟩, .open_file data w.errno)
    else pure (s, .name_too_long)
  | .delete path =>
    if path.length ≤ 40 then do
      let r ← delete_file c path s.memc ⟨s.file, none⟩
      pure (⟨r.worker.file, r.memc⟩, .delete r.data r.worker.errno)
    else pure (s, .name_too_long)
  | .file req => do
    let (s, reply) ← serve c s req
    pure (s, .file reply)

/-- The same on the map from paths to bytes. -/
def reply_path (c : Superblock_constants) (files : Path → Option (List UInt8)) :
    Path_request → (Path → Option (List UInt8)) × Path_reply
  | .create path _ =>
    if path.length ≤ 40 then
      match files path with
      | none => (Function.update files path (some []), .create 0 none)
      | some _ => (files, .create 1 (some .EEXIST))
    else (files, .name_too_long)
  | .open_file path =>
    if path.length ≤ 40 then
      match files path with
      | none => (files, .open_file 1 (some .ENOENT))
      | some _ => (files, .open_file 0 none)
    else (files, .name_too_long)
  | .delete path =>
    if path.length ≤ 40 then
      match files path with
      | none => (files, .delete 1 (some .ENOENT))
      | some _ => (Function.update files path none, .delete 0 none)
    else (files, .name_too_long)
  | .file (.write params) =>
    if params.path.length ≤ 40 then
      match files params.path with
      | none => (files, .file (.write none (some .ENOENT)))
      | some bytes =>
        let n := written c params.offset.toNat params.bytes_to_write.toNat
        (Function.update files params.path (some (overwrite 0 bytes params.offset.toNat
          (params.write_buffer.take n))), .file (.write (some n) none))
    else (files, .file .name_too_long)
  | .file (.truncate params) =>
    if params.path.length ≤ 40 then
      match files params.path with
      | none => (files, .file (.truncate 1 (some .ENOENT)))
      | some bytes => (Function.update files params.path
          (some (resize 0 bytes (params.size.toNat % 2 ^ 32))), .file (.truncate 0 none))
    else (files, .file .name_too_long)
  | .file (.read params) =>
    if params.path.length ≤ 40 then
      match files params.path with
      | none => (files, .file (.read 0 none (some .ENOENT)))
      | some bytes =>
        let offset := params.offset.toNat
        let n := params.bytes_to_read.toNat
        (files, .file
          (.read (min n (bytes.length - offset)) (some (fetched c bytes offset n)) none))
    else (files, .file .name_too_long)
  | .file (.drop _) => (files, .file .nothing)

/-- The path is found to lead to the inode. -/
def Found (c : Superblock_constants) (fs : Image) (path : Path) (i : Nat) : Prop :=
  ∃ w, inode_of_file c path ⟨fs, none⟩ = .ok (some i, w)

/-- The directory that the path is in, when it is a well formed one, is `P` for its name. -/
def In_parent (c : Superblock_constants) (F : Folders) (fs : Image) (path : Path)
    (P : Path → List (Nat × List entry_t) → Prop) : Prop :=
  ∀ names p name live ds, F.Below names p name → path = canonical (names ++ [name]) →
    Directory c live p ds fs → P name ds

/-- What a request needs of the image. A new file needs an inode and room for its name, one that
is deleted an entry that can be taken out and no blocks behind those of its size, and the others
need what `Admitted` says. -/
def Fitting (c : Superblock_constants) (F : Folders) (s : Server) : Path_request → Prop
  | .create path mode =>
    path.length ≤ 40 → F.File_path path ∧ ((∀ i, ¬ Found c s.file path i) →
      mode &&& EXT2_IFDIR = 0 ∧ s.file.TOTAL_UNALLOCATED_INODES ≠ 0 ∧
        In_parent c F s.file path Roomy)
  | .open_file path => path.length ≤ 40 → F.File_path path
  | .delete path =>
    path.length ≤ 40 → F.File_path path ∧ ∀ i, Found c s.file path i →
      (∀ size N, (s.file.inode i).size = (size : Nat) → Full c s.file i N 0 →
        N = Size_In_Blocks c size) ∧
      In_parent c F s.file path (fun name ds => Deletable c name (flat c s.file) ds)
  | .file (.write params) =>
    let reached := params.offset.toNat + params.bytes_to_write.toNat
    params.path.length ≤ 40 → F.File_path params.path ∧ 0 < params.bytes_to_write.toNat ∧
      reached < 2 ^ 31 ∧ ∀ i size N, Found c s.file params.path i →
        (s.file.inode i).size = (size : Nat) → Full c s.file i N 0 →
        Room c N (asked c size reached) ⟨s.file, none⟩ ∧
          (size < params.offset.toNat → Trimmed c i size s.file)
  | .file (.truncate params) =>
    let new_size := params.size.toNat % 2 ^ 32
    params.path.length ≤ 40 → F.File_path params.path ∧ new_size < 2 ^ 31 ∧
      ∀ i size N, Found c s.file params.path i → (s.file.inode i).size = (size : Nat) →
        Full c s.file i N 0 →
        Room c N (Size_In_Blocks c new_size - Size_In_Blocks c size) ⟨s.file, none⟩ ∧
          (Size_In_Blocks c new_size < Size_In_Blocks c size → N = Size_In_Blocks c size) ∧
          ¬ Uncovered c i size new_size s.file
  | .file (.read params) =>
    params.path.length ≤ 40 → F.File_path params.path ∧
      ∀ i, Found c s.file params.path i → (params.offset.toNat : Int) < (s.file.inode i).size
  | .file (.drop _) => True

/-- The image has the directories and, in them, the files with their bytes: the layout `L` says
in which inodes. Whatever the cache has for the path of a file is of a file that there is. -/
structure Rooted (c : Superblock_constants) (F : Folders) (L : Layout)
    (stored : Nat → Option (List UInt8)) (s : Server) (files : Path → Option (List UInt8)) :
    Prop where
  serving : Serving c L s stored
  accounted : Accounted c s.file
  allocated : ∀ i, L.live i → ∃ g < c.TOTAL_GROUPS, ∃ k < c.INODES_PER_GROUP,
    i = inode_number c g k ∧ inode_bit s.file g k = true
  folder : ∀ names p, F.inode names = some p → ∃ ds, L.directory p = some ds
  subfolder : ∀ names name p i ds, F.inode names = some p → F.inode (names ++ [name]) = some i →
    L.directory p = some ds → ∃ e ∈ listing ds, e.file_name = name ∧ e.inode_number = i
  named : ∀ p ds, L.directory p = some ds → ∀ e ∈ listing ds, e.file_name ≠ []
  home_iff : ∀ names p name ds i, F.Below names p name → L.directory p = some ds →
    (L.home i = some (canonical (names ++ [name])) ↔
      ∃ e ∈ listing ds, e.file_name = name ∧ e.inode_number = i)
  home_path : ∀ i path, L.home i = some path → F.File_path path
  plain : ∀ i path, L.home i = some path → (s.file.inode i).mode &&& EXT2_IFDIR = 0
  bytes : ∀ i path, L.home i = some path → files path = stored i
  missing : ∀ path, (∀ i, L.home i ≠ some path) → files path = none
  forgotten : ∀ path m, F.File_path path → (∀ i, L.home i ≠ some path) → m < 2 ^ 32 →
    s.memc (generate_key path m) = none

variable {c : Superblock_constants} {F : Folders} {L : Layout} {stored : Nat → Option (List UInt8)}
  {s s' : Server} {files files' : Path → Option (List UInt8)} {names names' : List Path}
  {name path : Path} {p i j : Nat} {ds ds' : List (Nat × List entry_t)}

namespace Layout

theorem lookup_append : L.lookup i (names ++ names') =
    (L.lookup i names).bind fun j => L.lookup j names' := by
  induction names generalizing i with
  | nil => rfl
  | cons name names ih =>
    rw [List.cons_append, lookup, lookup]
    cases L.directory i with
    | none => rfl
    | some ds =>
      simp only
      cases (listing ds).find? fun e => e.file_name = name with
      | none => rfl
      | some e => exact ih

theorem passable_append (h : L.Passable i names)
    (h' : ∀ j, L.lookup i names = some j → L.Passable j names') :
    L.Passable i (names ++ names') := by
  induction names generalizing i with
  | nil => exact h' i rfl
  | cons name names ih =>
    obtain ⟨ds, hds, hrest⟩ := h
    refine ⟨ds, hds, fun e he => ih (hrest e he) fun j hj => h' j ?_⟩
    rw [lookup, hds]
    simp only [he]
    exact hj

/-- The last step of a walk, in a directory that lists each name once. -/
theorem lookup_one (hds : L.directory p = some ds)
    (hnodup : ((listing ds).map entry_t.file_name).Nodup) :
    L.lookup p [name] = some i ↔ ∃ e ∈ listing ds, e.file_name = name ∧ e.inode_number = i := by
  rw [lookup, hds]
  simp only
  cases hfind : (listing ds).find? fun e => e.file_name = name with
  | none =>
    simp only [reduceCtorEq, false_iff]
    rintro ⟨e, he, hname, -⟩
    exact List.find?_eq_none.mp hfind e he (decide_eq_true hname)
  | some e =>
    have hname : e.file_name = name := by simpa using List.find?_some hfind
    have he := List.mem_of_find?_eq_some hfind
    simp only [lookup, Option.some.injEq]
    constructor
    · rintro rfl
      exact ⟨e, he, hname, rfl⟩
    · rintro ⟨e', he', hname', rfl⟩
      rw [List.inj_on_of_nodup_map hnodup he he' (hname.trans hname'.symm)]

end Layout

theorem Folders.Below.components (hb : F.Below names p name) :
    ∀ d ∈ names ++ [name], Component d := by
  intro d hd
  rcases List.mem_append.mp hd with hd | hd
  · exact F.names names p hb.folder d hd
  · obtain rfl := List.mem_singleton.mp hd
    exact hb.component

theorem Folders.Below.path_inj {q : Nat} {name' : Path} (hb : F.Below names p name)
    (hb' : F.Below names' q name')
    (h : canonical (names ++ [name]) = canonical (names' ++ [name'])) :
    names = names' ∧ name = name' := by
  have hparts := congrArg Rfs.components h
  rw [components_canonical (by simp) hb.components,
    components_canonical (by simp) hb'.components] at hparts
  obtain ⟨hnames, hname⟩ := List.append_inj' hparts rfl
  exact ⟨hnames, (List.cons.inj hname).1⟩

/-- In the layout `L'` the directory `p` lists another inode by the name, or none, and everything
else is where it is in `L`. -/
structure Relisted (L L' : Layout) (p : Nat) (name path : Path)
    (ds ds' : List (Nat × List entry_t)) : Prop where
  directory : L'.directory = Function.update L.directory p (some ds')
  others : ∀ name', name' ≠ name → ∀ j,
    (∃ e ∈ listing ds', e.file_name = name' ∧ e.inode_number = j) ↔
      ∃ e ∈ listing ds, e.file_name = name' ∧ e.inode_number = j
  self : ∀ j, (∃ e ∈ listing ds', e.file_name = name ∧ e.inode_number = j) ↔
    L'.home j = some path
  home : ∀ j path', path' ≠ path → (L'.home j = some path' ↔ L.home j = some path')

/-- The server after a turn that has created or deleted the file at `path`: this one is empty or
gone, and no other file or directory has changed. -/
structure Refiled (c : Superblock_constants) (L L' : Layout)
    (stored stored' : Nat → Option (List UInt8)) (p : Nat) (name path : Path)
    (ds ds' : List (Nat × List entry_t)) (s s' : Server) : Prop where
  relisted : Relisted L L' p name path ds ds'
  audited : Audited c L'.live L'.reserved s'.file
  accounted : Accounted c s'.file
  allocated : ∀ i, L'.live i → ∃ g < c.TOTAL_GROUPS, ∃ k < c.INODES_PER_GROUP,
    i = inode_number c g k ∧ inode_bit s'.file g k = true
  parent : Directory c L'.live p ds' s'.file
  entries : ∀ e ∈ listing ds',
    Inode_locateGroup c e.inode_number < c.TOTAL_GROUPS ∧ e.file_name ≠ []
  directories : ∀ j es, j ≠ p → L.directory j = some es → Directory c L'.live j es s'.file
  files : ∀ j path', path' ≠ path → L.home j = some path' → stored' j = stored j ∧
    (s'.file.inode j).mode = (s.file.inode j).mode ∧
    ∀ N bytes, Stored c L.live j N bytes s.file →
      Stored c L'.live j N bytes s'.file ∧ Same_data c j N s.file s'.file
  own : ∀ j, L'.home j = some path → L.directory j = none ∧
    (s'.file.inode j).mode &&& EXT2_IFDIR = 0 ∧
    ∃ bytes N, stored' j = some bytes ∧ Stored c L'.live j N bytes s'.file
  home : ∀ j, (stored' j).isSome = (L'.home j).isSome
  cache : ∀ key data, s'.memc key = some data →
    s.memc key = some data ∧ ∀ m < 2 ^ 32, key ≠ generate_key path m

/-- Which inode has which name does not depend on the lengths of the entries. -/
theorem contents_lists {es : List entry_t} :
    (∃ e ∈ contents es, e.file_name = name ∧ e.inode_number = j) ↔
      ∃ e ∈ es, e.file_name = name ∧ e.inode_number = j := by
  constructor
  · rintro ⟨e, he, hname, hinode⟩
    obtain ⟨e', he', rfl⟩ := List.mem_map.mp he
    exact ⟨e', he', hname, hinode⟩
  · rintro ⟨e, he, hname, hinode⟩
    exact ⟨_, List.mem_map_of_mem he, hname, hinode⟩

theorem le_length_canonical (names : List Path) (name : Path) : name.length + 1 ≤
    (canonical (names ++ [name])).length := by
  rw [canonical_eq_flatMap (by simp), List.flatMap_append, List.length_append]
  simp

namespace Layout

/-- The layout with an empty file at `path`, in the inode `i`. -/
def created (L : Layout) (p i : Nat) (path : Path) (ds' : List (Nat × List entry_t))
    (hnone : ∀ j, L.home j ≠ some path) : Layout where
  live := With L.live i
  reserved := L.reserved
  directory := Function.update L.directory p (some ds')
  home := Function.update L.home i (some path)
  home_inj := by
    intro j k path' hj hk
    by_cases hji : j = i
    · by_cases hki : k = i
      · exact hji.trans hki.symm
      · rw [hji, Function.update_self] at hj
        rw [Function.update_of_ne hki] at hk
        exact absurd (hj ▸ hk) (hnone k)
    · rw [Function.update_of_ne hji] at hj
      by_cases hki : k = i
      · rw [hki, Function.update_self] at hk
        exact absurd (hk ▸ hj) (hnone j)
      · rw [Function.update_of_ne hki] at hk
        exact L.home_inj j k path' hj hk

/-- The layout without the file of the inode `i`. -/
def deleted (L : Layout) (p i : Nat) (ds' : List (Nat × List entry_t)) : Layout where
  live := Without L.live i
  reserved := L.reserved
  directory := Function.update L.directory p (some ds')
  home := Function.update L.home i none
  home_inj := by
    intro j k path' hj hk
    by_cases hji : j = i
    · rw [hji, Function.update_self] at hj
      cases hj
    · by_cases hki : k = i
      · rw [hki, Function.update_self] at hk
        cases hk
      · rw [Function.update_of_ne hji] at hj
        rw [Function.update_of_ne hki] at hk
        exact L.home_inj j k path' hj hk

theorem created_home {hnone : ∀ j, L.home j ≠ some path} :
    (L.created p i path ds' hnone).home j = some path ↔ j = i := by
  show Function.update L.home i (some path) j = some path ↔ _
  by_cases hj : j = i
  · rw [hj, Function.update_self]
    exact ⟨fun _ => rfl, fun _ => rfl⟩
  · rw [Function.update_of_ne hj]
    exact ⟨fun hhome => absurd hhome (hnone j), fun heq => absurd heq hj⟩

theorem deleted_home :
    (L.deleted p i ds').home j = some path ↔ j ≠ i ∧ L.home j = some path := by
  show Function.update L.home i none j = some path ↔ _
  by_cases hj : j = i
  · rw [hj, Function.update_self]
    exact ⟨fun heq => (Option.some_ne_none _ heq.symm).elim, fun hhome => absurd rfl hhome.1⟩
  · rw [Function.update_of_ne hj]
    exact ⟨fun hhome => ⟨hj, hhome⟩, fun hhome => hhome.2⟩

end Layout

namespace Rooted

section Walking

variable (h : Rooted c F L stored s files)
include h

theorem names_nodup (hds : L.directory p = some ds) : ((listing ds).map entry_t.file_name).Nodup :=
  (h.serving.mounted.directory p ds hds).1.names

/-- The walk along the names of a directory. -/
theorem walk (hp : F.inode names = some p) :
    L.lookup ROOT_INODE_NUMBER names = some p ∧ L.Passable ROOT_INODE_NUMBER names := by
  induction names using List.reverseRecOn generalizing p with
  | nil =>
    rw [F.root] at hp
    obtain rfl := Option.some.inj hp
    exact ⟨rfl, trivial⟩
  | append_singleton names name ih =>
    obtain ⟨q, hq⟩ := Option.isSome_iff_exists.mp (F.parent names name (by rw [hp]; rfl))
    obtain ⟨hlookup, hpass⟩ := ih hq
    obtain ⟨ds, hds⟩ := h.folder names q hq
    have hentry := h.subfolder names name q p ds hq hp hds
    constructor
    · rw [Layout.lookup_append, hlookup]
      exact (Layout.lookup_one hds (h.names_nodup hds)).mpr hentry
    · refine Layout.passable_append hpass fun j hj => ?_
      obtain rfl := Option.some.inj (hlookup.symm.trans hj)
      exact ⟨ds, hds, fun _ _ => trivial⟩

variable (hb : F.Below names p name)
include hb

theorem passable : L.Passable ROOT_INODE_NUMBER (names ++ [name]) := by
  obtain ⟨hlookup, hpass⟩ := h.walk hb.folder
  obtain ⟨ds, hds⟩ := h.folder names p hb.folder
  refine Layout.passable_append hpass fun j hj => ?_
  obtain rfl := Option.some.inj (hlookup.symm.trans hj)
  exact ⟨ds, hds, fun _ _ => trivial⟩

theorem lookup_iff : L.lookup ROOT_INODE_NUMBER (names ++ [name]) = some i ↔
    L.home i = some (canonical (names ++ [name])) := by
  obtain ⟨ds, hds⟩ := h.folder names p hb.folder
  rw [h.home_iff names p name ds i hb hds, Layout.lookup_append, (h.walk hb.folder).1]
  exact Layout.lookup_one hds (h.names_nodup hds)

theorem locate_iff : L.locate (canonical (names ++ [name])) = some i ↔
    L.home i = some (canonical (names ++ [name])) := by
  rw [Layout.locate, components_canonical (by simp) hb.components]
  exact h.lookup_iff hb

theorem addressed : L.Addressed (canonical (names ++ [name])) :=
  ⟨names ++ [name], by simp, hb.components, rfl, h.passable hb,
    fun _ hi => (h.lookup_iff hb).mp hi⟩

theorem found_iff (hsize : Ext2_size c) :
    Found c s.file (canonical (names ++ [name])) i ↔
      L.home i = some (canonical (names ++ [name])) := by
  have hresolve := h.serving.mounted.inode_of_file (w := ⟨s.file, none⟩) hsize
    hb.components (h.passable hb)
  rw [← h.lookup_iff hb, Found, hresolve]
  cases L.lookup ROOT_INODE_NUMBER (names ++ [name]) with
  | none =>
    simp only [reduceCtorEq, iff_false]
    rintro ⟨w, hw⟩
    cases hw
  | some j =>
    constructor
    · rintro ⟨w, hw⟩
      exact congrArg (fun r : Option Nat × Worker_state => r.1) (Except.ok.inj hw)
    · rintro hj
      obtain rfl := Option.some.inj hj
      exact ⟨_, rfl⟩

/-- A path leads to its file or to nothing. -/
theorem resolved (hsize : Ext2_size c) :
    (∃ i bytes N, L.home i = some (canonical (names ++ [name])) ∧
      files (canonical (names ++ [name])) = some bytes ∧ stored i = some bytes ∧
      Stored c L.live i N bytes s.file ∧
      inode_of_file c (canonical (names ++ [name])) ⟨s.file, none⟩ =
        .ok (some i, ⟨s.file, none⟩)) ∨
    (∀ i, L.home i ≠ some (canonical (names ++ [name]))) ∧
      files (canonical (names ++ [name])) = none ∧
      inode_of_file c (canonical (names ++ [name])) ⟨s.file, none⟩ =
        .ok (none, ⟨s.file, some .ENOENT⟩) := by
  rcases h.serving.resolved hsize (h.addressed hb) with
    ⟨i, bytes, N, -, hhome, hbytes, hstored, hresolve⟩ | ⟨hlocate, hresolve⟩
  · exact Or.inl ⟨i, bytes, N, hhome, (h.bytes i _ hhome).trans hbytes, hbytes, hstored, hresolve⟩
  · have hnone : ∀ i, L.home i ≠ some (canonical (names ++ [name])) := by
      intro i hi
      rw [(h.locate_iff hb).mpr hi] at hlocate
      cases hlocate
    exact Or.inr ⟨hnone, h.missing _ hnone, hresolve⟩

end Walking

section Turn

variable {stored' : Nat → Option (List UInt8)} {req : File_request} {bytes : List UInt8}
  (h : Rooted c F L stored s files)
include h

/-- There is a file for the path, with its bytes, or none. -/
theorem at_path (hfile : F.File_path path) :
    (∃ i bytes, L.locate path = some i ∧ L.home i = some path ∧ stored i = some bytes ∧
      files path = some bytes) ∨
    L.locate path = none ∧ (∀ i, L.home i ≠ some path) ∧ files path = none := by
  obtain ⟨names, p, name, hb, rfl⟩ := hfile
  cases hlocate : L.locate (canonical (names ++ [name])) with
  | none =>
    have hnone : ∀ i, L.home i ≠ some (canonical (names ++ [name])) := by
      intro i hi
      rw [(h.locate_iff hb).mpr hi] at hlocate
      cases hlocate
    exact Or.inr ⟨rfl, hnone, h.missing _ hnone⟩
  | some i =>
    have hi := (h.locate_iff hb).mp hlocate
    obtain ⟨bytes, hbytes⟩ : ∃ bytes, stored i = some bytes := by
      rw [← Option.isSome_iff_exists, h.serving.mounted.home, hi]
      rfl
    exact Or.inl ⟨i, bytes, rfl, hi, hbytes, (h.bytes i _ hi).trans hbytes⟩

/-- The files after a turn that leaves the tree. -/
theorem turn (hserving : Serving c L s' stored') (hconf : Confined c L path s s')
    (hbytes : ∀ i path, L.home i = some path → files' path = stored' i)
    (hmissing : ∀ path, (∀ i, L.home i ≠ some path) → files' path = none) :
    Rooted c F L stored' s' files' where
  serving := hserving
  accounted := hconf.inodes.accounted h.accounted
  allocated := by
    intro i hi
    obtain ⟨g, hg, k, hk, heq, hbit⟩ := h.allocated i hi
    refine ⟨g, hg, k, hk, heq, ?_⟩
    rw [hconf.inodes.inode_bit h.accounted.inodes hg]
    exact hbit
  folder := h.folder
  subfolder := h.subfolder
  named := h.named
  home_iff := h.home_iff
  home_path := h.home_path
  plain := by
    intro i path hi
    rw [hconf.inodes.mode]
    exact h.plain i path hi
  bytes := hbytes
  missing := hmissing
  forgotten := by
    intro path' m hfile hnone hm
    cases hhit : s'.memc (generate_key path' m) with
    | none => rfl
    | some data =>
      have hold := hconf.cache _ data (fun i m' hi heq => hnone i (by
        rw [generate_key_path heq]
        exact hi)) hhit
      rw [h.forgotten path' m hfile hnone hm] at hold
      cases hold

/-- One file has other bytes. -/
theorem turn_update (hi : L.home i = some path)
    (hserving : Serving c L s' (Function.update stored i (some bytes)))
    (hconf : Confined c L path s s') :
    Rooted c F L (Function.update stored i (some bytes)) s'
      (Function.update files path (some bytes)) := by
  refine h.turn hserving hconf ?_ ?_
  · intro j path' hj
    by_cases hji : j = i
    · subst hji
      obtain rfl := Option.some.inj (hi.symm.trans hj)
      rw [Function.update_self, Function.update_self]
    · have hne : path' ≠ path := fun heq => hji (L.home_inj j i path (heq ▸ hj) hi)
      rw [Function.update_of_ne hne, Function.update_of_ne hji]
      exact h.bytes j path' hj
  · intro path' hnone
    have hne : path' ≠ path := fun heq => hnone i (heq ▸ hi)
    rw [Function.update_of_ne hne]
    exact h.missing path' hnone

/-- What fits is admitted. -/
theorem admitted (hsize : Ext2_size c) (hfit : Fitting c F s (.file req)) : Admitted c L s req := by
  have hfound : ∀ path i, F.File_path path → L.locate path = some i → Found c s.file path i := by
    rintro path i ⟨names, p, name, hb, rfl⟩ hi
    exact (h.found_iff hb hsize).mpr ((h.locate_iff hb).mp hi)
  have haddressed : ∀ path, F.File_path path → L.Addressed path := by
    rintro path ⟨names, p, name, hb, rfl⟩
    exact h.addressed hb
  cases req with
  | write params =>
    intro hshort
    obtain ⟨hfile, hpos, hreach, hneeds⟩ := hfit hshort
    exact ⟨haddressed _ hfile, hpos, hreach, fun i size N hi => hneeds i size N
      (hfound _ i hfile hi)⟩
  | truncate params =>
    intro hshort
    obtain ⟨hfile, hnew, hneeds⟩ := hfit hshort
    exact ⟨haddressed _ hfile, hnew, fun i size N hi => hneeds i size N (hfound _ i hfile hi)⟩
  | read params =>
    intro hshort
    obtain ⟨hfile, hneeds⟩ := hfit hshort
    exact ⟨haddressed _ hfile, fun i hi => hneeds i (hfound _ i hfile hi)⟩
  | drop key => trivial

/-- The answers are the same, and so is the change of the bytes, if there is one. -/
theorem answered (hfit : Fitting c F s (.file req)) :
    (reply_path c files (.file req)).2 = .file (answer c L stored req).2 ∧
    ((answer c L stored req).1 = stored ∧ (reply_path c files (.file req)).1 = files ∨
      ∃ i bytes, L.home i = some req.path ∧
        (answer c L stored req).1 = Function.update stored i (some bytes) ∧
        (reply_path c files (.file req)).1 = Function.update files req.path (some bytes)) := by
  cases req with
  | write params =>
    by_cases hshort : params.path.length ≤ 40
    · rcases h.at_path (hfit hshort).1 with ⟨i, bytes, hi, hhome, hbytes, hfile⟩ | ⟨hi, -, hfile⟩
      · simp only [reply_path, answer, if_pos hshort, hi, hfile, hbytes, Option.getD_some]
        exact ⟨trivial, Or.inr ⟨i, _, hhome, rfl, rfl⟩⟩
      · simp only [reply_path, answer, if_pos hshort, hi, hfile]
        exact ⟨trivial, Or.inl ⟨trivial, trivial⟩⟩
    · simp only [reply_path, answer, if_neg hshort]
      exact ⟨trivial, Or.inl ⟨trivial, trivial⟩⟩
  | truncate params =>
    by_cases hshort : params.path.length ≤ 40
    · rcases h.at_path (hfit hshort).1 with ⟨i, bytes, hi, hhome, hbytes, hfile⟩ | ⟨hi, -, hfile⟩
      · simp only [reply_path, answer, if_pos hshort, hi, hfile, hbytes, Option.getD_some]
        exact ⟨trivial, Or.inr ⟨i, _, hhome, rfl, rfl⟩⟩
      · simp only [reply_path, answer, if_pos hshort, hi, hfile]
        exact ⟨trivial, Or.inl ⟨trivial, trivial⟩⟩
    · simp only [reply_path, answer, if_neg hshort]
      exact ⟨trivial, Or.inl ⟨trivial, trivial⟩⟩
  | read params =>
    by_cases hshort : params.path.length ≤ 40
    · rcases h.at_path (hfit hshort).1 with ⟨i, bytes, hi, -, hbytes, hfile⟩ | ⟨hi, -, hfile⟩
      · simp only [reply_path, answer, if_pos hshort, hi, hfile, hbytes, Option.getD_some]
        exact ⟨trivial, Or.inl ⟨trivial, trivial⟩⟩
      · simp only [reply_path, answer, if_pos hshort, hi, hfile]
        exact ⟨trivial, Or.inl ⟨trivial, trivial⟩⟩
    · simp only [reply_path, answer, if_neg hshort]
      exact ⟨trivial, Or.inl ⟨trivial, trivial⟩⟩
  | drop key => exact ⟨rfl, Or.inl ⟨rfl, rfl⟩⟩

theorem serve_file (hsize : Ext2_size c) (hfit : Fitting c F s (.file req)) :
    ∃ s' stored', serve_path c s (.file req) = .ok (s', (reply_path c files (.file req)).2) ∧
      Rooted c F L stored' s' (reply_path c files (.file req)).1 := by
  obtain ⟨s', hserve, hserving, hconf⟩ := serve_answer hsize h.serving (h.admitted hsize hfit)
  obtain ⟨hreply, hchange⟩ := h.answered hfit
  refine ⟨s', (answer c L stored req).1, ?_, ?_⟩
  · rw [serve_path, hserve, hreply]
    rfl
  · rcases hchange with ⟨hstored, hfiles⟩ | ⟨i, bytes, hi, hstored, hfiles⟩
    · rw [hstored] at hserving ⊢
      rw [hfiles]
      exact h.turn hserving hconf h.bytes h.missing
    · rw [hstored] at hserving ⊢
      rw [hfiles]
      exact h.turn_update hi hserving hconf

end Turn

section Refiling

variable {L' : Layout} {stored' : Nat → Option (List UInt8)} {v : Option (List UInt8)}
  (h : Rooted c F L stored s files) (hb : F.Below names p name)
  (hds : L.directory p = some ds)
  (hr : Refiled c L L' stored stored' p name (canonical (names ++ [name])) ds ds' s s')
include h hb hds hr

omit hb in
theorem refiled_mounted : Mounted c L' stored' s'.file := by
  have hmounted := h.serving.mounted
  have hdirectory := hr.relisted.directory
  have hfile : ∀ j bytes, stored' j = some bytes → ∃ path', L'.home j = some path' := by
    intro j bytes hj
    rw [← Option.isSome_iff_exists, ← hr.home, hj]
    rfl
  refine ⟨hr.audited, ?_, ?_, hr.home, ?_⟩
  · intro j es hes
    rw [hdirectory] at hes
    by_cases hjp : j = p
    · subst hjp
      rw [Function.update_self] at hes
      obtain rfl := Option.some.inj hes
      exact ⟨hr.parent, fun e he => (hr.entries e he).1⟩
    · rw [Function.update_of_ne hjp] at hes
      exact ⟨hr.directories j es hjp hes, (hmounted.directory j es hes).2⟩
  · intro j bytes hj
    obtain ⟨path', hpath'⟩ := hfile j bytes hj
    by_cases hself : path' = canonical (names ++ [name])
    · subst hself
      obtain ⟨-, -, bytes', N, hj', hstored⟩ := hr.own j hpath'
      obtain rfl := Option.some.inj (hj.symm.trans hj')
      exact ⟨N, hstored⟩
    · have hold := (hr.relisted.home j path' hself).mp hpath'
      obtain ⟨hsame, -, hkept⟩ := hr.files j path' hself hold
      obtain ⟨N, hstored⟩ := hmounted.file j bytes (hsame ▸ hj)
      exact ⟨N, (hkept N bytes hstored).1⟩
  · intro j es hes
    rw [← Option.not_isSome_iff_eq_none]
    intro hsome
    obtain ⟨bytes, hj⟩ := Option.isSome_iff_exists.mp hsome
    obtain ⟨path', hpath'⟩ := hfile j bytes hj
    have hold : ∃ es, L.directory j = some es := by
      rw [hdirectory] at hes
      by_cases hjp : j = p
      · exact ⟨ds, hjp ▸ hds⟩
      · exact ⟨es, by rwa [Function.update_of_ne hjp] at hes⟩
    obtain ⟨es', hes'⟩ := hold
    by_cases hself : path' = canonical (names ++ [name])
    · subst hself
      rw [(hr.own j hpath').1] at hes'
      cases hes'
    · have hhome := (hr.relisted.home j path' hself).mp hpath'
      have hnone := hmounted.apart j es' hes'
      rw [(hr.files j path' hself hhome).1] at hj
      rw [hnone] at hj
      cases hj

omit hb hds in
/-- What the cache has is of the other files, and they have not changed. -/
theorem refiled_coherent : s'.memc.Coherent (Cached c L' s'.file) := by
  intro key data hhit j path' m hj hm hkey
  obtain ⟨hold, hnot⟩ := hr.cache key data hhit
  have hself : path' ≠ canonical (names ++ [name]) := by
    rintro rfl
    exact hnot m hm hkey
  have hhome := (hr.relisted.home j path' hself).mp hj
  obtain ⟨hlevel, hin, hdata⟩ := h.serving.coherent key data hold j path' m hhome hm hkey
  obtain ⟨bytes, hbytes⟩ : ∃ bytes, stored j = some bytes := by
    rw [← Option.isSome_iff_exists, h.serving.mounted.home, hhome]
    rfl
  obtain ⟨N, hstored⟩ := h.serving.mounted.file j bytes hbytes
  obtain ⟨hstored', hsame⟩ := (hr.files j path' hself hhome).2.2 N bytes hstored
  rw [hstored.uint32_size] at hin
  obtain ⟨hat, hblock⟩ := hsame m (hin.trans_le hstored.enough)
  refine ⟨hlevel, ?_, ?_⟩
  · rw [hstored'.uint32_size]
    exact hin
  · rw [hdata, hat, hblock]

theorem refiled_home_iff {q : Nat} {name' : Path} {es : List (Nat × List entry_t)}
    (hb' : F.Below names' q name') (hes : L'.directory q = some es) :
    L'.home j = some (canonical (names' ++ [name'])) ↔
      ∃ e ∈ listing es, e.file_name = name' ∧ e.inode_number = j := by
  have hlisted := hr.relisted
  rw [hlisted.directory] at hes
  by_cases hqp : q = p
  · subst hqp
    obtain rfl := F.inj names names' q hb.folder hb'.folder
    rw [Function.update_self] at hes
    obtain rfl := Option.some.inj hes
    by_cases hname : name' = name
    · subst hname
      exact (hlisted.self j).symm
    · rw [hlisted.others name' hname, hlisted.home j _ fun heq => hname (hb'.path_inj hb heq).2,
        h.home_iff names q name' ds j hb' hds]
  · rw [Function.update_of_ne hqp] at hes
    have hne : canonical (names' ++ [name']) ≠ canonical (names ++ [name]) := by
      intro heq
      obtain ⟨rfl, -⟩ := hb'.path_inj hb heq
      exact hqp (Option.some.inj (hb'.folder.symm.trans hb.folder))
    rw [hlisted.home j _ hne, h.home_iff names' q name' es j hb' hes]

/-- The tree after one directory has got or lost one name. -/
theorem refiled (hfile : ∀ j, L'.home j = some (canonical (names ++ [name])) → v = stored' j)
    (hnone : (∀ j, L'.home j ≠ some (canonical (names ++ [name]))) → v = none) :
    Rooted c F L' stored' s' (Function.update files (canonical (names ++ [name])) v) where
  serving := ⟨h.refiled_mounted hds hr, h.refiled_coherent hr⟩
  accounted := hr.accounted
  allocated := hr.allocated
  folder := by
    intro names' q hq
    rw [hr.relisted.directory]
    by_cases hqp : q = p
    · exact ⟨ds', by rw [hqp, Function.update_self]⟩
    · rw [Function.update_of_ne hqp]
      exact h.folder names' q hq
  subfolder := by
    intro names' name' q i es hq hi hes
    rw [hr.relisted.directory] at hes
    by_cases hqp : q = p
    · subst hqp
      obtain rfl := F.inj names names' q hb.folder hq
      rw [Function.update_self] at hes
      obtain rfl := Option.some.inj hes
      have hname : name' ≠ name := by
        rintro rfl
        rw [hb.file] at hi
        cases hi
      exact (hr.relisted.others name' hname i).mpr (h.subfolder names name' q i ds hq hi hds)
    · rw [Function.update_of_ne hqp] at hes
      exact h.subfolder names' name' q i es hq hi hes
  named := by
    intro q es hes
    rw [hr.relisted.directory] at hes
    by_cases hqp : q = p
    · rw [hqp, Function.update_self] at hes
      obtain rfl := Option.some.inj hes
      exact fun e he => (hr.entries e he).2
    · rw [Function.update_of_ne hqp] at hes
      exact h.named q es hes
  home_iff := fun _ _ _ _ _ hb' hes => h.refiled_home_iff hb hds hr hb' hes
  home_path := by
    intro i path hi
    by_cases hpath : path = canonical (names ++ [name])
    · exact ⟨names, p, name, hb, hpath⟩
    · exact h.home_path i path ((hr.relisted.home i path hpath).mp hi)
  plain := by
    intro i path hi
    by_cases hpath : path = canonical (names ++ [name])
    · subst hpath
      exact (hr.own i hi).2.1
    · have hi := (hr.relisted.home i path hpath).mp hi
      rw [(hr.files i path hpath hi).2.1]
      exact h.plain i path hi
  bytes := by
    intro i path hi
    by_cases hpath : path = canonical (names ++ [name])
    · subst hpath
      rw [Function.update_self]
      exact hfile i hi
    · have hi := (hr.relisted.home i path hpath).mp hi
      rw [Function.update_of_ne hpath, (hr.files i path hpath hi).1]
      exact h.bytes i path hi
  missing := by
    intro path hpath
    by_cases hself : path = canonical (names ++ [name])
    · subst hself
      rw [Function.update_self]
      exact hnone hpath
    · rw [Function.update_of_ne hself]
      exact h.missing path fun i hi => hpath i ((hr.relisted.home i path hself).mpr hi)
  forgotten := by
    intro path m hfile hpath hm
    cases hhit : s'.memc (generate_key path m) with
    | none => rfl
    | some data =>
      obtain ⟨hold, hnot⟩ := hr.cache _ data hhit
      have hself : path ≠ canonical (names ++ [name]) := by
        rintro rfl
        exact hnot m hm rfl
      rw [h.forgotten path m hfile
        (fun i hi => hpath i ((hr.relisted.home i path hself).mpr hi)) hm] at hold
      cases hold

end Refiling

section Creating

variable {mode : Nat} {fs' : Image} (h : Rooted c F L stored s files) (hb : F.Below names p name)
  (hds : L.directory p = some ds)
include h

omit hb hds in
theorem live (hi : L.home i = some path) : L.live i := by
  obtain ⟨bytes, hbytes⟩ : ∃ bytes, stored i = some bytes := by
    rw [← Option.isSome_iff_exists, h.serving.mounted.home, hi]
    rfl
  obtain ⟨N, hstored⟩ := h.serving.mounted.file i bytes hbytes
  exact hstored.held

include hb hds

/-- The turn that has created a file. -/
theorem created (hnone : ∀ j, L.home j ≠ some (canonical (names ++ [name])))
    (hmode : mode &&& EXT2_IFDIR = 0)
    (hc : File_created c L.live L.reserved p i mode name ds ds' s.file fs') :
    Refiled c L (L.created p i (canonical (names ++ [name])) ds' hnone) stored
      (Function.update stored i (some [])) p name (canonical (names ++ [name])) ds ds' s
      ⟨fs', s.memc⟩ := by
  have hlists : ∀ name' j, (∃ e ∈ listing ds', e.file_name = name' ∧ e.inode_number = j) ↔
      (name = name' ∧ i = j) ∨ ∃ e ∈ listing ds, e.file_name = name' ∧ e.inode_number = j := by
    intro name' j
    rw [← contents_lists]
    simp only [hc.listing.mem_iff]
    rw [contents_lists, List.exists_mem_cons_iff]
    rfl
  have hunlisted : ∀ j, ¬ ∃ e ∈ listing ds, e.file_name = name ∧ e.inode_number = j :=
    fun j hj => hnone j ((h.home_iff names p name ds j hb hds).mpr hj)
  have hfresh : ∀ j path', L.home j = some path' → j ≠ i :=
    fun j path' hj heq => hc.fresh (heq ▸ h.live hj)
  have hparent := (h.serving.mounted.directory p ds hds).1
  have hgroup := (h.serving.mounted.directory p ds hds).2
  obtain ⟨g, hg, k, hk, hi⟩ := hc.allocated
  have hcons := (hc.accounted hmode).inodes
  refine ⟨⟨rfl, ?_, ?_, ?_⟩, hc.audited, hc.accounted hmode, ?_, hc.parent, ?_, ?_, ?_, ?_, ?_, ?_⟩
  · intro name' hne j
    rw [hlists]
    exact or_iff_right fun heq => hne heq.1.symm
  · intro j
    rw [hlists, or_iff_left (hunlisted j), Layout.created_home, eq_comm (a := j)]
    exact and_iff_right rfl
  · intro j path' hne
    show Function.update L.home i (some (canonical (names ++ [name]))) j = some path' ↔ _
    by_cases hj : j = i
    · rw [hj, Function.update_self]
      exact ⟨fun heq => absurd (Option.some.inj heq).symm hne,
        fun hhome => absurd rfl (hfresh i path' hhome)⟩
    · rw [Function.update_of_ne hj]
  · rintro j (hj | rfl)
    · obtain ⟨g', hg', k', hk', heq, hbit⟩ := h.allocated j hj
      exact ⟨g', hg', k', hk', heq, (hc.bits g' hg' k' hk').mpr (Or.inl hbit)⟩
    · exact ⟨g, hg, k, hk, hi, (hc.bits g hg k hk).mpr (Or.inr hi.symm)⟩
  · intro e he
    rcases (hlists e.file_name e.inode_number).mp ⟨e, he, rfl, rfl⟩ with
      ⟨hname, hinode⟩ | ⟨e', he', hname, hinode⟩
    · rw [← hname, ← hinode, hi, locate_inode_number hcons.numbers_fit hg hk]
      exact ⟨hg, hb.component.1⟩
    · rw [← hname, ← hinode]
      exact ⟨hgroup e' he', h.named p ds hds e' he'⟩
  · intro j es hj hes
    exact hc.directories j es hj (h.serving.mounted.directory j es hes).1
  · intro j path' hne hj
    have hji := hfresh j path' hj
    refine ⟨Function.update_of_ne hji .., by rw [hc.others j hji], fun N bytes hstored => ?_⟩
    refine hc.files j N bytes ?_ hstored
    rintro rfl
    have hsome := h.serving.mounted.home j
    rw [h.serving.mounted.apart j ds hds, hj] at hsome
    cases hsome
  · intro j hj
    obtain rfl := Layout.created_home.mp hj
    refine ⟨?_, ?_, [], 0, Function.update_self .., hc.stored⟩
    · rw [Option.eq_none_iff_forall_ne_some]
      exact fun es hes => hc.fresh (h.serving.mounted.directory j es hes).1.held
    · rw [hc.regular]
      exact regular_plain hmode
  · intro j
    show (Function.update stored i (some []) j).isSome =
      (Function.update L.home i (some (canonical (names ++ [name]))) j).isSome
    by_cases hj : j = i
    · rw [hj, Function.update_self, Function.update_self]
      rfl
    · rw [Function.update_of_ne hj, Function.update_of_ne hj]
      exact h.serving.mounted.home j
  · intro key data hhit
    refine ⟨hhit, ?_⟩
    rintro m hm rfl
    rw [h.forgotten _ m ⟨names, p, name, hb, rfl⟩ hnone hm] at hhit
    cases hhit

omit hb hds in
theorem serve_create (hsize : Ext2_size c) (hfit : Fitting c F s (.create path mode)) :
    ∃ L' stored' s',
      serve_path c s (.create path mode) =
        .ok (s', (reply_path c files (.create path mode)).2) ∧
      Rooted c F L' stored' s' (reply_path c files (.create path mode)).1 := by
  by_cases hshort : path.length ≤ 40
  · obtain ⟨⟨names, p, name, hb, rfl⟩, hneeds⟩ := hfit hshort
    obtain ⟨ds, hds⟩ := h.folder names p hb.folder
    rcases h.resolved hb hsize with ⟨i, bytes, N, -, hfile, -, -, hresolve⟩ |
      ⟨hnone, hfile, hresolve⟩
    · refine ⟨L, stored, s, ?_, ?_⟩
      · simp only [serve_path, if_pos hshort, create_file_dir, hresolve, ok_bind, reply_path, hfile]
        rfl
      · simp only [reply_path, if_pos hshort, hfile]
        exact h
    · obtain ⟨hmode, hsome, hroom⟩ := hneeds fun i hi => hnone i ((h.found_iff hb hsize).mp hi)
      have hparent := (h.serving.mounted.directory p ds hds).1
      have hpass := h.passable hb
      have hlength := le_length_canonical names name
      obtain ⟨hlookup, hway⟩ := h.walk hb.folder
      obtain ⟨i, fs', ds', hcreate, hcreated⟩ := create_file_created (w := ⟨s.file, none⟩)
        ⟨canonical (names ++ [name]), mode, true⟩ hsize h.serving.mounted.audited h.accounted
          h.allocated hb.components (by omega)
        (h.serving.mounted.directories_along hsize hpass)
        ((h.serving.mounted.leads_iff hsize hway).mpr hlookup)
        (fun j hj => hnone j ((h.lookup_iff hb).mp
          ((h.serving.mounted.leads_iff hsize hpass).mp hj)))
        hparent (h.named p ds hds) (hroom names p name _ ds hb rfl hparent) hsome rfl rfl
      have hrefiled := h.created hb hds hnone hmode hcreated
      refine ⟨L.created p i _ ds' hnone, Function.update stored i (some []), ⟨fs', s.memc⟩, ?_, ?_⟩
      · simp only [serve_path, if_pos hshort, hcreate, ok_bind, reply_path, hfile]
        rfl
      · simp only [reply_path, if_pos hshort, hfile]
        refine h.refiled hb hds hrefiled ?_ ?_
        · intro j hj
          rw [Layout.created_home.mp hj, Function.update_self]
        · intro hall
          exact absurd (Layout.created_home.mpr rfl) (hall i)
  · refine ⟨L, stored, s, ?_, ?_⟩
    · simp only [serve_path, if_neg hshort, reply_path]
      rfl
    · simp only [reply_path, if_neg hshort]
      exact h

end Creating

section Deleting

variable {fs' : Image} {memc' : Block_cache} {bytes : List UInt8} {N : Nat}
  (h : Rooted c F L stored s files) (hb : F.Below names p name) (hds : L.directory p = some ds)
  (hhome : L.home i = some (canonical (names ++ [name])))
include h hb hds hhome

/-- The entry, the inode and the directory of a file that is there. -/
theorem file_entry : File_entry c L.live s.file p i name ds := by
  have hentry := (h.home_iff names p name ds i hb hds).mp hhome
  refine ⟨(h.serving.mounted.directory p ds hds).1, ?_, hentry, h.allocated i (h.live hhome),
    h.plain i _ hhome⟩
  rintro rfl
  have hsome := h.serving.mounted.home i
  rw [h.serving.mounted.apart i ds hds, hhome] at hsome
  cases hsome

/-- The turn that has deleted a file. -/
theorem deleted (hstored : Stored c L.live i N bytes s.file)
    (hr : File_removed c L.live p i (Size_In_Blocks c bytes.length) name ds ds' s.file fs')
    (hacc : Audited c (Without L.live i) L.reserved fs')
    (hcache : ∀ key data, memc' key = some data → s.memc key = some data ∧
      ∀ m < Size_In_Blocks c bytes.length, key ≠ generate_key (canonical (names ++ [name])) m) :
    Refiled c L (L.deleted p i ds') stored (Function.update stored i none) p name
      (canonical (names ++ [name])) ds ds' s ⟨fs', memc'⟩ := by
  have hlists : ∀ name' j, (∃ e ∈ listing ds', e.file_name = name' ∧ e.inode_number = j) ↔
      name' ≠ name ∧ ∃ e ∈ listing ds, e.file_name = name' ∧ e.inode_number = j := by
    intro name' j
    rw [← contents_lists, hr.listing, contents_lists]
    constructor
    · rintro ⟨e, he, rfl, rfl⟩
      obtain ⟨he, hne⟩ := List.mem_filter.mp he
      exact ⟨of_decide_eq_true hne, e, he, rfl, rfl⟩
    · rintro ⟨hne, e, he, rfl, rfl⟩
      exact ⟨e, List.mem_filter.mpr ⟨he, decide_eq_true hne⟩, rfl, rfl⟩
  have hapart : ∀ j es, L.directory j = some es → j ≠ i := by
    rintro j es hes rfl
    have hsome := h.serving.mounted.home j
    rw [h.serving.mounted.apart j es hes, hhome] at hsome
    cases hsome
  have hother : ∀ j path', path' ≠ canonical (names ++ [name]) → L.home j = some path' → j ≠ i := by
    rintro j path' hne hj rfl
    exact hne (Option.some.inj (hj.symm.trans hhome))
  have hgone : ∀ j, (L.deleted p i ds').home j ≠ some (canonical (names ++ [name])) := by
    intro j hj
    obtain ⟨hji, hj⟩ := Layout.deleted_home.mp hj
    exact hji (L.home_inj j i _ hj hhome)
  have hdirectory := h.serving.mounted.directory p ds hds
  refine ⟨⟨rfl, ?_, ?_, ?_⟩, hacc, hr.accounted, ?_, hr.parent, ?_, ?_, ?_, ?_, ?_, ?_⟩
  · intro name' hne j
    rw [hlists]
    exact and_iff_right hne
  · intro j
    rw [hlists]
    exact ⟨fun hlisted => absurd rfl hlisted.1, fun hj => absurd hj (hgone j)⟩
  · intro j path' hne
    rw [Layout.deleted_home]
    exact and_iff_right_of_imp (hother j path' hne)
  · rintro j ⟨hj, hji⟩
    obtain ⟨g, hg, k, hk, heq, hbit⟩ := h.allocated j hj
    exact ⟨g, hg, k, hk, heq, (hr.bits g hg k hk).mpr ⟨hbit, heq ▸ hji⟩⟩
  · intro e he
    obtain ⟨-, e', he', hname, hinode⟩ :=
      (hlists e.file_name e.inode_number).mp ⟨e, he, rfl, rfl⟩
    rw [← hname, ← hinode]
    exact ⟨hdirectory.2 e' he', h.named p ds hds e' he'⟩
  · intro j es hj hes
    exact hr.directories j es hj (hapart j es hes) (h.serving.mounted.directory j es hes).1
  · intro j path' hne hj
    have hji := hother j path' hne hj
    refine ⟨Function.update_of_ne hji .., hr.modes j hji, fun N bytes hstored => ?_⟩
    refine hr.files j N bytes ?_ hji hstored
    rintro rfl
    have hsome := h.serving.mounted.home j
    rw [h.serving.mounted.apart j ds hds, hj] at hsome
    cases hsome
  · intro j hj
    exact absurd hj (hgone j)
  · intro j
    show (Function.update stored i none j).isSome = (Function.update L.home i none j).isSome
    by_cases hj : j = i
    · rw [hj, Function.update_self, Function.update_self]
    · rw [Function.update_of_ne hj, Function.update_of_ne hj]
      exact h.serving.mounted.home j
  · intro key data hhit
    obtain ⟨hold, hnot⟩ := hcache key data hhit
    refine ⟨hold, ?_⟩
    intro m hm hkey
    obtain ⟨-, hin, -⟩ := h.serving.coherent key data hold i _ m hhome hm hkey
    rw [hstored.uint32_size] at hin
    exact hnot m hin hkey

end Deleting

theorem serve_delete (hsize : Ext2_size c) (h : Rooted c F L stored s files)
    (hfit : Fitting c F s (.delete path)) :
    ∃ L' stored' s',
      serve_path c s (.delete path) = .ok (s', (reply_path c files (.delete path)).2) ∧
      Rooted c F L' stored' s' (reply_path c files (.delete path)).1 := by
  by_cases hshort : path.length ≤ 40
  · obtain ⟨⟨names, p, name, hb, rfl⟩, hneeds⟩ := hfit hshort
    obtain ⟨ds, hds⟩ := h.folder names p hb.folder
    rcases h.resolved hb hsize with ⟨i, bytes, N, hhome, hfile, -, hstored, -⟩ |
      ⟨hnone, hfile, hresolve⟩
    · obtain ⟨hall, hdel⟩ := hneeds i ((h.found_iff hb hsize).mpr hhome)
      have hentry := h.file_entry hb hds hhome
      have hpass := h.passable hb
      obtain ⟨hlookup, hway⟩ := h.walk hb.folder
      obtain ⟨fs', ds', hdelete, hremoved, hiff⟩ := delete_file_removed (w := ⟨s.file, none⟩) hsize
        h.serving.mounted.audited h.accounted hb.components
        (h.serving.mounted.directories_along hsize hpass)
        ((h.serving.mounted.leads_iff hsize hway).mpr hlookup) hentry hstored
        (hdel names p name _ ds hb rfl hentry.parent) s.memc
      obtain ⟨memc', hmemc⟩ : ∃ memc', memc' = cache_delete_blocks (canonical (names ++ [name]))
        (Size_In_Blocks c bytes.length) 0 s.memc := ⟨_, rfl⟩
      rw [← hmemc] at hdelete
      have hcache : ∀ key data, memc' key = some data → s.memc key = some data ∧
          ∀ m < Size_In_Blocks c bytes.length,
            key ≠ generate_key (canonical (names ++ [name])) m := by
        intro key data hhit
        rw [hmemc] at hhit
        obtain ⟨hold, hnot⟩ := cache_delete_blocks_hit hhit
        exact ⟨hold, fun m hm => hnot m (Nat.zero_le m) (by omega)⟩
      have hrefiled := h.deleted hb hds hhome hstored hremoved
        (hiff.mpr (hall _ N hstored.size hstored.full)) hcache
      refine ⟨L.deleted p i ds', Function.update stored i none, ⟨fs', memc'⟩, ?_, ?_⟩
      · simp only [serve_path, if_pos hshort, hdelete, ok_bind, reply_path, hfile]
        rfl
      · simp only [reply_path, if_pos hshort, hfile]
        refine h.refiled hb hds hrefiled ?_ fun _ => rfl
        intro j hj
        obtain ⟨hji, hj⟩ := Layout.deleted_home.mp hj
        exact absurd (L.home_inj j i _ hj hhome) hji
    · refine ⟨L, stored, s, ?_, ?_⟩
      · simp only [serve_path, if_pos hshort, delete_file_missing hresolve, ok_bind, reply_path,
          hfile]
        rfl
      · simp only [reply_path, if_pos hshort, hfile]
        exact h
  · refine ⟨L, stored, s, ?_, ?_⟩
    · simp only [serve_path, if_neg hshort, reply_path]
      rfl
    · simp only [reply_path, if_neg hshort]
      exact h

theorem serve_open (hsize : Ext2_size c) (h : Rooted c F L stored s files)
    (hfit : Fitting c F s (.open_file path)) :
    serve_path c s (.open_file path) = .ok (s, (reply_path c files (.open_file path)).2) ∧
      (reply_path c files (.open_file path)).1 = files := by
  by_cases hshort : path.length ≤ 40
  · obtain ⟨names, p, name, hb, rfl⟩ := hfit hshort
    rcases h.resolved hb hsize with ⟨i, bytes, N, -, hfile, -, -, hresolve⟩ |
      ⟨-, hfile, hresolve⟩
    · simp only [serve_path, if_pos hshort, open_file, hresolve, ok_bind, reply_path, hfile]
      exact ⟨rfl, trivial⟩
    · simp only [serve_path, if_pos hshort, open_file, hresolve, ok_bind, reply_path, hfile]
      exact ⟨rfl, trivial⟩
  · simp only [serve_path, if_neg hshort, reply_path]
    exact ⟨rfl, trivial⟩

/-- Every request that fits is served as the map replies to it. -/
theorem serve_reply (hsize : Ext2_size c) (h : Rooted c F L stored s files) {req : Path_request}
    (hfit : Fitting c F s req) :
    ∃ L' stored' s', serve_path c s req = .ok (s', (reply_path c files req).2) ∧
      Rooted c F L' stored' s' (reply_path c files req).1 := by
  cases req with
  | create path mode => exact h.serve_create hsize hfit
  | open_file path =>
    obtain ⟨hserve, hsame⟩ := serve_open hsize h hfit
    exact ⟨L, stored, s, hserve, hsame.symm ▸ h⟩
  | delete path => exact serve_delete hsize h hfit
  | file req =>
    obtain ⟨s', stored', hserve, hrooted⟩ := h.serve_file hsize hfit
    exact ⟨L, stored', s', hserve, hrooted⟩

end Rooted

/-- A server whose image has the directories `F` and, somewhere, the files. -/
def Holding (c : Superblock_constants) (F : Folders) (s : Server)
    (files : Path → Option (List UInt8)) : Prop :=
  ∃ L stored, Rooted c F L stored s files

/-- A request and the reply to it, as a step of the server and as one of the map. -/
def Path_served (c : Superblock_constants) (s : Server) (e : Path_request × Path_reply)
    (s' : Server) : Prop :=
  serve_path c s e.1 = .ok (s', e.2)

def Path_answered (c : Superblock_constants) (files : Path → Option (List UInt8))
    (e : Path_request × Path_reply) (files' : Path → Option (List UInt8)) : Prop :=
  reply_path c files e.1 = (files', e.2)

theorem path_served_simulated (hsize : Ext2_size c) : Simulated (Holding c F)
    (Guarded (fun s e => Fitting c F s e.1) (Path_served c)) (Path_answered c) := by
  rintro s e s' files ⟨L, stored, h⟩ ⟨hfit, hserved⟩
  obtain ⟨L', stored', s₁, hserve, h₁⟩ := h.serve_reply hsize hfit
  obtain ⟨rfl, hreply⟩ := Prod.mk.inj (Except.ok.inj (hserve.symm.trans hserved))
  exact ⟨_, Prod.ext rfl hreply, L', stored', h₁⟩

/-- The blocks and entries of a directory are determined by the image. -/
theorem Directory.unique {live live' : Nat → Prop} {fs : Image} (h : Directory c live p ds fs)
    (h' : Directory c live' p ds' fs) : ds' = ds := by
  have hlength : ds'.length = ds.length := by
    have hsize := h'.size.symm.trans h.size
    exact Nat.eq_of_mul_eq_mul_right c.size_pos (Int.ofNat.inj hsize)
  refine blocks_unique (h'.attached.trans ?_) h.chain h'.chain
    (fun d hd e he => (h.sound d hd e he).positive) fun d hd e he => (h'.sound d hd e he).positive
  rw [hlength]
  exact h.attached.symm

/-- A tree of the root only. -/
def only_root : Folders where
  inode := fun names => if names = [] then some ROOT_INODE_NUMBER else none
  root := rfl
  parent := by
    intro names name hsome
    rw [if_neg (by simp)] at hsome
    cases hsome
  inj := by
    intro names names' i hi hi'
    split_ifs at hi hi' with h h'
    exact h.trans h'.symm
  names := by
    intro names i hi name hname
    split_ifs at hi with h
    rw [h] at hname
    cases hname

theorem only_root_below_iff : only_root.Below names p name ↔
    names = [] ∧ p = ROOT_INODE_NUMBER ∧ Component name ∧ name ≠ [46] ∧ name ≠ [46, 46] := by
  constructor
  · rintro ⟨hfolder, hcomponent, -, hdot, hdotdot⟩
    simp only [only_root] at hfolder
    split_ifs at hfolder with h
    exact ⟨h, (Option.some.inj hfolder).symm, hcomponent, hdot, hdotdot⟩
  · rintro ⟨rfl, rfl, hcomponent, hdot, hdotdot⟩
    exact ⟨rfl, hcomponent, rfl, hdot, hdotdot⟩

def one_named (path : Path) : Option (List UInt8) :=
  if path = canonical [[97]] then some [7, 7, 7] else none

theorem root_and_file_serving : Serving (one_group 0 smallest_block_pos) one_name
    ⟨root_and_file, Cache.empty⟩ three_sevens := by
  refine ⟨⟨root_and_file_audited, ?_, ?_, ?_, ?_⟩, Cache.coherent_empty⟩
  · intro j ds hds
    simp only [one_name] at hds
    split_ifs at hds with h2
    obtain rfl := Option.some.inj hds
    subst h2
    exact ⟨root_and_file_root, by decide⟩
  · intro i bytes hi
    simp only [three_sevens] at hi
    split_ifs at hi with h5
    obtain rfl := Option.some.inj hi
    subst h5
    exact ⟨1, root_and_file_stored⟩
  · intro i
    simp only [three_sevens, one_name]
    split_ifs <;> rfl
  · intro i ds hds
    simp only [one_name] at hds
    split_ifs at hds with h2
    subst h2
    rfl

theorem root_and_file_rooted : Rooted (one_group 0 smallest_block_pos) only_root one_name
    three_sevens ⟨root_and_file, Cache.empty⟩ one_named := by
  have hdirectory : ∀ p ds, one_name.directory p = some ds →
      p = 2 ∧ ds = [(3, small_directory 2 ⟨5, 1000, 1, 1, [97]⟩)] := by
    intro p ds hds
    simp only [one_name] at hds
    split_ifs at hds with h2
    exact ⟨h2, (Option.some.inj hds).symm⟩
  have hhome : ∀ i path, one_name.home i = some path ↔ i = 5 ∧ path = canonical [[97]] := by
    intro i path
    simp only [one_name]
    split_ifs with h5
    · rw [Option.some.injEq, eq_comm]
      exact (and_iff_right h5).symm
    · simp [h5]
  have ha : only_root.Below [] 2 [97] :=
    only_root_below_iff.mpr ⟨rfl, rfl, by unfold Component; decide⟩
  constructor
  · exact root_and_file_serving
  · exact root_and_file_accounted
  · rintro i (rfl | rfl)
    · exact ⟨0, by decide, 1, by decide, rfl, by decide⟩
    · exact ⟨0, by decide, 4, by decide, rfl, by decide⟩
  · intro names p hp
    simp only [only_root] at hp
    split_ifs at hp
    obtain rfl := Option.some.inj hp
    exact ⟨_, rfl⟩
  · intro names name p i ds _ hi
    simp only [only_root] at hi
    rw [if_neg (by simp)] at hi
    cases hi
  · intro p ds hds
    obtain ⟨rfl, rfl⟩ := hdirectory p ds hds
    decide
  · intro names p name ds i hb hds
    obtain ⟨rfl, rfl, hcomponent, hdot, hdotdot⟩ := only_root_below_iff.mp hb
    obtain ⟨-, rfl⟩ := hdirectory _ ds hds
    have hlisting : listing [(3, small_directory 2 ⟨5, 1000, 1, 1, [97]⟩)] =
        [⟨2, 12, 1, 2, [46]⟩, ⟨2, 12, 2, 2, [46, 46]⟩, ⟨5, 1000, 1, 1, [97]⟩] := by decide
    rw [hhome, hlisting]
    constructor
    · rintro ⟨rfl, heq⟩
      obtain ⟨-, rfl⟩ := hb.path_inj ha heq
      exact ⟨⟨5, 1000, 1, 1, [97]⟩, by simp, rfl, rfl⟩
    · rintro ⟨e, he, hname, hinode⟩
      simp only [List.mem_cons, List.not_mem_nil, or_false] at he
      rcases he with rfl | rfl | rfl
      · exact absurd hname.symm hdot
      · exact absurd hname.symm hdotdot
      · exact ⟨hinode.symm, by rw [← hname]; rfl⟩
  · intro i path hi
    obtain ⟨-, rfl⟩ := (hhome i path).mp hi
    exact ⟨[], 2, [97], ha, rfl⟩
  · intro i path hi
    obtain ⟨rfl, -⟩ := (hhome i path).mp hi
    decide
  · intro i path hi
    obtain ⟨rfl, rfl⟩ := (hhome i path).mp hi
    rfl
  · intro path hpath
    exact if_neg fun heq => hpath 5 ((hhome 5 path).mpr ⟨rfl, heq⟩)
  · intro path m _ _ _
    rfl

/-- The file `/b` is created. -/
def new_b : Path_request := .create (canonical [[98]]) 0x81a4

theorem new_b_fitting : Fitting (one_group 0 smallest_block_pos) only_root
    ⟨root_and_file, Cache.empty⟩ new_b := by
  intro _
  have hb : only_root.Below [] 2 [98] :=
    only_root_below_iff.mpr ⟨rfl, rfl, by unfold Component; decide⟩
  refine ⟨⟨[], 2, [98], hb, rfl⟩, fun _ => ⟨by decide, by decide, ?_⟩⟩
  intro names p name live ds hb' hpath hds
  obtain ⟨rfl, rfl⟩ := hb.path_inj hb' hpath
  obtain rfl := Option.some.inj (hb.folder.symm.trans hb'.folder)
  rw [root_and_file_root.unique hds]
  exact ⟨_, List.mem_singleton_self _, ⟨5, 1000, 1, 1, [97]⟩, by decide, by unfold has_room; decide⟩

end LaLiga.Rfs
