import LaLiga.Lib.Transition
import LaLiga.Rfs.EntryChain
import LaLiga.Rfs.Numbering

/-! A directory of one block, as a map from names to inodes. -/
namespace LaLiga.Rfs

open LaLiga.Lib

abbrev Name_map := List UInt8 → Option Nat

def pairs (es : List entry_t) : List (List UInt8 × Nat) :=
  es.map fun e => (e.file_name, e.inode_number)

/-- The entries are those of the map, each once. -/
structure Lists (es : List entry_t) (M : Name_map) : Prop where
  nodup : (es.map entry_t.file_name).Nodup
  exact : ∀ file_name inode_number,
    M file_name = some inode_number ↔ (file_name, inode_number) ∈ pairs es

variable {e new : entry_t} {es es' : List entry_t} {M : Name_map} {file_name : List UInt8}
  {inode_number : Nat}

/-- Where the new entry goes. -/
theorem attach_list_split (h : attach_list new es = some es') : ∃ pre e post,
    es = pre ++ e :: post ∧ new.entry_len < e.entry_len - get_padded_size e ∧
      es' = pre ++ { e with entry_len := get_padded_size e } ::
        { new with entry_len := e.entry_len - get_padded_size e } :: post := by
  induction es generalizing es' with
  | nil => simp [attach_list] at h
  | cons e es ih =>
    by_cases hfree : e.entry_len - get_padded_size e > new.entry_len
    · simp only [attach_list, if_pos hfree, Option.some.injEq] at h
      exact ⟨[], e, es, rfl, hfree, h.symm⟩
    · simp only [attach_list, if_neg hfree, Option.map_eq_some_iff] at h
      obtain ⟨es₁, h, rfl⟩ := h
      obtain ⟨pre, x, post, rfl, hx, rfl⟩ := ih h
      exact ⟨e :: pre, x, post, rfl, hx, rfl⟩

theorem attach_list_eq_none : attach_list new es = none ↔
    ∀ e ∈ es, ¬ new.entry_len < e.entry_len - get_padded_size e := by
  induction es with
  | nil => simp [attach_list]
  | cons e es ih =>
    by_cases hfree : e.entry_len - get_padded_size e > new.entry_len
    · simp only [attach_list, if_pos hfree, List.forall_mem_cons, reduceCtorEq, false_iff]
      exact fun h => h.1 hfree
    · simp only [attach_list, if_neg hfree, Option.map_eq_none_iff, ih, List.forall_mem_cons]
      exact ⟨fun h => ⟨hfree, h⟩, And.right⟩

/-- Where the room of the deleted entry goes. -/
theorem delete_list_split {previous : entry_t} (h : delete_list file_name previous es = some es') :
    (∃ pre x e, previous :: es = pre ++ [x, e] ∧ e.named file_name ∧
      es' = pre ++ [{ x with entry_len := x.entry_len + e.entry_len }]) ∨
    ∃ pre e next post, previous :: es = pre ++ e :: next :: post ∧ e.named file_name ∧
      es' = pre ++ { next with entry_len := next.entry_len + e.entry_len } :: post := by
  induction es generalizing previous es' with
  | nil => simp [delete_list] at h
  | cons e es ih =>
    by_cases hname : e.named file_name
    · cases es with
      | nil =>
        simp only [delete_list, if_pos hname, Option.some.injEq] at h
        exact Or.inl ⟨[], previous, e, rfl, hname, h.symm⟩
      | cons next es =>
        simp only [delete_list, if_pos hname, Option.some.injEq] at h
        exact Or.inr ⟨[previous], e, next, es, rfl, hname, h.symm⟩
    · simp only [delete_list, if_neg hname, Option.map_eq_some_iff] at h
      obtain ⟨es₁, h, rfl⟩ := h
      rcases ih h with ⟨pre, x, y, hes, hy, rfl⟩ | ⟨pre, y, next, post, hes, hy, rfl⟩
      · exact Or.inl ⟨previous :: pre, x, y, by rw [hes]; rfl, hy, rfl⟩
      · exact Or.inr ⟨previous :: pre, y, next, post, by rw [hes]; rfl, hy, rfl⟩

theorem delete_list_isSome {previous : entry_t} (h : ∃ e ∈ es, e.named file_name) :
    ∃ es', delete_list file_name previous es = some es' := by
  induction es generalizing previous with
  | nil => simp at h
  | cons e es ih =>
    by_cases hname : e.named file_name
    · cases es with
      | nil => exact ⟨_, by simp only [delete_list, if_pos hname]; rfl⟩
      | cons next es => exact ⟨_, by simp only [delete_list, if_pos hname]; rfl⟩
    · obtain ⟨x, hx, hnamed⟩ := h
      rcases List.mem_cons.mp hx with rfl | hx
      · exact absurd hnamed hname
      · obtain ⟨es₁, hdel⟩ : ∃ es', delete_list file_name e es = some es' := ih ⟨x, hx, hnamed⟩
        exact ⟨previous :: es₁, by simp only [delete_list, if_neg hname, hdel, Option.map_some]⟩

theorem total_append (es es' : List entry_t) : total (es ++ es') = total es + total es' := by
  simp [total]

theorem pairs_append (es es' : List entry_t) : pairs (es ++ es') = pairs es ++ pairs es' :=
  List.map_append

@[simp]
theorem pairs_cons : pairs (e :: es) = (e.file_name, e.inode_number) :: pairs es := rfl

theorem padded_set_len (n : Nat) : get_padded_size { e with entry_len := n } = get_padded_size e :=
  rfl

/-- An entry in use stays so with another length. -/
theorem entry_t.Live.set_len {n : Nat} (h : e.Live) (hmod : n % 4 = 0)
    (hroom : get_padded_size e ≤ n) : ({ e with entry_len := n } : entry_t).Live where
  inode := h.inode
  name := h.name
  aligned := hmod
  room := hroom

/-- The names of a directory of the map, in any order. -/
theorem lists_of_perm (h : Lists es M) (hp : (pairs es').Perm (pairs es)) : Lists es' M := by
  have hfst : ∀ l : List entry_t, l.map entry_t.file_name = (pairs l).map Prod.fst := by
    intro l
    rw [pairs, List.map_map]
    rfl
  constructor
  · rw [hfst]
    exact (hp.map Prod.fst).nodup_iff.mpr (hfst es ▸ h.nodup)
  · intro name ino
    rw [h.exact, hp.mem_iff]

/-- A name that is new to the map. -/
theorem lists_insert (h : Lists es M) (hnone : M e.file_name = none) :
    Lists (e :: es) (Function.update M e.file_name (some e.inode_number)) := by
  have hnot : ∀ ino, (e.file_name, ino) ∉ pairs es := by
    intro ino hmem
    rw [← h.exact, hnone] at hmem
    cases hmem
  constructor
  · refine List.nodup_cons.mpr ⟨?_, h.nodup⟩
    intro hmem
    obtain ⟨x, hx, hname⟩ := List.mem_map.mp hmem
    exact hnot x.inode_number (List.mem_map.mpr ⟨x, hx, by rw [hname]⟩)
  · intro name ino
    rw [pairs_cons, List.mem_cons]
    by_cases hname : name = e.file_name
    · subst hname
      rw [Function.update_self, Option.some.injEq, Prod.mk.injEq]
      exact ⟨fun hi => Or.inl ⟨rfl, hi.symm⟩,
        fun hi => hi.elim (fun he => he.2.symm) fun hmem => absurd hmem (hnot ino)⟩
    · rw [Function.update_of_ne hname, h.exact]
      refine ⟨Or.inr, fun hi => hi.resolve_left ?_⟩
      intro heq
      exact hname (congrArg Prod.fst heq)

/-- A name taken from the map. -/
theorem lists_erase (h : Lists (e :: es) M) : Lists es (Function.update M e.file_name none) := by
  have hnodup := List.nodup_cons.mp h.nodup
  constructor
  · exact hnodup.2
  · intro name ino
    by_cases hname : name = e.file_name
    · subst hname
      rw [Function.update_self]
      constructor
      · rintro ⟨⟩
      intro hmem
      obtain ⟨x, hx, hxe⟩ := List.mem_map.mp hmem
      exact absurd (List.mem_map.mpr ⟨x, hx, congrArg Prod.fst hxe⟩) hnodup.1
    · rw [Function.update_of_ne hname, h.exact, pairs_cons, List.mem_cons]
      refine ⟨fun hi => hi.resolve_left ?_, Or.inr⟩
      intro heq
      exact hname (congrArg Prod.fst heq)

/-- Entries attached are in use, fill the same room, and add one name. -/
theorem attach_list_spec (h : attach_list new es = some es') (hlive : ∀ x ∈ es, x.Live)
    (hinode : new.inode_number ≠ 0) (hname : 0 < new.name_len)
    (hlen : new.entry_len = 8 + new.name_len) :
    (∀ x ∈ es', x.Live) ∧ total es' = total es ∧ (pairs es').Perm (pairs (new :: es)) := by
  obtain ⟨pre, e, post, rfl, hfree, rfl⟩ := attach_list_split h
  have he := hlive e (by simp)
  have hroom := he.room
  refine ⟨?_, ?_, ?_⟩
  · intro x hx
    rcases List.mem_append.mp hx with hx | hx
    · exact hlive x (List.mem_append_left _ hx)
    · rcases List.mem_cons.mp hx with rfl | hx
      · exact he.set_len (padded_mod e) le_rfl
      · rcases List.mem_cons.mp hx with rfl | hx
        · have hmod := padded_mod e
          have hnew := padded_mod new
          have hle := padded_le new
          have haligned := he.aligned
          exact ⟨hinode, hname, by simp only; omega, by rw [padded_set_len]; simp only; omega⟩
        · exact hlive x (List.mem_append_right _ (List.mem_cons_of_mem _ hx))
  · simp only [total_append, total_cons]
    omega
  · simp only [pairs_append, pairs_cons]
    refine (List.Perm.append_left _ (List.Perm.swap _ _ _)).trans ?_
    exact List.perm_middle

/-- What is left after a deletion is in use, fills the same room, and lacks one name. -/
theorem delete_list_spec {previous : entry_t} (h : delete_list file_name previous es = some es')
    (hlive : ∀ x ∈ previous :: es, x.Live) :
    (∀ x ∈ es', x.Live) ∧ total es' = total (previous :: es) ∧
      ∃ e, e.file_name = file_name ∧ (pairs (previous :: es)).Perm (pairs (e :: es')) := by
  rcases delete_list_split h with ⟨pre, x, e, hes, hnamed, rfl⟩ |
    ⟨pre, e, next, post, hes, hnamed, rfl⟩
  · rw [hes] at hlive ⊢
    have hx := hlive x (by simp)
    have he := hlive e (by simp)
    refine ⟨?_, ?_, e, hnamed.2, ?_⟩
    · intro y hy
      rcases List.mem_append.mp hy with hy | hy
      · exact hlive y (List.mem_append_left _ hy)
      · obtain rfl := List.mem_singleton.mp hy
        have := hx.aligned
        have := he.aligned
        have := hx.room
        exact hx.set_len (by omega) (by omega)
    · simp only [total_append, total_cons, total_nil]
      omega
    · have hlast := List.perm_append_singleton (e.file_name, e.inode_number) (pairs (pre ++ [x]))
      simpa only [pairs, List.map_append, List.map_cons, List.map_nil, List.append_assoc,
        List.cons_append, List.nil_append] using hlast
  · rw [hes] at hlive ⊢
    have hnext := hlive next (by simp)
    have he := hlive e (by simp)
    refine ⟨?_, ?_, e, hnamed.2, ?_⟩
    · intro y hy
      rcases List.mem_append.mp hy with hy | hy
      · exact hlive y (List.mem_append_left _ hy)
      · rcases List.mem_cons.mp hy with rfl | hy
        · have := hnext.aligned
          have := he.aligned
          have := hnext.room
          exact hnext.set_len (by omega) (by omega)
        · exact hlive y (by simp [hy])
    · simp only [total_append, total_cons]
      omega
    · simp only [pairs_append, pairs_cons]
      exact List.perm_middle

variable {c : Superblock_constants} {fs fs' : Image} {m : Bytes} {i b : Nat}

theorem flat_set_flat : flat c (set_flat c fs m) = m := by
  funext p
  simp only [flat, set_flat, if_pos (Nat.mod_lt p c.size_pos), Nat.div_add_mod']

/-- Bytes changed in one block only. -/
theorem set_flat_block (h : Outside (flat c fs) m (block_start c b)
    (block_start c b + c.BLOCK_SIZE)) {d : Nat} (hd : d ≠ slot c b) :
    (set_flat c fs m).block d = fs.block d := by
  funext j
  simp only [set_flat]
  split_ifs with hj
  · have hout : d * c.BLOCK_SIZE + j < block_start c b ∨
        block_start c b + c.BLOCK_SIZE ≤ d * c.BLOCK_SIZE + j := by
      unfold block_start
      rcases Nat.lt_or_gt_of_ne hd with hlt | hgt
      · have := Nat.mul_le_mul_right c.BLOCK_SIZE hlt
        rw [Nat.succ_mul] at this
        omega
      · have := Nat.mul_le_mul_right c.BLOCK_SIZE hgt
        rw [Nat.succ_mul] at this
        omega
    rw [h _ hout, flat, Nat.mul_comm, Nat.mul_add_div c.size_pos, Nat.mul_add_mod,
      Nat.div_eq_of_lt hj, Nat.mod_eq_of_lt hj, Nat.add_zero]
  · rfl

theorem addresses_one {anInode : inode_t} {n : Nat} (h : n ≤ c.BLOCK_SIZE) :
    Inode_Get_Data_Adressess c fs anInode n = some [anInode.pointer_data_0 0, 0] := by
  have hone : max (Size_In_Blocks c n) 1 = 1 := by
    unfold Size_In_Blocks
    rcases Nat.lt_or_eq_of_le h with hlt | rfl
    · rw [Nat.div_eq_of_lt hlt]
      split_ifs <;> rfl
    · rw [Nat.mod_self, Nat.div_self c.size_pos]
      rfl
  unfold Inode_Get_Data_Adressess
  simp only [hone]
  rfl

/-- The directory `i` with the entries `es` in its only block `b`: `.` without more room than
it needs, then `..` and the others. -/
structure One_block (c : Superblock_constants) (fs : Image) (i b : Nat) (es : List entry_t) :
    Prop where
  size : (fs.inode i).size = c.BLOCK_SIZE
  blocks : (fs.inode i).blocks = c.BLOCK_SIZE / 512
  pointer : (fs.inode i).pointer_data_0 0 = b
  attached : b ≠ 0
  chain : Chain (flat c fs) (block_start c b + c.BLOCK_SIZE) (block_start c b) es
  live : ∀ e ∈ es, e.Live
  first : ∃ dot dotdot rest, es = dot :: dotdot :: rest ∧ dot.file_name = [46] ∧
    dot.entry_len = 12 ∧ dotdot.file_name = [46, 46] ∧ total (dotdot :: rest) < 2 ^ 16

theorem One_block.total (h : One_block c fs i b es) : total es = c.BLOCK_SIZE := by
  have := h.chain.ends
  omega

theorem One_block.small (h : One_block c fs i b es) : c.BLOCK_SIZE < 2 ^ 16 + 12 := by
  obtain ⟨dot, dotdot, rest, rfl, -, hdot, -, hsmall⟩ := h.first
  have := h.total
  rw [total_cons] at this
  omega

theorem One_block.turns (h : One_block c fs i b es) : es.length < c.BLOCK_SIZE + 1 := by
  have := length_le_total fun e he => (h.live e he).sound.positive
  have := h.total
  omega

theorem One_block.addresses (h : One_block c fs i b es) {n : Nat}
    (hn : n = uint32 (fs.inode i).size ∨ n = uint32 ((fs.inode i).blocks * 512)) :
    Inode_Get_Data_Adressess c fs (fs.inode i) n = some [b, 0] := by
  have hsmall := h.small
  have hle : n ≤ c.BLOCK_SIZE := by
    have hsize := h.size
    have hblocks := h.blocks
    unfold uint32 at hn
    omega
  rw [addresses_one hle, h.pointer]

theorem One_block.read (h : One_block c fs i b es) :
    read_directory c fs (fs.inode i) = .ok es := by
  have htake : block_list [b, 0] = [b] := by simp [block_list, h.attached]
  unfold read_directory
  rw [h.addresses (Or.inl rfl)]
  simp only [htake, read_blocks, directory_entries_chain h.chain h.live h.turns,
    List.append_nil]

/-- The block with other entries. -/
theorem One_block.set (h : One_block c fs i b es)
    (hchain : Chain m (block_start c b + c.BLOCK_SIZE) (block_start c b) es')
    (hlive : ∀ e ∈ es', e.Live)
    (hfirst : ∃ dot dotdot rest, es' = dot :: dotdot :: rest ∧ dot.file_name = [46] ∧
      dot.entry_len = 12 ∧ dotdot.file_name = [46, 46] ∧ LaLiga.Rfs.total (dotdot :: rest) < 2 ^ 16) :
    One_block c (set_flat c fs m) i b es' where
  size := h.size
  blocks := h.blocks
  pointer := h.pointer
  attached := h.attached
  chain := by rwa [flat_set_flat]
  live := hlive
  first := hfirst

theorem attach_list_head (h : attach_list new (e :: es) = some es') :
    ∃ e' post, es' = e' :: post ∧ e'.file_name = e.file_name := by
  by_cases hfree : e.entry_len - get_padded_size e > new.entry_len
  · simp only [attach_list, if_pos hfree, Option.some.injEq] at h
    exact ⟨_, _, h.symm, rfl⟩
  · simp only [attach_list, if_neg hfree, Option.map_eq_some_iff] at h
    obtain ⟨post, -, rfl⟩ := h
    exact ⟨e, post, rfl, rfl⟩

theorem delete_list_head {previous : entry_t} (h : delete_list file_name previous es = some es') :
    ∃ e' post, es' = e' :: post ∧ e'.file_name = previous.file_name := by
  cases es with
  | nil => simp [delete_list] at h
  | cons e es =>
    by_cases hname : e.named file_name
    · cases es with
      | nil =>
        simp only [delete_list, if_pos hname, Option.some.injEq] at h
        exact ⟨_, _, h.symm, rfl⟩
      | cons next es =>
        simp only [delete_list, if_pos hname, Option.some.injEq] at h
        exact ⟨_, _, h.symm, rfl⟩
    · simp only [delete_list, if_neg hname, Option.map_eq_some_iff] at h
      obtain ⟨post, -, rfl⟩ := h
      exact ⟨previous, post, rfl, rfl⟩

variable {w : Worker_state}

theorem create_entry_fits (hname : file_name.length < 2 ^ 8) (hinode : inode_number < 2 ^ 32) :
    (create_entry file_name inode_number).Fits where
  inode_number := hinode
  entry_len := Nat.mod_lt _ (by norm_num)
  name_len := Nat.mod_lt _ (by norm_num)
  file_type := Nat.two_pow_pos 8
  file_name := (Nat.mod_eq_of_lt hname).symm

/-- A name for which an entry has more room than it needs is put behind the first such. -/
theorem attach_entry_one (h : One_block c w.file i b es) (hname : 0 < file_name.length)
    (hlen : file_name.length < 2 ^ 8) (hinode : 0 < inode_number) (h32 : inode_number < 2 ^ 32)
    (hroom : ∃ e ∈ es, 8 + file_name.length < e.entry_len - get_padded_size e) (calls : Nat) :
    ∃ m es', attach_entry c i (create_entry file_name inode_number) (calls + 1) w =
        .ok (true, { w with file := set_flat c w.file m }) ∧
      attach_list (create_entry file_name inode_number) es = some es' ∧
      Outside (flat c w.file) m (block_start c b) (block_start c b + c.BLOCK_SIZE) ∧
      One_block c (set_flat c w.file m) i b es' := by
  have hfits := create_entry_fits hlen h32
  have hentry : (create_entry file_name inode_number).entry_len = 8 + file_name.length :=
    Nat.mod_eq_of_lt (by omega)
  have hnamelen : (create_entry file_name inode_number).name_len = file_name.length :=
    Nat.mod_eq_of_lt hlen
  obtain ⟨es', hlist⟩ : ∃ es', attach_list (create_entry file_name inode_number) es = some es' := by
    apply Option.ne_none_iff_exists'.mp
    intro hnone
    obtain ⟨e, he, hfree⟩ := hroom
    rw [← hentry] at hfree
    exact attach_list_eq_none.mp hnone e he hfree
  have hscan := attach_scan_chain h.chain h.live hfits (by rw [hentry, hnamelen]) h.turns
  rw [hlist] at hscan
  obtain ⟨m, hscan, hchain, hout⟩ := hscan
  obtain ⟨hlive, htotal, -⟩ := attach_list_spec hlist h.live (Nat.ne_of_gt hinode)
    (by rw [hnamelen]; exact hname) (by rw [hentry, hnamelen])
  refine ⟨m, es', ?_, hlist, hout, h.set hchain hlive ?_⟩
  · have htake : block_list [b, 0] = [b] := by simp [block_list, h.attached]
    unfold attach_entry
    simp only [h.addresses (Or.inr rfl), htake, attach_blocks, hscan]
  · obtain ⟨dot, dotdot, rest, rfl, hdot, hdotlen, hdotdot, hsmall⟩ := h.first
    have hdotfits := h.chain.fits dot (by simp)
    have hpadded : get_padded_size dot = 12 := by
      have hone := hdotfits.file_name
      rw [hdot] at hone
      unfold get_padded_size
      simp only [← hone]
      rfl
    rw [attach_list, if_neg (by omega), Option.map_eq_some_iff] at hlist
    obtain ⟨es₁, hlist, rfl⟩ := hlist
    obtain ⟨e', post, rfl, he'⟩ := attach_list_head hlist
    refine ⟨dot, e', post, rfl, hdot, hdotlen, he'.trans hdotdot, ?_⟩
    rw [total_cons, total_cons (e := dot)] at htotal
    omega

/-- A name of the directory is taken out, unless it is one of the first two. -/
theorem delete_entry_one (h : One_block c fs i b es) (hdot : file_name ≠ [46])
    (hdotdot : file_name ≠ [46, 46]) (hthere : ∃ e ∈ es, e.file_name = file_name) :
    ∃ m dot es₀ es', delete_entry c fs i file_name = .ok (set_flat c fs m) ∧
      es = dot :: es₀ ∧ delete_list file_name dot es₀ = some es' ∧
      Outside (flat c fs) m (block_start c b) (block_start c b + c.BLOCK_SIZE) ∧
      One_block c (set_flat c fs m) i b es' := by
  obtain ⟨dot, dotdot, rest, rfl, hone, hdotlen, htwo, hsmall⟩ := h.first
  have hnotdot : ¬ dot.named file_name := fun hn => hdot (hn.2.symm.trans hone)
  have hnotdotdot : ¬ dotdot.named file_name := fun hn => hdotdot (hn.2.symm.trans htwo)
  have hrest : ∃ e ∈ rest, e.named file_name := by
    obtain ⟨e, he, hname⟩ := hthere
    have hnamed : e.named file_name :=
      ⟨by rw [← hname, (h.chain.fits e he).file_name], hname⟩
    rcases List.mem_cons.mp he with rfl | he
    · exact absurd hnamed hnotdot
    · rcases List.mem_cons.mp he with rfl | he
      · exact absurd hnamed hnotdotdot
      · exact ⟨e, he, hnamed⟩
  obtain ⟨es₁, hdel⟩ : ∃ es', delete_list file_name dotdot rest = some es' :=
    delete_list_isSome hrest
  have hlist : delete_list file_name dot (dotdot :: rest) = some (dot :: es₁) := by
    simp only [delete_list, if_neg hnotdotdot, hdel, Option.map_some]
  have htotal := h.total
  have hturns : rest.length < c.BLOCK_SIZE := by
    have := h.turns
    simp only [List.length_cons] at this
    omega
  have hlive := h.live
  have hdotlive := hlive dot (by simp)
  have hlive' : ∀ x ∈ dotdot :: rest, x.Live := fun x hx => hlive x (by simp [hx])
  rw [total_cons, hdotlen] at htotal
  have hstart : block_start c b + dot.entry_len = block_start c b + 12 := by rw [hdotlen]
  obtain ⟨m, hscan, hchain, hout⟩ :=
    delete_scan_chain c h.chain.2 (fun x hx => (hlive' x hx).sound) hsmall htotal hturns hdel
  have hbase : entry_at (flat c fs) (block_start c b) = dot := h.chain.1
  have hnext : entry_at (flat c fs) (block_start c b + 12) = dotdot := by
    rw [← hstart]
    exact h.chain.2.1
  have hdotdotlive := hlive' dotdot (by simp)
  rw [hstart] at hscan hchain hout
  -- The scan passes over `.` and goes on at the second entry.
  have hfirst : delete_scan c (flat c fs) (block_start c b + c.BLOCK_SIZE) file_name
      (c.BLOCK_SIZE + 1) (block_start c b) 0 = .ok (some m) := by
    rw [delete_scan, if_pos (by omega)]
    simp only [hbase, hdotlen, hnext, if_neg hnotdotdot, Nat.zero_add]
    exact hscan
  obtain ⟨hlive₁, htotal₁, -⟩ := delete_list_spec hdel hlive'
  refine ⟨m, dot, dotdot :: rest, dot :: es₁, ?_, rfl, hlist, hout.mono (by omega), h.set ?_ ?_ ?_⟩
  · have htake : block_list [b, 0] = [b] := by simp [block_list, h.attached]
    unfold delete_entry
    simp only [h.addresses (Or.inr rfl), htake, delete_blocks, hbase, if_neg hnotdot, hfirst]
  · refine Chain.cons_outside hbase hdotlive.sound ?_ ?_
    · rw [hstart]
      exact hout
    · rw [hstart]
      exact hchain
  · intro x hx
    rcases List.mem_cons.mp hx with rfl | hx
    · exact hdotlive
    · exact hlive₁ x hx
  · obtain ⟨e', post, rfl, he'⟩ := delete_list_head hdel
    exact ⟨dot, e', post, rfl, hone, hdotlen, he'.trans htwo, by rw [htotal₁]; exact hsmall⟩

inductive Dir_op
  | attach (file_name : List UInt8) (inode_number : Nat)
  | delete (file_name : List UInt8)

variable (c i) in
/-- The operation on the image. -/
def Dir_op.run : Dir_op → Worker_state → Except Crash Worker_state
  | .attach file_name inode_number, w =>
    (attach_entry c i (create_entry file_name inode_number)
      (w.file.TOTAL_UNALLOCATED_BLOCKS + 1) w).map Prod.snd
  | .delete file_name, w =>
    (delete_entry c w.file i file_name).map fun fs => { w with file := fs }

/-- The operation on the map. -/
def Dir_op.apply : Dir_op → Name_map → Name_map
  | .attach file_name inode_number, M => Function.update M file_name (some inode_number)
  | .delete file_name, M => Function.update M file_name none

/-- New names of 40 bytes at most are attached; names that are there are deleted, but not the
first two. -/
def Dir_op.Legal : Dir_op → Name_map → Prop
  | .attach file_name inode_number, M => 0 < file_name.length ∧ file_name.length ≤ 40 ∧
      0 < inode_number ∧ inode_number < 2 ^ 32 ∧ M file_name = none
  | .delete file_name, M => M file_name ≠ none ∧ file_name ≠ [46] ∧ file_name ≠ [46, 46]

variable (c i) in
/-- Some entry of the directory has more room than it needs, by `room` at least. -/
def Slack (w : Worker_state) (room : Nat) : Prop :=
  ∃ es, read_directory c w.file (w.file.inode i) = .ok es ∧
    ∃ e ∈ es, room ≤ e.entry_len - get_padded_size e

variable (c i) in
/-- The room that `attach_entry` asks for: more than the new entry without its padding. -/
def Dir_op.Room : Dir_op → Worker_state → Prop
  | .attach file_name _, w => Slack c i w (8 + file_name.length + 1)
  | .delete _, _ => True

variable (c i) in
def dir_step (s : Worker_state × Name_map) (op : Dir_op) (t : Worker_state × Name_map) : Prop :=
  op.Legal s.2 ∧ op.run c i s.1 = .ok t.1 ∧ t.2 = op.apply s.2

/-- The directory of one block as `create_file_dir` builds it, for the inode `own` in the
directory `parent`. -/
structure Built (c : Superblock_constants) (fs : Image) (i b own parent : Nat) : Prop where
  block_size : 1024 ∣ c.BLOCK_SIZE
  size : (fs.inode i).size = c.BLOCK_SIZE
  blocks : (fs.inode i).blocks = c.BLOCK_SIZE / 512
  pointer : (fs.inode i).pointer_data_0 0 = b
  attached : b ≠ 0
  numbers : own ≠ 0 ∧ parent ≠ 0
  entries : Chain (flat c fs) (block_start c b + c.BLOCK_SIZE) (block_start c b)
    [⟨own, 12, 1, 0, [46]⟩, ⟨parent, c.BLOCK_SIZE - 12, 2, 0, [46, 46]⟩]

def built_map (own parent : Nat) : Name_map :=
  Function.update (Function.update (fun _ => none) [46] (some own)) [46, 46] (some parent)

/-- What the claim about a directory says of a state: it is read as the map, its entries have
the lengths they should, and nothing else in the image has changed. -/
structure Refines (c : Superblock_constants) (fs : Image) (i b : Nat)
    (s : Worker_state × Name_map) : Prop where
  read : ∃ es, read_directory c s.1.file (s.1.file.inode i) = .ok es ∧ Lists es s.2 ∧
    Chain (flat c s.1.file) (block_start c b + c.BLOCK_SIZE) (block_start c b) es ∧
    (∀ e ∈ es, e.entry_len % 4 = 0 ∧ get_padded_size e ≤ e.entry_len) ∧
    total es = c.BLOCK_SIZE
  outside : ∃ block, s.1.file = { fs with block := block } ∧
    ∀ d, d ≠ slot c b → block d = fs.block d

theorem Built.one_block {own parent : Nat} (h : Built c fs i b own parent) :
    One_block c fs i b [⟨own, 12, 1, 0, [46]⟩, ⟨parent, c.BLOCK_SIZE - 12, 2, 0, [46, 46]⟩] := by
  obtain ⟨k, hk⟩ := h.block_size
  have hpos := c.size_pos
  have hfits := (h.entries.fits _ (List.mem_cons_of_mem _ List.mem_cons_self)).entry_len
  refine ⟨h.size, h.blocks, h.pointer, h.attached, h.entries, ?_,
    _, _, [], rfl, rfl, rfl, rfl, ?_⟩
  · intro e he
    simp only [List.mem_cons, List.not_mem_nil, or_false] at he
    rcases he with rfl | rfl
    · exact ⟨h.numbers.1, Nat.one_pos, by norm_num, by norm_num [get_padded_size]⟩
    · refine ⟨h.numbers.2, Nat.two_pos, ?_, ?_⟩
      · simp only
        omega
      · simp only [get_padded_size]
        norm_num
        omega
  · simpa using hfits

theorem built_lists {own parent len : Nat} :
    Lists [⟨own, 12, 1, 0, [46]⟩, ⟨parent, len, 2, 0, [46, 46]⟩] (built_map own parent) := by
  have hempty : Lists [] fun _ => none := ⟨List.nodup_nil, by simp [pairs]⟩
  have hdot := lists_insert (e := ⟨own, 12, 1, 0, [46]⟩) hempty rfl
  have hdotdot := lists_insert (e := ⟨parent, len, 2, 0, [46, 46]⟩) hdot rfl
  exact lists_of_perm hdotdot (List.Perm.swap _ _ _)

/-- The invariant of a run that started with `fs`. -/
structure Holds (c : Superblock_constants) (fs : Image) (i b : Nat)
    (s : Worker_state × Name_map) : Prop where
  entries : ∃ es, One_block c s.1.file i b es ∧ Lists es s.2
  outside : ∃ block, s.1.file = { fs with block := block } ∧
    ∀ d, d ≠ slot c b → block d = fs.block d

theorem Holds.refines {s : Worker_state × Name_map} (h : Holds c fs i b s) :
    Refines c fs i b s := by
  obtain ⟨es, hone, hlists⟩ := h.entries
  exact ⟨⟨es, hone.read, hlists, hone.chain,
    fun e he => ⟨(hone.live e he).aligned, (hone.live e he).room⟩, hone.total⟩, h.outside⟩

/-- Bytes written in the block only. -/
theorem outside_set_flat {block : Nat → Nat → UInt8}
    (hfile : w.file = { fs with block := block }) (hblock : ∀ d, d ≠ slot c b → block d = fs.block d)
    (hout : Outside (flat c w.file) m (block_start c b) (block_start c b + c.BLOCK_SIZE)) :
    ∃ block, set_flat c w.file m = { fs with block := block } ∧
      ∀ d, d ≠ slot c b → block d = fs.block d := by
  refine ⟨(set_flat c w.file m).block, ?_, ?_⟩
  · simp only [set_flat, hfile]
  · intro d hd
    rw [set_flat_block hout hd, hfile]
    exact hblock d hd

/-- An operation that is legal and has the room it asks for returns, and keeps the invariant. -/
theorem Holds.step {s : Worker_state × Name_map} {op : Dir_op} (h : Holds c fs i b s)
    (hlegal : op.Legal s.2) (hroom : op.Room c i s.1) :
    ∃ w, op.run c i s.1 = .ok w ∧ Holds c fs i b (w, op.apply s.2) := by
  obtain ⟨⟨es, hone, hlists⟩, block, hfile, hblock⟩ := h
  cases op with
  | attach name ino =>
    obtain ⟨hname, hlen, hino, h32, hnew⟩ := hlegal
    obtain ⟨es₁, hread, e, he, hfree⟩ := hroom
    obtain rfl : es = es₁ := Except.ok.inj (hone.read.symm.trans hread)
    obtain ⟨m, es', hrun, hlist, hout, hone'⟩ := attach_entry_one hone hname (by omega) hino h32
      ⟨e, he, by omega⟩ s.1.file.TOTAL_UNALLOCATED_BLOCKS
    refine ⟨_, by rw [Dir_op.run, hrun]; rfl, ⟨es', hone', ?_⟩,
      outside_set_flat hfile hblock hout⟩
    have hnamelen : (create_entry name ino).name_len = name.length := Nat.mod_eq_of_lt (by omega)
    have hentry : (create_entry name ino).entry_len = 8 + name.length :=
      Nat.mod_eq_of_lt (by omega)
    obtain ⟨-, -, hperm⟩ := attach_list_spec hlist hone.live (Nat.ne_of_gt hino)
      (by rw [hnamelen]; exact hname) (by rw [hentry, hnamelen])
    exact lists_of_perm (lists_insert hlists hnew) hperm
  | delete name =>
    obtain ⟨hthere, hdot, hdotdot⟩ := hlegal
    obtain ⟨ino, hino⟩ := Option.ne_none_iff_exists'.mp hthere
    obtain ⟨x, hx, hpair⟩ := List.mem_map.mp ((hlists.exact name ino).mp hino)
    obtain ⟨m, dot, es₀, es', hrun, rfl, hlist, hout, hone'⟩ :=
      delete_entry_one hone hdot hdotdot ⟨x, hx, congrArg Prod.fst hpair⟩
    refine ⟨_, by rw [Dir_op.run, hrun]; rfl, ⟨es', hone', ?_⟩,
      outside_set_flat hfile hblock hout⟩
    obtain ⟨-, -, e, rfl, hperm⟩ := delete_list_spec hlist hone.live
    exact lists_erase (lists_of_perm hlists hperm.symm)

/-- In every run of operations that have the room they ask for, the directory is the map after
each step, and the next such operation returns. -/
theorem directory_refines {own parent : Nat} {w : Worker_state} {ops : List Dir_op}
    {t : Worker_state × Name_map} (h : Built c w.file i b own parent)
    (hrun : Trace (Guarded (fun s op => op.Room c i s.1) (dir_step c i))
      (w, built_map own parent) ops t) :
    Refines c w.file i b t ∧
      ∀ op : Dir_op, op.Legal t.2 → op.Room c i t.1 → ∃ w', op.run c i t.1 = .ok w' := by
  have hinit : Holds c w.file i b (w, built_map own parent) :=
    ⟨⟨_, h.one_block, built_lists⟩, _, rfl, fun _ _ => rfl⟩
  have hholds : Holds c w.file i b t := by
    refine hrun.invariant ?_ hinit
    rintro s op ⟨w', M⟩ hs ⟨hroom, hlegal, hop, rfl⟩
    obtain ⟨w₁, hrun₁, hs'⟩ := hs.step hlegal hroom
    obtain rfl := Except.ok.inj (hop.symm.trans hrun₁)
    exact hs'
  refine ⟨hholds.refines, ?_⟩
  intro op hlegal hroom
  obtain ⟨w', hw', -⟩ := hholds.step hlegal hroom
  exact ⟨w', hw'⟩

/-- Blocks of 1024 bytes, none of them free, and the directory 2 in block 3 as it is built. -/
def full_disk : Image :=
  { two_used with
    TOTAL_UNALLOCATED_BLOCKS := 0
    inode := fun _ => ⟨EXT2_IFDIR, 1024, 1, 2, fun k => if k = 0 then 3 else 0, 0, 0, 0⟩
    block := fun _ => copy_entry (copy_entry (fun _ => 0) 0 ⟨2, 12, 1, 0, [46]⟩) 12
      ⟨2, 1012, 2, 0, [46, 46]⟩ }

theorem full_disk_built : Built (one_group 0 (by decide)) full_disk 2 3 2 2 where
  block_size := by decide
  size := rfl
  blocks := rfl
  pointer := rfl
  attached := by decide
  numbers := by decide
  entries := ⟨by decide, by decide, rfl⟩

theorem directory_refines_attach : ∃ t,
    Trace (Guarded (fun s op => op.Room (one_group 0 (by decide)) 2 s.1)
      (dir_step (one_group 0 (by decide)) 2))
      (⟨full_disk, none⟩, built_map 2 2) [.attach [97] 5] t ∧
    Refines (one_group 0 (by decide)) full_disk 2 3 t := by
  have hone := full_disk_built.one_block
  have hholds : Holds (one_group 0 (by decide)) full_disk 2 3 (⟨full_disk, none⟩, built_map 2 2) :=
    ⟨⟨_, hone, built_lists⟩, _, rfl, fun _ _ => rfl⟩
  have hlegal : (Dir_op.attach [97] 5).Legal (built_map 2 2) := by
    simp [Dir_op.Legal, built_map]
  have hroom : (Dir_op.attach [97] 5).Room (one_group 0 (by decide)) 2 ⟨full_disk, none⟩ :=
    ⟨_, hone.read, _, List.mem_cons_of_mem _ List.mem_cons_self, by decide⟩
  obtain ⟨w, hw, -⟩ := hholds.step hlegal hroom
  have hstep : Guarded (fun s op => op.Room (one_group 0 (by decide)) 2 s.1)
      (dir_step (one_group 0 (by decide)) 2) (⟨full_disk, none⟩, built_map 2 2) (.attach [97] 5)
      (w, (Dir_op.attach [97] 5).apply (built_map 2 2)) := ⟨hroom, hlegal, hw, rfl⟩
  exact ⟨_, .single hstep, (directory_refines full_disk_built (.single hstep)).1⟩

variable (c i) in
/-- The room that the new entry needs with its padding. -/
def Dir_op.Fit : Dir_op → Worker_state → Prop
  | .attach file_name inode_number, w =>
    Slack c i w (get_padded_size (create_entry file_name inode_number))
  | .delete _, _ => True

/-- Entries attached one after the other. -/
def attach_all : List (List UInt8 × Nat) → List entry_t → Option (List entry_t)
  | [], es => some es
  | (file_name, inode_number) :: l, es =>
    (attach_list (create_entry file_name inode_number) es).bind (attach_all l)

/-- More than what `attach_entry` asks for is at least what the entry needs. -/
theorem fit_of_room (hlen : file_name.length < 2 ^ 8) (hlive : e.Live)
    (h : 8 + file_name.length < e.entry_len - get_padded_size e) :
    get_padded_size (create_entry file_name inode_number) ≤ e.entry_len - get_padded_size e := by
  have hname : (create_entry file_name inode_number).name_len = file_name.length :=
    Nat.mod_eq_of_lt hlen
  have := padded_le (create_entry file_name inode_number)
  have := padded_mod (create_entry file_name inode_number)
  have := padded_mod e
  have := hlive.aligned
  omega

/-- Legal attachments that find room are a run of the directory. -/
theorem attach_all_run {w : Worker_state} {l : List (List UInt8 × Nat)}
    (hall : attach_all l es = some es') (hone : One_block c w.file i b es) (hlists : Lists es M)
    (hlegal : ∀ x ∈ l, 0 < x.1.length ∧ x.1.length ≤ 40 ∧ 0 < x.2 ∧ x.2 < 2 ^ 32)
    (hnodup : (l.map Prod.fst ++ es.map entry_t.file_name).Nodup) :
    ∃ t, Trace (Guarded (fun s op => op.Fit c i s.1) (dir_step c i)) (w, M)
        (l.map fun x => .attach x.1 x.2) t ∧
      One_block c t.1.file i b es' ∧ Lists es' t.2 ∧
      ∃ block, t.1.file = { w.file with block := block } := by
  induction l generalizing w M es with
  | nil =>
    obtain rfl := Option.some.inj hall
    exact ⟨_, .refl, hone, hlists, _, rfl⟩
  | cons x l ih =>
    obtain ⟨name, ino⟩ := x
    obtain ⟨hname, hlen, hino, h32⟩ :
        0 < name.length ∧ name.length ≤ 40 ∧ 0 < ino ∧ ino < 2 ^ 32 :=
      hlegal (name, ino) List.mem_cons_self
    obtain ⟨es₁, hlist, hall⟩ := Option.bind_eq_some_iff.mp hall
    have hnamelen : (create_entry name ino).name_len = name.length := Nat.mod_eq_of_lt (by omega)
    have hentry : (create_entry name ino).entry_len = 8 + name.length :=
      Nat.mod_eq_of_lt (by omega)
    have hroom : ∃ e ∈ es, 8 + name.length < e.entry_len - get_padded_size e := by
      obtain ⟨pre, e, post, rfl, hfree, -⟩ := attach_list_split hlist
      exact ⟨e, by simp, by omega⟩
    obtain ⟨m, es₂, hrun, hlist', -, hone'⟩ := attach_entry_one hone hname (by omega) hino h32
      hroom w.file.TOTAL_UNALLOCATED_BLOCKS
    obtain rfl : es₁ = es₂ := Option.some.inj (hlist.symm.trans hlist')
    obtain ⟨-, -, hperm⟩ := attach_list_spec hlist hone.live (Nat.ne_of_gt hino)
      (by rw [hnamelen]; exact hname) (by rw [hentry, hnamelen])
    rw [List.map_cons, List.cons_append, List.nodup_cons] at hnodup
    have hnew : M name = none := by
      apply Option.eq_none_iff_forall_ne_some.mpr
      intro k hk
      obtain ⟨y, hy, hpair⟩ := List.mem_map.mp ((hlists.exact name k).mp hk)
      exact hnodup.1 (List.mem_append_right _
        (List.mem_map.mpr ⟨y, hy, congrArg Prod.fst hpair⟩))
    have hnames : (es₁.map entry_t.file_name).Perm (name :: es.map entry_t.file_name) := by
      have := hperm.map Prod.fst
      simpa [pairs, Function.comp_def, create_entry] using this
    obtain ⟨t, htrace, ht⟩ := ih (w := { w with file := set_flat c w.file m }) hall hone'
      (lists_of_perm (lists_insert hlists hnew) hperm)
      (fun y hy => hlegal y (List.mem_cons_of_mem _ hy)) (by
        refine ((hnames.append_left _).nodup_iff).mpr ?_
        exact (List.perm_middle.nodup_iff).mpr (List.nodup_cons.mpr hnodup))
    obtain ⟨e, he, hfree⟩ := hroom
    obtain ⟨hone₁, hlists₁, block, hfile⟩ := ht
    refine ⟨t, .stepL ⟨⟨es, hone.read, e, he, ?_⟩, ⟨hname, hlen, hino, h32, hnew⟩, ?_, rfl⟩ htrace,
      hone₁, hlists₁, block, ?_⟩
    · exact fit_of_room (Nat.lt_of_le_of_lt hlen (by norm_num)) (hone.live e he) hfree
    · rw [Dir_op.run, hrun]
      rfl
    · rw [hfile]
      rfl

/-- Without a free block a name for which `attach_scan` finds no room is not attached. -/
theorem attach_entry_full {w : Worker_state} (h : One_block c w.file i b es)
    (hnone : attach_list new es = none) (hfits : new.Fits) (hlen : new.entry_len = 8 + new.name_len)
    (hpointers : ∀ k < 12, k ≠ 0 → (w.file.inode i).pointer_data_0 k = 0)
    (hfull : w.file.TOTAL_UNALLOCATED_BLOCKS = 0) (calls : Nat) :
    attach_entry c i new (calls + 1) w = .ok (false, { w with errno := some .ENOSPC }) := by
  have htake : block_list [b, 0] = [b] := by simp [block_list, h.attached]
  have hscan := attach_scan_chain h.chain h.live hfits hlen h.turns
  rw [hnone] at hscan
  have hsub : sub_entries (w.file.inode i).pointer_data_0 12 = 1 := by
    have h0 : (w.file.inode i).pointer_data_0 0 ≠ 0 := h.pointer ▸ h.attached
    have h1 := hpointers 1 (by omega) (by omega)
    simp [sub_entries, List.range_succ_eq_map, h0, h1]
  have hfree : Get_Free_Blocks c w.file 1 = none := by
    simp [Get_Free_Blocks, Get_Free_Blocks_reserve, hfull]
  unfold attach_entry
  simp only [h.addresses (Or.inr rfl), htake, attach_blocks, hscan, Attach_Blocks,
    Attach_Blocks_level0, hsub]
  norm_num [hfree]

def forty (k : UInt8) : List UInt8 := k :: List.replicate 39 97

/-- Twenty names of 40 bytes. -/
def twenty : List (List UInt8 × Nat) :=
  [1, 2, 3, 4, 5, 6, 7, 8, 9, 10, 11, 12, 13, 14, 15, 16, 17, 18, 19, 20].map fun k =>
    (forty k, 5)

/-- Twenty names of 40 bytes leave 40 bytes of room, which a name of 32 bytes needs and does
not get: it is not attached. -/
theorem exact_fit_refused : ∃ ops t, Built (one_group 0 (by decide)) full_disk 2 3 2 2 ∧
    Trace (Guarded (fun s op => op.Fit (one_group 0 (by decide)) 2 s.1)
      (dir_step (one_group 0 (by decide)) 2)) (⟨full_disk, none⟩, built_map 2 2) ops t ∧
    ¬ Refines (one_group 0 (by decide)) full_disk 2 3 t := by
  obtain ⟨es, hall⟩ : ∃ es, attach_all twenty
      [⟨2, 12, 1, 0, [46]⟩, ⟨2, 1012, 2, 0, [46, 46]⟩] = some es :=
    Option.isSome_iff_exists.mp (by decide)
  have hrest : (attach_all twenty [⟨2, 12, 1, 0, [46]⟩, ⟨2, 1012, 2, 0, [46, 46]⟩]).all
      (fun es => (attach_list (create_entry (List.replicate 32 98) 6) es).isNone ∧
        (es.any fun e => 40 ≤ e.entry_len - get_padded_size e) ∧
        List.replicate 32 98 ∉ es.map entry_t.file_name) = true := by decide
  rw [hall, Option.all_some, decide_eq_true_eq, Option.isNone_iff_eq_none, List.any_eq_true]
    at hrest
  obtain ⟨hnone, ⟨e, he, hroom⟩, hnew⟩ := hrest
  obtain ⟨t, hrun, hone, hlists, block, hfile⟩ :=
    attach_all_run hall full_disk_built.one_block built_lists (w := ⟨full_disk, none⟩)
      (by decide) (by decide)
  have hfits : (create_entry (List.replicate 32 98) 6).Fits := create_entry_fits (by decide)
    (by decide)
  have hpointers : ∀ k < 12, k ≠ 0 → (t.1.file.inode 2).pointer_data_0 k = 0 := by
    intro k _ hk
    rw [hfile]
    exact if_neg hk
  have hrefused := attach_entry_full hone hnone hfits (by decide) hpointers (by rw [hfile]; rfl)
    t.1.file.TOTAL_UNALLOCATED_BLOCKS
  have hmap : t.2 (List.replicate 32 98) = none := by
    apply Option.eq_none_iff_forall_ne_some.mpr
    intro k hk
    obtain ⟨y, hy, hpair⟩ := List.mem_map.mp ((hlists.exact _ k).mp hk)
    exact hnew (List.mem_map.mpr ⟨y, hy, congrArg Prod.fst hpair⟩)
  have hstep : Guarded (fun s op => op.Fit (one_group 0 (by decide)) 2 s.1)
      (dir_step (one_group 0 (by decide)) 2) t (.attach (List.replicate 32 98) 6)
      ({ t.1 with errno := some .ENOSPC },
        Function.update t.2 (List.replicate 32 98) (some 6)) := by
    refine ⟨⟨es, hone.read, e, he, ?_⟩, ⟨by decide, by decide, by decide, by decide, hmap⟩, ?_, rfl⟩
    · exact of_decide_eq_true hroom
    · rw [Dir_op.run, hrefused]
      rfl
  refine ⟨_, _, full_disk_built, hrun.snoc hstep, ?_⟩
  rintro ⟨⟨es', hread, hlists', -⟩, -⟩
  obtain rfl : es = es' := Except.ok.inj (hone.read.symm.trans hread)
  have hset : Function.update t.2 (List.replicate 32 98) (some 6) (List.replicate 32 98) = some 6 :=
    Function.update_self ..
  have hthere := (hlists'.exact (List.replicate 32 98) 6).mp hset
  rw [← hlists.exact, hmap] at hthere
  cases hthere

end LaLiga.Rfs
