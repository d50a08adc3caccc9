import LaLiga.Rfs.Creation
import LaLiga.Rfs.DeleteFile

/-! `create_file_dir` for a file whose name one of the blocks of the parent directory has room
for. -/
namespace LaLiga.Rfs

open LaLiga.Lib

section Put

variable {m : Bytes} {p last : Nat} {e new : entry_t} {after : List entry_t}

/-- The new entry behind one in use or in the place of one without a name, in a block where every
entry has the room that it needs. -/
theorem put_sound (h : Chain m last p (e :: after)) (hsound : ∀ x ∈ e :: after, x.Sound)
    (hnew : new.Fits) (hlen : new.entry_len = 8 + new.name_len) (hinode : new.inode_number ≠ 0)
    (hroom : has_room new e) (hnamed : e.inode_number ≠ 0 → 0 < e.name_len) :
    ∃ es, Chain (put_entry m p new) last p es ∧ (∀ x ∈ es, x.Sound) ∧
      contents (es.filter fun x => x.inode_number ≠ 0) =
        contents (([e].filter fun x => x.inode_number ≠ 0) ++ new ::
          after.filter fun x => x.inode_number ≠ 0) ∧
      Outside m (put_entry m p new) p last := by
  have hends := h.ends
  have he := hsound e (by simp)
  have halign := he.aligned
  have hname := le_padded e
  have hmod := padded_mod e
  have hneeds := padded_le new
  have hmod' := padded_mod new
  have hput := put_entry_read h.1 hnew hlen hroom
  rw [total_cons] at hends
  unfold has_room at hroom
  have hbehind : Chain (put_entry m p new) last (p + e.entry_len) after :=
    h.2.behind fun q hq => hput.others q (Or.inr hq)
  have hrest : ∀ x ∈ after, x.Sound := fun x hx => hsound x (by simp [hx])
  have hout : Outside m (put_entry m p new) p last := fun q hq => hput.others q (by omega)
  by_cases hsplit : 8 < get_padded_size e
  · obtain ⟨hself, hnext⟩ := hput.split hsplit
    have hstart : p + get_padded_size e + (e.entry_len - get_padded_size e) = p + e.entry_len := by
      omega
    refine ⟨{ e with entry_len := get_padded_size e } ::
      { new with entry_len := e.entry_len - get_padded_size e } :: after,
      ⟨hself, hnext, ?_⟩, ?_, ?_, hout⟩
    · simp only [hstart]
      exact hbehind
    · refine List.forall_mem_cons.mpr ⟨⟨hmod, le_rfl⟩, List.forall_mem_cons.mpr ⟨⟨?_, ?_⟩, hrest⟩⟩
      · show (e.entry_len - get_padded_size e) % 4 = 0
        omega
      · show get_padded_size new ≤ e.entry_len - get_padded_size e
        omega
    · by_cases hused : e.inode_number = 0
      · rw [List.filter_cons_of_neg (by simpa using hused),
          List.filter_cons_of_pos (by simpa using hinode),
          List.filter_cons_of_neg (by simpa using hused)]
        rfl
      · rw [List.filter_cons_of_pos (by simpa using hused),
          List.filter_cons_of_pos (by simpa using hinode),
          List.filter_cons_of_pos (by simpa using hused)]
        rfl
  · -- an entry as short as that has no name, and is not in use
    have hunused : e.inode_number = 0 := by
      by_contra hused
      have := hnamed hused
      omega
    refine ⟨{ new with entry_len := e.entry_len } :: after,
      ⟨hput.taken (by omega), hbehind⟩, ?_, ?_, hout⟩
    · refine List.forall_mem_cons.mpr ⟨⟨halign, ?_⟩, hrest⟩
      show get_padded_size new ≤ e.entry_len
      omega
    · rw [List.filter_cons_of_pos (by simpa using hinode),
        List.filter_cons_of_neg (by simpa using hunused)]
      rfl

end Put

section Entering

variable {c : Superblock_constants} {live : Nat → Prop} {fs : Image} {p n : Nat} {name : Path}
  {ds pre post : List (Nat × List entry_t)} {before after es : List entry_t} {e new : entry_t}
  {b : Nat} {m : Bytes}

/-- The listing with other entries in one of the blocks. -/
theorem listing_put (hes : contents (es.filter fun x => x.inode_number ≠ 0) =
      contents (([e].filter fun x => x.inode_number ≠ 0) ++ new ::
        after.filter fun x => x.inode_number ≠ 0)) :
    (contents (listing (pre ++ (b, before ++ es) :: post))).Perm
      (contents (new :: listing (pre ++ (b, before ++ e :: after) :: post))) := by
  have hsplit : (e :: after).filter (fun x => x.inode_number ≠ 0) =
      ([e].filter fun x => x.inode_number ≠ 0) ++ after.filter fun x => x.inode_number ≠ 0 := by
    rw [← List.singleton_append, List.filter_append]
  rw [listing_append, listing_append, listing_cons, listing_cons, List.filter_append,
    List.filter_append, hsplit]
  simp only [contents_append, contents_cons, hes]
  simp only [← List.append_assoc, ← List.cons_append]
  refine List.Perm.append_right _ (List.perm_middle.trans ?_)
  simp only [← List.cons_append]
  exact .refl _

theorem create_entry_len (hlong : name.length < 2 ^ 8) :
    (create_entry name n).entry_len = 8 + (create_entry name n).name_len := by
  show (8 + name.length) % 2 ^ 16 = 8 + name.length % 2 ^ 8
  omega

/-- The first entry with room gets the new one beside it, and all others stay. -/
theorem Directory.entered (h : Directory c live p ds fs) (hsize : Ext2_size c) (hpool : Pool c fs)
    (hroom : Roomy name ds) (hlong : name.length < 2 ^ 8) (hn : n < 2 ^ 32) (hne : n ≠ 0)
    (hnamed : ∀ e ∈ listing ds, e.file_name ≠ [])
    (hmissing : ∀ e ∈ listing ds, e.file_name ≠ name) :
    ∃ m ds', attach_blocks c (flat c fs) (create_entry name n) (ds.map Prod.fst) = .ok (some m) ∧
      Directory c live p ds' (set_flat c fs m) ∧
      (contents (listing ds')).Perm (contents (create_entry name n :: listing ds)) ∧
      ∀ b ∉ ds.map Prod.fst, (set_flat c fs m).block b = fs.block b := by
  obtain ⟨d, hd, hhas⟩ := hroom
  obtain ⟨pre, ⟨b, es⟩, post, rfl, hfull, hhere⟩ :=
    exists_first (P := fun d => ∀ e ∈ d.2, ¬ has_room (create_entry name n) e)
      ⟨d, hd, fun hall => hhas.elim fun e he => hall e he.1 he.2⟩
  have hhere : ∃ e ∈ es, ¬ ¬ has_room (create_entry name n) e := by
    by_contra hnone
    exact hhere fun e he hroom => hnone ⟨e, he, not_not.mpr hroom⟩
  obtain ⟨before, e, after, rfl, hpassed, hroom⟩ := exists_first hhere
  have hroom := not_not.mp hroom
  have hmem : (b, before ++ e :: after) ∈ pre ++ (b, before ++ e :: after) :: post := by simp
  have hchain := h.chain _ hmem
  have hsound := h.sound _ hmem
  obtain ⟨hbefore, hbehind⟩ := chain_append.mp hchain
  have hends := hbehind.ends
  have hused : e.inode_number ≠ 0 → 0 < e.name_len := by
    intro hused
    have hin : e ∈ listing (pre ++ (b, before ++ e :: after) :: post) := by
      rw [listing, List.mem_filter, List.mem_flatMap]
      exact ⟨⟨_, hmem, by simp⟩, decide_eq_true hused⟩
    rw [← (hchain.fits e (by simp)).file_name]
    exact List.length_pos_of_ne_nil (hnamed e hin)
  obtain ⟨es, hput, hsound', hes, hout⟩ := put_sound hbehind
    (fun x hx => hsound x (List.mem_append_right _ hx)) (create_entry_fits hlong hn)
      (create_entry_len hlong) hne hroom hused
  -- the walk of the blocks comes to the entry
  have hshort := entries_short h.chain h.linked.positive hmem
  rw [List.length_append, List.length_cons] at hshort
  have hturns : before.length < c.BLOCK_SIZE + 1 := by omega
  have hscan := attach_scan_put hchain
    (fun x hx => (hsound x (List.mem_append_left _ hx)).positive) hpassed hroom hturns
  obtain ⟨m, hm⟩ : ∃ m, m = put_entry (flat c fs) (block_start c b + total before)
    (create_entry name n) := ⟨_, rfl⟩
  rw [← hm] at hput hout hscan
  have hpre : ∀ d ∈ pre, d ∈ pre ++ (b, before ++ e :: after) :: post :=
    fun d hd => List.mem_append_left _ hd
  have hrun : attach_blocks c (flat c fs) (create_entry name n)
      ((pre ++ (b, before ++ e :: after) :: post).map Prod.fst) =
        .ok (some m) := by
    rw [List.map_append, List.map_cons, attach_blocks_ahead (fun d hd => h.chain d (hpre d hd))
      (fun d hd => h.linked.positive d (hpre d hd)) hfull, attach_blocks, hscan]
  have hstart : block_start c b = b * c.BLOCK_SIZE := h.linked.start hsize hpool hmem
  have houtside : Outside (flat c fs) m (block_start c b) (block_start c b + c.BLOCK_SIZE) :=
    hout.mono (Nat.le_add_right _ _)
  have hblock : ∀ d ∉ (pre ++ (b, before ++ e :: after) :: post).map Prod.fst,
      (set_flat c fs m).block d = fs.block d := by
    intro d hd
    apply set_flat_block houtside
    rintro rfl
    apply hd
    rw [hpool.slot (h.linked.isBlock hsize hpool hmem)]
    exact List.mem_map_of_mem hmem
  have hperm : (contents (listing (pre ++ (b, before ++ es) :: post))).Perm
      (contents (create_entry name n :: listing (pre ++ (b, before ++ e :: after) :: post))) :=
    listing_put hes
  refine ⟨m, pre ++ (b, before ++ es) :: post, hrun, ?_, hperm, hblock⟩
  refine h.set hsize hpool hblock (by simp) ?_ ?_ ?_
  · have hothers : ∀ d ∈ pre ++ (b, before ++ e :: after) :: post, d.1 ≠ b →
        Chain m (block_start c d.1 + c.BLOCK_SIZE) (block_start c d.1) d.2 := by
      intro d hd hne
      have hstart' := h.linked.start hsize hpool hd
      have hapart := blocks_apart (c := c) hne
      refine (h.chain d hd).congr (h.sound d hd) fun q hlo hhi => (houtside q ?_).symm
      omega
    have hnodup := h.linked.nodup hsize hpool
    rw [List.map_append, List.map_cons, List.nodup_append', List.nodup_cons] at hnodup
    intro d hd
    rcases List.mem_append.mp hd with hd | hd
    · refine hothers d (hpre d hd) fun heq => ?_
      exact hnodup.2.2 (List.mem_map_of_mem hd) (heq ▸ List.mem_cons_self)
    · rcases List.mem_cons.mp hd with rfl | hd
      · refine chain_append.mpr ⟨hbefore.congr ?_ ?_, hput⟩
        · exact fun x hx => hsound x (List.mem_append_left _ hx)
        · exact fun q _ hhi => (hout q (Or.inl hhi)).symm
      · refine hothers d (by simp [hd]) fun heq => ?_
        have hin : d.1 ∈ post.map Prod.fst := List.mem_map_of_mem hd
        rw [heq] at hin
        exact hnodup.2.1.1 hin
  · intro d hd x hx
    rcases List.mem_append.mp hd with hd | hd
    · exact h.sound d (hpre d hd) x hx
    · rcases List.mem_cons.mp hd with rfl | hd
      · rcases List.mem_append.mp hx with hx | hx
        · exact hsound x (List.mem_append_left _ hx)
        · exact hsound' x hx
      · exact h.sound d (by simp [hd]) x hx
  · have hnames := hperm.map entry_t.file_name
    rw [contents_names, contents_names, List.map_cons] at hnames
    refine hnames.nodup_iff.mpr (List.nodup_cons.mpr ⟨?_, h.names⟩)
    intro hin
    obtain ⟨x, hx, heq⟩ := List.mem_map.mp hin
    exact hmissing x hx heq

end Entering

/-- The inodes `live` and `i`. -/
def With (live : Nat → Prop) (i j : Nat) : Prop := live j ∨ j = i

/-- The empty file of the inode `i` is there, listed in the directory `p` by its name. -/
structure File_created (c : Superblock_constants) (live reserved : Nat → Prop) (p i mode : Nat)
    (name : Path) (ds ds' : List (Nat × List entry_t)) (fs fs' : Image) : Prop where
  fresh : ¬ live i
  parent : Directory c (With live i) p ds' fs'
  listing : (contents (listing ds')).Perm (contents (create_entry name i :: listing ds))
  stored : Stored c (With live i) i 0 [] fs'
  regular : (fs'.inode i).mode = (mode ||| EXT2_IFREG) % 2 ^ 16
  allocated : ∃ g < c.TOTAL_GROUPS, ∃ k < c.INODES_PER_GROUP, i = inode_number c g k
  bits : ∀ g < c.TOTAL_GROUPS, ∀ k < c.INODES_PER_GROUP,
    (inode_bit fs' g k = true ↔ inode_bit fs g k = true ∨ inode_number c g k = i)
  accounted : mode &&& EXT2_IFDIR = 0 → Accounted c fs'
  audited : Audited c (With live i) reserved fs'
  others : ∀ j ≠ i, fs'.inode j = fs.inode j
  files : ∀ j N bytes, j ≠ p → Stored c live j N bytes fs →
    Stored c (With live i) j N bytes fs' ∧ Same_data c j N fs fs'
  directories : ∀ j es, j ≠ p → Directory c live j es fs → Directory c (With live i) j es fs'

section Taking

variable {c : Superblock_constants} {live reserved : Nat → Prop} {fs fs' : Image} {i j N : Nat}
  {bytes : List UInt8} {ds : List (Nat × List entry_t)} (hblock : fs'.block = fs.block)
  (hothers : ∀ j ≠ i, fs'.inode j = fs.inode j) (hi : ¬ live i)
include hblock hothers hi

theorem Stored.with (h : Stored c live j N bytes fs) : Stored c (With live i) j N bytes fs' := by
  have hj : j ≠ i := fun hj => hi (hj ▸ h.held)
  have hptr : ∀ s q, ptr c fs' j s q = ptr c fs j s q :=
    fun s q => ptr_of_inode hblock (hothers j hj)
  have hmore : Stored c (With live i) j N bytes fs := h.fewer (Or.inl h.held)
  refine hmore.congr ?_ ?_ ?_ ?_
  · rw [hothers j hj]
  · rw [hothers j hj]
  · intro s q hvalid
    rw [hptr]
    exact h.full s q hvalid
  · intro k _ _
    rw [byte_at, byte_at, block_at, block_at, hptr, hblock]

variable (hsame : Same_blocks c fs fs') (hempty : ∀ s, pointer (fs'.inode i) s = 0)
include hsame hempty

omit hi hsame in
/-- A pointer that is set is not one of the new inode. -/
theorem ptr_with {x : Node} (hx : Held c (With live i) x) (hne : x.ptr c fs' ≠ 0) :
    Held c live x ∧ x.ptr c fs' = x.ptr c fs := by
  have hi : x.inode ≠ i := fun heq => hne (ptr_below_suffix List.nil_suffix (by
    rw [ptr_nil, heq]
    exact hempty _))
  exact ⟨⟨hx.inode.resolve_right hi, hx.valid⟩, ptr_of_inode hblock (hothers _ hi)⟩

omit hi in
theorem Owned.with (h : Owned c live fs) : Owned c (With live i) fs' := by
  have hback : ∀ x, Held c (With live i) x → x.ptr c fs' ≠ 0 →
      Held c live x ∧ x.ptr c fs' = x.ptr c fs :=
    fun x => ptr_with hblock hothers hempty
  constructor
  · intro x y hx hy hne heq
    obtain ⟨hx, hptr⟩ := hback x hx hne
    obtain ⟨hy, hptr'⟩ := hback y hy (heq ▸ hne)
    rw [hptr] at hne heq
    exact h.inj x y hx hy hne (heq.trans hptr')
  · intro x hx hne
    obtain ⟨hx, hptr⟩ := hback x hx hne
    rw [hptr] at hne ⊢
    exact h.block x hx hne
  · intro x hx hne
    obtain ⟨hx, hptr⟩ := hback x hx hne
    rw [hptr] at hne ⊢
    rw [hsame.used (h.block x hx hne)]
    exact h.used x hx hne

theorem Audited.with (h : Audited c live reserved fs) : Audited c (With live i) reserved fs' := by
  refine ⟨h.owned.with hblock hothers hsame hempty, hsame.pool h.pool, ?_, ?_⟩
  · intro b hb
    rw [hsame.used hb, h.used_iff b hb]
    refine or_congr_right ⟨?_, ?_⟩
    · rintro ⟨x, hx, heq⟩
      have hne : x.inode ≠ i := fun heq => hi (heq ▸ hx.inode)
      have hptr : x.ptr c fs' = x.ptr c fs := ptr_of_inode hblock (hothers _ hne)
      exact ⟨x, ⟨Or.inl hx.inode, hx.valid⟩, hptr.trans heq⟩
    · rintro ⟨x, hx, heq⟩
      obtain ⟨hx, hptr⟩ := ptr_with hblock hothers hempty hx (heq.trans_ne hb.ne_zero)
      exact ⟨x, hx, hptr.symm.trans heq⟩
  · intro x hx hne
    obtain ⟨hx, hptr⟩ := ptr_with hblock hothers hempty hx hne
    rw [hptr] at hne ⊢
    exact h.apart x hx hne

theorem Directory.with (h : Directory c live j ds fs) : Directory c (With live i) j ds fs' := by
  have hj : j ≠ i := fun hj => hi (hj ▸ h.held)
  have hptr : ∀ s q, ptr c fs' j s q = ptr c fs j s q :=
    fun s q => ptr_of_inode hblock (hothers j hj)
  have hflat : flat c fs' = flat c fs := by
    funext q
    rw [flat, flat, hblock]
  constructor
  · exact h.owned.with hblock hothers hsame hempty
  · exact Or.inl h.held
  · intro s q hleaf
    rw [hptr]
    exact h.filled s q hleaf
  · exact h.attached.trans (List.map_congr_left fun m _ => (hptr _ _).symm)
  · rw [hothers j hj]
    exact h.size
  · rw [hothers j hj]
    exact h.blocks
  · exact h.fits
  · rw [hflat]
    exact h.chain
  · exact h.sound
  · exact h.names

end Taking

theorem regular_mode (mode : Nat) : (mode ||| EXT2_IFREG) % 2 ^ 16 &&& EXT2_IFREG ≠ 0 := by
  intro h
  have hreg : EXT2_IFREG.testBit 15 = true := by decide
  have hbit := congrArg (Nat.testBit · 15) h
  simp only [Nat.testBit_and, Nat.testBit_mod_two_pow, Nat.testBit_or, hreg, Bool.or_true,
    Bool.and_true, Nat.zero_testBit] at hbit
  exact absurd hbit (by decide)

/-- A mode without the bit of directories stays without it. -/
theorem regular_plain {mode : Nat} (h : mode &&& EXT2_IFDIR = 0) :
    (mode ||| EXT2_IFREG) % 2 ^ 16 &&& EXT2_IFDIR = 0 := by
  have hsplit : (mode ||| EXT2_IFREG) &&& EXT2_IFDIR = 0 := by
    rw [Nat.and_or_distrib_right, h]
    decide
  apply Nat.eq_of_testBit_eq
  intro k
  have hbit := congrArg (Nat.testBit · k) hsplit
  simp only [Nat.testBit_and, Nat.testBit_mod_two_pow, Nat.zero_testBit] at hbit ⊢
  rw [Bool.and_assoc, hbit, Bool.and_false]

section Main

variable {c : Superblock_constants} {live reserved : Nat → Prop} {w : Worker_state} {p : Nat}
  {names : List Path} {name : Path} {ds : List (Nat × List entry_t)} (params : Create_params)
  (hsize : Ext2_size c) (hacc : Audited c live reserved w.file) (hcounts : Accounted c w.file)
  (hbits : ∀ j, live j → ∃ g < c.TOTAL_GROUPS, ∃ k < c.INODES_PER_GROUP,
    j = inode_number c g k ∧ inode_bit w.file g k = true)
  (hnames : ∀ d ∈ names ++ [name], Component d) (hlong : name.length < 2 ^ 8)
  (hdirs : Directories_along c w.file ROOT_INODE_NUMBER (names ++ [name]))
  (hwalk : Leads c w.file ROOT_INODE_NUMBER names p)
  (hmissing : ∀ j, ¬ Leads c w.file ROOT_INODE_NUMBER (names ++ [name]) j)
  (h : Directory c live p ds w.file) (hnamed : ∀ e ∈ listing ds, e.file_name ≠ [])
  (hroom : Roomy name ds) (hsome : w.file.TOTAL_UNALLOCATED_INODES ≠ 0)
  (hpath : params.path = canonical (names ++ [name])) (hfile : params.file = true)
include hsize hacc hcounts hbits hnames hlong hdirs hwalk hmissing h hnamed hroom hsome hpath hfile

/-- A new file is empty and listed in its directory, in an inode that nothing had, and every other
file and directory is as it was. -/
theorem create_file_created : ∃ i fs' ds', create_file_dir c params w = .ok (0, ⟨fs', none⟩) ∧
    File_created c live reserved p i params.mode name ds ds' w.file fs' := by
  have hP := hsize.pointers
  have hpool := hacc.pool
  have hcons := hcounts.inodes
  have hlength := h.linked.extent.lt_levels hsize hpool
  rw [List.length_map] at hlength
  obtain ⟨g, k, hfirst, hrun⟩ := create_file_dir_inode hsize hpool hcons hnames hdirs hwalk
    hmissing hpath hsome
  obtain ⟨i, hi⟩ : ∃ i, i = inode_number c g k := ⟨_, rfl⟩
  have hlocate : Inode_locateGroup c i < c.TOTAL_GROUPS := hi ▸ hfirst.located hcons
  have hword : i < 2 ^ 32 := hi ▸ hfirst.word hcons
  have hpositive : i ≠ 0 := by
    rw [hi, inode_number]
    omega
  have hfresh : ¬ live i := by
    intro hlive
    obtain ⟨g', hg', k', hk', heq, hbit⟩ := hbits i hlive
    obtain ⟨rfl, rfl⟩ := inode_number_inj hfirst.bit_lt hk' (hi.symm.trans heq)
    rw [hfirst.clear] at hbit
    cases hbit
  have hunlisted : ∀ e ∈ listing ds, e.file_name ≠ name := by
    intro e he hname
    obtain ⟨es, hes⟩ := hdirs names [name] rfl (by simp) p hwalk
    have hread := hes.read hsize hpool
    rw [h.linked.read hsize hpool] at hread
    obtain rfl := Except.ok.inj hread
    exact hmissing _ (hname ▸ hwalk.snoc hes he)
  -- the entry is attached
  obtain ⟨m, ds', hput, hdirectory, hlisting, hblock⟩ := h.entered hsize hpool hroom hlong hword
    hpositive hnamed hunlisted
  obtain ⟨hpool₁, h₁, -⟩ := hfirst.taken hcons hpool h
  have hattach : attach_entry c p (create_entry name i) (w.file.TOTAL_UNALLOCATED_BLOCKS + 1)
      ⟨take_inode w.file g k, none⟩ =
        .ok (true, ⟨set_flat c (take_inode w.file g k) m, none⟩) :=
    attach_entry_put (w := ⟨take_inode w.file g k, none⟩) h₁.linked.extent hsize hpool₁ hput
  have hrewritten := h.rewritten hblock
  have hkept := hrewritten.others hP hacc.owned hpool h.held hlength.le
  have hacc₁ := hrewritten.audited hP h.held hlength.le hacc
  -- the inode is set
  obtain ⟨fs', hfs'⟩ : ∃ fs', fs' = setFileInode (set_flat c (take_inode w.file g k) m) i
    params.mode := ⟨_, rfl⟩
  have hinode : fs'.inode i = { empty_inode with
      links_count := 1
      mode := (params.mode ||| EXT2_IFREG) % 2 ^ 16 } := by
    rw [hfs']
    exact set_inode_self
  have hothers : ∀ j ≠ i, fs'.inode j = (set_flat c w.file m).inode j := by
    intro j hj
    rw [hfs']
    exact set_inode_of_ne hj
  have hdata : fs'.block = (set_flat c w.file m).block := by
    rw [hfs']
    rfl
  have hempty : ∀ s, pointer (fs'.inode i) s = 0 := by
    intro s
    rw [hinode, pointer]
    split_ifs <;> rfl
  have htaken : Same_blocks c (set_flat c w.file m) fs' := by
    have hsame : Same_blocks c w.file (take_inode w.file g k) :=
      same_blocks_set_inode_bit hcons hfirst.group_lt
    rw [hfs']
    exact ⟨hsame.total, hsame.gdt, hsame.bits⟩
  have hcreate : create_file_dir c params w = .ok (0, ⟨fs', none⟩) := by
    rw [hrun, ← hi, hattach, ok_bind, if_pos rfl, create_inode, Inode_Global_Read_eq hlocate,
      ok_bind, if_pos hfile, hfs']
    rfl
  have hbit : ∀ g', inode_bit fs' g' = inode_bit (take_inode w.file g k) g' := by
    intro g'
    rw [hfs']
    rfl
  refine ⟨i, fs', ds', hcreate, hfresh, ?_, hlisting, ?_, ?_, ?_, ?_, ?_, ?_, hothers, ?_, ?_⟩
  · exact hdirectory.with hdata hothers hfresh htaken hempty
  · have hnone : ∀ s q, ptr c fs' i s q = 0 := fun s q => ptr_below_suffix List.nil_suffix (by
      rw [ptr_nil]
      exact hempty s)
    refine ⟨Or.inr rfl, ?_, ?_, by decide, ?_, ?_, ?_, ?_⟩
    · rw [hinode]
      exact regular_mode _
    · rw [hinode]
      rfl
    · intro s q _
      rw [hnone]
      omega
    · rw [List.length_nil, Size_In_Blocks_le_iff]
      omega
    · intro k hk
      exact absurd hk (Nat.not_lt_zero k)
    · intro k _ hk
      exact absurd hk (Nat.not_lt_zero _)
  · rw [hinode]
  · exact ⟨g, hfirst.group_lt, k, hfirst.bit_lt, hi⟩
  · intro g' hg' k' hk'
    rw [hbit, take_inode, inode_bit_set hcons hfirst.group_lt hg']
    by_cases hgg : g' = g
    · subst hgg
      rw [if_pos rfl]
      by_cases hkk : k' = k
      · subst hkk
        simp [hi]
      · rw [Function.update_of_ne hkk]
        refine (or_iff_left fun heq => ?_).symm
        exact hkk (inode_number_inj hk' hfirst.bit_lt (heq.trans hi)).2
    · rw [if_neg hgg]
      refine (or_iff_left fun heq => ?_).symm
      exact hgg (inode_number_inj hk' hfirst.bit_lt (heq.trans hi)).1
  · intro hplain
    have htake := take_inode_consistent hcons hfirst.group_lt hfirst.bit_lt hfirst.clear
    have hclear : directory_bit c w.file g k = false := by
      rw [directory_bit, hfirst.clear]
      rfl
    have hcounted : Counted_but c (take_inode w.file g k) (inode_number c g k) :=
      counted_but_set_inode_bit hcons hfirst.group_lt
        ((counted_but_iff hfirst.group_lt hfirst.bit_lt hclear).mpr hcounts.directories)
    refine ⟨htake.congr ?_ (fun g' _ => hbit g') ?_, ?_⟩
    · intro g'
      rw [hfs']
      exact ⟨rfl, rfl, rfl⟩
    · rw [hfs']
      rfl
    · refine (counted_but_iff hfirst.group_lt hfirst.bit_lt ?_).mp (hcounted.congr ?_ ?_)
      · have hmode : (fs'.inode i).mode &&& EXT2_IFDIR = 0 := by
          rw [hinode]
          exact regular_plain hplain
        rw [directory_bit, ← hi, hmode]
        exact Bool.and_false _
      · intro g' _
        rw [hfs']
        rfl
      · intro g' _ k' _ hne
        rw [directory_bit, directory_bit, hbit, hothers _ (hi ▸ hne)]
        rfl
  · exact hacc₁.with hdata hothers hfresh htaken hempty
  · intro j N bytes hj hstored
    have hreach := filled_lt_levels hstored.full.filled hsize hacc.owned hpool hstored.held
    have hji : j ≠ i := fun heq => hfresh (heq ▸ hstored.held)
    exact ⟨(hkept.stored hP hstored hj hreach.le).with hdata hothers hfresh,
      (hkept.same_data hP hstored hj hreach.le).trans
        (same_data_of_inode hdata (hothers j hji))⟩
  · intro j es hj hd
    exact (hkept.directory hP hsize hpool hacc₁.owned hd hj).with hdata hothers hfresh htaken hempty

end Main

end LaLiga.Rfs
