import LaLiga.Rfs.DeleteEntry

/-! The entries that are taken from a directory and nothing else is changed. -/
namespace LaLiga.Rfs

open LaLiga.Lib

variable {c : Superblock_constants} {live : Nat → Prop} {fs fs' : Image} {i b p last n : Nat}
  {m m' : Bytes} {e : entry_t} {es es' after : List entry_t}
  {pre post ds : List (Nat × List entry_t)} {d : Nat × List entry_t} {file_name : List UInt8}

theorem set_entry_len_number : (set_entry_len m p n).number (p + 4) 2 = n % 2 ^ 16 := by
  have hread : (set_entry_len m p n).read (p + 4) (le 2 n).length = le 2 n := Bytes.read_write
  rw [le_length] at hread
  rw [Bytes.number, hread, ofLe_le]
  norm_num

section Merge

variable {next : Nat} (hnext : next = p + (entry_at m p).entry_len)
include hnext

/-- What `merge_next` writes beside the entry itself. -/
theorem merge_next_apart {q r : Nat} (h : r ≤ p ∨ p + 263 ≤ q) :
    Bytes.Agree (merge_next m p)
      (set_entry_len m next ((entry_at m next).entry_len + (entry_at m p).entry_len)) q r := by
  subst hnext
  unfold merge_next
  simp only
  generalize set_entry_len m (p + (entry_at m p).entry_len) _ = m₁
  have hfits : (entry_at m₁ (p + (entry_at m p).entry_len)).Fits := entry_at_fits
  have hname := hfits.name_len
  rcases h with h | h
  · exact copy_before h q
  · exact copy_after hfits (by omega) r

/-- The lengths of both entries are added. -/
theorem merge_next_number : (merge_next m p).number (p + 4) 2 =
    ((entry_at m next).entry_len + (entry_at m p).entry_len) % 2 ^ 16 := by
  have hcopied : entry_at (merge_next m p) p = entry_at
      (set_entry_len m next ((entry_at m next).entry_len + (entry_at m p).entry_len)) next := by
    subst hnext
    exact entry_at_copy entry_at_fits
  show (entry_at (merge_next m p) p).entry_len = _
  rw [hcopied]
  exact set_entry_len_number

end Merge

/-- Less than a block taken from a size leaves no size of whole blocks. -/
theorem shrunk_size {N N' B padded : Nat} (hN : 0 < N) (hfits : N * B < 2 ^ 31)
    (hpos : 0 < padded) (hlt : padded < B) :
    int32 ((N * B : Nat) - (padded : Nat)) ≠ ((N' * B : Nat) : Int) := by
  have hle : B ≤ N * B := Nat.le_mul_of_pos_left B hN
  rw [int32_of_lt (by omega) (by omega)]
  intro heq
  have hsum : N * B = padded + N' * B := by omega
  have hmod : (padded + N' * B) % B = 0 := by rw [← hsum, Nat.mul_mod_left]
  rw [Nat.add_mul_mod_self_right, Nat.mod_eq_of_lt hlt] at hmod
  omega

/-- Lengths from `p` to `last` that are not 0 stay, and so do inode numbers that are not. -/
def Words_kept (m m' : Bytes) (p last : Nat) : Prop :=
  ∀ s, s % 4 = 0 → p ≤ s → s + 8 ≤ last →
    (m.number (s + 4) 2 ≠ 0 → m'.number (s + 4) 2 = m.number (s + 4) 2) ∧
    (m.number s 4 ≠ 0 → m'.number s 4 ≠ 0)

theorem Words_kept.of_agree (h : Words_kept m m' p last) {m'' : Bytes}
    (hagree : Bytes.Agree m'' m' p last) : Words_kept m m'' p last := by
  intro s hs hlo hhi
  rw [(hagree.mono (by omega) (by omega) : Bytes.Agree m'' m' (s + 4) (s + 4 + 2)).number,
    (hagree.mono (by omega) (by omega) : Bytes.Agree m'' m' s (s + 4)).number]
  exact h s hs hlo hhi

/-- A chain where the lengths stay has as many entries in use at least. -/
theorem Chain.used_le (h : Chain m last p es) (h' : Chain m' last p es')
    (hsound : ∀ x ∈ es, x.Sound) (hsound' : ∀ x ∈ es', x.Sound) (hp : p % 4 = 0)
    (hwords : Words_kept m m' p last) :
    (es.filter fun x => x.inode_number ≠ 0).length ≤
      (es'.filter fun x => x.inode_number ≠ 0).length := by
  induction es generalizing p es' with
  | nil => simp
  | cons e es ih =>
    have he := hsound e (by simp)
    have hends := h.ends
    rw [total_cons] at hends
    have height := he.eight
    cases es' with
    | nil =>
      have hlast : p = last := h'
      omega
    | cons e' es' =>
      have haligned := he.aligned
      obtain ⟨hlen, hinode⟩ := hwords p hp le_rfl (by omega)
      have hlens : e'.entry_len = e.entry_len := by
        rw [← h'.1, ← h.1]
        apply hlen
        show (entry_at m p).entry_len ≠ 0
        rw [h.1]
        omega
      have hinodes : e.inode_number ≠ 0 → e'.inode_number ≠ 0 := by
        rw [← h'.1, ← h.1]
        exact hinode
      have hrest' : Chain m' last (p + e.entry_len) es' := by
        rw [← hlens]
        exact h'.2
      have hrest := ih h.2 hrest' (fun x hx => hsound x (by simp [hx]))
        (fun x hx => hsound' x (by simp [hx])) (by omega)
        (fun s hs hlo hhi => hwords s hs (by omega) hhi)
      by_cases hused : e.inode_number = 0
      · rw [List.filter_cons_of_neg (by simpa using hused)]
        refine hrest.trans (List.Sublist.length_le ?_)
        exact (List.sublist_cons_self e' es').filter _
      · rw [List.filter_cons_of_pos (by simpa using hused),
          List.filter_cons_of_pos (by simpa using hinodes hused)]
        simpa using hrest

/-- The same for the blocks of a directory. -/
theorem listing_le {ds' : List (Nat × List entry_t)} (hsame : ds'.map Prod.fst = ds.map Prod.fst)
    (hchain : ∀ d ∈ ds, Chain m (block_start c d.1 + c.BLOCK_SIZE) (block_start c d.1) d.2)
    (hchain' : ∀ d ∈ ds', Chain m' (block_start c d.1 + c.BLOCK_SIZE) (block_start c d.1) d.2)
    (hsound : ∀ d ∈ ds, ∀ x ∈ d.2, x.Sound) (hsound' : ∀ d ∈ ds', ∀ x ∈ d.2, x.Sound)
    (hstart : ∀ d ∈ ds, block_start c d.1 % 4 = 0)
    (hwords : ∀ d ∈ ds, Words_kept m m' (block_start c d.1) (block_start c d.1 + c.BLOCK_SIZE)) :
    (listing ds).length ≤ (listing ds').length := by
  induction ds generalizing ds' with
  | nil => simp [listing]
  | cons d ds ih =>
    obtain ⟨d', ds', rfl⟩ : ∃ d' l, ds' = d' :: l := by
      cases ds' with
      | nil => simp at hsame
      | cons d' l => exact ⟨d', l, rfl⟩
    rw [List.map_cons, List.map_cons, List.cons.injEq] at hsame
    have hd' := hchain' d' List.mem_cons_self
    rw [hsame.1] at hd'
    have hhead := (hchain d List.mem_cons_self).used_le hd' (hsound d List.mem_cons_self)
      (hsound' d' List.mem_cons_self) (hstart d List.mem_cons_self) (hwords d List.mem_cons_self)
    have htail := ih hsame.2 (fun x hx => hchain x (List.mem_cons_of_mem _ hx))
      (fun x hx => hchain' x (List.mem_cons_of_mem _ hx))
      (fun x hx => hsound x (List.mem_cons_of_mem _ hx))
      (fun x hx => hsound' x (List.mem_cons_of_mem _ hx))
      (fun x hx => hstart x (List.mem_cons_of_mem _ hx))
      (fun x hx => hwords x (List.mem_cons_of_mem _ hx))
    rw [listing_cons, listing_cons, List.length_append, List.length_append]
    omega

theorem number_halves : m.number p 4 = m.number p 2 + 2 ^ 16 * m.number (p + 2) 2 := by
  simp only [Bytes.number, Bytes.read, List.range_succ_eq_map, List.range_zero, List.map_cons,
    List.map_nil, ofLe]
  simp only [Nat.add_zero, Nat.zero_add, Nat.add_assoc, Nat.succ_eq_add_one, Nat.reduceAdd]
  omega

/-- A length written where there was none, at a multiple of 4. -/
theorem words_kept_set_len (hp : p % 4 = 0) (hzero : (entry_at m p).entry_len = 0) (hn : n ≠ 0)
    (hlt : n < 2 ^ 16) {q : Nat} : Words_kept m (set_entry_len m p n) q last := by
  have hle : (le 2 n).length = 2 := le_length
  intro s hs _ _
  constructor
  · intro hne
    have hsp : s ≠ p := by
      rintro rfl
      exact hne hzero
    rcases Nat.lt_or_gt_of_ne hsp with hlt | hgt
    · exact Bytes.Agree.number (Bytes.write_before (by omega))
    · exact Bytes.Agree.number (Bytes.write_after (by omega))
  · intro hne
    by_cases hsp : s = p + 4
    · rw [hsp, number_halves, set_entry_len_number, Nat.mod_eq_of_lt hlt]
      omega
    · have hsame : (set_entry_len m p n).number s 4 = m.number s 4 := by
        rcases Nat.lt_or_gt_of_ne hsp with hlt | hgt
        · exact Bytes.Agree.number (Bytes.write_before (by omega))
        · exact Bytes.Agree.number (Bytes.write_after (by omega))
      rw [hsame]
      exact hne

section Necessary

variable (h : Directory c live i ds fs) (hsize : Ext2_size c) (hpool : Pool c fs)
  (hthere : ∃ e ∈ listing ds, e.file_name = file_name)
include h hsize hpool hthere

/-- What is left has fewer entries. -/
theorem Directory.result (hdel : Deleted c live i file_name ds fs)
    (hrun : delete_entry c fs i file_name = .ok (set_flat c fs m)) :
    (∃ ds', Directory c live i ds' (set_flat c fs m) ∧ ds'.map Prod.fst = ds.map Prod.fst ∧
      (listing ds').length < (listing ds).length) ∧
    ∀ b ∉ ds.map Prod.fst, (set_flat c fs m).block b = fs.block b := by
  obtain ⟨fs', ds', l, l', hrun', h', hread, hread', hcontents, hblock⟩ := hdel
  obtain rfl := Except.ok.inj (hrun'.symm.trans hrun)
  have hsame : ds'.map Prod.fst = ds.map Prod.fst := h.same_blocks hsize hpool h' rfl hblock
  obtain rfl := Except.ok.inj ((h.linked.read hsize hpool).symm.trans hread)
  obtain rfl := Except.ok.inj
    ((h'.linked.read hsize (hpool.congr rfl rfl rfl)).symm.trans hread')
  refine ⟨⟨ds', h', hsame, ?_⟩, hblock⟩
  have hlen := congrArg List.length hcontents
  rw [contents_length, contents_length] at hlen
  rw [hlen, List.length_filter_lt_length_iff_exists]
  obtain ⟨e, he, hname⟩ := hthere
  exact ⟨e, he, by simp [hname]⟩

/-- The entry that has gone was in use. -/
theorem Directory.used_of_deleted (before : List entry_t) (hdel : Deleted c live i file_name ds fs)
    (hds : ds = pre ++ (b, before ++ e :: after) :: post)
    (hrun : delete_entry c fs i file_name = .ok (set_flat c fs m))
    (hout : Outside (flat c fs) m (block_start c b) (block_start c b + c.BLOCK_SIZE))
    (hchain : Chain m (block_start c b + c.BLOCK_SIZE) (block_start c b) es')
    (hcontents : contents es' = contents (before ++ after)) (hsound : ∀ x ∈ es', x.Sound) :
    e.inode_number ≠ 0 := by
  intro hunused
  obtain ⟨⟨ds', h', hsame, hlt⟩, -⟩ := h.result hsize hpool hthere hdel hrun
  subst hds
  obtain ⟨htaken, -⟩ := h.taken hsize hpool hout hchain hcontents hsound
  have hread := h'.linked.read hsize (hpool.congr rfl rfl rfl)
  have hread' := htaken.linked.read hsize (hpool.congr rfl rfl rfl)
  have hlist : listing (pre ++ (b, before ++ e :: after) :: post) =
      listing (pre ++ (b, before ++ after) :: post) := by
    simp [listing_append, listing_cons, List.filter_append, hunused]
  have hlen : (contents (listing (pre ++ (b, es') :: post))).length =
      (contents (listing (pre ++ (b, before ++ after) :: post))).length :=
    congrArg List.length (contents_listing hcontents)
  rw [contents_length, contents_length, ← hlist,
    Except.ok.inj (hread'.symm.trans hread)] at hlen
  omega

/-- The only entry of a block is not to be merged with what follows the block. -/
theorem Directory.not_alone (hdel : Deleted c live i file_name ds fs) (hmem : (b, [e]) ∈ ds)
    (hrun : delete_entry c fs i file_name =
      .ok (set_flat c fs (merge_next (flat c fs) (block_start c b)))) : False := by
  obtain ⟨⟨ds', h', hsame, -⟩, hblock⟩ := h.result hsize hpool hthere hdel hrun
  have hsmall := hsize.small
  have hlarge : 1024 ≤ c.BLOCK_SIZE := by rcases hsize with h | h | h <;> omega
  have hchain : Chain _ _ _ [e] := h.chain _ hmem
  have hends := hchain.ends
  simp only [total_cons, total_nil] at hends
  have hbase : entry_at (flat c fs) (block_start c b) = e := hchain.1
  have hstart : block_start c b = b * c.BLOCK_SIZE := h.linked.start hsize hpool hmem
  have hnext : (b + 1) * c.BLOCK_SIZE =
      block_start c b + (entry_at (flat c fs) (block_start c b)).entry_len := by
    rw [hbase, hstart, Nat.succ_mul]
    omega
  -- the length behind the block has grown by the size of a block
  have hlen : (entry_at (merge_next (flat c fs) (block_start c b))
      ((b + 1) * c.BLOCK_SIZE)).entry_len =
      ((entry_at (flat c fs) ((b + 1) * c.BLOCK_SIZE)).entry_len + e.entry_len) % 2 ^ 16 := by
    have hagree := merge_next_apart hnext (q := (b + 1) * c.BLOCK_SIZE + 4)
      (r := (b + 1) * c.BLOCK_SIZE + 4 + 2) (Or.inr (by rw [hnext, hbase]; omega))
    rw [hbase] at hagree
    exact hagree.number.trans set_entry_len_number
  have hlt : (entry_at (flat c fs) ((b + 1) * c.BLOCK_SIZE)).entry_len < 2 ^ 16 :=
    entry_at_fits.entry_len
  by_cases hin : b + 1 ∈ ds.map Prod.fst
  · -- there is a block of the directory
    have hin' : b + 1 ∈ ds'.map Prod.fst := by rwa [hsame]
    obtain ⟨d, hd, hd1⟩ := List.mem_map.mp hin
    obtain ⟨d', hd', hd1'⟩ := List.mem_map.mp hin'
    have hchain₁ := h.chain d hd
    have hchain₁' := h'.chain d' hd'
    rw [flat_set_flat] at hchain₁'
    obtain ⟨x, es, hx⟩ := block_cons hchain₁
    obtain ⟨x', es', hx'⟩ := block_cons hchain₁'
    have hends₁ := hchain₁.ends
    have hends₁' := hchain₁'.ends
    have hd1start := h.linked.start hsize hpool hd
    rw [hx] at hchain₁ hends₁
    rw [hx'] at hchain₁' hends₁'
    rw [hd1', ← hd1, hd1start, hd1] at hchain₁'
    rw [hd1start, hd1] at hchain₁
    rw [hchain₁'.1, hchain₁.1] at hlen
    rw [total_cons] at hends₁ hends₁'
    have height := (h.sound d hd x (by simp [hx])).eight
    omega
  · -- it belongs to somebody else
    have hagree := flat_agree (c := c) (hblock _ hin)
    rw [flat_set_flat] at hagree
    have hsame : (entry_at (merge_next (flat c fs) (block_start c b))
        ((b + 1) * c.BLOCK_SIZE)).entry_len =
        (entry_at (flat c fs) ((b + 1) * c.BLOCK_SIZE)).entry_len :=
      (hagree.mono (by omega) (by omega)).number
    omega

/-- The length of an entry alone in its block is not the one that is compared with. -/
theorem Directory.not_removed (hdel : Deleted c live i file_name ds fs)
    (hds : ds = pre ++ (b, e :: after) :: post)
    (hpassed : ∀ d ∈ pre, Passed c (flat c fs) file_name d) (hname : e.named file_name)
    (hlen : e.entry_len = c.BLOCK_SIZE - get_padded_size e) : False := by
  obtain ⟨fs', ds', -, -, hrun, h', -⟩ := hdel
  have hmem : (b, e :: after) ∈ ds := by simp [hds]
  have hchain := h.chain _ hmem
  have hsound := h.sound _ hmem
  have hentry : entry_at (flat c fs) (block_start c b) = e := hchain.1
  have hends := hchain.ends
  have hroom := (hsound e (by simp)).room
  have hpadded := le_padded e
  have hsmall := hsize.small
  simp only [total_cons] at hends
  have hpre : ∀ d ∈ pre, d ∈ ds := fun d hd => by simp [hds, hd]
  have hindex : pre.length < ds.length := by simp [hds]
  subst hds
  rw [h.delete_entry_eq hsize hpool, List.map_append, List.map_cons,
    delete_blocks_passed (fun d hd => h.chain d (hpre d hd)) (fun d hd => h.sound d (hpre d hd))
      hpassed, delete_blocks_first hentry hname, if_pos (by unfold uint32; omega)] at hrun
  have hP := hsize.pointers
  have hlevels := hindex.trans (h.linked.lt_levels hsize hpool)
  obtain ⟨hleaf, hleafindex⟩ := leaf_of_spec hP hlevels
  have hne := (h.filled.block_at hP hlevels).mpr hindex
  obtain ⟨D, fs₁, hremove, hremoved⟩ :=
    remove_leaf_removed hsize.words h.owned hpool h.held hleaf hne
  have heq := Remove_Block_eq hP hsize.levels.le h.owned hpool h.held hleaf hne
  rw [hleafindex, hremove] at heq
  rw [Nat.zero_add, heq] at hrun
  obtain rfl := Except.ok.inj hrun
  -- the size is no longer that of whole blocks
  have hsize₁ : (fs₁.inode i).size = _ := hremoved.shrunk.rest.size.trans h.size
  have hsize' := h'.size
  simp only [shrink, set_inode, Function.update_self, hsize₁] at hsize'
  exact shrunk_size (by omega) h.fits (by omega) (by omega) hsize'

/-- A block of somebody else that starts with the name is written over, or nothing is. -/
theorem Directory.not_foreign (hdel : Deleted c live i file_name ds fs) (hmem : d ∈ ds)
    (hnot : d.1 + 1 ∉ ds.map Prod.fst)
    (haligned : (entry_at (flat c fs) (block_start c d.1 + c.BLOCK_SIZE)).entry_len % 4 = 0)
    (hrun : delete_entry c fs i file_name = .ok (set_flat c fs
      (if (entry_at (flat c fs) (block_start c d.1 + c.BLOCK_SIZE)).entry_len = 0 then flat c fs
      else merge_next (flat c fs) (block_start c d.1 + c.BLOCK_SIZE)))) : False := by
  obtain ⟨⟨ds', h', hsame, hlt⟩, hblock⟩ := h.result hsize hpool hthere hdel hrun
  have hlarge : 1024 ≤ c.BLOCK_SIZE := by rcases hsize with h | h | h <;> omega
  have hfour : c.BLOCK_SIZE % 4 = 0 := by rcases hsize with h | h | h <;> omega
  have hstart := h.linked.start hsize hpool hmem
  have hstarts : ∀ d ∈ ds, block_start c d.1 % 4 = 0 := by
    intro d hd
    rw [h.linked.start hsize hpool hd, Nat.mul_mod, hfour, Nat.mul_zero, Nat.zero_mod]
  have hlast : block_start c d.1 + c.BLOCK_SIZE = (d.1 + 1) * c.BLOCK_SIZE := by
    rw [hstart, Nat.succ_mul]
  have hchain' := h'.chain
  rw [flat_set_flat] at hchain'
  refine absurd hlt (Nat.not_lt.mpr (listing_le hsame h.chain hchain' h.sound h'.sound hstarts ?_))
  intro x hx
  have hagree := flat_agree (c := c) (hblock _ hnot)
  rw [flat_set_flat] at hagree
  split
  · intro s _ _ _
    exact ⟨fun _ => rfl, id⟩
  · next hlen =>
    rw [if_neg hlen] at hagree
    rw [hlast] at haligned hlen ⊢
    obtain ⟨p, hp⟩ : ∃ p, p = (d.1 + 1) * c.BLOCK_SIZE := ⟨_, rfl⟩
    have hp4 : p % 4 = 0 := by
      have := hstarts d hmem
      omega
    rw [hlast, ← hp] at hagree
    rw [← hp] at haligned hlen ⊢
    -- the length that is copied is the one that was there
    have hnumber := merge_next_number (m := flat c fs) (p := p) rfl
    have hkept : (merge_next (flat c fs) p).number (p + 4) 2 =
        (entry_at (flat c fs) p).entry_len := (hagree.mono (by omega) (by omega)).number
    have hbound : (entry_at (flat c fs) p).entry_len < 2 ^ 16 := entry_at_fits.entry_len
    have hbound' : (entry_at (flat c fs) (p + (entry_at (flat c fs) p).entry_len)).entry_len <
        2 ^ 16 := entry_at_fits.entry_len
    have hzero : (entry_at (flat c fs) (p + (entry_at (flat c fs) p).entry_len)).entry_len = 0 := by
      omega
    have hne : d.1 + 1 ≠ x.1 := by
      rintro heq
      exact hnot (heq ▸ List.mem_map_of_mem hx)
    have hapart := blocks_apart (c := c) hne
    have hxstart := h.linked.start hsize hpool hx
    have hwords : Words_kept (flat c fs) (set_entry_len (flat c fs)
        (p + (entry_at (flat c fs) p).entry_len) (entry_at (flat c fs) p).entry_len)
        (block_start c x.1) (block_start c x.1 + c.BLOCK_SIZE) :=
      words_kept_set_len (by omega) hzero hlen hbound
    refine hwords.of_agree ?_
    have hmerge := merge_next_apart (m := flat c fs) (p := p) rfl (q := block_start c x.1)
      (r := block_start c x.1 + c.BLOCK_SIZE) (by omega)
    rwa [hzero, Nat.zero_add] at hmerge

theorem Directory.deletable_of (hdel : Deleted c live i file_name ds fs)
    (haligned : ∀ d ∈ ds,
      (entry_at (flat c fs) (block_start c d.1 + c.BLOCK_SIZE)).named file_name →
      (entry_at (flat c fs) (block_start c d.1 + c.BLOCK_SIZE)).entry_len % 4 = 0) :
    Deletable c file_name (flat c fs) ds := by
  have hsmall := hsize.small
  obtain ⟨y, hy, hyname⟩ := hthere
  obtain ⟨d, hd, hstop⟩ : ∃ d ∈ ds, ¬ Passed c (flat c fs) file_name d := by
    obtain ⟨d, hd, hyd⟩ := List.mem_flatMap.mp (List.mem_filter.mp hy).1
    refine ⟨d, hd, fun hpassed => hpassed.block y hyd ⟨?_, hyname⟩⟩
    rw [← hyname, ((h.chain d hd).fits y hyd).file_name]
  have hthere : ∃ e ∈ listing ds, e.file_name = file_name := ⟨y, hy, hyname⟩
  obtain ⟨pre, ⟨b, es⟩, post, rfl, hpassed, hstop⟩ := exists_first ⟨d, hd, hstop⟩
  have hmem : (b, es) ∈ pre ++ (b, es) :: post := by simp
  have hpre : ∀ d ∈ pre, d ∈ pre ++ (b, es) :: post := fun d hd => List.mem_append_left _ hd
  have hchain : Chain (flat c fs) (block_start c b + c.BLOCK_SIZE) (block_start c b) es :=
    h.chain _ hmem
  have hsound : ∀ x ∈ es, x.Sound := h.sound _ hmem
  have hrun : delete_entry c fs i file_name =
      delete_blocks c i file_name (b :: post.map Prod.fst) (0 + pre.length) fs := by
    rw [h.delete_entry_eq hsize hpool, List.map_append, List.map_cons,
      delete_blocks_passed (fun d hd => h.chain d (hpre d hd))
        (fun d hd => h.sound d (hpre d hd)) hpassed]
  by_cases hin : ∃ x ∈ es, ¬ ¬ x.named file_name
  · -- The block has an entry of the name.
    obtain ⟨before, e, after, rfl, hbefore, hname⟩ := exists_first hin
    rw [not_not] at hname
    cases before with
    | nil =>
      have hentry : entry_at (flat c fs) (block_start c b) = e := hchain.1
      have hroom := (hsound e (by simp)).room
      have hends := hchain.ends
      simp only [List.nil_append, total_cons] at hends
      have hlen : e.entry_len ≠ c.BLOCK_SIZE - get_padded_size e := fun hlen =>
        h.not_removed hsize hpool hthere hdel rfl hpassed hname hlen
      rw [delete_blocks_first hentry hname, if_neg (by unfold uint32; omega)] at hrun
      cases after with
      | nil => exact (h.not_alone hsize hpool hthere hdel hmem hrun).elim
      | cons next after =>
        obtain ⟨es', hchain', hout, hcontents, hsound'⟩ := h.merged (by omega)
        have hused : e.inode_number ≠ 0 := h.used_of_deleted hsize hpool hthere []
          hdel rfl hrun hout hchain' hcontents hsound'
        exact ⟨pre, b, [], e, next :: after, post, rfl, hname, hused,
          Or.inl ⟨hpassed, by simp, fun _ => ⟨by simp, hlen⟩⟩⟩
    | cons first before =>
      obtain ⟨m, es', hrun', hchain', hout, hcontents, hsound'⟩ :=
        delete_blocks_behind hchain hsound rfl (by omega) (hbefore first (by simp))
          (fun x hx => hbefore x (by simp [hx])) hname
      have hused : e.inode_number ≠ 0 := h.used_of_deleted hsize hpool hthere (first :: before)
        hdel rfl (hrun.trans hrun') hout hchain' hcontents hsound'
      exact ⟨pre, b, first :: before, e, after, post, rfl, hname, hused,
        Or.inl ⟨hpassed, hbefore, by simp⟩⟩
  · -- The walk stops at the entry behind the block.
    have hnone : ∀ x ∈ es, ¬ x.named file_name := fun x hx hname =>
      hin ⟨x, hx, not_not.mpr hname⟩
    have hahead : (entry_at (flat c fs) (block_start c b + c.BLOCK_SIZE)).named file_name := by
      by_contra hahead
      exact hstop ⟨hnone, hahead⟩
    rw [delete_blocks_ahead hchain hsound hnone, if_pos hahead] at hrun
    by_cases hnext : b + 1 ∈ (pre ++ (b, es) :: post).map Prod.fst
    · -- It is the first entry of a later block of the directory.
      obtain ⟨⟨b', es₂⟩, hd, hb⟩ : ∃ d ∈ pre ++ (b, es) :: post, d.1 = b + 1 :=
        List.mem_map.mp hnext
      obtain rfl : b' = b + 1 := hb
      have hchain₂ : Chain (flat c fs) (block_start c (b + 1) + c.BLOCK_SIZE)
        (block_start c (b + 1)) es₂ := h.chain _ hd
      obtain ⟨e, after, rfl⟩ := block_cons hchain₂
      have hsound₂ := h.sound _ hd
      have hlast : block_start c b + c.BLOCK_SIZE = block_start c (b + 1) :=
        h.next_start hsize hpool hmem hd rfl
      have hlen := (hsound₂ e (by simp)).eight
      rw [hlast, hchain₂.1] at hahead hrun
      rw [if_neg (by omega)] at hrun
      have hpost : (b + 1, e :: after) ∈ post := by
        rcases List.mem_append.mp hd with hd | hd
        · exact absurd hahead ((hpassed _ hd).block e (by simp))
        · refine (List.mem_cons.mp hd).resolve_left fun heq => ?_
          have := congrArg Prod.fst heq
          simp at this
      obtain ⟨post₁, post₂, rfl⟩ := List.append_of_mem hpost
      cases after with
      | nil => exact (h.not_alone hsize hpool hthere hdel hd hrun).elim
      | cons next after =>
        have hds : pre ++ (b, es) :: (post₁ ++ (b + 1, e :: next :: after) :: post₂) =
            (pre ++ (b, es) :: post₁) ++ (b + 1, e :: next :: after) :: post₂ := by simp
        have h₂ := h
        rw [hds] at h₂
        obtain ⟨es', hchain', hout, hcontents, hsound'⟩ := h₂.merged (by omega)
        have hused : e.inode_number ≠ 0 := h.used_of_deleted hsize hpool hthere [] hdel hds hrun
          hout hchain' hcontents hsound'
        refine ⟨pre ++ (b, es) :: post₁, b + 1, [], e, next :: after, post₂, hds, hahead, hused,
          Or.inr ⟨⟨pre, (b, es), post₁, rfl, rfl, hnone, hpassed⟩, rfl, by simp⟩⟩
    · exact (h.not_foreign hsize hpool hthere hdel hmem hnext (haligned _ hmem hahead) hrun).elim

end Necessary

/-- A name of a directory is deleted when the first entry of the name that the walk meets is one
in use, and it is the first of its block only if there are others behind it and its length is not
compared with the block, or is another one. Entries that start a block of somebody else have
lengths that are multiples of 4. -/
theorem delete_entry_deleted_iff (h : Directory c live i ds fs) (hsize : Ext2_size c)
    (hpool : Pool c fs) (hthere : ∃ e ∈ listing ds, e.file_name = file_name) :
    (Deletable c file_name (flat c fs) ds → Deleted c live i file_name ds fs) ∧
    ((∀ d ∈ ds, (entry_at (flat c fs) (block_start c d.1 + c.BLOCK_SIZE)).named file_name →
        (entry_at (flat c fs) (block_start c d.1 + c.BLOCK_SIZE)).entry_len % 4 = 0) →
      (Deleted c live i file_name ds fs ↔ Deletable c file_name (flat c fs) ds)) := by
  refine ⟨h.deleted_of hsize hpool, fun haligned => ⟨?_, h.deleted_of hsize hpool⟩⟩
  intro hdel
  exact h.deletable_of hsize hpool hthere hdel haligned

/-- `.` and `..` in the block 3. -/
def dots : Nat × List entry_t := (3, [⟨5, 12, 1, 2, [46]⟩, ⟨2, 1012, 2, 2, [46, 46]⟩])

/-- The directory 5 in the blocks 3 and 4 of eight: `.` and `..`, and what is in the second. -/
def dots_then (second : Bytes) : Image :=
  { small_file with
    inode := fun n => if n = 5 then
        ⟨EXT2_IFDIR, 2048, 1, 4, fun k => if k < 2 then k + 3 else 0, 0, 0, 0⟩
      else ⟨0, 0, 0, 0, fun _ => 0, 0, 0, 0⟩
    block := fun b => if b = 3 then copy_entry (copy_entry (fun _ => 0) 0 ⟨5, 12, 1, 2, [46]⟩) 12
        ⟨2, 1012, 2, 2, [46, 46]⟩
      else if b = 4 then second else fun _ => 0 }

theorem dots_then_pool {second : Bytes} : Pool (one_group 0 (by decide)) (dots_then second) :=
  small_file_pool.congr rfl rfl rfl

theorem dots_then_owned {second : Bytes} :
    Owned (one_group 0 (by decide)) (fun j => j = 5) (dots_then second) := by
  have hnone : ∀ s, 12 ≤ s → s < 15 → pointer ((dots_then second).inode 5) s = 0 :=
    small_file_direct
  refine owned_direct hnone ?_ ?_ ?_
  · show ∀ s < 12, ∀ t < 12, pointer (small_file.inode 5) s ≠ 0 →
      pointer (small_file.inode 5) s = pointer (small_file.inode 5) t → s = t
    decide
  · show ∀ s < 12, pointer (small_file.inode 5) s ≠ 0 →
      IsBlock (one_group 0 (by decide)) (pointer (small_file.inode 5) s)
    decide
  · have hused : used (one_group 0 (by decide)) (dots_then second) =
        used (one_group 0 (by decide)) small_file := by
      funext b
      simp only [used, dots_then]
    rw [hused]
    show ∀ s < 12, pointer (small_file.inode 5) s ≠ 0 →
      used (one_group 0 (by decide)) small_file (pointer (small_file.inode 5) s) = true
    decide

theorem dots_then_directory {second : Bytes}
    (hchain : Chain (flat (one_group 0 (by decide)) (dots_then second)) 5120 4096 es)
    (hsound : ∀ e ∈ es, e.Sound)
    (hnames : ((listing [dots, (4, es)]).map entry_t.file_name).Nodup) :
    Directory (one_group 0 (by decide)) (fun j => j = 5) 5 [dots, (4, es)] (dots_then second) := by
  have hnone : ∀ s, 12 ≤ s → s < 15 → pointer ((dots_then second).inode 5) s = 0 :=
    small_file_direct
  have hblock : (one_group 0 (by decide)).BLOCK_SIZE = 1024 := rfl
  constructor
  · exact dots_then_owned
  · rfl
  · show Filled _ _ 5 2
    refine filled_direct (by decide) hnone (by decide) ?_
    show ∀ s < 12, pointer (small_file.inode 5) s ≠ 0 ↔ s < 2
    decide
  · rfl
  · show (2048 : Int) = _
    simp only [hblock, List.length_cons, List.length_nil]
    norm_num
  · rfl
  · simp only [hblock, List.length_cons, List.length_nil]
    norm_num
  · have hstart : block_start (one_group 0 (by decide)) 4 = 4096 := by decide
    intro d hd
    simp only [List.mem_cons, List.not_mem_nil, or_false] at hd
    rcases hd with rfl | rfl
    · exact ⟨rfl, rfl, rfl⟩
    · rw [hstart]
      exact hchain
  · intro d hd
    simp only [List.mem_cons, List.not_mem_nil, or_false] at hd
    rcases hd with rfl | rfl
    · intro e he
      simp only [dots, List.mem_cons, List.not_mem_nil, or_false] at he
      rcases he with rfl | rfl <;> exact ⟨by decide, by decide⟩
    · exact hsound
  · exact hnames

/-- The entries `a` and `b`. -/
def two_names : Bytes :=
  copy_entry (copy_entry (fun _ => 0) 0 ⟨6, 12, 1, 1, [97]⟩) 12 ⟨7, 1012, 1, 1, [98]⟩

/-- The second of two entries of the second block can be deleted. -/
theorem second_entry_deleted :
    (Deletable (one_group 0 (by decide)) [98] (flat (one_group 0 (by decide)) (dots_then two_names))
        [dots, (4, [⟨6, 12, 1, 1, [97]⟩, ⟨7, 1012, 1, 1, [98]⟩])] →
      Deleted (one_group 0 (by decide)) (fun j => j = 5) 5 [98]
        [dots, (4, [⟨6, 12, 1, 1, [97]⟩, ⟨7, 1012, 1, 1, [98]⟩])] (dots_then two_names)) ∧
    ((∀ d ∈ [dots, (4, [⟨6, 12, 1, 1, [97]⟩, ⟨7, 1012, 1, 1, [98]⟩])],
        (entry_at (flat (one_group 0 (by decide)) (dots_then two_names))
          (block_start (one_group 0 (by decide)) d.1 + 1024)).named [98] →
        (entry_at (flat (one_group 0 (by decide)) (dots_then two_names))
          (block_start (one_group 0 (by decide)) d.1 + 1024)).entry_len % 4 = 0) →
      (Deleted (one_group 0 (by decide)) (fun j => j = 5) 5 [98]
          [dots, (4, [⟨6, 12, 1, 1, [97]⟩, ⟨7, 1012, 1, 1, [98]⟩])] (dots_then two_names) ↔
        Deletable (one_group 0 (by decide)) [98]
          (flat (one_group 0 (by decide)) (dots_then two_names))
          [dots, (4, [⟨6, 12, 1, 1, [97]⟩, ⟨7, 1012, 1, 1, [98]⟩])])) := by
  have h : Directory (one_group 0 (by decide)) (fun j => j = 5) 5
      [dots, (4, [⟨6, 12, 1, 1, [97]⟩, ⟨7, 1012, 1, 1, [98]⟩])] (dots_then two_names) := by
    refine dots_then_directory ⟨rfl, rfl, rfl⟩ ?_ (by decide)
    intro e he
    simp only [List.mem_cons, List.not_mem_nil, or_false] at he
    rcases he with rfl | rfl <;> exact ⟨by decide, by decide⟩
  exact delete_entry_deleted_iff h (Or.inl rfl) dots_then_pool (by decide)

/-- `a` alone in the second block: the length at the start of the next block grows, which is
a free one. -/
theorem only_entry_not_deleted : ∃ second,
    Directory (one_group 0 (by decide)) (fun j => j = 5) 5 [dots, (4, [⟨6, 1024, 1, 1, [97]⟩])]
      (dots_then second) ∧
    Pool (one_group 0 (by decide)) (dots_then second) ∧
    (∃ e ∈ listing [dots, (4, [⟨6, 1024, 1, 1, [97]⟩])], e.file_name = [97]) ∧
    ¬ Deleted (one_group 0 (by decide)) (fun j => j = 5) 5 [97]
      [dots, (4, [⟨6, 1024, 1, 1, [97]⟩])] (dots_then second) := by
  have h : Directory (one_group 0 (by decide)) (fun j => j = 5) 5
      [dots, (4, [⟨6, 1024, 1, 1, [97]⟩])]
      (dots_then (copy_entry (fun _ => 0) 0 ⟨6, 1024, 1, 1, [97]⟩)) := by
    refine dots_then_directory ⟨rfl, rfl⟩ ?_ (by decide)
    intro e he
    obtain rfl := List.mem_singleton.mp he
    exact ⟨by decide, by decide⟩
  have hthere : ∃ e ∈ listing [dots, (4, [⟨6, 1024, 1, 1, [97]⟩])], e.file_name = [97] := by decide
  refine ⟨_, h, dots_then_pool, hthere, fun hdel => ?_⟩
  refine h.not_alone (Or.inl rfl) dots_then_pool hthere hdel
    (List.mem_cons_of_mem _ List.mem_cons_self) ?_
  rw [h.delete_entry_eq (Or.inl rfl) dots_then_pool, List.map_cons,
    delete_blocks_ahead (h.chain dots (by simp)) (h.sound dots (by simp)) (by decide),
    if_pos (by decide), if_neg (by decide)]
  rfl

end LaLiga.Rfs
