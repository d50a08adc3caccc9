import LaLiga.Rfs.DirectoryBlocks

/-! An entry taken from a directory of several blocks. -/
namespace LaLiga.Rfs

open LaLiga.Lib

variable {c : Superblock_constants} {live : Nat → Prop} {fs fs' : Image}
  {i b p last turns acum_len n : Nat} {m m' : Bytes} {e previous : entry_t}
  {es es' before after : List entry_t} {pre post ds : List (Nat × List entry_t)}
  {d : Nat × List entry_t} {file_name : List UInt8}

theorem contents_cons : contents (e :: es) = { e with entry_len := 0 } :: contents es := rfl

/-- The length that is there is written again. -/
theorem set_entry_len_same : set_entry_len m p (entry_at m p).entry_len = m := by
  have hbytes : le 2 (m.number (p + 4) 2) = m.read (p + 4) 2 := by
    have hread := le_ofLe (m.read (p + 4) 2)
    rwa [Bytes.read_length] at hread
  funext q
  have hlen : (le 2 (entry_at m p).entry_len).length = 2 := le_length
  rw [set_entry_len, Bytes.write, hlen]
  split
  · next hq =>
    show (le 2 (m.number (p + 4) 2)).getD (q - (p + 4)) 0 = m q
    obtain ⟨k, rfl⟩ : ∃ k, q = p + 4 + k := ⟨q - (p + 4), by omega⟩
    have hk : k < (List.range 2).length := by
      rw [List.length_range]
      omega
    rw [hbytes, Bytes.read, Nat.add_sub_cancel_left, List.getD_eq_getElem _ _ (by simpa using hk),
      List.getElem_map, List.getElem_range]
  · rfl

variable (c) in
/-- Entries without the name are passed over, and the one where the block ends is looked at. -/
theorem delete_scan_ahead (h : Chain m last p (previous :: es))
    (hsound : ∀ x ∈ previous :: es, x.Sound) (hacum : acum_len + total (previous :: es) = c.BLOCK_SIZE)
    (hturns : es.length + 1 < turns) (hnone : ∀ x ∈ es, ¬ x.named file_name) :
    delete_scan c m last file_name turns p acum_len =
      .ok (if (entry_at m last).named file_name then
        some (if (entry_at m last).entry_len = 0 then m else merge_next m last) else none) := by
  induction es generalizing p turns previous acum_len with
  | nil =>
    obtain ⟨n, rfl⟩ : ∃ n, turns = n + 2 := ⟨turns - 2, by simp at hturns; omega⟩
    have hends := h.ends
    have height := (hsound previous (by simp)).eight
    rw [total_cons, total_nil] at hends hacum
    have hlast : p + previous.entry_len = last := by omega
    rw [delete_scan, if_pos (by omega), h.1]
    simp only [hlast]
    split
    · have hrest : uint32 (c.BLOCK_SIZE - (acum_len + previous.entry_len : Nat)) = 0 := by
        have : acum_len + previous.entry_len = c.BLOCK_SIZE := by omega
        unfold uint32
        omega
      rw [hrest]
      by_cases hzero : (entry_at m last).entry_len = 0
      · have hsame : set_entry_len m p previous.entry_len = m := by
          rw [← h.1]
          exact set_entry_len_same
        rw [if_pos (by omega), if_pos hzero, hzero, Nat.add_zero, hsame]
      · rw [if_neg (by omega), if_neg hzero]
    · rw [delete_scan, if_neg (by omega)]
  | cons e es ih =>
    obtain ⟨n, rfl⟩ : ∃ n, turns = n + 1 := ⟨turns - 1, by omega⟩
    have hends := h.ends
    have height := (hsound previous (by simp)).eight
    rw [total_cons] at hends
    rw [delete_scan, if_pos (by omega), h.1]
    simp only [h.2.1]
    rw [if_neg (hnone e (by simp))]
    refine ih h.2 (fun x hx => hsound x (by simp [hx])) ?_ (by simpa using hturns)
      (fun x hx => hnone x (by simp [hx]))
    rw [total_cons] at hacum
    omega

/-- An entry that takes the room of another one. -/
theorem entry_t.Sound.longer (h : e.Sound) (h' : previous.Sound) :
    ({ e with entry_len := e.entry_len + previous.entry_len } : entry_t).Sound := by
  have := h.aligned
  have := h'.aligned
  have hroom := h.room
  constructor
  · simp only
    omega
  · rw [padded_set_len]
    simp only
    omega

/-- The entries of a block without the first of the name, which is not the one in front. -/
theorem delete_list_at (hnone : ∀ x ∈ before, ¬ x.named file_name) (hname : e.named file_name)
    (hsound : ∀ x ∈ previous :: (before ++ e :: after), x.Sound) :
    ∃ es', delete_list file_name previous (before ++ e :: after) = some es' ∧
      contents es' = contents (previous :: (before ++ after)) ∧ ∀ x ∈ es', x.Sound := by
  induction before generalizing previous with
  | nil =>
    have hprevious := hsound previous (by simp)
    have he := hsound e (by simp)
    cases after with
    | nil =>
      refine ⟨[{ previous with entry_len := previous.entry_len + e.entry_len }], ?_, rfl, ?_⟩
      · simp only [List.nil_append, delete_list, if_pos hname]
      · intro x hx
        obtain rfl := List.mem_singleton.mp hx
        exact hprevious.longer he
    | cons next after =>
      refine ⟨previous :: { next with entry_len := next.entry_len + e.entry_len } :: after,
        ?_, rfl, ?_⟩
      · simp only [List.nil_append, delete_list, if_pos hname]
      · intro x hx
        rcases List.mem_cons.mp hx with rfl | hx
        · exact hprevious
        · rcases List.mem_cons.mp hx with rfl | hx
          · exact (hsound next (by simp)).longer he
          · exact hsound x (by simp [hx])
  | cons y before ih =>
    have hbefore : ∀ x ∈ before, ¬ x.named file_name := fun x hx => hnone x (by simp [hx])
    have hrest : ∀ x ∈ y :: (before ++ e :: after), x.Sound :=
      fun x hx => hsound x (List.mem_cons_of_mem _ hx)
    obtain ⟨es', hdel, hcontents, hsound'⟩ := ih hbefore hrest
    refine ⟨previous :: es', ?_, ?_, ?_⟩
    · simp only [List.cons_append, delete_list, if_neg (hnone y (by simp)), hdel, Option.map_some]
    · rw [contents_cons, hcontents]
      rfl
    · intro x hx
      rcases List.mem_cons.mp hx with rfl | hx
      · exact hsound x (by simp)
      · exact hsound' x hx

variable (c) in
/-- A block where the walk meets no entry of the name, nor one where the block ends. -/
structure Passed (m : Bytes) (file_name : List UInt8) (d : Nat × List entry_t) : Prop where
  block : ∀ x ∈ d.2, ¬ x.named file_name
  ahead : ¬ (entry_at m (block_start c d.1 + c.BLOCK_SIZE)).named file_name

theorem block_cons (hchain : Chain m (p + c.BLOCK_SIZE) p es) : ∃ e es', es = e :: es' := by
  cases es with
  | nil =>
    have hends := hchain.ends
    have hpos := c.size_pos
    rw [total_nil] at hends
    omega
  | cons e es' => exact ⟨e, es', rfl⟩

section Walk

variable {l : List Nat}

/-- The first entry of a block has the name. -/
theorem delete_blocks_first (hbase : entry_at (flat c fs) (block_start c b) = e)
    (hname : e.named file_name) :
    delete_blocks c i file_name (b :: l) n fs =
      if e.entry_len = uint32 (c.BLOCK_SIZE - get_padded_size e) then
        (match Remove_Block c fs i n with
        | .error e => .error e
        | .ok fs => .ok (shrink c fs i (get_padded_size e)))
      else .ok (set_flat c fs (merge_next (flat c fs) (block_start c b))) := by
  rw [delete_blocks]
  simp only [hbase]
  exact (if_pos hname).trans rfl

variable (hchain : Chain (flat c fs) (block_start c b + c.BLOCK_SIZE) (block_start c b) es)
  (hsound : ∀ x ∈ es, x.Sound)
include hchain hsound

/-- A block without the name: the entry where it ends decides. -/
theorem delete_blocks_ahead (hnone : ∀ x ∈ es, ¬ x.named file_name) :
    delete_blocks c i file_name (b :: l) n fs =
      if (entry_at (flat c fs) (block_start c b + c.BLOCK_SIZE)).named file_name then
        .ok (set_flat c fs
          (if (entry_at (flat c fs) (block_start c b + c.BLOCK_SIZE)).entry_len = 0 then flat c fs
          else merge_next (flat c fs) (block_start c b + c.BLOCK_SIZE)))
      else delete_blocks c i file_name l (n + 1) fs := by
  obtain ⟨e, es', rfl⟩ := block_cons hchain
  have hends := hchain.ends
  have hshort := length_le_total fun e he => (hsound e he).positive
  have hpos := c.size_pos
  have hacum : 0 + total (e :: es') = c.BLOCK_SIZE := by omega
  have hturns : es'.length + 1 < c.BLOCK_SIZE + 1 := by
    rw [List.length_cons] at hshort
    omega
  have hscan := delete_scan_ahead c hchain hsound hacum hturns
    (fun x hx => hnone x (List.mem_cons_of_mem _ hx))
  rw [delete_blocks]
  simp only [hchain.1]
  rw [if_neg (hnone e List.mem_cons_self), hscan]
  by_cases hahead : (entry_at (flat c fs) (block_start c b + c.BLOCK_SIZE)).named file_name
  · rw [if_pos hahead, if_pos hahead]
  · rw [if_neg hahead, if_neg hahead]

/-- The name behind the first entry of a block is taken out of the chain. -/
theorem delete_blocks_behind (hes : es = previous :: (before ++ e :: after))
    (hsmall : c.BLOCK_SIZE < 2 ^ 16) (hprevious : ¬ previous.named file_name)
    (hnone : ∀ x ∈ before, ¬ x.named file_name) (hname : e.named file_name) :
    ∃ m es', delete_blocks c i file_name (b :: l) n fs = .ok (set_flat c fs m) ∧
      Chain m (block_start c b + c.BLOCK_SIZE) (block_start c b) es' ∧
      Outside (flat c fs) m (block_start c b) (block_start c b + c.BLOCK_SIZE) ∧
      contents es' = contents (previous :: (before ++ after)) ∧ ∀ x ∈ es', x.Sound := by
  subst hes
  obtain ⟨es', hdel, hcontents, hsound'⟩ := delete_list_at hnone hname hsound
  have hends := hchain.ends
  have hshort := length_le_total fun e he => (hsound e he).positive
  rw [List.length_cons] at hshort
  have hacum : 0 + total (previous :: (before ++ e :: after)) = c.BLOCK_SIZE := by omega
  have hturns : (before ++ e :: after).length < c.BLOCK_SIZE + 1 := by omega
  obtain ⟨m, hscan, hchain', hout⟩ :=
    delete_scan_chain c hchain hsound (by omega) hacum hturns hdel
  refine ⟨m, es', ?_, hchain', hout, hcontents, hsound'⟩
  rw [delete_blocks]
  simp only [hchain.1]
  rw [if_neg hprevious, hscan]

end Walk

/-- The walk over blocks that it passes. -/
theorem delete_blocks_passed {l : List Nat}
    (hchain : ∀ d ∈ pre, Chain (flat c fs) (block_start c d.1 + c.BLOCK_SIZE) (block_start c d.1) d.2)
    (hsound : ∀ d ∈ pre, ∀ x ∈ d.2, x.Sound)
    (hpassed : ∀ d ∈ pre, Passed c (flat c fs) file_name d) :
    delete_blocks c i file_name (pre.map Prod.fst ++ l) n fs =
      delete_blocks c i file_name l (n + pre.length) fs := by
  induction pre generalizing n with
  | nil => rfl
  | cons d pre ih =>
    have hd := hpassed d List.mem_cons_self
    rw [List.map_cons, List.cons_append,
      delete_blocks_ahead (hchain d List.mem_cons_self) (hsound d List.mem_cons_self) hd.block,
      if_neg hd.ahead, ih (fun x hx => hchain x (List.mem_cons_of_mem _ hx))
        (fun x hx => hsound x (List.mem_cons_of_mem _ hx))
        (fun x hx => hpassed x (List.mem_cons_of_mem _ hx)), List.length_cons]
    congr 1
    omega

/-- The first of a list where `P` does not hold. -/
theorem exists_first {α : Type} {P : α → Prop} {l : List α} (h : ∃ x ∈ l, ¬ P x) :
    ∃ l₁ x l₂, l = l₁ ++ x :: l₂ ∧ (∀ y ∈ l₁, P y) ∧ ¬ P x := by
  induction l with
  | nil => simp at h
  | cons y l ih =>
    by_cases hy : P y
    · obtain ⟨x, hx, hnot⟩ := h
      have hx : x ∈ l := (List.mem_cons.mp hx).resolve_left fun heq => hnot (heq ▸ hy)
      obtain ⟨l₁, x, l₂, rfl, hall, hnot⟩ := ih ⟨x, hx, hnot⟩
      exact ⟨y :: l₁, x, l₂, rfl, List.forall_mem_cons.mpr ⟨hy, hall⟩, hnot⟩
    · exact ⟨[], y, l, rfl, by simp, hy⟩

/-- Blocks with other numbers are apart in memory. -/
theorem blocks_apart {d : Nat} (hne : b ≠ d) : b * c.BLOCK_SIZE + c.BLOCK_SIZE ≤ d * c.BLOCK_SIZE ∨
    d * c.BLOCK_SIZE + c.BLOCK_SIZE ≤ b * c.BLOCK_SIZE := by
  rcases Nat.lt_or_gt_of_ne hne with hlt | hgt
  · left
    calc b * c.BLOCK_SIZE + c.BLOCK_SIZE = (b + 1) * c.BLOCK_SIZE := by ring
      _ ≤ d * c.BLOCK_SIZE := Nat.mul_le_mul_right _ hlt
  · right
    calc d * c.BLOCK_SIZE + c.BLOCK_SIZE = (d + 1) * c.BLOCK_SIZE := by ring
      _ ≤ b * c.BLOCK_SIZE := Nat.mul_le_mul_right _ hgt

variable (c live i file_name) in
/-- `delete_entry` leaves a directory that lists all but the name, and every block that the
directory does not have as it was. -/
def Deleted (ds : List (Nat × List entry_t)) (fs : Image) : Prop :=
  ∃ fs' ds' l l', delete_entry c fs i file_name = .ok fs' ∧ Directory c live i ds' fs' ∧
    read_directory c fs (fs.inode i) = .ok l ∧ read_directory c fs' (fs'.inode i) = .ok l' ∧
    contents l' = contents (l.filter fun e => e.file_name ≠ file_name) ∧
    ∀ b ∉ ds.map Prod.fst, fs'.block b = fs.block b

variable (c live i file_name) in
/-- `delete_entry` writes only in blocks of the directory, and leaves it without the name. -/
def Erased (ds : List (Nat × List entry_t)) (fs : Image) : Prop :=
  ∃ m ds', delete_entry c fs i file_name = .ok (set_flat c fs m) ∧
    Directory c live i ds' (set_flat c fs m) ∧
    contents (listing ds') = contents ((listing ds).filter fun e => e.file_name ≠ file_name) ∧
    ∀ b ∉ ds.map Prod.fst, (set_flat c fs m).block b = fs.block b

/-- A name that is there once is the only one filtered out. -/
theorem filter_name {A B : List entry_t}
    (hnodup : ((A ++ e :: B).map entry_t.file_name).Nodup) :
    (A ++ e :: B).filter (fun x => x.file_name ≠ e.file_name) = A ++ B := by
  rw [List.map_append, List.map_cons, List.nodup_middle, List.nodup_cons] at hnodup
  have hnot : ∀ x ∈ A ++ B, x.file_name ≠ e.file_name := by
    intro x hx heq
    apply hnodup.1
    rw [← List.map_append]
    exact List.mem_map.mpr ⟨x, hx, heq⟩
  have hA : A.filter (fun x => x.file_name ≠ e.file_name) = A :=
    List.filter_eq_self.mpr fun x hx => by simpa using hnot x (List.mem_append_left _ hx)
  have hB : B.filter (fun x => x.file_name ≠ e.file_name) = B :=
    List.filter_eq_self.mpr fun x hx => by simpa using hnot x (List.mem_append_right _ hx)
  rw [List.filter_append, List.filter_cons_of_neg (by simp), hA, hB]

theorem Directory.delete_entry_eq (h : Directory c live i ds fs) (hsize : Ext2_size c)
    (hpool : Pool c fs) : delete_entry c fs i file_name =
      delete_blocks c i file_name (ds.map Prod.fst) 0 fs := by
  unfold delete_entry
  obtain ⟨data_address, haddress, hlist⟩ := h.linked.extent.addresses hsize hpool (Or.inr rfl)
  simp only [haddress, hlist]

section Taken

variable (h : Directory c live i (pre ++ (b, before ++ e :: after) :: post) fs)
  (hsize : Ext2_size c) (hpool : Pool c fs)
include h hsize hpool

/-- An entry that goes with its name leaves a directory. -/
theorem Directory.taken (hout : Outside (flat c fs) m (block_start c b)
      (block_start c b + c.BLOCK_SIZE))
    (hchain : Chain m (block_start c b + c.BLOCK_SIZE) (block_start c b) es')
    (hcontents : contents es' = contents (before ++ after)) (hsound : ∀ x ∈ es', x.Sound) :
    Directory c live i (pre ++ (b, es') :: post) (set_flat c fs m) ∧
      ∀ d ∉ (pre ++ (b, before ++ e :: after) :: post).map Prod.fst,
        (set_flat c fs m).block d = fs.block d := by
  have hmem : (b, before ++ e :: after) ∈ pre ++ (b, before ++ e :: after) :: post := by simp
  have hstart := h.linked.start hsize hpool hmem
  have hblock : ∀ d ∉ (pre ++ (b, before ++ e :: after) :: post).map Prod.fst,
      (set_flat c fs m).block d = fs.block d := by
    intro d hd
    apply set_flat_block hout
    rintro rfl
    apply hd
    rw [hpool.slot (h.linked.isBlock hsize hpool hmem)]
    simp
  have hnodup := h.linked.nodup hsize hpool
  have hother : ∀ d ∈ pre ++ post, d ∈ pre ++ (b, before ++ e :: after) :: post ∧ b ≠ d.1 := by
    intro d hd
    rw [List.map_append, List.map_cons, List.nodup_middle, List.nodup_cons,
      ← List.map_append] at hnodup
    refine ⟨?_, ?_⟩
    · simp only [List.mem_append, List.mem_cons] at hd ⊢
      tauto
    · rintro rfl
      exact hnodup.1 (List.mem_map.mpr ⟨d, hd, rfl⟩)
  have hcases : ∀ d ∈ pre ++ (b, es') :: post, d = (b, es') ∨ d ∈ pre ++ post := by
    intro d hd
    simp only [List.mem_append, List.mem_cons] at hd ⊢
    tauto
  refine ⟨h.set hsize hpool hblock (by simp) ?_ ?_ ?_, hblock⟩
  · intro d hd
    rcases hcases d hd with rfl | hd
    · exact hchain
    · obtain ⟨hd, hne⟩ := hother d hd
      refine (h.chain d hd).congr (h.sound d hd) ?_
      have hstart' := h.linked.start hsize hpool hd
      have hapart := blocks_apart (c := c) hne
      simp only at hstart
      intro q hlo hhi
      refine (hout q ?_).symm
      omega
  · intro d hd
    rcases hcases d hd with rfl | hd
    · exact hsound
    · exact h.sound d (hother d hd).1
  · rw [← contents_names, contents_listing hcontents, contents_names]
    refine h.names.sublist (List.Sublist.map _ ?_)
    simp only [listing_append, listing_cons]
    refine List.Sublist.append_left (List.Sublist.append_right ?_ _) _
    exact List.Sublist.filter _ (List.Sublist.append_left (List.sublist_cons_self e after) before)

omit hsize hpool in
/-- The listing without an entry in use. -/
theorem Directory.listing_taken (hused : e.inode_number ≠ 0)
    (hcontents : contents es' = contents (before ++ after)) :
    contents (listing (pre ++ (b, es') :: post)) =
      contents ((listing (pre ++ (b, before ++ e :: after) :: post)).filter
        fun x => x.file_name ≠ e.file_name) := by
  have hlist : listing (pre ++ (b, before ++ e :: after) :: post) =
      (listing pre ++ before.filter fun x => x.inode_number ≠ 0) ++
        e :: ((after.filter fun x => x.inode_number ≠ 0) ++ listing post) := by
    simp [listing_append, listing_cons, List.filter_append, hused]
  have hnames := h.names
  rw [hlist] at hnames
  rw [hlist, filter_name hnames, contents_listing hcontents]
  simp [listing_append, listing_cons, List.filter_append]

theorem Directory.erased (hrun : delete_entry c fs i file_name = .ok (set_flat c fs m))
    (hname : e.named file_name) (hused : e.inode_number ≠ 0)
    (hout : Outside (flat c fs) m (block_start c b) (block_start c b + c.BLOCK_SIZE))
    (hchain : Chain m (block_start c b + c.BLOCK_SIZE) (block_start c b) es')
    (hcontents : contents es' = contents (before ++ after)) (hsound : ∀ x ∈ es', x.Sound) :
    Erased c live i file_name (pre ++ (b, before ++ e :: after) :: post) fs := by
  obtain ⟨h', hblock⟩ := h.taken hsize hpool hout hchain hcontents hsound
  refine ⟨m, pre ++ (b, es') :: post, hrun, h', ?_, hblock⟩
  rw [← hname.2]
  exact h.listing_taken hused hcontents

end Taken

/-- The first entry of a block goes with the next one copied over it. -/
theorem Directory.merged
    (h : Directory c live i (pre ++ (b, e :: previous :: after) :: post) fs)
    (hsmall : c.BLOCK_SIZE < 2 ^ 16) : ∃ es',
    Chain (merge_next (flat c fs) (block_start c b)) (block_start c b + c.BLOCK_SIZE)
        (block_start c b) es' ∧
      Outside (flat c fs) (merge_next (flat c fs) (block_start c b)) (block_start c b)
        (block_start c b + c.BLOCK_SIZE) ∧
      contents es' = contents (previous :: after) ∧ ∀ x ∈ es', x.Sound := by
  have hmem : (b, e :: previous :: after) ∈ pre ++ (b, e :: previous :: after) :: post := by simp
  have hchain := h.chain _ hmem
  have hsound := h.sound _ hmem
  have hends := hchain.ends
  simp only [total_cons] at hends
  obtain ⟨hmerged, hout⟩ := merge_chain hchain hsound (by omega)
  refine ⟨_, hmerged, hout, rfl, ?_⟩
  intro x hx
  rcases List.mem_cons.mp hx with rfl | hx
  · exact (hsound previous (by simp)).longer (hsound e (by simp))
  · exact hsound x (by simp [hx])

variable (c file_name) in
/-- The walk comes to the entry `e` of a block by all that is before it. The first entry of a block
needs others behind it, and a length that is not taken for that of an entry alone. -/
structure Walked (m : Bytes) (pre : List (Nat × List entry_t)) (before : List entry_t) (e : entry_t)
    (after : List entry_t) : Prop where
  passed : ∀ d ∈ pre, Passed c m file_name d
  unnamed : ∀ x ∈ before, ¬ x.named file_name
  first : before = [] → after ≠ [] ∧ e.entry_len ≠ c.BLOCK_SIZE - get_padded_size e

variable (c file_name) in
/-- The walk meets the first entry of the block `b` at the end of the block before it on the disk,
which is an earlier block of the directory. -/
structure Met_ahead (m : Bytes) (pre : List (Nat × List entry_t)) (b : Nat)
    (before after : List entry_t) : Prop where
  earlier : ∃ pre₁ d pre₂, pre = pre₁ ++ d :: pre₂ ∧ d.1 + 1 = b ∧
    (∀ x ∈ d.2, ¬ x.named file_name) ∧ ∀ x ∈ pre₁, Passed c m file_name x
  first : before = []
  others : after ≠ []

variable (c file_name) in
/-- The first entry of the name that the walk meets is one in use, and its room has a place to
go to. -/
def Deletable (m : Bytes) (ds : List (Nat × List entry_t)) : Prop :=
  ∃ pre b before e after post, ds = pre ++ (b, before ++ e :: after) :: post ∧
    e.named file_name ∧ e.inode_number ≠ 0 ∧
    (Walked c file_name m pre before e after ∨ Met_ahead c file_name m pre b before after)

theorem Ext2_size.small (hsize : Ext2_size c) : c.BLOCK_SIZE ≤ 4096 := by
  rcases hsize with h | h | h <;> omega

/-- What follows a block in memory is the next one on the disk. -/
theorem Directory.next_start (h : Directory c live i ds fs) (hsize : Ext2_size c)
    (hpool : Pool c fs) {d' : Nat × List entry_t} (hd : d ∈ ds) (hd' : d' ∈ ds)
    (hnext : d.1 + 1 = d'.1) : block_start c d.1 + c.BLOCK_SIZE = block_start c d'.1 := by
  rw [h.linked.start hsize hpool hd, h.linked.start hsize hpool hd', ← hnext]
  ring

theorem Directory.erased_of (h : Directory c live i ds fs) (hsize : Ext2_size c)
    (hpool : Pool c fs) (hok : Deletable c file_name (flat c fs) ds) :
    Erased c live i file_name ds fs := by
  obtain ⟨pre, b, before, e, after, post, rfl, hname, hused, hreach⟩ := hok
  have hsmall := hsize.small
  have hmem : (b, before ++ e :: after) ∈ pre ++ (b, before ++ e :: after) :: post := by simp
  have hchain := h.chain _ hmem
  have hsound := h.sound _ hmem
  have hrun : delete_entry c fs i file_name = _ := h.delete_entry_eq hsize hpool
  have hpre : ∀ d ∈ pre, d ∈ pre ++ (b, before ++ e :: after) :: post :=
    fun d hd => List.mem_append_left _ hd
  rcases hreach with ⟨hpassed, hbefore, hfirst⟩ |
    ⟨⟨pre₁, d, pre₂, rfl, hnext, hnone, hpassed⟩, rfl, hafter⟩
  · rw [List.map_append, List.map_cons, delete_blocks_passed (fun d hd => h.chain d (hpre d hd))
      (fun d hd => h.sound d (hpre d hd)) hpassed] at hrun
    cases before with
    | nil =>
      obtain ⟨hafter, hlen⟩ := hfirst rfl
      obtain ⟨next, after, rfl⟩ := List.exists_cons_of_ne_nil hafter
      obtain ⟨es', hchain', hout, hcontents, hsound'⟩ := h.merged (by omega)
      refine h.erased hsize hpool ?_ hname hused hout hchain' hcontents hsound'
      have hentry : entry_at (flat c fs) (block_start c b) = e := hchain.1
      have hends := hchain.ends
      have hroom := (hsound e (by simp)).room
      simp only [List.nil_append, total_cons] at hends
      rw [hrun, delete_blocks_first hentry hname, if_neg]
      unfold uint32
      omega
    | cons first before =>
      obtain ⟨m, es', hdel, hchain', hout, hcontents, hsound'⟩ :=
        delete_blocks_behind hchain hsound rfl (by omega) (hbefore first (by simp))
          (fun x hx => hbefore x (by simp [hx])) hname
      exact h.erased hsize hpool (hrun.trans hdel) hname hused hout hchain' hcontents hsound'
  · obtain ⟨next, after, rfl⟩ := List.exists_cons_of_ne_nil hafter
    obtain ⟨es', hchain', hout, hcontents, hsound'⟩ := h.merged (by omega)
    refine h.erased hsize hpool ?_ hname hused hout hchain' hcontents hsound'
    have hd := hpre d (by simp)
    have hlast : block_start c d.1 + c.BLOCK_SIZE = block_start c b :=
      h.next_start hsize hpool hd hmem hnext
    have hentry : entry_at (flat c fs) (block_start c b) = e := hchain.1
    have hlen := (hsound e (by simp)).eight
    rw [hrun, List.append_assoc, List.map_append, List.cons_append, List.map_cons,
      delete_blocks_passed (fun x hx => h.chain x (hpre x (List.mem_append_left _ hx)))
        (fun x hx => h.sound x (hpre x (List.mem_append_left _ hx))) hpassed,
      delete_blocks_ahead (h.chain d hd) (h.sound d hd) hnone, hlast, hentry, if_pos hname,
      if_neg (by omega)]

theorem Directory.deleted_of (h : Directory c live i ds fs) (hsize : Ext2_size c)
    (hpool : Pool c fs) (hok : Deletable c file_name (flat c fs) ds) :
    Deleted c live i file_name ds fs := by
  obtain ⟨m, ds', hrun, h', hcontents, hblock⟩ := h.erased_of hsize hpool hok
  exact ⟨_, ds', _, _, hrun, h', h.linked.read hsize hpool,
    h'.linked.read hsize (hpool.congr rfl rfl rfl), hcontents, hblock⟩

end LaLiga.Rfs
