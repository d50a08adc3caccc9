import LaLiga.Rfs.AttachEntry

/-! Entries attached to directories that are full. -/
namespace LaLiga.Rfs

open LaLiga.Lib

variable {c : Superblock_constants} {live : Nat → Prop} {fs fs' : Image} {w w' : Worker_state}
  {i b calls p q last turns N : Nat} {m m' : Bytes} {e new : entry_t}
  {es es' before after : List entry_t} {ds ds' : List (Nat × List entry_t)} {bs : List Nat}

section Walks

/-- What is found by a walk lies behind entries without room. -/
theorem attach_scan_found (h : attach_scan m last new turns p = .ok (some m')) :
    ∃ before, Chain m (p + total before) p before ∧ (∀ x ∈ before, 0 < x.entry_len) ∧
      (∀ x ∈ before, ¬ has_room new x) ∧ has_room new (entry_at m (p + total before)) ∧
      p + total before < last ∧ m' = put_entry m (p + total before) new := by
  induction turns generalizing p with
  | zero => cases h
  | succ turns ih =>
    rw [attach_scan] at h
    by_cases hp : p < last
    · rw [if_pos hp] at h
      simp only at h
      by_cases hroom : has_room new (entry_at m p)
      · have hpos : (entry_at m p).entry_len > get_padded_size (entry_at m p) := by
          unfold has_room at hroom
          omega
        rw [if_pos ⟨hpos, hroom⟩] at h
        refine ⟨[], rfl, by simp, by simp, hroom, hp, ?_⟩
        rw [total_nil, Nat.add_zero, put_entry]
        split_ifs at h ⊢ <;> exact (Option.some.inj (Except.ok.inj h)).symm
      · rw [if_neg fun hboth => hroom hboth.2] at h
        obtain ⟨before, hchain, hpositive, hnone, hfound⟩ := ih h
        rcases Nat.eq_zero_or_pos (entry_at m p).entry_len with hzero | hpos
        · rw [hzero, Nat.add_zero] at hchain hfound
          exact ⟨before, hchain, hpositive, hnone, hfound⟩
        · rw [Nat.add_assoc, ← total_cons] at hchain hfound
          refine ⟨entry_at m p :: before, ⟨rfl, hchain⟩, ?_, ?_, hfound⟩
          · exact List.forall_mem_cons.mpr ⟨hpos, hpositive⟩
          · exact List.forall_mem_cons.mpr ⟨hroom, hnone⟩
    · rw [if_neg hp] at h
      cases h

/-- Of two chains from one place the shorter one starts the longer one. -/
theorem Chain.starts (h : Chain m q p es) (h' : Chain m last p es') (hq : q ≤ last)
    (hpositive : ∀ x ∈ es, 0 < x.entry_len) : ∃ rest, es' = es ++ rest ∧ Chain m last q rest := by
  induction es generalizing p es' with
  | nil =>
    obtain rfl : p = q := h
    exact ⟨es', rfl, h'⟩
  | cons x es ih =>
    have hends := h.ends
    have hx := hpositive x (by simp)
    rw [total_cons] at hends
    cases es' with
    | nil =>
      obtain rfl : p = last := h'
      omega
    | cons y es' =>
      obtain rfl : x = y := h.1.symm.trans h'.1
      obtain ⟨rest, rfl, hrest⟩ := ih h.2 h'.2 fun z hz => hpositive z (by simp [hz])
      exact ⟨rest, rfl, hrest⟩

theorem Chain.unique (h : Chain m last p es) (h' : Chain m last p es')
    (hpositive : ∀ x ∈ es, 0 < x.entry_len) (hpositive' : ∀ x ∈ es', 0 < x.entry_len) :
    es' = es := by
  obtain ⟨rest, rfl, hrest⟩ := h.starts h' le_rfl hpositive
  have hends := hrest.ends
  cases rest with
  | nil => rw [List.append_nil]
  | cons x rest =>
    have hx := hpositive' x (by simp)
    rw [total_cons] at hends
    omega

/-- The entries of blocks are determined by what the blocks hold. -/
theorem blocks_unique (hmap : ds'.map Prod.fst = ds.map Prod.fst)
    (hchain : ∀ d ∈ ds, Chain m (block_start c d.1 + c.BLOCK_SIZE) (block_start c d.1) d.2)
    (hchain' : ∀ d ∈ ds', Chain m (block_start c d.1 + c.BLOCK_SIZE) (block_start c d.1) d.2)
    (hpositive : ∀ d ∈ ds, ∀ e ∈ d.2, 0 < e.entry_len)
    (hpositive' : ∀ d ∈ ds', ∀ e ∈ d.2, 0 < e.entry_len) : ds' = ds := by
  induction ds generalizing ds' with
  | nil => exact List.map_eq_nil_iff.mp hmap
  | cons d ds ih =>
    cases ds' with
    | nil => cases hmap
    | cons d' ds' =>
      obtain ⟨hfst, hrest⟩ := List.cons.inj hmap
      obtain ⟨b, es⟩ := d
      obtain ⟨b', es'⟩ := d'
      obtain rfl : b' = b := hfst
      have hes : es' = es := (hchain (b', es) (by simp)).unique (hchain' (b', es') (by simp))
        (hpositive (b', es) (by simp)) (hpositive' (b', es') (by simp))
      rw [hes, ih hrest (fun x hx => hchain x (List.mem_cons_of_mem _ hx))
        (fun x hx => hchain' x (List.mem_cons_of_mem _ hx))
        (fun x hx => hpositive x (List.mem_cons_of_mem _ hx))
        (fun x hx => hpositive' x (List.mem_cons_of_mem _ hx))]

/-- What the block was like that holds the new entry now. -/
theorem put_chain_inv (he : entry_at m p = e) (hnew : new.Fits)
    (hlen : new.entry_len = 8 + new.name_len) (hroom : has_room new e)
    (hin : p + e.entry_len ≤ last) (h : Chain (put_entry m p new) last p es) :
    ∃ after, Chain m last p (e :: after) ∧
      (8 < get_padded_size e ∧ es = { e with entry_len := get_padded_size e } ::
          { new with entry_len := e.entry_len - get_padded_size e } :: after ∨
        get_padded_size e ≤ 8 ∧ es = { new with entry_len := e.entry_len } :: after) := by
  have hput := put_entry_read he hnew hlen hroom
  have hname := le_padded e
  unfold has_room at hroom
  have hbehind : ∀ after, Chain (put_entry m p new) last (p + e.entry_len) after →
      Chain m last p (e :: after) := fun after hafter =>
    ⟨he, hafter.behind fun q hq => (hput.others q (Or.inr hq)).symm⟩
  rcases Nat.lt_or_ge 8 (get_padded_size e) with hsplit | htaken
  · obtain ⟨hself, hnext⟩ := hput.split hsplit
    cases es with
    | nil =>
      obtain rfl : p = last := h
      omega
    | cons x es =>
      obtain rfl := h.1.symm.trans hself
      have htail := h.2
      simp only at htail
      cases es with
      | nil =>
        have hlast : p + get_padded_size e = last := htail
        omega
      | cons y es =>
        obtain rfl := htail.1.symm.trans hnext
        have hrest := htail.2
        have hstart : p + get_padded_size e + (e.entry_len - get_padded_size e) =
            p + e.entry_len := by omega
        simp only [hstart] at hrest
        exact ⟨es, hbehind es hrest, Or.inl ⟨hsplit, rfl⟩⟩
  · cases es with
    | nil =>
      obtain rfl : p = last := h
      omega
    | cons x es =>
      obtain rfl := h.1.symm.trans (hput.taken htaken)
      exact ⟨es, hbehind es h.2, Or.inr ⟨htaken, rfl⟩⟩

/-- Each entry that the walk from `p` comes to has its header in the block, and either no length,
where the walk stays for ever, or one that the header fits in. It ends in the block if the new
entry is to be put there. -/
def Tame (m : Bytes) (last p : Nat) (new : entry_t) : Prop :=
  ∀ es q, Chain m q p es → q < last → q + 8 ≤ last ∧ ((entry_at m q).entry_len = 0 ∨
    8 ≤ (entry_at m q).entry_len ∧
      (has_room new (entry_at m q) → q + (entry_at m q).entry_len ≤ last))

theorem Tame.next (h : Tame m last p new) :
    Tame m last (p + (entry_at m p).entry_len) new := fun es q hchain hq =>
  h (entry_at m p :: es) q ⟨rfl, hchain⟩ hq

theorem Tame.congr (h : Tame m last p new) (hm : Bytes.Agree m m' p last) :
    Tame m' last p new := by
  intro es q hchain hq
  induction es generalizing p with
  | nil =>
    obtain rfl : p = q := hchain
    obtain ⟨hin, hentry⟩ := h [] p rfl hq
    have hself : (entry_at m' p).header = (entry_at m p).header :=
      header_congr (hm.mono le_rfl hin)
    rw [header_len hself, header_room hself]
    exact ⟨hin, hentry⟩
  | cons x es ih =>
    have hends := hchain.ends
    rw [total_cons] at hends
    obtain ⟨hin, -⟩ := h [] p rfl (by omega)
    have hself : (entry_at m' p).header = (entry_at m p).header :=
      header_congr (hm.mono le_rfl hin)
    have htail := hchain.2
    rw [← hchain.1, header_len hself] at htail
    exact ih h.next (hm.mono (by omega) le_rfl) htail

/-- The entries of a chain are as long as their headers. -/
theorem Tame.header (h : Tame m last p new) (hchain : Chain m q p es) (hq : q ≤ last)
    (hpositive : ∀ x ∈ es, 0 < x.entry_len) : ∀ x ∈ es, 8 ≤ x.entry_len := by
  induction es generalizing p with
  | nil => simp
  | cons x es ih =>
    have hends := hchain.ends
    have hx := hpositive x (by simp)
    rw [total_cons] at hends
    obtain ⟨-, hentry⟩ := h [] p rfl (by omega)
    have hnext := h.next
    rw [hchain.1] at hentry hnext
    refine List.forall_mem_cons.mpr ⟨?_, ih hnext hchain.2 fun y hy => hpositive y (by simp [hy])⟩
    rcases hentry with hzero | ⟨hlen, -⟩
    · omega
    · exact hlen

section Found

variable (htame : Tame m last p new) (hscan : attach_scan m last new turns p = .ok (some m'))
  (hnew : new.Fits) (hlen : new.entry_len = 8 + new.name_len)
include htame hscan hnew hlen

theorem Tame.outside : Outside m m' p last := by
  obtain ⟨before, hchain, -, -, hroom, hq, rfl⟩ := attach_scan_found hscan
  have hput := put_entry_read rfl hnew hlen hroom
  obtain ⟨-, hentry⟩ := htame before _ hchain hq
  have hin : p + total before + (entry_at m (p + total before)).entry_len ≤ last := by
    rcases hentry with hzero | ⟨-, hin⟩
    · unfold has_room at hroom
      omega
    · exact hin hroom
  intro q hq
  exact hput.others q (by omega)

/-- Where the walk ends with a block that lists the new entry only, it went through one without
entries in use. -/
theorem Tame.vacant (hinode : new.inode_number ≠ 0) (h : Chain m' last p es')
    (hpositive : ∀ x ∈ es', 0 < x.entry_len)
    (hcontents : contents (es'.filter fun x => x.inode_number ≠ 0) = contents [new]) :
    ∃ before e after, Vacant m last p new before e after := by
  obtain ⟨before, hchain, hbefore, hnone, hroom, hq, rfl⟩ := attach_scan_found hscan
  obtain ⟨q, hqdef⟩ : ∃ q, q = p + total before := ⟨_, rfl⟩
  rw [← hqdef] at hchain hroom hq h
  obtain ⟨e, he⟩ : ∃ e, entry_at m q = e := ⟨_, rfl⟩
  obtain ⟨-, hentry⟩ := htame before q hchain hq
  rw [he] at hroom hentry
  have hin : q + e.entry_len ≤ last := by
    rcases hentry with hzero | ⟨-, hin⟩
    · unfold has_room at hroom
      omega
    · exact hin hroom
  have hput := put_entry_read he hnew hlen hroom
  have hheader := htame.header hchain hq.le hbefore
  have hagree : Bytes.Agree m (put_entry m q new) p q :=
    fun r _ hr => (hput.others r (Or.inl hr)).symm
  obtain ⟨before', hchain', hsame⟩ := hchain.headers hheader hagree
  have hbefore' : ∀ x ∈ before', 0 < x.entry_len :=
    header_mem (P := fun t => 0 < t.2.1) hsame hbefore
  obtain ⟨rest, rfl, hrest⟩ := hchain'.starts h hq.le hbefore'
  obtain ⟨after, hafter, hcases⟩ := put_chain_inv he hnew hlen hroom hin hrest
  have hwhole : Chain m last p (before ++ e :: after) := by
    rw [chain_append, ← hqdef]
    exact ⟨hchain, hafter⟩
  have hcount := congrArg List.length hcontents
  rw [contents_length, contents_length, List.filter_append, List.length_append] at hcount
  have hrests : (rest.filter fun x => x.inode_number ≠ 0).length =
      1 + (after.filter fun x => x.inode_number ≠ 0).length ∧
      (e.inode_number = 0 ∨ get_padded_size e ≤ 8) ∨
      1 < (rest.filter fun x => x.inode_number ≠ 0).length := by
    rcases hcases with ⟨-, rfl⟩ | ⟨htaken, rfl⟩
    · by_cases hzero : e.inode_number = 0
      · left
        rw [List.filter_cons_of_neg (by simpa using hzero),
          List.filter_cons_of_pos (by simpa using hinode), List.length_cons, Nat.add_comm]
        exact ⟨rfl, Or.inl hzero⟩
      · right
        rw [List.filter_cons_of_pos (by simpa using hzero),
          List.filter_cons_of_pos (by simpa using hinode), List.length_cons, List.length_cons]
        omega
    · left
      rw [List.filter_cons_of_pos (by simpa using hinode), List.length_cons, Nat.add_comm]
      exact ⟨rfl, Or.inr htaken⟩
  have hone : (contents [new]).length = 1 := rfl
  rw [List.length_singleton] at hcount
  obtain ⟨hrests, hfree⟩ := hrests.resolve_right (by omega)
  have hunused : ∀ l : List entry_t, (l.filter fun x => x.inode_number ≠ 0).length = 0 →
      ∀ x ∈ l, x.inode_number = 0 := by
    intro l hl x hx
    have := List.filter_eq_nil_iff.mp (List.length_eq_zero_iff.mp hl) x hx
    simpa using this
  have hafterpos : ∀ x ∈ after, 0 < x.entry_len := by
    intro x hx
    apply hpositive x
    rcases hcases with ⟨-, rfl⟩ | ⟨-, rfl⟩ <;> simp [hx]
  refine ⟨before, e, after, hwhole, ?_, hnone, hroom, ?_, hfree⟩
  · refine htame.header hwhole le_rfl ?_
    intro x hx
    rcases List.mem_append.mp hx with hx | hx
    · exact hbefore x hx
    · rcases List.mem_cons.mp hx with rfl | hx
      · unfold has_room at hroom
        omega
      · exact hafterpos x hx
  · intro x hx
    rcases List.mem_append.mp hx with hx | hx
    · exact header_mem (P := fun t => t.1 = 0) hsame.symm (hunused before' (by omega)) x hx
    · exact hunused after (by omega) x hx

end Found

end Walks

/-- No block that the next indirect blocks may get has anything in it. -/
def Next_clean (c : Superblock_constants) (N : Nat) (fs : Image) : Prop :=
  ∀ d, IsBlock c d → used c fs d = false → (free_below c fs d).card < heads c N →
    ∀ j < c.BLOCK_SIZE, fs.block d j = 0

/-- The block that the next data pointer gets can be walked up to the end. -/
def Next_tame (c : Superblock_constants) (new : entry_t) (N : Nat) (fs : Image) : Prop :=
  ∀ b, IsBlock c b → used c fs b = false → (free_below c fs b).card = heads c N →
    Tame (flat c fs) (block_start c b + c.BLOCK_SIZE) (block_start c b) new

/-- All free blocks lie below 2^32 with no two in one place. -/
theorem Pool.free_mapped (hpool : Pool c fs) : fs.TOTAL_UNALLOCATED_BLOCKS * c.BLOCK_SIZE < 2 ^ 32 := by
  have hle : fs.TOTAL_UNALLOCATED_BLOCKS ≤ (2 ^ 32 - 1) / c.BLOCK_SIZE := by
    refine hpool.le_card.trans ?_
    have hcard : (Finset.Ioc 0 ((2 ^ 32 - 1) / c.BLOCK_SIZE)).card = (2 ^ 32 - 1) / c.BLOCK_SIZE := by
      rw [Nat.card_Ioc, Nat.sub_zero]
    refine (Finset.card_le_card fun d hd => ?_).trans_eq hcard
    obtain ⟨-, hblock, -⟩ := mem_free_below.mp hd
    have hmapped := hpool.mapped d hblock
    refine Finset.mem_Ioc.mpr ⟨hblock.1, (Nat.le_div_iff_mul_le c.size_pos).mpr ?_⟩
    omega
  have := (Nat.le_div_iff_mul_le c.size_pos).mp hle
  omega

section Calls

/-- When the blocks are without room, one was attached and all tried again. -/
theorem attach_entry_grow_inv (h : Extent c live i bs w.file) (hsize : Ext2_size c)
    (hpool : Pool c w.file) (hnone : attach_blocks c (flat c w.file) new bs = .ok none)
    (hrun : attach_entry c i new (calls + 1) w = .ok (true, w')) :
    ∃ r w₁, Attach_Blocks c i 1 w = .ok (r, w₁) ∧ w₁.errno ≠ some .ENOSPC ∧
      attach_entry c i new calls { w₁ with file := grow c w₁.file i } = .ok (true, w') := by
  obtain ⟨data_address, haddress, hlist⟩ := h.addresses hsize hpool (Or.inr rfl)
  rw [attach_entry] at hrun
  simp only [haddress, hlist, hnone] at hrun
  cases hattach : Attach_Blocks c i 1 w with
  | error e =>
    rw [hattach] at hrun
    cases hrun
  | ok x =>
    obtain ⟨r, w₁⟩ := x
    rw [hattach] at hrun
    simp only at hrun
    by_cases herr : w₁.errno = some .ENOSPC
    · rw [if_pos herr] at hrun
      cases hrun
    · rw [if_neg herr] at hrun
      refine ⟨r, w₁, rfl, herr, ?_⟩
      split at hrun
      · cases hrun
      · exact hrun

theorem attach_entry_blocks (h : Extent c live i bs w.file) (hsize : Ext2_size c)
    (hpool : Pool c w.file) (hrun : attach_entry c i new (calls + 1) w = .ok (true, w')) :
    ∃ x, attach_blocks c (flat c w.file) new bs = .ok x := by
  obtain ⟨data_address, haddress, hlist⟩ := h.addresses hsize hpool (Or.inr rfl)
  rw [attach_entry] at hrun
  simp only [haddress, hlist] at hrun
  cases hblocks : attach_blocks c (flat c w.file) new bs with
  | error e =>
    rw [hblocks] at hrun
    cases hrun
  | ok x => exact ⟨x, rfl⟩

/-- Each call but the last one has added a block to the size. -/
theorem attach_entry_size (h : attach_entry c i new calls w = .ok (true, w')) :
    ∃ k < calls, int32 (w'.file.inode i).size =
      int32 ((w.file.inode i).size + (k * c.BLOCK_SIZE : Nat)) := by
  induction calls generalizing w with
  | zero => cases h
  | succ calls ih =>
    rw [attach_entry] at h
    split at h
    · cases h
    · split at h
      · cases h
      · obtain ⟨-, rfl⟩ := Prod.mk.inj (Except.ok.inj h)
        refine ⟨0, by omega, ?_⟩
        rw [Nat.zero_mul, Nat.cast_zero, add_zero]
        rfl
      · split at h
        · cases h
        · next w₁ hattach =>
          have hsizes := (ends_Attach_Blocks.of_ok hattach).sizes i
          split_ifs at h with herr
          · cases h
          · split at h
            · cases h
            · obtain ⟨k, hk, heq⟩ := ih h
              refine ⟨k + 1, by omega, heq.trans ?_⟩
              have hsum : (w.file.inode i).size + c.BLOCK_SIZE + (k * c.BLOCK_SIZE : Nat) =
                  (w.file.inode i).size + ((k + 1) * c.BLOCK_SIZE : Nat) := by
                push_cast
                ring
              rw [grow, set_inode_self, int32_add, ← hsum]
              simp only at hsizes
              rw [hsizes]

end Calls

theorem int32_eq {x y : Int} (h : int32 x = int32 y) : x % 2 ^ 32 = y % 2 ^ 32 := by
  unfold int32 Int.bmod at h
  simp only at h
  split_ifs at h <;> omega

/-- More blocks than the directory is said to have are not attached on the way. -/
theorem attach_entry_once (hcalls : calls * c.BLOCK_SIZE < 2 ^ 32)
    (hsize : (w.file.inode i).size = int32 ((N + 1) * c.BLOCK_SIZE : Nat))
    (hsize' : (w'.file.inode i).size = int32 (N * c.BLOCK_SIZE : Nat)) :
    attach_entry c i new calls w ≠ .ok (true, w') := by
  intro hrun
  obtain ⟨k, hk, heq⟩ := attach_entry_size hrun
  have hsum : (((N + 1) * c.BLOCK_SIZE : Nat) : Int) + (k * c.BLOCK_SIZE : Nat) =
      (N * c.BLOCK_SIZE : Nat) + ((k + 1) * c.BLOCK_SIZE : Nat) := by
    push_cast
    ring
  have hzero : int32 (int32 (N * c.BLOCK_SIZE : Nat)) = int32 (N * c.BLOCK_SIZE : Nat) :=
    Int.bmod_bmod ..
  rw [hsize, hsize', int32_add, hsum, hzero] at heq
  have heq := int32_eq heq
  have hle : (k + 1) * c.BLOCK_SIZE ≤ calls * c.BLOCK_SIZE := Nat.mul_le_mul_right _ hk
  have hpos : 0 < (k + 1) * c.BLOCK_SIZE := Nat.mul_pos k.succ_pos c.size_pos
  omega

/-- Where the new block is listed with the new entry only, it was vacant. -/
theorem Linked.vacant_of (h : Linked c live i ds fs) (hextent : Extent c live i (ds.map Prod.fst ++ [b]) fs')
    (hsize : Ext2_size c) (hpool : Pool c fs')
    (hchain : ∀ d ∈ ds,
      Chain (flat c fs') (block_start c d.1 + c.BLOCK_SIZE) (block_start c d.1) d.2)
    (hsound : ∀ d ∈ ds, ∀ e ∈ d.2, e.Sound)
    (htame : Tame (flat c fs') (block_start c b + c.BLOCK_SIZE) (block_start c b) new)
    (hscan : attach_scan (flat c fs') (block_start c b + c.BLOCK_SIZE) new turns (block_start c b) =
      .ok (some m))
    (hnew : new.Fits) (hlen : new.entry_len = 8 + new.name_len) (hinode : new.inode_number ≠ 0)
    (h' : Linked c live i ds' (set_flat c fs' m)) (hmore : ds'.length = ds.length + 1)
    (hcontents : contents (listing ds') = contents (listing ds ++ [new])) :
    ∃ before e after,
      Vacant (flat c fs') (block_start c b + c.BLOCK_SIZE) (block_start c b) new before e after := by
  have hout := htame.outside hscan hnew hlen
  have hb : b ∈ ds.map Prod.fst ++ [b] := by simp
  have hslot : slot c b = b := hpool.slot (hextent.isBlock hsize hpool hb)
  have hblock : ∀ d ∉ ds.map Prod.fst ++ [b], (set_flat c fs' m).block d = fs'.block d := by
    intro d hd
    apply set_flat_block hout
    rintro rfl
    exact hd (by rw [hslot]; exact hb)
  have hsame : ds'.map Prod.fst = ds.map Prod.fst ++ [b] :=
    hextent.same hsize hpool h'.extent (by simpa using hmore) rfl hblock
  obtain ⟨pre, post, rfl, hpre, hpost⟩ := List.map_eq_append_iff.mp hsame
  obtain ⟨⟨b', es'⟩, rfl, hb'⟩ := List.map_eq_singleton_iff.mp hpost
  obtain rfl : b' = b := hb'
  have hchain' := h'.chain
  rw [flat_set_flat] at hchain'
  -- the old blocks hold what they held
  have hold : pre = ds := by
    refine blocks_unique hpre ?_ (fun d hd => hchain' d (by simp [hd])) h.positive
      fun d hd => h'.positive d (by simp [hd])
    intro d hd
    have hmem : d.1 ∈ ds.map Prod.fst := List.mem_map_of_mem hd
    have hnodup := hextent.nodup hsize hpool
    rw [List.nodup_append'] at hnodup
    have hne : b' ≠ d.1 := fun heq => hnodup.2.2 hmem (List.mem_singleton.mpr heq.symm)
    have hstart := hextent.start hsize hpool (List.mem_append_left [b'] hmem)
    have hstart' := hextent.start hsize hpool hb
    have hapart := blocks_apart (c := c) hne
    refine (hchain d hd).congr (hsound d hd) fun q hlo hhi => (hout q ?_).symm
    omega
  subst hold
  have hlast : listing [(b', es')] = es'.filter fun x => x.inode_number ≠ 0 := by
    rw [listing_cons]
    exact List.append_nil _
  rw [listing_append, contents_append, contents_append, hlast] at hcontents
  exact htame.vacant hscan hnew hlen hinode (hchain' (b', es') (by simp))
    (h'.positive (b', es') (by simp)) (List.append_cancel_left hcontents)

section Necessary

variable (h : Directory c live i ds w.file) (hsize : Ext2_size c) (hpool : Pool c w.file)
  (htidy : Tidy c w.file i) (herr : w.errno ≠ some .ENOSPC)
include h hsize hpool htidy herr

omit hsize htidy herr h in
/-- When there are no more free blocks than indirect blocks are needed, all are clean. -/
theorem Next_clean.all (hclean : Next_clean c N w.file)
    (hfew : w.file.TOTAL_UNALLOCATED_BLOCKS ≤ heads c N) : Clean c w.file := by
  intro d hd hfree
  refine hclean d hd hfree ?_
  have hcard := hpool.card_le (S := insert d (free_below c w.file d)) fun x hx => by
    rcases Finset.mem_insert.mp hx with rfl | hx
    · exact ⟨hd, hfree⟩
    · exact (mem_free_below.mp hx).2
  rw [Finset.card_insert_of_notMem (by simp [mem_free_below])] at hcard
  omega

/-- A block is only attached when there are enough. -/
theorem Directory.enough (hclean : Next_clean c ds.length w.file) {r : Nat}
    (hattach : Attach_Blocks c i 1 w = .ok (r, w')) (herr' : w'.errno ≠ some .ENOSPC) :
    heads c ds.length < w.file.TOTAL_UNALLOCATED_BLOCKS := by
  by_contra hfew
  have hP := hsize.pointers
  have hlevels := h.linked.lt_levels hsize hpool
  have hw : Prepared c live i ds.length 0 w.file := ⟨h.owned, hpool, full_of_tidy hP h.filled htidy⟩
  have hall : Clean c w.file := hclean.all hpool (Nat.not_lt.mp hfew)
  have hk : 1 = min (level_start c 4 - ds.length) 1 := by omega
  rcases Attach_Blocks_spec hP hsize.words h.held hw (Or.inl hall) Nat.one_pos hlevels herr hk with
    ⟨hok, -⟩ | ⟨w₁, hok, -, ⟨hzero, -⟩ | ⟨-, -, hreached, -⟩⟩ | ⟨hok, -⟩ | ⟨x, w₁, hok, hends⟩
  · obtain ⟨-, rfl⟩ := Prod.mk.inj (Except.ok.inj (hattach.symm.trans hok))
    exact herr' rfl
  · exact absurd hzero Nat.one_ne_zero
  · have hneeded := hreached.needed_le hP h.held hw (by omega)
    have hone : needed c ds.length 1 = heads c ds.length + 1 := by simp [needed]
    omega
  · rw [hok] at hattach
    cases hattach
  · obtain ⟨-, rfl⟩ := Prod.mk.inj (Except.ok.inj (hattach.symm.trans hok))
    exact herr' hends.errno

theorem Directory.attachable_of (hnew : new.Fits) (hlen : new.entry_len = 8 + new.name_len)
    (hinode : new.inode_number ≠ 0) (hfull : ∀ d ∈ ds, ∀ e ∈ d.2, ¬ has_room new e)
    (hclean : Next_clean c ds.length w.file) (htame : Next_tame c new ds.length w.file)
    (hok : Extended c live i new ds w) : Attachable c new ds w.file := by
  obtain ⟨w', ds', hrun, hlinked', hmore, hcontents⟩ := hok
  have hlinked := h.linked
  have hnone : attach_blocks c (flat c w.file) new (ds.map Prod.fst) = .ok none := by
    have hahead := attach_blocks_ahead (l := []) h.chain hlinked.positive hfull
    rwa [List.append_nil] at hahead
  obtain ⟨r, w₁, hattach, herr₁, hagain⟩ :=
    attach_entry_grow_inv hlinked.extent hsize hpool hnone hrun
  have henough := h.enough hsize hpool htidy herr hclean hattach herr₁
  obtain ⟨b, hblock, hclear, hbelow⟩ := exists_free (henough.trans_le hpool.le_card)
  have hbelowclean : ∀ d ∈ free_below c w.file b, ∀ j < c.BLOCK_SIZE, w.file.block d j = 0 := by
    intro d hd
    obtain ⟨-, hd', hfree⟩ := mem_free_below.mp hd
    exact hclean d hd' hfree ((free_below_lt hd).trans_eq hbelow)
  obtain ⟨w₂, hattach₂, -, hgrown, hpool₁, hextent, hagree, -⟩ :=
    h.next_block hsize hpool htidy herr hblock hclear hbelow hbelowclean
  obtain ⟨-, rfl⟩ := Prod.mk.inj (Except.ok.inj (hattach₂.symm.trans hattach))
  have hold : ∀ d ∈ ds, Chain (flat c (grow c w₂.file i)) (block_start c d.1 + c.BLOCK_SIZE)
      (block_start c d.1) d.2 := fun d hd => h.chain_grown hsize hpool hgrown hd
  have hblocks := attach_blocks_ahead (l := [b]) hold hlinked.positive hfull
  obtain ⟨calls, hcalls⟩ : ∃ k, w.file.TOTAL_UNALLOCATED_BLOCKS = k + 1 :=
    ⟨w.file.TOTAL_UNALLOCATED_BLOCKS - 1, by omega⟩
  rw [hcalls] at hagain
  have hmapped := hpool.free_mapped
  rw [hcalls, Nat.succ_mul] at hmapped
  obtain ⟨x, hx⟩ := attach_entry_blocks (w := { w₂ with file := grow c w₂.file i }) hextent hsize
    hpool₁ hagain
  have hx' : attach_blocks c (flat c (grow c w₂.file i)) new [b] = .ok x := hblocks.symm.trans hx
  rw [attach_blocks] at hx'
  split at hx'
  · cases hx'
  · next m hscan =>
    obtain rfl := Except.ok.inj hx'
    rw [attach_entry_put (w := { w₂ with file := grow c w₂.file i }) hextent hsize hpool₁ hx] at hagain
    obtain ⟨-, rfl⟩ := Prod.mk.inj (Except.ok.inj hagain)
    obtain ⟨before, e, after, hvacant⟩ := hlinked.vacant_of hextent hsize hpool₁ hold h.sound
      ((htame b hblock hclear hbelow).congr hagree) hscan hnew hlen hinode hlinked' hmore hcontents
    obtain ⟨before', e', after', hvacant⟩ := hvacant.congr hagree.symm
    exact ⟨b, before', e', after', hblock, hclear, hbelow, hbelowclean, hvacant⟩
  · obtain rfl := Except.ok.inj hx'
    -- one more block makes the directory too large
    obtain ⟨r', w₃, hattach₃, -, hagain₃⟩ := attach_entry_grow_inv
      (w := { w₂ with file := grow c w₂.file i }) hextent hsize hpool₁ hx hagain
    refine absurd hagain₃ (attach_entry_once (N := ds.length + 1) (by omega) ?_ ?_)
    · have hsizes := (ends_Attach_Blocks.of_ok hattach₃).sizes i
      have hgrownsize := hextent.size
      rw [List.length_append, List.length_map, List.length_singleton] at hgrownsize
      have hsum : (((ds.length + 1) * c.BLOCK_SIZE : Nat) : Int) + c.BLOCK_SIZE =
          ((ds.length + 1 + 1) * c.BLOCK_SIZE : Nat) := by
        push_cast
        ring
      show (Rfs.grow c w₃.file i |>.inode i).size = _
      rw [grow, set_inode_self, hsizes, hgrownsize, int32_add, hsum]
    · have hlast := hlinked'.extent.size
      rwa [List.length_map, hmore] at hlast

end Necessary

/-- When no block of a directory has room, the new entry gets the next free block, and that one is
walked as if it were a block of entries: it has to be one already, with no entry in use, that
gives the new one its room. -/
theorem attach_entry_extended_iff {file_name : List UInt8} {inode_number : Nat}
    (h : Directory c live i ds w.file) (hsize : Ext2_size c) (hpool : Pool c w.file)
    (htidy : Tidy c w.file i) (herr : w.errno ≠ some .ENOSPC) (hname : file_name.length < 2 ^ 8)
    (hinode : 0 < inode_number) (hword : inode_number < 2 ^ 32)
    (hfull : ∀ d ∈ ds, ∀ e ∈ d.2, ¬ has_room (create_entry file_name inode_number) e) :
    (Attachable c (create_entry file_name inode_number) ds w.file →
      Extended c live i (create_entry file_name inode_number) ds w) ∧
    (Next_clean c ds.length w.file →
      Next_tame c (create_entry file_name inode_number) ds.length w.file →
      (Extended c live i (create_entry file_name inode_number) ds w ↔
        Attachable c (create_entry file_name inode_number) ds w.file)) := by
  have hfits := create_entry_fits hname hword
  have hlen : (create_entry file_name inode_number).entry_len =
      8 + (create_entry file_name inode_number).name_len := by
    have hnumber : (create_entry file_name inode_number).name_len = file_name.length :=
      Nat.mod_eq_of_lt hname
    rw [hnumber]
    exact Nat.mod_eq_of_lt (by omega)
  have hextended := h.extended hsize hpool htidy herr hfits hlen hinode.ne' hfull
  refine ⟨hextended, fun hclean htame => ⟨?_, hextended⟩⟩
  exact h.attachable_of hsize hpool htidy herr hfits hlen hinode.ne' hfull hclean htame

/-- `.`, `..`, `a` and `b`, with no more than 260 bytes behind each. -/
def four_entries : List entry_t :=
  [⟨5, 272, 1, 2, [46]⟩, ⟨2, 272, 2, 2, [46, 46]⟩, ⟨6, 272, 1, 1, [97]⟩, ⟨7, 208, 1, 1, [98]⟩]

/-- The directory 5 in the block 3 of eight, and what is in the free block 5. -/
def full_directory (fifth : Bytes) : Image :=
  { small_file with
    inode := fun n => if n = 5 then
        ⟨EXT2_IFDIR, 1024, 1, 2, fun k => if k = 0 then 3 else 0, 0, 0, 0⟩
      else ⟨0, 0, 0, 0, fun _ => 0, 0, 0, 0⟩
    block := fun b => if b = 3 then
        copy_entry (copy_entry (copy_entry (copy_entry (fun _ => 0) 0 ⟨5, 272, 1, 2, [46]⟩) 272
          ⟨2, 272, 2, 2, [46, 46]⟩) 544 ⟨6, 272, 1, 1, [97]⟩) 816 ⟨7, 208, 1, 1, [98]⟩
      else if b = 5 then fifth else fun _ => 0 }

theorem full_directory_direct {fifth : Bytes} : ∀ s, 12 ≤ s → s < 15 →
    pointer ((full_directory fifth).inode 5) s = 0 := by
  intro s hs hs'
  obtain rfl | rfl | rfl : s = 12 ∨ s = 13 ∨ s = 14 := by omega
  all_goals rfl

theorem full_directory_pool {fifth : Bytes} :
    Pool (one_group 0 (by decide)) (full_directory fifth) :=
  small_file_pool.congr rfl rfl rfl

theorem full_directory_used {fifth : Bytes} {b : Nat} :
    used (one_group 0 (by decide)) (full_directory fifth) b =
      used (one_group 0 (by decide)) small_file b := by
  simp only [used, full_directory]

theorem four_entries_sound : ∀ e ∈ four_entries, e.Sound := by
  intro e he
  simp only [four_entries, List.mem_cons, List.not_mem_nil, or_false] at he
  rcases he with rfl | rfl | rfl | rfl <;> exact ⟨by decide, by decide⟩

theorem four_entries_chain : Chain (flat (one_group 0 (by decide)) (full_directory fun _ => 0))
    4096 3072 four_entries := by
  refine ⟨?_, ?_, ?_, ?_, rfl⟩
  all_goals decide +kernel

theorem full_directory_directory {fifth : Bytes} :
    Directory (one_group 0 (by decide)) (fun j => j = 5) 5 [(3, four_entries)]
      (full_directory fifth) := by
  have hpointer : ∀ s < 12, pointer ((full_directory fifth).inode 5) s = if s = 0 then 3 else 0 := by
    intro s hs
    rw [pointer, if_pos hs]
    rfl
  have hblock : (one_group 0 (by decide)).BLOCK_SIZE = 1024 := rfl
  constructor
  · refine owned_direct full_directory_direct ?_ ?_ ?_
    · intro s hs t ht
      rw [hpointer s hs, hpointer t ht]
      split_ifs <;> simp_all
    · intro s hs hne
      rw [hpointer s hs] at hne ⊢
      rw [if_pos (by_contra fun h0 => hne (if_neg h0))]
      decide
    · intro s hs hne
      rw [hpointer s hs] at hne ⊢
      rw [if_pos (by_contra fun h0 => hne (if_neg h0)), full_directory_used]
      decide
  · rfl
  · show Filled _ _ 5 1
    refine filled_direct (by decide) full_directory_direct (by decide) ?_
    intro s hs
    rw [hpointer s hs]
    split_ifs <;> omega
  · rfl
  · show (1024 : Int) = _
    simp only [hblock, List.length_cons, List.length_nil]
    norm_num
  · rfl
  · simp only [hblock, List.length_cons, List.length_nil]
    norm_num
  · intro d hd
    obtain rfl := List.mem_singleton.mp hd
    have hagree : Bytes.Agree (flat (one_group 0 (by decide)) (full_directory fun _ => 0))
        (flat (one_group 0 (by decide)) (full_directory fifth)) (3 * 1024) (3 * 1024 + 1024) :=
      flat_agree rfl
    exact four_entries_chain.congr four_entries_sound hagree
  · intro d hd
    obtain rfl := List.mem_singleton.mp hd
    exact four_entries_sound
  · decide

def long_name : List UInt8 := List.replicate 255 98

theorem full_directory_full (fifth : Bytes) : (∀ d ∈ [(3, four_entries)], ∀ e ∈ d.2,
    ¬ has_room (create_entry long_name 6) e) ∧
      Pool (one_group 0 (by decide)) (full_directory fifth) ∧
      Tidy (one_group 0 (by decide)) (full_directory fifth) 5 ∧
      used (one_group 0 (by decide)) (full_directory fifth) 5 = false := by
  refine ⟨?_, full_directory_pool, tidy_direct full_directory_direct, ?_⟩
  · intro d hd
    obtain rfl := List.mem_singleton.mp hd
    decide +kernel
  · rw [full_directory_used]
    decide

/-- A free block that holds one entry out of use becomes the second block of the directory. -/
theorem second_block_entered : Extended (one_group 0 (by decide)) (fun j => j = 5) 5
    (create_entry long_name 6) [(3, four_entries)]
    ⟨full_directory (copy_entry (fun _ => 0) 0 ⟨0, 1024, 0, 0, []⟩), none⟩ := by
  obtain ⟨hfull, hpool, htidy, hclear⟩ :=
    full_directory_full (copy_entry (fun _ => 0) 0 ⟨0, 1024, 0, 0, []⟩)
  refine (attach_entry_extended_iff full_directory_directory (Or.inl rfl) hpool htidy (by simp)
    (by decide +kernel) (by decide) (by decide) hfull).1 ?_
  have hnone : free_below (one_group 0 (by decide))
      (full_directory (copy_entry (fun _ => 0) 0 ⟨0, 1024, 0, 0, []⟩)) 5 = ∅ := by
    simp only [free_below, full_directory_used]
    decide
  refine ⟨5, [], ⟨0, 1024, 0, 0, []⟩, [], by decide, hclear, ?_, ?_, ?_⟩
  · simp only [hnone]
    decide
  · simp [hnone]
  · refine ⟨⟨?_, rfl⟩, ?_, by simp, by decide +kernel, by simp, Or.inl rfl⟩
    · decide +kernel
    · intro x hx
      obtain rfl := List.mem_singleton.mp hx
      decide

theorem tame_zero (hzero : ∀ q, p ≤ q → q < last → m q = 0) (hin : p + 8 ≤ last) :
    Tame m last p new := by
  have hlen : (entry_at m p).entry_len = 0 := by
    have hagree : Bytes.Agree m (fun _ => 0) (p + 4) (p + 4 + 2) := fun q hlo hhi =>
      hzero q (by omega) (by omega)
    exact hagree.number
  intro es q hchain hq
  induction es with
  | nil =>
    obtain rfl : p = q := hchain
    exact ⟨hin, Or.inl hlen⟩
  | cons x es ih =>
    have hnext := hchain.2
    rw [← hchain.1, hlen, Nat.add_zero] at hnext
    exact ih hnext

/-- A free block of zeros becomes the second block too, and the walk through it does not end. -/
theorem clean_block_not_entered : (∀ d ∈ [(3, four_entries)], ∀ e ∈ d.2,
    ¬ has_room (create_entry long_name 6) e) ∧
      Directory (one_group 0 (by decide)) (fun j => j = 5) 5 [(3, four_entries)]
        (full_directory fun _ => 0) ∧
      Pool (one_group 0 (by decide)) (full_directory fun _ => 0) ∧
      Tidy (one_group 0 (by decide)) (full_directory fun _ => 0) 5 ∧
      used (one_group 0 (by decide)) (full_directory fun _ => 0) 5 = false ∧
      ¬ Extended (one_group 0 (by decide)) (fun j => j = 5) 5
        (create_entry long_name 6) [(3, four_entries)]
        ⟨full_directory fun _ => 0, none⟩ := by
  obtain ⟨hfull, hpool, htidy, hclear⟩ := full_directory_full fun _ => 0
  refine ⟨hfull, full_directory_directory, hpool, htidy, hclear, fun hextended => ?_⟩
  have hfree : ∀ b, used (one_group 0 (by decide)) (full_directory fun _ => 0) b = false →
      b ≠ 3 := by
    rintro b hb rfl
    rw [full_directory_used] at hb
    revert hb
    decide
  have hzero : ∀ b ≠ 3, ∀ j, (full_directory fun _ => 0).block b j = 0 := by
    intro b hb j
    rw [full_directory]
    simp only
    rw [if_neg hb]
    split_ifs <;> rfl
  have hflat : ∀ b, IsBlock (one_group 0 (by decide)) b → b ≠ 3 → ∀ q,
      block_start (one_group 0 (by decide)) b ≤ q →
      q < block_start (one_group 0 (by decide)) b + 1024 →
      flat (one_group 0 (by decide)) (full_directory fun _ => 0) q = 0 := by
    intro b hblock hb q hlo hhi
    rw [block_start, hpool.slot hblock] at hlo hhi
    have hdiv : q / 1024 = b := by
      have hlo : b * 1024 ≤ q := hlo
      have hhi : q < b * 1024 + 1024 := hhi
      omega
    show (full_directory fun _ => 0).block (q / 1024) (q % 1024) = 0
    rw [hdiv]
    exact hzero b hb _
  have hclean : Next_clean (one_group 0 (by decide)) 1 (full_directory fun _ => 0) := by
    intro d _ hd _ j _
    exact hzero d (hfree d hd) j
  have htame : Next_tame (one_group 0 (by decide)) (create_entry long_name 6) 1
      (full_directory fun _ => 0) := by
    intro b hblock hb _
    exact tame_zero (hflat b hblock (hfree b hb)) (Nat.add_le_add_left (by decide) _)
  obtain ⟨b, before, e, after, hblock, hbclear, -, -, hvacant⟩ :=
    full_directory_directory.attachable_of (w := ⟨full_directory fun _ => 0, none⟩) (Or.inl rfl)
      hpool htidy (by simp) (create_entry_fits (by decide +kernel) (by decide)) (by decide +kernel)
      (by decide) hfull hclean htame hextended
  have hlen : (entry_at (flat (one_group 0 (by decide)) (full_directory fun _ => 0))
      (block_start (one_group 0 (by decide)) b)).entry_len = 0 := by
    have hagree : Bytes.Agree (flat (one_group 0 (by decide)) (full_directory fun _ => 0))
        (fun _ => 0) (block_start (one_group 0 (by decide)) b + 4)
        (block_start (one_group 0 (by decide)) b + 4 + 2) := fun q hlo hhi =>
      hflat b hblock (hfree b hbclear) q (by omega) (by omega)
    exact hagree.number
  obtain ⟨x, rest, hx⟩ : ∃ x rest, before ++ e :: after = x :: rest := by
    cases before with
    | nil => exact ⟨e, after, rfl⟩
    | cons x before => exact ⟨x, before ++ e :: after, rfl⟩
  have hchain := hvacant.chain
  have hheader := hvacant.header x (by simp [hx])
  rw [hx] at hchain
  have heq : (entry_at (flat (one_group 0 (by decide)) (full_directory fun _ => 0))
      (block_start (one_group 0 (by decide)) b)).entry_len = x.entry_len :=
    congrArg entry_t.entry_len hchain.1
  omega

end LaLiga.Rfs
