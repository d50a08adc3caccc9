import LaLiga.Rfs.DeleteEntry

/-! An entry put in a block that may hold anything. -/
namespace LaLiga.Rfs

open LaLiga.Lib

variable {m m' : Bytes} {p last turns : Nat} {e new : entry_t} {es es' before after : List entry_t}

/-- The test of `attach_entry` for room behind the entry `e`. -/
def has_room (new e : entry_t) : Prop := new.entry_len < e.entry_len - get_padded_size e

instance (new e : entry_t) : Decidable (has_room new e) := inferInstanceAs (Decidable (_ < _))

/-- The new entry behind the one at `p`, or in its place when that one has no name. -/
def put_entry (m : Bytes) (p : Nat) (new : entry_t) : Bytes :=
  let an_entry := entry_at m p
  let padded_size := get_padded_size an_entry
  if padded_size > 8 then copy_entry (set_entry_len m p padded_size) (p + padded_size)
    { new with entry_len := an_entry.entry_len - padded_size }
  else copy_entry m p { new with entry_len := an_entry.entry_len }

theorem chain_append :
    Chain m last p (es ++ es') ↔ Chain m (p + total es) p es ∧ Chain m last (p + total es) es' := by
  induction es generalizing p with
  | nil => simp [Chain]
  | cons e es ih =>
    rw [List.cons_append, Chain, Chain, ih, total_cons, Nat.add_assoc, and_assoc]

/-- What is behind a place in memory is read as before when only the bytes before it change. -/
theorem Chain.behind (h : Chain m last p es) (hm : ∀ q, p ≤ q → m' q = m q) :
    Chain m' last p es := by
  induction es generalizing p with
  | nil => exact h
  | cons e es ih =>
    refine ⟨?_, ih h.2 fun q hq => hm q (by omega)⟩
    rw [← h.1]
    exact (entry_at_congr fun q hlo _ => (hm q hlo).symm).symm

/-- Entries without room are passed over. -/
theorem attach_scan_ahead (h : Chain m last p (before ++ es))
    (hpositive : ∀ x ∈ before, 0 < x.entry_len) (hnone : ∀ x ∈ before, ¬ has_room new x)
    (hturns : before.length ≤ turns) : attach_scan m last new turns p =
      attach_scan m last new (turns - before.length) (p + total before) := by
  induction before generalizing p turns with
  | nil => rfl
  | cons x before ih =>
    obtain ⟨n, rfl⟩ : ∃ n, turns = n + 1 := ⟨turns - 1, by simp at hturns; omega⟩
    have hends := h.ends
    have hx := hpositive x (by simp)
    rw [List.cons_append, total_cons] at hends
    rw [attach_scan, if_pos (by omega), h.1]
    simp only
    rw [if_neg fun hroom => hnone x (by simp) hroom.2,
      ih h.2 (fun y hy => hpositive y (by simp [hy])) (fun y hy => hnone y (by simp [hy]))
        (by simpa using hturns), total_cons, List.length_cons, Nat.add_assoc,
      Nat.add_sub_add_right]

theorem attach_scan_none (h : Chain m last p es) (hpositive : ∀ x ∈ es, 0 < x.entry_len)
    (hnone : ∀ x ∈ es, ¬ has_room new x) (hturns : es.length < turns) :
    attach_scan m last new turns p = .ok none := by
  have hends := h.ends
  rw [← List.append_nil es] at h
  rw [attach_scan_ahead h hpositive hnone hturns.le]
  obtain ⟨n, hn⟩ : ∃ n, turns - es.length = n + 1 := ⟨turns - es.length - 1, by omega⟩
  rw [hn, attach_scan, if_neg (by omega)]

/-- The first entry with room gets the new one. -/
theorem attach_scan_put (h : Chain m last p (before ++ e :: after))
    (hpositive : ∀ x ∈ before, 0 < x.entry_len) (hnone : ∀ x ∈ before, ¬ has_room new x)
    (hroom : has_room new e) (hturns : before.length < turns) :
    attach_scan m last new turns p = .ok (some (put_entry m (p + total before) new)) := by
  have hentry : entry_at m (p + total before) = e := (chain_append.mp h).2.1
  have hends := h.ends
  rw [total_append, total_cons] at hends
  unfold has_room at hroom
  rw [attach_scan_ahead h hpositive hnone hturns.le]
  obtain ⟨n, hn⟩ : ∃ n, turns - before.length = n + 1 := ⟨turns - before.length - 1, by omega⟩
  rw [hn, attach_scan, if_pos (by omega), put_entry, hentry]
  simp only
  rw [if_pos ⟨by omega, hroom⟩]
  split <;> rfl

/-- What an entry says before its name. -/
def entry_t.header (e : entry_t) : Nat × Nat × Nat := (e.inode_number, e.entry_len, e.name_len)

theorem header_len {e' : entry_t} (h : e'.header = e.header) : e'.entry_len = e.entry_len :=
  congrArg (fun t : Nat × Nat × Nat => t.2.1) h

theorem header_padded {e' : entry_t} (h : e'.header = e.header) :
    get_padded_size e' = get_padded_size e := by
  have hname : e'.name_len = e.name_len := congrArg (fun t : Nat × Nat × Nat => t.2.2) h
  unfold get_padded_size
  rw [hname]

/-- The test for room looks at the header only. -/
theorem header_room {e' : entry_t} (h : e'.header = e.header) : has_room new e' ↔ has_room new e := by
  unfold has_room
  rw [header_len h, header_padded h]

theorem header_congr (hm : Bytes.Agree m m' p (p + 8)) :
    (entry_at m' p).header = (entry_at m p).header := by
  unfold entry_t.header entry_at
  rw [(hm.mono le_rfl (by omega) : Bytes.Agree m m' p (p + 4)).number,
    (hm.mono (by omega) (by omega) : Bytes.Agree m m' (p + 4) (p + 4 + 2)).number,
    (hm.mono (by omega) (by omega) : Bytes.Agree m m' (p + 6) (p + 6 + 1)).number]

/-- Entries that have all of their header where nothing changes keep it. -/
theorem Chain.headers (h : Chain m last p es) (hheader : ∀ x ∈ es, 8 ≤ x.entry_len)
    (hm : Bytes.Agree m m' p last) :
    ∃ es', Chain m' last p es' ∧ es'.map entry_t.header = es.map entry_t.header := by
  induction es generalizing p with
  | nil => exact ⟨[], h, rfl⟩
  | cons x es ih =>
    have hx := hheader x (by simp)
    have hends := h.ends
    rw [total_cons] at hends
    obtain ⟨es', hchain, hsame⟩ :=
      ih h.2 (fun y hy => hheader y (by simp [hy])) (hm.mono (by omega) le_rfl)
    have hself : (entry_at m' p).header = x.header := by
      rw [← h.1]
      exact header_congr (hm.mono le_rfl (by omega))
    have hlen : (entry_at m' p).entry_len = x.entry_len := header_len hself
    refine ⟨entry_at m' p :: es', ⟨rfl, ?_⟩, by simp [hself, hsame]⟩
    rwa [hlen]

theorem header_mem {P : Nat × Nat × Nat → Prop} (h : es'.map entry_t.header = es.map entry_t.header)
    (hall : ∀ x ∈ es, P x.header) : ∀ x ∈ es', P x.header := by
  intro x hx
  have hmem : x.header ∈ es.map entry_t.header := h ▸ List.mem_map_of_mem hx
  obtain ⟨y, hy, heq⟩ := List.mem_map.mp hmem
  exact heq ▸ hall y hy

/-- A block without entries in use where the first entry with room is `e`. -/
structure Vacant (m : Bytes) (last p : Nat) (new : entry_t) (before : List entry_t) (e : entry_t)
    (after : List entry_t) : Prop where
  chain : Chain m last p (before ++ e :: after)
  header : ∀ x ∈ before ++ e :: after, 8 ≤ x.entry_len
  passed : ∀ x ∈ before, ¬ has_room new x
  room : has_room new e
  unused : ∀ x ∈ before ++ after, x.inode_number = 0
  free : e.inode_number = 0 ∨ get_padded_size e ≤ 8

theorem Vacant.congr (h : Vacant m last p new before e after) (hm : Bytes.Agree m m' p last) :
    ∃ before' e' after', Vacant m' last p new before' e' after' := by
  obtain ⟨es, hchain, hsame⟩ := h.chain.headers h.header hm
  rw [List.map_append, List.map_cons] at hsame
  obtain ⟨before', rest, rfl, hbefore, hrest⟩ := List.map_eq_append_iff.mp hsame
  obtain ⟨e', after', rfl, he, hafter⟩ := List.map_eq_cons_iff.mp hrest
  have hinode : e'.inode_number = e.inode_number := congrArg Prod.fst he
  refine ⟨before', e', after', hchain, ?_, ?_, ?_, ?_, ?_⟩
  · exact header_mem (P := fun t => 8 ≤ t.2.1)
      (by simp [hbefore, he, hafter]) h.header
  · exact header_mem (P := fun t => ¬ new.entry_len < t.2.1 - get_padded_size ⟨0, 0, t.2.2, 0, []⟩)
      hbefore h.passed
  · exact (header_room he).mpr h.room
  · exact header_mem (P := fun t => t.1 = 0) (by simp [hbefore, hafter])
      h.unused
  · rw [hinode, header_padded he]
    exact h.free

/-- What is read where the new entry has been put. -/
structure Put (m m' : Bytes) (p : Nat) (new e : entry_t) : Prop where
  split : 8 < get_padded_size e → entry_at m' p = { e with entry_len := get_padded_size e } ∧
    entry_at m' (p + get_padded_size e) =
      { new with entry_len := e.entry_len - get_padded_size e }
  taken : get_padded_size e ≤ 8 → entry_at m' p = { new with entry_len := e.entry_len }
  others : ∀ q, q < p ∨ p + e.entry_len ≤ q → m' q = m q

theorem put_entry_read (he : entry_at m p = e) (hnew : new.Fits)
    (hlen : new.entry_len = 8 + new.name_len) (hroom : has_room new e) :
    Put m (put_entry m p new) p new e := by
  have hsize : e.entry_len < 2 ^ 16 := he ▸ entry_at_fits.entry_len
  have hname := le_padded e
  rw [put_entry, he]
  unfold has_room at hroom
  by_cases hsplit : get_padded_size e > 8
  · have hfits : ({ new with entry_len := e.entry_len - get_padded_size e } : entry_t).Fits :=
      { hnew with entry_len := by simp only; omega }
    obtain ⟨m₁, hm₁⟩ : ∃ m₁, m₁ = set_entry_len m p (get_padded_size e) := ⟨_, rfl⟩
    have hset : entry_at m₁ p = { e with entry_len := get_padded_size e } := by
      rw [hm₁, entry_at_set_len (by omega), he]
    rw [if_pos hsplit, ← hm₁]
    refine ⟨fun _ => ⟨?_, entry_at_copy hfits⟩, fun hle => absurd hsplit (by omega), ?_⟩
    · rw [← hset]
      refine (entry_at_congr (Bytes.Agree.symm (copy_before ?_ p))).symm
      rw [hset]
      simp only
      omega
    · rintro q (hq | hq)
      · rw [copy_before le_rfl q q le_rfl (by omega), hm₁,
          set_len_before (q := q + 1) (by omega) q q le_rfl (Nat.lt_succ_self q)]
      · rw [copy_after hfits (q := q) (by simp only; omega) (q + 1) q le_rfl (Nat.lt_succ_self q),
          hm₁, set_len_after (q := q) (by omega) (q + 1) q le_rfl (Nat.lt_succ_self q)]
  · have hfits : ({ new with entry_len := e.entry_len } : entry_t).Fits :=
      { hnew with entry_len := hsize }
    rw [if_neg hsplit]
    refine ⟨fun h => absurd h hsplit, fun _ => entry_at_copy hfits, ?_⟩
    rintro q (hq | hq)
    · exact copy_before (q := q + 1) (by omega) q q le_rfl (Nat.lt_succ_self q)
    · exact copy_after hfits (q := q) (by simp only; omega) (q + 1) q le_rfl (Nat.lt_succ_self q)

/-- What the new entry makes of the block from the entry on that had the room. -/
theorem put_chain (h : Chain m last p (e :: after)) (hnew : new.Fits)
    (hlen : new.entry_len = 8 + new.name_len) (hroom : has_room new e)
    (hfree : e.inode_number = 0 ∨ get_padded_size e ≤ 8) (hinode : new.inode_number ≠ 0)
    (hunused : ∀ x ∈ after, x.inode_number = 0) (hpositive : ∀ x ∈ after, 0 < x.entry_len) :
    ∃ es, Chain (put_entry m p new) last p es ∧ (∀ x ∈ es, 0 < x.entry_len) ∧
      contents (es.filter fun x => x.inode_number ≠ 0) = contents [new] ∧
      ∀ q, q < p ∨ last ≤ q → put_entry m p new q = m q := by
  have hends := h.ends
  have hname := le_padded e
  have hnone : after.filter (fun x => x.inode_number ≠ 0) = [] := by
    simpa [List.filter_eq_nil_iff] using hunused
  have hput := put_entry_read h.1 hnew hlen hroom
  rw [total_cons] at hends
  unfold has_room at hroom
  have hbehind : Chain (put_entry m p new) last (p + e.entry_len) after :=
    h.2.behind fun q hq => hput.others q (Or.inr hq)
  have hout : ∀ q, q < p ∨ last ≤ q → put_entry m p new q = m q := fun q hq =>
    hput.others q (by omega)
  by_cases hsplit : get_padded_size e > 8
  · -- an entry that is not in use keeps its name
    have hzero : e.inode_number = 0 := hfree.resolve_right (by omega)
    obtain ⟨hself, hnext⟩ := hput.split hsplit
    have hstart : p + get_padded_size e + (e.entry_len - get_padded_size e) = p + e.entry_len := by
      omega
    refine ⟨{ e with entry_len := get_padded_size e } ::
      { new with entry_len := e.entry_len - get_padded_size e } :: after,
      ⟨hself, hnext, ?_⟩, ?_, ?_, hout⟩
    · simp only [hstart]
      exact hbehind
    · refine List.forall_mem_cons.mpr ⟨?_, List.forall_mem_cons.mpr ⟨?_, hpositive⟩⟩
      · simp only
        omega
      · simp only
        omega
    · rw [List.filter_cons_of_neg (by simpa using hzero),
        List.filter_cons_of_pos (by simpa using hinode), hnone]
      rfl
  · refine ⟨{ new with entry_len := e.entry_len } :: after,
      ⟨hput.taken (by omega), hbehind⟩, ?_, ?_, hout⟩
    · refine List.forall_mem_cons.mpr ⟨?_, hpositive⟩
      simp only
      omega
    · rw [List.filter_cons_of_pos (by simpa using hinode), hnone]
      rfl

/-- The walk of such a block ends with the entry that has the room. -/
theorem Vacant.scan (h : Vacant m last p new before e after) (hturns : before.length < turns) :
    attach_scan m last new turns p = .ok (some (put_entry m (p + total before) new)) := by
  refine attach_scan_put h.chain (fun x hx => ?_) h.passed h.room hturns
  have := h.header x (by simp [hx])
  omega

/-- The walk of such a block leaves the new entry as the only one in use. -/
theorem Vacant.attached (h : Vacant m last p new before e after) (hnew : new.Fits)
    (hlen : new.entry_len = 8 + new.name_len) (hinode : new.inode_number ≠ 0)
    (hturns : before.length < turns) :
    ∃ m' es', attach_scan m last new turns p = .ok (some m') ∧ Chain m' last p es' ∧
      (∀ x ∈ es', 0 < x.entry_len) ∧
      contents (es'.filter fun x => x.inode_number ≠ 0) = contents [new] ∧ Outside m m' p last := by
  have hheader : ∀ x ∈ before, 8 ≤ x.entry_len := fun x hx => h.header x (by simp [hx])
  have hpositive : ∀ x ∈ before, 0 < x.entry_len := fun x hx => by
    have := hheader x hx
    omega
  obtain ⟨hbefore, hrest⟩ := chain_append.mp h.chain
  have hends := h.chain.ends
  have hends' := hrest.ends
  obtain ⟨es, hchain, hes, hcontents, hout⟩ := put_chain hrest hnew hlen h.room h.free hinode
    (fun x hx => h.unused x (by simp [hx])) fun x hx => by
      have := h.header x (by simp [hx])
      omega
  have hagree : Bytes.Agree m (put_entry m (p + total before) new) p (p + total before) :=
    fun q _ hq => (hout q (Or.inl hq)).symm
  obtain ⟨before', hchain', hsame⟩ := hbefore.headers hheader hagree
  have hunused : ∀ x ∈ before', x.inode_number = 0 :=
    header_mem (P := fun t => t.1 = 0) hsame fun x hx => h.unused x (by simp [hx])
  have hpositive' : ∀ x ∈ before', 0 < x.entry_len :=
    header_mem (P := fun t => 0 < t.2.1) hsame hpositive
  have htotal : p + total before' = p + total before := hchain'.ends
  refine ⟨_, before' ++ es, h.scan hturns, ?_, ?_, ?_, ?_⟩
  · rw [chain_append, htotal]
    exact ⟨hchain', hchain⟩
  · intro x hx
    rcases List.mem_append.mp hx with hx | hx
    · exact hpositive' x hx
    · exact hes x hx
  · have hnone : before'.filter (fun x => x.inode_number ≠ 0) = [] := by
      simpa [List.filter_eq_nil_iff] using hunused
    rw [List.filter_append, hnone]
    exact hcontents
  · intro q hq
    exact hout q (by omega)

section Blocks

variable {c : Superblock_constants} {live : Nat → Prop} {fs fs' : Image} {w w' : Worker_state}
  {i b calls N : Nat} {ds : List (Nat × List entry_t)} {d : Nat × List entry_t} {l : List Nat}
  {x : Node}

/-- Blocks without room are passed over. -/
theorem attach_blocks_ahead
    (hchain : ∀ d ∈ ds, Chain m (block_start c d.1 + c.BLOCK_SIZE) (block_start c d.1) d.2)
    (hpositive : ∀ d ∈ ds, ∀ e ∈ d.2, 0 < e.entry_len)
    (hnone : ∀ d ∈ ds, ∀ e ∈ d.2, ¬ has_room new e) :
    attach_blocks c m new (ds.map Prod.fst ++ l) = attach_blocks c m new l := by
  induction ds with
  | nil => rfl
  | cons d ds ih =>
    have hd := List.mem_cons_self (a := d) (l := ds)
    have hshort := entries_short hchain hpositive hd
    rw [List.map_cons, List.cons_append, attach_blocks,
      attach_scan_none (hchain d hd) (hpositive d hd) (hnone d hd) (by omega)]
    exact ih (fun x hx => hchain x (List.mem_cons_of_mem _ hx))
      (fun x hx => hpositive x (List.mem_cons_of_mem _ hx))
      (fun x hx => hnone x (List.mem_cons_of_mem _ hx))

/-- The first entry with room is found. -/
theorem attach_blocks_put
    (hchain : ∀ d ∈ ds, Chain m (block_start c d.1 + c.BLOCK_SIZE) (block_start c d.1) d.2)
    (hpositive : ∀ d ∈ ds, ∀ e ∈ d.2, 0 < e.entry_len)
    (hroom : ∃ d ∈ ds, ∃ e ∈ d.2, has_room new e) :
    ∃ m', attach_blocks c m new (ds.map Prod.fst) = .ok (some m') := by
  induction ds with
  | nil =>
    obtain ⟨d, hd, -⟩ := hroom
    cases hd
  | cons d ds ih =>
    have hd := List.mem_cons_self (a := d) (l := ds)
    have hshort := entries_short hchain hpositive hd
    by_cases hhere : ∃ e ∈ d.2, has_room new e
    · obtain ⟨e, he, hroom⟩ := hhere
      obtain ⟨before, e, after, hes, hnone, hfirst⟩ :=
        exists_first (P := fun x => ¬ has_room new x) ⟨e, he, not_not.mpr hroom⟩
      rw [hes, List.length_append, List.length_cons] at hshort
      have hscan : attach_scan m (block_start c d.1 + c.BLOCK_SIZE) new (c.BLOCK_SIZE + 1)
          (block_start c d.1) = .ok (some (put_entry m (block_start c d.1 + total before) new)) :=
        attach_scan_put (hes ▸ hchain d hd) (fun x hx => hpositive d hd x (by simp [hes, hx])) hnone
          (not_not.mp hfirst) (by omega)
      rw [List.map_cons, attach_blocks, hscan]
      exact ⟨_, rfl⟩
    · have hnone : ∀ e ∈ d.2, ¬ has_room new e := fun e he hroom => hhere ⟨e, he, hroom⟩
      obtain ⟨d', hd', hroom'⟩ := hroom
      have hrest : ∃ d ∈ ds, ∃ e ∈ d.2, has_room new e := by
        rcases List.mem_cons.mp hd' with rfl | hd'
        · exact absurd hroom' hhere
        · exact ⟨d', hd', hroom'⟩
      rw [List.map_cons, attach_blocks, attach_scan_none (hchain d hd) (hpositive d hd) hnone (by omega)]
      exact ih (fun x hx => hchain x (List.mem_cons_of_mem _ hx))
        (fun x hx => hpositive x (List.mem_cons_of_mem _ hx)) hrest

/-- A data block that was there is as it was. -/
theorem Grown.data_kept (h : Grown c live i fs fs') (hx : Held c live x)
    (hleaf : Leaf c x.slot x.path) (hne : x.ptr c fs ≠ 0) (hused : used c fs (x.ptr c fs) = true) :
    fs'.block (x.ptr c fs) = fs.block (x.ptr c fs) := by
  obtain ⟨D, hgrew⟩ := h
  have hkept : x.ptr c fs' = x.ptr c fs := hgrew.kept x hx fun hD => hne (hgrew.fresh x hD).1
  apply hgrew.content
  · intro y hy heq
    rw [heq, (hgrew.fresh y hy).2.2] at hused
    cases hused
  · intro y hy k p hpath heq
    have hnode := hgrew.owned.inj x _ hx ((hgrew.held y hy).parent hpath) (hkept.trans_ne hne)
      (hkept.trans heq)
    rw [hnode] at hleaf
    exact (hgrew.held y hy).parent_not_leaf hpath hleaf

/-- The counts of an inode are no part of its pointers. -/
theorem grow_ptr (x : Node) : x.ptr c (grow c fs i) = x.ptr c fs := by
  obtain ⟨j, s, path⟩ := x
  show ptr c (grow c fs i) j s path = ptr c fs j s path
  induction path with
  | nil =>
    rw [ptr_nil, ptr_nil, grow]
    by_cases hj : j = i
    · subst hj
      rw [set_inode_self]
      rfl
    · rw [set_inode_of_ne hj]
  | cons k path ih =>
    have hblock : (grow c fs i).block = fs.block := rfl
    simp only [ptr, ih, indirect, hblock]

/-- One more block. -/
theorem Extent.grown {bs : List Nat} (h : Extent c live i bs fs) (hsize : Ext2_size c)
    (hpool : Pool c fs) (hreached : Reached c live i fs (bs.length + 1) 0 fs')
    (hat : block_at c fs' i bs.length = b) : Extent c live i (bs ++ [b]) (grow c fs' i) := by
  have howned := hreached.prepared.owned
  have hfilled := hreached.prepared.full.filled
  have hlevels := h.lt_levels hsize hpool
  have hbytes := hfilled.mapped hsize howned hreached.prepared.pool h.held le_rfl hlevels
  have hgrown := hreached.grown
  have hinode : Inode_kept fs fs' i := by
    obtain ⟨D, hgrew⟩ := hgrown
    exact hgrew.rest
  have hcount : (bs ++ [b]).length = bs.length + 1 := by simp
  constructor
  · constructor
    · intro x y hx hy
      rw [grow_ptr, grow_ptr]
      exact howned.inj x y hx hy
    · intro x hx
      rw [grow_ptr]
      exact howned.block x hx
    · intro x hx
      rw [grow_ptr]
      exact howned.used x hx
  · exact h.held
  · intro s path hleaf
    have hsame : ptr c (grow c fs' i) i s path = ptr c fs' i s path := grow_ptr ⟨i, s, path⟩
    rw [hsame, hcount]
    exact hfilled s path hleaf
  · rw [hcount, List.range_succ, List.map_append, List.map_singleton]
    have hlast : block_at c (grow c fs' i) i bs.length = b := (grow_ptr ⟨i, _, _⟩).trans hat
    rw [hlast]
    congr 1
    refine h.attached.trans (List.map_congr_left ?_)
    intro n hn
    have hn := List.mem_range.mp hn
    have hset := (h.filled.block_at hsize.pointers (hn.trans hlevels)).mpr hn
    have hkept := Grown.block_at hsize.pointers hgrown h.held (hn.trans hlevels) hset
    exact hkept.symm.trans (grow_ptr ⟨i, _, _⟩).symm
  · have hsum : ((bs.length * c.BLOCK_SIZE : Nat) : Int) + c.BLOCK_SIZE =
        ((bs.length + 1) * c.BLOCK_SIZE : Nat) := by
      push_cast
      ring
    rw [grow, set_inode_self, hinode.size, h.size, hcount, int32_add, hsum]
  · have hhalf : (bs.length + 1) * (c.BLOCK_SIZE / 512) ≤ (bs.length + 1) * c.BLOCK_SIZE :=
      Nat.mul_le_mul_left _ (Nat.div_le_self _ _)
    have hsum : (bs.length + 1) * (c.BLOCK_SIZE / 512) =
        bs.length * (c.BLOCK_SIZE / 512) + c.BLOCK_SIZE / 512 := Nat.succ_mul ..
    rw [grow, set_inode_self, hinode.blocks, h.blocks, hcount, hsum]
    exact Nat.mod_eq_of_lt (by omega)

/-- What the blocks of the directory hold stays when it grows. -/
theorem Directory.chain_grown (h : Directory c live i ds fs) (hsize : Ext2_size c)
    (hpool : Pool c fs) (hgrown : Grown c live i fs fs') (hd : d ∈ ds) :
    Chain (flat c (grow c fs' i)) (block_start c d.1 + c.BLOCK_SIZE) (block_start c d.1) d.2 := by
  have hmem : d.1 ∈ ds.map Prod.fst := List.mem_map_of_mem hd
  obtain ⟨s, path, hleaf, hptr⟩ := h.linked.extent.node hsize hpool hmem
  have hx : Held c live ⟨i, s, path⟩ := ⟨h.held, hleaf.valid⟩
  have hset : ptr c fs i s path ≠ 0 := hptr.trans_ne (h.linked.extent.block_ne hsize hpool hmem)
  have hkept : fs'.block (ptr c fs i s path) = fs.block (ptr c fs i s path) :=
    hgrown.data_kept hx hleaf hset (h.owned.used _ hx hset)
  rw [hptr] at hkept
  refine (h.chain d hd).congr (h.sound d hd) ?_
  rw [h.linked.start hsize hpool hd]
  exact (flat_agree hkept).symm

theorem attach_entry_put {bs : List Nat} (h : Extent c live i bs w.file) (hsize : Ext2_size c)
    (hpool : Pool c w.file)
    (hput : attach_blocks c (flat c w.file) new bs = .ok (some m)) :
    attach_entry c i new (calls + 1) w = .ok (true, { w with file := set_flat c w.file m }) := by
  obtain ⟨data_address, haddress, hlist⟩ := h.addresses hsize hpool (Or.inr rfl)
  rw [attach_entry]
  simp only [haddress, hlist, hput]

/-- Without room in its blocks the directory gets one more, and all is tried again. -/
theorem attach_entry_grow {bs : List Nat} {r : Nat} (h : Extent c live i bs w.file)
    (hsize : Ext2_size c) (hpool : Pool c w.file)
    (hnone : attach_blocks c (flat c w.file) new bs = .ok none)
    (hattach : Attach_Blocks c i 1 w = .ok (r, w')) (herr : w'.errno ≠ some .ENOSPC)
    {w₁ : Worker_state}
    (hagain : attach_entry c i new calls { w' with file := grow c w'.file i } = .ok (true, w₁)) :
    attach_entry c i new (calls + 1) w = .ok (true, w₁) := by
  obtain ⟨data_address, haddress, hlist⟩ := h.addresses hsize hpool (Or.inr rfl)
  rw [attach_entry]
  simp only [haddress, hlist, hnone, hattach, if_neg herr, hagain]

/-- The free block that the directory gets next is there with the indirect blocks for it, which
are clean, and can be walked to an entry with room. -/
def Attachable (c : Superblock_constants) (new : entry_t)
    (ds : List (Nat × List entry_t)) (fs : Image) : Prop :=
  ∃ b before e after, IsBlock c b ∧ used c fs b = false ∧
    (free_below c fs b).card = heads c ds.length ∧
    (∀ d ∈ free_below c fs b, ∀ j < c.BLOCK_SIZE, fs.block d j = 0) ∧
    Vacant (flat c fs) (block_start c b + c.BLOCK_SIZE) (block_start c b) new before e after

/-- `attach_entry` ends with a directory of one more block that lists the new entry too. -/
def Extended (c : Superblock_constants) (live : Nat → Prop) (i : Nat) (new : entry_t)
    (ds : List (Nat × List entry_t)) (w : Worker_state) : Prop :=
  ∃ w' ds', attach_entry c i new (w.file.TOTAL_UNALLOCATED_BLOCKS + 1) w = .ok (true, w') ∧
    Linked c live i ds' w'.file ∧ ds'.length = ds.length + 1 ∧
    contents (listing ds') = contents (listing ds ++ [new])

/-- The next free block is attached as it is. -/
theorem Directory.next_block (h : Directory c live i ds w.file) (hsize : Ext2_size c)
    (hpool : Pool c w.file) (htidy : Tidy c w.file i) (herr : w.errno ≠ some .ENOSPC)
    (hblock : IsBlock c b) (hclear : used c w.file b = false)
    (hbelow : (free_below c w.file b).card = heads c ds.length)
    (hclean : ∀ d ∈ free_below c w.file b, ∀ j < c.BLOCK_SIZE, w.file.block d j = 0) :
    ∃ w', Attach_Blocks c i 1 w = .ok (0, w') ∧ w'.errno = w.errno ∧
      Grown c live i w.file w'.file ∧ Pool c (grow c w'.file i) ∧
      Extent c live i (ds.map Prod.fst ++ [b]) (grow c w'.file i) ∧
      Bytes.Agree (flat c w.file) (flat c (grow c w'.file i)) (block_start c b)
        (block_start c b + c.BLOCK_SIZE) ∧
      w'.file.TOTAL_UNALLOCATED_BLOCKS + (heads c ds.length + 1) =
        w.file.TOTAL_UNALLOCATED_BLOCKS := by
  have hP := hsize.pointers
  have hlinked := h.linked
  have hlevels := hlinked.lt_levels hsize hpool
  have hw : Prepared c live i ds.length 0 w.file := ⟨h.owned, hpool, full_of_tidy hP h.filled htidy⟩
  have hnext : Coming c i ds.length b (w.file.block b) w.file := by
    refine ⟨hblock, hclear, rfl, ?_, hclean⟩
    rw [hw.full.missing_eq hP hlevels, way_card, hbelow]
  obtain ⟨w', hattach, herrno, hreached, hat, hcontent⟩ :=
    Attach_Blocks_next hsize hw h.held hnext herr hlevels
  have hextent := hlinked.extent.grown hsize hpool (b := b) (by rwa [List.length_map])
    (by rwa [List.length_map])
  have htotal := hreached.total hP h.held hw hlevels
  simp only [needed, Nat.Ico_succ_singleton, Finset.sum_singleton] at htotal
  refine ⟨w', hattach, herrno, hreached.grown, hreached.prepared.pool.congr rfl rfl rfl, hextent,
    ?_, htotal⟩
  rw [block_start, hpool.slot hblock]
  exact (flat_agree hcontent).symm

/-- The new entry is put in the next free block, which is walked like the others. -/
theorem Directory.extended_put (h : Directory c live i ds w.file) (hsize : Ext2_size c)
    (hpool : Pool c w.file) (htidy : Tidy c w.file i) (herr : w.errno ≠ some .ENOSPC)
    (hfull : ∀ d ∈ ds, ∀ e ∈ d.2, ¬ has_room new e) (hok : Attachable c new ds w.file) :
    ∃ (w' : Worker_state) (b : Nat) (before : List entry_t) (e : entry_t) (after : List entry_t),
      Linked c live i (ds ++ [(b, before ++ e :: after)]) (grow c w'.file i) ∧
      Pool c (grow c w'.file i) ∧ (∀ d ∈ ds, Chain (flat c (grow c w'.file i))
        (block_start c d.1 + c.BLOCK_SIZE) (block_start c d.1) d.2) ∧
      Vacant (flat c (grow c w'.file i)) (block_start c b + c.BLOCK_SIZE) (block_start c b) new
        before e after ∧ before.length ≤ c.BLOCK_SIZE ∧
      attach_entry c i new (w.file.TOTAL_UNALLOCATED_BLOCKS + 1) w =
        .ok (true, ⟨set_flat c (grow c w'.file i)
          (put_entry (flat c (grow c w'.file i)) (block_start c b + total before) new), w'.errno⟩) ∧
      w'.file.TOTAL_UNALLOCATED_BLOCKS + (heads c ds.length + 1) =
        w.file.TOTAL_UNALLOCATED_BLOCKS := by
  obtain ⟨b, before, e, after, hblock, hclear, hbelow, hclean, hvacant⟩ := hok
  have hlinked := h.linked
  obtain ⟨w', hattach, herrno, hgrown, hpool', hextent, hagree, htotal⟩ :=
    h.next_block hsize hpool htidy herr hblock hclear hbelow hclean
  obtain ⟨before, e, after, hvacant⟩ := hvacant.congr hagree
  have hpositive : ∀ x ∈ before ++ e :: after, 0 < x.entry_len := fun x hx => by
    have := hvacant.header x hx
    omega
  have hold : ∀ d ∈ ds, Chain (flat c (grow c w'.file i)) (block_start c d.1 + c.BLOCK_SIZE)
      (block_start c d.1) d.2 := fun d hd => h.chain_grown hsize hpool hgrown hd
  have hlinked' : Linked c live i (ds ++ [(b, before ++ e :: after)]) (grow c w'.file i) := by
    refine ⟨by rwa [List.map_append], ?_, ?_⟩
    · intro d hd
      rcases List.mem_append.mp hd with hd | hd
      · exact hold d hd
      · obtain rfl := List.mem_singleton.mp hd
        exact hvacant.chain
    · intro d hd
      rcases List.mem_append.mp hd with hd | hd
      · exact hlinked.positive d hd
      · obtain rfl := List.mem_singleton.mp hd
        exact hpositive
  have hshort : (before ++ e :: after).length ≤ c.BLOCK_SIZE :=
    entries_short hlinked'.chain hlinked'.positive (d := (b, before ++ e :: after)) (by simp)
  rw [List.length_append, List.length_cons] at hshort
  have hscan := hvacant.scan (show before.length < c.BLOCK_SIZE + 1 by omega)
  have hput : attach_blocks c (flat c (grow c w'.file i)) new
      ((ds ++ [(b, before ++ e :: after)]).map Prod.fst) = .ok (some
        (put_entry (flat c (grow c w'.file i)) (block_start c b + total before) new)) := by
    rw [List.map_append, attach_blocks_ahead hold hlinked.positive hfull, List.map_singleton,
      attach_blocks, hscan]
  have hnone : attach_blocks c (flat c w.file) new (ds.map Prod.fst) = .ok none := by
    have hahead := attach_blocks_ahead (l := []) h.chain hlinked.positive hfull
    rwa [List.append_nil] at hahead
  obtain ⟨calls, hcalls⟩ : ∃ k, w.file.TOTAL_UNALLOCATED_BLOCKS = k + 1 :=
    ⟨w.file.TOTAL_UNALLOCATED_BLOCKS - 1, by omega⟩
  refine ⟨w', b, before, e, after, hlinked', hpool', hold, hvacant, by omega, ?_, htotal⟩
  rw [hcalls]
  refine attach_entry_grow hlinked.extent hsize hpool hnone hattach (herrno.trans_ne herr) ?_
  exact attach_entry_put (w := { w' with file := grow c w'.file i }) hlinked'.extent hsize hpool' hput

theorem Directory.extended (h : Directory c live i ds w.file) (hsize : Ext2_size c)
    (hpool : Pool c w.file) (htidy : Tidy c w.file i) (herr : w.errno ≠ some .ENOSPC)
    (hnew : new.Fits) (hlen : new.entry_len = 8 + new.name_len) (hinode : new.inode_number ≠ 0)
    (hfull : ∀ d ∈ ds, ∀ e ∈ d.2, ¬ has_room new e) (hok : Attachable c new ds w.file) :
    Extended c live i new ds w := by
  obtain ⟨w', b, before, e, after, hlinked', hpool', hchain, hvacant, hshort, hrun, -⟩ :=
    h.extended_put hsize hpool htidy herr hfull hok
  obtain ⟨m', es', hscan, hchain', hes, hcontents, hout⟩ :=
    hvacant.attached hnew hlen hinode (Nat.lt_succ_of_le hshort)
  have hscan' := hvacant.scan (Nat.lt_succ_of_le hshort)
  obtain rfl := Option.some.inj (Except.ok.inj (hscan'.symm.trans hscan))
  have hold : ∀ d ∈ ds, d ∈ ds ++ [(b, before ++ e :: after)] := fun d hd => by simp [hd]
  have hmem : (b, before ++ e :: after) ∈ ds ++ [(b, before ++ e :: after)] := by simp
  have hnodup := hlinked'.nodup hsize hpool'
  have hstart : block_start c b = b * c.BLOCK_SIZE := hlinked'.start hsize hpool' hmem
  refine ⟨_, ds ++ [(b, es')], hrun, ?_, by simp, ?_⟩
  · refine hlinked'.set hsize hpool' ?_ (by simp) ?_ ?_
    · intro d hd
      apply set_flat_block hout
      rintro rfl
      apply hd
      rw [hpool'.slot (hlinked'.isBlock hsize hpool' hmem)]
      simp
    · intro d hd
      rcases List.mem_append.mp hd with hd | hd
      · have hstart' := hlinked'.start hsize hpool' (hold d hd)
        have hne : b ≠ d.1 := by
          intro heq
          rw [List.map_append, List.map_singleton, List.nodup_append'] at hnodup
          exact hnodup.2.2 (List.mem_map_of_mem hd) (List.mem_singleton.mpr heq.symm)
        have hapart := blocks_apart (c := c) hne
        refine (hchain d hd).congr (h.sound d hd) ?_
        intro q hlo hhi
        refine (hout q ?_).symm
        omega
      · obtain rfl := List.mem_singleton.mp hd
        exact hchain'
    · intro d hd
      rcases List.mem_append.mp hd with hd | hd
      · exact h.linked.positive d hd
      · obtain rfl := List.mem_singleton.mp hd
        exact hes
  · have hlast : listing [(b, es')] = es'.filter fun x => x.inode_number ≠ 0 := by
      rw [listing_cons]
      exact List.append_nil _
    rw [listing_append, contents_append, contents_append, hlast, hcontents]

end Blocks

end LaLiga.Rfs
