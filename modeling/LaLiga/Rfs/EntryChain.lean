import LaLiga.Rfs.Directory

/-! The entries of a directory block as a list, and what the scans do to it. -/
namespace LaLiga.Rfs

open LaLiga.Lib

variable {m m' : Bytes} {p q last turns : Nat} {e new : entry_t} {es es' : List entry_t}
  {file_name : List UInt8}

/-- The fields have the widths that they have in the entry. -/
structure entry_t.Fits (e : entry_t) : Prop where
  inode_number : e.inode_number < 2 ^ 32
  entry_len : e.entry_len < 2 ^ 16
  name_len : e.name_len < 2 ^ 8
  file_type : e.file_type < 2 ^ 8
  file_name : e.file_name.length = e.name_len

/-- An entry in use, with a name, that has the room it needs. -/
structure entry_t.Live (e : entry_t) : Prop where
  inode : e.inode_number ≠ 0
  name : 0 < e.name_len
  aligned : e.entry_len % 4 = 0
  room : get_padded_size e ≤ e.entry_len

/-- An entry, in use or not, that has the room it needs. -/
structure entry_t.Sound (e : entry_t) : Prop where
  aligned : e.entry_len % 4 = 0
  room : get_padded_size e ≤ e.entry_len

theorem entry_t.Live.sound (h : e.Live) : e.Sound := ⟨h.aligned, h.room⟩

theorem entry_at_fits : (entry_at m p).Fits where
  inode_number := Bytes.number_lt
  entry_len := Bytes.number_lt
  name_len := Bytes.number_lt
  file_type := Bytes.number_lt
  file_name := Bytes.read_length

theorem le_padded (e : entry_t) : 8 + e.name_len ≤ get_padded_size e := by
  unfold get_padded_size
  simp only
  split_ifs <;> omega

theorem padded_mod (e : entry_t) : get_padded_size e % 4 = 0 := by
  unfold get_padded_size
  simp only
  split_ifs <;> omega

theorem padded_le (e : entry_t) : get_padded_size e ≤ 8 + e.name_len + 3 := by
  unfold get_padded_size
  simp only
  split_ifs <;> omega

theorem entry_t.Live.twelve (h : e.Live) : 12 ≤ get_padded_size e := by
  have := le_padded e
  have := padded_mod e
  have := h.name
  omega

theorem entry_t.Sound.eight (h : e.Sound) : 8 ≤ e.entry_len := by
  have := le_padded e
  have := h.room
  omega

theorem entry_t.Sound.positive (h : e.Sound) : 0 < e.entry_len := by
  have := h.eight
  omega

/-- An entry is read from its own bytes. -/
theorem entry_at_congr (h : Bytes.Agree m m' p (p + 8 + (entry_at m p).name_len)) :
    entry_at m p = entry_at m' p := by
  have hname : m.number (p + 6) 1 = m'.number (p + 6) 1 :=
    (h.mono (by omega) (by omega)).number
  have hread : m.read (p + 8) (m.number (p + 6) 1) = m'.read (p + 8) (m.number (p + 6) 1) :=
    (h.mono (by omega) le_rfl).read
  unfold entry_at
  rw [(h.mono le_rfl (by omega) : Bytes.Agree m m' p (p + 4)).number,
    (h.mono (by omega) (by omega) : Bytes.Agree m m' (p + 4) (p + 4 + 2)).number,
    (h.mono (by omega) (by omega) : Bytes.Agree m m' (p + 7) (p + 7 + 1)).number, hread, hname]

/-- What is copied is read back. -/
theorem entry_at_copy (h : e.Fits) : entry_at (copy_entry m p e) p = e := by
  have htake : e.file_name.take e.name_len = e.file_name :=
    List.take_of_length_le h.file_name.le
  have hlen : (e.file_name.take e.name_len).length = e.name_len := by rw [htake, h.file_name]
  unfold copy_entry
  generalize hbytes : e.file_name.take e.name_len = name at hlen
  rw [Bytes.write_append, Bytes.write_append, Bytes.write_append, Bytes.write_append]
  simp only [le_length]
  have hafter : ∀ m : Bytes, ∀ a b k : Nat, ∀ l : List UInt8, a + k ≤ b →
      (m.write b l).number a k = m.number a k := fun m a b k l hab =>
    Bytes.Agree.number (Bytes.write_before hab)
  have hnumber : (((((m.write p (le 4 e.inode_number)).write (p + 4) (le 2 e.entry_len)).write
      (p + 4 + 2) (le 1 e.name_len)).write (p + 4 + 2 + 1) (le 1 e.file_type)).write
      (p + 4 + 2 + 1 + 1) name).number (p + 6) 1 = e.name_len := by
    rw [hafter _ _ _ _ _ (by omega), hafter _ _ _ _ _ (by omega)]
    exact Bytes.number_write h.name_len
  unfold entry_at
  rw [hnumber]
  congr 1
  · rw [hafter _ _ _ _ _ (by omega), hafter _ _ _ _ _ (by omega), hafter _ _ _ _ _ (by omega),
      hafter _ _ _ _ _ (by omega)]
    exact Bytes.number_write h.inode_number
  · rw [hafter _ _ _ _ _ (by omega), hafter _ _ _ _ _ (by omega), hafter _ _ _ _ _ (by omega)]
    exact Bytes.number_write h.entry_len
  · rw [hafter _ _ _ _ _ (by omega)]
    exact Bytes.number_write h.file_type
  · rw [← hlen, ← htake, hbytes]
    exact Bytes.read_write

theorem copy_before (h : q ≤ p) (r : Nat) : Bytes.Agree (copy_entry m p e) m r q :=
  Bytes.write_before h

theorem copy_after (hfits : e.Fits) (h : p + 8 + e.name_len ≤ q) (r : Nat) :
    Bytes.Agree (copy_entry m p e) m q r := by
  apply Bytes.write_after
  have := hfits.file_name
  simp only [List.length_append, le_length, List.length_take]
  omega

/-- `entry_len` is set alone. -/
theorem entry_at_set_len {n : Nat} (hn : n < 2 ^ 16) :
    entry_at (set_entry_len m p n) p = { entry_at m p with entry_len := n } := by
  have hlen : (le 2 n).length = 2 := le_length
  have hafter : ∀ a k, p + 6 ≤ a → (set_entry_len m p n).number a k = m.number a k := by
    intro a k ha
    exact Bytes.Agree.number (Bytes.write_after (by omega))
  unfold entry_at
  rw [hafter _ _ le_rfl, hafter (p + 7) 1 (by omega)]
  congr 1
  · exact Bytes.Agree.number (Bytes.write_before (by omega))
  · exact Bytes.number_write hn
  · exact Bytes.Agree.read (Bytes.write_after (by omega))

theorem set_len_before {n : Nat} (h : q ≤ p) (r : Nat) :
    Bytes.Agree (set_entry_len m p n) m r q := Bytes.write_before (by omega)

theorem set_len_after {n : Nat} (h : p + 8 ≤ q) (r : Nat) :
    Bytes.Agree (set_entry_len m p n) m q r := by
  have hlen : (le 2 n).length = 2 := le_length
  exact Bytes.write_after (by omega)

/-- The entries from `p` to `last`, each one behind the one before. -/
def Chain (m : Bytes) (last : Nat) : Nat → List entry_t → Prop
  | p, [] => p = last
  | p, e :: es => entry_at m p = e ∧ Chain m last (p + e.entry_len) es

def total (es : List entry_t) : Nat := (es.map entry_t.entry_len).sum

@[simp]
theorem total_nil : total [] = 0 := rfl

@[simp]
theorem total_cons : total (e :: es) = e.entry_len + total es := by simp [total]

theorem Chain.ends (h : Chain m last p es) : p + total es = last := by
  induction es generalizing p with
  | nil => exact h
  | cons e es ih =>
    have := ih h.2
    rw [total_cons]
    omega

theorem Chain.fits (h : Chain m last p es) : ∀ e ∈ es, e.Fits := by
  induction es generalizing p with
  | nil => simp
  | cons e es ih =>
    intro e' he'
    rcases List.mem_cons.mp he' with rfl | he'
    · rw [← h.1]
      exact entry_at_fits
    · exact ih h.2 e' he'

theorem Chain.congr (h : Chain m last p es) (hsound : ∀ e ∈ es, e.Sound)
    (hm : Bytes.Agree m m' p last) : Chain m' last p es := by
  induction es generalizing p with
  | nil => exact h
  | cons e es ih =>
    have hlast := h.ends
    rw [total_cons] at hlast
    have hroom := (hsound e (by simp)).room
    have hname := le_padded e
    refine ⟨?_, ?_⟩
    · rw [← h.1]
      refine (entry_at_congr (hm.mono le_rfl ?_)).symm
      rw [h.1]
      omega
    · exact ih h.2 (fun e' he' => hsound e' (by simp [he'])) (hm.mono (by omega) le_rfl)

theorem length_le_total (hpositive : ∀ e ∈ es, 0 < e.entry_len) : es.length ≤ total es := by
  induction es with
  | nil => simp
  | cons e es ih =>
    have := ih fun e' he' => hpositive e' (by simp [he'])
    have := hpositive e (by simp)
    rw [total_cons, List.length_cons]
    omega

/-- Reading a block lists its entries that are in use. -/
theorem directory_entries_used (h : Chain m last p es) (hpositive : ∀ e ∈ es, 0 < e.entry_len)
    (hturns : es.length < turns) :
    directory_entries m last turns p = .ok (es.filter fun e => e.inode_number ≠ 0) := by
  induction es generalizing p turns with
  | nil =>
    obtain ⟨n, rfl⟩ : ∃ n, turns = n + 1 := ⟨turns - 1, by simp at hturns; omega⟩
    have hp : p = last := h
    rw [directory_entries, if_neg (by omega)]
    rfl
  | cons e es ih =>
    obtain ⟨n, rfl⟩ : ∃ n, turns = n + 1 := ⟨turns - 1, by simp at hturns; omega⟩
    have he := hpositive e (by simp)
    have hlast := h.ends
    rw [total_cons] at hlast
    rw [directory_entries, if_pos (by omega), h.1,
      ih h.2 (fun e' he' => hpositive e' (by simp [he'])) (by simpa using hturns)]
    by_cases hinode : e.inode_number = 0 <;> simp [hinode]

theorem directory_entries_chain (h : Chain m last p es) (hlive : ∀ e ∈ es, e.Live)
    (hturns : es.length < turns) : directory_entries m last turns p = .ok es := by
  rw [directory_entries_used h (fun e he => (hlive e he).sound.positive) hturns]
  congr 1
  apply List.filter_eq_self.mpr
  intro e he
  simpa using (hlive e he).inode

/-- `attach_entry` on the entries of a block. -/
def attach_list (new_entry : entry_t) : List entry_t → Option (List entry_t)
  | [] => none
  | e :: es =>
    if e.entry_len - get_padded_size e > new_entry.entry_len then
      some ({ e with entry_len := get_padded_size e } ::
        { new_entry with entry_len := e.entry_len - get_padded_size e } :: es)
    else (attach_list new_entry es).map (e :: ·)

/-- `delete_entry` on the entries of a block behind the one that is first. -/
def delete_list (file_name : List UInt8) : entry_t → List entry_t → Option (List entry_t)
  | _, [] => none
  | previous, e :: es =>
    if e.named file_name then
      match es with
      | [] => some [{ previous with entry_len := previous.entry_len + e.entry_len }]
      | next :: es =>
        some (previous :: { next with entry_len := next.entry_len + e.entry_len } :: es)
    else (delete_list file_name e es).map (previous :: ·)

/-- Memory changed between `p` and `last` only. -/
def Outside (m m' : Bytes) (p last : Nat) : Prop := ∀ q, q < p ∨ last ≤ q → m' q = m q

theorem Outside.before (h : Outside m m' p last) (hq : q ≤ p) (r : Nat) : Bytes.Agree m m' r q :=
  fun s _ hs => (h s (Or.inl (by omega))).symm

theorem Outside.mono {p' : Nat} (h : Outside m m' p' last) (hp : p ≤ p') :
    Outside m m' p last := fun q hq => h q (by omega)

theorem outside_of_agree (hbefore : ∀ r, Bytes.Agree m' m r p)
    (hafter : ∀ r, Bytes.Agree m' m last r) : Outside m m' p last := by
  rintro q (hq | hq)
  · exact hbefore q q le_rfl hq
  · exact hafter (q + 1) q hq (Nat.lt_succ_self q)

/-- An entry in front of a chain that is not touched. -/
theorem Chain.cons_outside (hp : entry_at m p = e) (hsound : e.Sound)
    (hm : Outside m m' (p + e.entry_len) last) (h : Chain m' last (p + e.entry_len) es) :
    Chain m' last p (e :: es) := by
  have hroom := hsound.room
  have hname := le_padded e
  refine ⟨?_, h⟩
  rw [← hp]
  refine (entry_at_congr (hm.before ?_ p)).symm
  rw [hp]
  omega

/-- The new entry takes the room behind an entry. -/
theorem split_chain (h : Chain m last p (e :: es)) (hlive : ∀ x ∈ e :: es, x.Live)
    (hnew : new.Fits) (hlen : 8 + new.name_len ≤ e.entry_len - get_padded_size e) :
    Chain (copy_entry (set_entry_len m p (get_padded_size e)) (p + get_padded_size e)
        { new with entry_len := e.entry_len - get_padded_size e }) last p
      ({ e with entry_len := get_padded_size e } ::
        { new with entry_len := e.entry_len - get_padded_size e } :: es) ∧
    Outside m (copy_entry (set_entry_len m p (get_padded_size e)) (p + get_padded_size e)
        { new with entry_len := e.entry_len - get_padded_size e }) p last := by
  have he := hlive e (by simp)
  have hsize := (h.fits e (by simp)).entry_len
  have hname := le_padded e
  have hends := h.ends
  rw [total_cons] at hends
  have hfits : ({ new with entry_len := e.entry_len - get_padded_size e } : entry_t).Fits :=
    { hnew with entry_len := by simp only; omega }
  generalize hm₁ : set_entry_len m p (get_padded_size e) = m₁
  have hset : entry_at m₁ p = { e with entry_len := get_padded_size e } := by
    rw [← hm₁, entry_at_set_len (by omega), h.1]
  have hafter : ∀ r, Bytes.Agree m₁ m (p + e.entry_len) r := by
    intro r
    rw [← hm₁]
    exact set_len_after (by omega) r
  have hbefore : ∀ r, Bytes.Agree m₁ m r p := by
    intro r
    rw [← hm₁]
    exact set_len_before le_rfl r
  refine ⟨⟨?_, ?_, ?_⟩, ?_⟩
  · rw [← hset]
    refine (entry_at_congr (Bytes.Agree.symm (copy_before ?_ p))).symm
    rw [hset]
    simp only
    omega
  · exact entry_at_copy hfits
  · have hstart : p + get_padded_size e + (e.entry_len - get_padded_size e) = p + e.entry_len := by
      omega
    simp only [hstart]
    refine h.2.congr (fun x hx => (hlive x (by simp [hx])).sound) ?_
    exact (((copy_after hfits (by simp only; omega) last).trans (hafter last)).symm)
  · apply outside_of_agree
    · intro r
      exact (copy_before (by omega) r).trans (hbefore r)
    · intro r
      exact (copy_after hfits (by simp only; omega) r).trans
        ((hafter r).mono (by omega) le_rfl)

/-- What `attach_scan` does to the entries of a block. -/
theorem attach_scan_chain (h : Chain m last p es) (hlive : ∀ x ∈ es, x.Live) (hnew : new.Fits)
    (hlen : new.entry_len = 8 + new.name_len) (hturns : es.length < turns) :
    match attach_list new es with
    | none => attach_scan m last new turns p = .ok none
    | some es' => ∃ m', attach_scan m last new turns p = .ok (some m') ∧
        Chain m' last p es' ∧ Outside m m' p last := by
  induction es generalizing p turns with
  | nil =>
    obtain ⟨n, rfl⟩ : ∃ n, turns = n + 1 := ⟨turns - 1, by simp at hturns; omega⟩
    have hp : p = last := h
    simp only [attach_list, attach_scan]
    rw [if_neg (by omega)]
  | cons e es ih =>
    obtain ⟨n, rfl⟩ : ∃ n, turns = n + 1 := ⟨turns - 1, by simp at hturns; omega⟩
    have he := hlive e (by simp)
    have htwelve := he.twelve
    have hroom := he.room
    have hends := h.ends
    rw [total_cons] at hends
    by_cases hfree : e.entry_len - get_padded_size e > new.entry_len
    · -- The entry has room for the new one.
      obtain ⟨hchain, hout⟩ := split_chain h hlive hnew (by omega)
      simp only [attach_list, if_pos hfree]
      refine ⟨_, ?_, hchain, hout⟩
      rw [attach_scan, if_pos (by omega), h.1]
      simp only
      rw [if_pos ⟨by omega, hfree⟩, if_pos (by omega)]
    · have hskip : attach_scan m last new (n + 1) p =
          attach_scan m last new n (p + e.entry_len) := by
        rw [attach_scan, if_pos (by omega), h.1]
        simp only
        rw [if_neg fun hboth => hfree hboth.2]
      have hrest := ih h.2 (fun x hx => hlive x (by simp [hx]))
        (by simpa using hturns : es.length < n)
      rw [hskip]
      simp only [attach_list, if_neg hfree]
      cases hl : attach_list new es with
      | none =>
        rw [hl] at hrest
        exact hrest
      | some es' =>
        rw [hl] at hrest
        obtain ⟨m', hscan, hchain, hout⟩ := hrest
        exact ⟨m', hscan, hchain.cons_outside h.1 he.sound hout, hout.mono (by omega)⟩

/-- An entry takes the room of the one before it. -/
theorem merge_chain {next : entry_t} (h : Chain m last p (e :: next :: es))
    (hsound : ∀ x ∈ e :: next :: es, x.Sound) (hlen : next.entry_len + e.entry_len < 2 ^ 16) :
    Chain (merge_next m p) last p
      ({ next with entry_len := next.entry_len + e.entry_len } :: es) ∧
    Outside m (merge_next m p) p last := by
  have hends := h.ends
  rw [total_cons, total_cons] at hends
  have hroom := (hsound next (by simp)).room
  have hname := le_padded next
  have he := (hsound e (by simp)).eight
  have heroom := (hsound e (by simp)).room
  have hfits : ({ next with entry_len := next.entry_len + e.entry_len } : entry_t).Fits :=
    { h.fits next (by simp) with entry_len := hlen }
  simp only [merge_next, h.1, h.2.1]
  generalize hm₁ : set_entry_len m (p + e.entry_len) (next.entry_len + e.entry_len) = m₁
  have hset : entry_at m₁ (p + e.entry_len) =
      { next with entry_len := next.entry_len + e.entry_len } := by
    rw [← hm₁, entry_at_set_len hlen, h.2.1]
  have hafter : ∀ q r, p + e.entry_len + 8 ≤ q → Bytes.Agree m₁ m q r := by
    intro q r hq
    rw [← hm₁]
    exact set_len_after hq r
  rw [hset]
  refine ⟨⟨entry_at_copy hfits, ?_⟩, ?_⟩
  · have hstart : p + (next.entry_len + e.entry_len) = p + e.entry_len + next.entry_len := by
      omega
    simp only [hstart]
    refine h.2.2.congr (fun x hx => hsound x (by simp [hx])) ?_
    exact ((copy_after hfits (by simp only; omega) last).trans
      (hafter _ last (by omega))).symm
  · apply outside_of_agree
    · intro r
      refine (copy_before le_rfl r).trans ?_
      rw [← hm₁]
      exact set_len_before (by omega) r
    · intro r
      exact (copy_after hfits (by simp only; omega) r).trans (hafter _ r (by omega))

/-- The last entry leaves its room to the one before it. -/
theorem shrink_chain {previous : entry_t} (h : Chain m last p [previous, e])
    (hsound : ∀ x ∈ [previous, e], x.Sound) (hlen : previous.entry_len + e.entry_len < 2 ^ 16) :
    Chain (set_entry_len m p (previous.entry_len + e.entry_len)) last p
      [{ previous with entry_len := previous.entry_len + e.entry_len }] ∧
    Outside m (set_entry_len m p (previous.entry_len + e.entry_len)) p last := by
  have hends := h.ends
  rw [total_cons, total_cons, total_nil] at hends
  have height := (hsound previous (by simp)).eight
  have hroom := (hsound previous (by simp)).room
  refine ⟨⟨?_, ?_⟩, ?_⟩
  · rw [entry_at_set_len hlen, h.1]
  · simp only [Chain]
    omega
  · exact outside_of_agree (set_len_before le_rfl) (fun r => set_len_after (by omega) r)

variable (c : Superblock_constants)

/-- What `delete_scan` does to the entries of a block when the name is there. -/
theorem delete_scan_chain {previous : entry_t} {acum_len : Nat}
    (h : Chain m last p (previous :: es)) (hsound : ∀ x ∈ previous :: es, x.Sound)
    (hlen : total (previous :: es) < 2 ^ 16)
    (hacum : acum_len + total (previous :: es) = c.BLOCK_SIZE)
    (hturns : es.length < turns) (hdel : delete_list file_name previous es = some es') :
    ∃ m', delete_scan c m last file_name turns p acum_len = .ok (some m') ∧
      Chain m' last p es' ∧ Outside m m' p last := by
  induction es generalizing p turns previous acum_len es' with
  | nil => simp [delete_list] at hdel
  | cons e es ih =>
    obtain ⟨n, rfl⟩ : ∃ n, turns = n + 1 := ⟨turns - 1, by simp at hturns; omega⟩
    have hends := h.ends
    have hprevious := hsound previous (by simp)
    have height := hprevious.eight
    have hroom := hprevious.room
    have hsound' : ∀ x ∈ e :: es, x.Sound := fun x hx => hsound x (by simp [hx])
    rw [total_cons, total_cons] at hends hlen hacum
    rw [delete_scan, if_pos (by omega), h.1]
    simp only [h.2.1]
    by_cases hname : e.named file_name
    · rw [if_pos hname]
      cases es with
      | nil =>
        -- The last entry of the block: the one before it grows.
        simp only [delete_list, if_pos hname, Option.some.injEq] at hdel
        subst hdel
        rw [total_nil] at hends hlen hacum
        obtain ⟨hchain, hout⟩ := shrink_chain h hsound (by omega)
        refine ⟨_, ?_, hchain, hout⟩
        rw [if_pos]
        unfold uint32
        omega
      | cons next es =>
        -- The next one is copied over it.
        simp only [delete_list, if_pos hname, Option.some.injEq] at hdel
        subst hdel
        have hnext := (hsound' next (by simp)).eight
        have hnextroom := (hsound' next (by simp)).room
        rw [total_cons] at hends hlen hacum
        obtain ⟨hchain, hout⟩ := merge_chain h.2 hsound' (by omega)
        refine ⟨_, ?_, hchain.cons_outside h.1 hprevious hout, hout.mono (by omega)⟩
        rw [if_neg]
        unfold uint32
        omega
    · rw [if_neg hname]
      simp only [delete_list, if_neg hname, Option.map_eq_some_iff] at hdel
      obtain ⟨es₁, hdel, rfl⟩ := hdel
      have hlen' : total (e :: es) < 2 ^ 16 := by
        rw [total_cons]
        omega
      have hacum' : acum_len + previous.entry_len + total (e :: es) = c.BLOCK_SIZE := by
        rw [total_cons]
        omega
      obtain ⟨m', hscan, hchain, hout⟩ := ih h.2 hsound' hlen' hacum' (by simpa using hturns) hdel
      exact ⟨m', hscan, hchain.cons_outside h.1 hprevious hout, hout.mono (by omega)⟩

end LaLiga.Rfs
