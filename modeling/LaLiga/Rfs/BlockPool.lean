import LaLiga.Lib.Counting
import LaLiga.Lib.Transition
import LaLiga.Rfs.FreeBlocks

/-! Workers allocating and freeing blocks concurrently. A step is one critical section;
`setFreeBlockBitmap` asks for the superblock mutex while it holds the one of the group. -/
namespace LaLiga.Rfs.BlockPool

open LaLiga.Lib

variable {W : Type*} [DecidableEq W] {c : Superblock_constants}

/-- Where a worker is: outside both functions, in the `for` of `Get_Free_Blocks`, or
between the two sections of `setFreeBlockBitmap`. -/
inductive PC
  | idle
  | scanning (requested how_many group_number : Nat) (blocks_to_return : List Nat)
  | crediting (block_number : Nat)

structure State (W : Type*) where
  fs : Image
  wblocks_mutex : Nat → Option W
  pc : W → PC
  owned : W → List Nat

inductive Event (W : Type*)
  | reserve (w : W) (how_many : Nat)
  | refuse (w : W) (how_many : Nat)
  | take (w : W)
  | give (w : W) (blocks : List Nat)
  | clear (w : W) (block_number : Nat)
  | credit (w : W) (block_number : Nat)

inductive Step (c : Superblock_constants) : State W → Event W → State W → Prop
  | reserve {s : State W} {w : W} {n : Nat} {fs' : Image} :
      s.pc w = .idle → 1 ≤ n → Get_Free_Blocks_reserve s.fs n = some fs' →
      Step c s (.reserve w n) { s with
        fs := fs'
        pc := Function.update s.pc w (.scanning n n 0 []) }
  | refuse {s : State W} {w : W} {n : Nat} :
      s.pc w = .idle → 1 ≤ n → Get_Free_Blocks_reserve s.fs n = none →
      Step c s (.refuse w n) s
  | take {s : State W} {w : W} {n k g : Nat} {l : List Nat} :
      s.pc w = .scanning n k g l → g < c.TOTAL_GROUPS → 0 < k → s.wblocks_mutex g = none →
      Step c s (.take w) { s with
        fs := (Get_Free_Blocks_group c s.fs g k).2.2
        pc := Function.update s.pc w (.scanning n (Get_Free_Blocks_group c s.fs g k).2.1 (g + 1)
          (l ++ (Get_Free_Blocks_group c s.fs g k).1)) }
  | give {s : State W} {w : W} {n k g : Nat} {l : List Nat} :
      s.pc w = .scanning n k g l → ¬ (g < c.TOTAL_GROUPS ∧ 0 < k) →
      Step c s (.give w (padded n l)) { s with
        pc := Function.update s.pc w .idle
        owned := Function.update s.owned w (padded n l ++ s.owned w) }
  | clear {s : State W} {w : W} {b : Nat} :
      s.pc w = .idle → b ∈ s.owned w → s.wblocks_mutex (block_group c b) = none →
      Step c s (.clear w b)
        { fs := setFreeBlockBitmap_group c s.fs b
          wblocks_mutex := Function.update s.wblocks_mutex (block_group c b) (some w)
          pc := Function.update s.pc w (.crediting b)
          owned := Function.update s.owned w ((s.owned w).erase b) }
  | credit {s : State W} {w : W} {b : Nat} :
      s.pc w = .crediting b →
      Step c s (.credit w b) { s with
        fs := setFreeBlockBitmap_super s.fs
        wblocks_mutex := Function.update s.wblocks_mutex (block_group c b) none
        pc := Function.update s.pc w .idle }

/-- The group counters and the superblock counter agree with the bitmaps. -/
structure Exact (c : Superblock_constants) (fs : Image) : Prop where
  counts : ∀ g < c.TOTAL_GROUPS, (fs.gdt g).UNALLOCATED_BLOCKS = free_in_group c fs g
  total : fs.TOTAL_UNALLOCATED_BLOCKS =
    ∑ g ∈ Finset.range c.TOTAL_GROUPS, (fs.gdt g).UNALLOCATED_BLOCKS

/-- Nobody is inside; each worker may already own blocks that are marked used. -/
structure Initial (c : Superblock_constants) (s : State W) : Prop where
  idle : ∀ w, s.pc w = .idle
  unlocked : ∀ g, s.wblocks_mutex g = none
  bitmaps : BitmapsInGroup c s.fs
  exact : Exact c s.fs
  owned_used : ∀ w, ∀ b ∈ s.owned w, IsBlock c b ∧ used c s.fs b = true
  owned_nodup : ∀ w, (s.owned w).Nodup
  owned_disjoint : ∀ w w', w ≠ w' → (s.owned w).Disjoint (s.owned w')

def PC.pending : PC → Nat
  | .scanning _ k _ _ => k
  | _ => 0

/-- What the scan still has to find in the groups from `g` on. -/
def PC.pendingFrom (g : Nat) : PC → Nat
  | .scanning _ k h _ => if g ≤ h then k else 0
  | _ => 0

def PC.credit : PC → Nat
  | .crediting _ => 1
  | _ => 0

def PC.collected : PC → List Nat
  | .scanning _ _ _ l => l
  | _ => []

section Measures

variable (n k g h b : Nat) (l : List Nat)

@[simp] theorem PC.pending_idle : PC.idle.pending = 0 := rfl
@[simp] theorem PC.pending_scanning : (PC.scanning n k g l).pending = k := rfl
@[simp] theorem PC.pending_crediting : (PC.crediting b).pending = 0 := rfl
@[simp] theorem PC.pendingFrom_idle : PC.idle.pendingFrom g = 0 := rfl
@[simp] theorem PC.pendingFrom_scanning :
    (PC.scanning n k h l).pendingFrom g = if g ≤ h then k else 0 := rfl
@[simp] theorem PC.pendingFrom_crediting : (PC.crediting b).pendingFrom g = 0 := rfl
@[simp] theorem PC.credit_idle : PC.idle.credit = 0 := rfl
@[simp] theorem PC.credit_scanning : (PC.scanning n k g l).credit = 0 := rfl
@[simp] theorem PC.credit_crediting : (PC.crediting b).credit = 1 := rfl
@[simp] theorem PC.collected_idle : PC.idle.collected = [] := rfl
@[simp] theorem PC.collected_scanning : (PC.scanning n k g l).collected = l := rfl
@[simp] theorem PC.collected_crediting : (PC.crediting b).collected = [] := rfl

end Measures

/-- The blocks in the hands of a worker, returned or about to be. -/
def State.held (s : State W) (w : W) : List Nat := (s.pc w).collected ++ s.owned w

/-- The superblock counter is what the groups hold less what is reserved, and the
groups from any one on hold what the scans that have not passed it still need. -/
structure Inv [Fintype W] (c : Superblock_constants) (s : State W) : Prop where
  bitmaps : BitmapsInGroup c s.fs
  counts : ∀ g < c.TOTAL_GROUPS, (s.fs.gdt g).UNALLOCATED_BLOCKS = free_in_group c s.fs g
  total : ∑ g ∈ Finset.range c.TOTAL_GROUPS, (s.fs.gdt g).UNALLOCATED_BLOCKS =
    s.fs.TOTAL_UNALLOCATED_BLOCKS + ∑ w, (s.pc w).pending + ∑ w, (s.pc w).credit
  suffix : ∀ g, ∑ w, (s.pc w).pendingFrom g ≤
    ∑ h ∈ Finset.Ico g c.TOTAL_GROUPS, (s.fs.gdt h).UNALLOCATED_BLOCKS
  held_used : ∀ w, ∀ b ∈ s.held w, IsBlock c b ∧ used c s.fs b = true
  held_nodup : ∀ w, (s.held w).Nodup
  held_disjoint : ∀ w w', w ≠ w' → (s.held w).Disjoint (s.held w')
  scan : ∀ w n k g l, s.pc w = .scanning n k g l → l.length + k = n ∧ g ≤ c.TOTAL_GROUPS
  holder : ∀ w b, s.pc w = .crediting b →
    IsBlock c b ∧ s.wblocks_mutex (block_group c b) = some w
  locked : ∀ g w, s.wblocks_mutex g = some w →
    ∃ b, s.pc w = .crediting b ∧ block_group c b = g

section Steps

variable [Fintype W] {s : State W} {w : W} {n k g b : Nat} {l : List Nat}

omit [Fintype W] in
theorem held_update_of_ne {fs : Image} {m : Nat → Option W} {p : PC} {o : List Nat} {w' : W}
    (h : w' ≠ w) :
    (State.mk fs m (Function.update s.pc w p) (Function.update s.owned w o)).held w' =
      s.held w' := by
  simp [State.held, h]

omit [DecidableEq W] in
theorem init_inv (h : Initial c s) : Inv c s where
  bitmaps := h.bitmaps
  counts := h.exact.counts
  total := by simp [h.idle, h.exact.total]
  suffix := by simp [h.idle]
  held_used := by simpa [State.held, h.idle] using h.owned_used
  held_nodup := by simpa [State.held, h.idle] using h.owned_nodup
  held_disjoint := by simpa [State.held, h.idle] using h.owned_disjoint
  scan := by simp [h.idle]
  holder := by simp [h.idle]
  locked := by simp [h.unlocked]

omit [DecidableEq W] in
theorem Inv.pending_le (hI : Inv c s) (g : Nat) (w : W) :
    (s.pc w).pendingFrom g ≤
      ∑ h ∈ Finset.Ico g c.TOTAL_GROUPS, (s.fs.gdt h).UNALLOCATED_BLOCKS :=
  (le_sum_term (fun w => (s.pc w).pendingFrom g) w).trans (hI.suffix g)

omit [DecidableEq W] in
/-- No worker stands at the end of the groups with something still to find. -/
theorem Inv.scan_done (hI : Inv c s) (hw : s.pc w = .scanning n k g l)
    (hend : ¬ (g < c.TOTAL_GROUPS ∧ 0 < k)) : k = 0 ∧ l.length = n := by
  obtain ⟨hlen, hg⟩ := hI.scan w n k g l hw
  have hle := hI.pending_le g w
  rw [hw] at hle
  by_cases hk : 0 < k
  · have : g = c.TOTAL_GROUPS := by omega
    subst this
    simp at hle
    omega
  · omega

omit [DecidableEq W] in
theorem Inv.free_sum_lt (hI : Inv c s) :
    ∑ g ∈ Finset.range c.TOTAL_GROUPS, (s.fs.gdt g).UNALLOCATED_BLOCKS < 2 ^ 32 := by
  have hle : ∑ g ∈ Finset.range c.TOTAL_GROUPS, (s.fs.gdt g).UNALLOCATED_BLOCKS ≤
      ∑ _g ∈ Finset.range c.TOTAL_GROUPS, c.BLOCKS_PER_GROUP := by
    apply Finset.sum_le_sum
    intro g hg
    rw [hI.counts g (Finset.mem_range.mp hg)]
    exact free_in_group_le c s.fs g
  rw [Finset.sum_const, Finset.card_range, smul_eq_mul] at hle
  exact Nat.lt_of_le_of_lt hle c.numbers_fit

/-- Moving a worker that is not inside `setFreeBlockBitmap` leaves the locks in order. -/
theorem Inv.locks_frame (hI : Inv c s) {p : PC} (hw : ∀ b, s.pc w ≠ .crediting b)
    (hp : ∀ b, p ≠ .crediting b) :
    (∀ v b, Function.update s.pc w p v = .crediting b →
      IsBlock c b ∧ s.wblocks_mutex (block_group c b) = some v) ∧
    ∀ g v, s.wblocks_mutex g = some v →
      ∃ b, Function.update s.pc w p v = .crediting b ∧ block_group c b = g := by
  constructor
  · intro v b hv
    by_cases hvw : v = w
    · subst hvw
      rw [Function.update_self] at hv
      exact absurd hv (hp b)
    · rw [Function.update_of_ne hvw] at hv
      exact hI.holder v b hv
  · intro g v hv
    obtain ⟨b, hb, hg⟩ := hI.locked g v hv
    have hvw : v ≠ w := by
      rintro rfl
      exact hw b hb
    exact ⟨b, by rw [Function.update_of_ne hvw, hb], hg⟩

theorem Inv.scan_frame (hI : Inv c s) {p : PC} (hp : ∀ n k g l, p ≠ .scanning n k g l) :
    ∀ v n k g l, Function.update s.pc w p v = .scanning n k g l →
      l.length + k = n ∧ g ≤ c.TOTAL_GROUPS := by
  intro v n k g l hv
  by_cases hvw : v = w
  · subst hvw
    rw [Function.update_self] at hv
    exact absurd hv (hp n k g l)
  · rw [Function.update_of_ne hvw] at hv
    exact hI.scan v n k g l hv

theorem inv_reserve (hI : Inv c s) {fs' : Image} (hw : s.pc w = .idle)
    (hfs : Get_Free_Blocks_reserve s.fs n = some fs') :
    Inv c { s with fs := fs', pc := Function.update s.pc w (.scanning n n 0 []) } := by
  unfold Get_Free_Blocks_reserve at hfs
  split_ifs at hfs with hn
  obtain rfl := Option.some.inj hfs
  have hheld : ∀ v, State.held (State.mk
      { s.fs with TOTAL_UNALLOCATED_BLOCKS := s.fs.TOTAL_UNALLOCATED_BLOCKS - n }
      s.wblocks_mutex (Function.update s.pc w (.scanning n n 0 [])) s.owned) v = s.held v := by
    intro v
    by_cases hv : v = w
    · subst hv; simp [State.held, hw]
    · simp [State.held, hv]
  have hpend := sum_update PC.pending s.pc w (.scanning n n 0 [])
  have hcredit := sum_update PC.credit s.pc w (.scanning n n 0 [])
  have htotal := hI.total
  rw [hw] at hpend hcredit
  simp only [PC.pending_idle, PC.pending_scanning, PC.credit_idle, PC.credit_scanning]
    at hpend hcredit
  obtain ⟨hholder, hlocked⟩ := hI.locks_frame (w := w) (p := .scanning n n 0 [])
    (by simp [hw]) (by simp)
  refine ⟨hI.bitmaps, hI.counts, ?_, ?_, ?_, ?_, ?_, ?_, hholder, hlocked⟩
  · simp only
    omega
  · intro g
    have hsuf := hI.suffix g
    have hfrom := sum_update (PC.pendingFrom g) s.pc w (.scanning n n 0 [])
    rw [hw] at hfrom
    simp only [PC.pendingFrom_idle, PC.pendingFrom_scanning] at hfrom
    by_cases hg : g = 0
    · -- the whole request is new, and the reservation found room for it
      subst hg
      have hall : ∀ p : PC, p.pendingFrom 0 = p.pending := by
        intro p
        cases p <;> simp
      simp only [hall] at hfrom ⊢
      rw [Finset.range_eq_Ico] at htotal
      simp only [Nat.le_refl, if_true] at hfrom
      omega
    · rw [if_neg (by omega)] at hfrom
      simp only
      omega
  · intro v
    rw [hheld]
    exact hI.held_used v
  · intro v
    rw [hheld]
    exact hI.held_nodup v
  · intro v v'
    rw [hheld, hheld]
    exact hI.held_disjoint v v'
  · intro v n' k' g' l' hv
    by_cases hvw : v = w
    · subst hvw
      simp only [Function.update_self, PC.scanning.injEq] at hv
      obtain ⟨rfl, rfl, rfl, rfl⟩ := hv
      simp
    · simp only [Function.update_of_ne hvw] at hv
      exact hI.scan v n' k' g' l' hv

/-- A scan at `g` with `k` to find is counted in the suffix at `g`, no longer in the next. -/
theorem pendingFrom_succ_le (hw : s.pc w = .scanning n k g l) :
    ∑ v, (s.pc v).pendingFrom (g + 1) + k ≤ ∑ v, (s.pc v).pendingFrom g := by
  have hk : k = ∑ v, if v = w then k else 0 := by simp
  rw [hk, ← Finset.sum_add_distrib]
  apply Finset.sum_le_sum
  intro v _
  by_cases hv : v = w
  · subst hv
    simp [hw]
  · cases hp : s.pc v with
    | scanning n' k' g' l' =>
      simp only [PC.pendingFrom_scanning, hv, if_false, Nat.add_zero]
      split_ifs <;> omega
    | _ => simp [hv]

theorem inv_take (hI : Inv c s) (hw : s.pc w = .scanning n k g l) (hg : g < c.TOTAL_GROUPS)
    {taken : List Nat} {left : Nat} {fs' : Image} (ht : Taken c s.fs g k taken left fs') :
    Inv c { s with
      fs := fs'
      pc := Function.update s.pc w (.scanning n left (g + 1) (l ++ taken)) } := by
  have hcount := hI.counts g hg
  have hmem : g ∈ Finset.range c.TOTAL_GROUPS := Finset.mem_range.mpr hg
  have hother : ∀ h, h ≠ g →
      (fs'.gdt h).UNALLOCATED_BLOCKS = (s.fs.gdt h).UNALLOCATED_BLOCKS := by
    intro h hne
    rw [ht.others h hne]
  have hself := ht.count
  have hleft := ht.left
  have hpend := sum_update PC.pending s.pc w (.scanning n left (g + 1) (l ++ taken))
  have hcredit := sum_update PC.credit s.pc w (.scanning n left (g + 1) (l ++ taken))
  have htotal := hI.total
  have hlen := hI.scan w n k g l hw
  rw [hw] at hpend hcredit
  simp only [PC.pending_scanning, PC.credit_scanning] at hpend hcredit
  have hheld : ∀ v, v ≠ w → State.held (State.mk fs' s.wblocks_mutex
      (Function.update s.pc w (.scanning n left (g + 1) (l ++ taken))) s.owned) v = s.held v := by
    intro v hv
    simp [State.held, hv]
  have hheldw : (State.held (State.mk fs' s.wblocks_mutex
      (Function.update s.pc w (.scanning n left (g + 1) (l ++ taken))) s.owned) w).Perm
        (taken ++ s.held w) := by
    simp only [State.held, Function.update_self, PC.collected_scanning, hw]
    rw [← List.append_assoc]
    exact List.perm_append_comm.append_right _
  have hfresh : ∀ v, taken.Disjoint (s.held v) := by
    intro v b hb hv
    have := (hI.held_used v b hv).2
    rw [ht.clear b hb] at this
    exact absurd this (by simp)
  obtain ⟨hholder, hlocked⟩ := hI.locks_frame (w := w)
    (p := .scanning n left (g + 1) (l ++ taken)) (by simp [hw]) (by simp)
  refine ⟨ht.bitmapsInGroup hI.bitmaps, ?_, ?_, ?_, ?_, ?_, ?_, ?_, hholder, hlocked⟩
  · intro h hh
    by_cases hhg : h = g
    · subst hhg
      simp only
      rw [hself, ht.free, hcount]
    · simp only
      rw [hother h hhg, ht.free_other hI.bitmaps hg hh hhg]
      exact hI.counts h hh
  · have hsum := sum_change (F := fun h => (s.fs.gdt h).UNALLOCATED_BLOCKS)
      (G := fun h => (fs'.gdt h).UNALLOCATED_BLOCKS) hmem (fun h _ hne => hother h hne)
    simp only [ht.total] at hsum ⊢
    omega
  · intro g'
    have hsuf := hI.suffix g'
    have hfrom := sum_update (PC.pendingFrom g') s.pc w (.scanning n left (g + 1) (l ++ taken))
    rw [hw] at hfrom
    simp only [PC.pendingFrom_scanning] at hfrom ⊢
    by_cases hle : g' ≤ g
    · -- both sides lose what was taken
      have hsum := sum_change (F := fun h => (s.fs.gdt h).UNALLOCATED_BLOCKS)
        (G := fun h => (fs'.gdt h).UNALLOCATED_BLOCKS)
        (Finset.mem_Ico.mpr ⟨hle, hg⟩) (fun h _ hne => hother h hne)
      rw [if_pos hle, if_pos (by omega)] at hfrom
      omega
    · have hsame : ∑ h ∈ Finset.Ico g' c.TOTAL_GROUPS, (fs'.gdt h).UNALLOCATED_BLOCKS =
          ∑ h ∈ Finset.Ico g' c.TOTAL_GROUPS, (s.fs.gdt h).UNALLOCATED_BLOCKS := by
        apply Finset.sum_congr rfl
        intro h hh
        apply hother
        have := Finset.mem_Ico.mp hh
        omega
      rw [hsame]
      rw [if_neg hle] at hfrom
      by_cases hnext : g' = g + 1
      · -- the scan moves into this suffix only when the group left behind is empty
        subst hnext
        have hmove := pendingFrom_succ_le hw
        have hprev := hI.suffix g
        rw [Finset.sum_eq_sum_Ico_succ_bot hg] at hprev
        rw [if_pos le_rfl] at hfrom
        omega
      · rw [if_neg (by omega)] at hfrom
        omega
  · intro v b hb
    by_cases hv : v = w
    · subst hv
      rcases List.mem_append.mp (hheldw.mem_iff.mp hb) with hb | hb
      · exact ⟨(ht.block b hb).1,
          (ht.used_iff hI.bitmaps hg (ht.block b hb).1).mpr (Or.inr hb)⟩
      · obtain ⟨hblock, hused⟩ := hI.held_used v b hb
        exact ⟨hblock, (ht.used_iff hI.bitmaps hg hblock).mpr (Or.inl hused)⟩
    · rw [hheld v hv] at hb
      obtain ⟨hblock, hused⟩ := hI.held_used v b hb
      exact ⟨hblock, (ht.used_iff hI.bitmaps hg hblock).mpr (Or.inl hused)⟩
  · intro v
    by_cases hv : v = w
    · subst hv
      exact hheldw.nodup_iff.mpr (ht.nodup.append (hI.held_nodup v) (hfresh v))
    · rw [hheld v hv]
      exact hI.held_nodup v
  · have hnew : ∀ v, v ≠ w → List.Disjoint (State.held (State.mk fs' s.wblocks_mutex
        (Function.update s.pc w (.scanning n left (g + 1) (l ++ taken))) s.owned) w)
          (s.held v) := by
      intro v hv b hb hbv
      rcases List.mem_append.mp (hheldw.mem_iff.mp hb) with hb | hb
      · exact hfresh v hb hbv
      · exact hI.held_disjoint v w hv hbv hb
    intro v v' hne
    by_cases hv : v = w
    · subst hv
      rw [hheld v' (Ne.symm hne)]
      exact hnew v' (Ne.symm hne)
    · rw [hheld v hv]
      by_cases hv' : v' = w
      · subst hv'
        exact (hnew v hv).symm
      · rw [hheld v' hv']
        exact hI.held_disjoint v v' hne
  · intro v n' k' g' l' hv
    by_cases hvw : v = w
    · subst hvw
      simp only [Function.update_self, PC.scanning.injEq] at hv
      obtain ⟨rfl, rfl, rfl, rfl⟩ := hv
      rw [List.length_append, ht.length]
      omega
    · simp only [Function.update_of_ne hvw] at hv
      exact hI.scan v n' k' g' l' hv

theorem inv_give (hI : Inv c s) (hw : s.pc w = .scanning n k g l)
    (hend : ¬ (g < c.TOTAL_GROUPS ∧ 0 < k)) :
    Inv c { s with
      pc := Function.update s.pc w .idle
      owned := Function.update s.owned w (padded n l ++ s.owned w) } := by
  obtain ⟨rfl, hlen⟩ := hI.scan_done hw hend
  rw [padded_length hlen]
  have hheld : ∀ v, State.held (State.mk s.fs s.wblocks_mutex (Function.update s.pc w .idle)
      (Function.update s.owned w (l ++ s.owned w))) v = s.held v := by
    intro v
    by_cases hv : v = w
    · subst hv; simp [State.held, hw]
    · exact held_update_of_ne hv
  have hpend := sum_update PC.pending s.pc w .idle
  have hcredit := sum_update PC.credit s.pc w .idle
  have htotal := hI.total
  rw [hw] at hpend hcredit
  simp only [PC.pending_idle, PC.pending_scanning, PC.credit_idle, PC.credit_scanning]
    at hpend hcredit
  obtain ⟨hholder, hlocked⟩ := hI.locks_frame (w := w) (p := .idle) (by simp [hw]) (by simp)
  refine ⟨hI.bitmaps, hI.counts, ?_, ?_, ?_, ?_, ?_, ?_, hholder, hlocked⟩
  · simp only
    omega
  · intro g'
    have hsuf := hI.suffix g'
    have hfrom := sum_update (PC.pendingFrom g') s.pc w .idle
    rw [hw] at hfrom
    simp only [PC.pendingFrom_idle, PC.pendingFrom_scanning, ite_self] at hfrom ⊢
    omega
  · intro v
    rw [hheld]
    exact hI.held_used v
  · intro v
    rw [hheld]
    exact hI.held_nodup v
  · intro v v'
    rw [hheld, hheld]
    exact hI.held_disjoint v v'
  · exact hI.scan_frame (by simp)

theorem inv_clear (hI : Inv c s) (hw : s.pc w = .idle) (hb : b ∈ s.owned w)
    (hfree : s.wblocks_mutex (block_group c b) = none) :
    Inv c { fs := setFreeBlockBitmap_group c s.fs b
            wblocks_mutex := Function.update s.wblocks_mutex (block_group c b) (some w)
            pc := Function.update s.pc w (.crediting b)
            owned := Function.update s.owned w ((s.owned w).erase b) } := by
  have hheldb : b ∈ s.held w := List.mem_append_right _ hb
  obtain ⟨hblock, hused⟩ := hI.held_used w b hheldb
  have hheldw : s.held w = s.owned w := by simp [State.held, hw]
  have hheld : ∀ v, State.held (State.mk (setFreeBlockBitmap_group c s.fs b)
      (Function.update s.wblocks_mutex (block_group c b) (some w))
      (Function.update s.pc w (.crediting b))
      (Function.update s.owned w ((s.owned w).erase b))) v = (s.held v).erase b := by
    intro v
    by_cases hv : v = w
    · subst hv
      simp [State.held, hw]
    · rw [held_update_of_ne hv, List.erase_of_not_mem]
      exact fun hbv => hI.held_disjoint v w hv hbv hheldb
  have hfreed := fun h (hh : h < c.TOTAL_GROUPS) =>
    free_setFreeBlockBitmap_group hI.bitmaps hblock hused hh
  have hcount : ((setFreeBlockBitmap_group c s.fs b).gdt (block_group c b)).UNALLOCATED_BLOCKS =
      (s.fs.gdt (block_group c b)).UNALLOCATED_BLOCKS + 1 := by
    -- the counter does not wrap: it counts bits of one group
    have hle := hfreed (block_group c b) hblock.group_lt
    have hbound := free_in_group_le c (setFreeBlockBitmap_group c s.fs b) (block_group c b)
    have hfits := c.group_fits
    have hold := hI.counts (block_group c b) hblock.group_lt
    rw [if_pos rfl] at hle
    simp only [setFreeBlockBitmap_group, Image.setDescriptor, Function.update_self]
    exact Nat.mod_eq_of_lt (by omega)
  have hother : ∀ h, h ≠ block_group c b →
      ((setFreeBlockBitmap_group c s.fs b).gdt h).UNALLOCATED_BLOCKS =
        (s.fs.gdt h).UNALLOCATED_BLOCKS := by
    intro h hne
    simp [setFreeBlockBitmap_group, Image.setDescriptor, Image.setBitmap, hne]
  have hgrow : ∀ h, (s.fs.gdt h).UNALLOCATED_BLOCKS ≤
      ((setFreeBlockBitmap_group c s.fs b).gdt h).UNALLOCATED_BLOCKS := by
    intro h
    by_cases hh : h = block_group c b
    · rw [hh, hcount]
      omega
    · rw [hother h hh]
  have hpend := sum_update PC.pending s.pc w (.crediting b)
  have hcredit := sum_update PC.credit s.pc w (.crediting b)
  have htotal := hI.total
  rw [hw] at hpend hcredit
  simp only [PC.pending_idle, PC.pending_crediting, PC.credit_idle, PC.credit_crediting]
    at hpend hcredit
  refine ⟨bitmapsInGroup_setFreeBlockBitmap_group hI.bitmaps, ?_, ?_, ?_, ?_, ?_, ?_, ?_, ?_, ?_⟩
  · intro h hh
    simp only
    rw [hfreed h hh]
    by_cases hhg : h = block_group c b
    · rw [if_pos hhg, hhg, hcount, hI.counts _ hblock.group_lt]
    · rw [if_neg hhg, hother h hhg, hI.counts h hh, Nat.add_zero]
  · have hsum := sum_change (F := fun h => (s.fs.gdt h).UNALLOCATED_BLOCKS)
      (G := fun h => ((setFreeBlockBitmap_group c s.fs b).gdt h).UNALLOCATED_BLOCKS)
      (Finset.mem_range.mpr hblock.group_lt) (fun h _ hne => hother h hne)
    have hsame : (setFreeBlockBitmap_group c s.fs b).TOTAL_UNALLOCATED_BLOCKS =
        s.fs.TOTAL_UNALLOCATED_BLOCKS := rfl
    simp only at hsum ⊢
    omega
  · intro g'
    have hsuf := hI.suffix g'
    have hfrom := sum_update (PC.pendingFrom g') s.pc w (.crediting b)
    rw [hw] at hfrom
    simp only [PC.pendingFrom_idle, PC.pendingFrom_crediting] at hfrom ⊢
    have hle := Finset.sum_le_sum (s := Finset.Ico g' c.TOTAL_GROUPS) (fun h _ => hgrow h)
    omega
  · intro v b' hb'
    rw [hheld] at hb'
    obtain ⟨hne, hmem⟩ := (hI.held_nodup v).mem_erase_iff.mp hb'
    obtain ⟨hblock', hused'⟩ := hI.held_used v b' hmem
    exact ⟨hblock', (used_setFreeBlockBitmap_group hI.bitmaps hblock hblock').mpr ⟨hused', hne⟩⟩
  · intro v
    rw [hheld]
    exact (hI.held_nodup v).erase b
  · intro v v' hne x hx hx'
    rw [hheld] at hx hx'
    exact hI.held_disjoint v v' hne (List.mem_of_mem_erase hx) (List.mem_of_mem_erase hx')
  · exact hI.scan_frame (by simp)
  · intro v b' hv
    by_cases hvw : v = w
    · subst hvw
      simp only [Function.update_self, PC.crediting.injEq] at hv
      subst hv
      exact ⟨hblock, by simp⟩
    · simp only [Function.update_of_ne hvw] at hv
      obtain ⟨hblock', hheld'⟩ := hI.holder v b' hv
      have hg : block_group c b' ≠ block_group c b := by
        intro hg
        rw [hg, hfree] at hheld'
        exact absurd hheld' (by simp)
      exact ⟨hblock', by simp [hg, hheld']⟩
  · intro g' v hv
    by_cases hg : g' = block_group c b
    · subst hg
      simp only [Function.update_self, Option.some.injEq] at hv
      subst hv
      exact ⟨b, by simp, rfl⟩
    · simp only [Function.update_of_ne hg] at hv
      obtain ⟨b', hpc, hg'⟩ := hI.locked g' v hv
      have hvw : v ≠ w := by
        rintro rfl
        rw [hw] at hpc
        exact absurd hpc (by simp)
      exact ⟨b', by simp [hvw, hpc], hg'⟩

theorem inv_credit (hI : Inv c s) (hw : s.pc w = .crediting b) :
    Inv c { s with
      fs := setFreeBlockBitmap_super s.fs
      wblocks_mutex := Function.update s.wblocks_mutex (block_group c b) none
      pc := Function.update s.pc w .idle } := by
  have hheld : ∀ v, State.held (State.mk (setFreeBlockBitmap_super s.fs)
      (Function.update s.wblocks_mutex (block_group c b) none)
      (Function.update s.pc w .idle) s.owned) v = s.held v := by
    intro v
    by_cases hv : v = w
    · subst hv; simp [State.held, hw]
    · simp [State.held, hv]
  have hpend := sum_update PC.pending s.pc w .idle
  have hcredit := sum_update PC.credit s.pc w .idle
  have htotal := hI.total
  have hlt := hI.free_sum_lt
  rw [hw] at hpend hcredit
  simp only [PC.pending_idle, PC.pending_crediting, PC.credit_idle, PC.credit_crediting]
    at hpend hcredit
  have hsuper : (setFreeBlockBitmap_super s.fs).TOTAL_UNALLOCATED_BLOCKS =
      s.fs.TOTAL_UNALLOCATED_BLOCKS + 1 :=
    Nat.mod_eq_of_lt (by omega)
  refine ⟨hI.bitmaps, hI.counts, ?_, ?_, ?_, ?_, ?_, ?_, ?_, ?_⟩
  · simp only [hsuper]
    change ∑ g ∈ Finset.range c.TOTAL_GROUPS, (s.fs.gdt g).UNALLOCATED_BLOCKS = _
    omega
  · intro g'
    have hfrom := sum_update (PC.pendingFrom g') s.pc w .idle
    rw [hw] at hfrom
    simp only [PC.pendingFrom_idle, PC.pendingFrom_crediting] at hfrom ⊢
    exact (by omega : _ ≤ _).trans (hI.suffix g')
  · intro v
    rw [hheld]
    exact hI.held_used v
  · intro v
    rw [hheld]
    exact hI.held_nodup v
  · intro v v'
    rw [hheld, hheld]
    exact hI.held_disjoint v v'
  · exact hI.scan_frame (by simp)
  · intro v b' hv
    have hvw : v ≠ w := by
      rintro rfl
      simp at hv
    simp only [Function.update_of_ne hvw] at hv
    obtain ⟨hblock', hlock⟩ := hI.holder v b' hv
    have hg : block_group c b' ≠ block_group c b := by
      intro hg
      rw [hg, (hI.holder w b hw).2] at hlock
      exact hvw (Option.some.inj hlock).symm
    exact ⟨hblock', by simp [hg, hlock]⟩
  · intro g' v hv
    by_cases hg : g' = block_group c b
    · subst hg
      simp at hv
    · simp only [Function.update_of_ne hg] at hv
      obtain ⟨b', hpc, hg'⟩ := hI.locked g' v hv
      have hvw : v ≠ w := by
        rintro rfl
        rw [hw] at hpc
        obtain rfl := PC.crediting.inj hpc
        exact hg hg'.symm
      exact ⟨b', by simp [hvw, hpc], hg'⟩

theorem inv_step {t : State W} {e : Event W} (hI : Inv c s) (h : Step c s e t) : Inv c t := by
  cases h with
  | reserve hw _ hfs => exact inv_reserve hI hw hfs
  | refuse _ _ _ => exact hI
  | take hw hg _ _ =>
    exact inv_take hI hw hg (Get_Free_Blocks_group_taken hI.bitmaps hg (hI.counts _ hg) _)
  | give hw hend => exact inv_give hI hw hend
  | clear hw hb hfree => exact inv_clear hI hw hb hfree
  | credit hw => exact inv_credit hI hw

theorem inv_reachable (h : Reachable (Initial c) (Step c) s) : Inv c s :=
  h.invariant (fun _ => init_inv) (fun _ _ _ => inv_step)

end Steps

section Calls

variable {s t u : State W} {w : W} {e : Event W} {n k g b : Nat} {l : List Nat}
  {xs : List (Event W)}

def Event.takes (w : W) : Event W → Bool
  | .take v => v = w
  | _ => false

/-- In the run `xs` from `s` to `t`, `w` took `b` in a section that found its bit clear. -/
def TakenIn (c : Superblock_constants) (w : W) (b : Nat) (s : State W) (xs : List (Event W))
    (t : State W) : Prop :=
  ∃ ys zs u v, xs = ys ++ .take w :: zs ∧ Trace (Step c) s ys u ∧ Step c u (.take w) v ∧
    Trace (Step c) v zs t ∧ used c u.fs b = false ∧ used c v.fs b = true

theorem TakenIn.cons {r : State W} (h : TakenIn c w b s xs t) (hr : Step c r e s) :
    TakenIn c w b r (e :: xs) t := by
  obtain ⟨ys, zs, u, v, rfl, hys, hstep, hzs, hclear, hset⟩ := h
  exact ⟨e :: ys, zs, u, v, rfl, .stepL hr hys, hstep, hzs, hclear, hset⟩

/-- What a step does to a worker in the middle of a scan. -/
theorem scanning_step (hw : s.pc w = .scanning n k g l) (h : Step c s e t) :
    (t.pc w = .scanning n k g l ∧ e.takes w = false) ∨
    (e = .take w ∧ g < c.TOTAL_GROUPS ∧
      t.fs = (Get_Free_Blocks_group c s.fs g k).2.2 ∧
      t.pc w = .scanning n (Get_Free_Blocks_group c s.fs g k).2.1 (g + 1)
        (l ++ (Get_Free_Blocks_group c s.fs g k).1)) ∨
    e = .give w (padded n l) := by
  cases h with
  | @reserve v _ _ hv _ _ =>
    have hne : w ≠ v := by
      rintro rfl
      simp [hw] at hv
    exact Or.inl ⟨by simp [hne, hw], rfl⟩
  | refuse _ _ _ => exact Or.inl ⟨hw, rfl⟩
  | @take v _ _ _ _ hv hg _ _ =>
    by_cases hne : w = v
    · subst hne
      rw [hw] at hv
      obtain ⟨rfl, rfl, rfl, rfl⟩ := PC.scanning.inj hv
      exact Or.inr (Or.inl ⟨rfl, hg, rfl, by simp⟩)
    · exact Or.inl ⟨by simp [hne, hw], by simp [Event.takes, Ne.symm hne]⟩
  | @give v _ _ _ _ hv _ =>
    by_cases hne : w = v
    · subst hne
      rw [hw] at hv
      obtain ⟨rfl, rfl, rfl, rfl⟩ := PC.scanning.inj hv
      exact Or.inr (Or.inr rfl)
    · exact Or.inl ⟨by simp [hne, hw], rfl⟩
  | @clear v _ hv _ _ =>
    have hne : w ≠ v := by
      rintro rfl
      simp [hw] at hv
    exact Or.inl ⟨by simp [hne, hw], rfl⟩
  | @credit v _ hv =>
    have hne : w ≠ v := by
      rintro rfl
      simp [hw] at hv
    exact Or.inl ⟨by simp [hne, hw], rfl⟩

/-- A scan along a run: every block it collects was clear when taken, and it takes at
most once in each group. -/
theorem scanning_trace [Fintype W] (hI : Inv c s) (h : Trace (Step c) s xs t)
    (hw : s.pc w = .scanning n k g l) (hgive : ∀ bs, .give w bs ∉ xs) :
    ∃ k' g' l', t.pc w = .scanning n k' g' l' ∧ g + xs.countP (Event.takes w) = g' ∧
      ∀ b ∈ l', b ∈ l ∨ TakenIn c w b s xs t := by
  induction h generalizing k g l with
  | refl => exact ⟨k, g, l, hw, by simp, fun b hb => Or.inl hb⟩
  | @stepL s r t e xs hstep hrest ih =>
    have hgive' : ∀ bs, .give w bs ∉ xs := fun bs hbs => hgive bs (List.mem_cons_of_mem _ hbs)
    have hIr := inv_step hI hstep
    rcases scanning_step hw hstep with ⟨hr, htakes⟩ | ⟨rfl, hg, hfs, hr⟩ | rfl
    · obtain ⟨k', g', l', ht, hg', hl'⟩ := ih hIr hr hgive'
      refine ⟨k', g', l', ht, by rw [List.countP_cons_of_neg (by simp [htakes]), hg'], ?_⟩
      intro b hb
      rcases hl' b hb with hb | hb
      · exact Or.inl hb
      · exact Or.inr (hb.cons hstep)
    · obtain ⟨k', g', l', ht, hg', hl'⟩ := ih hIr hr hgive'
      have htaken := Get_Free_Blocks_group_taken hI.bitmaps hg (hI.counts g hg) k
      refine ⟨k', g', l', ht, ?_, ?_⟩
      · rw [List.countP_cons_of_pos (by simp [Event.takes])]
        omega
      · intro b hb
        rcases hl' b hb with hb | hb
        · rcases List.mem_append.mp hb with hb | hb
          · exact Or.inl hb
          · refine Or.inr ⟨[], xs, _, _, rfl, .refl, hstep, hrest, htaken.clear b hb, ?_⟩
            rw [hfs]
            exact (htaken.used_iff hI.bitmaps hg (htaken.block b hb).1).mpr (Or.inr hb)
        · exact Or.inr (hb.cons hstep)
    · exact absurd List.mem_cons_self (hgive _)

theorem reserve_pc {s t : State W} (h : Step c s (.reserve w n) t) :
    t.pc w = .scanning n n 0 [] := by
  cases h
  simp

theorem give_blocks {bs : List Nat} (h : Step c s (.give w bs) t)
    (hw : s.pc w = .scanning n k g l) :
    bs = padded n l ∧ ¬ (g < c.TOTAL_GROUPS ∧ 0 < k) ∧ t.pc w = .idle := by
  cases h with
  | give hv hend =>
    rw [hw] at hv
    obtain ⟨rfl, rfl, rfl, rfl⟩ := PC.scanning.inj hv
    exact ⟨rfl, hend, by simp⟩

/-- Whoever holds the mutex of a group can give it back at once. -/
theorem exists_unlocked [Fintype W] (hI : Inv c s) (g : Nat) :
    ∃ xs t, Trace (Step c) s xs t ∧ t.wblocks_mutex g = none ∧
      ∀ v n k h l, s.pc v = .scanning n k h l → t.pc v = .scanning n k h l := by
  cases hm : s.wblocks_mutex g with
  | none => exact ⟨[], s, .refl, hm, fun _ _ _ _ _ h => h⟩
  | some v =>
    obtain ⟨b, hb, rfl⟩ := hI.locked g v hm
    refine ⟨_, _, .single (.credit hb), by simp, ?_⟩
    intro v' n k h l hv'
    have hne : v' ≠ v := by
      rintro rfl
      simp [hb] at hv'
    simp [hne, hv']

/-- A call in progress can be run to its end from wherever the others are. -/
theorem exists_return [Fintype W] (hI : Inv c s) (w : W) :
    ∃ xs t, Trace (Step c) s xs t ∧ t.pc w = .idle := by
  cases hw : s.pc w with
  | idle => exact ⟨[], s, .refl, hw⟩
  | crediting b => exact ⟨_, _, .single (.credit hw), by simp⟩
  | scanning n k g l =>
    -- by induction on the groups still ahead of the scan
    induction hm : c.TOTAL_GROUPS - g generalizing s k g l with
    | zero =>
      exact ⟨_, _, .single (.give hw (by omega)), by simp⟩
    | succ m ih =>
      by_cases hk : 0 < k
      · obtain ⟨xs, t, hxs, hnone, hframe⟩ := exists_unlocked hI g
        have hIt : Inv c t := hxs.invariant (fun _ _ _ => inv_step) hI
        have htake := Step.take (c := c) (hframe w n k g l hw) (by omega) hk hnone
        obtain ⟨ys, u, hys, hu⟩ := ih (inv_step hIt htake) _ _ _
          (Function.update_self ..) (by omega)
        exact ⟨_, u, hxs.append (.stepL htake hys), hu⟩
      · exact ⟨_, _, .single (.give hw (by omega)), by simp⟩

end Calls

/-- Concurrent block allocation is exact, whatever the interleaving. -/
theorem Get_Free_Blocks_exact [Fintype W] {s : State W}
    (hs : Reachable (Initial c) (Step c) s) :
    -- an admitted call returns what it asked for, each block found clear
    (∀ w n t xs u bs v, Step c s (.reserve w n) t → Trace (Step c) t xs u →
      (∀ bs', .give w bs' ∉ xs) → Step c u (.give w bs) v →
      bs.length = n ∧ bs.Nodup ∧ (∀ b ∈ bs, IsBlock c b ∧ TakenIn c w b t xs u) ∧
        xs.countP (Event.takes w) ≤ c.TOTAL_GROUPS) ∧
    -- and any call under way can get there
    (∀ w, ∃ xs t, Trace (Step c) s xs t ∧ t.pc w = .idle) ∧
    -- no block is in two hands, nor marked free in any
    (∀ w w', w ≠ w' → (s.held w).Disjoint (s.held w')) ∧
    (∀ w, (s.held w).Nodup ∧ ∀ b ∈ s.held w, used c s.fs b = true) ∧
    -- a refused call changes nothing
    (∀ w n t, Step c s (.refuse w n) t → t = s) ∧
    -- with no call under way the counters are those of the bitmaps
    ((∀ w, s.pc w = .idle) → Exact c s.fs) := by
  have hI := inv_reachable hs
  refine ⟨?_, exists_return hI, hI.held_disjoint, fun w => ⟨hI.held_nodup w,
    fun b hb => (hI.held_used w b hb).2⟩, ?_, ?_⟩
  · intro w n t xs u bs v hreserve hxs hgive hret
    have hIt := inv_step hI hreserve
    have hIu : Inv c u := hxs.invariant (fun _ _ _ => inv_step) hIt
    obtain ⟨k, g, l, hu, hg, hl⟩ := scanning_trace hIt hxs (reserve_pc hreserve) hgive
    obtain ⟨rfl, hend, -⟩ := give_blocks hret hu
    obtain ⟨-, hlen⟩ := hIu.scan_done hu hend
    have hscan := hIu.scan w n k g l hu
    have hheld : ∀ b ∈ l, b ∈ u.held w := by
      intro b hb
      rw [State.held, hu]
      exact List.mem_append_left _ hb
    rw [padded_length hlen]
    refine ⟨hlen, ?_, ?_, by omega⟩
    · have hnodup := hIu.held_nodup w
      rw [State.held, hu] at hnodup
      exact hnodup.of_append_left
    · intro b hb
      refine ⟨(hIu.held_used w b (hheld b hb)).1, ?_⟩
      rcases hl b hb with hb | hb
      · simp at hb
      · exact hb
  · intro w n t h
    cases h
    rfl
  · intro hidle
    refine ⟨hI.counts, ?_⟩
    have htotal := hI.total
    simp only [hidle, PC.pending_idle, PC.credit_idle, Finset.sum_const_zero] at htotal
    omega

/-- Two groups of two blocks. -/
def two_groups : Superblock_constants where
  BLOCKS_PER_GROUP := 2
  INODES_PER_GROUP := 1
  BLOCK_SIZE := 1
  TOTAL_GROUPS := 2
  blocks_pos := by decide
  inodes_pos := by decide
  size_pos := by decide
  group_fits := by decide
  numbers_fit := by decide

/-- All four blocks free, two workers, nobody inside. -/
def all_free : State (Fin 2) where
  fs :=
    { TOTAL_UNALLOCATED_BLOCKS := 4
      TOTAL_UNALLOCATED_INODES := 0
      gdt := fun g => ⟨2 * g + 1, 0, 2, 0, 0⟩
      bitmap := fun _ _ => false
      inode := fun _ => ⟨0, 0, 0, 0, fun _ => 0, 0, 0, 0⟩
      block := fun _ _ => 0 }
  wblocks_mutex := fun _ => none
  pc := fun _ => .idle
  owned := fun _ => []

theorem initial_all_free : Initial two_groups all_free where
  idle := fun _ => rfl
  unlocked := fun _ => rfl
  bitmaps := by
    change ∀ g < 2, _
    decide
  exact := ⟨by change ∀ g < 2, _; decide, by decide⟩
  owned_used := by simp [all_free]
  owned_nodup := by simp [all_free]
  owned_disjoint := by simp [all_free]

/-- Worker 0 has asked for three blocks. -/
def reserved : State (Fin 2) :=
  { all_free with
    fs := { all_free.fs with TOTAL_UNALLOCATED_BLOCKS := 1 }
    pc := Function.update all_free.pc 0 (.scanning 3 3 0 []) }

/-- It has been through the first group. -/
def halfway : State (Fin 2) :=
  { reserved with
    fs := (Get_Free_Blocks_group two_groups reserved.fs 0 3).2.2
    pc := Function.update reserved.pc 0 (.scanning 3 1 1 [1, 2]) }

theorem Get_Free_Blocks_exact_three :
    ∃ u v xs, Step two_groups all_free (.reserve 0 3) reserved ∧
      Trace (Step two_groups) reserved xs u ∧ Step two_groups u (.give 0 [1, 2, 3]) v ∧
      ∀ b ∈ [1, 2, 3], IsBlock two_groups b ∧ TakenIn two_groups 0 b reserved xs u := by
  have hreserve : Step two_groups all_free (.reserve 0 3) reserved :=
    .reserve rfl (by decide) rfl
  have htake : Step two_groups reserved (.take 0) halfway :=
    .take (n := 3) (k := 3) (g := 0) (l := []) rfl (by decide) (by decide) rfl
  have htake' := Step.take (c := two_groups) (s := halfway) (w := 0) (n := 3) (k := 1) (g := 1)
    (l := [1, 2]) rfl (by decide) (by decide) rfl
  have hxs := Trace.stepL htake (.single htake')
  have hgive := Step.give (c := two_groups) (w := 0) (s := { halfway with
    fs := (Get_Free_Blocks_group two_groups halfway.fs 1 1).2.2
    pc := Function.update halfway.pc 0 (.scanning 3 0 2 [1, 2, 3]) }) rfl (by decide)
  have hall := (Get_Free_Blocks_exact (reachable_init initial_all_free)).1 0 3 _ _ _ _ _ hreserve
    hxs (by simp) hgive
  exact ⟨_, _, _, hreserve, hxs, hgive, hall.2.2.1⟩

end LaLiga.Rfs.BlockPool
