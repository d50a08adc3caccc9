import LaLiga.Rfs.AttachSteps

/-! The loops of `Attach_Blocks` over the indirect blocks. -/
namespace LaLiga.Rfs

open LaLiga.Lib

/-- How a part of `Attach_Blocks` ends when the blocks run out. The result is only known where
nothing has been done. -/
structure Short (c : Superblock_constants) (live : Nat → Prop) (i N k r short x : Nat)
    (w w' : Worker_state) : Prop where
  errno : w'.errno = some .ENOSPC
  stuck : Stuck c live i w.file N k
  reached : ∃ N' d', Reached c live i w.file N' d' w'.file
  left : ¬ Partial c w.file N r ∧ ¬ Tidy c w'.file i ∨
    Partial c w.file N r ∧ w'.file = w.file ∧ x = short

/-- The ends of a part of `Attach_Blocks` that has to attach `k` of the `r` blocks that are asked
for: it attaches them and returns `done`, or there are not enough and it fails with a number. -/
def Outcome {α : Type} (c : Superblock_constants) (live : Nat → Prop) (i N k r : Nat) (done : α)
    (fail : Nat → α) (short : Nat) (w : Worker_state) (result : Except Crash (α × Worker_state)) :
    Prop :=
  (∃ w', result = .ok (done, w') ∧ Attached c live i N k r w w') ∨
  (result = .error .null ∧ ¬ Partial c w.file N r ∧ Stuck c live i w.file N k) ∨
  ∃ x w', result = .ok (fail x, w') ∧ Short c live i N k r short x w w'

variable {α : Type} {c : Superblock_constants} {live : Nat → Prop} {fs fs' : Image}
  {w w' w₁ : Worker_state} {i s t e k k₁ k₂ n r F N N' d d' short short₂ : Nat} {path : List Nat}
  {done : α} {fail : Nat → α} {result : Except Crash (α × Worker_state)}

theorem Attached.reached (h : Attached c live i N k r w w') (hw : Prepared c live i N d w.file) :
    ∃ d', Reached c live i w.file (N + k) d' w'.file := by
  obtain ⟨-, ⟨rfl, rfl⟩ | ⟨-, -, hreached, -⟩⟩ := h
  · exact ⟨d, hw.reached⟩
  · exact ⟨0, hreached⟩

theorem Attached.trans (h : Attached c live i N k₁ r w w₁)
    (h' : Attached c live i (N + k₁) k₂ (r - k₁) w₁ w') : Attached c live i N (k₁ + k₂) r w w' := by
  refine ⟨h'.1.trans h.1, ?_⟩
  obtain ⟨-, ⟨rfl, rfl⟩ | ⟨hpos, hwhole, hreached, hgiven⟩⟩ := h
  · rw [Nat.zero_add]
    exact h'.2
  · obtain ⟨-, ⟨rfl, rfl⟩ | ⟨hpos', -, hreached', -⟩⟩ := h'
    · exact Or.inr ⟨hpos, hwhole, hreached, hgiven⟩
    · refine Or.inr ⟨by omega, hwhole, ?_, fun b m hr => by omega⟩
      rw [← Nat.add_assoc]
      exact hreached.trans hreached'

theorem Attached.ready (h : Attached c live i N k r w w') (hready : Ready c i w.file N r)
    (hlt : k < r) : Ready c i w'.file (N + k) (r - k) := by
  obtain ⟨-, ⟨rfl, rfl⟩ | ⟨hpos, hwhole, hreached, -⟩⟩ := h
  · exact hready
  · rcases hready with hclean | hpart | ⟨rfl, -⟩
    · exact Or.inl (hreached.grown.clean hclean)
    · exact absurd hpart hwhole
    · omega

theorem whole_block (hmod : (N - 12) % pointers_per_block c = 0) : ¬ Partial c fs N r :=
  fun hpart => hpart.2.1 hmod

theorem Ready.fresh (h : Ready c i fs N r) (hmod : (N - 12) % pointers_per_block c = 0) :
    Fresh c i N fs := by
  rcases h with hclean | hpart | ⟨-, hfresh⟩
  · exact Or.inl hclean
  · exact absurd hpart (whole_block hmod)
  · exact hfresh

theorem Stuck.pos (h : Stuck c live i fs N k) : 0 < k := by
  obtain ⟨fs', N', d', E, -, hN, -, hE, hfew⟩ := h
  obtain ⟨x, hx⟩ := List.exists_mem_of_length_pos (Nat.zero_lt_of_lt hfew)
  obtain ⟨-, -, -, hlo, hhi⟩ := hE x hx
  omega

theorem Stuck.mono (h : Stuck c live i fs N k) (hle : k ≤ k₁) : Stuck c live i fs N k₁ := by
  obtain ⟨fs', N', d', E, hreached, hN, hnodup, hE, hfew⟩ := h
  refine ⟨fs', N', d', E, hreached, hN, hnodup, ?_, hfew⟩
  intro x hx
  obtain ⟨hinode, hvalid, hzero, hlo, hhi⟩ := hE x hx
  exact ⟨hinode, hvalid, hzero, hlo, by omega⟩

/-- An indirect block for a leaf that is not there yet has no entry. -/
theorem Full.not_tidy (h : Full c fs i N d) (hvalid : Valid c s path)
    (hlength : path.length + 1 = height s) (hne : ptr c fs i s path ≠ 0)
    (hfirst : first_index c s path = N) : ¬ Tidy c fs i := by
  intro htidy
  obtain ⟨k, hk, hentry⟩ := htidy s path hvalid (by omega) hne
  have := (h s _ hk).mp hentry
  rw [first_index_entry hlength, List.length_cons] at this
  omega

/-- First `k₁` blocks, then the rest. -/
theorem Outcome.after (hw : Prepared c live i N d w.file)
    (h : Attached c live i N k₁ r w w₁) (hk : k₁ + k₂ = k)
    (hmod : 0 < k₁ → (N + k₁ - 12) % pointers_per_block c = 0) (hshort : k₁ = 0 → short₂ = short)
    (h' : Outcome c live i (N + k₁) k₂ (r - k₁) done fail short₂ w₁ result) :
    Outcome c live i N k r done fail short w result := by
  subst hk
  obtain ⟨d₁, hreached⟩ := h.reached hw
  have hstuck : Stuck c live i w₁.file (N + k₁) k₂ → Stuck c live i w.file N (k₁ + k₂) :=
    fun hstuck => hstuck.after hreached (by omega) (by omega)
  have hwhole : ¬ Partial c w₁.file (N + k₁) (r - k₁) → ¬ Partial c w.file N r := by
    obtain ⟨-, ⟨rfl, rfl⟩ | ⟨-, hwhole, -⟩⟩ := h
    · exact id
    · exact fun _ => hwhole
  rcases h' with ⟨w', rfl, hattached⟩ | ⟨rfl, hnot, hfew⟩ | ⟨x, w', rfl, hends⟩
  · exact Or.inl ⟨w', rfl, h.trans hattached⟩
  · exact Or.inr (Or.inl ⟨rfl, hwhole hnot, hstuck hfew⟩)
  · obtain ⟨N', d', hreached'⟩ := hends.reached
    refine Or.inr (Or.inr ⟨x, w', rfl, hends.errno, hstuck hends.stuck,
      ⟨N', d', hreached.trans hreached'⟩, ?_⟩)
    rcases hends.left with ⟨hnot, htidy⟩ | ⟨hpart, hfile, hx⟩
    · exact Or.inl ⟨hwhole hnot, htidy⟩
    · obtain ⟨-, ⟨rfl, rfl⟩ | ⟨hpos, -, -⟩⟩ := h
      · exact Or.inr ⟨hpart, hfile, hx.trans (hshort rfl)⟩
      · exact absurd hpart (whole_block (hmod hpos.1))

/-- First the indirect block, if it is a new one. -/
theorem Outcome.after_indirect (hreached : Reached c live i w.file N d' w₁.file)
    (herrno : w₁.errno = w.errno) (hfirst : F ≤ N) (hsame : F < N → w₁ = w)
    (hk : F = N → 0 < k) (hmod : (F - 12) % pointers_per_block c = 0)
    (hcoming : ∀ b m, Coming c i N b m w.file → Coming c i N b m w₁.file)
    (h : Outcome c live i N k r done fail short w₁ result) :
    Outcome c live i N k r done fail short w result := by
  rcases hfirst.lt_or_eq with hlt | rfl
  · rwa [hsame hlt] at h
  · have hstuck : Stuck c live i w₁.file F k → Stuck c live i w.file F k :=
      fun hstuck => hstuck.after hreached le_rfl le_rfl
    have hwhole : ¬ Partial c w.file F r := whole_block hmod
    rcases h with ⟨w', rfl, herrno', ⟨rfl, -⟩ | ⟨hpos, -, hreached', hgiven⟩⟩ | ⟨rfl, -, hfew⟩ |
      ⟨x, w', rfl, hends⟩
    · exact absurd (hk rfl) (Nat.lt_irrefl 0)
    · exact Or.inl ⟨w', rfl, herrno'.trans herrno,
        Or.inr ⟨hpos, hwhole, hreached.trans hreached',
          fun b m hr hnext => hgiven b m hr (hcoming b m hnext)⟩⟩
    · exact Or.inr (Or.inl ⟨rfl, hwhole, hstuck hfew⟩)
    · obtain ⟨N', d', hreached'⟩ := hends.reached
      refine Or.inr (Or.inr ⟨x, w', rfl, hends.errno, hstuck hends.stuck,
        ⟨N', d', hreached.trans hreached'⟩, ?_⟩)
      rcases hends.left with ⟨-, htidy⟩ | ⟨hpart, -, -⟩
      · exact Or.inl ⟨hwhole, htidy⟩
      · exact absurd hpart (whole_block hmod)

theorem Ready.after_indirect (h : Ready c i w.file N r)
    (hreached : Reached c live i w.file N d' w₁.file) (hfirst : F ≤ N) (hsame : F < N → w₁ = w)
    (hmod : (F - 12) % pointers_per_block c = 0)
    (hcoming : ∀ b m, Coming c i N b m w.file → Coming c i N b m w₁.file) :
    Ready c i w₁.file N r := by
  rcases hfirst.lt_or_eq with hlt | rfl
  · rwa [hsame hlt]
  · rcases h with hclean | hpart | ⟨rfl, hclean | ⟨b, m, hnext⟩⟩
    · exact Or.inl (hreached.grown.clean hclean)
    · exact absurd hpart (whole_block hmod)
    · exact Or.inl (hreached.grown.clean hclean)
    · exact Or.inr (Or.inr ⟨rfl, Or.inr ⟨b, m, hcoming b m hnext⟩⟩)

theorem Attach_Blocks_entries_none {b left : Nat} :
    Attach_Blocks_entries c b left e 0 w = .ok (0, w) := by
  cases left with
  | zero => rfl
  | succ left => exact if_pos rfl

section Loops

variable (hP : 1 < pointers_per_block c) (hwords : c.BLOCK_SIZE = 4 * pointers_per_block c)
  (hi : live i) (hvalid : Valid c s path)
include hP hwords hi hvalid

/-- The entries of an indirect block of the second level, from the entry `e` on. -/
theorem Inode_Indirect_Attach2_entries_spec {left : Nat} (hlength : path.length + 2 = height s)
    (hw : Prepared c live i N d w.file) (hready : Ready c i w.file N r)
    (herr : w.errno ≠ some .ENOSPC) (hne : ptr c w.file i s path ≠ 0) (hr : 0 < r)
    (he : e + left = pointers_per_block c)
    (hfirst : first_index c s path + e * pointers_per_block c ≤ N)
    (hk : k = min (first_index c s path + pointers_per_block c * pointers_per_block c - N) r) :
    Outcome c live i N k r (t + k) id t w
      (Inode_Indirect_Attach2_entries c (ptr c w.file i s path) left e r t w) := by
  induction left generalizing e r t k N d w with
  | zero =>
    obtain rfl : e = pointers_per_block c := he
    obtain rfl : k = 0 := by omega
    exact Or.inl ⟨w, rfl, rfl, Or.inl ⟨rfl, rfl⟩⟩
  | succ left ih =>
    have hlevel : path.length < height s := by omega
    have hentry : Valid c s (e :: path) := hvalid.cons hlevel (by omega)
    have hheight : (e :: path).length + 1 = height s := by
      rw [List.length_cons]
      omega
    have hindex : first_index c s (e :: path) =
        first_index c s path + e * pointers_per_block c := by
      rw [first_index_cons (indirect_of_lt hlevel) hlevel,
        show height s - path.length - 1 = 1 by omega, pow_one]
    have hnext : (e + 1) * pointers_per_block c = e * pointers_per_block c + pointers_per_block c :=
      Nat.succ_mul ..
    have hover : (e + 1) * pointers_per_block c ≤ pointers_per_block c * pointers_per_block c :=
      Nat.mul_le_mul_right _ (by omega)
    obtain ⟨h12, hmod⟩ := first_index_mod hvalid.slot (show (e :: path).length < height s by omega)
    have hbefore : first_index c s (e :: path) ≤ N := hindex ▸ hfirst
    rw [Inode_Indirect_Attach2_entries]
    rcases check_and_set_entry_spec hP hwords hw hi hvalid (by omega) (by omega) hbefore
      (fun heq => hready.fresh (heq ▸ hmod)) hne with
      ⟨herror, heq, hstuck⟩ | ⟨w₁, d₁, hok, herrno, hreached, hset, hsame, hcoming⟩
    · rw [herror]
      exact Or.inr (Or.inl ⟨rfl, whole_block (heq ▸ hmod), hstuck.mono (by omega)⟩)
    · rw [hok]
      dsimp only
      have hup : ptr c w₁.file i s path = ptr c w.file i s path :=
        hreached.grown.ptr ⟨hi, hvalid⟩ hne
      refine Outcome.after_indirect hreached herrno hbefore hsame (by omega) hmod hcoming ?_
      have hready₁ := hready.after_indirect hreached hbefore hsame hmod hcoming
      rw [← hup, ← ptr_cons (ptr_parent hset)]
      obtain ⟨k₁, hk₁⟩ : ∃ k₁, k₁ = min (first_index c s (e :: path) + pointers_per_block c - N) r :=
        ⟨_, rfl⟩
      rcases check_and_attach1_spec hP hreached.prepared hi hentry hheight hset hbefore hr hk₁
        with ⟨w₂, hok₂, hattached⟩ | ⟨hnone, hpos, hfew, hstuck⟩
      · rw [hok₂, if_neg (herrno.trans_ne herr)]
        dsimp only
        by_cases hrest : r - k₁ = 0
        · have hall : k = k₁ := by omega
          rw [if_pos hrest, hall]
          exact Or.inl ⟨w₂, rfl, hattached⟩
        · obtain ⟨d₂, hreached₂⟩ := hattached.reached hreached.prepared
          have hup₂ : ptr c w₂.file i s path = ptr c w₁.file i s path :=
            hreached₂.grown.ptr ⟨hi, hvalid⟩ (ptr_parent hset)
          obtain ⟨k₂, hk₂⟩ : ∃ k₂, k₂ = min (first_index c s path +
            pointers_per_block c * pointers_per_block c - (N + k₁)) (r - k₁) := ⟨_, rfl⟩
          have hsum : k₁ + k₂ = k := by omega
          rw [if_neg hrest, ← hup₂]
          have hshort : k₁ = 0 → t + k₁ = t := fun hzero => by rw [hzero, Nat.add_zero]
          refine Outcome.after hreached.prepared hattached hsum ?_ hshort ?_
          · intro hpos
            rw [show N + k₁ - 12 = first_index c s (e :: path) - 12 + pointers_per_block c by omega,
              Nat.add_mod_right, hmod]
          · rw [← hsum, ← Nat.add_assoc]
            exact ih hreached₂.prepared (hattached.ready hready₁ (by omega))
              (hattached.1.trans_ne (herrno.trans_ne herr)) (hup₂.trans_ne (ptr_parent hset))
              (by omega) (by omega) (by omega) hk₂
      · rw [hnone]
        refine Or.inr (Or.inr ⟨t, _, rfl, rfl, hstuck.mono (by omega),
          ⟨N, d₁, hreached.prepared.reached⟩, ?_⟩)
        rcases hbefore.lt_or_eq with hlt | heq
        · have hpart := (partial_iff hvalid.slot hheight hbefore (by omega)).mpr ⟨hlt, hk₁ ▸ hfew⟩
          exact Or.inr ⟨hpart, rfl, rfl⟩
        · exact Or.inl ⟨whole_block (heq ▸ hmod),
            hreached.prepared.full.not_tidy hentry hheight hset heq⟩

/-- `Inode_Indirect_Attach2` fills what is under an indirect block of the second level. -/
theorem Inode_Indirect_Attach2_spec (hlength : path.length + 2 = height s)
    (hw : Prepared c live i N d w.file) (hready : Ready c i w.file N r)
    (herr : w.errno ≠ some .ENOSPC) (hne : ptr c w.file i s path ≠ 0) (hr : 0 < r)
    (hfirst : first_index c s path ≤ N)
    (hk : k = min (first_index c s path + pointers_per_block c * pointers_per_block c - N) r) :
    Outcome c live i N k r k id 0 w
      (Inode_Indirect_Attach2 c (ptr c w.file i s path) r w) := by
  have h := Inode_Indirect_Attach2_entries_spec (e := 0) (t := 0) hP hwords hi hvalid hlength hw
    hready herr hne hr (Nat.zero_add _) (by omega) hk
  rwa [Nat.zero_add] at h

/-- The entries of the indirect block of the third level, from the entry `e` on. -/
theorem Attach_Blocks_entries_spec {left : Nat} (hlength : path.length + 3 = height s)
    (hw : Prepared c live i N d w.file) (hready : Ready c i w.file N r)
    (herr : w.errno ≠ some .ENOSPC) (hne : ptr c w.file i s path ≠ 0)
    (he : e + left = pointers_per_block c)
    (hfirst : first_index c s path + e * (pointers_per_block c * pointers_per_block c) ≤ N)
    (hk : k = min (first_index c s path +
      pointers_per_block c * (pointers_per_block c * pointers_per_block c) - N) r) :
    Outcome c live i N k r (r - k) id r w
      (Attach_Blocks_entries c (ptr c w.file i s path) left e r w) := by
  induction left generalizing e r k N d w with
  | zero =>
    obtain rfl : e = pointers_per_block c := he
    obtain rfl : k = 0 := by omega
    exact Or.inl ⟨w, rfl, rfl, Or.inl ⟨rfl, rfl⟩⟩
  | succ left ih =>
    rw [Attach_Blocks_entries]
    by_cases hr : r = 0
    · obtain rfl : k = 0 := by omega
      rw [if_pos hr]
      subst hr
      exact Or.inl ⟨w, rfl, rfl, Or.inl ⟨rfl, rfl⟩⟩
    · rw [if_neg hr]
      have hlevel : path.length < height s := by omega
      have hentry : Valid c s (e :: path) := hvalid.cons hlevel (by omega)
      have hheight : (e :: path).length + 2 = height s := by
        rw [List.length_cons]
        omega
      have hindex : first_index c s (e :: path) =
          first_index c s path + e * (pointers_per_block c * pointers_per_block c) := by
        rw [first_index_cons (indirect_of_lt hlevel) hlevel,
          show height s - path.length - 1 = 2 by omega, Nat.pow_two]
      have hnext : (e + 1) * (pointers_per_block c * pointers_per_block c) =
          e * (pointers_per_block c * pointers_per_block c) +
            pointers_per_block c * pointers_per_block c := Nat.succ_mul ..
      have hover : (e + 1) * (pointers_per_block c * pointers_per_block c) ≤
          pointers_per_block c * (pointers_per_block c * pointers_per_block c) :=
        Nat.mul_le_mul_right _ (by omega)
      have hsquare : 0 < pointers_per_block c * pointers_per_block c :=
        Nat.mul_pos (by omega) (by omega)
      obtain ⟨h12, hmod⟩ := first_index_mod hvalid.slot
        (show (e :: path).length < height s by omega)
      have hbefore : first_index c s (e :: path) ≤ N := hindex ▸ hfirst
      rcases check_and_set_entry_spec hP hwords hw hi hvalid (by omega) (by omega) hbefore
        (fun heq => hready.fresh (heq ▸ hmod)) hne with
        ⟨herror, heq, hstuck⟩ | ⟨w₁, d₁, hok, herrno, hreached, hset, hsame, hcoming⟩
      · rw [herror]
        exact Or.inr (Or.inl ⟨rfl, whole_block (heq ▸ hmod), hstuck.mono (by omega)⟩)
      · rw [hok]
        dsimp only
        rw [if_neg (herrno.trans_ne herr)]
        have hup : ptr c w₁.file i s path = ptr c w.file i s path :=
          hreached.grown.ptr ⟨hi, hvalid⟩ hne
        refine Outcome.after_indirect hreached herrno hbefore hsame (by omega) hmod hcoming ?_
        have hready₁ := hready.after_indirect hreached hbefore hsame hmod hcoming
        rw [← hup, ← ptr_cons (ptr_parent hset)]
        obtain ⟨k₁, hk₁⟩ : ∃ k₁, k₁ = min (first_index c s (e :: path) +
          pointers_per_block c * pointers_per_block c - N) r := ⟨_, rfl⟩
        rcases Inode_Indirect_Attach2_spec hP hwords hi hentry hheight hreached.prepared hready₁
          (herrno.trans_ne herr) hset (Nat.pos_of_ne_zero hr) hbefore hk₁ with
          ⟨w₂, hok₂, hattached⟩ | ⟨herror, hwhole, hstuck⟩ | ⟨x, w₂, hok₂, hends⟩
        · obtain ⟨d₂, hreached₂⟩ := hattached.reached hreached.prepared
          have hup₂ : ptr c w₂.file i s path = ptr c w₁.file i s path :=
            hreached₂.grown.ptr ⟨hi, hvalid⟩ (ptr_parent hset)
          obtain ⟨k₂, hk₂⟩ : ∃ k₂, k₂ = min (first_index c s path +
            pointers_per_block c * (pointers_per_block c * pointers_per_block c) - (N + k₁))
              (r - k₁) := ⟨_, rfl⟩
          have hsum : k₁ + k₂ = k := by omega
          rw [hok₂]
          dsimp only
          rw [if_neg (hattached.1.trans_ne (herrno.trans_ne herr)), ← hup₂]
          by_cases hrest : r - k₁ = 0
          · have hall : k = k₁ := by omega
            rw [hrest, Attach_Blocks_entries_none, hall, hrest]
            exact Or.inl ⟨w₂, rfl, hattached⟩
          · have hshort : k₁ = 0 → r - k₁ = r := fun hzero => by rw [hzero, Nat.sub_zero]
            refine Outcome.after hreached.prepared hattached hsum ?_ hshort ?_
            · intro hpos
              rw [show N + k₁ - 12 = first_index c s (e :: path) - 12 +
                pointers_per_block c * pointers_per_block c by omega, Nat.add_mul_mod_self_left, hmod]
            · rw [← hsum, ← Nat.sub_sub]
              exact ih hreached₂.prepared (hattached.ready hready₁ (by omega))
                (hattached.1.trans_ne (herrno.trans_ne herr)) (hup₂.trans_ne (ptr_parent hset))
                (by omega) (by omega) hk₂
        · rw [herror]
          exact Or.inr (Or.inl ⟨rfl, hwhole, hstuck.mono (by omega)⟩)
        · rw [hok₂]
          dsimp only
          rw [if_pos hends.errno]
          refine Or.inr (Or.inr ⟨_, w₂, rfl, hends.errno, hends.stuck.mono (by omega),
            hends.reached, ?_⟩)
          refine hends.left.imp_right ?_
          rintro ⟨hpart, hfile, rfl⟩
          exact ⟨hpart, hfile, rfl⟩

end Loops

end LaLiga.Rfs
