import Mathlib.Tactic
import Mathlib.Data.Finset.Card
import Mathlib.Order.Interval.Finset.Nat

/-! Bitmaps: the clear positions of a range and the scan that takes the first ones. -/
namespace LaLiga.Lib

/-- Clear positions among the `n` ones from `i` on. -/
def clearIn (bits : Nat → Bool) (i n : Nat) : Finset Nat :=
  (Finset.Ico i (i + n)).filter (fun j => bits j = false)

/-- Scan `n` positions from `i` on and take the first `k` clear ones, setting them. -/
def takeClear : Nat → Nat → Nat → (Nat → Bool) → List Nat × (Nat → Bool)
  | 0, _, _, bits => ([], bits)
  | n + 1, i, k, bits =>
    if k = 0 then ([], bits)
    else if bits i then takeClear n (i + 1) k bits
    else
      let r := takeClear n (i + 1) (k - 1) (Function.update bits i true)
      (i :: r.1, r.2)

variable {f : Nat → Bool} {i j k m n : Nat}

theorem mem_clearIn : j ∈ clearIn f i n ↔ (i ≤ j ∧ j < i + n) ∧ f j = false := by
  simp [clearIn]

theorem clearIn_succ_of_set (h : f i = true) :
    clearIn f i (n + 1) = clearIn f (i + 1) n := by
  ext j
  simp only [mem_clearIn]
  constructor
  · rintro ⟨⟨hij, hjn⟩, hb⟩
    have : j ≠ i := by rintro rfl; simp [h] at hb
    exact ⟨by omega, hb⟩
  · rintro ⟨hj, hb⟩
    exact ⟨by omega, hb⟩

theorem clearIn_succ_of_clear (h : f i = false) :
    clearIn f i (n + 1) = insert i (clearIn f (i + 1) n) := by
  ext j
  simp only [Finset.mem_insert, mem_clearIn]
  constructor
  · rintro ⟨hj, hb⟩
    rcases Nat.eq_or_lt_of_le hj.1 with rfl | hlt
    · exact Or.inl rfl
    · exact Or.inr ⟨by omega, hb⟩
  · rintro (rfl | ⟨hj, hb⟩)
    · exact ⟨by omega, h⟩
    · exact ⟨by omega, hb⟩

theorem clearIn_update_below (h : i < j) :
    clearIn (Function.update f i true) j n = clearIn f j n := by
  ext l
  simp only [mem_clearIn]
  constructor <;> rintro ⟨hl, hb⟩ <;> refine ⟨hl, ?_⟩ <;>
    simpa [Function.update_of_ne (show l ≠ i by omega)] using hb

theorem card_clearIn_succ_of_clear (h : f i = false) :
    (clearIn f i (n + 1)).card = (clearIn f (i + 1) n).card + 1 := by
  rw [clearIn_succ_of_clear h, Finset.card_insert_of_notMem]
  simp [mem_clearIn]

/-- The scan takes clear positions of its range, each once. -/
theorem mem_takeClear (h : j ∈ (takeClear n i k f).1) : j ∈ clearIn f i n := by
  induction n generalizing i k f with
  | zero => simp [takeClear] at h
  | succ n ih =>
    simp only [takeClear] at h
    split_ifs at h with hk hb
    · simp at h
    · rw [clearIn_succ_of_set hb]
      exact ih h
    · have hb : f i = false := by simpa using hb
      rw [clearIn_succ_of_clear hb, Finset.mem_insert]
      rcases List.mem_cons.mp h with rfl | h
      · exact Or.inl rfl
      · exact Or.inr (by simpa [clearIn_update_below] using ih h)

theorem takeClear_nodup : (takeClear n i k f).1.Nodup := by
  induction n generalizing i k f with
  | zero => simp [takeClear]
  | succ n ih =>
    simp only [takeClear]
    split_ifs with hk hb
    · exact List.nodup_nil
    · exact ih
    · refine List.nodup_cons.mpr ⟨?_, ih⟩
      intro hmem
      have := (mem_clearIn.mp (mem_takeClear hmem)).1
      omega

/-- It takes the lowest ones. -/
theorem takeClear_lowest (hj : j ∈ (takeClear n i k f).1) (hm : m ∈ clearIn f i n) (hlt : m < j) :
    m ∈ (takeClear n i k f).1 := by
  induction n generalizing i k f with
  | zero => simp [takeClear] at hj
  | succ n ih =>
    simp only [takeClear] at hj ⊢
    split_ifs at hj ⊢ with hk hb
    · simp at hj
    · rw [clearIn_succ_of_set hb] at hm
      exact ih hj hm
    · have hb : f i = false := by simpa using hb
      rw [clearIn_succ_of_clear hb, Finset.mem_insert] at hm
      rcases hm with rfl | hm
      · exact List.mem_cons_self
      · have hlo := (mem_clearIn.mp hm).1.1
        rcases List.mem_cons.mp hj with rfl | hj
        · omega
        · exact List.mem_cons_of_mem _ (ih hj (by rwa [clearIn_update_below (by omega)]))

/-- It stops short only when the range runs out of clear positions. -/
theorem length_takeClear :
    (takeClear n i k f).1.length = min k (clearIn f i n).card := by
  induction n generalizing i k f with
  | zero => simp [takeClear, clearIn]
  | succ n ih =>
    simp only [takeClear]
    split_ifs with hk hb
    · simp [hk]
    · rw [ih, clearIn_succ_of_set hb]
    · have hb : f i = false := by simpa using hb
      rw [List.length_cons, ih, clearIn_update_below (show i < i + 1 by omega),
        card_clearIn_succ_of_clear hb]
      omega

/-- Exactly the taken positions are set. -/
theorem takeClear_bits (l : Nat) :
    (takeClear n i k f).2 l = (f l || decide (l ∈ (takeClear n i k f).1)) := by
  induction n generalizing i k f with
  | zero => simp [takeClear]
  | succ n ih =>
    simp only [takeClear]
    split_ifs with hk hb
    · simp
    · exact ih
    · rw [ih]
      by_cases hl : l = i
      · subst hl; simp
      · simp [hl]

/-- Taking removes the taken positions from the clear ones of any range. -/
theorem clearIn_takeClear (lo m : Nat) :
    clearIn (takeClear n i k f).2 lo m =
      clearIn f lo m \ (takeClear n i k f).1.toFinset := by
  ext l
  simp only [mem_clearIn, Finset.mem_sdiff, List.mem_toFinset, takeClear_bits,
    Bool.or_eq_false_iff, decide_eq_false_iff_not]
  tauto

theorem card_clearIn_takeClear :
    (clearIn (takeClear n i k f).2 i n).card =
      (clearIn f i n).card - (takeClear n i k f).1.length := by
  rw [clearIn_takeClear, Finset.card_sdiff_of_subset, List.toFinset_card_of_nodup takeClear_nodup]
  intro j hj
  exact mem_takeClear (List.mem_toFinset.mp hj)

/-- A scan that finds all it asks for in a range reads no further. -/
theorem takeClear_enough {N : Nat} (hN : n ≤ N) (h : k ≤ (clearIn f i n).card) :
    takeClear N i k f = takeClear n i k f := by
  induction n generalizing i k N f with
  | zero =>
    have hk : k = 0 := by simpa [clearIn] using h
    subst hk
    cases N <;> simp [takeClear]
  | succ n ih =>
    obtain ⟨N, rfl⟩ : ∃ M, N = M + 1 := ⟨N - 1, by omega⟩
    have hle : n ≤ N := Nat.le_of_succ_le_succ hN
    simp only [takeClear]
    split_ifs with hk hb
    · rfl
    · rw [clearIn_succ_of_set hb] at h
      exact ih hle h
    · have hb : f i = false := by simpa using hb
      rw [card_clearIn_succ_of_clear hb] at h
      have hrest : k - 1 ≤ (clearIn (Function.update f i true) (i + 1) n).card := by
        rw [clearIn_update_below (show i < i + 1 by omega)]
        omega
      rw [ih hle hrest]

/-- The scan for one position takes the first clear one of any range it starts with. -/
theorem takeClear_one {N : Nat} (hN : n ≤ N) (h : (clearIn f i n).Nonempty) :
    ∃ j ∈ clearIn f i n, (∀ l ∈ clearIn f i n, j ≤ l) ∧
      takeClear N i 1 f = ([j], Function.update f j true) := by
  induction n generalizing i N with
  | zero => simp [clearIn] at h
  | succ n ih =>
    obtain ⟨N, rfl⟩ : ∃ M, N = M + 1 := ⟨N - 1, by omega⟩
    simp only [takeClear, one_ne_zero, if_false]
    cases hb : f i with
    | true =>
      rw [clearIn_succ_of_set hb] at h ⊢
      obtain ⟨j, hj, hfirst, htake⟩ := ih (Nat.le_of_succ_le_succ hN) h
      exact ⟨j, hj, hfirst, by simpa using htake⟩
    | false =>
      refine ⟨i, mem_clearIn.mpr ⟨by omega, hb⟩, fun l hl => (mem_clearIn.mp hl).1.1, ?_⟩
      cases N <;> simp [takeClear]

/-- Clearing one set bit of the range adds it to the clear ones. -/
theorem card_clearIn_update_false (hj : i ≤ j ∧ j < i + n) (h : f j = true) :
    (clearIn (Function.update f j false) i n).card = (clearIn f i n).card + 1 := by
  have hins : clearIn (Function.update f j false) i n = insert j (clearIn f i n) := by
    ext l
    simp only [Finset.mem_insert, mem_clearIn]
    by_cases hl : l = j
    · subst hl; simp [hj]
    · simp [hl]
  rw [hins, Finset.card_insert_of_notMem]
  simp [mem_clearIn, h]

end LaLiga.Lib
