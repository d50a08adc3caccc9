import Mathlib.Tactic

/-! A countdown that each attempt lowers and that is reloaded when it is used. -/
namespace LaLiga.Lib

/-- The countdown after an attempt, and whether it was used: at zero, if the attempt allows. -/
def tick (X c : Int) (allowed : Bool) : Int × Bool :=
  let c := if 0 < c then c - 1 else c
  if c == 0 && allowed then (X, true) else (c, false)

/-- The attempts that use the countdown. -/
def uses (X : Int) : Int → List Bool → List Bool
  | _, [] => []
  | c, b :: bs => (tick X c b).2 :: uses X (tick X c b).1 bs

/-- The countdown behind a list of attempts. -/
def countdown (X : Int) : Int → List Bool → Int
  | c, [] => c
  | c, b :: bs => countdown X (tick X c b).1 bs

variable {X c : Int} {b : Bool} {bs bs' : List Bool} {i j k : Nat}

theorem uses_append : uses X c (bs ++ bs') = uses X c bs ++ uses X (countdown X c bs) bs' := by
  induction bs generalizing c with
  | nil => rfl
  | cons b bs ih => simp [uses, countdown, ih]

theorem countdown_append : countdown X c (bs ++ bs') = countdown X (countdown X c bs) bs' := by
  induction bs generalizing c with
  | nil => rfl
  | cons b bs ih => simp [countdown, ih]

/-- An attempt that uses the countdown was allowed to, and reloads it. -/
theorem tick_used (h : (tick X c b).2 = true) : b = true ∧ (tick X c b).1 = X := by
  cases b with
  | false => simp [tick] at h
  | true =>
    simp only [tick, Bool.and_true] at h ⊢
    cases hzero : ((if 0 < c then c - 1 else c) == 0) <;> simp_all

theorem tick_unused (h : ¬ (tick X c b).2 = true) :
    (tick X c b).1 = if 0 < c then c - 1 else c := by
  simp only [tick] at h ⊢
  cases hfire : ((if 0 < c then c - 1 else c) == 0 && b) <;> simp_all

/-- The least attempt that may, below a bound. -/
theorem exists_first (h : bs[i]? = some true) :
    ∃ k ≤ i, bs[k]? = some true ∧ ∀ j < k, bs[j]? = some false := by
  induction i using Nat.strong_induction_on with
  | _ i ih =>
    by_cases hall : ∀ j < i, bs[j]? = some false
    · exact ⟨i, le_rfl, h, hall⟩
    · push Not at hall
      obtain ⟨j, hj, hne⟩ := hall
      have hlen : i < bs.length := (List.getElem?_eq_some_iff.mp h).1
      have htrue : bs[j]? = some true := by
        rw [List.getElem?_eq_getElem (by omega : j < bs.length)] at hne ⊢
        cases hb : bs[j] with
        | true => rfl
        | false => exact absurd (congrArg some hb) hne
      obtain ⟨k, hk, hrest⟩ := ih j hj htrue
      exact ⟨k, by omega, hrest⟩

end LaLiga.Lib
