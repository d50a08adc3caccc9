import Mathlib.Data.List.MinMax

/-! Scans that keep the first least element among those that pass a test. -/
namespace LaLiga.Lib

variable {α β : Type*} [LinearOrder β] {p : α → Bool} {f : α → β} {b : α} {l : List α}

/-- A scan with a best element so far returns the first least of those it has seen. -/
theorem argmin_cons_filter : (b :: l.filter p).argmin f =
    some (l.foldl (fun b x => if p x = true ∧ f x < f b then x else b) b) := by
  induction l generalizing b with
  | nil => rfl
  | cons x l ih =>
    by_cases hp : p x = true
    · by_cases hlt : f x < f b
      · have hx := ih (b := x)
        rw [List.foldl_cons, if_pos ⟨hp, hlt⟩, ← hx, List.filter_cons_of_pos hp]
        simp [List.argmin, List.argAux, hlt]
      · have hb := ih (b := b)
        rw [List.foldl_cons, if_neg (fun h => hlt h.2), ← hb, List.filter_cons_of_pos hp]
        simp [List.argmin, List.argAux, hlt]
    · rw [List.foldl_cons, if_neg (fun h => hp h.1), List.filter_cons_of_neg hp]
      exact ih

/-- A scan that starts at the first element that passes. -/
theorem argmin_filter_of_find (h : l.find? p = some b) : ∃ u v, l = u ++ b :: v ∧
    (l.filter p).argmin f =
      some ((b :: v).foldl (fun b x => if p x = true ∧ f x < f b then x else b) b) := by
  obtain ⟨hb, u, v, rfl, hu⟩ := List.find?_eq_some_iff_append.mp h
  refine ⟨u, v, rfl, ?_⟩
  have hnone : u.filter p = [] := List.filter_eq_nil_iff.mpr fun x hx => by simpa using hu x hx
  rw [List.filter_append, hnone, List.nil_append, List.filter_cons_of_pos hb, argmin_cons_filter,
    List.foldl_cons, if_neg (fun h => lt_irrefl _ h.2)]

end LaLiga.Lib
