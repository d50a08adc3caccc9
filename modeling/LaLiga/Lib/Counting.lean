import Mathlib.Tactic
import Mathlib.Algebra.BigOperators.Group.Finset.Basic

/-! Sums and counts in which one term changes. -/
namespace LaLiga.Lib

variable {ι β : Type*} [DecidableEq ι]

theorem sum_change {S : Finset ι} {F G : ι → Nat} {i : ι} (hi : i ∈ S)
    (h : ∀ x ∈ S, x ≠ i → G x = F x) : ∑ x ∈ S, G x + F i = ∑ x ∈ S, F x + G i := by
  rw [← Finset.add_sum_erase S G hi, ← Finset.add_sum_erase S F hi]
  have : ∑ x ∈ S.erase i, G x = ∑ x ∈ S.erase i, F x :=
    Finset.sum_congr rfl (fun x hx => h x (Finset.mem_of_mem_erase hx) (Finset.ne_of_mem_erase hx))
  omega

/-- Summing a measure of the local states when one of them is replaced. -/
theorem sum_update [Fintype ι] (f : β → Nat) (p : ι → β) (i : ι) (b : β) :
    ∑ x, f (Function.update p i b x) + f (p i) = ∑ x, f (p x) + f b := by
  have h := sum_change (S := Finset.univ) (F := fun x => f (p x))
    (G := fun x => f (Function.update p i b x)) (Finset.mem_univ i)
    (fun x _ hx => by simp [Function.update_of_ne hx])
  simpa using h

omit [DecidableEq ι] in
theorem le_sum_term [Fintype ι] (f : ι → Nat) (i : ι) : f i ≤ ∑ x, f x :=
  Finset.single_le_sum (fun _ _ => Nat.zero_le _) (Finset.mem_univ i)

/-- Fewer are counted when one of them is no more and none is added. -/
theorem countP_lt {α : Type*} {l : List α} {p q : α → Bool} {a : α}
    (h : ∀ x ∈ l, q x = true → p x = true) (ha : a ∈ l) (hp : p a = true) (hq : q a = false) :
    l.countP q < l.countP p := by
  obtain ⟨u, v, rfl⟩ := List.append_of_mem ha
  have hu : u.countP q ≤ u.countP p := List.countP_mono_left fun x hx => h x (by simp [hx])
  have hv : v.countP q ≤ v.countP p := List.countP_mono_left fun x hx => h x (by simp [hx])
  rw [List.countP_append, List.countP_append, List.countP_cons_of_pos hp,
    List.countP_cons_of_neg (by simp [hq])]
  omega

end LaLiga.Lib
