import Mathlib.Tactic

/-! Labelled transition systems: finite runs, reachable states and invariants. -/
namespace LaLiga.Lib

variable {σ α : Type*} {init : σ → Prop} {step : σ → α → σ → Prop} {cond : σ → α → Prop}
  {s t u : σ} {a : α} {xs ys : List α}

/-- Finite runs, with the labels of their steps in order. -/
inductive Trace (step : σ → α → σ → Prop) : σ → List α → σ → Prop
  | refl {s : σ} : Trace step s [] s
  | stepL {s t u : σ} {a : α} {xs : List α} :
      step s a t → Trace step t xs u → Trace step s (a :: xs) u

def Reachable (init : σ → Prop) (step : σ → α → σ → Prop) (t : σ) : Prop :=
  ∃ s xs, init s ∧ Trace step s xs t

/-- The system all of whose steps start in a state that meets `cond`. -/
def Guarded (cond : σ → α → Prop) (step : σ → α → σ → Prop) (s : σ) (a : α) (t : σ) : Prop :=
  cond s a ∧ step s a t

theorem Trace.single (h : step s a t) : Trace step s [a] t := .stepL h .refl

theorem Trace.append (h : Trace step s xs t) (k : Trace step t ys u) :
    Trace step s (xs ++ ys) u := by
  induction h with
  | refl => exact k
  | stepL h _ ih => exact .stepL h (ih k)

theorem Trace.snoc (h : Trace step s xs t) (k : step t a u) : Trace step s (xs ++ [a]) u :=
  h.append (.single k)

/-- The step that a label of a run stands for. -/
theorem Trace.split (h : Trace step s (xs ++ a :: ys) u) :
    ∃ t t', Trace step s xs t ∧ step t a t' ∧ Trace step t' ys u := by
  induction xs generalizing s with
  | nil =>
    cases h with
    | stepL h k => exact ⟨_, _, .refl, h, k⟩
  | cons b xs ih =>
    cases h with
    | stepL h k =>
      obtain ⟨t, t', hx, hstep, hy⟩ := ih k
      exact ⟨t, t', .stepL h hx, hstep, hy⟩

theorem Trace.invariant {I : σ → Prop} (h : Trace step s xs t)
    (hI : ∀ u a v, I u → step u a v → I v) (hs : I s) : I t := by
  induction h with
  | refl => exact hs
  | stepL h _ ih => exact ih (hI _ _ _ hs h)

theorem Trace.mono {step' : σ → α → σ → Prop} (h : Trace step s xs t)
    (hle : ∀ u a v, step u a v → step' u a v) : Trace step' s xs t := by
  induction h with
  | refl => exact .refl
  | stepL h _ ih => exact .stepL (hle _ _ _ h) ih

theorem reachable_init (h : init s) : Reachable init step s := ⟨s, [], h, .refl⟩

theorem reachable_step (h : Reachable init step s) (k : step s a t) : Reachable init step t := by
  obtain ⟨s₀, xs, h0, hx⟩ := h
  exact ⟨s₀, xs ++ [a], h0, hx.snoc k⟩

theorem reachable_trace (h : Reachable init step s) (k : Trace step s xs t) :
    Reachable init step t := by
  obtain ⟨s₀, ys, h0, hy⟩ := h
  exact ⟨s₀, ys ++ xs, h0, hy.append k⟩

/-- What holds initially and survives every step holds of every reachable state. -/
theorem Reachable.invariant {I : σ → Prop} (h : Reachable init step t)
    (h0 : ∀ s, init s → I s) (hI : ∀ u a v, I u → step u a v → I v) : I t := by
  obtain ⟨s, xs, hs, hx⟩ := h
  exact hx.invariant hI (h0 s hs)

end LaLiga.Lib
