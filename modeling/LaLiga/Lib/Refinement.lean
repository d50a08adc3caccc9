import LaLiga.Lib.Loop
import LaLiga.Lib.Transition

/-! Two programs side by side: related outcomes, loops in lock step and forward simulation. -/
namespace LaLiga.Lib

section Outcomes

variable {ε α β σ τ : Type*} {R : σ → τ → Prop} {S : α → β → Prop} {r : Except ε α}
  {r' : Except ε β} {a : α}

/-- The same error, or related results. -/
inductive Matches (S : α → β → Prop) : Except ε α → Except ε β → Prop
  | error (e : ε) : Matches S (.error e) (.error e)
  | ok {a : α} {b : β} : S a b → Matches S (.ok a) (.ok b)

theorem Matches.cases (h : Matches S r r') :
    (∃ e, r = .error e ∧ r' = .error e) ∨ ∃ a b, r = .ok a ∧ r' = .ok b ∧ S a b := by
  cases h with
  | error e => exact Or.inl ⟨e, rfl, rfl⟩
  | ok hS => exact Or.inr ⟨_, _, rfl, rfl, hS⟩

theorem Matches.of_ok (h : Matches S r r') (hr : r = .ok a) : ∃ b, r' = .ok b ∧ S a b := by
  cases h with
  | error e => cases hr
  | ok hS =>
    obtain rfl := Except.ok.inj hr
    exact ⟨_, rfl, hS⟩

/-- Loops whose turns match do. -/
theorem loop_matches {stuck : ε} {body : σ → Except ε (σ ⊕ α)} {body' : τ → Except ε (τ ⊕ β)}
    (h : ∀ s t, R s t → Matches (Sum.LiftRel R S) (body s) (body' t)) (n : Nat) {s : σ} {t : τ}
    (hst : R s t) : Matches S (loop stuck body n s) (loop stuck body' n t) := by
  induction n generalizing s t with
  | zero => exact .error stuck
  | succ n ih =>
    rw [loop, loop]
    rcases (h s t hst).cases with ⟨e, hs, ht⟩ | ⟨x, y, hs, ht, hxy⟩
    · rw [hs, ht]
      exact .error e
    · rw [hs, ht]
      cases hxy with
      | inl hnext => exact ih hnext
      | inr hdone => exact .ok hdone

end Outcomes

section Simulation

variable {σ τ α : Type*} {step : σ → α → σ → Prop} {step' : τ → α → τ → Prop}
  {R : σ → τ → Prop} {s s' : σ} {t : τ} {xs : List α}

/-- From related states, each step is one of the other system, and leads to related states. -/
def Simulated (R : σ → τ → Prop) (step : σ → α → σ → Prop) (step' : τ → α → τ → Prop) : Prop :=
  ∀ s a s' t, R s t → step s a s' → ∃ t', step' t a t' ∧ R s' t'

/-- A run of the one system is a run of the other, with the same labels. -/
theorem Simulated.trace (h : Simulated R step step') (hrun : Trace step s xs s') (hst : R s t) :
    ∃ t', Trace step' t xs t' ∧ R s' t' := by
  induction hrun generalizing t with
  | refl => exact ⟨t, .refl, hst⟩
  | stepL hstep _ ih =>
    obtain ⟨u, hu, hrel⟩ := h _ _ _ _ hst hstep
    obtain ⟨t', ht', hrel'⟩ := ih hrel
    exact ⟨t', .stepL hu ht', hrel'⟩

end Simulation

end LaLiga.Lib
