import Mathlib.Tactic

/-! Computations that end with a result or an error, and what they end in. -/
namespace LaLiga.Lib

universe u v

variable {α β : Type u} {ε : Type v} {x : Except ε α} {f : α → Except ε β} {e : ε} {a : α} {b : β}
  {allowed : ε → Prop} {post post' : α → Prop} {next : β → Prop}

theorem bind_eq_ok : (x >>= f) = .ok b ↔ ∃ a, x = .ok a ∧ f a = .ok b := by
  cases x <;> simp [bind, Except.bind]

theorem ok_bind : (Except.ok a >>= f) = f a := rfl

theorem error_bind : (Except.error e >>= f) = .error e := rfl

/-- The error that a computation ends in. -/
def error_of : Except ε α → Option ε
  | .ok _ => none
  | .error e => some e

theorem error_of_eq_some : error_of x = some e ↔ x = .error e := by
  cases x <;> simp [error_of]

theorem error_of_eq_none : error_of x = none ↔ ∃ a, x = .ok a := by
  cases x <;> simp [error_of]

/-- The result meets `post`, or `allowed` has the error. -/
def Ends (allowed : ε → Prop) (post : α → Prop) (x : Except ε α) : Prop :=
  (∀ a, x = .ok a → post a) ∧ ∀ e, x = .error e → allowed e

theorem Ends.of_ok (h : Ends allowed post x) (hx : x = .ok a) : post a := h.1 a hx

theorem Ends.of_error (h : Ends allowed post x) (hx : x = .error e) : allowed e := h.2 e hx

theorem Ends.ok (h : post a) : Ends allowed post (.ok a : Except ε α) := by
  refine ⟨?_, fun e he => by cases he⟩
  intro a' ha'
  cases ha'
  exact h

theorem Ends.pure (h : post a) : Ends allowed post (Pure.pure a : Except ε α) := Ends.ok h

theorem Ends.error (h : allowed e) : Ends allowed post (.error e : Except ε α) := by
  refine ⟨fun a ha => (by cases ha), ?_⟩
  intro e' he'
  cases he'
  exact h

theorem Ends.mono (h : Ends allowed post x) (himp : ∀ a, post a → post' a) :
    Ends allowed post' x :=
  ⟨fun a ha => himp a (h.of_ok ha), h.2⟩

theorem Ends.weaken {allowed' : ε → Prop} (h : Ends allowed post x)
    (himp : ∀ e, allowed e → allowed' e) : Ends allowed' post x :=
  ⟨h.1, fun e he => himp e (h.of_error he)⟩

theorem Ends.bind (h : Ends allowed post x)
    (hf : ∀ a, x = .ok a → post a → Ends allowed next (f a)) : Ends allowed next (x >>= f) := by
  cases x with
  | error e => exact .error (h.of_error rfl)
  | ok a => exact hf a rfl (h.of_ok rfl)

end LaLiga.Lib
