import Mathlib.Order.Iterate

/-! While loops over an arbitrary state, as the iteration of their body. -/
namespace LaLiga.Lib

variable {σ : Type*} {c : σ → Prop} {f : σ → σ} {s t u : σ}

/-- `while (c) f` started in `s` stops in `t`. A loop that never stops relates
`s` to no state. -/
def Halts (c : σ → Prop) (f : σ → σ) (s t : σ) : Prop :=
  ∃ i, f^[i] s = t ∧ ¬ c t ∧ ∀ j < i, c (f^[j] s)

/-- What the body preserves while the guard holds, the loop preserves. -/
theorem Halts.invariant {I : σ → Prop} (h : Halts c f s t)
    (hI : ∀ x, I x → c x → I (f x)) (hs : I s) : I t := by
  obtain ⟨i, rfl, _, hj⟩ := h
  have hall : ∀ j ≤ i, I (f^[j] s) := by
    intro j
    induction j with
    | zero => intro _; exact hs
    | succ j ih =>
      intro hle
      rw [Function.iterate_succ_apply']
      exact hI _ (ih (by omega)) (hj j (by omega))
  exact hall i le_rfl

theorem Halts.guard (h : Halts c f s t) : ¬ c t := h.choose_spec.2.1

/-- A trap that keeps the guard true is never left. -/
theorem not_halts_of_trap {I : σ → Prop} (hc : ∀ x, I x → c x)
    (hI : ∀ x, I x → I (f x)) (hs : I s) : ¬ Halts c f s t := by
  intro h
  exact h.guard (hc t (h.invariant (fun x hx _ => hI x hx) hs))

/-- A loop whose body goes on with a new state or leaves with a result. It is given a
number of turns, and `stuck` if they do not suffice. -/
def loop {ε α : Type*} (stuck : ε) (body : σ → Except ε (σ ⊕ α)) : Nat → σ → Except ε α
  | 0, _ => .error stuck
  | n + 1, s =>
    match body s with
    | .error e => .error e
    | .ok (.inl t) => loop stuck body n t
    | .ok (.inr a) => .ok a

/-- A loop that returns a result has made a first turn. -/
theorem loop_succ {ε α : Type*} {stuck : ε} {body : σ → Except ε (σ ⊕ α)} {n : Nat} {a : α}
    (h : loop stuck body (n + 1) s = .ok a) :
    body s = .ok (.inr a) ∨ ∃ t, body s = .ok (.inl t) ∧ loop stuck body n t = .ok a := by
  simp only [loop] at h
  split at h
  · simp at h
  · exact Or.inr ⟨_, ‹_›, h⟩
  · obtain rfl := Except.ok.inj h
    exact Or.inl ‹_›

/-- A loop that leaves in its first turn. -/
theorem loop_exit {ε α : Type*} {stuck : ε} {body : σ → Except ε (σ ⊕ α)} {a : α} (n : Nat)
    (h : body s = .ok (.inr a)) : loop stuck body (n + 1) s = .ok a := by
  simp only [loop, h]

/-- The states from which a loop goes on, in order. -/
def passed {ε α : Type*} (body : σ → Except ε (σ ⊕ α)) : Nat → σ → List σ
  | 0, _ => []
  | n + 1, s =>
    match body s with
    | .error _ => []
    | .ok (.inl t) => s :: passed body n t
    | .ok (.inr _) => []

theorem passed_inl {ε α : Type*} {body : σ → Except ε (σ ⊕ α)} {n : Nat}
    (h : body s = .ok (.inl t)) : passed body (n + 1) s = s :: passed body n t := by
  simp only [passed, h]

theorem passed_inr {ε α : Type*} {body : σ → Except ε (σ ⊕ α)} {n : Nat} {a : α}
    (h : body s = .ok (.inr a)) : passed body (n + 1) s = [] := by
  simp only [passed, h]

/-- The states in which a turn of the loop can start. -/
inductive Turns {ε α : Type*} (body : σ → Except ε (σ ⊕ α)) : σ → σ → Prop
  | refl {s : σ} : Turns body s s
  | next {s t u : σ} : Turns body s t → body t = .ok (.inl u) → Turns body s u

/-- A loop that leaves in its first turn has no other. -/
theorem Turns.eq_of_exit {ε α : Type*} {body : σ → Except ε (σ ⊕ α)} {a : α}
    (h : Turns body s t) (hs : body s = .ok (.inr a)) : t = s := by
  induction h with
  | refl => rfl
  | next _ hturn ih =>
    rw [ih, hs] at hturn
    simp at hturn

/-- A loop that returns ends in a state it has reached, with what its turns preserve. -/
theorem loop_turns {ε α : Type*} {stuck : ε} {body : σ → Except ε (σ ⊕ α)} {I : σ → Prop} {a : α}
    (hnext : ∀ t u, Turns body s t → I t → body t = .ok (.inl u) → I u) (hs : I s) :
    ∀ n, loop stuck body n s = .ok a → ∃ t, Turns body s t ∧ I t ∧ body t = .ok (.inr a) := by
  have hall : ∀ n t, Turns body s t → I t → loop stuck body n t = .ok a →
      ∃ t, Turns body s t ∧ I t ∧ body t = .ok (.inr a) := by
    intro n
    induction n with
    | zero => intro t _ _ hloop; simp [loop] at hloop
    | succ n ih =>
      intro t ht hI hloop
      simp only [loop] at hloop
      split at hloop
      · simp at hloop
      · exact ih _ (.next ht ‹_›) (hnext _ _ ht hI ‹_›) hloop
      · obtain rfl := Except.ok.inj hloop
        exact ⟨t, ht, hI, ‹_›⟩
  exact fun n => hall n s .refl hs

/-- A loop that fails has run out of turns, or one of them has failed. -/
theorem loop_error {ε α : Type*} {stuck e : ε} {body : σ → Except ε (σ ⊕ α)} {n : Nat}
    (h : loop stuck body n s = .error e) : e = stuck ∨ ∃ t, Turns body s t ∧ body t = .error e := by
  have hall : ∀ n t, Turns body s t → loop stuck body n t = .error e →
      e = stuck ∨ ∃ t, Turns body s t ∧ body t = .error e := by
    intro n
    induction n with
    | zero =>
      intro t _ hloop
      exact Or.inl (Except.error.inj hloop).symm
    | succ n ih =>
      intro t ht hloop
      simp only [loop] at hloop
      split at hloop
      · obtain rfl := Except.error.inj hloop
        exact Or.inr ⟨t, ht, ‹_›⟩
      · exact ih _ (.next ht ‹_›) hloop
      · simp at hloop
  exact hall n s .refl h

/-- With an invariant that bounds the turns left, the loop ends as its last turn does. -/
theorem loop_bound {ε α : Type*} {stuck : ε} {body : σ → Except ε (σ ⊕ α)} {I : Nat → σ → Prop}
    {R : Except ε α → Prop} (herror : ∀ k s e, I k s → body s = .error e → R (.error e))
    (hnext : ∀ k s t, I k s → body s = .ok (.inl t) → ∃ j < k, I j t)
    (hexit : ∀ k s a, I k s → body s = .ok (.inr a) → R (.ok a)) :
    ∀ n k s, I k s → k < n → R (loop stuck body n s) := by
  intro n
  induction n with
  | zero => intro k s _ hlt; omega
  | succ n ih =>
    intro k s hs hlt
    simp only [loop]
    split
    · exact herror _ _ _ hs ‹_›
    · obtain ⟨j, hj, ht⟩ := hnext _ _ _ hs ‹_›
      exact ih j _ ht (by omega)
    · exact hexit _ _ _ hs ‹_›

/-- The same with a measure of the state. -/
theorem loop_rule {ε α : Type*} {stuck : ε} {body : σ → Except ε (σ ⊕ α)} {I : σ → Prop}
    {R : Except ε α → Prop} (μ : σ → Nat)
    (herror : ∀ s e, I s → body s = .error e → R (.error e))
    (hnext : ∀ s t, I s → body s = .ok (.inl t) → I t ∧ μ t < μ s)
    (hexit : ∀ s a, I s → body s = .ok (.inr a) → R (.ok a)) :
    ∀ n s, I s → μ s < n → R (loop stuck body n s) := by
  intro n s hs hlt
  refine loop_bound (I := fun k s => I s ∧ μ s = k) ?_ ?_ ?_ n (μ s) s ⟨hs, rfl⟩ hlt
  · exact fun k s e h => herror s e h.1
  · rintro k s t ⟨h, rfl⟩ hbody
    obtain ⟨ht, hlt⟩ := hnext s t h hbody
    exact ⟨μ t, hlt, ht, rfl⟩
  · exact fun k s a h => hexit s a h.1

end LaLiga.Lib
