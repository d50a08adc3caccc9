import Mathlib.Tactic

/-! A cache in front of the values that it stands for. -/
namespace LaLiga.Lib

/-- For each key the value set last, unless it was deleted or dropped. -/
abbrev Cache (K V : Type*) := K → Option V

namespace Cache

variable {K V : Type*} [DecidableEq K] {valid valid' : K → V → Prop} {c : Cache K V} {k l : K}
  {v : V}

def empty : Cache K V := fun _ => none

def set (c : Cache K V) (k : K) (v : V) : Cache K V := Function.update c k (some v)

/-- Also what an entry dropped on its own leaves. -/
def delete (c : Cache K V) (k : K) : Cache K V := Function.update c k none

/-- The cache holds valid values only. -/
def Coherent (valid : K → V → Prop) (c : Cache K V) : Prop := ∀ k v, c k = some v → valid k v

omit [DecidableEq K] in
@[simp]
theorem empty_apply : (empty : Cache K V) k = none := rfl

@[simp]
theorem set_self : (c.set k v) k = some v := Function.update_self ..

theorem set_of_ne (h : l ≠ k) : (c.set k v) l = c l := Function.update_of_ne h ..

@[simp]
theorem delete_self : (c.delete k) k = none := Function.update_self ..

theorem delete_of_ne (h : l ≠ k) : (c.delete k) l = c l := Function.update_of_ne h ..

theorem delete_eq_self (h : c k = none) : c.delete k = c := by
  funext l
  by_cases hl : l = k
  · rw [hl, delete_self, h]
  · rw [delete_of_ne hl]

/-- What is still there after a deletion. -/
theorem hit_of_delete (h : (c.delete k) l = some v) : l ≠ k ∧ c l = some v := by
  have hne : l ≠ k := by
    rintro rfl
    rw [delete_self] at h
    cases h
  exact ⟨hne, by rwa [delete_of_ne hne] at h⟩

omit [DecidableEq K] in
theorem coherent_empty : Coherent valid (empty : Cache K V) := by
  intro k v h
  cases h

/-- A value set when it is valid keeps the cache coherent. -/
theorem Coherent.set (h : Coherent valid c) (hv : valid k v) : Coherent valid (c.set k v) := by
  intro l w hl
  by_cases hk : l = k
  · subst hk
    rw [set_self, Option.some.injEq] at hl
    exact hl ▸ hv
  · exact h l w (by rwa [set_of_ne hk] at hl)

/-- The truth may change for the keys that are deleted, and for those not kept at all. -/
theorem Coherent.delete (h : Coherent valid c)
    (hc : ∀ l w, l ≠ k → c l = some w → valid l w → valid' l w) :
    Coherent valid' (c.delete k) := by
  intro l w hl
  by_cases hk : l = k
  · subst hk
    rw [delete_self] at hl
    cases hl
  · rw [delete_of_ne hk] at hl
    exact hc l w hk hl (h l w hl)

omit [DecidableEq K] in
theorem Coherent.change (h : Coherent valid c)
    (hc : ∀ l w, c l = some w → valid l w → valid' l w) : Coherent valid' c :=
  fun l w hl => hc l w hl (h l w hl)

theorem Coherent.drop (h : Coherent valid c) (k : K) : Coherent valid (c.delete k) :=
  h.delete fun _ _ _ _ hv => hv

/-- What can happen to a cache; it drops entries on its own. -/
inductive Event (K V : Type*)
  | set (k : K) (v : V)
  | delete (k : K)
  | drop (k : K)
  | clear

def Event.concerns (k : K) : Event K V → Bool
  | .set l _ => l = k
  | .delete l => l = k
  | .drop l => l = k
  | .clear => true

def apply (c : Cache K V) : Event K V → Cache K V
  | .set k v => c.set k v
  | .delete k => c.delete k
  | .drop k => c.delete k
  | .clear => empty

/-- The cache after a history, the oldest event first. -/
def replay (es : List (Event K V)) : Cache K V := es.foldl apply empty

variable {e : Event K V} {es fs : List (Event K V)}

theorem apply_of_not_concerns (h : e.concerns k = false) : (c.apply e) k = c k := by
  cases e with
  | set l v => exact set_of_ne (by simpa [Event.concerns, eq_comm] using h)
  | delete l => exact delete_of_ne (by simpa [Event.concerns, eq_comm] using h)
  | drop l => exact delete_of_ne (by simpa [Event.concerns, eq_comm] using h)
  | clear => simp [Event.concerns] at h

/-- An event that concerns a key leaves it a value only if it sets one. -/
theorem apply_of_concerns (h : e.concerns k = true) : (c.apply e) k = some v ↔ e = .set k v := by
  cases e with
  | set l w =>
    obtain rfl : l = k := by simpa [Event.concerns] using h
    simp [apply]
  | delete l =>
    obtain rfl : l = k := by simpa [Event.concerns] using h
    simp [apply]
  | drop l =>
    obtain rfl : l = k := by simpa [Event.concerns] using h
    simp [apply]
  | clear => simp [apply]

theorem foldl_apply_of_not_concerns (h : ∀ e ∈ es, e.concerns k = false) :
    (es.foldl apply c) k = c k := by
  induction es generalizing c with
  | nil => rfl
  | cons e es ih =>
    rw [List.foldl_cons, ih fun f hf => h f (by simp [hf]), apply_of_not_concerns (h e (by simp))]

/-- What a key is left with only depends on what it had. -/
theorem foldl_apply_congr {c' : Cache K V} (h : c k = c' k) :
    (es.foldl apply c) k = (es.foldl apply c') k := by
  induction es generalizing c c' with
  | nil => exact h
  | cons e es ih =>
    refine ih ?_
    cases hc : e.concerns k with
    | false => rw [apply_of_not_concerns hc, apply_of_not_concerns hc, h]
    | true =>
      apply Option.ext
      intro v
      rw [apply_of_concerns hc, apply_of_concerns hc]

/-- An entry that is gone does not come back by others being dropped. -/
theorem foldl_drop {ks : List K} (h : c k = none) :
    ((ks.map (Event.drop (V := V))).foldl apply c) k = none := by
  induction ks generalizing c with
  | nil => exact h
  | cons l ks ih =>
    refine ih ?_
    by_cases hl : k = l
    · rw [hl]
      exact delete_self
    · exact (delete_of_ne hl).trans h

theorem replay_append : replay (es ++ fs) = fs.foldl apply (replay es) := List.foldl_append

/-- A key has the value that the last event concerning it has set, if it was one that sets. -/
theorem replay_eq_some : replay es k = some v ↔
    (es.filter (Event.concerns k)).getLast? = some (.set k v) := by
  induction es using List.reverseRecOn with
  | nil => simp [replay]
  | append_singleton es e ih =>
    rw [replay_append, List.filter_append]
    cases hc : e.concerns k with
    | true => simp [hc, apply_of_concerns hc]
    | false => simp [hc, apply_of_not_concerns hc, ih]

end Cache

end LaLiga.Lib
