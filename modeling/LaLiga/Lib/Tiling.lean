import Mathlib.Tactic

/-! Lists of pieces that lie one behind the other. -/
namespace LaLiga.Lib

variable {α : Type*} {start start' : α → Option Nat} {len len' : α → Nat} {l u v : List α}
  {x : α} {o e : Nat}

/-- The pieces of the list fill the interval from `o` to `e` in order. -/
def Tiles (start : α → Option Nat) (len : α → Nat) : Nat → List α → Nat → Prop
  | o, [], e => o = e
  | o, x :: l, e => start x = some o ∧ Tiles start len (o + len x) l e

theorem tiles_append : Tiles start len o (u ++ v) e ↔
    ∃ m, Tiles start len o u m ∧ Tiles start len m v e := by
  induction u generalizing o with
  | nil => simp [Tiles]
  | cons x u ih =>
    simp only [List.cons_append, Tiles, ih]
    constructor
    · rintro ⟨hx, m, hu, hv⟩
      exact ⟨m, ⟨hx, hu⟩, hv⟩
    · rintro ⟨m, ⟨hx, hu⟩, hv⟩
      exact ⟨hx, m, hu, hv⟩

theorem Tiles.congr (h : Tiles start len o l e) (hs : ∀ x ∈ l, start' x = start x)
    (hl : ∀ x ∈ l, len' x = len x) : Tiles start' len' o l e := by
  induction l generalizing o with
  | nil => exact h
  | cons x l ih =>
    refine ⟨by rw [hs x (by simp), h.1], ?_⟩
    rw [hl x (by simp)]
    exact ih h.2 (fun y hy => hs y (by simp [hy])) (fun y hy => hl y (by simp [hy]))

/-- A piece gives the rest of it to a new one behind it. -/
theorem Tiles.divide {y : α} (h : Tiles start len o (u ++ x :: v) e)
    (hs : ∀ z ∈ u ++ v, start' z = start z) (hl : ∀ z ∈ u ++ v, len' z = len z)
    (hx : start' x = start x) (hy : start' y = (start x).map (· + len' x))
    (hlen : len' x + len' y = len x) : Tiles start' len' o (u ++ x :: y :: v) e := by
  obtain ⟨m, hu, hm, hv⟩ := tiles_append.mp h
  refine tiles_append.mpr ⟨m, ?_, hx.trans hm, ?_, ?_⟩
  · exact hu.congr (fun z hz => hs z (by simp [hz])) (fun z hz => hl z (by simp [hz]))
  · rw [hy, hm, Option.map_some]
  · rw [Nat.add_assoc, hlen]
    exact hv.congr (fun z hz => hs z (by simp [hz])) (fun z hz => hl z (by simp [hz]))

theorem Tiles.end_eq (h : Tiles start len o l e) : e = o + (l.map len).sum := by
  induction l generalizing o with
  | nil => simpa using Eq.symm h
  | cons x l ih =>
    rw [ih h.2, List.map_cons, List.sum_cons]
    omega

/-- The first piece starts where the interval does. -/
theorem Tiles.start_eq (h : Tiles start len o l e) (hx : l.head? = some x) : start x = some o := by
  cases l with
  | nil => simp at hx
  | cons y l =>
    obtain rfl : y = x := by simpa using hx
    exact h.1

theorem Tiles.le (h : Tiles start len o l e) : o ≤ e := by
  rw [h.end_eq]
  omega

/-- Where a piece starts and what it covers. -/
theorem Tiles.piece (h : Tiles start len o (u ++ x :: v) e) :
    ∃ m, Tiles start len o u m ∧ start x = some m ∧ Tiles start len (m + len x) v e := by
  obtain ⟨m, hu, hx, hv⟩ := tiles_append.mp h
  exact ⟨m, hu, hx, hv⟩

/-- A piece lies between the ends of the interval. -/
theorem Tiles.bounds {a : Nat} (h : Tiles start len o l e) (hx : x ∈ l)
    (ha : start x = some a) : o ≤ a ∧ a + len x ≤ e := by
  obtain ⟨u, v, rfl⟩ := List.append_of_mem hx
  obtain ⟨m, hu, hm, hv⟩ := h.piece
  obtain rfl := Option.some.inj (ha.symm.trans hm)
  exact ⟨hu.le, hv.le⟩

/-- Pieces that are not empty start before the end. -/
theorem Tiles.start_lt {a : Nat} (h : Tiles start len o l e) (hpos : ∀ y ∈ l, 0 < len y)
    (hx : x ∈ l) (ha : start x = some a) : a < e := by
  have hend := (h.bounds hx ha).2
  have := hpos x hx
  omega

/-- Every point of the interval lies in a piece. -/
theorem Tiles.cover {a : Nat} (h : Tiles start len o l e) (hle : o ≤ a) (hlt : a < e) :
    ∃ u x v m, l = u ++ x :: v ∧ Tiles start len o u m ∧ start x = some m ∧
      Tiles start len (m + len x) v e ∧ m ≤ a ∧ a < m + len x := by
  induction l generalizing o with
  | nil =>
    obtain rfl : o = e := h
    omega
  | cons x l ih =>
    obtain ⟨hx, hl⟩ := h
    by_cases ha : a < o + len x
    · exact ⟨[], x, l, o, rfl, rfl, hx, hl, hle, ha⟩
    · obtain ⟨u, y, v, m, rfl, hu, hy, hv, hin⟩ := ih hl (by omega)
      exact ⟨x :: u, y, v, m, rfl, ⟨hx, hu⟩, hy, hv, hin⟩

/-- Pieces that are not shorter than `k` are not more than fit. -/
theorem Tiles.length_mul_le {k : Nat} (h : Tiles start len o l e) (hk : ∀ x ∈ l, k ≤ len x) :
    l.length * k ≤ e - o := by
  have hsum : l.length * k ≤ (l.map len).sum := by
    have := List.card_nsmul_le_sum (l.map len) k (by simpa using hk)
    simpa using this
  rw [h.end_eq]
  omega

/-- Two pieces do not overlap. -/
theorem Tiles.disjoint {y : α} {a b : Nat} (h : Tiles start len o l e) (hx : x ∈ l) (hy : y ∈ l)
    (hne : x ≠ y) (ha : start x = some a) (hb : start y = some b) :
    a + len x ≤ b ∨ b + len y ≤ a := by
  obtain ⟨u, v, rfl⟩ := List.append_of_mem hx
  obtain ⟨m, hu, hm, hv⟩ := h.piece
  obtain rfl := Option.some.inj (ha.symm.trans hm)
  rcases List.mem_append.mp hy with hy | hy
  · obtain ⟨u₁, u₂, rfl⟩ := List.append_of_mem hy
    obtain ⟨k, -, hk, hrest⟩ := hu.piece
    obtain rfl := Option.some.inj (hb.symm.trans hk)
    exact Or.inr hrest.le
  · rcases List.mem_cons.mp hy with heq | hy
    · exact absurd heq.symm hne
    · obtain ⟨v₁, v₂, rfl⟩ := List.append_of_mem hy
      obtain ⟨k, hrest, hk, -⟩ := hv.piece
      obtain rfl := Option.some.inj (hb.symm.trans hk)
      exact Or.inl hrest.le

end LaLiga.Lib
