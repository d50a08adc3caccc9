import Mathlib.Tactic
import Mathlib.Data.List.Nodup

/-! Linked lists over a heap of nodes, as the functions that read the link fields. -/
namespace LaLiga.Lib

variable {P : Type*} {nx nx' pv pv' : P → Option P} {l u v : List P} {o o' : Option P} {p q n : P}

/-- `nx` leads through the nodes of the list in order and from the last one to `o`. -/
def Seg (nx : P → Option P) : List P → Option P → Prop
  | [], _ => True
  | p :: l, o => nx p = l.head?.or o ∧ Seg nx l o

theorem seg_append : Seg nx (u ++ v) o ↔ Seg nx u (v.head?.or o) ∧ Seg nx v o := by
  induction u with
  | nil => simp [Seg]
  | cons p u ih =>
    simp only [List.cons_append, Seg, ih, and_assoc]
    cases u <;> simp

theorem Seg.congr (h : Seg nx l o) (he : ∀ q ∈ l, nx' q = nx q) : Seg nx' l o := by
  induction l with
  | nil => trivial
  | cons p l ih =>
    refine ⟨?_, ih h.2 (fun q hq => he q (by simp [hq]))⟩
    rw [he p (by simp), h.1]

/-- From one node the links lead through one list only. -/
theorem Seg.unique (hu : Seg nx u none) (hv : Seg nx v none) (hh : u.head? = v.head?) :
    u = v := by
  induction u generalizing v with
  | nil =>
    cases v with
    | nil => rfl
    | cons q v => simp at hh
  | cons p u ih =>
    cases v with
    | nil => simp at hh
    | cons q v =>
      obtain rfl : p = q := by simpa using hh
      have hnext : u.head? = v.head? := by
        have := hu.1.symm.trans hv.1
        simpa using this
      rw [ih hu.2 hv.2 hnext]

/-- Only the last node is sent elsewhere. -/
theorem Seg.relink [DecidableEq P] (h : Seg nx l o) (hn : l.Nodup)
    (he : ∀ q ∈ l, nx' q = if l.getLast? = some q then o' else nx q) : Seg nx' l o' := by
  induction l with
  | nil => trivial
  | cons p l ih =>
    obtain ⟨hp, hn⟩ := List.nodup_cons.mp hn
    cases l with
    | nil => exact ⟨by simpa using he p (by simp), trivial⟩
    | cons r l =>
      refine ⟨?_, ih h.2 hn ?_⟩
      · have hlast : (p :: r :: l).getLast? ≠ some p := by
          rw [List.getLast?_cons_cons]
          exact fun hl => hp (List.mem_of_getLast? hl)
        rw [he p (by simp), if_neg hlast, h.1]
        rfl
      · intro q hq
        rw [he q (by simp [hq]), List.getLast?_cons_cons]

/-- The nodes of a doubly linked list, first to last. -/
structure DList (nx pv : P → Option P) (l : List P) : Prop where
  nodup : l.Nodup
  next : Seg nx l none
  prev : Seg pv l.reverse none

namespace DList

theorem next_eq (h : DList nx pv (u ++ p :: v)) : nx p = v.head? := by
  have := (seg_append.mp h.next).2.1
  simpa using this

theorem prev_eq (h : DList nx pv (u ++ p :: v)) : pv p = u.getLast? := by
  have hprev := h.prev
  simp only [List.reverse_append, List.reverse_cons, List.append_assoc, List.singleton_append,
    seg_append] at hprev
  simpa using hprev.2.1

/-- The two link fields are inverse to each other along the list. -/
theorem inverse (h : DList nx pv l) (hp : p ∈ l) (hq : q ∈ l) :
    nx p = some q ↔ pv q = some p := by
  constructor
  · intro hpq
    obtain ⟨u, v, rfl⟩ := List.append_of_mem hp
    have hv := h.next_eq
    rw [hpq] at hv
    cases v with
    | nil => simp at hv
    | cons r v =>
      obtain rfl : q = r := by simpa using hv
      have := DList.prev_eq (u := u ++ [p]) (p := q) (v := v) (by simpa using h)
      simpa using this
  · intro hqp
    obtain ⟨u, v, rfl⟩ := List.append_of_mem hq
    have hu := h.prev_eq
    rw [hqp] at hu
    obtain ⟨u, rfl⟩ : ∃ u', u = u' ++ [p] := by
      rcases List.eq_nil_or_concat u with rfl | ⟨u', r, rfl⟩
      · simp at hu
      · exact ⟨u', by simpa using hu.symm⟩
    have := DList.next_eq (u := u) (p := p) (v := q :: v) (by simpa using h)
    simpa using this

theorem congr (h : DList nx pv l) (hn : ∀ q ∈ l, nx' q = nx q) (hp : ∀ q ∈ l, pv' q = pv q) :
    DList nx' pv' l :=
  ⟨h.nodup, h.next.congr hn, h.prev.congr (fun q hq => hp q (by simpa using hq))⟩

variable [DecidableEq P]

/-- Unlinking `p`: its neighbours are made to point past it. -/
theorem remove (h : DList nx pv (u ++ p :: v))
    (hn : ∀ q ∈ u ++ v, nx' q = if pv p = some q then nx p else nx q)
    (hp : ∀ q ∈ u ++ v, pv' q = if nx p = some q then pv p else pv q) :
    DList nx' pv' (u ++ v) := by
  have hnodup := h.nodup
  have hnext := h.next_eq
  have hprev := h.prev_eq
  rw [List.nodup_middle, List.nodup_cons] at hnodup
  obtain ⟨hpnot, huv⟩ := hnodup
  obtain ⟨hu, hv, hdisj⟩ := List.nodup_append'.mp huv
  obtain ⟨hsu, hsv⟩ := seg_append.mp h.next
  have hrev := h.prev
  simp only [List.reverse_append, List.reverse_cons, List.append_assoc, List.singleton_append,
    seg_append] at hrev
  refine ⟨huv, seg_append.mpr ⟨?_, ?_⟩, ?_⟩
  · refine hsu.relink hu ?_
    intro q hq
    rw [hn q (by simp [hq]), hprev, hnext]
    simp
  · refine hsv.2.congr ?_
    intro q hq
    rw [hn q (by simp [hq]), if_neg]
    rw [hprev]
    exact fun hl => hdisj (List.mem_of_getLast? hl) hq
  · rw [List.reverse_append]
    refine seg_append.mpr ⟨?_, ?_⟩
    · refine hrev.1.relink (by simpa using hv) ?_
      intro q hq
      rw [hp q (by simp [List.mem_reverse.mp hq]), hprev, hnext]
      simp
    · refine hrev.2.2.congr ?_
      intro q hq
      rw [hp q (by simp [List.mem_reverse.mp hq]), if_neg]
      rw [hnext]
      exact fun hl => hdisj (List.mem_reverse.mp hq) (List.mem_of_head? hl)

/-- Linking the new node `n` behind `p`. -/
theorem insert (h : DList nx pv (u ++ p :: v)) (hnew : n ∉ u ++ p :: v)
    (hn : ∀ q ∈ u ++ p :: v, nx' q = if q = p then some n else nx q) (hnn : nx' n = nx p)
    (hp : ∀ q ∈ u ++ p :: v, pv' q = if nx p = some q then some n else pv q)
    (hpn : pv' n = some p) : DList nx' pv' (u ++ p :: n :: v) := by
  have hnodup := h.nodup
  have hnext := h.next_eq
  obtain ⟨hsu, hsp, hsv⟩ := seg_append.mp h.next
  have hrev := h.prev
  simp only [List.reverse_append, List.reverse_cons, List.append_assoc, List.singleton_append,
    seg_append] at hrev
  have hperm : (u ++ p :: n :: v).Perm (n :: (u ++ p :: v)) := by
    have := @List.perm_middle _ n (u ++ [p]) v
    simpa using this
  obtain ⟨hpuv, huv⟩ := List.nodup_cons.mp (List.nodup_middle.mp hnodup)
  obtain ⟨hu, hv, hdisj⟩ := List.nodup_append'.mp huv
  refine ⟨hperm.nodup_iff.mpr (List.nodup_cons.mpr ⟨hnew, hnodup⟩), ?_, ?_⟩
  · refine seg_append.mpr ⟨?_, ?_, ?_, ?_⟩
    · refine Seg.congr (by simpa using hsu) ?_
      intro q hq
      rw [hn q (by simp [hq]), if_neg]
      rintro rfl
      exact hpuv (by simp [hq])
    · rw [hn p (by simp)]
      simp
    · rw [hnn, hnext]
      simp
    · refine hsv.congr ?_
      intro q hq
      rw [hn q (by simp [hq]), if_neg]
      rintro rfl
      exact hpuv (by simp [hq])
  · have hshape : (u ++ p :: n :: v).reverse = v.reverse ++ n :: p :: u.reverse := by simp
    rw [hshape]
    refine seg_append.mpr ⟨?_, ?_, ?_, ?_⟩
    · refine hrev.1.relink (by simpa using hv) ?_
      intro q hq
      rw [hp q (by simp [List.mem_reverse.mp hq]), hnext]
      simp
    · rw [hpn]
      simp
    · rw [hp p (by simp), if_neg, h.prev_eq]
      · simp
      · rw [hnext]
        exact fun hl => hpuv (by simp [List.mem_of_head? hl])
    · refine hrev.2.2.congr ?_
      intro q hq
      rw [hp q (by simp [List.mem_reverse.mp hq]), if_neg]
      rw [hnext]
      exact fun hl => hdisj (List.mem_reverse.mp hq) (List.mem_of_head? hl)

end DList

end LaLiga.Lib
