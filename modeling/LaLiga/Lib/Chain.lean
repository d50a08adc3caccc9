import LaLiga.Lib.DList

/-! Singly linked lists over a heap of nodes that carry data. -/
namespace LaLiga.Lib

variable {P V : Type*} {nx nx' : P → Option P} {dat dat' : P → Option V} {es u v : List P}
  {xs a b : List V} {o o' : Option P} {p q n : P} {x y : V}

theorem Seg.next_eq (h : Seg nx (u ++ p :: v) o) : nx p = v.head?.or o :=
  (seg_append.mp h).2.1

theorem insertIdx_eq_take_append_drop (xs : List V) (y : V) {i : Nat} (h : i ≤ xs.length) :
    xs.insertIdx i y = xs.take i ++ y :: xs.drop i := by
  induction i generalizing xs with
  | zero => rw [List.insertIdx_zero, List.take_zero, List.drop_zero, List.nil_append]
  | succ i ih =>
    cases xs with
    | nil => exact absurd h (Nat.not_succ_le_zero i)
    | cons x xs =>
      rw [List.insertIdx_succ_cons, ih xs (Nat.le_of_succ_le_succ h), List.take_succ_cons,
        List.drop_succ_cons, List.cons_append]

/-- The nodes of a list that ends, with their data, in order. -/
structure Chain (nx : P → Option P) (dat : P → Option V) (es : List P) (xs : List V) : Prop where
  nodup : es.Nodup
  next : Seg nx es none
  data : es.map dat = xs.map some

namespace Chain

theorem nil : Chain nx dat [] ([] : List V) := ⟨List.nodup_nil, trivial, rfl⟩

theorem length_eq (h : Chain nx dat es xs) : es.length = xs.length := by
  simpa only [List.length_map] using congrArg List.length h.data

theorem getElem?_eq (h : Chain nx dat es xs) (i : Nat) : (es[i]?).map dat = (xs[i]?).map some := by
  simpa only [List.getElem?_map] using congrArg (·[i]?) h.data

/-- Each node has the datum at its place. -/
theorem data_eq (h : Chain nx dat (u ++ p :: v) xs) :
    ∃ x, xs[u.length]? = some x ∧ dat p = some x := by
  have hat := h.getElem?_eq u.length
  rw [List.getElem?_append_right (Nat.le_refl _), Nat.sub_self, List.getElem?_cons_zero] at hat
  cases hx : xs[u.length]? with
  | none => rw [hx] at hat; cases hat
  | some x =>
    rw [hx] at hat
    exact ⟨x, rfl, Option.some.inj hat⟩

theorem data_some (h : Chain nx dat es xs) (hp : p ∈ es) : (dat p).isSome := by
  obtain ⟨u, v, rfl⟩ := List.append_of_mem hp
  obtain ⟨x, -, hx⟩ := h.data_eq
  rw [hx]
  rfl

/-- The list is cut in two where its nodes are. -/
theorem cut (h : Chain nx dat (u ++ v) xs) :
    u.map dat = (xs.take u.length).map some ∧ v.map dat = (xs.drop u.length).map some := by
  have hdata := h.data
  rw [List.map_append, ← List.take_append_drop u.length xs, List.map_append] at hdata
  refine List.append_inj hdata ?_
  have hlength := h.length_eq
  rw [List.length_append] at hlength
  rw [List.length_map, List.length_map, List.length_take]
  omega

theorem congr (h : Chain nx dat es xs) (hn : ∀ q ∈ es, nx' q = nx q)
    (hd : ∀ q ∈ es, dat' q = dat q) : Chain nx' dat' es xs :=
  ⟨h.nodup, h.next.congr hn, by rw [← h.data]; exact List.map_congr_left hd⟩

/-- The same nodes, one of them with another datum. -/
theorem replace [DecidableEq P] (h : Chain nx dat (u ++ p :: v) xs)
    (hn : ∀ q ∈ u ++ p :: v, nx' q = nx q)
    (hd : ∀ q ∈ u ++ p :: v, dat' q = if q = p then some y else dat q) :
    Chain nx' dat' (u ++ p :: v) (xs.set u.length y) := by
  refine ⟨h.nodup, h.next.congr hn, ?_⟩
  obtain ⟨hnotin, -⟩ := List.nodup_cons.mp (List.nodup_middle.mp h.nodup)
  have hsame : ∀ q ∈ u ++ v, dat' q = dat q := by
    intro q hq
    rw [hd q (by simp only [List.mem_append, List.mem_cons] at hq ⊢; tauto), if_neg]
    rintro rfl
    exact hnotin hq
  obtain ⟨hu, hv⟩ := h.cut
  obtain ⟨x, hx, -⟩ := h.data_eq
  have hlt : u.length < xs.length := (List.getElem?_eq_some_iff.mp hx).1
  rw [List.drop_eq_getElem_cons hlt, List.map_cons, List.map_cons] at hv
  rw [List.set_eq_take_append_cons_drop, if_pos hlt, List.map_append, List.map_append, List.map_cons,
    List.map_cons, hd p (by simp), if_pos rfl,
    List.map_congr_left fun q hq => hsame q (List.mem_append_left _ hq), hu,
    List.map_congr_left fun q hq => hsame q (List.mem_append_right _ hq), (List.cons.inj hv).2]

variable [DecidableEq P]

/-- The new node `n` is linked between the two halves. -/
theorem insert (h : Chain nx dat (u ++ v) xs) (hnew : n ∉ u ++ v)
    (hn : ∀ q ∈ u ++ v, nx' q = if u.getLast? = some q then some n else nx q)
    (hnn : nx' n = v.head?) (hd : ∀ q ∈ u ++ v, dat' q = dat q) (hdn : dat' n = some y) :
    Chain nx' dat' (u ++ n :: v) (xs.insertIdx u.length y) := by
  obtain ⟨hsu, hsv⟩ := seg_append.mp h.next
  obtain ⟨hu, hv, hdisj⟩ := List.nodup_append'.mp h.nodup
  refine ⟨List.nodup_middle.mpr (List.nodup_cons.mpr ⟨hnew, h.nodup⟩), ?_, ?_⟩
  · refine seg_append.mpr ⟨?_, ?_, ?_⟩
    · refine hsu.relink hu ?_
      intro q hq
      rw [hn q (List.mem_append_left _ hq)]
      rfl
    · rw [hnn, Option.or_none]
    · refine hsv.congr ?_
      intro q hq
      rw [hn q (List.mem_append_right _ hq), if_neg]
      exact fun hlast => hdisj (List.mem_of_getLast? hlast) hq
  · obtain ⟨hmu, hmv⟩ := h.cut
    have hle : u.length ≤ xs.length := by
      have hlength := h.length_eq
      rw [List.length_append] at hlength
      omega
    rw [insertIdx_eq_take_append_drop xs y hle, List.map_append, List.map_append, List.map_cons,
      List.map_cons, hdn, List.map_congr_left fun q hq => hd q (List.mem_append_left _ hq), hmu,
      List.map_congr_left fun q hq => hd q (List.mem_append_right _ hq), hmv]

/-- The node before `p` is linked to the one behind it. -/
theorem remove (h : Chain nx dat (u ++ p :: v) xs)
    (hn : ∀ q ∈ u ++ v, nx' q = if u.getLast? = some q then v.head? else nx q)
    (hd : ∀ q ∈ u ++ v, dat' q = dat q) : Chain nx' dat' (u ++ v) (xs.eraseIdx u.length) := by
  obtain ⟨hsu, hsv⟩ := seg_append.mp h.next
  obtain ⟨-, huv⟩ := List.nodup_cons.mp (List.nodup_middle.mp h.nodup)
  obtain ⟨hu, hv, hdisj⟩ := List.nodup_append'.mp huv
  refine ⟨huv, seg_append.mpr ⟨?_, ?_⟩, ?_⟩
  · refine hsu.relink hu ?_
    intro q hq
    rw [hn q (List.mem_append_left _ hq), Option.or_none]
  · refine hsv.2.congr ?_
    intro q hq
    rw [hn q (List.mem_append_right _ hq), if_neg]
    exact fun hlast => hdisj (List.mem_of_getLast? hlast) hq
  · obtain ⟨hmu, hmv⟩ := h.cut
    obtain ⟨x, hx, -⟩ := h.data_eq
    have hlt : u.length < xs.length := (List.getElem?_eq_some_iff.mp hx).1
    rw [List.drop_eq_getElem_cons hlt, List.map_cons, List.map_cons] at hmv
    rw [List.eraseIdx_eq_take_drop_succ, List.map_append, List.map_append,
      List.map_congr_left fun q hq => hd q (List.mem_append_left _ hq), hmu,
      List.map_congr_left fun q hq => hd q (List.mem_append_right _ hq), (List.cons.inj hmv).2]

end Chain

end LaLiga.Lib
