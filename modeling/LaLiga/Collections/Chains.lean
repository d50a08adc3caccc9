import LaLiga.Collections.List
import LaLiga.Lib.Refinement

/-! What each function of a list does to the chain of its elements. -/
namespace LaLiga.Collections

open LaLiga.Lib

variable {α σ : Type} {m m' : Memory α σ} {self p : Nat} {es es' u v : List Nat}
  {xs xs' : List (Option α)} {d : Option α}

def Memory.next (m : Memory α σ) (p : Nat) : Option Nat := (m.elements p).bind (·.next)

def Memory.data (m : Memory α σ) (p : Nat) : Option (Option α) := (m.elements p).map (·.data)

/-- The list at `l` has the elements `es`, with the data `xs`. -/
structure List_at (m : Memory α σ) (l : Nat) (es : List Nat) (xs : List (Option α)) : Prop where
  list : m.lists l = some ⟨es.head?, xs.length⟩
  chain : Chain m.next m.data es xs
  below : ∀ p ∈ es, p < m.next_element
  int : (xs.length : Int) ≤ INT_MAX

/-- The list at `l` has lost and got elements, and nothing else is changed. -/
structure Rewritten (m m' : Memory α σ) (l : Nat) (es es' : List Nat) : Prop where
  lists : ∀ l', l' ≠ l → m'.lists l' = m.lists l'
  elements : ∀ p, p ∉ es → p ∉ es' → m'.elements p = m.elements p
  freed : ∀ p ∈ es, p ∉ es' → m'.elements p = none
  new : ∀ p ∈ es', p ∈ es ∨ m.next_element ≤ p
  next_element : m.next_element ≤ m'.next_element
  next_list : m'.next_list = m.next_list
  outside : m'.outside = m.outside

section Memory

theorem list_eq {list : t_list} (h : m.lists self = some list) : m.list self = .ok list := by
  rw [Memory.list, h]

theorem element_eq {element : t_link_element α} (h : m.elements p = some element) :
    m.element (some p) = .ok element := by
  rw [Memory.element, h]

@[simp] theorem set_list_lists (list : t_list) : (m.set_list self list).lists self = some list :=
  Function.update_self ..

theorem set_list_lists_ne {l : Nat} (list : t_list) (h : l ≠ self) :
    (m.set_list self list).lists l = m.lists l := Function.update_of_ne h ..

@[simp] theorem set_list_elements (list : t_list) : (m.set_list self list).elements = m.elements :=
  rfl

@[simp] theorem set_element_elements (element : t_link_element α) :
    (m.set_element p element).elements p = some element := Function.update_self ..

theorem set_element_elements_ne {q : Nat} (element : t_link_element α) (h : q ≠ p) :
    (m.set_element p element).elements q = m.elements q := Function.update_of_ne h ..

@[simp] theorem free_element_elements : (m.free_element (some p)).elements p = none :=
  Function.update_self ..

theorem free_element_elements_ne {q : Nat} (h : q ≠ p) :
    (m.free_element (some p)).elements q = m.elements q := Function.update_of_ne h ..

/-- Links and data are those of the same elements. -/
theorem chain_of_elements (h : Chain m.next m.data es xs)
    (he : ∀ p ∈ es, m'.elements p = m.elements p) : Chain m'.next m'.data es xs := by
  refine h.congr ?_ ?_
  · intro p hp
    rw [Memory.next, he p hp, Memory.next]
  · intro p hp
    rw [Memory.data, he p hp, Memory.data]

theorem chain_element (h : Chain m.next m.data (u ++ p :: v) xs) :
    ∃ x, xs[u.length]? = some x ∧ m.elements p = some ⟨x, v.head?⟩ := by
  obtain ⟨x, hx, hdata⟩ := h.data_eq
  obtain ⟨element, helement, rfl⟩ := Option.map_eq_some_iff.mp hdata
  have hnext := h.next.next_eq
  rw [Memory.next, helement, Option.bind_some, Option.or_none] at hnext
  refine ⟨element.data, hx, ?_⟩
  rw [helement, ← hnext]

end Memory

section Walks

theorem list_walk_append (h : Chain m.next m.data (u ++ v) xs) :
    list_walk m u.length (u ++ v).head? = .ok v.head? := by
  obtain ⟨hnext, hsome⟩ : Seg m.next (u ++ v) none ∧ ∀ p ∈ u, (m.data p).isSome :=
    ⟨h.next, fun p hp => h.data_some (List.mem_append_left _ hp)⟩
  clear h
  induction u with
  | nil => rfl
  | cons p u ih =>
    obtain ⟨hp, hrest⟩ := hnext
    have hisSome := hsome p List.mem_cons_self
    rw [Memory.data, Option.isSome_map] at hisSome
    obtain ⟨element, helement⟩ := Option.isSome_iff_exists.mp hisSome
    rw [Memory.next, helement, Option.bind_some, List.append_eq, Option.or_none] at hp
    rw [List.cons_append, List.head?_cons, List.length_cons, list_walk, element_eq helement,
      ok_bind, hp]
    exact ih hrest fun q hq => hsome q (List.mem_cons_of_mem _ hq)

theorem list_get_element_eq (h : List_at m self es xs) (index : Int) :
    list_get_element m self index =
      .ok (if 0 ≤ index then es[index.toNat]? else none) := by
  have hlength := h.chain.length_eq
  rw [list_get_element, list_eq h.list, ok_bind]
  by_cases hindex : (xs.length : Int) > index ∧ index ≥ 0
  · rw [if_pos hindex, if_pos hindex.2]
    have hwalk := list_walk_append (u := es.take index.toNat) (v := es.drop index.toNat)
      (by rw [List.take_append_drop]; exact h.chain)
    rw [List.take_append_drop, List.length_take, List.head?_drop, Nat.min_eq_left (by omega)]
      at hwalk
    exact hwalk
  · rw [if_neg hindex]
    split
    · rw [List.getElem?_eq_none (by omega)]
    · rfl

end Walks

section Insertion

/-- The memory once a new element holds `d`, and nothing points to it. -/
def Memory.with_element (m : Memory α σ) (d : Option α) : Memory α σ := (list_create_element m d).2

theorem list_create_element_eq : list_create_element m d = (m.next_element, m.with_element d) := rfl

theorem with_element_self : (m.with_element d).elements m.next_element = some ⟨d, none⟩ :=
  Function.update_self ..

theorem with_element_elements (h : p ≠ m.next_element) :
    (m.with_element d).elements p = m.elements p := Function.update_of_ne h ..

/-- A new element is linked between the two halves of the list at `l`, and not counted yet. -/
structure Linked (m m' : Memory α σ) (l : Nat) (u v : List Nat) (d : Option α) : Prop where
  list : m'.lists l = some ⟨(u ++ m.next_element :: v).head?, (u ++ v).length⟩
  lists : ∀ l', l' ≠ l → m'.lists l' = m.lists l'
  new : m'.elements m.next_element = some ⟨d, v.head?⟩
  last : ∀ p, u.getLast? = some p →
    m'.elements p = (m.elements p).map fun e => { e with next := some m.next_element }
  elements : ∀ p, p ≠ m.next_element → u.getLast? ≠ some p → m'.elements p = m.elements p
  next_element : m'.next_element = m.next_element + 1
  next_list : m'.next_list = m.next_list
  outside : m'.outside = m.outside

theorem head?_concat_append (u : List Nat) (p : Nat) (v : List Nat) :
    (u ++ [p] ++ v).head? = (u ++ [p]).head? := by
  cases u <;> rfl

namespace List_at

theorem nil_iff (h : List_at m self es xs) : es = [] ↔ (xs.length : Int) = 0 := by
  rw [← h.chain.length_eq, Int.natCast_eq_zero, List.length_eq_zero_iff]

theorem ne_next (h : List_at m self es xs) (hp : p ∈ es) : p ≠ m.next_element :=
  Nat.ne_of_lt (h.below p hp)

theorem element_some (h : List_at m self es xs) (hp : p ∈ es) : (m.elements p).isSome := by
  have hdata := h.chain.data_some hp
  rwa [Memory.data, Option.isSome_map] at hdata

theorem with_element (h : List_at m self es xs) (d : Option α) :
    List_at (m.with_element d) self es xs where
  list := h.list
  chain := chain_of_elements h.chain fun _ hp => with_element_elements (h.ne_next hp)
  below := fun p hp => Nat.lt_succ_of_lt (h.below p hp)
  int := h.int

theorem linked_chain (h : List_at m self (u ++ v) xs) (hl : Linked m m' self u v d) :
    Chain m'.next m'.data (u ++ m.next_element :: v) (xs.insertIdx u.length d) := by
  refine h.chain.insert (fun hp => h.ne_next hp rfl) ?_ ?_ ?_ ?_
  · intro q hq
    split
    · obtain ⟨element, helement⟩ := Option.isSome_iff_exists.mp (h.element_some hq)
      rw [Memory.next, hl.last q ‹_›, helement]
      rfl
    · rw [Memory.next, hl.elements q (h.ne_next hq) ‹_›, Memory.next]
  · rw [Memory.next, hl.new]
    rfl
  · intro q hq
    by_cases hlast : u.getLast? = some q
    · rw [Memory.data, hl.last q hlast, Option.map_map]
      rfl
    · rw [Memory.data, hl.elements q (h.ne_next hq) hlast, Memory.data]
  · rw [Memory.data, hl.new]
    rfl

/-- What is linked is counted. -/
theorem counted (h : List_at m self (u ++ v) xs) (hl : Linked m m' self u v d)
    (hint : (xs.length : Int) ≠ INT_MAX) : ∃ m'', count_up m' self = .ok m'' ∧
      List_at m'' self (u ++ m.next_element :: v) (xs.insertIdx u.length d) ∧
      Rewritten m m'' self (u ++ v) (u ++ m.next_element :: v) := by
  have hchain := h.linked_chain hl
  have hlength := h.chain.length_eq
  have hle : u.length ≤ xs.length := by
    rw [← hlength, List.length_append]
    exact Nat.le_add_right ..
  have hcount : (xs.insertIdx u.length d).length = xs.length + 1 :=
    List.length_insertIdx_of_le_length hle _
  have hmem : ∀ p, p ∈ u ++ m.next_element :: v ↔ p = m.next_element ∨ p ∈ u ++ v := by
    intro p
    rw [List.mem_append, List.mem_cons, List.mem_append]
    tauto
  refine ⟨m'.set_list self ⟨(u ++ m.next_element :: v).head?, (xs.length : Int) + 1⟩, ?_, ?_, ?_⟩
  · rw [count_up, list_eq hl.list, ok_bind, hlength, increment, if_neg hint, ok_bind]
  · refine ⟨?_, hchain, ?_, ?_⟩
    · rw [set_list_lists, hcount]
      rfl
    · intro p hp
      have hnext : (m'.set_list self ⟨(u ++ m.next_element :: v).head?, (xs.length : Int) + 1⟩
        ).next_element = m.next_element + 1 := hl.next_element
      rw [hnext]
      rcases (hmem p).mp hp with rfl | hp
      · exact Nat.lt_succ_self _
      · exact Nat.lt_succ_of_lt (h.below p hp)
    · have hint' := h.int
      omega
  · refine ⟨?_, ?_, ?_, ?_, ?_, hl.next_list, hl.outside⟩
    · intro l hne
      rw [set_list_lists_ne _ hne, hl.lists l hne]
    · intro p hp hp'
      refine hl.elements p (fun heq => hp' ((hmem p).mpr (Or.inl heq))) ?_
      exact fun hlast => hp (List.mem_append_left _ (List.mem_of_getLast? hlast))
    · exact fun p hp hp' => absurd ((hmem p).mpr (Or.inr hp)) hp'
    · intro p hp
      rcases (hmem p).mp hp with rfl | hp
      · exact Or.inr (Nat.le_refl _)
      · exact Or.inl hp
    · exact Nat.le_of_lt (Nat.lt_of_lt_of_eq (Nat.lt_succ_self _) hl.next_element.symm)

/-- No more elements than an `int` counts. -/
theorem not_counted (h : List_at m self (u ++ v) xs) (hl : Linked m m' self u v d)
    (hint : (xs.length : Int) = INT_MAX) : count_up m' self = .error .overflow := by
  rw [count_up, list_eq hl.list, ok_bind, h.chain.length_eq, increment, if_pos hint, error_bind]

/-- `list_add` links the new element behind the others. -/
theorem link_last (h : List_at m self es xs) (d : Option α) : ∃ m',
    (if (xs.length : Int) = 0 then
      .ok ((m.with_element d).set_list self ⟨some m.next_element, xs.length⟩)
    else do
      let last ← list_get_element (m.with_element d) self (xs.length - 1)
      list_link_element (m.with_element d) last (some m.next_element)) = .ok m' ∧
      Linked m m' self es [] d := by
  have hat := h.with_element d
  have hlength := h.chain.length_eq
  rcases List.eq_nil_or_concat' es with rfl | ⟨u, p, rfl⟩
  · refine ⟨_, if_pos (h.nil_iff.mp rfl), ?_, ?_, with_element_self, ?_, ?_, rfl, rfl, rfl⟩
    · rw [set_list_lists, ← hlength]
      rfl
    · exact fun l hl => set_list_lists_ne _ hl
    · intro q hq
      cases hq
    · exact fun q hq _ => with_element_elements hq
  · have hzero : ¬ (xs.length : Int) = 0 := by
      rw [← h.nil_iff]
      simp
    obtain ⟨x, -, hp⟩ := chain_element hat.chain
    have hlast : list_get_element (m.with_element d) self (xs.length - 1) = .ok (some p) := by
      have hindex : ((xs.length : Int) - 1).toNat = u.length := by
        rw [← hlength, List.length_append, List.length_singleton]
        omega
      rw [list_get_element_eq hat, if_pos (by omega), hindex, List.getElem?_concat_length]
    have hlink : list_link_element (m.with_element d) (some p) (some m.next_element) =
        .ok ((m.with_element d).set_element p ⟨x, some m.next_element⟩) := by
      rw [list_link_element, element_eq hp, ok_bind]
    have hne : p ≠ m.next_element := h.ne_next (List.mem_append_right _ List.mem_cons_self)
    rw [if_neg hzero, hlast, ok_bind, hlink]
    refine ⟨_, rfl, ?_, ?_, ?_, ?_, ?_, rfl, rfl, rfl⟩
    · rw [head?_concat_append, List.append_nil, hlength]
      exact hat.list
    · exact fun l _ => rfl
    · rw [set_element_elements_ne _ hne.symm]
      exact with_element_self
    · intro q hq
      rw [List.getLast?_concat, Option.some_inj] at hq
      subst hq
      rw [with_element_elements hne] at hp
      rw [set_element_elements, hp]
      rfl
    · intro q hq hlast
      have hpq : q ≠ p := by
        rintro rfl
        exact hlast List.getLast?_concat
      rw [set_element_elements_ne _ hpq, with_element_elements hq]

/-- `list_add_in_index` links the new element in front of another one. -/
theorem link_in (h : List_at m self (u ++ v) xs) (d : Option α) : ∃ m',
    (if (u.length : Int) = 0 then do
      let m' ← list_link_element (m.with_element d) (some m.next_element) (u ++ v).head?
      .ok (m'.set_list self ⟨some m.next_element, xs.length⟩)
    else do
      let next ← list_get_element (m.with_element d) self u.length
      let previous ← list_get_element (m.with_element d) self (u.length - 1)
      let m' ← list_link_element (m.with_element d) previous (some m.next_element)
      list_link_element m' (some m.next_element) next) = .ok m' ∧ Linked m m' self u v d := by
  have hat := h.with_element d
  have hlength := h.chain.length_eq
  rcases List.eq_nil_or_concat' u with rfl | ⟨u, p, rfl⟩
  · have hlink : list_link_element (m.with_element d) (some m.next_element) v.head? =
        .ok ((m.with_element d).set_element m.next_element ⟨d, v.head?⟩) := by
      rw [list_link_element, element_eq with_element_self, ok_bind]
    rw [if_pos (by rfl), List.nil_append, hlink, ok_bind]
    refine ⟨_, rfl, ?_, ?_, ?_, ?_, ?_, rfl, rfl, rfl⟩
    · rw [set_list_lists, hlength]
      rfl
    · exact fun l hl => set_list_lists_ne _ hl
    · rw [set_list_elements, set_element_elements]
    · intro q hq
      cases hq
    · intro q hq _
      rw [set_list_elements, set_element_elements_ne _ hq, with_element_elements hq]
  · obtain ⟨n, hn⟩ : ∃ n, n = m.next_element := ⟨_, rfl⟩
    have hne : p ≠ n := hn ▸ h.ne_next (by simp)
    have hchain := hat.chain
    rw [List.append_assoc] at hchain
    obtain ⟨x, -, hp⟩ := chain_element hchain
    have hnext : list_get_element (m.with_element d) self (u ++ [p]).length = .ok v.head? := by
      rw [list_get_element_eq hat, if_pos (Int.natCast_nonneg _), Int.toNat_natCast,
        List.getElem?_append_right (Nat.le_refl _), Nat.sub_self, List.head?_eq_getElem?]
    have hprevious : list_get_element (m.with_element d) self ((u ++ [p]).length - 1) =
        .ok (some p) := by
      have hindex : (((u ++ [p]).length : Int) - 1).toNat = u.length := by
        rw [List.length_append, List.length_singleton]
        omega
      rw [list_get_element_eq hat, if_pos (by simp), hindex, List.append_assoc,
        List.getElem?_append_right (Nat.le_refl _), Nat.sub_self]
      rfl
    have hlink : list_link_element (m.with_element d) (some p) (some n) =
        .ok ((m.with_element d).set_element p ⟨x, some n⟩) := by
      rw [list_link_element, element_eq hp, ok_bind]
    have hself : ((m.with_element d).set_element p ⟨x, some n⟩).elements n = some ⟨d, none⟩ := by
      rw [set_element_elements_ne _ hne.symm, hn]
      exact with_element_self
    have hlink' : list_link_element ((m.with_element d).set_element p ⟨x, some n⟩) (some n)
        v.head? = .ok (((m.with_element d).set_element p ⟨x, some n⟩).set_element n
          ⟨d, v.head?⟩) := by
      rw [list_link_element, element_eq hself, ok_bind]
    have hzero : ¬ ((u ++ [p]).length : Int) = 0 := by
      rw [List.length_append, List.length_singleton]
      omega
    rw [if_neg hzero, hnext, ok_bind, hprevious, ok_bind, ← hn, hlink, ok_bind, hlink']
    refine ⟨_, rfl, ?_, ?_, ?_, ?_, ?_, ?_, rfl, rfl⟩
    · rw [head?_concat_append, ← head?_concat_append u p v, hlength]
      exact hat.list
    · exact fun l _ => rfl
    · rw [← hn, set_element_elements]
    · intro q hq
      rw [List.getLast?_concat, Option.some_inj] at hq
      subst hq
      rw [with_element_elements (hn ▸ hne)] at hp
      rw [set_element_elements_ne _ hne, set_element_elements, hp, hn]
      rfl
    · intro q hq hlast
      have hpq : q ≠ p := by
        rintro rfl
        exact hlast List.getLast?_concat
      rw [set_element_elements_ne _ (hn ▸ hq), set_element_elements_ne _ hpq,
        with_element_elements hq]
    · rw [hn]
      rfl

end List_at

theorem list_add_link (h : List_at m self es xs) {m₁ : Memory α σ}
    (hlink : (if (xs.length : Int) = 0 then
      .ok ((m.with_element d).set_list self ⟨some m.next_element, xs.length⟩)
    else do
      let last ← list_get_element (m.with_element d) self (xs.length - 1)
      list_link_element (m.with_element d) last (some m.next_element)) = .ok m₁) :
    list_add m self d = (do
      let m ← count_up m₁ self
      let list ← m.list self
      .ok (list.elements_count - 1, m)) := by
  have hcreated : list_add m self d = (do
      let list ← (m.with_element d).list self
      let m ← (if list.elements_count = 0 then
          .ok ((m.with_element d).set_list self { list with head := some m.next_element })
        else do
          let last ← list_get_element (m.with_element d) self (list.elements_count - 1)
          list_link_element (m.with_element d) last (some m.next_element))
      let m ← count_up m self
      let list ← m.list self
      .ok (list.elements_count - 1, m)) := rfl
  rw [hcreated, list_eq (h.with_element d).list, ok_bind]
  dsimp only
  rw [hlink, ok_bind]

theorem list_add_eq (h : List_at m self es xs) (hint : (xs.length : Int) ≠ INT_MAX) :
    ∃ m', list_add m self d = .ok ((xs.length : Int), m') ∧
      List_at m' self (es ++ [m.next_element]) (xs ++ [d]) ∧
      Rewritten m m' self es (es ++ [m.next_element]) := by
  obtain ⟨m₁, hlink, hlinked⟩ := h.link_last d
  obtain ⟨m', hcount, hat, hrewritten⟩ :=
    List_at.counted (v := []) (by rwa [List.append_nil]) hlinked hint
  rw [h.chain.length_eq, List.insertIdx_length_self] at hat
  rw [List.append_nil] at hrewritten
  refine ⟨m', ?_, hat, hrewritten⟩
  rw [list_add_link h hlink, hcount, ok_bind, list_eq hat.list, ok_bind, List.length_append,
    List.length_singleton, Int.natCast_add, Int.natCast_one, Int.add_sub_cancel]

theorem list_add_overflow (h : List_at m self es xs) (hint : (xs.length : Int) = INT_MAX) :
    list_add m self d = .error .overflow := by
  obtain ⟨m₁, hlink, hlinked⟩ := h.link_last d
  rw [list_add_link h hlink,
    List_at.not_counted (v := []) (by rwa [List.append_nil]) hlinked hint, error_bind]

theorem list_add_in_index_link (h : List_at m self (u ++ v) xs) (hv : v ≠ []) {m₁ : Memory α σ}
    (hlink : (if (u.length : Int) = 0 then do
      let m' ← list_link_element (m.with_element d) (some m.next_element) (u ++ v).head?
      .ok (m'.set_list self ⟨some m.next_element, xs.length⟩)
    else do
      let next ← list_get_element (m.with_element d) self u.length
      let previous ← list_get_element (m.with_element d) self (u.length - 1)
      let m' ← list_link_element (m.with_element d) previous (some m.next_element)
      list_link_element m' (some m.next_element) next) = .ok m₁) :
    list_add_in_index m self u.length d = count_up m₁ self := by
  have hlt : (xs.length : Int) > u.length ∧ (u.length : Int) ≥ 0 := by
    have hpos := List.length_pos_iff.mpr hv
    rw [← h.chain.length_eq, List.length_append]
    omega
  rw [list_add_in_index, list_eq h.list, ok_bind, if_pos hlt, list_create_element_eq]
  dsimp only
  rw [hlink, ok_bind]

theorem list_add_in_index_eq (h : List_at m self (u ++ v) xs) (hv : v ≠ [])
    (hint : (xs.length : Int) ≠ INT_MAX) :
    ∃ m', list_add_in_index m self u.length d = .ok m' ∧
      List_at m' self (u ++ m.next_element :: v) (xs.insertIdx u.length d) ∧
      Rewritten m m' self (u ++ v) (u ++ m.next_element :: v) := by
  obtain ⟨m₁, hlink, hlinked⟩ := h.link_in d
  rw [list_add_in_index_link h hv hlink]
  exact h.counted hlinked hint

theorem list_add_in_index_overflow (h : List_at m self (u ++ v) xs) (hv : v ≠ [])
    (hint : (xs.length : Int) = INT_MAX) :
    list_add_in_index m self u.length d = .error .overflow := by
  obtain ⟨m₁, hlink, hlinked⟩ := h.link_in d
  rw [list_add_in_index_link h hv hlink, h.not_counted hlinked hint]

/-- Out of the list, the end included, nothing is added. -/
theorem list_add_in_index_outside (h : List_at m self es xs) {index : Int}
    (hindex : ¬ (0 ≤ index ∧ index < xs.length)) : list_add_in_index m self index d = .ok m := by
  rw [list_add_in_index, list_eq h.list, ok_bind, if_neg (fun hin => hindex ⟨hin.2, hin.1⟩)]

end Insertion

section Access

variable {x : Option α}

theorem List_at.getElem (h : List_at m self es xs) {i : Nat} (hp : es[i]? = some p) :
    ∃ x, xs[i]? = some x ∧ m.elements p = some ⟨x, es[i + 1]?⟩ := by
  obtain ⟨hi, rfl⟩ := List.getElem?_eq_some_iff.mp hp
  have hchain := h.chain
  rw [← List.take_append_drop i es, List.drop_eq_getElem_cons hi] at hchain
  obtain ⟨x, hx, helement⟩ := chain_element hchain
  rw [List.length_take, Nat.min_eq_left (Nat.le_of_lt hi)] at hx
  rw [List.head?_drop] at helement
  exact ⟨x, hx, helement⟩

theorem List_at.getElem?_none (h : List_at m self es xs) {i : Nat} :
    es[i]? = none ↔ xs[i]? = none := by
  rw [List.getElem?_eq_none_iff, List.getElem?_eq_none_iff, h.chain.length_eq]

theorem list_get_eq (h : List_at m self es xs) (index : Int) :
    list_get m self index = .ok (if 0 ≤ index then xs[index.toNat]?.join else none) := by
  rw [list_get, list_get_element_eq h, ok_bind]
  by_cases hindex : 0 ≤ index
  · rw [if_pos hindex, if_pos hindex]
    cases hp : es[index.toNat]? with
    | none =>
      rw [h.getElem?_none.mp hp]
      rfl
    | some p =>
      obtain ⟨x, hx, helement⟩ := h.getElem hp
      rw [hx]
      simp only [element_eq helement, ok_bind]
      rfl
  · rw [if_neg hindex, if_neg hindex]

theorem list_replace_eq (h : List_at m self es xs) {i : Nat} (hx : xs[i]? = some x) :
    ∃ m', list_replace m self i d = .ok (x, m') ∧ List_at m' self es (xs.set i d) ∧
      Rewritten m m' self es es := by
  obtain ⟨p, hp⟩ : ∃ p, es[i]? = some p := by
    rw [← Option.ne_none_iff_exists', Ne, h.getElem?_none, hx]
    exact Option.some_ne_none x
  obtain ⟨y, hy, helement⟩ := h.getElem hp
  obtain rfl : x = y := Option.some.inj (hx.symm.trans hy)
  have hget : list_get_element m self i = .ok (some p) := by
    rw [list_get_element_eq h, if_pos (Int.natCast_nonneg i), Int.toNat_natCast, hp]
  refine ⟨m.set_element p ⟨d, es[i + 1]?⟩, ?_, ⟨?_, ?_, h.below, ?_⟩, ?_⟩
  · rw [list_replace, hget, ok_bind]
    simp only [element_eq helement, ok_bind]
  · rw [List.length_set]
    exact h.list
  · obtain ⟨hi, rfl⟩ := List.getElem?_eq_some_iff.mp hp
    have hcut : es = es.take i ++ es[i] :: es.drop (i + 1) := by
      rw [← List.drop_eq_getElem_cons hi, List.take_append_drop]
    have hlength : (es.take i).length = i := by
      rw [List.length_take, Nat.min_eq_left (Nat.le_of_lt hi)]
    have hnext : ∀ q, (m.set_element es[i] ⟨d, es[i + 1]?⟩).next q = m.next q := by
      intro q
      by_cases hq : q = es[i]
      · rw [hq, Memory.next, set_element_elements, Memory.next, helement]
        rfl
      · rw [Memory.next, set_element_elements_ne _ hq, Memory.next]
    have hdata : ∀ q, (m.set_element es[i] ⟨d, es[i + 1]?⟩).data q =
        if q = es[i] then some d else m.data q := by
      intro q
      split
      · rw [‹q = es[i]›, Memory.data, set_element_elements]
        rfl
      · rw [Memory.data, set_element_elements_ne _ ‹_›, Memory.data]
    have hchain := h.chain
    rw [hcut] at hchain
    have hreplaced := hchain.replace (fun q _ => hnext q) (fun q _ => hdata q)
    rwa [← hcut, hlength] at hreplaced
  · rw [List.length_set]
    exact h.int
  · have hmem : p ∈ es := List.mem_of_getElem? hp
    refine ⟨fun _ _ => rfl, ?_, fun q hq hq' => absurd hq hq', fun q hq => Or.inl hq,
      Nat.le_refl _, rfl, rfl⟩
    intro q hq _
    exact set_element_elements_ne _ (fun heq => hq (heq ▸ hmem))

theorem list_replace_outside (h : List_at m self es xs) {index : Int}
    (hindex : ¬ (0 ≤ index ∧ index < xs.length)) :
    list_replace m self index d = .ok (none, m) := by
  have hnone : (if 0 ≤ index then es[index.toNat]? else none) = none := by
    split
    · rw [List.getElem?_eq_none_iff, h.chain.length_eq]
      omega
    · rfl
  rw [list_replace, list_get_element_eq h, hnone, ok_bind]

end Access

section Removal

variable {x : Option α}

/-- The element `p` is out of the list at `l`, and free, but still counted. -/
structure Unlinked (m m' : Memory α σ) (l p : Nat) (u v : List Nat) : Prop where
  list : m'.lists l = some ⟨(u ++ v).head?, (u ++ p :: v).length⟩
  lists : ∀ l', l' ≠ l → m'.lists l' = m.lists l'
  last : ∀ q, u.getLast? = some q →
    m'.elements q = (m.elements q).map fun e => { e with next := v.head? }
  elements : ∀ q, u.getLast? ≠ some q → m'.elements q = m.elements q
  next_element : m'.next_element = m.next_element
  next_list : m'.next_list = m.next_list
  outside : m'.outside = m.outside

/-- `list_remove` passes the links over the element. -/
theorem List_at.unlink (h : List_at m self (u ++ p :: v) xs) : ∃ m',
    (if (u.length : Int) = 0 then .ok (m.set_list self ⟨v.head?, xs.length⟩)
    else do
      let previous ← list_get_element m self (u.length - 1)
      list_link_element m previous v.head?) = .ok m' ∧ Unlinked m m' self p u v := by
  have hlength := h.chain.length_eq
  rcases List.eq_nil_or_concat' u with rfl | ⟨u, r, rfl⟩
  · refine ⟨_, if_pos rfl, ?_, ?_, ?_, fun _ _ => rfl, rfl, rfl, rfl⟩
    · rw [set_list_lists, hlength]
      rfl
    · exact fun l hl => set_list_lists_ne _ hl
    · intro q hq
      cases hq
  · have hchain := h.chain
    rw [List.append_assoc] at hchain
    obtain ⟨x, -, hr⟩ := chain_element hchain
    have hprevious : list_get_element m self ((u ++ [r]).length - 1) = .ok (some r) := by
      have hindex : (((u ++ [r]).length : Int) - 1).toNat = u.length := by
        rw [List.length_append, List.length_singleton]
        omega
      rw [list_get_element_eq h, if_pos (by simp), hindex, List.append_assoc,
        List.getElem?_append_right (Nat.le_refl _), Nat.sub_self]
      rfl
    have hzero : ¬ ((u ++ [r]).length : Int) = 0 := by
      rw [List.length_append, List.length_singleton]
      omega
    rw [if_neg hzero, hprevious, ok_bind, list_link_element, element_eq hr, ok_bind]
    refine ⟨_, rfl, ?_, fun _ _ => rfl, ?_, ?_, rfl, rfl, rfl⟩
    · rw [head?_concat_append, ← head?_concat_append u r (p :: v), hlength]
      exact h.list
    · intro q hq
      rw [List.getLast?_concat, Option.some_inj] at hq
      subst hq
      rw [set_element_elements, hr]
      rfl
    · intro q hlast
      have hqr : q ≠ r := by
        rintro rfl
        exact hlast List.getLast?_concat
      exact set_element_elements_ne _ hqr

/-- The element is no longer counted, and its block is free. -/
theorem List_at.uncounted (h : List_at m self (u ++ p :: v) xs) (hl : Unlinked m m' self p u v) :
    ∃ m'', count_down m' self = .ok m'' ∧
      List_at (m''.free_element (some p)) self (u ++ v) (xs.eraseIdx u.length) ∧
      Rewritten m (m''.free_element (some p)) self (u ++ p :: v) (u ++ v) := by
  have hlength := h.chain.length_eq
  obtain ⟨hnotin, -⟩ := List.nodup_cons.mp (List.nodup_middle.mp h.chain.nodup)
  have hmem : ∀ q, q ∈ u ++ p :: v ↔ q = p ∨ q ∈ u ++ v := by
    intro q
    rw [List.mem_append, List.mem_cons, List.mem_append]
    tauto
  have hne : ∀ q ∈ u ++ v, q ≠ p := fun q hq heq => hnotin (heq ▸ hq)
  have hlast : u.getLast? ≠ some p := fun hp => hnotin (List.mem_append_left _
    (List.mem_of_getLast? hp))
  have hcount : ((xs.eraseIdx u.length).length : Int) = (u ++ p :: v).length - 1 := by
    rw [List.length_eraseIdx, ← hlength]
    simp only [List.length_append, List.length_cons]
    split <;> omega
  obtain ⟨m'', hm''⟩ : ∃ m'', m'' = m'.set_list self ⟨(u ++ v).head?, (u ++ p :: v).length - 1⟩ :=
    ⟨_, rfl⟩
  have hfree : ∀ q, q ≠ p → (m''.free_element (some p)).elements q = m'.elements q := by
    intro q hq
    rw [free_element_elements_ne hq, hm'', set_list_elements]
  refine ⟨m'', ?_, ⟨?_, ?_, ?_, ?_⟩, ⟨?_, ?_, ?_, ?_, ?_, ?_, ?_⟩⟩
  · rw [count_down, list_eq hl.list, ok_bind, hm'']
  · rw [hcount, hm'']
    exact set_list_lists _
  · refine h.chain.remove ?_ ?_
    · intro q hq
      rw [Memory.next, hfree q (hne q hq)]
      split
      · obtain ⟨element, helement⟩ := Option.isSome_iff_exists.mp
          (h.element_some ((hmem q).mpr (Or.inr hq)))
        rw [hl.last q ‹_›, helement]
        rfl
      · rw [hl.elements q ‹_›, Memory.next]
    · intro q hq
      rw [Memory.data, hfree q (hne q hq)]
      by_cases hq' : u.getLast? = some q
      · rw [hl.last q hq', Option.map_map]
        rfl
      · rw [hl.elements q hq', Memory.data]
  · intro q hq
    rw [hm'']
    exact Nat.lt_of_lt_of_eq (h.below q ((hmem q).mpr (Or.inr hq))) hl.next_element.symm
  · have hint := h.int
    rw [hcount, hlength]
    omega
  · intro l hne
    rw [hm'']
    exact (set_list_lists_ne _ hne).trans (hl.lists l hne)
  · intro q hq hq'
    rw [hfree q (fun heq => hq ((hmem q).mpr (Or.inl heq)))]
    exact hl.elements q fun hlast => hq' (List.mem_append_left _ (List.mem_of_getLast? hlast))
  · intro q hq hq'
    rcases (hmem q).mp hq with rfl | hq
    · exact free_element_elements
    · exact absurd hq hq'
  · exact fun q hq => Or.inl ((hmem q).mpr (Or.inr hq))
  · rw [hm'']
    exact Nat.le_of_eq hl.next_element.symm
  · rw [hm'']
    exact hl.next_list
  · rw [hm'']
    exact hl.outside

theorem list_remove_eq (h : List_at m self (u ++ p :: v) xs) :
    ∃ x m', xs[u.length]? = some x ∧ list_remove m self u.length = .ok (x, m') ∧
      List_at m' self (u ++ v) (xs.eraseIdx u.length) ∧
      Rewritten m m' self (u ++ p :: v) (u ++ v) := by
  obtain ⟨x, hx, helement⟩ := chain_element h.chain
  obtain ⟨m₁, hunlink, hunlinked⟩ := h.unlink
  obtain ⟨m₂, hcount, hat, hrewritten⟩ := h.uncounted hunlinked
  refine ⟨x, _, hx, ?_, hat, hrewritten⟩
  have hget : list_get_element m self u.length = .ok (some p) := by
    rw [list_get_element_eq h, if_pos (Int.natCast_nonneg _), Int.toNat_natCast,
      List.getElem?_append_right (Nat.le_refl _), Nat.sub_self, List.getElem?_cons_zero]
  obtain ⟨q, hq⟩ : ∃ q, (u ++ p :: v).head? = some q := by
    cases u <;> exact ⟨_, rfl⟩
  rw [list_remove, list_eq h.list, ok_bind]
  simp only [hq, hget, ok_bind, element_eq helement]
  rw [hunlink, ok_bind, hcount, ok_bind]

theorem list_remove_nil (h : List_at m self [] xs) (index : Int) :
    list_remove m self index = .ok (none, m) := by
  rw [list_remove, list_eq h.list, ok_bind]
  rfl

/-- Out of a list that is not empty, the null element is read. -/
theorem list_remove_outside (h : List_at m self es xs) {index : Int} (hes : es ≠ [])
    (hindex : ¬ (0 ≤ index ∧ index < xs.length)) : list_remove m self index = .error .null := by
  have hget : list_get_element m self index = .ok none := by
    rw [list_get_element_eq h]
    split
    · rw [List.getElem?_eq_none (by rw [h.chain.length_eq]; omega)]
    · rfl
  obtain ⟨p, es, rfl⟩ := List.exists_cons_of_ne_nil hes
  rw [list_remove, list_eq h.list, ok_bind]
  simp only [List.head?_cons, hget, ok_bind]
  rfl

end Removal

section Loops

theorem List_at.length_lt_turns (h : List_at m self es xs) : xs.length < m.turns := by
  have hsubset : es ⊆ List.range m.next_element := fun p hp => List.mem_range.mpr (h.below p hp)
  have hle := (h.chain.nodup.subperm hsubset).length_le
  rw [List.length_range, h.chain.length_eq] at hle
  exact Nat.lt_succ_of_le hle

/-- The walk goes on from any element to the first one that meets the condition. -/
theorem list_find_loop (condition : Option α → Bool) (h : Chain m.next m.data (u ++ v) xs) {n : Nat}
    (hn : v.length < n) :
    loop .endless (find_turn m condition) n (v.head?, u.length) =
      .ok (match (xs.drop u.length).findIdx? condition with
        | none => (none, xs.length)
        | some i => (v[i]?, u.length + i)) := by
  induction v generalizing u n with
  | nil =>
    obtain ⟨n, rfl⟩ := Nat.exists_eq_succ_of_ne_zero (Nat.ne_of_gt hn)
    have hlength := h.length_eq
    rw [List.append_nil] at hlength
    rw [List.drop_of_length_le (Nat.le_of_eq hlength.symm), List.findIdx?_nil, ← hlength]
    exact loop_exit n rfl
  | cons p v ih =>
    obtain ⟨n, rfl⟩ := Nat.exists_eq_succ_of_ne_zero (Nat.ne_of_gt (Nat.zero_lt_of_lt hn))
    obtain ⟨x, hx, helement⟩ := chain_element h
    obtain ⟨hlt, rfl⟩ := List.getElem?_eq_some_iff.mp hx
    rw [List.drop_eq_getElem_cons hlt, List.findIdx?_cons]
    by_cases hcondition : condition xs[u.length]
    · rw [if_pos hcondition]
      refine loop_exit n ?_
      simp only [find_turn, List.head?_cons, element_eq helement, ok_bind, if_pos hcondition]
      rfl
    · rw [if_neg hcondition, loop]
      simp only [find_turn, List.head?_cons, element_eq helement, ok_bind, if_neg hcondition]
      have hrest := ih (u := u ++ [p]) (n := n) (by rwa [List.append_assoc])
        (Nat.lt_of_succ_lt_succ hn)
      rw [List.length_append, List.length_singleton] at hrest
      rw [hrest]
      cases (xs.drop (u.length + 1)).findIdx? condition with
      | none => rfl
      | some i =>
        simp only [Option.map_some, List.getElem?_cons_succ, Nat.add_assoc, Nat.add_comm 1 i]

theorem list_find_element_eq (h : List_at m self es xs) (condition : Option α → Bool) :
    list_find_element m self condition = .ok (match xs.findIdx? condition with
      | none => (none, xs.length)
      | some i => (es[i]?, i)) := by
  have hloop := list_find_loop (u := []) condition h.chain
    (by rw [h.chain.length_eq]; exact h.length_lt_turns)
  rw [list_find_element, list_eq h.list, ok_bind]
  refine hloop.trans ?_
  rw [List.length_nil, List.drop_zero]
  cases xs.findIdx? condition with
  | none => rfl
  | some i => simp only [Nat.zero_add]

/-- `list_iterate` runs with the fold of any function over the data that its closure matches, while
the list stays as it is. -/
theorem list_iterate_matches {τ : Type} {R : Nat → Memory α σ → τ → Prop} {t : τ}
    {closure : Option α → Memory α σ → Except Crash (Memory α σ)}
    {closure' : τ → Option α → Except Crash τ} (hlist : m.lists self = some ⟨es.head?, xs.length⟩)
    (hat : ∀ k m t, R k m t → Chain m.next m.data es xs)
    (hstep : ∀ k x m t, xs[k]? = some x → R k m t →
      Matches (R (k + 1)) (closure x m) (closure' t x))
    {n : Nat} (hn : xs.length < n) (hR : R 0 m t) :
    Matches (R xs.length) (list_iterate m self n closure) (xs.foldlM closure' t) := by
  have hloop : ∀ (v u : List Nat) (n : Nat) (m : Memory α σ) (t : τ), es = u ++ v →
      v.length < n → R u.length m t → Matches (R xs.length)
        (loop .endless (iterate_turn closure) n (v.head?, m))
        ((xs.drop u.length).foldlM closure' t) := by
    intro v
    induction v with
    | nil =>
      intro u n m t hes hn hR
      obtain ⟨n, rfl⟩ := Nat.exists_eq_succ_of_ne_zero (Nat.ne_of_gt hn)
      have hlength := (hat _ m t hR).length_eq
      rw [hes, List.append_nil] at hlength
      rw [List.drop_of_length_le (Nat.le_of_eq hlength.symm), List.foldlM_nil,
        loop_exit (a := m) n rfl]
      exact .ok (hlength ▸ hR)
    | cons p v ih =>
      intro u n m t hes hn hR
      obtain ⟨n, rfl⟩ := Nat.exists_eq_succ_of_ne_zero (Nat.ne_of_gt (Nat.zero_lt_of_lt hn))
      obtain ⟨x, hx, helement⟩ := chain_element (hes ▸ hat _ m t hR)
      obtain ⟨hlt, rfl⟩ := List.getElem?_eq_some_iff.mp hx
      rw [List.drop_eq_getElem_cons hlt, List.foldlM_cons, loop]
      simp only [iterate_turn, List.head?_cons, element_eq helement, ok_bind]
      rcases (hstep _ _ m t hx hR).cases with ⟨e, hclosure, hclosure'⟩ |
        ⟨m', t', hclosure, hclosure', hR'⟩
      · rw [hclosure, hclosure']
        exact .error e
      · obtain ⟨y, -, helement'⟩ := chain_element (hes ▸ hat _ m' t' hR')
        rw [hclosure, hclosure', ok_bind, ok_bind, element_eq helement', ok_bind]
        have hrest := ih (u ++ [p]) n m' t' (by rw [hes, List.append_assoc]; rfl)
          (Nat.lt_of_succ_lt_succ hn)
        rw [List.length_append, List.length_singleton] at hrest
        exact hrest hR'
  rw [list_iterate, list_eq hlist, ok_bind]
  exact hloop es [] n m t rfl (by rw [(hat 0 m t hR).length_eq]; exact hn) hR

/-- All the elements are freed, one after the other. -/
theorem list_clean_loop (hchain : Chain m.next m.data es xs) {c : Int}
    (hlist : m.lists self = some ⟨es.head?, c⟩) {n : Nat} (hn : es.length < n) : ∃ m',
    loop .endless (fun m => clean_turn m self) n m = .ok m' ∧ m'.lists self = some ⟨none, c⟩ ∧
      Rewritten m m' self es [] := by
  induction es generalizing xs m n with
  | nil =>
    obtain ⟨n, rfl⟩ := Nat.exists_eq_succ_of_ne_zero (Nat.ne_of_gt hn)
    refine ⟨m, loop_exit n ?_, hlist, fun _ _ => rfl, fun _ _ _ => rfl, ?_, ?_, Nat.le_refl _, rfl,
      rfl⟩
    · rw [clean_turn, list_eq hlist]
      rfl
    · intro p hp
      cases hp
    · intro p hp
      cases hp
  | cons p es ih =>
    obtain ⟨n, rfl⟩ := Nat.exists_eq_succ_of_ne_zero (Nat.ne_of_gt (Nat.zero_lt_of_lt hn))
    obtain ⟨x, -, helement⟩ := chain_element (u := []) hchain
    obtain ⟨hnotin, -⟩ := List.nodup_cons.mp hchain.nodup
    obtain ⟨m₁, hm₁⟩ : ∃ m₁, m₁ = (m.set_list self ⟨es.head?, c⟩).free_element (some p) := ⟨_, rfl⟩
    have hother : ∀ q, q ≠ p → m₁.elements q = m.elements q := by
      intro q hq
      rw [hm₁, free_element_elements_ne hq, set_list_elements]
    have hself : m₁.elements p = none := by
      rw [hm₁]
      exact free_element_elements
    have hrest : Chain m.next m.data es xs.tail := by
      obtain ⟨hnodup, hnext, hdata⟩ := hchain
      cases xs with
      | nil => cases hdata
      | cons y xs => exact ⟨(List.nodup_cons.mp hnodup).2, hnext.2, (List.cons.inj hdata).2⟩
    obtain ⟨m', hloop, hlist', hrewritten⟩ := ih (n := n)
      (chain_of_elements hrest fun q hq => hother q (fun heq => hnotin (heq ▸ hq)))
      (by rw [hm₁]; exact set_list_lists _) (Nat.lt_of_succ_lt_succ hn)
    refine ⟨m', ?_, hlist', ?_, ?_, ?_, ?_, ?_, ?_, ?_⟩
    · rw [loop, clean_turn, list_eq hlist]
      simp only [ok_bind, List.head?_cons, element_eq helement]
      rw [← hm₁]
      exact hloop
    · intro l hl
      rw [hrewritten.lists l hl, hm₁]
      exact set_list_lists_ne _ hl
    · intro q hq hq'
      rw [List.mem_cons, not_or] at hq
      rw [hrewritten.elements q hq.2 hq', hother q hq.1]
    · intro q hq hq'
      by_cases hin : q ∈ es
      · exact hrewritten.freed q hin hq'
      · rcases List.mem_cons.mp hq with rfl | hq
        · rw [hrewritten.elements q hin hq', hself]
        · exact absurd hq hin
    · intro q hq
      cases hq
    · exact Nat.le_trans (by rw [hm₁]; exact Nat.le_refl _) hrewritten.next_element
    · exact hrewritten.next_list.trans (by rw [hm₁]; rfl)
    · exact hrewritten.outside.trans (by rw [hm₁]; rfl)

theorem list_clean_eq (h : List_at m self es xs) : ∃ m', list_clean m self = .ok m' ∧
    List_at m' self [] [] ∧ Rewritten m m' self es [] := by
  obtain ⟨m', hloop, hlist, hrewritten⟩ := list_clean_loop h.chain h.list
    (n := m.turns) (by rw [h.chain.length_eq]; exact h.length_lt_turns)
  refine ⟨m'.set_list self ⟨none, 0⟩, ?_, ⟨set_list_lists _, Chain.nil, ?_, ?_⟩, ?_⟩
  · rw [list_clean, hloop, ok_bind, list_eq hlist, ok_bind]
  · intro p hp
    cases hp
  · rw [List.length_nil, INT_MAX]
    omega
  · refine ⟨?_, hrewritten.elements, hrewritten.freed, hrewritten.new, hrewritten.next_element,
      hrewritten.next_list, hrewritten.outside⟩
    intro l hl
    rw [set_list_lists_ne _ hl, hrewritten.lists l hl]

end Loops

end LaLiga.Collections
