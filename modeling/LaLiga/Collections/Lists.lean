import LaLiga.Collections.Chains

/-! What the functions of a list are for: finite sequences at addresses, and nothing left behind. -/
namespace LaLiga.Collections

open LaLiga.Lib

/-- The sequences at the addresses in use, and the address that the next one gets. -/
structure Lists (α σ : Type) where
  lists : Nat → Option (List (Option α))
  next : Nat
  outside : σ

variable {α σ : Type}

/-- A call of a function of a list, but for those that only make other calls. -/
inductive Operation (α σ : Type)
  | list_create
  | list_add (self : Nat) (data : Option α)
  | list_add_in_index (self : Nat) (index : Int32) (data : Option α)
  | list_get (self : Nat) (index : Int32)
  | list_replace (self : Nat) (index : Int32) (data : Option α)
  | list_replace_and_destroy_element (self : Nat) (num : Int32) (data : Option α)
      (element_destroyer : Option α → σ → Except Crash σ)
  | list_find (self : Nat) (condition : Option α → Bool)
  | list_remove (self : Nat) (index : Int32)
  | list_remove_by_condition (self : Nat) (condition : Option α → Bool)
  | list_remove_and_destroy_element (self : Nat) (index : Int32)
      (element_destroyer : Option α → σ → Except Crash σ)
  | list_remove_and_destroy_by_condition (self : Nat) (condition : Option α → Bool)
      (element_destroyer : Option α → σ → Except Crash σ)
  | list_size (self : Nat)
  | list_is_empty (self : Nat)
  | list_clean (self : Nat)
  | list_clean_and_destroy_elements (self : Nat) (element_destroyer : Option α → σ → Except Crash σ)
  | list_destroy (self : Nat)
  | list_destroy_and_destroy_elements (self : Nat)
      (element_destroyer : Option α → σ → Except Crash σ)
  | list_take (self : Nat) (count : Int32)
  | list_take_and_remove (self : Nat) (count : Int32)
  | list_filter (self : Nat) (condition : Option α → Bool)
  | list_map (self : Nat) (transformer : Option α → Option α)

inductive Answer (α : Type)
  | void
  | list (self : Nat)
  | data (data : Option α)
  | int (n : Int)
  | bool (b : Bool)

/-- The list that the function is called for. -/
def Operation.self : Operation α σ → Option Nat
  | .list_create => none
  | .list_add self _ | .list_add_in_index self _ _ | .list_get self _ | .list_replace self _ _
  | .list_replace_and_destroy_element self _ _ _ | .list_find self _ | .list_remove self _
  | .list_remove_by_condition self _ | .list_remove_and_destroy_element self _ _
  | .list_remove_and_destroy_by_condition self _ _ | .list_size self | .list_is_empty self
  | .list_clean self | .list_clean_and_destroy_elements self _ | .list_destroy self
  | .list_destroy_and_destroy_elements self _ | .list_take self _ | .list_take_and_remove self _
  | .list_filter self _ | .list_map self _ => some self

def answer {β τ : Type} (f : β → Answer α) (x : Except Crash (β × τ)) :
    Except Crash (Answer α × τ) := x.map fun r => (f r.1, r.2)

/-- The functions that change nothing, and those that return nothing. -/
def answer_of {β τ : Type} (m : τ) (f : β → Answer α) (x : Except Crash β) :
    Except Crash (Answer α × τ) := x.map fun r => (f r, m)

def no_answer {τ : Type} (x : Except Crash τ) : Except Crash (Answer α × τ) :=
  x.map fun m => (.void, m)

def Memory.perform (m : Memory α σ) : Operation α σ → Except Crash (Answer α × Memory α σ)
  | .list_create => answer .list (.ok (list_create m))
  | .list_add self data => answer .int (list_add m self data)
  | .list_add_in_index self index data => no_answer (list_add_in_index m self index.toInt data)
  | .list_get self index => answer_of m .data (list_get m self index.toInt)
  | .list_replace self index data => answer .data (list_replace m self index.toInt data)
  | .list_replace_and_destroy_element self num data element_destroyer =>
    no_answer (list_replace_and_destroy_element m self num.toInt data element_destroyer)
  | .list_find self condition => answer_of m .data (list_find m self condition)
  | .list_remove self index => answer .data (list_remove m self index.toInt)
  | .list_remove_by_condition self condition =>
    answer .data (list_remove_by_condition m self condition)
  | .list_remove_and_destroy_element self index element_destroyer =>
    no_answer (list_remove_and_destroy_element m self index.toInt element_destroyer)
  | .list_remove_and_destroy_by_condition self condition element_destroyer =>
    no_answer (list_remove_and_destroy_by_condition m self condition element_destroyer)
  | .list_size self => answer_of m .int (list_size m self)
  | .list_is_empty self => answer_of m .bool (list_is_empty m self)
  | .list_clean self => no_answer (list_clean m self)
  | .list_clean_and_destroy_elements self element_destroyer =>
    no_answer (list_clean_and_destroy_elements m self element_destroyer)
  | .list_destroy self => no_answer (list_destroy m self)
  | .list_destroy_and_destroy_elements self element_destroyer =>
    no_answer (list_destroy_and_destroy_elements m self element_destroyer)
  | .list_take self count => answer .list (list_take m self count.toInt)
  | .list_take_and_remove self count => answer .list (list_take_and_remove m self count.toInt)
  | .list_filter self condition => answer .list (list_filter m self condition)
  | .list_map self transformer => answer .list (list_map m self transformer)

namespace Lists

variable (s : Lists α σ) (self : Nat) (xs : List (Option α))

def set : Lists α σ := { s with lists := Function.update s.lists self (some xs) }

def unset : Lists α σ := { s with lists := Function.update s.lists self none }

def create (ys : List (Option α)) : Nat × Lists α σ :=
  (s.next, { s.set s.next ys with next := s.next + 1 })

def call (element_destroyer : Option α → σ → Except Crash σ) (data : Option α) :
    Except Crash (Lists α σ) := do
  let outside ← element_destroyer data s.outside
  .ok { s with outside }

def call_all (element_destroyer : Option α → σ → Except Crash σ) : Except Crash (Lists α σ) :=
  xs.foldlM (fun s data => s.call element_destroyer data) s

/-- An `int` counts the elements. -/
def fits (ys : List (Option α)) : Except Crash (Lists α σ) :=
  if (xs.length : Int) = INT_MAX then .error .overflow else .ok (s.set self ys)

def replace (index : Int) (data : Option α) : Option α × Lists α σ :=
  if 0 ≤ index ∧ index < xs.length then
    (xs[index.toNat]?.join, s.set self (xs.set index.toNat data))
  else (none, s)

/-- Out of the bounds an empty list has nothing to remove, and any other one the null element. -/
def remove (index : Int) : Except Crash (Option α × Lists α σ) :=
  if 0 ≤ index ∧ index < xs.length then
    .ok (xs[index.toNat]?.join, s.set self (xs.eraseIdx index.toNat))
  else if xs = [] then .ok (none, s) else .error .null

def remove_by_condition (condition : Option α → Bool) : Option α × Lists α σ :=
  match xs.findIdx? condition with
  | none => (none, s)
  | some i => (xs[i]?.join, s.set self (xs.eraseIdx i))

/-- What is taken beyond the end is null. -/
def taken (count : Int) : List (Option α) :=
  xs.take count.toNat ++ List.replicate (count.toNat - xs.length) none

/-- The operation on a list that has the data `xs`. -/
def perform_on : Operation α σ → Except Crash (Answer α × Lists α σ)
  | .list_create => answer .list (.ok (s.create []))
  | .list_add self data =>
    (s.fits self xs (xs ++ [data])).map fun s => (.int xs.length, s)
  | .list_add_in_index self index data =>
    if 0 ≤ index.toInt ∧ index.toInt < xs.length then
      no_answer (s.fits self xs (xs.insertIdx index.toInt.toNat data))
    else .ok (.void, s)
  | .list_get _ index =>
    .ok (.data (if 0 ≤ index.toInt then xs[index.toInt.toNat]?.join else none), s)
  | .list_replace self index data => answer .data (.ok (s.replace self xs index.toInt data))
  | .list_replace_and_destroy_element self num data element_destroyer =>
    let (old_data, s) := s.replace self xs num.toInt data
    no_answer (s.call element_destroyer old_data)
  | .list_find _ condition => .ok (.data (xs.find? condition).join, s)
  | .list_remove self index => answer .data (s.remove self xs index.toInt)
  | .list_remove_by_condition self condition =>
    answer .data (.ok (s.remove_by_condition self xs condition))
  | .list_remove_and_destroy_element self index element_destroyer => do
    let (data, s) ← s.remove self xs index.toInt
    no_answer (s.call element_destroyer data)
  | .list_remove_and_destroy_by_condition self condition element_destroyer =>
    let (data, s) := s.remove_by_condition self xs condition
    no_answer (s.call element_destroyer data)
  | .list_size _ => .ok (.int xs.length, s)
  | .list_is_empty _ => .ok (.bool xs.isEmpty, s)
  | .list_clean self => .ok (.void, s.set self [])
  | .list_clean_and_destroy_elements self element_destroyer => do
    let s ← s.call_all xs element_destroyer
    .ok (.void, s.set self [])
  | .list_destroy self => .ok (.void, s.unset self)
  | .list_destroy_and_destroy_elements self element_destroyer => do
    let s ← s.call_all xs element_destroyer
    .ok (.void, s.unset self)
  | .list_take _ count => answer .list (.ok (s.create (taken xs count.toInt)))
  | .list_take_and_remove self count =>
    answer .list (.ok ((s.set self (xs.drop count.toInt.toNat)).create (taken xs count.toInt)))
  | .list_filter _ condition => answer .list (.ok (s.create (xs.filter condition)))
  | .list_map _ transformer => answer .list (.ok (s.create (xs.map transformer)))

def perform (op : Operation α σ) : Except Crash (Answer α × Lists α σ) :=
  match op.self with
  | none => s.perform_on [] op
  | some self =>
    match s.lists self with
    | none => .error .freed
    | some xs => s.perform_on xs op

end Lists

/-- Each list in use is the sequence at its address, with elements of its own, and each element
belongs to one of them. -/
structure Holds (nodes : Nat → List Nat) (m : Memory α σ) (s : Lists α σ) : Prop where
  outside : m.outside = s.outside
  next : m.next_list = s.next
  live : ∀ l xs, s.lists l = some xs → List_at m l (nodes l) xs
  dead : ∀ l, s.lists l = none → m.lists l = none ∧ nodes l = []
  owned : ∀ p, (m.elements p).isSome → ∃ l, p ∈ nodes l
  apart : ∀ l l' p, p ∈ nodes l → p ∈ nodes l' → l = l'
  below : ∀ p, (m.elements p).isSome → p < m.next_element
  fresh : ∀ l, s.next ≤ l → s.lists l = none

section Frames

variable {nodes : Nat → List Nat} {m m' : Memory α σ} {s : Lists α σ} {self : Nat}
  {es' : List Nat} {xs xs' : List (Option α)} {d : Option α}

theorem set_lists_self : (s.set self xs).lists self = some xs := Function.update_self ..

theorem unset_lists_self : (s.unset self).lists self = none := Function.update_self ..

theorem create_lists_self : (s.create xs).2.lists s.next = some xs := Function.update_self ..

theorem Rewritten.other {l : Nat} {es ys : List Nat} {zs : List (Option α)}
    (hr : Rewritten m m' self es es') (h : List_at m l ys zs) (hl : l ≠ self)
    (hdisj : ∀ p ∈ ys, p ∉ es) : List_at m' l ys zs where
  list := (hr.lists l hl).trans h.list
  chain := by
    refine chain_of_elements h.chain ?_
    intro p hp
    refine hr.elements p (hdisj p hp) ?_
    intro hp'
    rcases hr.new p hp' with hold | hnew
    · exact hdisj p hp hold
    · exact Nat.not_lt_of_le hnew (h.below p hp)
  below := fun p hp => Nat.lt_of_lt_of_le (h.below p hp) hr.next_element
  int := h.int

namespace Holds

/-- What happens to one list leaves the others as they are, and no element without a list. -/
theorem rewritten (h : Holds nodes m s) (hxs : s.lists self = some xs)
    (hr : Rewritten m m' self (nodes self) es') (hat : List_at m' self es' xs') :
    Holds (Function.update nodes self es') m' (s.set self xs') := by
  have hself : Function.update nodes self es' self = es' := Function.update_self ..
  have hother : ∀ l, l ≠ self → Function.update nodes self es' l = nodes l :=
    fun l hl => Function.update_of_ne hl ..
  have hlists : ∀ l, l ≠ self → (s.set self xs').lists l = s.lists l :=
    fun l hl => Function.update_of_ne hl ..
  have hset : (s.set self xs').lists self = some xs' := set_lists_self
  have hnot : ∀ l p, l ≠ self → p ∈ nodes l → p ∉ es' := by
    intro l p hl hp hp'
    rcases hr.new p hp' with hold | hnew
    · exact hl (h.apart l self p hp hold)
    · cases hl' : s.lists l with
      | none =>
        rw [(h.dead l hl').2] at hp
        cases hp
      | some ys => exact Nat.not_lt_of_le hnew ((h.live l ys hl').below p hp)
  have hkept : ∀ p, p ∉ es' → (m'.elements p).isSome → p ∉ nodes self ∧ (m.elements p).isSome := by
    intro p hp' hp
    by_cases hin : p ∈ nodes self
    · rw [hr.freed p hin hp'] at hp
      cases hp
    · rw [hr.elements p hin hp'] at hp
      exact ⟨hin, hp⟩
  refine ⟨hr.outside.trans h.outside, hr.next_list.trans h.next, ?_, ?_, ?_, ?_, ?_, ?_⟩
  · intro l ys hl
    by_cases hne : l = self
    · subst hne
      rw [hset] at hl
      cases hl
      rwa [hself]
    · rw [hlists l hne] at hl
      rw [hother l hne]
      exact hr.other (h.live l ys hl) hne fun p hp hp' => hne (h.apart l self p hp hp')
  · intro l hl
    by_cases hne : l = self
    · subst hne
      rw [hset] at hl
      cases hl
    · rw [hlists l hne] at hl
      rw [hother l hne, hr.lists l hne]
      exact h.dead l hl
  · intro p hp
    by_cases hp' : p ∈ es'
    · exact ⟨self, by rwa [hself]⟩
    · obtain ⟨hin, hsome⟩ := hkept p hp' hp
      obtain ⟨l, hl⟩ := h.owned p hsome
      have hne : l ≠ self := by
        rintro rfl
        exact hin hl
      exact ⟨l, by rwa [hother l hne]⟩
  · intro l l' p hp hp'
    by_cases hne : l = self
    · by_cases hne' : l' = self
      · rw [hne, hne']
      · subst hne
        rw [hself] at hp
        rw [hother l' hne'] at hp'
        exact absurd hp (hnot l' p hne' hp')
    · rw [hother l hne] at hp
      by_cases hne' : l' = self
      · subst hne'
        rw [hself] at hp'
        exact absurd hp' (hnot l p hne hp)
      · rw [hother l' hne'] at hp'
        exact h.apart l l' p hp hp'
  · intro p hp
    by_cases hp' : p ∈ es'
    · exact hat.below p hp'
    · exact Nat.lt_of_lt_of_le (h.below p (hkept p hp' hp).2) hr.next_element
  · intro l hl
    have hne : l ≠ self := by
      rintro rfl
      rw [h.fresh l hl] at hxs
      cases hxs
    rw [hlists l hne]
    exact h.fresh l hl

/-- A list without elements is freed. -/
theorem freed (h : Holds nodes m s) (hself : nodes self = []) :
    Holds nodes (m.free_list self) (s.unset self) := by
  have hother : ∀ l, l ≠ self → (s.unset self).lists l = s.lists l :=
    fun l hl => Function.update_of_ne hl ..
  have hlists : ∀ l, l ≠ self → (m.free_list self).lists l = m.lists l :=
    fun l hl => Function.update_of_ne hl ..
  refine ⟨h.outside, h.next, ?_, ?_, h.owned, h.apart, h.below, ?_⟩
  · intro l ys hl
    by_cases hne : l = self
    · subst hne
      rw [unset_lists_self] at hl
      cases hl
    · rw [hother l hne] at hl
      obtain ⟨hlist, hchain, hbelow, hint⟩ := h.live l ys hl
      exact ⟨(hlists l hne).trans hlist, hchain, hbelow, hint⟩
  · intro l hl
    by_cases hne : l = self
    · subst hne
      exact ⟨Function.update_self .., hself⟩
    · rw [hother l hne] at hl
      rw [hlists l hne]
      exact h.dead l hl
  · intro l hl
    by_cases hne : l = self
    · subst hne
      exact Function.update_self ..
    · rw [hother l hne]
      exact h.fresh l hl

/-- A new list is empty. -/
theorem created (h : Holds nodes m s) : Holds nodes (list_create m).2 (s.create []).2 := by
  have hnodes : nodes s.next = [] := (h.dead s.next (h.fresh s.next (Nat.le_refl _))).2
  have hother : ∀ l, l ≠ s.next → (s.create []).2.lists l = s.lists l :=
    fun l hl => Function.update_of_ne hl ..
  have hlists : ∀ l, l ≠ s.next → (list_create m).2.lists l = m.lists l := by
    intro l hl
    rw [← h.next] at hl
    exact set_list_lists_ne _ hl
  refine ⟨h.outside, congrArg (· + 1) h.next, ?_, ?_, h.owned, h.apart, h.below, ?_⟩
  · intro l ys hl
    by_cases hne : l = s.next
    · subst hne
      obtain rfl : [] = ys := Option.some.inj (create_lists_self.symm.trans hl)
      rw [hnodes, ← h.next]
      refine ⟨set_list_lists _, Chain.nil, ?_, ?_⟩
      · intro p hp
        cases hp
      · rw [List.length_nil, INT_MAX]
        omega
    · rw [hother l hne] at hl
      obtain ⟨hlist, hchain, hbelow, hint⟩ := h.live l ys hl
      exact ⟨(hlists l hne).trans hlist, hchain, hbelow, hint⟩
  · intro l hl
    have hne : l ≠ s.next := by
      rintro rfl
      rw [create_lists_self] at hl
      cases hl
    rw [hother l hne] at hl
    rw [hlists l hne]
    exact h.dead l hl
  · intro l hl
    have hlt : s.next < l := hl
    rw [hother l (Nat.ne_of_gt hlt)]
    exact h.fresh l (Nat.le_of_lt hlt)

end Holds

end Frames

end LaLiga.Collections
