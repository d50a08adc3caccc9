import LaLiga.Lib.Chain
import LaLiga.Lib.Fallible
import LaLiga.Lib.Loop

/-! The lists of the commons, on a memory whose blocks are never given twice. -/
namespace LaLiga.Collections

open LaLiga.Lib

structure t_link_element (α : Type) where
  data : Option α
  next : Option Nat

structure t_list where
  head : Option Nat
  elements_count : Int

/-- The blocks in use, by their addresses, the addresses that `malloc` gives next, and whatever
is neither a list nor an element of one. -/
structure Memory (α σ : Type) where
  elements : Nat → Option (t_link_element α)
  lists : Nat → Option t_list
  next_element : Nat
  next_list : Nat
  outside : σ

inductive Crash
  | null
  | freed
  | overflow
  | endless
  deriving DecidableEq

def INT_MAX : Int := 2147483647

variable {α σ : Type}

namespace Memory

variable (m : Memory α σ)

def list (self : Nat) : Except Crash t_list :=
  match m.lists self with
  | none => .error .freed
  | some list => .ok list

def element : Option Nat → Except Crash (t_link_element α)
  | none => .error .null
  | some p =>
    match m.elements p with
    | none => .error .freed
    | some element => .ok element

def set_list (self : Nat) (list : t_list) : Memory α σ :=
  { m with lists := Function.update m.lists self (some list) }

def set_element (p : Nat) (element : t_link_element α) : Memory α σ :=
  { m with elements := Function.update m.elements p (some element) }

def free_list (self : Nat) : Memory α σ := { m with lists := Function.update m.lists self none }

def free_element : Option Nat → Memory α σ
  | none => m
  | some p => { m with elements := Function.update m.elements p none }

/-- A function of the caller, that knows nothing of lists. -/
def call (element_destroyer : Option α → σ → Except Crash σ) (data : Option α) :
    Except Crash (Memory α σ) := do
  let outside ← element_destroyer data m.outside
  .ok { m with outside }

/-- A list without a cycle is walked in that many turns. -/
def turns : Nat := m.next_element + 1

end Memory

section Functions

variable (m : Memory α σ) (self : Nat)

def increment (n : Int) : Except Crash Int := if n = INT_MAX then .error .overflow else .ok (n + 1)

/-- `self->elements_count++` -/
def count_up : Except Crash (Memory α σ) := do
  let list ← m.list self
  let elements_count ← increment list.elements_count
  .ok (m.set_list self { list with elements_count })

/-- `self->elements_count--` -/
def count_down : Except Crash (Memory α σ) := do
  let list ← m.list self
  .ok (m.set_list self { list with elements_count := list.elements_count - 1 })

def list_link_element (previous next : Option Nat) : Except Crash (Memory α σ) :=
  match previous with
  | none => .ok m
  | some p => do
    let element ← m.element previous
    .ok (m.set_element p { element with next })

def list_create_element (data : Option α) : Nat × Memory α σ :=
  (m.next_element,
    { m.set_element m.next_element ⟨data, none⟩ with next_element := m.next_element + 1 })

/-- `while (cont < index)` -/
def list_walk : Nat → Option Nat → Except Crash (Option Nat)
  | 0, element => .ok element
  | n + 1, p => do
    let element ← m.element p
    list_walk n element.next

def list_get_element (index : Int) : Except Crash (Option Nat) := do
  let list ← m.list self
  if list.elements_count > index ∧ index ≥ 0 then list_walk m index.toNat list.head else .ok none

/-- `while (element != NULL && !condition(element->data))` -/
def find_turn (condition : Option α → Bool) :
    Option Nat × Nat → Except Crash ((Option Nat × Nat) ⊕ (Option Nat × Nat))
  | (none, position) => .ok (.inr (none, position))
  | (some p, position) => do
    let element ← m.element (some p)
    if condition element.data then .ok (.inr (some p, position))
    else .ok (.inl (element.next, position + 1))

/-- The element, and where the walk has stopped. -/
def list_find_element (condition : Option α → Bool) : Except Crash (Option Nat × Nat) := do
  let list ← m.list self
  loop .endless (find_turn m condition) m.turns (list.head, 0)

def list_create : Nat × Memory α σ :=
  (m.next_list, { m.set_list m.next_list ⟨none, 0⟩ with next_list := m.next_list + 1 })

def list_add (data : Option α) : Except Crash (Int × Memory α σ) := do
  let (new_element, m) := list_create_element m data
  let list ← m.list self
  let m ← (if list.elements_count = 0 then
      .ok (m.set_list self { list with head := some new_element })
    else do
      let last ← list_get_element m self (list.elements_count - 1)
      list_link_element m last (some new_element))
  let m ← count_up m self
  let list ← m.list self
  .ok (list.elements_count - 1, m)

def list_get (index : Int) : Except Crash (Option α) := do
  let element_in_index ← list_get_element m self index
  match element_in_index with
  | none => .ok none
  | some p => do
    let element ← m.element (some p)
    .ok element.data

def list_add_in_index (index : Int) (data : Option α) : Except Crash (Memory α σ) := do
  let list ← m.list self
  if list.elements_count > index ∧ index ≥ 0 then do
    let (new_element, m) := list_create_element m data
    let m ← (if index = 0 then do
        let m ← list_link_element m (some new_element) list.head
        .ok (m.set_list self { list with head := some new_element })
      else do
        let next ← list_get_element m self index
        let previous ← list_get_element m self (index - 1)
        let m ← list_link_element m previous (some new_element)
        list_link_element m (some new_element) next)
    count_up m self
  else .ok m

def list_replace (index : Int) (data : Option α) : Except Crash (Option α × Memory α σ) := do
  let element ← list_get_element m self index
  match element with
  | none => .ok (none, m)
  | some p => do
    let element ← m.element (some p)
    .ok (element.data, m.set_element p { element with data })

def list_replace_and_destroy_element (num : Int) (data : Option α)
    (element_destroyer : Option α → σ → Except Crash σ) : Except Crash (Memory α σ) := do
  let (old_data, m) ← list_replace m self num data
  m.call element_destroyer old_data

def list_find (condition : Option α → Bool) : Except Crash (Option α) := do
  let (element, _) ← list_find_element m self condition
  match element with
  | none => .ok none
  | some p => do
    let element ← m.element (some p)
    .ok element.data

/-- `while (element != NULL)` -/
def iterate_turn (closure : Option α → Memory α σ → Except Crash (Memory α σ)) :
    Option Nat × Memory α σ → Except Crash ((Option Nat × Memory α σ) ⊕ Memory α σ)
  | (none, m) => .ok (.inr m)
  | (some p, m) => do
    let element ← m.element (some p)
    let m ← closure element.data m
    let element ← m.element (some p)
    .ok (.inl (element.next, m))

def list_iterate (turns : Nat) (closure : Option α → Memory α σ → Except Crash (Memory α σ)) :
    Except Crash (Memory α σ) := do
  let list ← m.list self
  loop .endless (iterate_turn closure) turns (list.head, m)

def list_remove (index : Int) : Except Crash (Option α × Memory α σ) := do
  let list ← m.list self
  match list.head with
  | none => .ok (none, m)
  | some _ => do
    let aux_element ← list_get_element m self index
    let element ← m.element aux_element
    let m ← (if index = 0 then .ok (m.set_list self { list with head := element.next })
      else do
        let previous ← list_get_element m self (index - 1)
        list_link_element m previous element.next)
    let m ← count_down m self
    .ok (element.data, m.free_element aux_element)

def list_remove_by_condition (condition : Option α → Bool) :
    Except Crash (Option α × Memory α σ) := do
  let (element, index) ← list_find_element m self condition
  match element with
  | none => .ok (none, m)
  | some _ => list_remove m self index

def list_remove_and_destroy_element (index : Int)
    (element_destroyer : Option α → σ → Except Crash σ) : Except Crash (Memory α σ) := do
  let (data, m) ← list_remove m self index
  m.call element_destroyer data

def list_remove_and_destroy_by_condition (condition : Option α → Bool)
    (element_destroyer : Option α → σ → Except Crash σ) : Except Crash (Memory α σ) := do
  let (data, m) ← list_remove_by_condition m self condition
  m.call element_destroyer data

def list_size : Except Crash Int := do
  let list ← m.list self
  .ok list.elements_count

def list_is_empty : Except Crash Bool := do
  let size ← list_size m self
  .ok (size == 0)

/-- `while (self->head != NULL)` -/
def clean_turn : Except Crash (Memory α σ ⊕ Memory α σ) := do
  let list ← m.list self
  match list.head with
  | none => .ok (.inr m)
  | some p => do
    let element ← m.element (some p)
    .ok (.inl ((m.set_list self { list with head := element.next }).free_element (some p)))

def list_clean : Except Crash (Memory α σ) := do
  let m ← loop .endless (fun m => clean_turn m self) m.turns m
  let list ← m.list self
  .ok (m.set_list self { list with elements_count := 0 })

def list_clean_and_destroy_elements (element_destroyer : Option α → σ → Except Crash σ) :
    Except Crash (Memory α σ) := do
  let m ← list_iterate m self m.turns fun data m => m.call element_destroyer data
  list_clean m self

def list_destroy : Except Crash (Memory α σ) := do
  let m ← list_clean m self
  .ok (m.free_list self)

def list_destroy_and_destroy_elements (element_destroyer : Option α → σ → Except Crash σ) :
    Except Crash (Memory α σ) := do
  let m ← list_clean_and_destroy_elements m self element_destroyer
  .ok (m.free_list self)

/-- `for (i = 0; i < count; ++i)` -/
def list_take (count : Int) : Except Crash (Nat × Memory α σ) := do
  let (sublist, m) := list_create m
  let m ← (List.range count.toNat).foldlM (fun m (i : Nat) => do
    let element ← list_get m self i
    let (_, m) ← list_add m sublist element
    .ok m) m
  .ok (sublist, m)

def list_take_and_remove (count : Int) : Except Crash (Nat × Memory α σ) := do
  let (sublist, m) := list_create m
  let m ← (List.range count.toNat).foldlM (fun m _ => do
    let (element, m) ← list_remove m self 0
    let (_, m) ← list_add m sublist element
    .ok m) m
  .ok (sublist, m)

def list_filter (condition : Option α → Bool) : Except Crash (Nat × Memory α σ) := do
  let (filtered, m) := list_create m
  let m ← list_iterate m self m.turns fun element m =>
    if condition element then do
      let (_, m) ← list_add m filtered element
      .ok m
    else .ok m
  .ok (filtered, m)

def list_map (transformer : Option α → Option α) : Except Crash (Nat × Memory α σ) := do
  let (mapped, m) := list_create m
  let m ← list_iterate m self m.turns fun element m => do
    let new_element := transformer element
    let (_, m) ← list_add m mapped new_element
    .ok m
  .ok (mapped, m)

/-- A queue is known by the list of its elements. -/
def queue_create : Nat × Memory α σ := list_create m

def queue_push (element : Option α) : Except Crash (Memory α σ) := do
  let (_, m) ← list_add m self element
  .ok m

def queue_pop : Except Crash (Option α × Memory α σ) := list_remove m self 0

end Functions

end LaLiga.Collections
