import LaLiga.Collections.Refinement
import LaLiga.Lib.Counting

/-! The queue of the server under any number of threads that push and pop. -/
namespace LaLiga.Rfs.TaskQueue

open LaLiga.Lib LaLiga.Collections

variable {W α : Type}

/-- What a thread does next: nothing with the queue, or a step of `s_queue_push` or of
`s_queue_pop`. -/
inductive Place (α : Type)
  | out
  | push_lock (element : Option α)
  | queue_push (element : Option α)
  | push_unlock
  | sem_post
  | sem_wait
  | pop_lock
  | queue_pop
  | pop_unlock (elem : Option α)

structure State (W α : Type) where
  memory : Memory α Unit
  available_elements : Nat
  access : Option W
  place : W → Place α

inductive Event (W α : Type)
  | push (w : W) (element : Option α)
  | pop (w : W) (elem : Option α)
  | other (w : W)

section Steps

variable [DecidableEq W]

def State.goto (s : State W α) (w : W) (p : Place α) : State W α :=
  { s with place := Function.update s.place w p }

def State.lock (s : State W α) (w : W) : State W α := { s with access := some w }

def State.unlock (s : State W α) : State W α := { s with access := none }

inductive Step (queue : Nat) : State W α → Event W α → State W α → Prop
  | s_queue_push {s : State W α} {w : W} {element : Option α} (hp : s.place w = .out) :
      Step queue s (.other w) (s.goto w (.push_lock element))
  | push_lock {s : State W α} {w : W} {element : Option α} (hp : s.place w = .push_lock element)
      (ha : s.access = none) : Step queue s (.other w) ((s.lock w).goto w (.queue_push element))
  | queue_push {s : State W α} {w : W} {element : Option α} {m : Memory α Unit}
      (hp : s.place w = .queue_push element) (hm : queue_push s.memory queue element = .ok m) :
      Step queue s (.push w element) ({ s with memory := m }.goto w .push_unlock)
  | push_unlock {s : State W α} {w : W} (hp : s.place w = .push_unlock) :
      Step queue s (.other w) (s.unlock.goto w .sem_post)
  | sem_post {s : State W α} {w : W} (hp : s.place w = .sem_post) :
      Step queue s (.other w)
        ({ s with available_elements := s.available_elements + 1 }.goto w .out)
  | s_queue_pop {s : State W α} {w : W} (hp : s.place w = .out) :
      Step queue s (.other w) (s.goto w .sem_wait)
  | sem_wait {s : State W α} {w : W} {n : Nat} (hp : s.place w = .sem_wait)
      (hn : s.available_elements = n + 1) :
      Step queue s (.other w) ({ s with available_elements := n }.goto w .pop_lock)
  | pop_lock {s : State W α} {w : W} (hp : s.place w = .pop_lock) (ha : s.access = none) :
      Step queue s (.other w) ((s.lock w).goto w .queue_pop)
  | queue_pop {s : State W α} {w : W} {elem : Option α} {m : Memory α Unit}
      (hp : s.place w = .queue_pop) (hm : queue_pop s.memory queue = .ok (elem, m)) :
      Step queue s (.pop w elem) ({ s with memory := m }.goto w (.pop_unlock elem))
  | pop_unlock {s : State W α} {w : W} {elem : Option α} (hp : s.place w = .pop_unlock elem) :
      Step queue s (.other w) (s.unlock.goto w .out)

/-- The queue that `s_queue_create` makes. -/
def s_queue_create : State W α where
  memory := (queue_create (Memory.empty ())).2
  available_elements := 0
  access := none
  place := fun _ => .out

end Steps

/-- Between `pthread_mutex_lock` and `pthread_mutex_unlock`. -/
def Place.locked : Place α → Bool
  | .queue_push _ | .push_unlock | .queue_pop | .pop_unlock _ => true
  | _ => false

/-- An element that is pushed but not posted yet, or waited for and not popped yet. -/
def Place.due : Place α → Nat
  | .push_unlock | .sem_post | .pop_lock | .queue_pop => 1
  | _ => 0

/-- Nothing is in the memory but the queue. -/
def Contents (m : Memory α Unit) (queue : Nat) (xs : List (Option α)) : Prop :=
  ∃ t, Represents m t ∧ t.lists queue = some xs ∧ ∀ l, l ≠ queue → t.lists l = none

structure Inv [Fintype W] (queue : Nat) (s : State W α) (xs : List (Option α)) : Prop where
  contents : Contents s.memory queue xs
  access : ∀ w, (s.place w).locked = true ↔ s.access = some w
  count : xs.length = s.available_elements + ∑ w, (s.place w).due

/-- What the events do to the elements of a queue. -/
def Fifo (xs : List (Option α)) (e : Event W α) (ys : List (Option α)) : Prop :=
  match e with
  | .push _ element => ys = xs ++ [element]
  | .pop _ elem => xs = elem :: ys
  | .other _ => ys = xs

section Memory

variable {m m' : Memory α Unit} {queue : Nat} {xs : List (Option α)} {d : Option α}

theorem Contents.push (h : Contents m queue xs) (hm : queue_push m queue d = .ok m') :
    Contents m' queue (xs ++ [d]) := by
  obtain ⟨t, ⟨nodes, h⟩, hxs, hother⟩ := h
  rw [queue_push] at hm
  by_cases hint : (xs.length : Int) = INT_MAX
  · rw [list_add_overflow (h.live queue xs hxs) hint] at hm
    cases hm
  · obtain ⟨m'', es', hadd, hholds⟩ := h.list_add hxs hint d
    rw [hadd] at hm
    cases hm
    refine ⟨_, ⟨_, hholds⟩, set_lists_self, ?_⟩
    intro l hl
    exact (Function.update_of_ne hl ..).trans (hother l hl)

theorem Contents.can_push (h : Contents m queue xs) (hint : (xs.length : Int) ≠ INT_MAX)
    (d : Option α) : ∃ m', queue_push m queue d = .ok m' := by
  obtain ⟨t, ⟨nodes, h⟩, hxs, -⟩ := h
  obtain ⟨m', es', hadd, -⟩ := h.list_add hxs hint d
  exact ⟨m', by rw [queue_push, hadd]; rfl⟩

theorem Contents.can_pop (h : Contents m queue (d :: xs)) :
    ∃ m', queue_pop m queue = .ok (d, m') ∧ Contents m' queue xs := by
  obtain ⟨t, ⟨nodes, h⟩, hxs, hother⟩ := h
  obtain ⟨m', es', hremove, hholds⟩ := h.removed hxs (i := 0) (Nat.zero_lt_succ _)
  refine ⟨m', hremove, _, ⟨_, hholds⟩, set_lists_self, ?_⟩
  intro l hl
  exact (Function.update_of_ne hl ..).trans (hother l hl)

end Memory

section Invariant

variable [DecidableEq W] {queue : Nat} {s s' : State W α} {xs ys : List (Option α)} {w : W}
  {p : Place α} {e : Event W α} {es : List (Event W α)}

theorem goto_place_self : (s.goto w p).place w = p := Function.update_self ..

theorem goto_place_of_ne {v : W} (hv : v ≠ w) : (s.goto w p).place v = s.place v :=
  Function.update_of_ne hv ..

/-- The mutex is held by whom its place says, once `w` goes on to `p`. -/
def Held (s : State W α) (w : W) (p : Place α) (access : Option W) : Prop :=
  ∀ v, (Function.update s.place w p v).locked = true ↔ access = some v

variable [Fintype W]

namespace Inv

theorem kept (h : Inv queue s xs) (hl : p.locked = (s.place w).locked) :
    Held s w p s.access := by
  intro v
  rw [← h.access v]
  by_cases hv : v = w
  · subst hv
    rw [Function.update_self, hl]
  · rw [Function.update_of_ne hv]

theorem taken (h : Inv queue s xs) (hfree : s.access = none) (hl : p.locked = true) :
    Held s w p (some w) := by
  intro v
  by_cases hv : v = w
  · subst hv
    rw [Function.update_self, hl]
    exact ⟨fun _ => rfl, fun _ => rfl⟩
  · rw [Function.update_of_ne hv, h.access v, hfree]
    constructor
    · intro hnone
      cases hnone
    · intro hw
      exact absurd (Option.some.inj hw).symm hv

theorem released (h : Inv queue s xs) (hw : (s.place w).locked = true) (hl : p.locked = false) :
    Held s w p none := by
  intro v
  by_cases hv : v = w
  · subst hv
    rw [Function.update_self, hl]
    constructor
    · intro hfalse
      cases hfalse
    · intro hnone
      cases hnone
  · rw [Function.update_of_ne hv, h.access v, (h.access w).mp hw]
    constructor
    · intro hsome
      exact absurd (Option.some.inj hsome).symm hv
    · intro hnone
      cases hnone

/-- A step of one thread. -/
theorem moved (h : Inv queue s xs) {m : Memory α Unit} {n : Nat} {a : Option W}
    (hm : Contents m queue ys) (ha : Held s w p a)
    (hn : ys.length + (s.place w).due + s.available_elements = xs.length + p.due + n) :
    Inv queue (State.goto ⟨m, n, a, s.place⟩ w p) ys where
  contents := hm
  access := ha
  count := by
    have hsum := sum_update Place.due s.place w p
    have hcount := h.count
    have hplace : (State.goto ⟨m, n, a, s.place⟩ w p : State W α).place =
      Function.update s.place w p := rfl
    have havailable : (State.goto ⟨m, n, a, s.place⟩ w p : State W α).available_elements = n := rfl
    rw [hplace, havailable]
    omega

omit [DecidableEq W] in
theorem due_le (h : Inv queue s xs) (w : W) : (s.place w).due ≤ xs.length := by
  have hterm := le_sum_term (fun v => (s.place v).due) w
  have hcount := h.count
  omega

omit [DecidableEq W] in
/-- Who is about to pop finds an element. -/
theorem pop_found (h : Inv queue s xs) (hp : s.place w = .queue_pop) :
    ∃ elem ys, xs = elem :: ys := by
  have hdue := h.due_le w
  rw [hp, Place.due] at hdue
  exact List.exists_cons_of_length_pos hdue

theorem step (h : Step queue s e s') (hi : Inv queue s xs) :
    ∃ ys, Fifo xs e ys ∧ Inv queue s' ys := by
  cases h with
  | s_queue_push hp =>
    exact ⟨xs, rfl, hi.moved hi.contents (hi.kept (by rw [hp]; rfl)) (by rw [hp]; rfl)⟩
  | push_lock hp ha =>
    exact ⟨xs, rfl, hi.moved hi.contents (hi.taken ha rfl) (by rw [hp]; rfl)⟩
  | queue_push hp hm =>
    refine ⟨_, rfl, hi.moved (hi.contents.push hm) (hi.kept (by rw [hp]; rfl)) ?_⟩
    rw [hp, List.length_append]
    exact Nat.add_right_comm _ _ _
  | push_unlock hp =>
    exact ⟨xs, rfl, hi.moved hi.contents (hi.released (by rw [hp]; rfl) rfl) (by rw [hp]; rfl)⟩
  | sem_post hp =>
    refine ⟨xs, rfl, hi.moved hi.contents (hi.kept (by rw [hp]; rfl)) ?_⟩
    rw [hp]
    exact Nat.add_right_comm _ _ _
  | s_queue_pop hp =>
    exact ⟨xs, rfl, hi.moved hi.contents (hi.kept (by rw [hp]; rfl)) (by rw [hp]; rfl)⟩
  | sem_wait hp hn =>
    refine ⟨xs, rfl, hi.moved hi.contents (hi.kept (by rw [hp]; rfl)) ?_⟩
    rw [hp, hn]
    simp only [Place.due]
    omega
  | pop_lock hp ha =>
    exact ⟨xs, rfl, hi.moved hi.contents (hi.taken ha rfl) (by rw [hp]; rfl)⟩
  | queue_pop hp hm =>
    obtain ⟨elem, ys, rfl⟩ := hi.pop_found hp
    obtain ⟨m', hpop, hcontents⟩ := hi.contents.can_pop
    rw [hpop] at hm
    cases hm
    refine ⟨ys, rfl, hi.moved hcontents (hi.kept (by rw [hp]; rfl)) ?_⟩
    rw [hp]
    rfl
  | pop_unlock hp =>
    exact ⟨xs, rfl, hi.moved hi.contents (hi.released (by rw [hp]; rfl) rfl) (by rw [hp]; rfl)⟩

end Inv

omit [DecidableEq W] in
theorem inv_create : Inv 0 (s_queue_create : State W α) [] where
  contents := by
    refine ⟨((Lists.empty ()).create []).2, ?_, create_lists_self, ?_⟩
    · obtain ⟨nodes, h⟩ := represents_empty (α := α) ()
      exact ⟨nodes, h.created⟩
    · intro l hl
      exact create_lists_ne _ _ hl
  access := by
    intro w
    constructor
    · intro h
      cases h
    · intro h
      cases h
  count := by
    simp [s_queue_create, Place.due]

end Invariant

section Runs

def Event.thread : Event W α → W
  | .push w _ | .pop w _ | .other w => w

/-- The elements that the events have pushed, in order. -/
def pushes (es : List (Event W α)) : List (Option α) :=
  es.filterMap fun e =>
    match e with
    | .push _ element => some element
    | _ => none

/-- The elements that the events have popped, in order. -/
def pops (es : List (Event W α)) : List (Option α) :=
  es.filterMap fun e =>
    match e with
    | .pop _ elem => some elem
    | _ => none

/-- What is pushed comes out in the same order, once, or is still there. -/
theorem fifo_history {xs ys : List (Option α)} {es : List (Event W α)} (h : Trace Fifo xs es ys) :
    xs ++ pushes es = pops es ++ ys := by
  induction h with
  | refl => rw [pushes, pops, List.filterMap_nil, List.filterMap_nil, List.append_nil,
      List.nil_append]
  | @stepL xs zs ys e es hstep _ ih =>
    cases e with
    | push w element =>
      obtain rfl : zs = xs ++ [element] := hstep
      rw [List.append_assoc] at ih
      exact ih
    | pop w elem =>
      obtain rfl : xs = elem :: zs := hstep
      exact congrArg (elem :: ·) ih
    | other w =>
      obtain rfl : zs = xs := hstep
      exact ih

variable [DecidableEq W] [Fintype W] {queue : Nat} {s s' : State W α} {xs ys : List (Option α)}
  {v w : W} {es : List (Event W α)}

namespace Inv

/-- The thread that holds the mutex goes on. -/
theorem holder_steps (h : Inv queue s xs) (hint : (xs.length : Int) ≠ INT_MAX)
    (hw : (s.place w).locked = true) : ∃ e s', e.thread = w ∧ Step queue s e s' := by
  cases hp : s.place w with
  | queue_push element =>
    obtain ⟨m, hm⟩ := h.contents.can_push hint element
    exact ⟨_, _, rfl, .queue_push hp hm⟩
  | push_unlock => exact ⟨_, _, rfl, .push_unlock hp⟩
  | queue_pop =>
    obtain ⟨elem, ys, rfl⟩ := h.pop_found hp
    obtain ⟨m, hm, -⟩ := h.contents.can_pop
    exact ⟨_, _, rfl, .queue_pop hp hm⟩
  | pop_unlock elem => exact ⟨_, _, rfl, .pop_unlock hp⟩
  | _ =>
    rw [hp] at hw
    cases hw

/-- While a thread is in one of the functions, and does not wait for an element, one of them
goes on. -/
theorem goes_on (h : Inv queue s xs) (hint : (xs.length : Int) ≠ INT_MAX)
    (hout : s.place w ≠ .out) (hwait : s.place w ≠ .sem_wait) :
    ∃ v e s', s.place v ≠ .out ∧ e.thread = v ∧ Step queue s e s' := by
  have hholder : ∀ v, (s.place v).locked = true →
      ∃ v e s', s.place v ≠ .out ∧ e.thread = v ∧ Step queue s e s' := by
    intro v hv
    obtain ⟨e, s', he, hstep⟩ := h.holder_steps hint hv
    refine ⟨v, e, s', ?_, he, hstep⟩
    intro hnone
    rw [hnone] at hv
    cases hv
  cases hp : s.place w with
  | out => exact absurd hp hout
  | sem_wait => exact absurd hp hwait
  | push_lock element =>
    cases ha : s.access with
    | none => exact ⟨w, _, _, hout, rfl, .push_lock hp ha⟩
    | some v => exact hholder v ((h.access v).mpr ha)
  | pop_lock =>
    cases ha : s.access with
    | none => exact ⟨w, _, _, hout, rfl, .pop_lock hp ha⟩
    | some v => exact hholder v ((h.access v).mpr ha)
  | sem_post => exact ⟨w, _, _, hout, rfl, .sem_post hp⟩
  | _ => exact hholder w (by rw [hp]; rfl)

end Inv

theorem step_simulated :
    Simulated (Inv (W := W) (α := α) queue) (Step queue) Fifo := by
  intro s e s' xs hi hstep
  exact hi.step hstep

/-- In every interleaving of the threads the queue is first in, first out, with nothing lost, popped
twice or left in the memory; one thread at a time is at it, and whoever pops finds an element. When
no thread is in between, as many threads can pop as there are elements. No run gets stuck before the
queue has as many elements as an `int` counts, but for threads that wait for an element. -/
theorem task_queue_exact (hrun : Trace (Step 0) s_queue_create es s) :
    ∃ xs, pushes es = pops es ++ xs ∧ Contents s.memory 0 xs ∧
      (∀ v w, (s.place v).locked = true → (s.place w).locked = true → v = w) ∧
      (∀ w, s.place w = .queue_pop → ∃ elem m, queue_pop s.memory 0 = .ok (elem, m)) ∧
      ((∀ w, (s.place w).due = 0) → s.available_elements = xs.length) ∧
      ((xs.length : Int) ≠ INT_MAX → ∀ w, s.place w ≠ .out → s.place w ≠ .sem_wait →
        ∃ v e s', s.place v ≠ .out ∧ e.thread = v ∧ Step 0 s e s') := by
  obtain ⟨xs, htrace, hi⟩ := step_simulated.trace hrun inv_create
  refine ⟨xs, fifo_history htrace, hi.contents, ?_, ?_, ?_, ?_⟩
  · intro v w hv hw
    exact Option.some.inj (((hi.access v).mp hv).symm.trans ((hi.access w).mp hw))
  · intro w hp
    obtain ⟨elem, ys, rfl⟩ := hi.pop_found hp
    obtain ⟨m, hm, -⟩ := hi.contents.can_pop
    exact ⟨elem, m, hm⟩
  · intro hdue
    have hcount := hi.count
    rw [Finset.sum_eq_zero fun w _ => hdue w] at hcount
    exact hcount.symm
  · exact fun hint w hout hwait => hi.goes_on hint hout hwait

/-- One of two threads has pushed an element and the other one has called `s_queue_pop`. -/
theorem one_pushed : ∃ (s : State Bool Nat) (xs : List (Option Nat)),
    pushes (W := Bool) [.other true, .other true, .push true (some 7), .other false] =
        pops (W := Bool) [.other true, .other true, .push true (some 7), .other false] ++ xs ∧
      Contents s.memory 0 xs ∧
      (∀ v w, (s.place v).locked = true → (s.place w).locked = true → v = w) ∧
      (∀ w, s.place w = .queue_pop → ∃ elem m, queue_pop s.memory 0 = .ok (elem, m)) ∧
      ((∀ w, (s.place w).due = 0) → s.available_elements = xs.length) ∧
      ((xs.length : Int) ≠ INT_MAX → ∀ w, s.place w ≠ .out → s.place w ≠ .sem_wait →
        ∃ v e s', s.place v ≠ .out ∧ e.thread = v ∧ Step 0 s e s') := by
  obtain ⟨m, hm⟩ : ∃ m, queue_push (queue_create (Memory.empty ())).2 0 (some 7) = .ok m :=
    ⟨_, rfl⟩
  obtain ⟨s₀, hs₀⟩ : ∃ s : State Bool Nat, s = s_queue_create := ⟨_, rfl⟩
  obtain ⟨s₁, hs₁⟩ : ∃ s, s = s₀.goto true (.push_lock (some 7)) := ⟨_, rfl⟩
  obtain ⟨s₂, hs₂⟩ : ∃ s, s = (s₁.lock true).goto true (.queue_push (some 7)) := ⟨_, rfl⟩
  have hcall : Step 0 s₀ (.other true) s₁ := by
    rw [hs₁]
    exact .s_queue_push (by rw [hs₀]; rfl)
  have hlock : Step 0 s₁ (.other true) s₂ := by
    rw [hs₂]
    exact .push_lock (by rw [hs₁]; rfl) (by rw [hs₁, hs₀]; rfl)
  have hpush : Step 0 s₂ (.push true (some 7)) ({ s₂ with memory := m }.goto true .push_unlock) :=
    .queue_push (by rw [hs₂]; rfl) (by rw [hs₂, hs₁, hs₀]; exact hm)
  have hpop : Step 0 ({ s₂ with memory := m }.goto true .push_unlock) (.other false) _ :=
    .s_queue_pop (by rw [hs₂, hs₁, hs₀]; rfl)
  rw [hs₀] at hcall
  obtain ⟨xs, h⟩ := task_queue_exact (.stepL hcall (.stepL hlock (.stepL hpush (.single hpop))))
  exact ⟨_, xs, h⟩

end Runs

end LaLiga.Rfs.TaskQueue
