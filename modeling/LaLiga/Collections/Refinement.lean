import LaLiga.Collections.Lists

/-! Every run of the functions of a list is one of the sequences at its addresses. -/
namespace LaLiga.Collections

open LaLiga.Lib

variable {α σ : Type} {nodes : Nat → List Nat} {m m' : Memory α σ} {s s' : Lists α σ} {self : Nat}
  {xs : List (Option α)} {d : Option α} {index : Int}

/-- The memory holds the sequences. -/
def Represents (m : Memory α σ) (s : Lists α σ) : Prop := ∃ nodes, Holds nodes m s

def Alike {β : Type} (r : β × Memory α σ) (t : β × Lists α σ) : Prop :=
  r.1 = t.1 ∧ Represents r.2 t.2

section Functions

/-- The bounds that the functions check. -/
theorem in_bounds (hindex : 0 ≤ index ∧ index < xs.length) :
    ∃ i : Nat, index = i ∧ i < xs.length := by
  obtain ⟨i, rfl⟩ := Int.eq_ofNat_of_zero_le hindex.1
  exact ⟨i, rfl, Int.ofNat_lt.mp hindex.2⟩

namespace Holds

theorem cut (h : Holds nodes m s) (hxs : s.lists self = some xs) {i : Nat} (hi : i < xs.length) :
    ∃ p, List_at m self ((nodes self).take i ++ p :: (nodes self).drop (i + 1)) xs ∧
      ((nodes self).take i).length = i ∧
      nodes self = (nodes self).take i ++ p :: (nodes self).drop (i + 1) := by
  have hat := h.live self xs hxs
  rw [← hat.chain.length_eq] at hi
  have hcut : nodes self =
      (nodes self).take i ++ (nodes self)[i] :: (nodes self).drop (i + 1) := by
    rw [← List.drop_eq_getElem_cons hi, List.take_append_drop]
  refine ⟨(nodes self)[i], hcut ▸ hat, ?_, hcut⟩
  rw [List.length_take, Nat.min_eq_left (Nat.le_of_lt hi)]

theorem list_add (h : Holds nodes m s) (hxs : s.lists self = some xs)
    (hint : (xs.length : Int) ≠ INT_MAX) (d : Option α) :
    ∃ m' es', Collections.list_add m self d = .ok ((xs.length : Int), m') ∧
      Holds (Function.update nodes self es') m' (s.set self (xs ++ [d])) := by
  obtain ⟨m', hadd, hat, hrewritten⟩ := list_add_eq (d := d) (h.live self xs hxs) hint
  exact ⟨m', _, hadd, h.rewritten hxs hrewritten hat⟩

theorem add_matches (h : Holds nodes m s) (hxs : s.lists self = some xs) (d : Option α) :
    Matches Alike (Collections.list_add m self d)
      ((s.fits self xs (xs ++ [d])).map fun s => ((xs.length : Int), s)) := by
  by_cases hint : (xs.length : Int) = INT_MAX
  · rw [list_add_overflow (h.live self xs hxs) hint, Lists.fits, if_pos hint]
    exact Matches.error Crash.overflow
  · obtain ⟨m', es', hadd, hholds⟩ := h.list_add hxs hint d
    rw [hadd, Lists.fits, if_neg hint]
    exact .ok ⟨rfl, _, hholds⟩

theorem add_in_index_matches (h : Holds nodes m s) (hxs : s.lists self = some xs) (index : Int)
    (d : Option α) : Matches Represents (list_add_in_index m self index d)
      (if 0 ≤ index ∧ index < xs.length then s.fits self xs (xs.insertIdx index.toNat d)
      else .ok s) := by
  split
  · obtain ⟨i, rfl, hi⟩ := in_bounds ‹_›
    obtain ⟨p, hat, hlength, hcut⟩ := h.cut hxs hi
    rw [Int.toNat_natCast]
    by_cases hint : (xs.length : Int) = INT_MAX
    · have hover := list_add_in_index_overflow (d := d) hat (List.cons_ne_nil _ _) hint
      rw [hlength] at hover
      rw [hover, Lists.fits, if_pos hint]
      exact Matches.error Crash.overflow
    · obtain ⟨m', hadd, hat', hrewritten⟩ :=
        list_add_in_index_eq (d := d) hat (List.cons_ne_nil _ _) hint
      rw [hlength] at hadd hat'
      rw [← hcut] at hrewritten
      rw [hadd, Lists.fits, if_neg hint]
      exact .ok ⟨_, h.rewritten hxs hrewritten hat'⟩
  · rw [list_add_in_index_outside (h.live self xs hxs) ‹_›]
    exact .ok ⟨nodes, h⟩

theorem replace_alike (h : Holds nodes m s) (hxs : s.lists self = some xs) (index : Int)
    (d : Option α) : ∃ r, list_replace m self index d = .ok r ∧
      Alike r (s.replace self xs index d) := by
  rw [Lists.replace]
  split
  · obtain ⟨i, rfl, hi⟩ := in_bounds ‹_›
    obtain ⟨m', hreplace, hat, hrewritten⟩ :=
      list_replace_eq (d := d) (h.live self xs hxs) (List.getElem?_eq_getElem hi)
    refine ⟨_, hreplace, ?_, _, h.rewritten hxs hrewritten hat⟩
    rw [Int.toNat_natCast, List.getElem?_eq_getElem hi]
    rfl
  · exact ⟨_, list_replace_outside (h.live self xs hxs) ‹_›, rfl, nodes, h⟩

theorem removed (h : Holds nodes m s) (hxs : s.lists self = some xs) {i : Nat}
    (hi : i < xs.length) : ∃ m' es', Collections.list_remove m self i = .ok (xs[i], m') ∧
      Holds (Function.update nodes self es') m' (s.set self (xs.eraseIdx i)) := by
  obtain ⟨p, hat, hlength, hcut⟩ := h.cut hxs hi
  obtain ⟨x, m', hx, hremove, hat', hrewritten⟩ := list_remove_eq hat
  rw [hlength] at hremove hx hat'
  rw [← hcut] at hrewritten
  rw [List.getElem?_eq_getElem hi, Option.some_inj] at hx
  subst hx
  exact ⟨m', _, hremove, h.rewritten hxs hrewritten hat'⟩

theorem remove_matches (h : Holds nodes m s) (hxs : s.lists self = some xs) (index : Int) :
    Matches Alike (list_remove m self index) (s.remove self xs index) := by
  have hat := h.live self xs hxs
  rw [Lists.remove]
  split
  · obtain ⟨i, rfl, hi⟩ := in_bounds ‹_›
    obtain ⟨m', es', hremove, hholds⟩ := h.removed hxs hi
    rw [hremove, Int.toNat_natCast, List.getElem?_eq_getElem hi]
    exact .ok ⟨rfl, _, hholds⟩
  · split
    · subst xs
      rw [hat.nil_iff.mpr rfl] at hat
      rw [list_remove_nil hat]
      exact .ok ⟨rfl, nodes, h⟩
    · rw [list_remove_outside hat ?_ ‹_›]
      · exact Matches.error Crash.null
      · intro hnil
        have hzero := hat.nil_iff.mp hnil
        exact ‹¬ xs = []› (List.length_eq_zero_iff.mp (Int.natCast_eq_zero.mp hzero))

theorem remove_by_condition_alike (h : Holds nodes m s) (hxs : s.lists self = some xs)
    (condition : Option α → Bool) : ∃ r, list_remove_by_condition m self condition = .ok r ∧
      Alike r (s.remove_by_condition self xs condition) := by
  have hat := h.live self xs hxs
  rw [list_remove_by_condition, list_find_element_eq hat, ok_bind, Lists.remove_by_condition]
  cases hfind : xs.findIdx? condition with
  | none => exact ⟨_, rfl, rfl, nodes, h⟩
  | some i =>
    obtain ⟨hi, -⟩ := List.findIdx?_eq_some_iff_getElem.mp hfind
    obtain ⟨m', es', hremove, hholds⟩ := h.removed hxs hi
    have hi' := hi
    rw [← hat.chain.length_eq] at hi'
    have hx : xs[i]?.join = xs[i] := by
      rw [List.getElem?_eq_getElem hi]
      rfl
    refine ⟨(xs[i], m'), ?_, hx.symm, _, hholds⟩
    simp only [List.getElem?_eq_getElem hi']
    exact hremove

theorem find_eq (h : Holds nodes m s) (hxs : s.lists self = some xs)
    (condition : Option α → Bool) :
    list_find m self condition = .ok (xs.find? condition).join := by
  have hat := h.live self xs hxs
  rw [list_find, list_find_element_eq hat, ok_bind, List.find?_eq_bind_findIdx?_getElem?]
  cases hfind : xs.findIdx? condition with
  | none => rfl
  | some i =>
    obtain ⟨hi, -⟩ := List.findIdx?_eq_some_iff_getElem.mp hfind
    have hi' := hi
    rw [← hat.chain.length_eq] at hi'
    obtain ⟨x, hx, helement⟩ := hat.getElem (List.getElem?_eq_getElem hi')
    simp only [List.getElem?_eq_getElem hi', element_eq helement, ok_bind, Option.bind_some, hx]
    rfl

theorem cleaned (h : Holds nodes m s) (hxs : s.lists self = some xs) : ∃ m',
    list_clean m self = .ok m' ∧
      Holds (Function.update nodes self []) m' (s.set self []) := by
  obtain ⟨m', hclean, hat, hrewritten⟩ := list_clean_eq (h.live self xs hxs)
  exact ⟨m', hclean, h.rewritten hxs hrewritten hat⟩

theorem destroyed (h : Holds nodes m s) (hxs : s.lists self = some xs) : ∃ m',
    list_destroy m self = .ok m' ∧ Represents m' (s.unset self) := by
  obtain ⟨m', hclean, hholds⟩ := h.cleaned hxs
  have hfreed := hholds.freed (Function.update_self ..)
  have hunset : (s.set self []).unset self = s.unset self := by
    rw [Lists.unset, Lists.unset, Lists.set, Function.update_idem]
  rw [hunset] at hfreed
  exact ⟨m'.free_list self, by rw [list_destroy, hclean, ok_bind], _, hfreed⟩

/-- The outside world is no part of a list. -/
theorem called (h : Holds nodes m s) (element_destroyer : Option α → σ → Except Crash σ)
    (d : Option α) : Matches (Holds nodes) (m.call element_destroyer d)
      (s.call element_destroyer d) := by
  rw [Memory.call, Lists.call, h.outside]
  cases element_destroyer d s.outside with
  | error e => exact .error e
  | ok outside => exact .ok ⟨rfl, h.next, fun l ys hl => ⟨(h.live l ys hl).list,
      (h.live l ys hl).chain, (h.live l ys hl).below, (h.live l ys hl).int⟩, h.dead, h.owned,
      h.apart, h.below, h.fresh⟩

end Holds

end Functions

section Copies

theorem taken_succ (xs : List (Option α)) (n : Nat) :
    Lists.taken xs ((n : Int) + 1) = Lists.taken xs n ++ [xs[n]?.join] := by
  have hn : ((n : Int) + 1).toNat = n + 1 := rfl
  rw [Lists.taken, Lists.taken, hn, Int.toNat_natCast, List.take_add_one]
  by_cases hlt : n < xs.length
  · have hpad : n + 1 - xs.length = 0 ∧ n - xs.length = 0 := by omega
    rw [hpad.1, hpad.2, List.getElem?_eq_getElem hlt, List.replicate_zero, List.append_nil,
      List.append_nil]
    rfl
  · have hpad : n + 1 - xs.length = n - xs.length + 1 := by omega
    rw [List.getElem?_eq_none (Nat.le_of_not_lt hlt), hpad, List.replicate_succ',
      ← List.append_assoc, Option.toList_none, List.append_nil]
    rfl

theorem count_le (count : Int32) : (count.toInt.toNat : Int) ≤ INT_MAX := by
  have hlt := count.toInt_lt
  rw [INT_MAX]
  omega

theorem taken_toNat (xs : List (Option α)) (count : Int) :
    Lists.taken xs count.toNat = Lists.taken xs count := by
  rw [Lists.taken, Lists.taken, Int.toNat_natCast]

theorem flatMap_ite (condition : Option α → Bool) (xs : List (Option α)) :
    xs.flatMap (fun x => if condition x then [x] else []) = xs.filter condition := by
  induction xs with
  | nil => rfl
  | cons x xs ih =>
    rw [List.flatMap_cons, List.filter_cons, ih]
    split <;> rfl

theorem length_taken (xs : List (Option α)) (n : Nat) : (Lists.taken xs n).length = n := by
  rw [Lists.taken, List.length_append, List.length_take, List.length_replicate, Int.toNat_natCast]
  omega

theorem create_set (s : Lists α σ) (xs ys : List (Option α)) :
    (s.create xs).2.set s.next ys = (s.create ys).2 := by
  simp only [Lists.create, Lists.set, Function.update_idem]

theorem create_lists_ne (s : Lists α σ) (xs : List (Option α)) {l : Nat} (hl : l ≠ s.next) :
    (s.create xs).2.lists l = s.lists l := Function.update_of_ne hl ..

theorem set_create_lists (s : Lists α σ) {l : Nat} (hl : l ≠ s.next) (xs zs : List (Option α)) :
    ((s.set l zs).create xs).2.lists l = some zs :=
  (Function.update_of_ne hl ..).trans (Function.update_self ..)

theorem set_create_set (s : Lists α σ) {l : Nat} (hl : l ≠ s.next) (xs ys zs : List (Option α)) :
    ((s.set l zs).create xs).2.set l ys = ((s.set l ys).create xs).2 := by
  simp only [Lists.create, Lists.set]
  rw [Function.update_comm hl.symm, Function.update_idem, Function.update_comm hl]

namespace Holds

theorem ne_next (h : Holds nodes m s) (hxs : s.lists self = some xs) : self ≠ s.next := by
  rintro rfl
  rw [h.fresh _ (Nat.le_refl _)] at hxs
  cases hxs

/-- One more datum for the list that is made. -/
theorem grown {ys : List (Option α)} (h : Holds nodes m (s.create ys).2)
    (hint : (ys.length : Int) ≠ INT_MAX) (d : Option α) :
    ∃ m' es', Collections.list_add m s.next d = .ok ((ys.length : Int), m') ∧
      Holds (Function.update nodes s.next es') m' (s.create (ys ++ [d])).2 := by
  obtain ⟨m', es', hadd, hholds⟩ := h.list_add create_lists_self hint d
  rw [create_set] at hholds
  exact ⟨m', es', hadd, hholds⟩

theorem take_loop (h : Holds nodes m s) (hxs : s.lists self = some xs) (n : Nat)
    (hn : (n : Int) ≤ INT_MAX) : ∃ nodes' m', (List.range n).foldlM (fun m i => do
      let element ← list_get m self i
      let (_, m) ← Collections.list_add m s.next element
      .ok m) (list_create m).2 = .ok m' ∧ Holds nodes' m' (s.create (Lists.taken xs n)).2 := by
  induction n with
  | zero =>
    have hempty : Lists.taken xs (0 : Nat) = [] := by
      simp only [Lists.taken, Int.toNat_natCast, List.take_zero, Nat.zero_sub, List.replicate_zero,
        List.append_nil]
    rw [hempty]
    exact ⟨nodes, _, rfl, h.created⟩
  | succ n ih =>
    obtain ⟨nodes', m', hloop, hholds⟩ := ih (by omega)
    have hlists := (create_lists_ne s (Lists.taken xs n) (h.ne_next hxs)).trans hxs
    have hget := list_get_eq (hholds.live self xs hlists) n
    rw [if_pos (Int.natCast_nonneg n), Int.toNat_natCast] at hget
    obtain ⟨m'', es', hadd, hgrown⟩ := hholds.grown (by rw [length_taken]; omega) xs[n]?.join
    rw [Nat.cast_add, Nat.cast_one, taken_succ]
    refine ⟨_, m'', ?_, hgrown⟩
    rw [List.range_succ, List.foldlM_append, hloop, ok_bind, List.foldlM_cons, hget, ok_bind, hadd,
      ok_bind, ok_bind, List.foldlM_nil]
    rfl

theorem take_and_remove_loop (h : Holds nodes m s) (hxs : s.lists self = some xs) (n : Nat)
    (hn : (n : Int) ≤ INT_MAX) : ∃ nodes' m', (List.range n).foldlM (fun m _ => do
      let (element, m) ← Collections.list_remove m self 0
      let (_, m) ← Collections.list_add m s.next element
      .ok m) (list_create m).2 = .ok m' ∧
        Holds nodes' m' ((s.set self (xs.drop n)).create (Lists.taken xs n)).2 := by
  have hnext : self ≠ s.next := h.ne_next hxs
  induction n with
  | zero =>
    have hempty : Lists.taken xs (0 : Nat) = [] := by
      simp only [Lists.taken, Int.toNat_natCast, List.take_zero, Nat.zero_sub, List.replicate_zero,
        List.append_nil]
    have hsame : s.set self xs = s := by
      rw [Lists.set, ← hxs, Function.update_eq_self]
    rw [hempty, List.drop_zero, hsame]
    exact ⟨nodes, _, rfl, h.created⟩
  | succ n ih =>
    obtain ⟨nodes', m', hloop, hholds⟩ := ih (by omega)
    have hlists : ((s.set self (xs.drop n)).create (Lists.taken xs n)).2.lists self =
      some (xs.drop n) := set_create_lists s hnext _ _
    have hrest : (xs.drop n).tail = xs.drop (n + 1) := by
      rw [List.tail_drop]
    -- what is removed is the datum at `n`, or nothing from an empty list
    obtain ⟨m₁, nodes₁, hremove, hholds₁⟩ : ∃ m₁ nodes₁,
        Collections.list_remove m' self 0 = .ok (xs[n]?.join, m₁) ∧
          Holds nodes₁ m₁ ((s.set self (xs.drop (n + 1))).create (Lists.taken xs n)).2 := by
      cases hdrop : xs.drop n with
      | nil =>
        have hat := hholds.live self _ hlists
        rw [hdrop] at hat hholds
        rw [hat.nil_iff.mpr rfl] at hat
        rw [List.drop_eq_nil_iff] at hdrop
        rw [List.getElem?_eq_none hdrop, List.drop_eq_nil_of_le (Nat.le_succ_of_le hdrop)]
        exact ⟨m', nodes', list_remove_nil hat 0, hholds⟩
      | cons x rest =>
        rw [hdrop] at hlists hrest hholds
        obtain ⟨m₁, es', hremove, hholds₁⟩ := hholds.removed hlists (i := 0) (Nat.zero_lt_succ _)
        have hx : xs[n]?.join = x := by
          rw [← List.head?_drop, hdrop]
          rfl
        rw [hx, ← hrest, List.tail_cons]
        rw [List.eraseIdx_zero, List.tail_cons, set_create_set s hnext] at hholds₁
        exact ⟨m₁, _, hremove, hholds₁⟩
    obtain ⟨m'', es', hadd, hgrown⟩ := hholds₁.grown (by rw [length_taken]; omega) xs[n]?.join
    have hadd' : Collections.list_add m₁ s.next xs[n]?.join =
      .ok ((Lists.taken xs n).length, m'') := hadd
    rw [Nat.cast_add, Nat.cast_one, taken_succ]
    refine ⟨_, m'', ?_, hgrown⟩
    rw [List.range_succ, List.foldlM_append, hloop, ok_bind, List.foldlM_cons, hremove, ok_bind]
    dsimp only
    rw [hadd', ok_bind, ok_bind, List.foldlM_nil]
    rfl

/-- `list_filter` and `list_map` add to the new list what they make of each element, if anything. -/
theorem copied (h : Holds nodes m s) (hxs : s.lists self = some xs)
    (f : Option α → List (Option α)) (hf : ∀ x, (f x).length ≤ 1)
    (closure : Option α → Memory α σ → Except Crash (Memory α σ))
    (hskip : ∀ x m, f x = [] → closure x m = .ok m)
    (hadd : ∀ x y m, f x = [y] → closure x m = (do
      let (_, m) ← Collections.list_add m s.next y
      .ok m)) : ∃ nodes' m', list_iterate (list_create m).2 self (list_create m).2.turns closure =
        .ok m' ∧ Holds nodes' m' (s.create (xs.flatMap f)).2 := by
  have hnext : self ≠ s.next := h.ne_next hxs
  have hint := (h.live self xs hxs).int
  have hat : ∀ ys nodes' m', Holds nodes' m' (s.create ys).2 → List_at m' self (nodes' self) xs :=
    fun ys nodes' m' h' => h'.live self xs ((create_lists_ne s ys hnext).trans hxs)
  let R : Nat → Memory α σ → List (Option α) → Prop := fun k m' ys => ys = (xs.take k).flatMap f ∧
    ys.length ≤ k ∧ ∃ nodes', nodes' self = nodes self ∧ Holds nodes' m' (s.create ys).2
  have hmatch : Matches (R xs.length)
      (list_iterate (list_create m).2 self (list_create m).2.turns closure)
      (xs.foldlM (fun ys x => Except.ok (ys ++ f x)) []) := by
    refine list_iterate_matches (hat [] nodes _ h.created).list ?_ ?_
      (hat [] nodes _ h.created).length_lt_turns ⟨rfl, Nat.zero_le _, nodes, rfl, h.created⟩
    · rintro k m' ys ⟨-, -, nodes', hself, h'⟩
      have hchain := (hat ys nodes' m' h').chain
      rwa [hself] at hchain
    · rintro k x m' ys hx ⟨hys, hlength, nodes', hself, h'⟩
      obtain ⟨hk, rfl⟩ := List.getElem?_eq_some_iff.mp hx
      have htake : ys ++ f xs[k] = (xs.take (k + 1)).flatMap f := by
        rw [List.take_succ_eq_append_getElem hk, List.flatMap_append, List.flatMap_singleton, ← hys]
      have hone := hf xs[k]
      cases hmade : f xs[k] with
      | nil =>
        rw [hmade] at htake
        rw [List.append_nil] at htake ⊢
        rw [hskip _ _ hmade]
        exact .ok ⟨htake, Nat.le_succ_of_le hlength, nodes', hself, h'⟩
      | cons y rest =>
        rw [hmade, List.length_cons] at hone
        obtain rfl : rest = [] := List.length_eq_zero_iff.mp (by omega)
        rw [hmade] at htake
        obtain ⟨m'', es', hgrown, hholds⟩ := h'.grown (by omega) y
        rw [hadd _ _ _ hmade, hgrown]
        refine .ok ⟨htake, ?_, _, ?_, hholds⟩
        · rw [List.length_append, List.length_singleton]
          exact Nat.succ_le_succ hlength
        · rw [Function.update_of_ne hnext, hself]
  have hfold : ∀ (ys zs : List (Option α)),
      zs.foldlM (fun ys x => (Except.ok (ys ++ f x) : Except Crash _)) ys =
        .ok (ys ++ zs.flatMap f) := by
    intro ys zs
    induction zs generalizing ys with
    | nil => rw [List.foldlM_nil, List.flatMap_nil, List.append_nil]; rfl
    | cons z zs ih => rw [List.foldlM_cons, ok_bind, ih, List.flatMap_cons, List.append_assoc]
  rw [hfold, List.nil_append] at hmatch
  rcases hmatch.cases with ⟨e, -, he⟩ | ⟨m', ys, hiterate, hys, -, -, nodes', -, h'⟩
  · cases he
  · cases hys
    exact ⟨nodes', m', hiterate, h'⟩

theorem filtered (h : Holds nodes m s) (hxs : s.lists self = some xs)
    (condition : Option α → Bool) : ∃ nodes' m', list_filter m self condition = .ok (s.next, m') ∧
      Holds nodes' m' (s.create (xs.filter condition)).2 := by
  obtain ⟨f, hf⟩ : ∃ f : Option α → List (Option α), f = fun x => if condition x then [x] else [] :=
    ⟨_, rfl⟩
  have hkept : ∀ x, condition x = true → f x = [x] := by
    intro x hx
    rw [hf]
    exact if_pos hx
  have hdropped : ∀ x, ¬ condition x = true → f x = [] := by
    intro x hx
    rw [hf]
    exact if_neg hx
  have hone : ∀ x, (f x).length ≤ 1 := by
    intro x
    by_cases hx : condition x
    · rw [hkept x hx]
      exact Nat.le_refl _
    · rw [hdropped x hx]
      exact Nat.zero_le _
  have hskip : ∀ x (m : Memory α σ), f x = [] → (if condition x then do
      let (_, m) ← Collections.list_add m s.next x
      .ok m
    else .ok m) = .ok m := by
    intro x m hx
    refine if_neg ?_
    intro hcondition
    rw [hkept x hcondition] at hx
    cases hx
  have hadd : ∀ x y (m : Memory α σ), f x = [y] → (if condition x then do
      let (_, m) ← Collections.list_add m s.next x
      .ok m
    else .ok m) = (do
      let (_, m) ← Collections.list_add m s.next y
      .ok m) := by
    intro x y m hx
    by_cases hcondition : condition x
    · rw [hkept x hcondition] at hx
      cases hx
      exact if_pos hcondition
    · rw [hdropped x hcondition] at hx
      cases hx
  obtain ⟨nodes', m', hiterate, h'⟩ := h.copied hxs f hone _ hskip hadd
  rw [hf, flatMap_ite] at h'
  refine ⟨nodes', m', ?_, h'⟩
  rw [← h.next] at hiterate ⊢
  exact bind_eq_ok.mpr ⟨m', hiterate, rfl⟩

theorem mapped (h : Holds nodes m s) (hxs : s.lists self = some xs)
    (transformer : Option α → Option α) : ∃ nodes' m',
      list_map m self transformer = .ok (s.next, m') ∧
        Holds nodes' m' (s.create (xs.map transformer)).2 := by
  have hadd : ∀ x y (m : Memory α σ), [transformer x] = [y] → (do
      let new_element := transformer x
      let (_, m) ← Collections.list_add m s.next new_element
      .ok m) = (do
      let (_, m) ← Collections.list_add m s.next y
      .ok m) := by
    intro x y m hx
    cases hx
    rfl
  obtain ⟨nodes', m', hiterate, h'⟩ := h.copied hxs (fun x => [transformer x])
    (fun _ => Nat.le_refl _) _ (fun x m hx => absurd hx (List.cons_ne_nil _ _)) hadd
  rw [← List.map_eq_flatMap] at h'
  refine ⟨nodes', m', ?_, h'⟩
  rw [← h.next] at hiterate ⊢
  exact bind_eq_ok.mpr ⟨m', hiterate, rfl⟩

theorem took (h : Holds nodes m s) (hxs : s.lists self = some xs) (count : Int32) :
    ∃ nodes' m', list_take m self count.toInt = .ok (s.next, m') ∧
      Holds nodes' m' (s.create (Lists.taken xs count.toInt)).2 := by
  obtain ⟨nodes', m', hloop, h'⟩ := h.take_loop hxs count.toInt.toNat (count_le count)
  rw [taken_toNat] at h'
  refine ⟨nodes', m', ?_, h'⟩
  rw [← h.next] at *
  exact bind_eq_ok.mpr ⟨m', hloop, rfl⟩

theorem took_and_removed (h : Holds nodes m s) (hxs : s.lists self = some xs) (count : Int32) :
    ∃ nodes' m', list_take_and_remove m self count.toInt = .ok (s.next, m') ∧
      Holds nodes' m' ((s.set self (xs.drop count.toInt.toNat)).create
        (Lists.taken xs count.toInt)).2 := by
  obtain ⟨nodes', m', hloop, h'⟩ := h.take_and_remove_loop hxs count.toInt.toNat (count_le count)
  rw [taken_toNat] at h'
  refine ⟨nodes', m', ?_, h'⟩
  rw [← h.next] at hloop ⊢
  exact bind_eq_ok.mpr ⟨m', hloop, rfl⟩

/-- The destroyer is called with each datum, in order. -/
theorem called_all (h : Holds nodes m s) (hxs : s.lists self = some xs)
    (element_destroyer : Option α → σ → Except Crash σ) :
    Matches (fun m' s' => Holds nodes m' s' ∧ s'.lists = s.lists)
      (list_iterate m self m.turns fun data m => m.call element_destroyer data)
      (s.call_all xs element_destroyer) := by
  have hat := h.live self xs hxs
  refine list_iterate_matches (R := fun _ m' s' => Holds nodes m' s' ∧ s'.lists = s.lists)
    hat.list ?_ ?_ hat.length_lt_turns ⟨h, rfl⟩
  · rintro k m' s' ⟨h', hlists⟩
    exact (h'.live self xs (by rw [hlists, hxs])).chain
  · rintro k x m' s' - ⟨h', hlists⟩
    rcases (h'.called element_destroyer x).cases with ⟨e, hm, hs⟩ | ⟨m'', s'', hm, hs, h''⟩
    · rw [hm, hs]
      exact .error e
    · rw [hm, hs]
      refine .ok ⟨h'', ?_⟩
      obtain ⟨outside, -, hok⟩ := bind_eq_ok.mp hs
      cases hok
      exact hlists

end Holds

end Copies

section Runs

variable {op : Operation α σ}

theorem alike_map {β γ : Type} {x : Except Crash (β × Memory α σ)}
    {y : Except Crash (β × Lists α σ)} (h : Matches Alike x y) (f : β → γ) :
    Matches Alike (x.map fun r => (f r.1, r.2)) (y.map fun t => (f t.1, t.2)) := by
  rcases h.cases with ⟨e, rfl, rfl⟩ | ⟨r, t, rfl, rfl, hsame, hrep⟩
  · exact .error e
  · exact .ok ⟨congrArg f hsame, hrep⟩

theorem represents_no_answer {x : Except Crash (Memory α σ)} {y : Except Crash (Lists α σ)}
    (h : Matches Represents x y) :
    Matches (Alike (β := Answer α)) (no_answer x) (no_answer y) := by
  rcases h.cases with ⟨e, rfl, rfl⟩ | ⟨m, s, rfl, rfl, hrep⟩
  · exact .error e
  · exact .ok ⟨rfl, hrep⟩

/-- The destroyer of an operation is called with what the operation has taken out. -/
theorem alike_call {x : Except Crash (Option α × Memory α σ)}
    {y : Except Crash (Option α × Lists α σ)} (h : Matches Alike x y)
    (element_destroyer : Option α → σ → Except Crash σ) :
    Matches (Alike (β := Answer α)) (no_answer (x >>= fun r => r.2.call element_destroyer r.1))
      (y >>= fun t => no_answer (t.2.call element_destroyer t.1)) := by
  rcases h.cases with ⟨e, rfl, rfl⟩ | ⟨⟨d, m⟩, ⟨d', s⟩, rfl, rfl, hsame, nodes, h'⟩
  · exact .error e
  · obtain rfl : d = d' := hsame
    rw [ok_bind, ok_bind]
    refine represents_no_answer ?_
    rcases (h'.called element_destroyer d).cases with ⟨e, hm, hs⟩ | ⟨m', s', hm, hs, h''⟩
    · rw [hm, hs]
      exact .error e
    · rw [hm, hs]
      exact .ok ⟨nodes, h''⟩

/-- The destroyers of all the data are called, and the list ends as `finish` does. -/
theorem Holds.emptied (h : Holds nodes m s) (hxs : s.lists self = some xs)
    (element_destroyer : Option α → σ → Except Crash σ)
    (finish : Memory α σ → Except Crash (Memory α σ)) (finish' : Lists α σ → Lists α σ)
    (hfinish : ∀ nodes m s, Holds nodes m s → s.lists self = some xs →
      ∃ m', finish m = .ok m' ∧ Represents m' (finish' s)) :
    Matches (Alike (β := Answer α))
      (no_answer (list_iterate m self m.turns (fun data m => m.call element_destroyer data)
        >>= finish))
      (s.call_all xs element_destroyer >>= fun s => .ok (.void, finish' s)) := by
  rcases (h.called_all hxs element_destroyer).cases with ⟨e, hm, hs⟩ |
    ⟨m', s', hm, hs, h', hlists⟩
  · rw [hm, hs]
    exact .error e
  · obtain ⟨m'', hm'', hrep⟩ := hfinish nodes m' s' h' (by rw [hlists, hxs])
    rw [hm, hs, ok_bind, ok_bind, hm'']
    exact .ok ⟨rfl, hrep⟩

/-- The operation on a list in use. -/
theorem Holds.perform_on (h : Holds nodes m s) (hself : op.self = some self)
    (hxs : s.lists self = some xs) : Matches Alike (m.perform op) (s.perform_on xs op) := by
  have hat := h.live self xs hxs
  cases op with
  | list_create => cases hself
  | list_add l data =>
    cases hself
    have hadd := alike_map (h.add_matches hxs data) (Answer.int : Int → Answer α)
    rw [Lists.perform_on]
    by_cases hint : (xs.length : Int) = INT_MAX
    · rw [Lists.fits, if_pos hint] at hadd ⊢
      exact hadd
    · rw [Lists.fits, if_neg hint] at hadd ⊢
      exact hadd
  | list_add_in_index l index data =>
    cases hself
    have hadd := represents_no_answer (h.add_in_index_matches hxs index.toInt data)
    rw [Lists.perform_on]
    split at hadd
    · rwa [if_pos ‹_›]
    · rwa [if_neg ‹_›]
  | list_get l index =>
    cases hself
    rw [Memory.perform, list_get_eq hat]
    exact .ok ⟨rfl, nodes, h⟩
  | list_replace l index data =>
    cases hself
    obtain ⟨r, hr, hsame, hrep⟩ := h.replace_alike hxs index.toInt data
    rw [Memory.perform, hr]
    exact .ok ⟨congrArg Answer.data hsame, hrep⟩
  | list_replace_and_destroy_element l num data element_destroyer =>
    cases hself
    obtain ⟨r, hr, halike⟩ := h.replace_alike hxs num.toInt data
    have hcall := alike_call (.ok halike) element_destroyer
    rw [ok_bind] at hcall
    rw [Memory.perform, list_replace_and_destroy_element, hr]
    exact hcall
  | list_find l condition =>
    cases hself
    rw [Memory.perform, h.find_eq hxs]
    exact .ok ⟨rfl, nodes, h⟩
  | list_remove l index =>
    cases hself
    exact alike_map (h.remove_matches hxs index.toInt) Answer.data
  | list_remove_by_condition l condition =>
    cases hself
    obtain ⟨r, hr, hsame, hrep⟩ := h.remove_by_condition_alike hxs condition
    rw [Memory.perform, hr]
    exact .ok ⟨congrArg Answer.data hsame, hrep⟩
  | list_remove_and_destroy_element l index element_destroyer =>
    cases hself
    exact alike_call (h.remove_matches hxs index.toInt) element_destroyer
  | list_remove_and_destroy_by_condition l condition element_destroyer =>
    cases hself
    obtain ⟨r, hr, halike⟩ := h.remove_by_condition_alike hxs condition
    have hcall := alike_call (.ok halike) element_destroyer
    rw [ok_bind] at hcall
    rw [Memory.perform, list_remove_and_destroy_by_condition, hr]
    exact hcall
  | list_size l =>
    cases hself
    rw [Memory.perform, list_size, list_eq hat.list]
    exact .ok ⟨rfl, nodes, h⟩
  | list_is_empty l =>
    cases hself
    rw [Memory.perform, list_is_empty, list_size, list_eq hat.list]
    refine .ok ⟨congrArg Answer.bool ?_, nodes, h⟩
    cases xs <;> rfl
  | list_clean l =>
    cases hself
    obtain ⟨m', hclean, h'⟩ := h.cleaned hxs
    rw [Memory.perform, hclean]
    exact .ok ⟨rfl, _, h'⟩
  | list_clean_and_destroy_elements l element_destroyer =>
    cases hself
    refine h.emptied hxs element_destroyer (fun m => Collections.list_clean m self)
      (fun s => s.set self []) ?_
    intro nodes m s h hxs
    obtain ⟨m', hclean, h'⟩ := h.cleaned hxs
    exact ⟨m', hclean, _, h'⟩
  | list_destroy l =>
    cases hself
    obtain ⟨m', hdestroy, hrep⟩ := h.destroyed hxs
    rw [Memory.perform, hdestroy]
    exact .ok ⟨rfl, hrep⟩
  | list_destroy_and_destroy_elements l element_destroyer =>
    cases hself
    have hemptied := h.emptied hxs element_destroyer (fun m => Collections.list_destroy m self)
      (fun s => s.unset self) fun nodes m s h hxs => h.destroyed hxs
    have hassoc : list_destroy_and_destroy_elements m self element_destroyer =
        list_iterate m self m.turns (fun data m => m.call element_destroyer data) >>=
          fun m => Collections.list_destroy m self := by
      rw [list_destroy_and_destroy_elements, list_clean_and_destroy_elements]
      cases list_iterate m self m.turns (fun data m => m.call element_destroyer data) <;> rfl
    rw [Memory.perform, hassoc]
    exact hemptied
  | list_take l count =>
    cases hself
    obtain ⟨nodes', m', htake, h'⟩ := h.took hxs count
    rw [Memory.perform, htake]
    exact .ok ⟨rfl, nodes', h'⟩
  | list_take_and_remove l count =>
    cases hself
    obtain ⟨nodes', m', htake, h'⟩ := h.took_and_removed hxs count
    rw [Memory.perform, htake]
    exact .ok ⟨rfl, nodes', h'⟩
  | list_filter l condition =>
    cases hself
    obtain ⟨nodes', m', hfilter, h'⟩ := h.filtered hxs condition
    rw [Memory.perform, hfilter]
    exact .ok ⟨rfl, nodes', h'⟩
  | list_map l transformer =>
    cases hself
    obtain ⟨nodes', m', hmap, h'⟩ := h.mapped hxs transformer
    rw [Memory.perform, hmap]
    exact .ok ⟨rfl, nodes', h'⟩

def Memory.empty (outside : σ) : Memory α σ := ⟨fun _ => none, fun _ => none, 0, 0, outside⟩

def Lists.empty (outside : σ) : Lists α σ := ⟨fun _ => none, 0, outside⟩

theorem represents_empty (outside : σ) :
    Represents (Memory.empty outside : Memory α σ) (Lists.empty outside) := by
  refine ⟨fun _ => [], rfl, rfl, ?_, fun _ _ => ⟨rfl, rfl⟩, ?_, ?_, ?_, fun _ _ => rfl⟩
  · intro l xs hl
    cases hl
  · intro p hp
    cases hp
  · intro l l' p hp
    cases hp
  · intro p hp
    cases hp

/-- The operation is called for a list in use, if for any. -/
def In_use (m : Memory α σ) (op : Operation α σ) : Prop :=
  ∀ l, op.self = some l → (m.lists l).isSome

/-- The operation returns, on the memory and on the sequences. -/
def Performed (m : Memory α σ) (e : Operation α σ × Answer α) (m' : Memory α σ) : Prop :=
  m.perform e.1 = .ok (e.2, m')

def Lists.Performed (s : Lists α σ) (e : Operation α σ × Answer α) (s' : Lists α σ) : Prop :=
  s.perform e.1 = .ok (e.2, s')

theorem Represents.perform (h : Represents m s) (hop : In_use m op) :
    Matches Alike (m.perform op) (s.perform op) := by
  obtain ⟨nodes, h⟩ := h
  rw [Lists.perform]
  cases hself : op.self with
  | none =>
    cases op with
    | list_create => exact .ok ⟨congrArg Answer.list h.next, nodes, h.created⟩
    | _ => cases hself
  | some self =>
    cases hxs : s.lists self with
    | none =>
      have hsome := hop self hself
      rw [(h.dead self hxs).1] at hsome
      cases hsome
    | some xs =>
      simp only [hxs]
      exact h.perform_on hself hxs

theorem performed_simulated : Simulated (Represents (α := α) (σ := σ))
    (Guarded (fun m e => In_use m e.1) Performed) Lists.Performed := by
  rintro m ⟨op, a⟩ m' s h ⟨hop, hperform⟩
  obtain ⟨⟨a', s'⟩, hperform', rfl, h'⟩ := (h.perform hop).of_ok hperform
  exact ⟨s', hperform', h'⟩

/-- Once every list is destroyed no element is left. -/
theorem Represents.no_leak (h : Represents m s) (hlists : ∀ l, m.lists l = none) (p : Nat) :
    m.elements p = none := by
  obtain ⟨nodes, h⟩ := h
  rw [← Option.not_isSome_iff_eq_none]
  intro hp
  obtain ⟨l, hl⟩ := h.owned p hp
  cases hxs : s.lists l with
  | none =>
    rw [(h.dead l hxs).2] at hl
    cases hl
  | some xs =>
    have hlist := (h.live l xs hxs).list
    rw [hlists l] at hlist
    cases hlist

/-- Every run of the functions of a list, each for a list in use, is a run of the sequences at their
addresses, with the same answers. In its end the memory holds these, each operation ends as it does
on them, and no element is left once every list is destroyed. -/
theorem lists_refine {outside : σ} {es : List (Operation α σ × Answer α)}
    (hrun : Trace (Guarded (fun m e => In_use m e.1) Performed) (Memory.empty outside) es m) :
    ∃ s, Trace Lists.Performed (Lists.empty outside) es s ∧ Represents m s ∧
      (∀ op, In_use m op → Matches Alike (m.perform op) (s.perform op)) ∧
      ((∀ l, m.lists l = none) → ∀ p, m.elements p = none) := by
  obtain ⟨s, htrace, h⟩ := performed_simulated.trace hrun (represents_empty outside)
  exact ⟨s, htrace, h, fun op hop => h.perform hop, h.no_leak⟩

/-- The first element of a list is added and removed. -/
theorem one_removed : ∃ (m : Memory Nat Unit) (s : Lists Nat Unit),
    Trace Lists.Performed (Lists.empty ()) [(.list_create, .list 0), (.list_add 0 (some 7), .int 0),
        (.list_remove 0 0, .data (some 7))] s ∧ Represents m s ∧
      (∀ op, In_use m op → Matches Alike (m.perform op) (s.perform op)) ∧
      ((∀ l, m.lists l = none) → ∀ p, m.elements p = none) := by
  have hlive : ∀ (m : Memory Nat Unit) op, op.self = some 0 → (m.lists 0).isSome → In_use m op := by
    intro m op hself hsome l hl
    rw [hself, Option.some_inj] at hl
    exact hl ▸ hsome
  obtain ⟨m₁, m₂, m₃, hcreate, hlist₁, hadd, hlist₂, hremove⟩ : ∃ m₁ m₂ m₃ : Memory Nat Unit,
      Performed (Memory.empty ()) (.list_create, .list 0) m₁ ∧ (m₁.lists 0).isSome ∧
      Performed m₁ (.list_add 0 (some 7), .int 0) m₂ ∧ (m₂.lists 0).isSome ∧
      Performed m₂ (.list_remove 0 0, .data (some 7)) m₃ :=
    ⟨_, _, _, rfl, rfl, rfl, rfl, rfl⟩
  have hnone : In_use (Memory.empty () : Memory Nat Unit) .list_create := by
    intro l hl
    cases hl
  have hin₁ := hlive m₁ (.list_add 0 (some 7)) rfl hlist₁
  have hin₂ := hlive m₂ (.list_remove 0 0) rfl hlist₂
  obtain ⟨s, h⟩ := lists_refine (.stepL ⟨hnone, hcreate⟩ (.stepL ⟨hin₁, hadd⟩
    (.single ⟨hin₂, hremove⟩)))
  exact ⟨m₃, s, h⟩

end Runs

end LaLiga.Collections
