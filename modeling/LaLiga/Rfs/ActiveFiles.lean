import LaLiga.Lib.Counting
import LaLiga.Lib.Transition
import LaLiga.Rfs.Requests

/-! The list of active files under any number of workers. Finding an entry and finishing
with one are critical sections of the `access` mutex. An entry is known by its address. -/
namespace LaLiga.Rfs.ActiveFiles

open LaLiga.Lib

variable {W : Type*} [DecidableEq W]

structure active_file_t where
  address : Nat
  path : Path
  is_working : Nat
  deriving DecidableEq

/-- `found` and `finished` count the calls that returned an entry and that gave it up. -/
structure State (W : Type*) where
  file_list : List active_file_t
  next_address : Nat
  found : Nat → Nat
  finished : Nat → Nat
  var : W → Var → Option Nat
  pending : W → List Instr

def Initial (s : State W) : Prop :=
  s.file_list = [] ∧ (∀ a, s.found a = 0) ∧ (∀ a, s.finished a = 0) ∧
    (∀ w x, s.var w x = none) ∧ ∀ w, s.pending w = []

def State.setVar (s : State W) (w : W) (x : Var) (a : Option Nat) : State W :=
  { s with var := Function.update s.var w (Function.update (s.var w) x a) }

def State.setPending (s : State W) (w : W) (is : List Instr) : State W :=
  { s with pending := Function.update s.pending w is }

def active_file_list_find (s : State W) (w : W) (x : Var) (path : Path) : State W :=
  match s.file_list.find? (·.path = path) with
  | none =>
    { s.setVar w x (some s.next_address) with
      file_list := s.file_list ++ [⟨s.next_address, path, 1⟩]
      next_address := s.next_address + 1
      found := Function.update s.found s.next_address (s.found s.next_address + 1) }
  | some e =>
    { s.setVar w x (some e.address) with
      file_list := s.file_list.map fun f =>
        if f.address = e.address then { f with is_working := f.is_working + 1 } else f
      found := Function.update s.found e.address (s.found e.address + 1) }

/-- `none` if the entry has been freed. -/
def active_file_finished_using (s : State W) (w : W) (x : Var) (a : Nat) : Option (State W) :=
  match s.file_list.find? (·.address = a) with
  | none => none
  | some e =>
    let file_list := s.file_list.map fun f =>
      if f.address = e.address then { f with is_working := f.is_working - 1 } else f
    some { s.setVar w x none with
      file_list :=
        if e.is_working - 1 = 0 then file_list.eraseP (·.path = e.path) else file_list
      finished := Function.update s.finished a (s.finished a + 1) }

/-- One instruction of `w`; `none` if there is none or it uses an entry that is not there. -/
def exec (s : State W) (w : W) : Option (State W) :=
  match s.pending w with
  | [] => none
  | .active_file_list_find x path :: is => some ((active_file_list_find s w x path).setPending w is)
  | .active_file_finished_using x :: is =>
    match s.var w x with
    | none => none
    | some a => (active_file_finished_using s w x a).map (·.setPending w is)
  | .RDLOCK x :: is | .WRLOCK x :: is | .UNLOCK x :: is | .read_path x :: is =>
    if ∃ e ∈ s.file_list, s.var w x = some e.address then some (s.setPending w is) else none

inductive Step : State W → W → State W → Prop
  | request {s : State W} {w : W} {r : Request} {is : List Instr} :
      s.pending w = [] → r.worker = some is → Step s w (s.setPending w is)
  | exec {s t : State W} {w : W} : exec s w = some t → Step s w t

/-- What the list of active files promises. -/
structure Exact (s : State W) : Prop where
  unique : (s.file_list.map (·.path)).Nodup
  count : ∀ e ∈ s.file_list, s.found e.address = s.finished e.address + e.is_working
  listed : ∀ a, (∃ e ∈ s.file_list, e.address = a) ↔ s.finished a < s.found a
  /-- No worker is about to use an entry that was freed. -/
  live : ∀ w, s.pending w ≠ [] → (exec s w).isSome
  idle : (∀ w, s.pending w = []) → s.file_list = []

/-- How many of the variables `o` hold the entry at `a`. -/
def holding (o : Finset Var) (var : Var → Option Nat) (a : Nat) : Nat :=
  (o.filter fun x => var x = some a).card

/-- `o w` are the variables of `w` in use. -/
structure Inv [Fintype W] (s : State W) (o : W → Finset Var) : Prop where
  bracketed : ∀ w, inUse (o w) (s.pending w) = some ∅
  assigned : ∀ w x, x ∈ o w ↔ s.var w x ≠ none
  below : ∀ e ∈ s.file_list, e.address < s.next_address
  addresses : (s.file_list.map (·.address)).Nodup
  unique : (s.file_list.map (·.path)).Nodup
  count : ∀ e ∈ s.file_list, s.found e.address = s.finished e.address + e.is_working
  gone : ∀ a, (∀ e ∈ s.file_list, e.address ≠ a) → s.found a = s.finished a
  working : ∀ e ∈ s.file_list, e.is_working = ∑ w, holding (o w) (s.var w) e.address
  positive : ∀ e ∈ s.file_list, 0 < e.is_working
  held : ∀ w x a, s.var w x = some a → ∃ e ∈ s.file_list, e.address = a

theorem holding_insert {o : Finset Var} {var : Var → Option Nat} {x : Var} {a b : Nat}
    (hx : x ∉ o) :
    holding (insert x o) (Function.update var x (some a)) b =
      holding o var b + if b = a then 1 else 0 := by
  have hrest : (o.filter fun y => Function.update var x (some a) y = some b) =
      o.filter fun y => var y = some b := by
    apply Finset.filter_congr
    intro y hy
    have hne : y ≠ x := by rintro rfl; exact hx hy
    rw [Function.update_of_ne hne]
  unfold holding
  rw [Finset.filter_insert, Function.update_self, hrest]
  by_cases hb : b = a
  · subst hb
    rw [if_pos rfl, if_pos rfl, Finset.card_insert_of_notMem (by simp [hx])]
  · rw [if_neg (by simpa [eq_comm] using hb), if_neg hb, Nat.add_zero]

theorem holding_erase {o : Finset Var} {var : Var → Option Nat} {x : Var} {a b : Nat}
    (hx : x ∈ o) (hvar : var x = some a) :
    holding (o.erase x) (Function.update var x none) b + (if b = a then 1 else 0) =
      holding o var b := by
  have hold := @holding_insert _ (Function.update var x none) x a b
    (Finset.notMem_erase x o)
  rw [Function.update_idem, ← hvar, Function.update_eq_self, Finset.insert_erase hx] at hold
  exact hold.symm

section Rewritten

variable {l : List active_file_t} {a : Nat} {k : Nat → Nat}

/-- The list with the count of the entry at `a` rewritten. -/
def rewritten (l : List active_file_t) (a : Nat) (k : Nat → Nat) : List active_file_t :=
  l.map fun f => if f.address = a then { f with is_working := k f.is_working } else f

theorem map_address_rewritten : (rewritten l a k).map (·.address) = l.map (·.address) := by
  rw [rewritten, List.map_map]
  apply List.map_congr_left
  intro f _
  simp only [Function.comp]
  split_ifs <;> rfl

theorem map_path_rewritten : (rewritten l a k).map (·.path) = l.map (·.path) := by
  rw [rewritten, List.map_map]
  apply List.map_congr_left
  intro f _
  simp only [Function.comp]
  split_ifs <;> rfl

theorem mem_rewritten {e : active_file_t} (h : e ∈ rewritten l a k) :
    ∃ f ∈ l, e.address = f.address ∧ e.path = f.path ∧
      e.is_working = if f.address = a then k f.is_working else f.is_working := by
  obtain ⟨f, hf, rfl⟩ := List.mem_map.mp h
  refine ⟨f, hf, ?_⟩
  split_ifs <;> simp

theorem rewritten_mem {f : active_file_t} (h : f ∈ l) :
    ∃ e ∈ rewritten l a k, e.address = f.address := by
  refine ⟨_, List.mem_map_of_mem h, ?_⟩
  split_ifs <;> rfl

/-- The first entry with a path is the only one. -/
theorem eraseP_path {p : Path} (h : (l.map (·.path)).Nodup) :
    l.eraseP (·.path = p) = l.filter (·.path ≠ p) := by
  induction l with
  | nil => rfl
  | cons e l ih =>
    rw [List.map_cons, List.nodup_cons] at h
    by_cases he : e.path = p
    · have hall : l.filter (·.path ≠ p) = l := by
        apply List.filter_eq_self.mpr
        intro f hf
        have hne : f.path ≠ p := by
          rintro rfl
          exact h.1 (he ▸ List.mem_map_of_mem hf)
        exact decide_eq_true hne
      rw [List.eraseP_cons_of_pos (by simpa using he), List.filter_cons_of_neg (by simpa using he),
        hall]
    · rw [List.eraseP_cons_of_neg (by simpa using he), List.filter_cons_of_pos (by simpa using he),
        ih h.2]

end Rewritten

theorem eq_of_address {l : List active_file_t} (h : (l.map (·.address)).Nodup)
    {e f : active_file_t} (he : e ∈ l) (hf : f ∈ l) (ha : e.address = f.address) : e = f :=
  List.inj_on_of_nodup_map h he hf ha

section Steps

variable [Fintype W] {s t : State W} {o : W → Finset Var} {w : W} {x : Var} {is : List Instr}

/-- Changing the variables of one worker changes the sum of what all hold by as much. -/
theorem sum_holding (o : W → Finset Var) (var : W → Var → Option Nat) (w : W) (p : Finset Var) (v : Var → Option Nat)
    (a : Nat) :
    ∑ u, holding (Function.update o w p u) (Function.update var w v u) a +
        holding (o w) (var w) a =
      ∑ u, holding (o u) (var u) a + holding p v a := by
  have h := sum_change (S := Finset.univ) (i := w) (F := fun u => holding (o u) (var u) a)
    (G := fun u => holding (Function.update o w p u) (Function.update var w v u) a)
    (Finset.mem_univ w)
    (fun u _ hu => by simp only [Function.update_of_ne hu])
  simpa using h

omit [Fintype W] in
theorem bracketed_update {p : Finset Var}
    (h : ∀ u, inUse (o u) (s.pending u) = some ∅) (his : inUse p is = some ∅) (u : W) :
    inUse (Function.update o w p u) (Function.update s.pending w is u) = some ∅ := by
  by_cases hu : u = w
  · subst hu
    rw [Function.update_self, Function.update_self, his]
  · rw [Function.update_of_ne hu, Function.update_of_ne hu, h]

omit [Fintype W] in
theorem assigned_update {p : Finset Var} {v : Var → Option Nat}
    (h : ∀ u y, y ∈ o u ↔ s.var u y ≠ none) (hv : ∀ y, y ∈ p ↔ v y ≠ none) (u : W) (y : Var) :
    y ∈ Function.update o w p u ↔ Function.update s.var w v u y ≠ none := by
  by_cases hu : u = w
  · subst hu
    rw [Function.update_self, Function.update_self, hv]
  · rw [Function.update_of_ne hu, Function.update_of_ne hu, h]

omit [Fintype W] in
theorem assigned_insert {a : Nat} (h : ∀ u y, y ∈ o u ↔ s.var u y ≠ none) (u : W) (y : Var) :
    y ∈ Function.update o w (insert x (o w)) u ↔
      Function.update s.var w (Function.update (s.var w) x (some a)) u y ≠ none := by
  refine assigned_update h (fun y => ?_) u y
  by_cases hy : y = x
  · subst hy
    simp
  · rw [Function.update_of_ne hy, ← h, Finset.mem_insert]
    simp [hy]

theorem Inv.setPending (hI : Inv s o) (his : inUse (o w) is = some ∅) :
    Inv (s.setPending w is) o := by
  refine { hI with bracketed := ?_ }
  intro u
  have := bracketed_update (w := w) hI.bracketed his u
  rwa [Function.update_eq_self] at this

theorem Inv.request (hI : Inv s o) (hw : s.pending w = []) (his : inUse ∅ is = some ∅) :
    Inv (s.setPending w is) o := by
  have hnone : o w = ∅ := by
    have hb := hI.bracketed w
    rw [hw] at hb
    exact Option.some.inj hb
  exact hI.setPending (by rw [hnone]; exact his)

/-- An entry that nobody had asked for is added to the list. -/
theorem Inv.find_new (hI : Inv s o) {path : Path} (hx : x ∉ o w)
    (hnone : s.file_list.find? (·.path = path) = none)
    (his : inUse (insert x (o w)) is = some ∅) :
    Inv ((active_file_list_find s w x path).setPending w is)
      (Function.update o w (insert x (o w))) := by
  have hfresh : ∀ e ∈ s.file_list, e.path ≠ path := by
    intro e he
    simpa using List.find?_eq_none.mp hnone e he
  have hbelow : ∀ e ∈ s.file_list, e.address ≠ s.next_address := by
    intro e he
    have := hI.below e he
    omega
  have hsum := fun a => sum_holding o s.var w (insert x (o w))
    (Function.update (s.var w) x (some s.next_address)) a
  simp only [holding_insert hx] at hsum
  have hunheld : ∑ u, holding (o u) (s.var u) s.next_address = 0 := by
    apply Finset.sum_eq_zero
    intro u _
    unfold holding
    rw [Finset.card_eq_zero, Finset.filter_eq_empty_iff]
    intro y _ hy
    obtain ⟨e, he, ha⟩ := hI.held u y _ hy
    exact hbelow e he ha
  simp only [active_file_list_find, hnone]
  constructor
  case bracketed => exact bracketed_update hI.bracketed his
  case assigned => exact assigned_insert hI.assigned
  case below =>
    intro e he
    simp only [State.setPending, List.mem_append, List.mem_singleton] at he ⊢
    rcases he with he | rfl
    · exact Nat.lt_succ_of_lt (hI.below e he)
    · exact Nat.lt_succ_self _
  case addresses =>
    simp only [State.setPending, List.map_append, List.map_cons, List.map_nil]
    refine List.Nodup.append hI.addresses (List.nodup_singleton _) ?_
    intro a ha hb
    obtain ⟨e, he, rfl⟩ := List.mem_map.mp ha
    exact hbelow e he (List.mem_singleton.mp hb)
  case unique =>
    simp only [State.setPending, List.map_append, List.map_cons, List.map_nil]
    refine List.Nodup.append hI.unique (List.nodup_singleton _) ?_
    intro a ha hb
    obtain ⟨e, he, rfl⟩ := List.mem_map.mp ha
    exact hfresh e he (List.mem_singleton.mp hb)
  case count =>
    intro e he
    simp only [State.setPending, State.setVar, List.mem_append, List.mem_singleton] at he ⊢
    rcases he with he | rfl
    · rw [Function.update_of_ne (hbelow e he), hI.count e he]
    · rw [Function.update_self, hI.gone s.next_address hbelow]
  case gone =>
    intro a ha
    simp only [State.setPending, State.setVar] at ha ⊢
    have hne : a ≠ s.next_address := by
      rintro rfl
      exact ha _ (List.mem_append_right _ (List.mem_singleton_self _)) rfl
    rw [Function.update_of_ne hne]
    exact hI.gone a fun e he => ha e (List.mem_append_left _ he)
  case working =>
    intro e he
    simp only [State.setPending, List.mem_append, List.mem_singleton] at he ⊢
    have hs := hsum e.address
    rcases he with he | rfl
    · have hw := hI.working e he
      rw [if_neg (hbelow e he)] at hs
      simp only [State.setVar]
      omega
    · simp only [if_true] at hs
      simp only [State.setVar]
      omega
  case positive =>
    intro e he
    simp only [State.setPending, List.mem_append, List.mem_singleton] at he
    rcases he with he | rfl
    · exact hI.positive e he
    · exact Nat.one_pos
  case held =>
    intro u y a hy
    simp only [State.setPending, State.setVar] at hy ⊢
    by_cases hu : u = w
    · subst hu
      rw [Function.update_self] at hy
      by_cases hyx : y = x
      · subst hyx
        rw [Function.update_self] at hy
        exact ⟨_, List.mem_append_right _ (List.mem_singleton_self _), Option.some.inj hy⟩
      · rw [Function.update_of_ne hyx] at hy
        obtain ⟨e, he, ha⟩ := hI.held u y a hy
        exact ⟨e, List.mem_append_left _ he, ha⟩
    · rw [Function.update_of_ne hu] at hy
      obtain ⟨e, he, ha⟩ := hI.held u y a hy
      exact ⟨e, List.mem_append_left _ he, ha⟩

/-- An entry that is there is counted once more. -/
theorem Inv.find_old (hI : Inv s o) {path : Path} {e : active_file_t} (hx : x ∉ o w)
    (hsome : s.file_list.find? (·.path = path) = some e)
    (his : inUse (insert x (o w)) is = some ∅) :
    Inv ((active_file_list_find s w x path).setPending w is)
      (Function.update o w (insert x (o w))) := by
  have hmem := List.mem_of_find?_eq_some hsome
  have hlist : (active_file_list_find s w x path).file_list =
      rewritten s.file_list e.address (· + 1) := by
    simp only [active_file_list_find, hsome]
    rfl
  have hsum := fun a => sum_holding o s.var w (insert x (o w))
    (Function.update (s.var w) x (some e.address)) a
  simp only [holding_insert hx] at hsum
  constructor
  case bracketed =>
    simp only [active_file_list_find, hsome]
    exact bracketed_update hI.bracketed his
  case assigned =>
    simp only [active_file_list_find, hsome]
    exact assigned_insert hI.assigned
  case below =>
    intro f hf
    rw [State.setPending, hlist] at hf
    obtain ⟨g, hg, ha, -⟩ := mem_rewritten hf
    simp only [active_file_list_find, hsome]
    rw [ha]
    exact hI.below g hg
  case addresses =>
    rw [State.setPending, hlist, map_address_rewritten]
    exact hI.addresses
  case unique =>
    rw [State.setPending, hlist, map_path_rewritten]
    exact hI.unique
  case count =>
    intro f hf
    rw [State.setPending, hlist] at hf
    obtain ⟨g, hg, ha, -, hk⟩ := mem_rewritten hf
    have hcount := hI.count g hg
    simp only [active_file_list_find, hsome, State.setPending, State.setVar]
    rw [ha, hk]
    split_ifs with he
    · rw [he, Function.update_self, ← he]
      omega
    · rw [Function.update_of_ne he, hcount]
  case gone =>
    intro a ha
    rw [State.setPending, hlist] at ha
    have hgone : ∀ f ∈ s.file_list, f.address ≠ a := by
      intro f hf
      obtain ⟨g, hg, hga⟩ := rewritten_mem (a := e.address) (k := (· + 1)) hf
      rw [← hga]
      exact ha g hg
    simp only [active_file_list_find, hsome, State.setPending, State.setVar]
    rw [Function.update_of_ne (hgone e hmem).symm]
    exact hI.gone a hgone
  case working =>
    intro f hf
    rw [State.setPending, hlist] at hf
    obtain ⟨g, hg, ha, -, hk⟩ := mem_rewritten hf
    have hw := hI.working g hg
    have hs := hsum g.address
    simp only [active_file_list_find, hsome, State.setPending, State.setVar]
    rw [ha, hk]
    split_ifs at hs ⊢ <;> omega
  case positive =>
    intro f hf
    rw [State.setPending, hlist] at hf
    obtain ⟨g, hg, -, -, hk⟩ := mem_rewritten hf
    have := hI.positive g hg
    rw [hk]
    split_ifs <;> omega
  case held =>
    intro u y a hy
    rw [State.setPending, hlist]
    have hold : ∃ f ∈ s.file_list, f.address = a := by
      simp only [active_file_list_find, hsome, State.setPending, State.setVar] at hy
      by_cases hu : u = w
      · subst hu
        rw [Function.update_self] at hy
        by_cases hyx : y = x
        · subst hyx
          rw [Function.update_self] at hy
          exact ⟨e, hmem, Option.some.inj hy⟩
        · rw [Function.update_of_ne hyx] at hy
          exact hI.held u y a hy
      · rw [Function.update_of_ne hu] at hy
        exact hI.held u y a hy
    obtain ⟨f, hf, rfl⟩ := hold
    exact rewritten_mem hf

/-- The list after an entry has been given up: counted down, and gone at zero. -/
def released (l : List active_file_t) (e : active_file_t) : List active_file_t :=
  let l := rewritten l e.address (· - 1)
  if e.is_working - 1 = 0 then l.eraseP (·.path = e.path) else l

section Released

variable {l : List active_file_t} {e f g : active_file_t}

theorem released_sublist : (released l e).Sublist (rewritten l e.address (· - 1)) := by
  unfold released
  simp only
  split_ifs
  · exact List.eraseP_sublist
  · exact List.Sublist.refl _

variable (hp : (l.map (·.path)).Nodup) (he : e ∈ l)
include hp he

theorem mem_released (ha : (l.map (·.address)).Nodup) (hf : f ∈ released l e) :
    ∃ g ∈ l, f.address = g.address ∧ f.is_working =
      (if g.address = e.address then g.is_working - 1 else g.is_working) ∧
      (g.address = e.address → e.is_working - 1 ≠ 0) := by
  obtain ⟨g, hg, hadd, hpath, hk⟩ := mem_rewritten (released_sublist.mem hf)
  refine ⟨g, hg, hadd, hk, ?_⟩
  intro hge hzero
  obtain rfl : g = e := eq_of_address ha hg he hge
  unfold released at hf
  simp only [if_pos hzero] at hf
  rw [eraseP_path (by rw [map_path_rewritten]; exact hp)] at hf
  simpa [hpath] using (List.mem_filter.mp hf).2

theorem released_mem (hg : g ∈ l) (hkeep : g.address = e.address → e.is_working - 1 ≠ 0) :
    ∃ f ∈ released l e, f.address = g.address := by
  unfold released
  simp only
  split_ifs with hzero
  · rw [eraseP_path (by rw [map_path_rewritten]; exact hp)]
    have hne : g.address ≠ e.address := fun h => hkeep h hzero
    refine ⟨g, List.mem_filter.mpr ⟨?_, ?_⟩, rfl⟩
    · have := List.mem_map_of_mem (f := fun f : active_file_t =>
        if f.address = e.address then { f with is_working := f.is_working - 1 } else f) hg
      rwa [if_neg hne] at this
    · have hpath : g.path ≠ e.path := by
        intro h
        exact hne (congrArg (·.address) (List.inj_on_of_nodup_map hp hg he h))
      exact decide_eq_true hpath
  · exact rewritten_mem hg

end Released

theorem Inv.finish (hI : Inv s o) {a : Nat} (hx : x ∈ o w) (hvar : s.var w x = some a)
    (his : inUse ((o w).erase x) is = some ∅) :
    ∃ t, active_file_finished_using s w x a = some t ∧
      Inv (t.setPending w is) (Function.update o w ((o w).erase x)) := by
  obtain ⟨e, he, rfl⟩ := hI.held w x a hvar
  have hfind : s.file_list.find? (·.address = e.address) = some e := by
    cases hf : s.file_list.find? (·.address = e.address) with
    | none => exact absurd (List.find?_eq_none.mp hf e he) (by simp)
    | some f =>
      have hadd : f.address = e.address := by simpa using List.find?_some hf
      rw [eq_of_address hI.addresses (List.mem_of_find?_eq_some hf) he hadd]
  have hsum := fun a => sum_holding o s.var w ((o w).erase x)
    (Function.update (s.var w) x none) a
  have hold := fun a => holding_erase (b := a) hx hvar
  refine ⟨{ s.setVar w x none with
    file_list := released s.file_list e
    finished := Function.update s.finished e.address (s.finished e.address + 1) }, ?_, ?_⟩
  · unfold active_file_finished_using
    rw [hfind]
    rfl
  have hpos := hI.positive e he
  have hassigned : ∀ u y, y ∈ Function.update o w ((o w).erase x) u ↔
      Function.update s.var w (Function.update (s.var w) x none) u y ≠ none := by
    refine assigned_update hI.assigned fun y => ?_
    by_cases hy : y = x
    · subst hy
      simp
    · rw [Function.update_of_ne hy, ← hI.assigned, Finset.mem_erase]
      simp [hy]
  -- an entry that somebody else still holds is not counted down to zero
  have hkept : ∀ u y, Function.update s.var w (Function.update (s.var w) x none) u y =
      some e.address → e.is_working - 1 ≠ 0 := by
    intro u y hy
    have hmem : y ∈ Function.update o w ((o w).erase x) u :=
      (hassigned u y).mpr (by rw [hy]; exact Option.some_ne_none _)
    have hone : 0 < holding (Function.update o w ((o w).erase x) u)
        (Function.update s.var w (Function.update (s.var w) x none) u) e.address :=
      Finset.card_pos.mpr ⟨y, Finset.mem_filter.mpr ⟨hmem, hy⟩⟩
    have hle := le_sum_term (fun u => holding (Function.update o w ((o w).erase x) u)
      (Function.update s.var w (Function.update (s.var w) x none) u) e.address) u
    have hs := hsum e.address
    have ho := hold e.address
    have hw := hI.working e he
    rw [if_pos rfl] at ho
    omega
  constructor
  case bracketed => exact bracketed_update hI.bracketed his
  case assigned => exact hassigned
  case below =>
    intro f hf
    obtain ⟨g, hg, ha, -⟩ := mem_released hI.unique he hI.addresses hf
    rw [ha]
    exact hI.below g hg
  case addresses =>
    refine List.Nodup.sublist (released_sublist.map _) ?_
    rw [map_address_rewritten]
    exact hI.addresses
  case unique =>
    refine List.Nodup.sublist (released_sublist.map _) ?_
    rw [map_path_rewritten]
    exact hI.unique
  case count =>
    intro f hf
    obtain ⟨g, hg, ha, hk, -⟩ := mem_released hI.unique he hI.addresses hf
    have hcount := hI.count g hg
    have hgpos := hI.positive g hg
    simp only [State.setPending, State.setVar]
    rw [ha, hk]
    split_ifs with hge
    · rw [hge, Function.update_self, ← hge]
      omega
    · rw [Function.update_of_ne hge, hcount]
  case gone =>
    intro a ha
    simp only [State.setPending, State.setVar] at ha ⊢
    by_cases hae : a = e.address
    · subst hae
      have hzero : e.is_working - 1 = 0 := by
        by_contra hne
        obtain ⟨f, hf, hfa⟩ := released_mem hI.unique he he fun _ => hne
        exact ha f hf hfa
      have hcount := hI.count e he
      rw [Function.update_self]
      omega
    · rw [Function.update_of_ne hae]
      refine hI.gone a fun g hg hga => ?_
      obtain ⟨f, hf, hfa⟩ := released_mem hI.unique he hg fun h => absurd (hga.symm.trans h) hae
      exact ha f hf (hfa.trans hga)
  case working =>
    intro f hf
    obtain ⟨g, hg, ha, hk, -⟩ := mem_released hI.unique he hI.addresses hf
    have hw := hI.working g hg
    have hs := hsum g.address
    have ho := hold g.address
    have hgpos := hI.positive g hg
    simp only [State.setPending, State.setVar]
    rw [ha, hk]
    split_ifs at ho ⊢ <;> omega
  case positive =>
    intro f hf
    obtain ⟨g, hg, -, hk, hkeep⟩ := mem_released hI.unique he hI.addresses hf
    have := hI.positive g hg
    rw [hk]
    split_ifs with hge
    · obtain rfl := eq_of_address hI.addresses hg he hge
      have := hkeep rfl
      omega
    · exact this
  case held =>
    intro u y a hy
    have hbefore : s.var u y = some a := by
      simp only [State.setPending, State.setVar] at hy
      by_cases hu : u = w
      · subst hu
        rw [Function.update_self] at hy
        by_cases hyx : y = x
        · subst hyx
          rw [Function.update_self] at hy
          cases hy
        · rwa [Function.update_of_ne hyx] at hy
      · rwa [Function.update_of_ne hu] at hy
    obtain ⟨g, hg, rfl⟩ := hI.held u y a hbefore
    exact released_mem hI.unique he hg fun hge => hkept u y (hge ▸ hy)

/-- No instruction finds its entry gone, and each keeps the books. -/
theorem Inv.exec (hI : Inv s o) (hw : s.pending w ≠ []) :
    ∃ t p, exec s w = some t ∧ Inv t p := by
  have hb := hI.bracketed w
  have huse : ∀ {i : Instr} {is : List Instr} {x : Var}, s.pending w = i :: is →
      i.next (o w) = (if x ∈ o w then some (o w) else none) →
      (∃ e ∈ s.file_list, s.var w x = some e.address) ∧ Inv (s.setPending w is) o := by
    intro i is x hp hi
    rw [hp, inUse] at hb
    by_cases hx : x ∈ o w
    · rw [hi, if_pos hx] at hb
      obtain ⟨a, ha⟩ := Option.ne_none_iff_exists'.mp ((hI.assigned w x).mp hx)
      obtain ⟨e, he, hea⟩ := hI.held w x a ha
      exact ⟨⟨e, he, by rw [ha, hea]⟩, hI.setPending hb⟩
    · rw [hi, if_neg hx] at hb
      cases hb
  cases hp : s.pending w with
  | nil => exact absurd hp hw
  | cons i is =>
    cases i with
    | active_file_list_find x path =>
      rw [hp, inUse, Instr.next] at hb
      by_cases hx : x ∈ o w
      · simp [hx] at hb
      · rw [if_neg hx] at hb
        refine ⟨_, Function.update o w (insert x (o w)), by rw [ActiveFiles.exec, hp], ?_⟩
        cases hfind : s.file_list.find? (·.path = path) with
        | none => exact hI.find_new hx hfind hb
        | some e => exact hI.find_old hx hfind hb
    | active_file_finished_using x =>
      rw [hp, inUse, Instr.next] at hb
      by_cases hx : x ∈ o w
      · rw [if_pos hx] at hb
        obtain ⟨a, ha⟩ := Option.ne_none_iff_exists'.mp ((hI.assigned w x).mp hx)
        obtain ⟨t, ht, hIt⟩ := hI.finish hx ha hb
        refine ⟨_, _, ?_, hIt⟩
        simp only [ActiveFiles.exec, hp, ha, ht, Option.map_some]
      · simp [hx] at hb
    | RDLOCK x | WRLOCK x | UNLOCK x | read_path x =>
      obtain ⟨hlive, hIt⟩ := huse hp rfl
      exact ⟨_, _, by rw [ActiveFiles.exec, hp]; exact if_pos hlive, hIt⟩

theorem inv_step (hI : Inv s o) (h : Step s w t) : ∃ p, Inv t p := by
  cases h with
  | request hw hr => exact ⟨_, hI.request hw (Request.inUse_worker hr)⟩
  | exec he =>
    have hw : s.pending w ≠ [] := by
      intro hnil
      simp [ActiveFiles.exec, hnil] at he
    obtain ⟨t', p, ht', hI'⟩ := hI.exec hw
    rw [he, Option.some.injEq] at ht'
    subst ht'
    exact ⟨p, hI'⟩

omit [DecidableEq W] in
theorem inv_init (h : Initial s) : Inv s fun _ => ∅ := by
  obtain ⟨hlist, hfound, hfinished, hvar, hpending⟩ := h
  constructor <;> simp [hlist, hfound, hfinished, hvar, hpending, inUse]

theorem Inv.exact (hI : Inv s o) : Exact s where
  unique := hI.unique
  count := hI.count
  listed := by
    intro a
    constructor
    · rintro ⟨e, he, rfl⟩
      have := hI.count e he
      have := hI.positive e he
      omega
    · intro hlt
      by_contra hnone
      have := hI.gone a fun e he hea => hnone ⟨e, he, hea⟩
      omega
  live := by
    intro w hw
    obtain ⟨t, p, ht, -⟩ := hI.exec hw
    rw [ht]
    rfl
  idle := by
    intro hidle
    have hempty : ∀ w, o w = ∅ := by
      intro w
      have hb := hI.bracketed w
      rw [hidle w] at hb
      exact Option.some.inj hb
    apply List.eq_nil_iff_forall_not_mem.mpr
    intro e he
    have hw := hI.working e he
    have hpos := hI.positive e he
    simp [hempty, holding] at hw
    omega

end Steps

/-- In every state that any number of workers reach from the empty list, the list of active
files keeps exact books. -/
theorem active_files_exact [Fintype W] {s : State W} (h : Reachable Initial Step s) :
    Exact s := by
  have hinv : ∃ o, Inv s o := by
    refine h.invariant (I := fun s => ∃ o, Inv s o) ?_ ?_
    · intro s hs
      exact ⟨_, inv_init hs⟩
    · rintro u w v ⟨o, hI⟩ hstep
      exact inv_step hI hstep
  obtain ⟨o, hI⟩ := hinv
  exact hI.exact

def start (W : Type*) : State W := ⟨[], 0, fun _ => 0, fun _ => 0, fun _ _ => none, fun _ => []⟩

theorem active_files_exact_two : ∃ s : State (Fin 2),
    (s.file_list.map (·.is_working) = [2] ∧ s.pending 1 ≠ []) ∧ Exact s := by
  -- both workers open the root and have found it
  let is := (Request.open_file [47] 0).worker.get (by decide)
  let s₁ := (start (Fin 2)).setPending 0 is
  let s₂ := s₁.setPending 1 is
  let s₃ := (exec s₂ 0).get (by decide)
  let s₄ := (exec s₃ 1).get (by decide)
  have h : Reachable Initial Step (start (Fin 2)) :=
    reachable_init ⟨rfl, fun _ => rfl, fun _ => rfl, fun _ _ => rfl, fun _ => rfl⟩
  have hr : (Request.open_file [47] 0).worker = some is := (Option.some_get _).symm
  have h₁ : Reachable Initial Step s₁ := reachable_step h (Step.request rfl hr)
  have h₂ : Reachable Initial Step s₂ := reachable_step h₁ (Step.request rfl hr)
  have h₃ : Reachable Initial Step s₃ := reachable_step h₂ (Step.exec (Option.some_get _).symm)
  have h₄ : Reachable Initial Step s₄ := reachable_step h₃ (Step.exec (Option.some_get _).symm)
  exact ⟨s₄, ⟨by decide, by decide⟩, active_files_exact h₄⟩

end LaLiga.Rfs.ActiveFiles
