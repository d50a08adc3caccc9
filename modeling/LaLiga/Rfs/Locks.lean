import LaLiga.Lib.Transition
import LaLiga.Rfs.Path
import Mathlib.Logic.Relation

/-! The locks a worker takes to resolve a path: the `access` mutex of the list of active
files and the `rwlock` of each entry. An entry lives while somebody uses it, so its lock
goes by its path. -/
namespace LaLiga.Rfs.Locks

open LaLiga.Lib

variable {W : Type*} [DecidableEq W]

inductive Instr
  | lock_access
  | unlock_access
  | list_find (path : Path)
  | WRLOCK (path : Path)
  | RDLOCK (path : Path)
  | UNLOCK (path : Path)
  | start_working (path : Path)
  | stop_working (path : Path)
  | remove_unused (path : Path)
  deriving DecidableEq

open Instr

/-- `list_find` decides at run time whether the entry is there: see `exec`. -/
def active_file_list_find (path : Path) : List Instr :=
  [lock_access, list_find path, unlock_access]

def active_file_finished_using (path : Path) : List Instr :=
  [lock_access, WRLOCK path, stop_working path, UNLOCK path, remove_unused path, unlock_access]

/-- The unlocks of `search_in_directory`, standing at the prefix `sub_path` with the one
before it still locked. `levels` says how many prefixes the directories contain. -/
def search_in_directory : Nat → Path → List Path → List Path
  | 0, before, sub_paths => sub_paths ++ [before]
  | _ + 1, before, [] => [before]
  | _ + 1, before, [sub_path] => [before, sub_path]
  | levels + 1, before, sub_path :: next :: rest =>
    before :: search_in_directory levels sub_path (next :: rest)

def inode_of_sub_paths (levels : Nat) (sub_paths : List Path) : List Instr :=
  sub_paths.flatMap (fun p => active_file_list_find p ++ [RDLOCK p]) ++
  match sub_paths with
  | [] => []
  | [root] => UNLOCK root :: active_file_finished_using root
  | root :: first :: rest =>
    (search_in_directory levels root (first :: rest)).map UNLOCK ++
      sub_paths.flatMap active_file_finished_using

def inode_of_file (levels : Nat) (path : Path) : List Instr :=
  match split_path path with
  | none => []
  | some sub_paths => inode_of_sub_paths levels sub_paths

/-- What a worker does for one request: reading, writing, listing and so on resolve the
path; creating and deleting then resolve the parent too. -/
inductive Request : List Instr → Prop
  | use (levels : Nat) (path : Path) : Request (active_file_list_find path ++
      inode_of_file levels path ++ active_file_finished_using path)
  | change (levels levels' : Nat) (path parent : Path) : Request (active_file_list_find path ++
      inode_of_file levels path ++ active_file_list_find parent ++
      inode_of_file levels' parent ++ active_file_finished_using path ++
      active_file_finished_using parent)

structure State (W : Type*) where
  access : Option W
  readers : Path → List W
  writer : Path → Option W
  is_working : Path → Option Nat
  pending : W → List Instr

def Initial (s : State W) : Prop :=
  s.access = none ∧ (∀ p, s.readers p = []) ∧ (∀ p, s.writer p = none) ∧
    (∀ p, s.is_working p = none) ∧ ∀ w, s.pending w = []

def State.next (s : State W) (w : W) (is : List Instr) : State W :=
  { s with pending := Function.update s.pending w is }

/-- One instruction of `w`; `none` while it has to wait. -/
def exec (s : State W) (w : W) : Option (State W) :=
  match s.pending w with
  | [] => none
  | lock_access :: is =>
    if s.access = none then some { s.next w is with access := some w } else none
  | unlock_access :: is => some { s.next w is with access := none }
  | list_find p :: is =>
    match s.is_working p with
    | none => some { s.next w is with is_working := Function.update s.is_working p (some 1) }
    | some _ => some (s.next w (WRLOCK p :: start_working p :: UNLOCK p :: is))
  | WRLOCK p :: is =>
    if s.writer p = none ∧ s.readers p = [] then
      some { s.next w is with writer := Function.update s.writer p (some w) }
    else none
  | RDLOCK p :: is =>
    if s.writer p = none then
      some { s.next w is with readers := Function.update s.readers p (w :: s.readers p) }
    else none
  | UNLOCK p :: is =>
    if s.writer p = some w then
      some { s.next w is with writer := Function.update s.writer p none }
    else
      some { s.next w is with readers := Function.update s.readers p ((s.readers p).erase w) }
  | start_working p :: is => some { s.next w is with
      is_working := Function.update s.is_working p ((s.is_working p).map (· + 1)) }
  | stop_working p :: is => some { s.next w is with
      is_working := Function.update s.is_working p ((s.is_working p).map (· - 1)) }
  | remove_unused p :: is => some { s.next w is with
      is_working := Function.update s.is_working p
        (if s.is_working p = some 0 then none else s.is_working p) }

inductive Step : State W → W → State W → Prop
  | request {s : State W} {w : W} {is : List Instr} :
      s.pending w = [] → Request is → Step s w (s.next w is)
  | exec {s t : State W} {w : W} : exec s w = some t → Step s w t

/-- `w` waits for a lock that `v` holds. -/
def Waits (s : State W) (w v : W) : Prop :=
  match s.pending w with
  | lock_access :: _ => s.access = some v
  | RDLOCK p :: _ => s.writer p = some v
  | WRLOCK p :: _ => s.writer p = some v ∨ v ∈ s.readers p
  | _ => False

/-- A cycle of workers each waiting for a lock held by the next one. -/
def Deadlock (s : State W) : Prop := ∃ w, Relation.TransGen (Waits s) w w

/-- The mutex is asked for before any lock is given back. -/
def asks_access : List Instr → Bool
  | lock_access :: _ => true
  | UNLOCK _ :: _ => false
  | _ :: is => asks_access is
  | [] => false

/-- A step that comes to ask for a write lock finds it free of readers that have yet to
find prefixes, and such a reader takes no lock that somebody waits to write. -/
def Safe (s : State W) (w : W) : Prop :=
  match s.pending w with
  | list_find p :: _ => s.is_working p ≠ none →
      ∀ v ∈ s.readers p, v ≠ w ∧ asks_access (s.pending v) = false
  | lock_access :: WRLOCK p :: _ =>
      ∀ v ∈ s.readers p, v ≠ w ∧ asks_access (s.pending v) = false
  | RDLOCK p :: is => asks_access is = true → ∀ v is', s.pending v ≠ WRLOCK p :: is'
  | _ => True

/-- Where a worker stands with respect to the mutex and to write locks. -/
inductive Mode
  | outside
  | inside
  | writing (path : Path)
  | leaving

/-- The rest of a program fits what its worker holds. Read locks are taken outside the
mutex, and once one is given back all are, before anything else. -/
def Disciplined : Mode → (Path → Nat) → List Instr → Prop
  | .outside, R, [] => ∀ p, R p = 0
  | .outside, R, lock_access :: is => Disciplined .inside R is
  | .outside, R, RDLOCK p :: is => Disciplined .outside (Function.update R p (R p + 1)) is
  | .outside, R, UNLOCK p :: is =>
    0 < R p ∧
      (asks_access is = true → ∀ q, Function.update R p (R p - 1) q = 0) ∧
      Disciplined .outside (Function.update R p (R p - 1)) is
  | .inside, R, list_find _ :: is => Disciplined .leaving R is
  | .inside, R, WRLOCK p :: is => Disciplined (.writing p) R is
  | .writing p, R, start_working _ :: is => Disciplined (.writing p) R is
  | .writing p, R, stop_working _ :: is => Disciplined (.writing p) R is
  | .writing p, R, UNLOCK q :: is => q = p ∧ Disciplined .leaving R is
  | .leaving, R, remove_unused _ :: is => Disciplined .leaving R is
  | .leaving, R, unlock_access :: is => Disciplined .outside R is
  | _, _, _ => False

section Programs

variable {R : Path → Nat} {is : List Instr} {p : Path} {ps : List Path}

theorem disciplined_find :
    Disciplined .outside R (active_file_list_find p ++ is) ↔ Disciplined .outside R is :=
  Iff.rfl

theorem disciplined_finished :
    Disciplined .outside R (active_file_finished_using p ++ is) ↔ Disciplined .outside R is := by
  simp [active_file_finished_using, Disciplined]

theorem disciplined_finished_all :
    Disciplined .outside R (ps.flatMap active_file_finished_using ++ is) ↔
      Disciplined .outside R is := by
  induction ps with
  | nil => rfl
  | cons p ps ih => rw [List.flatMap_cons, List.append_assoc, disciplined_finished, ih]

theorem disciplined_lock_all : Disciplined .outside R
    (ps.flatMap (fun p => active_file_list_find p ++ [RDLOCK p]) ++ is) ↔
      Disciplined .outside (fun q => R q + ps.count q) is := by
  induction ps generalizing R with
  | nil => rfl
  | cons p ps ih =>
    rw [List.flatMap_cons, List.append_assoc, List.append_assoc, disciplined_find]
    have hcount : (fun q => Function.update R p (R p + 1) q + ps.count q) =
        fun q => R q + (p :: ps).count q := by
      funext q
      by_cases hq : q = p
      · subst hq
        simp only [Function.update_self, List.count_cons_self]
        omega
      · rw [Function.update_of_ne hq, List.count_cons_of_ne (Ne.symm hq)]
    rw [← hcount]
    exact ih

variable (ps) in
/-- Giving back exactly the locks held, one after the other. -/
theorem disciplined_unlock_all (h : Disciplined .outside (fun _ => 0) is) :
    Disciplined .outside (fun q => ps.count q) (ps.map UNLOCK ++ is) := by
  induction ps with
  | nil => simpa using h
  | cons p ps ih =>
    have hcount : Function.update (fun q => (p :: ps).count q) p ((p :: ps).count p - 1) =
        fun q => ps.count q := by
      funext q
      by_cases hq : q = p
      · subst hq
        simp
      · simp [hq, List.count_cons_of_ne (Ne.symm hq)]
    refine ⟨by simp, ?_, by rw [hcount]; exact ih⟩
    rw [hcount]
    intro hasks
    cases ps with
    | nil => simp
    | cons q qs => simp [asks_access] at hasks

theorem search_in_directory_perm (levels : Nat) (before : Path) (sub_paths : List Path)
    (hne : sub_paths ≠ []) :
    (search_in_directory levels before sub_paths).Perm (before :: sub_paths) := by
  induction levels, before, sub_paths using search_in_directory.induct with
  | case1 before sub_paths => exact List.perm_append_singleton before sub_paths
  | case2 => exact absurd rfl hne
  | case3 levels before sub_path => exact List.Perm.refl _
  | case4 levels before sub_path next rest ih => exact (ih (by simp)).cons before

theorem disciplined_inode_of_file {levels : Nat} {path : Path}
    (h : Disciplined .outside (fun _ => 0) is) :
    Disciplined .outside (fun _ => 0) (inode_of_file levels path ++ is) := by
  unfold inode_of_file
  cases split_path path with
  | none => exact h
  | some sub_paths =>
    simp only [inode_of_sub_paths, List.append_assoc]
    rw [disciplined_lock_all]
    simp only [Nat.zero_add]
    match sub_paths with
    | [] => simpa using h
    | [root] =>
      exact disciplined_unlock_all [root] (disciplined_finished.mpr h)
    | root :: first :: rest =>
      have hperm := search_in_directory_perm levels root (first :: rest) (by simp)
      have hcount : (fun q => (root :: first :: rest).count q) =
          fun q => (search_in_directory levels root (first :: rest)).count q := by
        funext q
        exact (hperm.count_eq q).symm
      rw [hcount]
      simp only [List.append_assoc]
      exact disciplined_unlock_all _ (disciplined_finished_all.mpr h)

theorem Request.disciplined (h : Request is) : Disciplined .outside (fun _ => 0) is := by
  have hnil : Disciplined .outside (fun _ => 0) [] := fun _ => rfl
  have hend : ∀ p, Disciplined .outside (fun _ => 0) (active_file_finished_using p) := by
    intro p
    simpa using disciplined_finished.mpr hnil
  cases h with
  | use levels path =>
    rw [List.append_assoc, disciplined_find]
    exact disciplined_inode_of_file (hend path)
  | change levels levels' path parent =>
    simp only [List.append_assoc]
    rw [disciplined_find]
    apply disciplined_inode_of_file
    rw [disciplined_find]
    apply disciplined_inode_of_file
    rw [disciplined_finished]
    exact hend parent

end Programs

/-- What `w` holds, according to the locks. -/
def Mode.Of (s : State W) (w : W) : Mode → Prop
  | .outside => s.access ≠ some w ∧ ∀ p, s.writer p ≠ some w
  | .inside => s.access = some w ∧ ∀ p, s.writer p ≠ some w
  | .writing q => s.access = some w ∧ ∀ p, s.writer p = some w ↔ p = q
  | .leaving => s.access = some w ∧ ∀ p, s.writer p ≠ some w

/-- Each worker follows the discipline from where it stands. -/
def Inv (s : State W) : Prop :=
  ∀ w, ∃ m, Mode.Of s w m ∧ Disciplined m (fun p => (s.readers p).count w) (s.pending w)

section Steps

variable {s t : State W} {w v : W} {p : Path} {is : List Instr}

omit [DecidableEq W] in
theorem Mode.Of.congr {m : Mode} (h : Mode.Of s w m)
    (ha : t.access = some w ↔ s.access = some w)
    (hw : ∀ p, t.writer p = some w ↔ s.writer p = some w) : Mode.Of t w m := by
  cases m <;> simpa [Mode.Of, ha, hw] using h

/-- A step of `w` does not change what another worker holds or has to do. -/
theorem step_other (hI : Inv s) (h : Step s w t) (hv : v ≠ w) :
    t.pending v = s.pending v ∧ (t.access = some v ↔ s.access = some v) ∧
      (∀ p, t.writer p = some v ↔ s.writer p = some v) ∧
      ∀ p, (t.readers p).count v = (s.readers p).count v := by
  have hne : Ne w v := Ne.symm hv
  obtain ⟨m, hm, hd⟩ := hI w
  cases h with
  | request _ _ => simp [State.next, hv]
  | exec h =>
    unfold exec at h
    split at h
    · simp at h
    · split_ifs at h with hfree
      obtain rfl := Option.some.inj h
      simp [State.next, hv, hne, hfree]
    · rename_i is hp
      obtain rfl := Option.some.inj h
      rw [hp] at hd
      cases m with
      | leaving => simp [State.next, hv, hm.1, hne]
      | _ => exact absurd hd id
    · split at h <;> obtain rfl := Option.some.inj h <;> simp [State.next, hv]
    · rename_i q is hp
      split_ifs at h with hfree
      obtain rfl := Option.some.inj h
      refine ⟨by simp [State.next, hv], Iff.rfl, ?_, fun _ => rfl⟩
      intro p
      by_cases hpq : p = q
      · subst hpq; simp [hne, hfree.1]
      · simp [hpq]
    · rename_i q is hp
      split_ifs at h with hfree
      obtain rfl := Option.some.inj h
      refine ⟨by simp [State.next, hv], Iff.rfl, fun _ => Iff.rfl, ?_⟩
      intro p
      by_cases hpq : p = q
      · subst hpq; simp [hne]
      · simp [hpq]
    · rename_i q is hp
      split_ifs at h with hown
      · obtain rfl := Option.some.inj h
        refine ⟨by simp [State.next, hv], Iff.rfl, ?_, fun _ => rfl⟩
        intro p
        by_cases hpq : p = q
        · subst hpq; simp [hne, hown]
        · simp [hpq]
      · obtain rfl := Option.some.inj h
        refine ⟨by simp [State.next, hv], Iff.rfl, fun _ => Iff.rfl, ?_⟩
        intro p
        by_cases hpq : p = q
        · subst hpq
          simp [List.count_erase_of_ne hv]
        · simp [hpq]
    all_goals
      obtain rfl := Option.some.inj h
      simp [State.next, hv]

theorem step_self (hI : Inv s) (h : Step s w t) :
    ∃ m, Mode.Of t w m ∧ Disciplined m (fun p => (t.readers p).count w) (t.pending w) := by
  obtain ⟨m, hm, hd⟩ := hI w
  cases h with
  | request hp hr =>
    rw [hp] at hd
    cases m with
    | outside =>
      refine ⟨.outside, hm, ?_⟩
      have hnone : (fun p => (s.readers p).count w) = fun _ => 0 := funext hd
      simpa [State.next, hnone] using hr.disciplined
    | _ => exact absurd hd id
  | exec h =>
    unfold exec at h
    split at h
    · simp at h
    · rename_i is hp
      rw [hp] at hd
      split_ifs at h with hfree
      obtain rfl := Option.some.inj h
      cases m with
      | outside => exact ⟨.inside, ⟨rfl, hm.2⟩, by simpa [State.next, Disciplined] using hd⟩
      | _ => exact absurd hd id
    · rename_i is hp
      rw [hp] at hd
      obtain rfl := Option.some.inj h
      cases m with
      | leaving => exact ⟨.outside, ⟨by simp, hm.2⟩, by simpa [State.next, Disciplined] using hd⟩
      | _ => exact absurd hd id
    · rename_i q is hp
      rw [hp] at hd
      cases m with
      | inside =>
        split at h <;> obtain rfl := Option.some.inj h
        · exact ⟨.leaving, hm, by simpa [State.next, Disciplined] using hd⟩
        · exact ⟨.inside, hm, by simpa [State.next, Disciplined] using hd⟩
      | _ => exact absurd hd id
    · rename_i q is hp
      rw [hp] at hd
      split_ifs at h with hfree
      obtain rfl := Option.some.inj h
      cases m with
      | inside =>
        refine ⟨.writing q, ⟨hm.1, ?_⟩, by simpa [State.next, Disciplined] using hd⟩
        intro p
        by_cases hpq : p = q
        · subst hpq; simp
        · simp [hpq, hm.2 p]
      | _ => exact absurd hd id
    · rename_i q is hp
      rw [hp] at hd
      split_ifs at h with hfree
      obtain rfl := Option.some.inj h
      cases m with
      | outside =>
        refine ⟨.outside, hm, ?_⟩
        have hcount : (fun p => (Function.update s.readers q (w :: s.readers q) p).count w) =
            Function.update (fun p => (s.readers p).count w) q ((s.readers q).count w + 1) := by
          funext p
          by_cases hpq : p = q
          · subst hpq; simp
          · simp [hpq]
        simpa [State.next, Disciplined, hcount] using hd
      | _ => exact absurd hd id
    · rename_i q is hp
      rw [hp] at hd
      cases m with
      | outside =>
        rw [if_neg (hm.2 q)] at h
        obtain rfl := Option.some.inj h
        refine ⟨.outside, hm, ?_⟩
        have hcount : (fun p => (Function.update s.readers q ((s.readers q).erase w) p).count w) =
            Function.update (fun p => (s.readers p).count w) q ((s.readers q).count w - 1) := by
          funext p
          by_cases hpq : p = q
          · subst hpq; simp
          · simp [hpq]
        simpa [State.next, hcount] using hd.2.2
      | writing r =>
        obtain ⟨rfl, hd⟩ := hd
        rw [if_pos ((hm.2 q).mpr rfl)] at h
        obtain rfl := Option.some.inj h
        refine ⟨.leaving, ⟨hm.1, ?_⟩, by simpa [State.next, Disciplined] using hd⟩
        intro p
        by_cases hpq : p = q
        · subst hpq; simp
        · simpa [hpq] using fun hw => hpq ((hm.2 p).mp hw)
      | _ => exact absurd hd id
    · rename_i q is hp
      rw [hp] at hd
      obtain rfl := Option.some.inj h
      cases m with
      | writing r => exact ⟨.writing r, hm, by simpa [State.next, Disciplined] using hd⟩
      | _ => exact absurd hd id
    · rename_i q is hp
      rw [hp] at hd
      obtain rfl := Option.some.inj h
      cases m with
      | writing r => exact ⟨.writing r, hm, by simpa [State.next, Disciplined] using hd⟩
      | _ => exact absurd hd id
    · rename_i q is hp
      rw [hp] at hd
      obtain rfl := Option.some.inj h
      cases m with
      | leaving => exact ⟨.leaving, hm, by simpa [State.next, Disciplined] using hd⟩
      | _ => exact absurd hd id

theorem inv_step (hI : Inv s) (h : Step s w t) : Inv t := by
  intro v
  by_cases hv : v = w
  · subst hv
    exact step_self hI h
  · obtain ⟨m, hm, hd⟩ := hI v
    obtain ⟨hp, ha, hw, hr⟩ := step_other hI h hv
    refine ⟨m, hm.congr ha hw, ?_⟩
    rw [hp, funext hr]
    exact hd

theorem inv_reachable (h : Reachable Initial Step s) : Inv s := by
  refine h.invariant ?_ (fun _ _ _ => inv_step)
  rintro s ⟨ha, hr, hw, -, hp⟩ v
  exact ⟨.outside, ⟨by simp [ha], by simp [hw]⟩, by simp [Disciplined, hr, hp]⟩

/-- No worker waits to write a lock that it reads, or that a reader with prefixes yet to
find holds. -/
def Clear (s : State W) : Prop :=
  ∀ w p is, s.pending w = WRLOCK p :: is →
    ∀ v ∈ s.readers p, v ≠ w ∧ asks_access (s.pending v) = false

omit [DecidableEq W] in
theorem Mode.Of.access_of_writer {m : Mode} (h : Mode.Of s w m) (hw : s.writer p = some w) :
    s.access = some w := by
  cases m with
  | writing q => exact h.1
  | _ => exact absurd hw (h.2 p)

/-- Who waits to write a lock has the mutex and no write lock. -/
theorem Inv.of_wrlock (hI : Inv s) (hw : s.pending w = WRLOCK p :: is) :
    s.access = some w ∧ ∀ q, s.writer q ≠ some w := by
  obtain ⟨m, hm, hd⟩ := hI w
  rw [hw] at hd
  cases m with
  | inside => exact hm
  | _ => exact absurd hd id

theorem Inv.access_of_writer (hI : Inv s) (hw : s.writer p = some w) : s.access = some w := by
  obtain ⟨m, hm, -⟩ := hI w
  exact hm.access_of_writer hw

theorem Inv.outside (hI : Inv s) (hw : s.access ≠ some w) :
    Disciplined .outside (fun p => (s.readers p).count w) (s.pending w) := by
  obtain ⟨m, hm, hd⟩ := hI w
  cases m with
  | outside => exact hd
  | _ => exact absurd hm.1 hw

/-- The two ways to come to wait for a write lock. -/
theorem step_to_wrlock (hI : Inv s) (h : Step s w t) (hw : t.pending w = WRLOCK p :: is) :
    t.readers = s.readers ∧ ((∃ is', s.pending w = list_find p :: is' ∧ s.is_working p ≠ none) ∨
      s.pending w = lock_access :: WRLOCK p :: is) := by
  obtain ⟨m, hm, hd⟩ := hI w
  cases h with
  | request _ hr =>
    simp only [State.next, Function.update_self] at hw
    have := hr.disciplined
    rw [hw] at this
    exact absurd this id
  | exec h =>
    unfold exec at h
    split at h
    · simp at h
    · rename_i hp
      split_ifs at h
      obtain rfl := Option.some.inj h
      simp only [State.next, Function.update_self] at hw
      exact ⟨rfl, Or.inr (by rw [hp, hw])⟩
    · rename_i hp
      obtain rfl := Option.some.inj h
      simp only [State.next, Function.update_self] at hw
      rw [hp, hw] at hd
      cases m <;> exact absurd hd id
    · rename_i hp
      split at h <;> obtain rfl := Option.some.inj h
      · simp only [State.next, Function.update_self] at hw
        rw [hp, hw] at hd
        cases m <;> exact absurd hd id
      · rename_i hfound
        simp only [State.next, Function.update_self, List.cons.injEq, WRLOCK.injEq] at hw
        obtain ⟨rfl, -⟩ := hw
        exact ⟨rfl, Or.inl ⟨_, hp, by simp [hfound]⟩⟩
    · rename_i hp
      split_ifs at h
      obtain rfl := Option.some.inj h
      simp only [State.next, Function.update_self] at hw
      rw [hp, hw] at hd
      cases m <;> exact absurd hd id
    · rename_i hp
      split_ifs at h
      obtain rfl := Option.some.inj h
      simp only [State.next, Function.update_self] at hw
      rw [hp, hw] at hd
      cases m <;> exact absurd hd id
    · rename_i q is' hp
      have hnext : t.pending w = is' := by
        split_ifs at h <;> obtain rfl := Option.some.inj h <;> exact Function.update_self ..
      rw [hw] at hnext
      rw [hp, ← hnext] at hd
      cases m with
      | outside => exact absurd hd.2.2 id
      | writing q => exact absurd hd.2 id
      | _ => exact absurd hd id
    all_goals
      rename_i hp
      obtain rfl := Option.some.inj h
      simp only [State.next, Function.update_self] at hw
      rw [hp, hw] at hd
      cases m <;> exact absurd hd id

theorem clear_step (hI : Inv s) (hC : Clear s) (hsafe : Safe s w) (h : Step s w t) :
    Clear t := by
  intro x p is hx v hv
  by_cases hxw : x = w
  · -- the step comes to ask for the write lock
    subst hxw
    obtain ⟨hr, hfrom⟩ := step_to_wrlock hI h hx
    rw [hr] at hv
    have hsafe' : v ≠ x ∧ asks_access (s.pending v) = false := by
      unfold Safe at hsafe
      rcases hfrom with ⟨is', hp, hfound⟩ | hp
      · rw [hp] at hsafe
        exact hsafe hfound v hv
      · rw [hp] at hsafe
        exact hsafe v hv
    rw [(step_other hI h hsafe'.1).1]
    exact hsafe'
  · rw [(step_other hI h hxw).1] at hx
    by_cases hvw : v = w
    · -- a step of a worker while another one waits to write
      subst hvw
      refine ⟨Ne.symm hxw, ?_⟩
      have haccess : s.access ≠ some v := by
        rw [(hI.of_wrlock hx).1]
        simpa using hxw
      have hd := hI.outside haccess
      have hmem : ∀ q, v ∈ t.readers q → 0 < (t.readers q).count v :=
        fun q hq => List.count_pos_iff.mpr hq
      obtain ⟨m, hm, hdt⟩ := step_self hI h
      cases h with
      | request hp _ =>
        rw [hp] at hd
        have hzero : (s.readers p).count v = 0 := hd p
        have hpos : 0 < (s.readers p).count v := hmem p hv
        omega
      | exec h =>
        unfold exec at h
        unfold Safe at hsafe
        split at h
        · simp at h
        · rename_i hp
          rw [if_neg (by rw [(hI.of_wrlock hx).1]; simp)] at h
          exact absurd h (by simp)
        case h_6 q is' hp =>
          rw [hp] at hsafe
          split_ifs at h
          obtain rfl := Option.some.inj h
          simp only [State.next, Function.update_self]
          by_cases hold : v ∈ s.readers p
          · have := (hC x p is hx v hold).2
            rwa [hp] at this
          · have hqp : q = p := by
              by_contra hne
              simp [Ne.symm hne, hold] at hv
            subst hqp
            cases hasks : asks_access is' with
            | false => rfl
            | true => exact absurd hx (hsafe hasks x is)
        case h_7 q is' hp =>
          rw [hp] at hd
          have hnot : ¬ s.writer q = some v := fun hw => haccess (hI.access_of_writer hw)
          rw [if_neg hnot] at h
          obtain rfl := Option.some.inj h
          simp only [State.next, Function.update_self]
          cases hasks : asks_access is' with
          | false => rfl
          | true =>
            have hzero := hd.2.1 hasks p
            have hpos := hmem p hv
            by_cases hpq : p = q
            · subst hpq
              simp only [Function.update_self, List.count_erase_self] at hzero hpos
              omega
            · simp only [Function.update_of_ne hpq] at hzero hpos
              omega
        all_goals
          rename_i hp
          rw [hp] at hd
          exact absurd hd id
    · obtain ⟨hp, -, -, hr⟩ := step_other hI h hvw
      rw [hp]
      have hcount := hr p
      have hpos := List.count_pos_iff.mpr hv
      exact hC x p is hx v (List.count_pos_iff.mp (by omega))

theorem clear_reachable (h : Reachable Initial (Guarded Safe Step) s) : Clear s := by
  have hinv : Inv s ∧ Clear s := by
    refine h.invariant (I := fun s => Inv s ∧ Clear s) ?_ ?_
    · intro s hs
      refine ⟨inv_reachable (reachable_init hs), ?_⟩
      intro w p is hw
      rw [hs.2.2.2.2 w] at hw
      exact absurd hw (by simp)
    · rintro s w t ⟨hI, hC⟩ ⟨hsafe, hstep⟩
      exact ⟨inv_step hI hstep, clear_step hI hC hsafe hstep⟩
  exact hinv.2

end Steps

/-- The cycle seen from its next member. -/
theorem cycle_next {α : Type*} {r : α → α → Prop} {a : α} (h : Relation.TransGen r a a) :
    ∃ b, r a b ∧ Relation.TransGen r b b := by
  obtain ⟨b, hab, hba⟩ := Relation.TransGen.head'_iff.mp h
  exact ⟨b, hab, Relation.TransGen.tail' hba hab⟩

section Cycles

variable {s t : State W} {w v u : W} {p : Path} {is : List Instr}

/-- Who waits for a worker waits for its mutex, or has the mutex and waits to write what
that worker reads. -/
theorem waits_cases (hI : Inv s) (h : Waits s w v) :
    s.access = some v ∨ ∃ p is, s.pending w = WRLOCK p :: is ∧ v ∈ s.readers p := by
  unfold Waits at h
  split at h
  · exact Or.inl h
  · exact Or.inl (hI.access_of_writer h)
  · rename_i p is hp
    rcases h with h | h
    · exact Or.inl (hI.access_of_writer h)
    · exact Or.inr ⟨p, is, hp, h⟩
  · exact absurd h id

theorem waits_holder (hI : Inv s) (hw : s.access = some w) (h : Waits s w v) :
    ∃ p is, s.pending w = WRLOCK p :: is ∧ v ∈ s.readers p := by
  obtain ⟨m, hm, hd⟩ := hI w
  unfold Waits at h
  split at h
  · rename_i hp
    rw [hp] at hd
    cases m with
    | outside => exact absurd hw hm.1
    | _ => exact absurd hd id
  · rename_i hp
    rw [hp] at hd
    cases m with
    | outside => exact absurd hw hm.1
    | _ => exact absurd hd id
  · rename_i p is hp
    refine ⟨p, is, hp, ?_⟩
    rcases h with h | h
    · have hv := hI.access_of_writer h
      rw [hw] at hv
      obtain rfl := Option.some.inj hv
      exact absurd h ((hI.of_wrlock hp).2 p)
    · exact h
  · exact absurd h id

theorem reader_not_waiting (hI : Inv s) (hC : Clear s) (hw : s.pending w = WRLOCK p :: is)
    (hv : v ∈ s.readers p) : ¬ Waits s v u := by
  intro h
  obtain ⟨hne, hasks⟩ := hC w p is hw v hv
  obtain ⟨haccess, hwriter⟩ := hI.of_wrlock hw
  unfold Waits at h
  split at h
  · rename_i hp
    rw [hp] at hasks
    exact absurd hasks (by simp [asks_access])
  · have hu := hI.access_of_writer h
    rw [haccess] at hu
    obtain rfl := Option.some.inj hu
    exact hwriter _ h
  · rename_i hp
    have hv := (hI.of_wrlock hp).1
    rw [haccess] at hv
    exact hne (Option.some.inj hv).symm
  · exact h

theorem not_deadlock (hI : Inv s) (hC : Clear s) : ¬ Deadlock s := by
  rintro ⟨a, ha⟩
  obtain ⟨b, hab, hb⟩ := cycle_next ha
  obtain ⟨d, hbd, hd⟩ := cycle_next hb
  obtain ⟨e, hde, -⟩ := cycle_next hd
  rcases waits_cases hI hab with haccess | ⟨p, is, hw, hv⟩
  · obtain ⟨p, is, hw, hv⟩ := waits_holder hI haccess hbd
    exact reader_not_waiting hI hC hw hv hde
  · exact reader_not_waiting hI hC hw hv hbd

/-- A reader that asks for the mutex while a worker waits to write its lock: the two
close a cycle, at once or after the read locks the reader takes before. -/
theorem deadlock_of_asks (hI : Inv s) (hw : s.pending w = WRLOCK p :: is) (hv : v ∈ s.readers p)
    (hbad : v = w ∨ asks_access (s.pending v) = true) :
    ∃ xs u, Trace Step s xs u ∧ Deadlock u := by
  have hww : ∀ {s : State W} {v : W}, s.pending w = WRLOCK p :: is → v ∈ s.readers p →
      Waits s w v := by
    intro s v hw hv
    unfold Waits
    rw [hw]
    exact Or.inr hv
  rcases hbad with rfl | hasks
  · exact ⟨[], s, .refl, v, .single (hww hw hv)⟩
  by_cases hne : v = w
  · subst hne
    exact ⟨[], s, .refl, v, .single (hww hw hv)⟩
  obtain ⟨haccess, hwriter⟩ := hI.of_wrlock hw
  induction hp : s.pending v generalizing s with
  | nil =>
    rw [hp] at hasks
    exact absurd hasks (by simp [asks_access])
  | cons i is' ih =>
    have hd := hI.outside (w := v) (by rw [haccess]; simpa using Ne.symm hne)
    rw [hp] at hd hasks
    cases i with
    | lock_access =>
      refine ⟨[], s, .refl, v, .tail (.single ?_) (hww hw hv)⟩
      unfold Waits
      rw [hp]
      exact haccess
    | RDLOCK q =>
      have hfree : s.writer q = none := by
        cases hq : s.writer q with
        | none => rfl
        | some x =>
          have hx := hI.access_of_writer hq
          rw [haccess] at hx
          obtain rfl := Option.some.inj hx
          exact absurd hq (hwriter q)
      have hexec : exec s v = some { s.next v is' with
          readers := Function.update s.readers q (v :: s.readers q) } := by
        unfold exec
        rw [hp]
        simp [hfree]
      have hstep := Step.exec hexec
      have hmem : v ∈ Function.update s.readers q (v :: s.readers q) p := by
        by_cases hpq : p = q
        · subst hpq; simp
        · simpa [hpq] using hv
      obtain ⟨xs, u, hxs, hu⟩ := ih (inv_step hI hstep)
        (by simpa [State.next, Ne.symm hne] using hw) hmem
        (by simpa [State.next, asks_access] using hasks) haccess hwriter (by simp [State.next])
      exact ⟨_, u, .stepL hstep hxs, hu⟩
    | UNLOCK q => exact absurd hasks (by simp [asks_access])
    | _ => exact absurd hd id

theorem deadlock_of_not_safe (hI : Inv s) (h : Step s w t) (hsafe : ¬ Safe s w) :
    ∃ xs u, Trace Step t xs u ∧ Deadlock u := by
  have hIt := inv_step hI h
  have hother := fun v (hv : v ≠ w) => (step_other hI h hv).1
  unfold Safe at hsafe
  split at hsafe
  · -- the entry is in the list: its write lock is asked for
    rename_i p is hp
    push Not at hsafe
    obtain ⟨hfound, v, hv, hbad⟩ := hsafe
    cases h with
    | request h0 _ => simp [hp] at h0
    | exec h =>
      unfold exec at h
      rw [hp] at h
      simp only at h
      split at h
      · rename_i hnone
        exact absurd hnone hfound
      · obtain rfl := Option.some.inj h
        refine deadlock_of_asks (v := v) hIt (Function.update_self ..) hv ?_
        by_cases hvw : v = w
        · exact Or.inl hvw
        · rw [hother v hvw]
          exact Or.inr (by simpa using hbad hvw)
  · rename_i p is hp
    push Not at hsafe
    obtain ⟨v, hv, hbad⟩ := hsafe
    cases h with
    | request h0 _ => simp [hp] at h0
    | exec h =>
      unfold exec at h
      rw [hp] at h
      simp only at h
      split_ifs at h
      obtain rfl := Option.some.inj h
      refine deadlock_of_asks (v := v) hIt (Function.update_self ..) hv ?_
      by_cases hvw : v = w
      · exact Or.inl hvw
      · rw [hother v hvw]
        exact Or.inr (by simpa using hbad hvw)
  · rename_i p is hp
    push Not at hsafe
    obtain ⟨hasks, v, is', hv⟩ := hsafe
    have hvw : v ≠ w := by
      rintro rfl
      rw [hp] at hv
      exact absurd hv (by simp)
    cases h with
    | request h0 _ => simp [hp] at h0
    | exec h =>
      unfold exec at h
      rw [hp] at h
      simp only at h
      split_ifs at h
      obtain rfl := Option.some.inj h
      exact deadlock_of_asks (v := w) hIt (by rw [hother v hvw, hv]) (by simp)
        (Or.inr (by simpa [State.next] using hasks))
  · exact absurd trivial hsafe

end Cycles

/-- No run of safe steps deadlocks, and after any other step of a run a deadlock can be
reached. -/
theorem deadlock_free_iff_safe :
    (∀ s : State W, Reachable Initial (Guarded Safe Step) s → ¬ Deadlock s) ∧
    ∀ (s t : State W) (w : W), Reachable Initial Step s → Step s w t → ¬ Safe s w →
      ∃ xs u, Trace Step t xs u ∧ Deadlock u := by
  constructor
  · intro s hs
    have hrun : Reachable Initial Step s := by
      obtain ⟨s₀, xs, h0, hx⟩ := hs
      exact ⟨s₀, xs, h0, hx.mono (fun _ _ _ h => h.2)⟩
    exact not_deadlock (inv_reachable hrun) (clear_reachable hs)
  · intro s t w hs hstep hsafe
    exact deadlock_of_not_safe (inv_reachable hs) hstep hsafe

/-- Running the instructions of the workers named, in order. -/
def execs (s : State W) : List W → Option (State W)
  | [] => some s
  | w :: ws => (exec s w).bind (fun t => execs t ws)

theorem execs_trace {s t : State W} {ws : List W} (h : execs s ws = some t) :
    Trace Step s ws t := by
  induction ws generalizing s with
  | nil =>
    obtain rfl := Option.some.inj h
    exact .refl
  | cons w ws ih =>
    obtain ⟨u, hu, ht⟩ := Option.bind_eq_some_iff.mp h
    exact .stepL (.exec hu) (ih ht)

/-- Worker 0 is about to look up `/a` and worker 1 to look up `/`. -/
def two_requests : State (Fin 2) where
  access := none
  readers := fun _ => []
  writer := fun _ => none
  is_working := fun _ => none
  pending := fun w => if w.val = 0 then active_file_list_find [47, 97] ++ inode_of_file 1 [47, 97] ++
      active_file_finished_using [47, 97]
    else active_file_list_find [47] ++ inode_of_file 0 [47] ++ active_file_finished_using [47]

theorem reachable_two_requests : Reachable Initial Step two_requests := by
  have hidle : Reachable Initial Step { two_requests with pending := fun _ => [] } :=
    reachable_init ⟨rfl, fun _ => rfl, fun _ => rfl, fun _ => rfl, fun _ => rfl⟩
  have hboth := reachable_step (reachable_step hidle (Step.request (w := 0) rfl
    (Request.use 1 [47, 97]))) (Step.request (w := 1) rfl (Request.use 0 [47]))
  convert hboth using 1
  simp only [State.next, two_requests]
  congr 1
  funext w
  fin_cases w <;> rfl

/-- One reads `/` and asks for the mutex, the other has it and waits to write `/`. -/
theorem deadlock_two_requests : ∃ s : State (Fin 2), Reachable Initial Step s ∧ Deadlock s := by
  have hrun : ∃ t, execs two_requests [0, 0, 0, 0, 0, 0, 0, 1, 1] = some t ∧
      Waits t 0 1 ∧ Waits t 1 0 := ⟨_, rfl, rfl, Or.inr (by decide)⟩
  obtain ⟨t, ht, h01, h10⟩ := hrun
  exact ⟨t, reachable_trace reachable_two_requests (execs_trace ht), 0, .tail (.single h01) h10⟩

end LaLiga.Rfs.Locks
