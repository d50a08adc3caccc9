import LaLiga.Rfs.Requests

/-! The read and write locks that one request holds on the way through its operation. -/
namespace LaLiga.Rfs.LockBalance

open Instr Var

/-- The paths whose entries the request has locked, and the paths of its variables. -/
structure Held where
  readers : Multiset Path
  writers : Multiset Path
  var : Var → Path

def Held.locked (s : Held) (p : Path) : Prop := p ∈ s.readers ∨ p ∈ s.writers

instance (s : Held) (p : Path) : Decidable (s.locked p) := by
  unfold Held.locked
  infer_instance

/-- `none` if the request gives back a lock it does not hold, or asks to write on one it
holds. Finding an entry that is there, as is one whose lock is held, locks it to write. -/
def exec (s : Held) : Instr → Option Held
  | active_file_list_find x path =>
    if s.locked path then none else some { s with var := Function.update s.var x path }
  | active_file_finished_using x => if s.locked (s.var x) then none else some s
  | RDLOCK x => some { s with readers := s.var x ::ₘ s.readers }
  | WRLOCK x =>
    if s.locked (s.var x) then none else some { s with writers := s.var x ::ₘ s.writers }
  | UNLOCK x =>
    if s.var x ∈ s.writers then some { s with writers := s.writers.erase (s.var x) }
    else if s.var x ∈ s.readers then some { s with readers := s.readers.erase (s.var x) }
    else none
  | read_path _ => some s

def execAll : Held → List Instr → Option Held
  | s, [] => some s
  | s, i :: is =>
    match exec s i with
    | none => none
    | some s => execAll s is

/-- Nothing but read locks on `m`. -/
def reading (m : Multiset Path) (var : Var → Path) : Held := ⟨m, 0, var⟩

/-- From no locks to no locks, without a slip. -/
def Balanced (is : List Instr) : Prop :=
  ∀ var, ∃ var', execAll (reading 0 var) is = some (reading 0 var')

/-- Such a path has the root twice among its prefixes. -/
def double_slash : Path → Bool
  | a :: b :: _ => a = separator ∧ b = separator
  | _ => false

/-- The exits that give back what they took. -/
def clean : Request → Prop
  | .write_file path levels regular exit =>
    Request.found levels path → regular ∧ exit = .done
  | .truncate_file path levels regular not_attached =>
    Request.found levels path ∧ regular → not_attached = 0
  | _ => True

section Exec

variable {s t : Held} {i : Instr} {is js : List Instr} {x : Var} {p : Path}
  {m : Multiset Path} {var : Var → Path}

theorem execAll_cons (h : exec s i = some t) : execAll s (i :: is) = execAll t is := by
  rw [execAll, h]

theorem execAll_append (h : execAll s is = some t) : execAll s (is ++ js) = execAll t js := by
  induction is generalizing s with
  | nil =>
    cases h
    rfl
  | cons i is ih =>
    cases hi : exec s i with
    | none => simp [execAll, hi] at h
    | some u =>
      rw [execAll_cons hi] at h
      rw [List.cons_append, execAll_cons hi]
      exact ih h

theorem exec_find (h : p ∉ m) :
    exec (reading m var) (active_file_list_find x p) =
      some (reading m (Function.update var x p)) := by
  apply if_neg
  simp [Held.locked, reading, h]

theorem exec_finish (h : var x ∉ m) :
    exec (reading m var) (active_file_finished_using x) = some (reading m var) := by
  apply if_neg
  simp [Held.locked, reading, h]

theorem exec_unlock (h : var x ∈ m) :
    exec (reading m var) (UNLOCK x) = some (reading (m.erase (var x)) var) := by
  simp [exec, reading, h]

end Exec

section Search

variable {ps : List Path} {var : Var → Path} {m : Multiset Path} {i n levels : Nat}

theorem lock_prefixes_exec (var : Var → Path) (hps : ps.Nodup) (hm : ∀ p ∈ ps, p ∉ m) :
    ∃ var', execAll (reading m var) (Request.lock_prefixes i ps) =
        some (reading (ps + m) var') ∧
      (∀ j (hj : j < ps.length), var' (sub_paths (i + j)) = ps[j]) ∧
      ∀ x, (∀ j, i ≤ j → x ≠ sub_paths j) → var' x = var x := by
  induction ps generalizing i m var with
  | nil => exact ⟨var, by simp [Request.lock_prefixes, execAll], by simp, fun _ _ => rfl⟩
  | cons p ps ih =>
    obtain ⟨hp, hnodup⟩ := List.nodup_cons.mp hps
    have hfresh : ∀ q ∈ ps, q ∉ p ::ₘ m := by
      intro q hq hmem
      rcases Multiset.mem_cons.mp hmem with rfl | hmem
      · exact hp hq
      · exact hm q (by simp [hq]) hmem
    obtain ⟨var', hexec, hvar, hrest⟩ := ih (i := i + 1) (m := p ::ₘ m)
      (Function.update var (sub_paths i) p) hnodup hfresh
    have hrd : exec (reading m (Function.update var (sub_paths i) p)) (RDLOCK (sub_paths i)) =
        some (reading (p ::ₘ m) (Function.update var (sub_paths i) p)) := by
      simp [exec, reading]
    refine ⟨var', ?_, ?_, ?_⟩
    · rw [Request.lock_prefixes, execAll_cons (exec_find (hm p (by simp))), execAll_cons hrd, hexec]
      congr 2
      rw [← Multiset.cons_coe, Multiset.cons_add, Multiset.add_cons]
    · intro j hj
      cases j with
      | zero =>
        have := hrest (sub_paths i) fun k hk h => by
          cases h
          omega
        simpa using this
      | succ j =>
        have := hvar j (by simpa using hj)
        rwa [Nat.add_right_comm, Nat.add_assoc] at this
    · intro x hx
      rw [hrest x fun k hk => hx k (by omega), Function.update_of_ne (hx i le_rfl)]

variable (hvar : ∀ j (hj : j < ps.length), var (sub_paths j) = ps[j])
include hvar

theorem unlock_range_exec (hi : i ≤ ps.length) :
    execAll (reading (ps.drop i + m) var)
      ((List.range' i (ps.length - i)).map fun v => UNLOCK (sub_paths v)) =
      some (reading m var) := by
  induction hn : ps.length - i generalizing i with
  | zero =>
    rw [List.drop_eq_nil_of_le (by omega)]
    simp [execAll]
  | succ n ih =>
    have hlt : i < ps.length := by omega
    have hmem : var (sub_paths i) ∈ ((ps.drop i : List Path) : Multiset Path) + m := by
      refine Multiset.mem_add.mpr (Or.inl ?_)
      rw [hvar i hlt, List.drop_eq_getElem_cons hlt]
      exact Multiset.mem_coe.mpr List.mem_cons_self
    rw [List.range'_succ, List.map_cons, execAll_cons (exec_unlock hmem), hvar i hlt,
      List.drop_eq_getElem_cons hlt, ← Multiset.cons_coe, Multiset.cons_add,
      Multiset.erase_cons_head]
    exact ih hlt (by omega)

/-- The search gives back the locks on the prefixes from the one before it on. -/
theorem search_exec (levels : Nat) (h0 : 0 < i) (hi : i < ps.length) :
    execAll (reading (ps.drop (i - 1) : List Path) var)
      (Request.search_in_directory ps.length levels i) = some (reading 0 var) := by
  have hprev : i - 1 < ps.length := by omega
  have hsucc : i - 1 + 1 = i := by omega
  have hdrop : ps.drop (i - 1) = ps[i - 1] :: ps.drop i := by
    rw [List.drop_eq_getElem_cons hprev, hsucc]
  induction levels generalizing i with
  | zero =>
    have hrange := unlock_range_exec (m := {ps[i - 1]}) hvar hi.le
    have hlast : exec (reading {ps[i - 1]} var) (UNLOCK (sub_paths (i - 1))) =
        some (reading 0 var) := by
      rw [exec_unlock (by rw [hvar _ hprev]; simp), hvar _ hprev]
      simp
    rw [Request.search_in_directory, List.cons_append, execAll_cons rfl, hdrop,
      ← Multiset.cons_coe, ← Multiset.singleton_add, add_comm, execAll_append hrange,
      execAll_cons hlast]
    rfl
  | succ levels ih =>
    have hunlock : exec (reading (ps.drop (i - 1) : List Path) var)
        (UNLOCK (sub_paths (i - 1))) = some (reading (ps.drop i : List Path) var) := by
      rw [exec_unlock (by rw [hvar _ hprev, hdrop]; simp), hvar _ hprev, hdrop,
        ← Multiset.cons_coe, Multiset.erase_cons_head]
    unfold Request.search_in_directory
    split_ifs with hlast
    · have hone : ps.drop i = [ps[i]] := by
        rw [List.drop_eq_getElem_cons hi, List.drop_eq_nil_of_le (by omega)]
      have hunlock' : exec (reading (ps.drop i : List Path) var) (UNLOCK (sub_paths i)) =
          some (reading 0 var) := by
        rw [exec_unlock (by rw [hvar _ hi, hone]; simp), hvar _ hi, hone]
        simp
      rw [execAll_cons rfl, execAll_cons hunlock, execAll_cons hunlock']
      rfl
    · rw [execAll_cons rfl, execAll_cons hunlock]
      exact ih (i := i + 1) (by omega) (by omega) (by omega) (by omega) (by simp)

end Search

section Prefixes

variable {p q : Path} {ps : List Path}

/-- The separators after the first one start at 2 unless the path starts with two. -/
theorem one_lt_of_separator {e : Nat} {es : List Nat} (hp : double_slash p = false)
    (hs : separators p = 0 :: e :: es) : 1 < e := by
  have hsorted : (separators p).Pairwise (· < ·) :=
    List.Pairwise.filter _ List.pairwise_lt_range
  rw [hs, List.pairwise_cons] at hsorted
  have hpos : 0 < e := hsorted.1 e (by simp)
  have hmem : ∀ k ∈ separators p, p[k]? = some separator := by
    intro k hk
    exact of_decide_eq_true (List.mem_filter.mp hk).2
  have h0 := hmem 0 (by simp [hs])
  have he := hmem e (by simp [hs])
  by_contra hle
  obtain rfl : e = 1 := by omega
  match p, h0, he, hp with
  | a :: b :: l, h0, he, hp =>
    simp only [List.getElem?_cons_zero, List.getElem?_cons_succ, Option.some.injEq] at h0 he
    simp [double_slash, h0, he] at hp

theorem separators_lt {e : Nat} (he : e ∈ separators p) : e < p.length :=
  List.mem_range.mp (List.mem_filter.mp he).1

/-- Every element that `split_path` returns is a prefix of the path. -/
theorem split_path_prefix (h : split_path p = some ps) (hq : q ∈ ps) : q <+: p := by
  have htake : ∀ k, p.take k <+: p := fun k => List.take_prefix k p
  have hroot : ∀ {rest}, separators p = 0 :: rest → [separator] <+: p := by
    intro rest hs
    have h0 : 0 ∈ separators p := by simp [hs]
    have hget : p[0]? = some separator := of_decide_eq_true (List.mem_filter.mp h0).2
    match p, hget with
    | a :: l, hget =>
      obtain rfl : a = separator := by simpa using hget
      exact ⟨l, rfl⟩
  unfold split_path at h
  split at h
  · rename_i rest hs
    split_ifs at h with hone
    · obtain rfl := Option.some.inj h
      obtain rfl := List.mem_singleton.mp hq
      exact hroot hs
    · split at h
      · obtain rfl := Option.some.inj h
        rcases List.mem_cons.mp hq with rfl | hq
        · exact hroot hs
        · obtain rfl := List.mem_singleton.mp hq
          exact List.prefix_refl _
      · rename_i e es
        have htree : ∀ q ∈ [separator] :: p.take e :: es.map fun f => p.take (f + 1), q <+: p := by
          intro q hq
          simp only [List.mem_cons, List.mem_map] at hq
          rcases hq with rfl | rfl | ⟨f, -, rfl⟩
          · exact hroot hs
          · exact htake e
          · exact htake (f + 1)
        simp only at h
        split_ifs at h
        · obtain rfl := Option.some.inj h
          exact htree q hq
        · obtain rfl := Option.some.inj h
          rcases List.mem_append.mp hq with hq | hq
          · exact htree q hq
          · obtain rfl := List.mem_singleton.mp hq
            exact List.prefix_refl _
  · cases h

/-- A list of prefixes that get longer stays one when the path itself is put after a last
one that is not it. -/
theorem lengths_append (h : (ps.map List.length).Pairwise (· < ·)) (hps : ∀ q ∈ ps, q <+: p)
    (hlast : ps.getLast? ≠ some p) : ((ps ++ [p]).map List.length).Pairwise (· < ·) := by
  rw [List.map_append, List.pairwise_append]
  refine ⟨h, by simp, ?_⟩
  intro k hk l hl
  obtain ⟨q, hq, rfl⟩ := List.mem_map.mp hk
  obtain rfl : l = p.length := by simpa using hl
  obtain ⟨init, y, rfl⟩ : ∃ init y, ps = init ++ [y] :=
    ⟨_, _, (List.dropLast_append_getLast (List.ne_nil_of_mem hq)).symm⟩
  have hy : y <+: p := hps y (by simp)
  have hne : y ≠ p := by
    rintro rfl
    simp at hlast
  have hylt : y.length < p.length := by
    rcases Nat.lt_or_ge y.length p.length with hlt | hge
    · exact hlt
    · exact absurd (hy.eq_of_length (Nat.le_antisymm hy.length_le hge)) hne
  rw [List.map_append, List.pairwise_append] at h
  rcases List.mem_append.mp hq with hq | hq
  · have := h.2.2 q.length (List.mem_map_of_mem hq) y.length (by simp)
    omega
  · obtain rfl := List.mem_singleton.mp hq
    exact hylt

/-- The prefixes get longer and longer. -/
theorem split_path_lengths (hp : double_slash p = false) (h : split_path p = some ps) :
    (ps.map List.length).Pairwise (· < ·) := by
  have hsorted : (separators p).Pairwise (· < ·) :=
    List.Pairwise.filter _ List.pairwise_lt_range
  have htakes := fun q => split_path_prefix (q := q) h
  unfold split_path at h
  split at h
  · rename_i rest hs
    split_ifs at h with hone
    · obtain rfl := Option.some.inj h
      simp
    · have hlong : 1 < p.length := by
        have := separators_lt (p := p) (e := 0) (by simp [hs])
        omega
      split at h
      · obtain rfl := Option.some.inj h
        simpa using hlong
      · rename_i e es
        have hlt : ∀ f ∈ e :: es, f < p.length := fun f hf => separators_lt (by rw [hs]; simp [hf])
        have hone_lt := one_lt_of_separator hp hs
        rw [hs, List.pairwise_cons, List.pairwise_cons] at hsorted
        have htree : (([separator] :: p.take e :: es.map fun q => p.take (q + 1)).map
            List.length).Pairwise (· < ·) := by
          have he : (p.take e).length = e := by
            rw [List.length_take]
            have := hlt e (by simp)
            omega
          have hes : (es.map fun q => p.take (q + 1)).map List.length = es.map (· + 1) := by
            rw [List.map_map]
            apply List.map_congr_left
            intro f hf
            have := hlt f (by simp [hf])
            rw [Function.comp, List.length_take]
            omega
          simp only [List.map_cons, List.length_singleton, he, hes, List.pairwise_cons,
            List.mem_cons, List.mem_map]
          refine ⟨?_, ?_, ?_⟩
          · rintro f (rfl | ⟨g, hg, rfl⟩)
            · exact hone_lt
            · have := hsorted.2.1 g hg
              omega
          · rintro f ⟨g, hg, rfl⟩
            have := hsorted.2.1 g hg
            omega
          · rw [List.pairwise_map]
            exact hsorted.2.2.imp fun h => by omega
        simp only at h
        split_ifs at h with hlast
        · obtain rfl := Option.some.inj h
          exact htree
        · obtain rfl := Option.some.inj h
          exact lengths_append htree (fun q hq => htakes q (List.mem_append_left _ hq)) hlast
  · cases h

theorem split_path_nodup (hp : double_slash p = false) (h : split_path p = some ps) :
    ps.Nodup := by
  have hlengths := split_path_lengths hp h
  rw [List.pairwise_map] at hlengths
  refine hlengths.imp ?_
  rintro q r hlt rfl
  exact Nat.lt_irrefl _ hlt

end Prefixes

theorem double_slash_prefix {p q : Path} (h : q <+: p) (hp : double_slash p = false) :
    double_slash q = false := by
  obtain ⟨r, rfl⟩ := h
  match q with
  | [] => rfl
  | [_] => rfl
  | a :: b :: q => exact hp

/-- The parent's path is another one, no worse than the path. -/
theorem parent_path_spec {p q : Path} (h : Request.parent_path p = some q) :
    q ≠ p ∧ (double_slash p = false → double_slash q = false) := by
  unfold Request.parent_path at h
  split at h
  · cases h
  · rename_i ps hs
    split at h
    · cases h
    · rename_i k hk
      have hmem := List.mem_of_getElem? h
      refine ⟨?_, double_slash_prefix <| split_path_prefix hs hmem⟩
      rintro rfl
      obtain ⟨hlt, he⟩ := List.getElem?_eq_some_iff.mp h
      have hnot := @List.not_of_lt_findIdx _ (fun x => q.isPrefixOf x) ps k (by omega)
      simp only [he] at hnot
      exact absurd (List.isPrefixOf_iff_prefix.mpr (List.prefix_refl q)) (by simp [hnot])

section Operations

variable {is js : List Instr} {var : Var → Path} {p : Path} {levels : Nat} {s : Held}

theorem execAll_kept (h : ∀ i ∈ is, exec s i = some s) : execAll s is = some s := by
  induction is with
  | nil => rfl
  | cons i is ih =>
    rw [execAll_cons (h i (by simp))]
    exact ih fun j hj => h j (by simp [hj])

theorem finish_exec (x : Var) :
    exec (reading 0 var) (active_file_finished_using x) = some (reading 0 var) :=
  exec_finish (by simp)

/-- Resolving a path takes read locks one after the other and gives all of them back. -/
theorem inode_of_file_exec (levels : Nat) (var : Var → Path) (hp : double_slash p = false) :
    ∃ var', execAll (reading 0 var) (Request.inode_of_file levels p) = some (reading 0 var') ∧
      ∀ x, (∀ j, x ≠ sub_paths j) → var' x = var x := by
  unfold Request.inode_of_file
  cases hs : split_path p with
  | none => exact ⟨var, rfl, fun _ _ => rfl⟩
  | some ps =>
    obtain ⟨var', hexec, hvar, hrest⟩ := lock_prefixes_exec (i := 0) (m := 0) var
      (split_path_nodup hp hs) (by simp)
    have hlen := List.length_pos_of_ne_nil (split_path_ne_nil hs)
    rw [add_zero] at hexec
    simp only [Nat.zero_add] at hvar
    refine ⟨var', ?_, fun x hx => hrest x fun j _ => hx j⟩
    rw [execAll_append hexec]
    split_ifs with hone
    · obtain ⟨q, rfl⟩ := List.length_eq_one_iff.mp hone
      have hunlock : exec (reading ([q] : List Path) var') (UNLOCK (sub_paths 0)) =
          some (reading 0 var') := by
        have hq : var' (sub_paths 0) = q := hvar 0 (by simp)
        rw [exec_unlock (by rw [hq]; simp), hq]
        simp
      rw [execAll_cons hunlock, execAll_cons (finish_exec _)]
      rfl
    · have hsearch := search_exec (i := 1) hvar levels Nat.one_pos (by omega)
      rw [Nat.sub_self, List.drop_zero] at hsearch
      rw [execAll_append hsearch]
      apply execAll_kept
      intro i hi
      obtain ⟨v, -, rfl⟩ := List.mem_map.mp hi
      exact finish_exec _

theorem split_path_double (hp : double_slash p = true) :
    ∃ ps, split_path p = some ([separator] :: [separator] :: ps) := by
  obtain ⟨l, rfl⟩ : ∃ l, p = separator :: separator :: l := by
    match p, hp with
    | a :: b :: l, hp =>
      obtain ⟨rfl, rfl⟩ : a = separator ∧ b = separator := by simpa [double_slash] using hp
      exact ⟨l, rfl⟩
  have hfirst : ∀ q, separators (separator :: q) = 0 :: (separators q).map (1 + ·) := by
    intro q
    exact separators_append [separator] q
  have hlen : (separator :: separator :: l).length ≠ 1 := by simp
  unfold split_path
  rw [hfirst, hfirst, List.map_cons]
  simp only [if_neg hlen]
  split
  · exact ⟨_, rfl⟩
  · exact ⟨_, rfl⟩

/-- Of the two roots that such a path starts with, the second is found while the first is
locked. -/
theorem inode_of_file_exec_double (hp : double_slash p = true) :
    execAll s (Request.inode_of_file levels p ++ is) = none := by
  obtain ⟨ps, hs⟩ := split_path_double hp
  have hsecond : ∀ t : Held, t.var (sub_paths 0) = [separator] → ∀ js,
      execAll t (RDLOCK (sub_paths 0) :: active_file_list_find (sub_paths 1) [separator] :: js) =
        none := by
    intro t ht js
    rw [execAll_cons rfl, execAll]
    have hlocked : exec { t with readers := t.var (sub_paths 0) ::ₘ t.readers }
        (active_file_list_find (sub_paths 1) [separator]) = none := by
      apply if_pos
      rw [ht]
      exact Or.inl (Multiset.mem_cons_self _ _)
    rw [hlocked]
  simp only [Request.inode_of_file, hs, Request.lock_prefixes, List.cons_append, List.append_assoc]
  cases hfind : exec s (active_file_list_find (sub_paths 0) [separator]) with
  | none => rw [execAll, hfind]
  | some t =>
    rw [execAll_cons hfind]
    refine hsecond t ?_ _
    simp only [exec] at hfind
    split_ifs at hfind
    obtain rfl := Option.some.inj hfind
    simp

theorem with_parent_exec {used : Bool} (hp : double_slash p = false)
    (h : Request.with_parent p levels used is = some js) (hfile : var file = p)
    (hlocked : ∀ v, v file ≠ v parent_dir →
      execAll (reading 0 v) is = some (reading 0 v)) :
    ∃ var', execAll (reading 0 var) js = some (reading 0 var') := by
  unfold Request.with_parent at h
  split at h
  · cases h
  · rename_i q hq
    obtain ⟨hne, hdouble⟩ := parent_path_spec hq
    split_ifs at h
    obtain rfl := Option.some.inj h
    obtain ⟨var', hexec, hrest⟩ := inode_of_file_exec levels
      (Function.update var parent_dir q) (hdouble hp)
    have hf : var' file = p := by
      rw [hrest file (by simp), Function.update_of_ne (by simp), hfile]
    have hpar : var' parent_dir = q := by rw [hrest parent_dir (by simp), Function.update_self]
    refine ⟨var', ?_⟩
    rw [List.append_assoc, List.cons_append, List.cons_append,
      execAll_cons (exec_find (by simp)), execAll_cons rfl, execAll_append hexec,
      execAll_append (hlocked var' (by rw [hf, hpar]; exact hne.symm)),
      execAll_cons (finish_exec _), execAll_cons (finish_exec _)]
    rfl

variable {r : Request}

/-- The rest of an operation, from no locks, when the request leaves by a clean exit. -/
theorem body_exec (hp : double_slash r.target.1 = false) (hr : clean r) (h : r.body = some is)
    (hfile : var file = r.target.1) :
    ∃ var', execAll (reading 0 var) is = some (reading 0 var') := by
  have hread : execAll (reading 0 var) [RDLOCK file, UNLOCK file, active_file_finished_using file] =
      some (reading 0 var) := by
    simp [execAll, exec, reading, Held.locked]
  have hwrite : execAll (reading 0 var) [WRLOCK file, UNLOCK file, active_file_finished_using file] =
      some (reading 0 var) := by
    simp [execAll, exec, reading, Held.locked]
  have hfinish : execAll (reading 0 var) [active_file_finished_using file] =
      some (reading 0 var) := by
    simp [execAll, exec, reading, Held.locked]
  cases r with
  | list_directory | getattr =>
    cases h
    exact ⟨var, hread⟩
  | open_file =>
    cases h
    exact ⟨var, hfinish⟩
  | read_file =>
    obtain rfl := Option.some.inj h
    split_ifs
    · exact ⟨var, hread⟩
    · exact ⟨var, hfinish⟩
  | truncate_file path levels regular not_attached =>
    obtain rfl := Option.some.inj h
    split_ifs with hregular hmissing
    · exact absurd (hr hregular) (by omega)
    · exact ⟨var, hwrite⟩
    · exact ⟨var, hfinish⟩
  | write_file path levels regular exit =>
    obtain rfl := Option.some.inj h
    by_cases hfound : Request.found levels path
    · obtain ⟨rfl, rfl⟩ := hr hfound
      rw [if_pos hfound]
      exact ⟨var, hwrite⟩
    · rw [if_neg hfound]
      exact ⟨var, hfinish⟩
  | create_file_dir path levels parent_levels inode attached isFile space =>
    simp only [Request.body] at h
    split_ifs at h
    · cases h
      exact ⟨var, hfinish⟩
    all_goals
      refine with_parent_exec hp h hfile fun v hv => ?_
      simp [execAll, exec, reading, Held.locked, hv]
  | delete_file path levels parent_levels =>
    simp only [Request.body] at h
    split_ifs at h
    · refine with_parent_exec hp h hfile fun v hv => ?_
      simp [execAll, exec, reading, Held.locked, hv]
    · cases h
      exact ⟨var, hfinish⟩
  | delete_dir path levels parent_levels several_blocks addresses =>
    simp only [Request.body] at h
    split_ifs at h
    · refine with_parent_exec hp h hfile fun v hv => ?_
      simp [execAll, exec, reading, Held.locked, hv]
    · refine with_parent_exec hp h hfile fun v hv => ?_
      simp [execAll, exec, reading, Held.locked, hv]
    · cases h
      exact ⟨var, hfinish⟩

/-- A request that does not leave by a clean exit slips. -/
theorem clean_of_exec (h : r.body = some is) {t : Held}
    (hexec : execAll (reading 0 var) is = some t) : clean r := by
  cases r with
  | truncate_file path levels regular not_attached =>
    obtain rfl := Option.some.inj h
    intro hregular
    by_contra hmissing
    rw [if_pos hregular, if_pos (by omega)] at hexec
    simp [execAll, exec, reading, Held.locked] at hexec
  | write_file path levels regular exit =>
    obtain rfl := Option.some.inj h
    intro hfound
    rw [if_pos hfound] at hexec
    cases regular with
    | false => simp [execAll, exec, reading] at hexec
    | true =>
      cases exit with
      | done => exact ⟨rfl, rfl⟩
      | _ => simp [execAll, exec, reading, Held.locked] at hexec
  | _ => trivial

/-- An operation gives back exactly the locks it takes if and only if its path does not
start with two separators, a write meets a regular file and writes to the end, and a
truncation finds all the blocks it needs. -/
theorem lock_balance_iff (r : Request) (is : List Instr) (h : r.run = some is) :
    Balanced is ↔ double_slash r.target.1 = false ∧ clean r := by
  obtain ⟨js, hbody, rfl⟩ := Option.map_eq_some_iff.mp h
  constructor
  · intro hbal
    cases hp : double_slash r.target.1 with
    | true =>
      obtain ⟨var', hexec⟩ := hbal fun _ => []
      rw [List.cons_append, execAll_cons (exec_find (by simp)), inode_of_file_exec_double hp]
        at hexec
      cases hexec
    | false =>
      refine ⟨rfl, ?_⟩
      obtain ⟨var', hexec⟩ := hbal fun _ => []
      obtain ⟨var'', hinode, -⟩ := inode_of_file_exec r.target.2
        (Function.update (fun _ => []) file r.target.1) hp
      rw [List.cons_append, execAll_cons (exec_find (by simp)), execAll_append hinode] at hexec
      exact clean_of_exec hbody hexec
  · rintro ⟨hp, hr⟩ var
    obtain ⟨var', hinode, hvar⟩ := inode_of_file_exec r.target.2
      (Function.update var file r.target.1) hp
    have hfile : var' file = r.target.1 := by
      rw [hvar file (by simp), Function.update_self]
    obtain ⟨var'', hexec⟩ := body_exec hp hr hbody hfile
    refine ⟨var'', ?_⟩
    rw [List.cons_append, execAll_cons (exec_find (by simp)), execAll_append hinode]
    exact hexec

theorem lock_balance_getattr : ∃ is, (Request.getattr [47, 97] 1).run = some is ∧
    (Balanced is ↔ double_slash [47, 97] = false ∧ clean (.getattr [47, 97] 1)) :=
  ⟨_, rfl, lock_balance_iff (.getattr [47, 97] 1) _ rfl⟩

/-- A truncation that runs out of blocks unlocks the file twice. -/
theorem truncate_file_unbalanced :
    ∃ is, (Request.truncate_file [47, 97] 1 true 1).run = some is ∧ ¬ Balanced is := by
  refine ⟨_, (Option.some_get (by decide)).symm, fun h => ?_⟩
  obtain ⟨var', hexec⟩ := h fun _ => []
  have hnone : (execAll (reading 0 fun _ => [])
      ((Request.truncate_file [47, 97] 1 true 1).run.get (by decide))).isNone := by decide
  rw [hexec] at hnone
  cases hnone

end Operations

end LaLiga.Rfs.LockBalance
