import LaLiga.Rc.Diccionario
import Mathlib.Data.List.Chain

/-! The buddy system. -/
namespace LaLiga.Rc

open LaLiga.Lib t_diccionario

/-- One turn of the loop of `esElPrimerHermano`: `cantidad` and `subtamanio`. -/
def contar (self : t_diccionario) (item : Ptr) (r : Nat × Nat) (aux_item : Ptr) : Nat × Nat :=
  if (self.node aux_item).chunk_size < (self.node item).chunk_size then
    let subtamanio := r.2 + (self.node aux_item).chunk_size % (self.node item).chunk_size
    if subtamanio = (self.node item).chunk_size then (r.1 + 1, 0) else (r.1, subtamanio)
  else (r.1 + (self.node aux_item).chunk_size / (self.node item).chunk_size, r.2)

def esElPrimerHermano (self : t_diccionario) (item : Ptr) : Except Falla Bool :=
  match self.recorrer (contar self item) (some item) self.turns self.elements (0, 0) with
  | .error e => .error e
  | .ok r => .ok (r.1 % 2 == 0)

/-- `hno`, and `data`, which only changes when `hno` is the previous element. -/
def elegir_hermano (self : t_diccionario) (it : Ptr) (data : Option Nat) :
    Except Falla (Option Ptr × Option Nat) :=
  match esElPrimerHermano self it with
  | .error e => .error e
  | .ok true => .ok ((self.node it).next, data)
  | .ok false =>
    match (self.node it).prev with
    | none => .error .puntero_nulo
    | some hno => .ok (some hno, (self.node hno).data)

def agregarHijosDePadre (self : t_diccionario) (padre : Ptr) : Except Falla t_diccionario :=
  match self.nodes with
  | none => .error .puntero_nulo
  | some hno =>
    if self.allocated hno = false then .error .fuera_de_nodos
    else
      let p := self.node padre
      let self := { self.modificar? (self.node hno).next (fun e => { e with prev := none }) with
        nodes := (self.node hno).next }
      let self := self.modificar? p.next (fun e => { e with prev := some hno })
      let self := self.modificar hno (fun e => { e with
        next := p.next, prev := some padre, chunk_size := p.chunk_size / 2
        data := p.data.map (· + p.chunk_size / 2) })
      .ok (self.modificar padre (fun e => { e with
        next := some hno, chunk_size := p.chunk_size / 2 }))

/-- One turn of the merging loop: `hno` leaves the element list and `it` grows over it. -/
def unir (self : t_diccionario) (it hno : Ptr) (data : Option Nat) : t_diccionario :=
  let h := self.node hno
  let self := self.modificar hno (fun e => { e with chunk_size := 0, data := none })
  let self := { self.modificar? h.prev (fun e => { e with next := h.next }) with
    elements := if h.prev = none then h.next else self.elements }
  let self := self.modificar? h.next (fun e => { e with prev := h.prev })
  (self.devolver hno).modificar it (fun e => { e with
    data := data, chunk_size := e.chunk_size * 2 })

def unir_hermanos (it : Ptr) (s : t_diccionario × Option Ptr × Option Nat) :
    Except Falla ((t_diccionario × Option Ptr × Option Nat) ⊕ t_diccionario) :=
  let (self, hno, data) := s
  match hno with
  | none => .ok (.inr self)
  | some hno =>
    if !enUso (self.node hno) && (self.node hno).chunk_size == (self.node it).chunk_size then
      let self := unir self it hno data
      match elegir_hermano self it data with
      | .error e => .error e
      | .ok r => .ok (.inl (self, r))
    else .ok (.inr self)

/-- It returns `it`. -/
def diccionario_eliminar_buddy (self : t_diccionario) (it : Ptr) : Except Falla t_diccionario :=
  match elegir_hermano self it (self.node it).data with
  | .error e => .error e
  | .ok r => loop .no_termina (unir_hermanos it) self.turns (self.limpiar it, r)

/-- `while (item->chunk_size / 2 >= aux_data_size && self->nodes != NULL)` -/
def dividir (aux : Nat) (item : Ptr) (self : t_diccionario) :
    Except Falla (t_diccionario ⊕ t_diccionario) :=
  if aux ≤ (self.node item).chunk_size / 2 ∧ self.nodes ≠ none then
    match agregarHijosDePadre self item with
    | .error e => .error e
    | .ok self => .ok (.inl self)
  else .ok (.inr self)

def buscar_lugar_buddy (data_size : Nat) (self : t_diccionario) :
    Except Falla (t_diccionario ⊕ (t_diccionario × Option Ptr)) :=
  let aux := aux_data_size data_size self.slab_min_size
  if aux ≤ self.table_max_size then
    match primer_ajuste self aux with
    | .error e => .error e
    | .ok none =>
      match diccionario_elegirVictima self with
      | .error e => .error e
      | .ok victima =>
        match diccionario_eliminar_buddy self victima with
        | .error e => .error e
        | .ok self => .ok (.inl self)
    | .ok (some item) =>
      match if self.bestfit then mejor_ajuste self aux item else .ok item with
      | .error e => .error e
      | .ok item =>
        match loop .no_termina (dividir aux item) self.turns self with
        | .error e => .error e
        | .ok self => .ok (.inr (reservar self item data_size, some item))
  else .ok (.inr (self, none))

def diccionario_obtenerDireccion_buddy (self : t_diccionario) (data_size : Nat) :
    Except Falla (t_diccionario × Option Ptr) :=
  loop .no_termina (buscar_lugar_buddy data_size) self.turns self

/-- `p` and `q` could be merged: they are free, of one size, and `p` is a first sibling. -/
def Hermanos (self : t_diccionario) (p q : Ptr) : Prop :=
  enUso (self.node p) = false ∧ enUso (self.node q) = false ∧
    (self.node p).chunk_size = (self.node q).chunk_size ∧
    ∀ o, (self.node p).data = some o → 2 * (self.node p).chunk_size ∣ o

/-- The chunks of the element list `l`: blocks of the buddy system, all merged but for
those of `it`, if any. -/
structure Bloques (d : t_diccionario) (l : List Ptr) (it : Option Ptr) : Prop where
  tiles : Tiles (fun p => (d.node p).data) (fun p => (d.node p).chunk_size) 0 l d.table_max_size
  power : ∀ p ∈ l, ∃ k, (d.node p).chunk_size = 2 ^ k
  slab : ∀ p ∈ l, d.slab_min_size ≤ (d.node p).chunk_size
  aligned : ∀ p ∈ l, ∀ o, (d.node p).data = some o → (d.node p).chunk_size ∣ o
  merged : l.IsChain (fun p q => some p ≠ it → some q ≠ it → ¬ Hermanos d p q)

/-- An element list whose chunks tile the memory, powers of two aligned to their size. -/
structure Alineados (d : t_diccionario) (l : List Ptr) : Prop where
  next : Seg (fun p => (d.node p).next) l none
  head : d.elements = l.head?
  tiles : Tiles (fun p => (d.node p).data) (fun p => (d.node p).chunk_size) 0 l d.table_max_size
  power : ∀ p ∈ l, ∃ k, (d.node p).chunk_size = 2 ^ k
  aligned : ∀ p ∈ l, ∀ o, (d.node p).data = some o → (d.node p).chunk_size ∣ o

section Sizes

theorem dvd_of_le_pow {i j : Nat} (h : 2 ^ i ≤ 2 ^ j) : (2 ^ i : Nat) ∣ 2 ^ j :=
  pow_dvd_pow 2 ((Nat.pow_le_pow_iff_right (by decide)).mp h)

/-- An aligned block either starts a pair or ends one. -/
theorem dvd_sub_of_odd {s o : Nat} (hs : s ∣ o) (h : ¬ 2 * s ∣ o) :
    s ≤ o ∧ 2 * s ∣ o - s := by
  obtain ⟨k, rfl⟩ := hs
  obtain ⟨j, rfl⟩ : ∃ j, k = 2 * j + 1 := by
    rcases Nat.even_or_odd' k with ⟨j, rfl | rfl⟩
    · exact absurd ⟨j, by ring⟩ h
    · exact ⟨j, rfl⟩
  refine ⟨Nat.le_mul_of_pos_right _ (by omega), j, ?_⟩
  rw [Nat.mul_add, Nat.mul_one, Nat.add_sub_cancel]
  ring

end Sizes

section Contar

variable {self : t_diccionario} {l u v : List Ptr} {it : Ptr} {o m s t : Nat}

/-- Adding a block of size `t` at `o` to the blocks of size `s` counted so far. -/
theorem add_block (hs : 0 < s) (hst : t ∣ s ∨ s ∣ t) (ht : t ∣ o) :
    (if t < s then if o % s + t % s = s then (o / s + 1, 0) else (o / s, o % s + t % s)
      else (o / s + t / s, o % s)) = ((o + t) / s, (o + t) % s) := by
  have hdiv := Nat.div_add_mod o s
  by_cases hlt : t < s
  · -- a smaller block fills the rest up at most
    have hfit : o % s + t ≤ s := by
      rcases hst with ⟨k, rfl⟩ | hdvd
      · obtain ⟨j, rfl⟩ := ht
        rw [Nat.mul_mod_mul_left, ← Nat.mul_succ]
        exact Nat.mul_le_mul_left t (Nat.mod_lt _ (Nat.pos_of_mul_pos_left hs))
      · have := Nat.eq_zero_of_dvd_of_lt hdvd hlt
        have := Nat.mod_lt o hs
        omega
    rw [if_pos hlt, Nat.mod_eq_of_lt hlt]
    by_cases hfull : o % s + t = s
    · have heq : o + t = s * (o / s + 1) := by
        rw [Nat.mul_add, Nat.mul_one]
        omega
      rw [if_pos hfull, heq, Nat.mul_div_cancel_left _ hs, Nat.mul_mod_right]
    · have heq : o + t = o % s + t + s * (o / s) := by omega
      have hlt' : o % s + t < s := by omega
      have hquot : (o + t) / s = o / s := by
        rw [heq, Nat.add_mul_div_left _ _ hs, Nat.div_eq_of_lt hlt', Nat.zero_add]
      have hrest : (o + t) % s = o % s + t := by
        rw [heq, Nat.add_mul_mod_self_left, Nat.mod_eq_of_lt hlt']
      rw [if_neg hfull, hquot, hrest]
  · -- a block that is not smaller starts at a multiple of `s`
    have hdvd : s ∣ t := by
      rcases hst with h | h
      · have := Nat.le_of_dvd hs h
        obtain rfl : t = s := by omega
        exact dvd_rfl
      · exact h
    have ho := dvd_trans hdvd ht
    rw [if_neg hlt, Nat.add_div_of_dvd_right ho, Nat.mod_eq_zero_of_dvd ho,
      Nat.mod_eq_zero_of_dvd (dvd_add ho hdvd)]

/-- After the blocks up to `m`, `cantidad` counts the blocks of the size of `it` and
`subtamanio` is what is left over. -/
theorem contar_eq (hs : (self.node it).chunk_size = s) (hpos : 0 < s)
    (ht : Tiles (fun p => (self.node p).data) (fun p => (self.node p).chunk_size) o u m)
    (hpow : ∀ p ∈ u, (self.node p).chunk_size ∣ s ∨ s ∣ (self.node p).chunk_size)
    (hal : ∀ p ∈ u, ∀ o, (self.node p).data = some o → (self.node p).chunk_size ∣ o) :
    u.foldl (contar self it) (o / s, o % s) = (m / s, m % s) := by
  induction u generalizing o with
  | nil =>
    obtain rfl : o = m := ht
    rfl
  | cons p u ih =>
    obtain ⟨hp, ht⟩ := ht
    have hstep := add_block hpos (hpow p (by simp)) (hal p (by simp) o hp)
    rw [List.foldl_cons, contar, hs, hstep]
    exact ih ht (fun q hq => hpow q (by simp [hq])) (fun q hq => hal q (by simp [hq]))

theorem Alineados.pos (h : Alineados self l) (hp : it ∈ l) : 0 < (self.node it).chunk_size := by
  obtain ⟨k, hk⟩ := h.power it hp
  rw [hk]
  exact Nat.two_pow_pos k

theorem Alineados.comparable {p q : Ptr} (h : Alineados self l) (hp : p ∈ l) (hq : q ∈ l) :
    (self.node p).chunk_size ∣ (self.node q).chunk_size ∨
      (self.node q).chunk_size ∣ (self.node p).chunk_size := by
  obtain ⟨j, hj⟩ := h.power p hp
  obtain ⟨k, hk⟩ := h.power q hq
  rw [hj, hk]
  rcases Nat.le_total j k with hjk | hkj
  · exact Or.inl (pow_dvd_pow 2 hjk)
  · exact Or.inr (pow_dvd_pow 2 hkj)

theorem Bloques.pos {i : Option Ptr} (h : Bloques self l i) (hp : it ∈ l) :
    0 < (self.node it).chunk_size := by
  obtain ⟨k, hk⟩ := h.power it hp
  rw [hk]
  exact Nat.two_pow_pos k

/-- The side test counts the chunks of the size of the element that fit before it. -/
theorem Alineados.contados (h : Alineados self (u ++ it :: v)) :
    ∃ o, (self.node it).data = some o ∧
      esElPrimerHermano self it = .ok (o / (self.node it).chunk_size % 2 == 0) := by
  obtain ⟨m, hu, hit, -⟩ := h.tiles.piece
  have hpos : 0 < (self.node it).chunk_size := h.pos (by simp)
  -- the element does not occur before itself, and the chunks before it are counted in time
  have hposu : ∀ p ∈ u, 0 < (self.node p).chunk_size := fun p hp => h.pos (by simp [hp])
  have hnot : it ∉ u := fun hin => absurd (hu.start_lt hposu hin hit) (lt_irrefl m)
  have hlen : u.length < self.turns := by
    have hcount := h.tiles.length_mul_le (k := 1) (fun p hp => h.pos hp)
    simp only [List.length_append, List.length_cons] at hcount
    unfold turns
    omega
  have hcount := contar_eq rfl hpos hu (fun p hp => h.comparable (by simp [hp]) (by simp))
    (fun p hp => h.aligned p (by simp [hp]))
  rw [Nat.zero_div, Nat.zero_mod] at hcount
  refine ⟨m, hit, ?_⟩
  unfold esElPrimerHermano
  rw [recorrer_hasta h.next hnot h.head hlen, hcount]

/-- An element is a first sibling when its offset is an even multiple of its size. -/
theorem esElPrimerHermano_iff (h : Alineados self l) (hit : it ∈ l) :
    ∃ o b, (self.node it).data = some o ∧ esElPrimerHermano self it = .ok b ∧
      (b = true ↔ Even (o / (self.node it).chunk_size)) := by
  obtain ⟨u, v, rfl⟩ := List.append_of_mem hit
  obtain ⟨o, ho, htest⟩ := h.contados
  refine ⟨o, _, ho, htest, ?_⟩
  rw [beq_iff_eq, Nat.even_iff]

/-- A half and two quarters of a memory of four bytes. -/
def tres_trozos : t_diccionario :=
  { (default : t_diccionario) with
    table_max_size := 4
    elements := some .element
    node := fun p =>
      match p with
      | .element => { (default : t_dict_element) with
          data := some 0, chunk_size := 2, next := some (.slot 0) }
      | .slot 0 => { (default : t_dict_element) with
          data := some 2, chunk_size := 1, next := some (.slot 1) }
      | .slot _ => { (default : t_dict_element) with data := some 3, chunk_size := 1, next := none } }

theorem esElPrimerHermano_trozo : ∃ o b, (tres_trozos.node (.slot 1)).data = some o ∧
    esElPrimerHermano tres_trozos (.slot 1) = .ok b ∧
      (b = true ↔ Even (o / (tres_trozos.node (.slot 1)).chunk_size)) := by
  refine esElPrimerHermano_iff (l := [.element, .slot 0, .slot 1]) ⟨?_, rfl, ?_, ?_, ?_⟩ (by simp)
  · exact ⟨rfl, rfl, rfl, trivial⟩
  · exact ⟨rfl, rfl, rfl, rfl⟩
  · simp only [List.mem_cons, List.not_mem_nil, or_false, forall_eq_or_imp, forall_eq]
    exact ⟨⟨1, rfl⟩, ⟨0, rfl⟩, ⟨0, rfl⟩⟩
  · simp only [List.mem_cons, List.not_mem_nil, or_false, forall_eq_or_imp, forall_eq]
    refine ⟨?_, ?_, ?_⟩ <;> rintro o ⟨⟩ <;> decide

theorem Bloques.alineados {ps : List Ptr} {i : Option Ptr} (h : Bloques self l i)
    (hl : Listas self l ps) : Alineados self l :=
  ⟨hl.dlist.next, hl.head, h.tiles, h.power, h.aligned⟩

theorem esElPrimerHermano_eq {ps : List Ptr} {i : Option Ptr}
    (hl : Listas self (u ++ it :: v) ps) (h : Bloques self (u ++ it :: v) i)
    (ho : (self.node it).data = some o) :
    esElPrimerHermano self it = .ok (decide (2 * (self.node it).chunk_size ∣ o)) := by
  have hpos : 0 < (self.node it).chunk_size := h.pos (by simp)
  obtain ⟨m, hm, htest⟩ := (h.alineados hl).contados
  obtain rfl := Option.some.inj (ho.symm.trans hm)
  obtain ⟨k, hk⟩ := h.aligned it (by simp) o ho
  rw [htest, Except.ok.injEq, Bool.eq_iff_iff, beq_iff_eq, decide_eq_true_eq, hk,
    Nat.mul_div_cancel_left _ hpos, Nat.mul_comm 2, Nat.mul_dvd_mul_iff_left hpos,
    Nat.dvd_iff_mod_eq_zero]

end Contar

section Effects

variable {self : t_diccionario} {it hno n q : Ptr} {data : Option Nat}

/-- Splitting `padre` puts the first unused node behind it. -/
structure Dividido (d : t_diccionario) (padre hno : Ptr) (d' : t_diccionario) : Prop where
  next : ∀ q, (d'.node q).next = if q = padre then some hno
    else if q = hno then (d.node padre).next else (d.node q).next
  prev : ∀ q, (d'.node q).prev = if q = hno then some padre
    else if (d.node padre).next = some q then some hno
    else if (d.node hno).next = some q then none else (d.node q).prev
  contenido : ∀ q, (d'.node q).contenido =
    if q = padre then
      { (d.node padre).contenido with chunk_size := (d.node padre).chunk_size / 2 }
    else if q = hno then
      { (d.node hno).contenido with
        chunk_size := (d.node padre).chunk_size / 2
        data := (d.node padre).data.map (· + (d.node padre).chunk_size / 2) }
    else (d.node q).contenido
  nodes : d'.nodes = (d.node hno).next
  elements : d'.elements = d.elements
  max : d'.table_max_size = d.table_max_size
  slab : d'.slab_min_size = d.slab_min_size

theorem agregarHijosDePadre_eq (hn : self.nodes = some hno) (ha : self.allocated hno = true)
    (hne : hno ≠ it) : ∃ d', agregarHijosDePadre self it = .ok d' ∧ Dividido self it hno d' := by
  unfold agregarHijosDePadre
  rw [hn]
  simp only [ha, Bool.true_eq_false, if_false]
  refine ⟨_, rfl, ?_, ?_, ?_, ?_, ?_, ?_, ?_⟩
  · intro q
    by_cases hq : q = it
    · subst hq; simp
    · by_cases hq' : q = hno
      · subst hq'; simp [hq]
      · simp [hq, hq', apply_ite t_dict_element.next]
  · intro q
    by_cases hq : q = hno
    · subst hq
      simp [hne]
    · simp only [node_modificar, node_modificar?, hq, if_false]
      split_ifs <;> rfl
  · intro q
    simp only [node_modificar, node_modificar?, t_dict_element.contenido]
    split_ifs <;> simp_all
  all_goals simp

/-- Merging takes `hno` out of the element list and makes `it` twice as large. -/
structure Unido (d : t_diccionario) (it hno : Ptr) (data : Option Nat) (d' : t_diccionario) :
    Prop where
  next : ∀ q, (d'.node q).next = if q = hno then d.nodes
    else if (d.node hno).prev = some q then (d.node hno).next else (d.node q).next
  prev : ∀ q, d.nodes ≠ some q → (d'.node q).prev = if q = hno then none
    else if (d.node hno).next = some q then (d.node hno).prev else (d.node q).prev
  contenido : ∀ q, (d'.node q).contenido =
    if q = it then { (d.node it).contenido with
      data := data, chunk_size := (d.node it).chunk_size * 2 }
    else if q = hno then { (d.node hno).contenido with chunk_size := 0, data := none }
    else (d.node q).contenido
  nodes : d'.nodes = some hno
  elements : d'.elements = if (d.node hno).prev = none then (d.node hno).next else d.elements
  max : d'.table_max_size = d.table_max_size
  slab : d'.slab_min_size = d.slab_min_size

theorem unir_eq (hne : it ≠ hno) : Unido self it hno data (unir self it hno data) where
  next := by
    intro q
    simp only [unir, devolver, node_modificar, node_modificar?, nodes_modificar,
      nodes_modificar?, apply_ite t_dict_element.next, ite_self]
  prev := by
    intro q hq
    simp only [unir, devolver, node_modificar, node_modificar?, nodes_modificar,
      nodes_modificar?, apply_ite t_dict_element.prev, ite_self, hq, if_false]
  contenido := by
    intro q
    have hne' := Ne.symm hne
    by_cases hq : q = it
    · subst hq
      simp only [unir, devolver, node_modificar, node_modificar?, t_dict_element.contenido,
        if_true, hne, if_false]
      split_ifs <;> rfl
    · by_cases hq' : q = hno
      · subst hq'
        simp only [unir, devolver, node_modificar, node_modificar?, t_dict_element.contenido,
          if_true, hq, if_false]
        split_ifs <;> rfl
      · simp only [unir, devolver, node_modificar, node_modificar?, t_dict_element.contenido,
          hq, hq', if_false]
        split_ifs <;> rfl
  nodes := by simp [unir]
  elements := by simp [unir]
  max := by simp [unir]
  slab := by simp [unir]

end Effects

/-- A well formed dictionary of the buddy system, merged but for `it`. -/
structure Valido (d : t_diccionario) (l ps : List Ptr) (it : Option Ptr) : Prop where
  listas : Listas d l ps
  bloques : Bloques d l it
  libres : ∀ p ∈ ps, Limpio (d.node p)
  limpios : ∀ p ∈ l, enUso (d.node p) = true ∨ Limpio (d.node p)
  slab_pos : 0 < d.slab_min_size

section Steps

variable {d d' : t_diccionario} {l u v ps : List Ptr} {it hno n x y : Ptr} {i : Option Ptr}
  {data : Option Nat} {m s k : Nat}

theorem Hermanos.congr {p q : Ptr} (h : Hermanos d' p q)
    (hp : (d'.node p).contenido = (d.node p).contenido)
    (hq : (d'.node q).contenido = (d.node q).contenido) : Hermanos d p q := by
  obtain ⟨hpd, hps, hpu, -⟩ := contenido_congr hp
  obtain ⟨-, hqs, hqu, -⟩ := contenido_congr hq
  simpa only [Hermanos, hpd, hps, hpu, hqs, hqu] using h

/-- A block `it` put between blocks that did not change. -/
theorem Bloques.around (h : Bloques d l i) (hsub : ∀ p ∈ u ++ v, p ∈ l)
    (hmax : d'.table_max_size = d.table_max_size) (hslab : d'.slab_min_size = d.slab_min_size)
    (hsame : ∀ p ∈ u ++ v, (d'.node p).contenido = (d.node p).contenido)
    (hu : Tiles (fun p => (d.node p).data) (fun p => (d.node p).chunk_size) 0 u m)
    (hv : Tiles (fun p => (d.node p).data) (fun p => (d.node p).chunk_size) (m + s) v
      d.table_max_size)
    (hdata : (d'.node it).data = some m) (hsize : (d'.node it).chunk_size = s)
    (hpow : s = 2 ^ k) (hmin : d.slab_min_size ≤ s) (hal : s ∣ m)
    (hcu : u.IsChain (fun p q => some p ≠ some it → some q ≠ some it → ¬ Hermanos d p q))
    (hcv : v.IsChain (fun p q => some p ≠ some it → some q ≠ some it → ¬ Hermanos d p q)) :
    Bloques d' (u ++ it :: v) (some it) := by
  have hold := fun p hp => contenido_congr (hsame p hp)
  have hcase : ∀ {P : Ptr → Prop}, P it → (∀ p ∈ u ++ v, P p) → ∀ p ∈ u ++ it :: v, P p := by
    intro P hit hothers p hp
    rcases List.mem_append.mp hp with hp | hp
    · exact hothers p (by simp [hp])
    · rcases List.mem_cons.mp hp with rfl | hp
      · exact hit
      · exact hothers p (by simp [hp])
  refine ⟨?_, hcase ⟨k, by rw [hsize, hpow]⟩ ?_, hcase (by rw [hslab, hsize]; exact hmin) ?_,
    hcase ?_ ?_, ?_⟩
  · refine tiles_append.mpr ⟨m, ?_, hdata, ?_⟩
    · exact hu.congr (fun p hp => (hold p (by simp [hp])).1)
        (fun p hp => (hold p (by simp [hp])).2.1)
    · change Tiles _ _ (m + (d'.node it).chunk_size) v _
      rw [hsize, hmax]
      exact hv.congr (fun p hp => (hold p (by simp [hp])).1)
        (fun p hp => (hold p (by simp [hp])).2.1)
  · intro p hp
    rw [(hold p hp).2.1]
    exact h.power p (hsub p hp)
  · intro p hp
    rw [hslab, (hold p hp).2.1]
    exact h.slab p (hsub p hp)
  · intro o ho
    rw [hdata] at ho
    rw [hsize, ← Option.some.inj ho]
    exact hal
  · intro p hp
    rw [(hold p hp).1, (hold p hp).2.1]
    exact h.aligned p (hsub p hp)
  · refine List.isChain_append.mpr ⟨?_, List.isChain_cons.mpr ⟨?_, ?_⟩, ?_⟩
    · refine hcu.imp_of_mem_imp ?_
      intro p q hp hq hpq hp' hq' hh
      exact hpq hp' hq' (hh.congr (hsame p (by simp [hp])) (hsame q (by simp [hq])))
    · intro q _ hne
      exact absurd rfl hne
    · refine hcv.imp_of_mem_imp ?_
      intro p q hp hq hpq hp' hq' hh
      exact hpq hp' hq' (hh.congr (hsame p (by simp [hp])) (hsame q (by simp [hq])))
    · intro p _ q hq _ hne
      simp only [List.head?_cons, Option.mem_def, Option.some.injEq] at hq
      exact absurd (by rw [hq]) hne

theorem Unido.listas (hl : Listas d (u ++ hno :: v) ps) (h : Unido d it hno data d') :
    Listas d' (u ++ v) (hno :: ps) := by
  have hnodup := hl.dlist.nodup
  have hpool := (List.nodup_append'.mp hl.nodup).2.2
  have hprev := hl.dlist.prev_eq
  have hnext := hl.dlist.next_eq
  have htop : ∀ q ∈ u ++ hno :: v, d.nodes ≠ some q := by
    intro q hq hn
    rw [hl.top] at hn
    rcases List.mem_append.mp (List.mem_of_head? hn) with hmem | hmem
    · exact hpool hq hmem
    · rw [List.mem_singleton] at hmem
      exact hl.last_slot_not_mem_left (hmem ▸ List.mem_append_left ps hq)
  have hne : ∀ q ∈ u ++ v, q ≠ hno := by
    rintro q hq rfl
    exact (List.nodup_cons.mp (List.nodup_middle.mp hnodup)).1 hq
  have hin : ∀ q ∈ u ++ v, q ∈ u ++ hno :: v := by
    intro q hq
    rcases List.mem_append.mp hq with hq | hq <;> simp [hq]
  refine hl.quitar (by simp [cant_max, h.max, h.slab]) ?_ ?_ ?_ h.nodes ?_ ?_
  · intro q hq
    rw [h.next, if_neg (hne q hq)]
  · intro q hq
    rw [h.prev q (htop q (hin q hq)), if_neg (hne q hq)]
  · rw [h.elements, hprev, hnext, hl.head]
    cases u <;> simp
  · rw [h.next, if_pos rfl]
  · intro q hq
    have hqnot : q ∉ u ++ hno :: v := by
      intro hmem
      rcases List.mem_append.mp hq with hq | hq
      · exact hpool hmem hq
      · rw [List.mem_singleton] at hq
        exact hl.last_slot_not_mem_left (hq ▸ List.mem_append_left ps hmem)
    rw [h.next, if_neg (by rintro rfl; exact hqnot (by simp)), if_neg]
    rw [hprev]
    exact fun hlast => hqnot (by simp [List.mem_of_getLast? hlast])

theorem nodup_pair (h : (u ++ x :: y :: v).Nodup) : x ≠ y ∧ x ∉ u ++ v ∧ y ∉ u ++ v := by
  obtain ⟨hx, h⟩ := List.nodup_cons.mp (List.nodup_middle.mp h)
  obtain ⟨hy, -⟩ := List.nodup_cons.mp (List.nodup_middle.mp h)
  refine ⟨?_, ?_, hy⟩
  · rintro rfl
    exact hx (by simp)
  · intro hmem
    rcases List.mem_append.mp hmem with hmem | hmem <;> exact hx (by simp [hmem])

/-- Merging the siblings `x` and `y`, one of which is `it`. -/
theorem Valido.unir (h : Valido d (u ++ x :: y :: v) ps (some it))
    (hxy : it = x ∧ hno = y ∨ it = y ∧ hno = x) (hit : Limpio (d.node it))
    (hno_libre : enUso (d.node hno) = false)
    (hsize : (d.node y).chunk_size = (d.node x).chunk_size) (hm : (d.node x).data = some m)
    (hdvd : 2 * (d.node x).chunk_size ∣ m) (hu : Unido d it hno (some m) d') :
    Valido d' (u ++ it :: v) (hno :: ps) (some it) := by
  obtain ⟨hne, hx, hy⟩ := nodup_pair h.listas.dlist.nodup
  have hpool := (List.nodup_append'.mp h.listas.nodup).2.2
  have hlistas : Listas d' (u ++ it :: v) (hno :: ps) := by
    rcases hxy with ⟨rfl, rfl⟩ | ⟨rfl, rfl⟩
    · have := h.listas
      rw [show u ++ it :: hno :: v = (u ++ [it]) ++ hno :: v by simp] at this
      simpa using hu.listas this
    · exact hu.listas h.listas
  have hsub : ∀ p ∈ u ++ v, p ∈ u ++ x :: y :: v := by
    intro p hp
    rcases List.mem_append.mp hp with hp | hp <;> simp [hp]
  have hother : ∀ p, p ∈ u ++ v ∨ p ∈ ps → p ≠ it ∧ p ≠ hno := by
    intro p hp
    have hpx : p ≠ x := by
      rintro rfl
      rcases hp with hp | hp
      · exact hx hp
      · exact hpool (by simp) hp
    have hpy : p ≠ y := by
      rintro rfl
      rcases hp with hp | hp
      · exact hy hp
      · exact hpool (by simp) hp
    rcases hxy with ⟨rfl, rfl⟩ | ⟨rfl, rfl⟩
    · exact ⟨hpx, hpy⟩
    · exact ⟨hpy, hpx⟩
  have hsame : ∀ p, p ∈ u ++ v ∨ p ∈ ps → (d'.node p).contenido = (d.node p).contenido := by
    intro p hp
    rw [hu.contenido, if_neg (hother p hp).1, if_neg (hother p hp).2]
  have hnew := hu.contenido it
  have hgone := hu.contenido hno
  have hnoit : hno ≠ it := by
    rcases hxy with ⟨rfl, rfl⟩ | ⟨rfl, rfl⟩
    · exact Ne.symm hne
    · exact hne
  rw [if_pos rfl] at hnew
  rw [if_neg hnoit, if_pos rfl] at hgone
  simp only [t_dict_element.contenido, t_dict_element.mk.injEq, true_and, and_true] at hnew hgone
  have hsit : (d.node it).chunk_size = (d.node x).chunk_size := by
    rcases hxy with ⟨rfl, -⟩ | ⟨rfl, -⟩
    · rfl
    · exact hsize
  obtain ⟨k, hk⟩ := h.bloques.power x (by simp)
  obtain ⟨m', htu, hmx, htv⟩ := h.bloques.tiles.piece
  obtain rfl : m' = m := by
    rw [hmx] at hm
    exact Option.some.inj hm
  have htv' := htv.2
  simp only [hsize] at htv'
  have hslab := h.bloques.slab x (by simp)
  obtain ⟨hcu, hcv, -⟩ := List.isChain_append.mp h.bloques.merged
  refine ⟨hlistas, h.bloques.around (m := m') (s := 2 * (d.node x).chunk_size) (k := k + 1) hsub
    hu.max hu.slab (fun p hp => hsame p (Or.inl hp)) htu ?_ hnew.2.2.1 ?_ ?_ ?_ hdvd hcu
    hcv.tail.tail, ?_, ?_, by rw [hu.slab]; exact h.slab_pos⟩
  · rwa [Nat.two_mul, ← Nat.add_assoc]
  · rw [hnew.2.2.2.2.1, hsit, Nat.mul_comm]
  · rw [hk, pow_succ, Nat.mul_comm]
  · omega
  · intro p hp
    rcases List.mem_cons.mp hp with rfl | hp
    · have hlimpio : Limpio (d.node p) := by
        rcases h.limpios p (by rcases hxy with ⟨-, rfl⟩ | ⟨-, rfl⟩ <;> simp) with huse | hl
        · rw [hno_libre] at huse
          exact absurd huse (by simp)
        · exact hl
      exact hlimpio.congr hgone.2.2.2.2.2.2.1 hgone.2.1 hgone.2.2.2.1 hgone.2.2.2.2.2.1
    · exact (contenido_congr (hsame p (Or.inr hp))).2.2.2 (h.libres p hp)
  · intro p hp
    have hcase : p = it ∨ p ∈ u ++ v := by
      rcases List.mem_append.mp hp with hp | hp
      · exact Or.inr (by simp [hp])
      · rcases List.mem_cons.mp hp with hp | hp
        · exact Or.inl hp
        · exact Or.inr (by simp [hp])
    rcases hcase with rfl | hp
    · exact Or.inr (hit.congr hnew.2.2.2.2.2.2.1 hnew.2.1 hnew.2.2.2.1 hnew.2.2.2.2.2.1)
    · obtain ⟨-, -, huse, hl⟩ := contenido_congr (hsame p (Or.inl hp))
      rw [huse]
      exact (h.limpios p (hsub p hp)).imp_right hl

theorem Dividido.listas (hl : Listas d (u ++ it :: v) (n :: ps)) (h : Dividido d it n d') :
    Listas d' (u ++ it :: n :: v) ps := by
  have hpool := (List.nodup_append'.mp hl.nodup).2.2
  have hnot : n ∉ u ++ it :: v := fun hmem => hpool hmem (by simp)
  have hne : ∀ q ∈ u ++ it :: v, q ≠ n := by
    rintro q hq rfl
    exact hnot hq
  have hnext := hl.dlist.next_eq
  refine hl.tomar (by simp [cant_max, h.max, h.slab]) ?_ ?_ ?_ ?_ h.elements h.nodes ?_
  · intro q hq
    rw [h.next, if_neg (hne q hq)]
  · rw [h.next, if_neg (Ne.symm (hne it (by simp))), if_pos rfl]
  · intro q hq
    rw [h.prev, if_neg (hne q hq)]
    by_cases hq' : (d.node it).next = some q
    · rw [if_pos hq', if_pos hq']
    · rw [if_neg hq', if_neg hq', if_neg]
      -- what follows an unused node is unused too
      intro hn
      have hchain := hl.pool.1
      simp only [hn] at hchain
      cases ps with
      | nil =>
        obtain rfl : q = d.last_slot := by simpa using hchain
        exact hl.last_slot_not_mem_left (List.mem_append_left _ hq)
      | cons r ps =>
        obtain rfl : q = r := by simpa using hchain
        exact hpool hq (by simp)
  · rw [h.prev, if_pos rfl]
  · intro q hq
    have hqit : q ≠ it := by
      rintro rfl
      rcases List.mem_append.mp hq with hq | hq
      · exact hpool (a := q) (by simp) (by simp [hq])
      · rw [List.mem_singleton] at hq
        exact hl.last_slot_not_mem_left (hq ▸ by simp)
    have hqn : q ≠ n := by
      rintro rfl
      rcases List.mem_append.mp hq with hq | hq
      · exact (List.nodup_cons.mp (List.nodup_append'.mp hl.nodup).2.1).1 hq
      · rw [List.mem_singleton] at hq
        exact hl.last_slot_not_mem_left (hq ▸ by simp)
    rw [h.next, if_neg hqit, if_neg hqn]

/-- Splitting `it`, which is free and at least twice as large as a slab. -/
theorem Valido.dividir (h : Valido d (u ++ it :: v) (n :: ps) (some it))
    (hit : Limpio (d.node it)) (hsize : d.slab_min_size ≤ (d.node it).chunk_size / 2)
    (hd : Dividido d it n d') :
    Valido d' (u ++ it :: n :: v) ps (some it) ∧ Limpio (d'.node it) ∧
      (d'.node it).chunk_size = (d.node it).chunk_size / 2 := by
  have hpool := (List.nodup_append'.mp h.listas.nodup).2.2
  have hitn : it ≠ n := by
    rintro rfl
    exact hpool (a := it) (by simp) (by simp)
  obtain ⟨hitnot, -⟩ := List.nodup_cons.mp (List.nodup_middle.mp h.listas.dlist.nodup)
  have hsame : ∀ p, p ∈ u ++ v ∨ p ∈ ps → (d'.node p).contenido = (d.node p).contenido := by
    intro p hp
    have hpit : p ≠ it := by
      rintro rfl
      rcases hp with hp | hp
      · exact hitnot hp
      · exact hpool (a := p) (by simp) (by simp [hp])
    have hpn : p ≠ n := by
      rintro rfl
      rcases hp with hp | hp
      · refine hpool (a := p) ?_ (by simp)
        rcases List.mem_append.mp hp with hp | hp <;> simp [hp]
      · exact (List.nodup_cons.mp (List.nodup_append'.mp h.listas.nodup).2.1).1 hp
    rw [hd.contenido, if_neg hpit, if_neg hpn]
  have hnew := hd.contenido n
  have hold := hd.contenido it
  rw [if_pos rfl] at hold
  rw [if_neg (Ne.symm hitn), if_pos rfl] at hnew
  simp only [t_dict_element.contenido, t_dict_element.mk.injEq, true_and, and_true] at hnew hold
  obtain ⟨-, hnk, hnd, hnh, hns, hnl, hno, -⟩ := hnew
  obtain ⟨-, hik, hid, hih, his, hil, hio, -⟩ := hold
  obtain ⟨k, hk⟩ := h.bloques.power it (by simp)
  obtain ⟨m, htu, hm, htv⟩ := h.bloques.tiles.piece
  have hal := h.bloques.aligned it (by simp) m hm
  have hslab := h.slab_pos
  obtain ⟨j, rfl⟩ : ∃ j, k = j + 1 := by
    cases k with
    | zero =>
      rw [hk] at hsize
      simp at hsize
      omega
    | succ j => exact ⟨j, rfl⟩
  have hhalf : (d.node it).chunk_size / 2 = 2 ^ j := by
    rw [hk, pow_succ]
    omega
  have htwo : (d.node it).chunk_size = 2 * 2 ^ j := by
    rw [hk, pow_succ]
    omega
  rw [hm] at hnd hid
  simp only [Option.map_some, hhalf] at hnd
  rw [hhalf] at hns his
  rw [htwo] at hal htv
  have hlimpio : Limpio (d'.node it) := hit.congr hio hik hih hil
  have hothers := fun p hp => contenido_congr (hsame p (Or.inl hp))
  have hsub : ∀ p ∈ u ++ v, p ∈ u ++ it :: v := by
    intro p hp
    rcases List.mem_append.mp hp with hp | hp <;> simp [hp]
  have hcase : ∀ {P : Ptr → Prop}, P it → P n → (∀ p ∈ u ++ v, P p) →
      ∀ p ∈ u ++ it :: n :: v, P p := by
    intro P hPit hPn hP p hp
    simp only [List.mem_append, List.mem_cons] at hp
    rcases hp with hp | rfl | rfl | hp
    · exact hP p (by simp [hp])
    · exact hPit
    · exact hPn
    · exact hP p (by simp [hp])
  obtain ⟨hcu, hcv, -⟩ := List.isChain_append.mp h.bloques.merged
  refine ⟨⟨hd.listas h.listas, ⟨?_, hcase ⟨j, his⟩ ⟨j, hns⟩ ?_, hcase ?_ ?_ ?_, hcase ?_ ?_ ?_,
    ?_⟩, ?_, hcase (Or.inr hlimpio) (Or.inr ?_) ?_, by rw [hd.slab]; exact hslab⟩, hlimpio,
    by rw [his, hhalf]⟩
  · rw [hd.max]
    refine h.bloques.tiles.divide (fun p hp => (hothers p hp).1) (fun p hp => (hothers p hp).2.1)
      (hid.trans hm.symm) ?_ ?_
    · rw [hnd, hm, his, Option.map_some]
    · rw [his, hns, htwo, Nat.two_mul]
  · intro p hp
    rw [(hothers p hp).2.1]
    exact h.bloques.power p (hsub p hp)
  · rw [hd.slab, his, ← hhalf]
    exact hsize
  · rw [hd.slab, hns, ← hhalf]
    exact hsize
  · intro p hp
    rw [hd.slab, (hothers p hp).2.1]
    exact h.bloques.slab p (hsub p hp)
  · intro o ho
    rw [hid] at ho
    obtain rfl := Option.some.inj ho
    rw [his]
    exact dvd_trans (Dvd.intro_left 2 rfl) hal
  · intro o ho
    rw [hnd] at ho
    obtain rfl := Option.some.inj ho
    rw [hns]
    exact dvd_add (dvd_trans (Dvd.intro_left 2 rfl) hal) dvd_rfl
  · intro p hp
    rw [(hothers p hp).1, (hothers p hp).2.1]
    exact h.bloques.aligned p (hsub p hp)
  · refine List.isChain_append.mpr ⟨?_, List.isChain_cons.mpr ⟨?_, List.isChain_cons.mpr ⟨?_, ?_⟩⟩,
      ?_⟩
    · refine hcu.imp_of_mem_imp ?_
      intro p q hp hq hpq hp' hq' hh
      exact hpq hp' hq'
        (hh.congr (hsame p (Or.inl (by simp [hp]))) (hsame q (Or.inl (by simp [hq]))))
    · intro q _ hne
      exact absurd rfl hne
    · -- the second half is no first sibling
      intro q _ _ _ hh
      have hdvd := hh.2.2.2 _ hnd
      rw [hns] at hdvd
      have := (Nat.dvd_add_right hal).mp hdvd
      have := Nat.le_of_dvd (Nat.two_pow_pos j) this
      have := Nat.two_pow_pos j
      omega
    · refine hcv.tail.imp_of_mem_imp ?_
      intro p q hp hq hpq hp' hq' hh
      exact hpq hp' hq' (hh.congr (hsame p (Or.inl (by simp_all)))
        (hsame q (Or.inl (by simp_all))))
    · intro p _ q hq _ hne
      simp only [List.head?_cons, Option.mem_def, Option.some.injEq] at hq
      exact absurd (by rw [hq]) hne
  · intro p hp
    exact (contenido_congr (hsame p (Or.inr hp))).2.2.2 (h.libres p (by simp [hp]))
  · exact (h.libres n (by simp)).congr hno hnk hnh hnl
  · intro p hp
    obtain ⟨-, -, huse, hl⟩ := hothers p hp
    rw [huse]
    exact (h.limpios p (hsub p hp)).imp_right hl

/-- The neighbour on the side of the sibling, and the address the pair would have. -/
def Elegido (d : t_diccionario) (it : Ptr) (u v : List Ptr) (r : Option Ptr × Option Nat) :
    Prop :=
  ∃ m, (d.node it).data = some m ∧
    ((2 * (d.node it).chunk_size ∣ m ∧ r = (v.head?, some m)) ∨
      (¬ 2 * (d.node it).chunk_size ∣ m ∧ ∃ u' x, u = u' ++ [x] ∧
        r = (some x, (d.node x).data)))

theorem elegir_hermano_eq (h : Valido d (u ++ it :: v) ps i) (hdata : data = (d.node it).data) :
    ∃ r, elegir_hermano d it data = .ok r ∧ Elegido d it u v r := by
  obtain ⟨m, htu, hm, -⟩ := h.bloques.tiles.piece
  have hal := h.bloques.aligned it (by simp) m hm
  unfold elegir_hermano
  rw [esElPrimerHermano_eq h.listas h.bloques hm]
  by_cases hdvd : 2 * (d.node it).chunk_size ∣ m
  · rw [decide_eq_true hdvd]
    refine ⟨_, rfl, m, hm, Or.inl ⟨hdvd, ?_⟩⟩
    rw [h.listas.dlist.next_eq, hdata, hm]
  · rw [decide_eq_false hdvd]
    -- a second sibling does not start the memory
    have hpos : 0 < (d.node it).chunk_size := h.bloques.pos (by simp)
    have hle := (dvd_sub_of_odd hal hdvd).1
    rcases List.eq_nil_or_concat u with rfl | ⟨u', x, rfl⟩
    · obtain rfl : 0 = m := htu
      omega
    · have hprev : (d.node it).prev = some x := by
        rw [h.listas.dlist.prev_eq]
        simp
      simp only [hprev]
      exact ⟨_, rfl, m, hm, Or.inr ⟨hdvd, u', x, by simp, rfl⟩⟩

/-- Nothing in use but `it` is touched. -/
structure Ajeno (d : t_diccionario) (it : Ptr) (d' : t_diccionario) : Prop where
  uso : ∀ p, p ≠ it → enUso (d'.node p) = enUso (d.node p)
  contenido : ∀ p, p ≠ it → enUso (d.node p) = true →
    (d'.node p).contenido = (d.node p).contenido
  max : d'.table_max_size = d.table_max_size
  slab : d'.slab_min_size = d.slab_min_size

theorem Ajeno.refl : Ajeno d it d := ⟨fun _ _ => rfl, fun _ _ _ => rfl, rfl, rfl⟩

theorem Ajeno.trans {e : t_diccionario} (h : Ajeno d it d') (k : Ajeno d' it e) : Ajeno d it e where
  uso := fun p hp => (k.uso p hp).trans (h.uso p hp)
  contenido := fun p hp hu =>
    (k.contenido p hp (by rw [h.uso p hp, hu])).trans (h.contenido p hp hu)
  max := k.max.trans h.max
  slab := k.slab.trans h.slab

theorem Unido.ajeno (h : Unido d it hno data d') (hlibre : enUso (d.node hno) = false)
    (hne : hno ≠ it) : Ajeno d it d' where
  uso := by
    intro p hp
    by_cases hpn : p = hno
    · subst hpn
      have hc := h.contenido p
      rw [if_neg hp, if_pos rfl] at hc
      simp only [t_dict_element.contenido, t_dict_element.mk.injEq, true_and] at hc
      simp only [enUso, estaReservado, hc.2.1, hc.2.2.2.2.2.2.1]
    · exact (contenido_congr (by rw [h.contenido, if_neg hp, if_neg hpn])).2.2.1
  contenido := by
    intro p hp hu
    have hpn : p ≠ hno := by
      rintro rfl
      rw [hlibre] at hu
      exact absurd hu (by simp)
    rw [h.contenido, if_neg hp, if_neg hpn]
  max := h.max
  slab := h.slab

/-- A split takes a node that nobody uses. -/
theorem Dividido.ajeno (h : Dividido d it n d') (hn : Limpio (d.node n)) : Ajeno d it d' where
  uso := by
    intro p hp
    by_cases hpn : p = n
    · subst hpn
      have hc := h.contenido p
      rw [if_neg hp, if_pos rfl] at hc
      simp only [t_dict_element.contenido, t_dict_element.mk.injEq, true_and] at hc
      simp only [enUso, estaReservado, hc.2.1, hc.2.2.2.2.2.2.1]
    · exact (contenido_congr (by rw [h.contenido, if_neg hp, if_neg hpn])).2.2.1
  contenido := by
    intro p hp hu
    have hpn : p ≠ n := by
      rintro rfl
      rw [enUso_eq_false.mpr ⟨hn.ocupado, hn.nkey⟩] at hu
      exact absurd hu (by simp)
    rw [h.contenido, if_neg hp, if_neg hpn]
  max := h.max
  slab := h.slab

/-- What the merging loop keeps: `it` is free and the chosen neighbour is right. -/
structure Uniendo (d₀ : t_diccionario) (it : Ptr)
    (s : t_diccionario × Option Ptr × Option Nat) : Prop where
  valido : ∃ u v ps, Valido s.1 (u ++ it :: v) ps (some it) ∧ Elegido s.1 it u v s.2
  limpio : Limpio (s.1.node it)
  ajeno : Ajeno d₀ it s.1

theorem Limpio.libre {e : t_dict_element} (h : Limpio e) : enUso e = false :=
  enUso_eq_false.mpr ⟨h.ocupado, h.nkey⟩

theorem Valido.size_le (h : Valido d (u ++ it :: v) ps i) :
    (d.node it).chunk_size ≤ d.table_max_size := by
  obtain ⟨m, -, -, hv⟩ := h.bloques.tiles.piece
  have := hv.le
  omega

/-- One merge: the pair becomes one free block and its own neighbour is chosen. -/
theorem Uniendo.unir {d₀ : t_diccionario} (h : Uniendo d₀ it (d, some hno, data))
    (hlibre : enUso (d.node hno) = false)
    (hsize : (d.node hno).chunk_size = (d.node it).chunk_size) :
    ∃ r, elegir_hermano (unir d it hno data) it data = .ok r ∧
      Uniendo d₀ it (unir d it hno data, r) ∧
      (unir d it hno data).table_max_size - ((unir d it hno data).node it).chunk_size <
        d.table_max_size - (d.node it).chunk_size := by
  obtain ⟨⟨u, v, ps, hv, m, hm, hr⟩, hl, ha⟩ := h
  simp only at hv hm hr hl ha
  have hnot := List.nodup_middle.mp hv.listas.dlist.nodup
  -- the merged dictionary, whichever sibling `it` is
  have hmerge : ∃ u' v' m', Valido (LaLiga.Rc.unir d it hno data) (u' ++ it :: v') (hno :: ps)
      (some it) ∧ data = some m' ∧ hno ≠ it := by
    rcases hr with ⟨hdvd, hr⟩ | ⟨hdvd, u', x, rfl, hr⟩
    · obtain ⟨hhead, rfl⟩ := Prod.mk.inj hr
      cases v with
      | nil => simp at hhead
      | cons y v =>
        obtain rfl : hno = y := by simpa using hhead
        have hne : it ≠ hno := by
          rintro rfl
          exact (List.nodup_cons.mp hnot).1 (by simp)
        exact ⟨u, v, m, hv.unir (Or.inl ⟨rfl, rfl⟩) hl hlibre hsize hm hdvd (unir_eq hne), rfl,
          Ne.symm hne⟩
    · obtain ⟨hx, rfl⟩ := Prod.mk.inj hr
      obtain rfl : hno = x := by simpa using hx
      have hne : it ≠ hno := by
        rintro rfl
        exact (List.nodup_cons.mp hnot).1 (by simp)
      simp only [List.append_assoc, List.singleton_append] at hv
      obtain ⟨m', htu, hm', htv⟩ := hv.bloques.tiles.piece
      have hm'' := htv.1
      simp only at hm''
      rw [hm, Option.some.injEq] at hm''
      have hdvd' : 2 * (d.node hno).chunk_size ∣ m' := by
        have hal := hv.bloques.aligned it (by simp) m hm
        have := (dvd_sub_of_odd hal hdvd).2
        rw [hm'', hsize, Nat.add_sub_cancel] at this
        rwa [hsize]
      refine ⟨u', v, m', ?_, hm', Ne.symm hne⟩
      rw [hm']
      exact hv.unir (Or.inr ⟨rfl, rfl⟩) hl hlibre hsize.symm hm' hdvd' (unir_eq hne)
  obtain ⟨u', v', m', hv', rfl, hne⟩ := hmerge
  have hu : Unido d it hno (some m') (unir d it hno (some m')) := unir_eq (Ne.symm hne)
  have hc := hu.contenido it
  rw [if_pos rfl] at hc
  simp only [t_dict_element.contenido, t_dict_element.mk.injEq, true_and, and_true] at hc
  obtain ⟨r, hr', helegido⟩ := elegir_hermano_eq hv' hc.2.2.1.symm
  refine ⟨r, hr', ⟨⟨u', v', hno :: ps, hv', helegido⟩, ?_, ha.trans (hu.ajeno hlibre hne)⟩, ?_⟩
  · exact hl.congr hc.2.2.2.2.2.2.1 hc.2.1 hc.2.2.2.1 hc.2.2.2.2.2.1
  · have hsize' := hc.2.2.2.2.1
    have hle := hv'.size_le
    have hpos : 0 < (d.node it).chunk_size := hv.bloques.pos (by simp)
    have hmax := hu.max
    omega

/-- A turn of the loop stops, or merges. -/
theorem unir_hermanos_cases {d₀ : t_diccionario} {s : t_diccionario × Option Ptr × Option Nat}
    (h : Uniendo d₀ it s) :
    (unir_hermanos it s = .ok (.inr s.1) ∧ ∀ hno, s.2.1 = some hno →
      ¬ (enUso (s.1.node hno) = false ∧ (s.1.node hno).chunk_size = (s.1.node it).chunk_size)) ∨
    ∃ s', unir_hermanos it s = .ok (.inl s') ∧ Uniendo d₀ it s' ∧
      s'.1.table_max_size - (s'.1.node it).chunk_size <
        s.1.table_max_size - (s.1.node it).chunk_size := by
  obtain ⟨d, o, data⟩ := s
  cases o with
  | none => exact Or.inl ⟨rfl, by simp⟩
  | some hno =>
    simp only [unir_hermanos]
    split_ifs with hc
    · simp only [Bool.and_eq_true, Bool.not_eq_eq_eq_not, Bool.not_true, beq_iff_eq] at hc
      obtain ⟨r, hr, hnext, hlt⟩ := h.unir hc.1 hc.2
      rw [hr]
      exact Or.inr ⟨_, rfl, hnext, hlt⟩
    · refine Or.inl ⟨rfl, ?_⟩
      rintro hno' hno'' ⟨hlibre, hsize⟩
      obtain rfl := Option.some.inj hno''
      simp [hlibre, hsize] at hc

/-- Nothing is left to merge once `it` has no sibling on either side. -/
theorem Bloques.cerrar (h : Bloques d (u ++ it :: v) (some it)) (hnodup : (u ++ it :: v).Nodup)
    (hu : ∀ p ∈ u.getLast?, ¬ Hermanos d p it) (hv : ∀ q ∈ v.head?, ¬ Hermanos d it q) :
    Bloques d (u ++ it :: v) none := by
  refine ⟨h.tiles, h.power, h.slab, h.aligned, ?_⟩
  have hnot := (List.nodup_cons.mp (List.nodup_middle.mp hnodup)).1
  have hother : ∀ {p}, p ∈ u ++ v → some p ≠ some it := by
    rintro p hp ⟨⟩
    exact hnot hp
  obtain ⟨hcu, hcv, -⟩ := List.isChain_append.mp h.merged
  refine List.isChain_append.mpr ⟨?_, List.isChain_cons.mpr ⟨fun q hq _ _ => hv q hq, ?_⟩, ?_⟩
  · refine hcu.imp_of_mem_imp ?_
    intro p q hp hq hpq _ _
    exact hpq (hother (by simp [hp])) (hother (by simp [hq]))
  · refine hcv.tail.imp_of_mem_imp ?_
    intro p q hp hq hpq _ _
    have hp' : p ∈ v := by simpa using hp
    have hq' : q ∈ v := by simpa using hq
    exact hpq (hother (by simp [hp'])) (hother (by simp [hq']))
  · intro p hp q hq _ _
    obtain rfl : it = q := by simpa using hq
    exact hu p hp

/-- When the loop stops nothing is left to merge. -/
theorem Uniendo.stop {d₀ : t_diccionario} {o : Option Ptr} (h : Uniendo d₀ it (d, o, data))
    (hstop : ∀ hno, o = some hno →
      ¬ (enUso (d.node hno) = false ∧ (d.node hno).chunk_size = (d.node it).chunk_size)) :
    ∃ u v ps, Valido d (u ++ it :: v) ps none ∧ Limpio (d.node it) ∧ Ajeno d₀ it d := by
  obtain ⟨⟨u, v, ps, hv, m, hm, hr⟩, hl, ha⟩ := h
  simp only at hv hm hr hl ha
  have hal := hv.bloques.aligned it (by simp) m hm
  refine ⟨u, v, ps, ⟨hv.listas, hv.bloques.cerrar hv.listas.dlist.nodup ?_ ?_, hv.libres,
    hv.limpios, hv.slab_pos⟩, hl, ha⟩
  swap
  · -- a free block behind `it` would have been merged
    intro y hy hh
    have hdvd := hh.2.2.2 m hm
    rcases hr with ⟨-, hr⟩ | ⟨hnd, -⟩
    · obtain ⟨rfl, -⟩ := Prod.mk.inj hr
      exact hstop y hy ⟨hh.2.1, hh.2.2.1.symm⟩
    · exact hnd hdvd
  · intro x hx hh
    rcases hr with ⟨hdvd, -⟩ | ⟨-, u', x', rfl, hr⟩
    · -- the block before a first sibling ends a pair
      obtain ⟨u', rfl⟩ : ∃ u', u = u' ++ [x] := by
        rcases List.eq_nil_or_concat u with rfl | ⟨u', r, rfl⟩
        · simp at hx
        · exact ⟨u', by simpa using hx⟩
      have htiles := hv.bloques.tiles
      rw [List.append_assoc, List.singleton_append] at htiles
      obtain ⟨m', -, hm', htv⟩ := htiles.piece
      have hm'' := htv.1
      simp only at hm''
      rw [hm, Option.some.injEq] at hm''
      have hpos : 0 < (d.node it).chunk_size := hv.bloques.pos (by simp)
      have hsize := hh.2.2.1
      have hx' := hh.2.2.2 m' hm'
      rw [hsize] at hx'
      rw [hm'', hsize] at hdvd
      have := Nat.le_of_dvd hpos ((Nat.dvd_add_right hx').mp hdvd)
      omega
    · obtain ⟨rfl, -⟩ := Prod.mk.inj hr
      obtain rfl : x' = x := by simpa using hx
      exact hstop x' rfl ⟨hh.1, hh.2.2.1⟩

/-- Changing what `it` holds but not its block: the blocks stay merged if it was free of the
condition before and is so, or in use, afterwards. -/
theorem Valido.tocar {j : Option Ptr} (h : Valido d (u ++ it :: v) ps i)
    (hi : i = none ∨ i = some it) (hj : j = some it ∨ enUso (d'.node it) = true)
    (hother : ∀ p, p ≠ it → d'.node p = d.node p)
    (hit : (d'.node it).next = (d.node it).next ∧ (d'.node it).prev = (d.node it).prev ∧
      (d'.node it).data = (d.node it).data ∧ (d'.node it).chunk_size = (d.node it).chunk_size)
    (hself : d'.nodes = d.nodes ∧ d'.elements = d.elements ∧
      d'.table_max_size = d.table_max_size ∧ d'.slab_min_size = d.slab_min_size)
    (huso : enUso (d'.node it) = true ∨ Limpio (d'.node it)) :
    Valido d' (u ++ it :: v) ps j := by
  obtain ⟨hnext, hprev, hdata, hsize⟩ := hit
  obtain ⟨hnodes, helements, hmax, hslab⟩ := hself
  have hsame : ∀ p, (d'.node p).next = (d.node p).next ∧ (d'.node p).prev = (d.node p).prev ∧
      (d'.node p).data = (d.node p).data ∧ (d'.node p).chunk_size = (d.node p).chunk_size := by
    intro p
    by_cases hp : p = it
    · subst hp
      exact ⟨hnext, hprev, hdata, hsize⟩
    · rw [hother p hp]
      exact ⟨rfl, rfl, rfl, rfl⟩
  have hcant : d'.cant_max = d.cant_max := by simp [cant_max, hmax, hslab]
  have hpool := (List.nodup_append'.mp h.listas.nodup).2.2
  refine ⟨h.listas.congr (fun p => (hsame p).1) (fun p _ => (hsame p).2.1) hnodes helements hcant,
    ⟨?_, ?_, ?_, ?_, ?_⟩, ?_, ?_, ?_⟩
  · rw [hmax]
    exact h.bloques.tiles.congr (fun p _ => (hsame p).2.2.1) (fun p _ => (hsame p).2.2.2)
  · intro p hp
    rw [(hsame p).2.2.2]
    exact h.bloques.power p hp
  · intro p hp
    rw [hslab, (hsame p).2.2.2]
    exact h.bloques.slab p hp
  · intro p hp
    rw [(hsame p).2.2.1, (hsame p).2.2.2]
    exact h.bloques.aligned p hp
  · refine h.bloques.merged.imp ?_
    intro p q hpq hp hq hh
    have hne : p ≠ it ∧ q ≠ it := by
      rcases hj with rfl | huse
      · exact ⟨fun he => hp (by rw [he]), fun he => hq (by rw [he])⟩
      · constructor
        · rintro rfl
          rw [hh.1] at huse
          exact absurd huse (by simp)
        · rintro rfl
          rw [hh.2.1] at huse
          exact absurd huse (by simp)
    refine hpq ?_ ?_ (hh.congr (by rw [hother p hne.1]) (by rw [hother q hne.2]))
    · rcases hi with rfl | rfl
      · simp
      · simpa using hne.1
    · rcases hi with rfl | rfl
      · simp
      · simpa using hne.2
  · intro p hp
    rw [hother p]
    · exact h.libres p hp
    · rintro rfl
      exact hpool (a := p) (by simp) hp
  · intro p hp
    by_cases hpit : p = it
    · subst hpit
      exact huso
    · rw [hother p hpit]
      exact h.limpios p hp
  · rw [hslab]
    exact h.slab_pos

theorem limpio_limpiar : Limpio ((d.limpiar it).node it) := by
  constructor <;> simp [limpiar]

theorem node_limpiar_ne {p : Ptr} (hp : p ≠ it) : (d.limpiar it).node p = d.node p := by
  simp [limpiar, hp]

theorem Valido.limpiar (h : Valido d (u ++ it :: v) ps none) :
    Valido (d.limpiar it) (u ++ it :: v) ps (some it) :=
  h.tocar (Or.inl rfl) (Or.inl rfl) (fun _ hp => node_limpiar_ne hp)
    ⟨by simp [t_diccionario.limpiar], by simp [t_diccionario.limpiar],
      by simp [t_diccionario.limpiar], by simp [t_diccionario.limpiar]⟩
    ⟨rfl, rfl, rfl, rfl⟩ (Or.inr limpio_limpiar)

theorem ajeno_limpiar : Ajeno d it (d.limpiar it) :=
  ⟨fun _ hp => by rw [node_limpiar_ne hp], fun _ hp _ => by rw [node_limpiar_ne hp], rfl, rfl⟩

/-- The release clears the element before it merges it. -/
theorem Uniendo.inicio (h : Valido d (u ++ it :: v) ps none) :
    ∃ r, elegir_hermano d it (d.node it).data = .ok r ∧ Uniendo d it (d.limpiar it, r) := by
  obtain ⟨r, hr, helegido⟩ := elegir_hermano_eq h rfl
  have hdata : ((d.limpiar it).node it).data = (d.node it).data := by
    simp [t_diccionario.limpiar]
  have hsize : ((d.limpiar it).node it).chunk_size = (d.node it).chunk_size := by
    simp [t_diccionario.limpiar]
  refine ⟨r, hr, ⟨u, v, ps, h.limpiar, ?_⟩, limpio_limpiar, ajeno_limpiar⟩
  obtain ⟨m, hm, hcase⟩ := helegido
  refine ⟨m, by rw [hdata, hm], ?_⟩
  simp only [hsize]
  refine hcase.imp_right ?_
  rintro ⟨hdvd, u', x, rfl, hx⟩
  refine ⟨hdvd, u', x, rfl, ?_⟩
  have hxit : x ≠ it := by
    rintro rfl
    have := (List.nodup_cons.mp (List.nodup_middle.mp h.listas.dlist.nodup)).1
    simp at this
  rw [node_limpiar_ne hxit, hx]

/-- Releasing an element merges it with its sibling as long as that is free. -/
theorem diccionario_eliminar_buddy_eq (h : Valido d (u ++ it :: v) ps none) :
    ∃ d' u' v' ps', diccionario_eliminar_buddy d it = .ok d' ∧
      Valido d' (u' ++ it :: v') ps' none ∧ Limpio (d'.node it) ∧ Ajeno d it d' := by
  obtain ⟨r, hr, hstart⟩ := Uniendo.inicio h
  unfold diccionario_eliminar_buddy
  rw [hr]
  simp only
  refine loop_rule (I := Uniendo d it)
    (R := fun r => ∃ d' u' v' ps', r = .ok d' ∧ Valido d' (u' ++ it :: v') ps' none ∧
      Limpio (d'.node it) ∧ Ajeno d it d')
    (fun s => s.1.table_max_size - (s.1.node it).chunk_size) ?_ ?_ ?_ _ _ hstart ?_
  · intro s e hs herror
    rcases unir_hermanos_cases hs with ⟨hstop, -⟩ | ⟨s', hnext, -⟩
    · rw [herror] at hstop
      exact absurd hstop (by simp)
    · rw [herror] at hnext
      exact absurd hnext (by simp)
  · intro s s' hs hturn
    rcases unir_hermanos_cases hs with ⟨hstop, -⟩ | ⟨s'', hnext, hs'', hlt⟩
    · rw [hturn] at hstop
      exact absurd hstop (by simp)
    · rw [hturn] at hnext
      obtain rfl : s' = s'' := by simpa using hnext
      exact ⟨hs'', hlt⟩
  · intro s d' hs hturn
    rcases unir_hermanos_cases hs with ⟨hstop, hno⟩ | ⟨s'', hnext, -⟩
    · rw [hturn] at hstop
      obtain rfl : d' = s.1 := by simpa using hstop
      obtain ⟨u', v', ps', hv, hl, ha⟩ := hs.stop hno
      exact ⟨s.1, u', v', ps', rfl, hv, hl, ha⟩
    · rw [hturn] at hnext
      exact absurd hnext (by simp)
  · change d.table_max_size - _ < d.table_max_size + 1
    omega

end Steps

section Allocate

variable {d d' : t_diccionario} {l u v ps : List Ptr} {item : Ptr} {i : Option Ptr} {aux : Nat}

theorem Valido.libre (h : Valido d l ps i) (hi : item ∈ l) (hu : enUso (d.node item) = false) :
    Limpio (d.node item) := by
  rcases h.limpios item hi with huse | hl
  · rw [hu] at huse
    exact absurd huse (by simp)
  · exact hl

theorem Valido.eximir (h : Valido d l ps none) : Valido d l ps (some item) :=
  ⟨h.listas, ⟨h.bloques.tiles, h.bloques.power, h.bloques.slab, h.bloques.aligned,
    h.bloques.merged.imp (fun _ _ hpq _ _ => hpq (by simp) (by simp))⟩, h.libres, h.limpios,
    h.slab_pos⟩

/-- A split that is required finds an unused node. -/
theorem Valido.pool_ne (h : Valido d (u ++ item :: v) ps i)
    (hsize : d.slab_min_size ≤ (d.node item).chunk_size / 2) : ∃ n ps', ps = n :: ps' := by
  refine h.listas.pool_ne h.bloques.tiles h.bloques.slab h.slab_pos ?_
  omega

/-- The item being split, in which `aux` bytes fit. -/
structure Partiendo (d₀ : t_diccionario) (aux : Nat) (item : Ptr) (d : t_diccionario) : Prop where
  valido : ∃ u v ps, Valido d (u ++ item :: v) ps (some item)
  limpio : Limpio (d.node item)
  fits : aux ≤ (d.node item).chunk_size
  max : d.table_max_size = d₀.table_max_size
  slab : d.slab_min_size = d₀.slab_min_size

theorem mem_agregarHijosDePadre (h : agregarHijosDePadre d item = .ok d') : d'.mem = d.mem := by
  unfold agregarHijosDePadre at h
  cases hn : d.nodes with
  | none => simp [hn] at h
  | some n =>
    simp only [hn] at h
    split_ifs at h
    obtain rfl := Except.ok.inj h
    simp

theorem dividir_cases {d₀ : t_diccionario} (h : Partiendo d₀ aux item d)
    (haux : d.slab_min_size ≤ aux) :
    (dividir aux item d = .ok (.inr d) ∧ (d.node item).chunk_size / 2 < aux) ∨
    ∃ d', dividir aux item d = .ok (.inl d') ∧ Partiendo d₀ aux item d' ∧
      (d'.node item).chunk_size < (d.node item).chunk_size ∧ Ajeno d item d' ∧ d'.mem = d.mem := by
  obtain ⟨⟨u, v, ps, hv⟩, hl, hfits, hmax, hslab⟩ := h
  unfold dividir
  by_cases hsize : aux ≤ (d.node item).chunk_size / 2
  · right
    obtain ⟨n, ps', rfl⟩ := hv.pool_ne (by omega)
    have htop : d.nodes = some n := by rw [hv.listas.top]; rfl
    have hall : d.allocated n = true :=
      mem_all_nodes.mp (hv.listas.perm.mem_iff.mp (by simp))
    have hne : n ≠ item := by
      rintro rfl
      have hpool := (List.nodup_append'.mp hv.listas.nodup).2.2
      exact hpool (a := n) (by simp) (by simp)
    obtain ⟨d', hd', hdiv⟩ := agregarHijosDePadre_eq htop hall hne
    obtain ⟨hv', hl', hhalf⟩ := hv.dividir hl (by omega) hdiv
    rw [if_pos ⟨hsize, by simp [htop]⟩, hd']
    have hpos : 0 < (d.node item).chunk_size := hv.bloques.pos (by simp)
    refine ⟨d', rfl, ⟨⟨u, n :: v, ps', hv'⟩, hl', by omega, hdiv.max.trans hmax,
      hdiv.slab.trans hslab⟩, by omega, hdiv.ajeno (hv.libres n (by simp)),
      mem_agregarHijosDePadre hd'⟩
  · left
    rw [if_neg (fun hc => hsize hc.1)]
    exact ⟨rfl, by omega⟩

/-- Splitting ends with a partition that cannot be halved any more. -/
theorem dividir_loop (h : Partiendo d aux item d) (haux : d.slab_min_size ≤ aux) :
    ∃ d', loop .no_termina (dividir aux item) d.turns d = .ok d' ∧ Partiendo d aux item d' ∧
      (d'.node item).chunk_size / 2 < aux ∧ Ajeno d item d' ∧ d'.mem = d.mem := by
  refine loop_rule (I := fun s => Partiendo d aux item s ∧ Ajeno d item s ∧ s.mem = d.mem)
    (R := fun r => ∃ d', r = .ok d' ∧ Partiendo d aux item d' ∧
      (d'.node item).chunk_size / 2 < aux ∧ Ajeno d item d' ∧ d'.mem = d.mem)
    (fun s => (s.node item).chunk_size) ?_ ?_ ?_ _ _ ⟨h, .refl, rfl⟩ ?_
  · rintro s e ⟨hs, -⟩ herror
    rcases dividir_cases hs (by rw [hs.slab]; exact haux) with ⟨hstop, -⟩ | ⟨s', hnext, -⟩
    · rw [herror] at hstop
      exact absurd hstop (by simp)
    · rw [herror] at hnext
      exact absurd hnext (by simp)
  · rintro s s' ⟨hs, ha, hm⟩ hturn
    rcases dividir_cases hs (by rw [hs.slab]; exact haux) with
      ⟨hstop, -⟩ | ⟨s'', hnext, hs'', hlt, ha'', hm''⟩
    · rw [hturn] at hstop
      exact absurd hstop (by simp)
    · rw [hturn] at hnext
      obtain rfl : s' = s'' := by simpa using hnext
      exact ⟨⟨hs'', ha.trans ha'', hm''.trans hm⟩, hlt⟩
  · rintro s d' ⟨hs, ha, hm⟩ hturn
    rcases dividir_cases hs (by rw [hs.slab]; exact haux) with ⟨hstop, hsmall⟩ | ⟨s'', hnext, -⟩
    · rw [hturn] at hstop
      obtain rfl : d' = s := by simpa using hstop
      exact ⟨d', rfl, hs, hsmall, ha, hm⟩
    · rw [hturn] at hnext
      exact absurd hnext (by simp)
  · obtain ⟨u, v, ps, hv⟩ := h.valido
    have := hv.size_le
    change _ < d.table_max_size + 1
    omega

/-- A turn of the search that finds a partition. -/
theorem buscar_lugar_buddy_encontrado {n : Nat} {primera : Ptr} {e : t_diccionario} (haux : aux_data_size n d.slab_min_size = aux)
    (hfits : aux ≤ d.table_max_size) (hprimera : primer_ajuste d aux = .ok (some primera))
    (hitem : (if d.bestfit = true then mejor_ajuste d aux primera else .ok primera) = .ok item)
    (hloop : loop .no_termina (dividir aux item) d.turns d = .ok e) :
    buscar_lugar_buddy n d = .ok (.inr (reservar e item n, some item)) := by
  unfold buscar_lugar_buddy
  simp only [haux]
  rw [if_pos hfits, hprimera]
  simp only [hitem, hloop]

end Allocate

end LaLiga.Rc
