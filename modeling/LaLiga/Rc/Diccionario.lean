import LaLiga.Lib.DList
import LaLiga.Lib.Loop
import LaLiga.Lib.Selection
import LaLiga.Lib.Tiling

/-! The nodes of the cache and what both allocation schemes do with them. -/
namespace LaLiga.Rc

open LaLiga.Lib

/-- `&self->elements[0]` as allocated, or a slot of the array `self->nodes`. -/
inductive Ptr
  | element
  | slot (i : Nat)
  deriving DecidableEq

/-- Pointers are optional, `NULL` being `none`; `data` is the offset from the start of
the memory, and `key` the buffer it points to. -/
structure t_dict_element where
  prev : Option Ptr
  key : Nat → UInt8
  nkey : Nat
  data : Option Nat
  hour : Int
  chunk_size : Nat
  data_size : Nat
  ocupado : Bool
  flags : Int
  next : Option Ptr
  deriving Inhabited

/-- The dictionary with the nodes and the memory it manages. -/
structure t_diccionario where
  nodes : Option Ptr
  elements : Option Ptr
  table_max_size : Nat
  table_current_size : Int
  slab_min_size : Nat
  lru : Bool
  bestfit : Bool
  compactarMemoria : Int
  frecuenciaCompactacion : Int
  node : Ptr → t_dict_element
  mem : Nat → UInt8
  deriving Inhabited

/-- A node without its links. -/
def t_dict_element.contenido (e : t_dict_element) : t_dict_element :=
  { e with prev := none, next := none }

/-- How a call can fail to return. -/
inductive Falla
  | puntero_nulo
  | fuera_de_nodos
  | fuera_de_clave
  | no_termina
  deriving DecidableEq

/-- Conversion to `int`. -/
def int (x : Int) : Int := Int.bmod x (2 ^ 32)

/-- `max(data_size, slab_min_size)`, whose arguments are converted to `int`. -/
def aux_data_size (data_size slab_min_size : Nat) : Nat :=
  (max (int data_size) slab_min_size).toNat

theorem le_aux_data_size (n k : Nat) : k ≤ aux_data_size n k := by
  unfold aux_data_size
  omega

def estaReservado (e : t_dict_element) : Bool := !e.ocupado && e.nkey != 0

/-- The test the searches make before looking at the size. -/
def enUso (e : t_dict_element) : Bool := e.ocupado || estaReservado e

@[simp]
theorem enUso_eq_false {e : t_dict_element} :
    enUso e = false ↔ e.ocupado = false ∧ e.nkey = 0 := by
  cases h : e.ocupado <;> simp [enUso, estaReservado, h]

/-- What a node that nobody uses looks like. -/
structure Limpio (e : t_dict_element) : Prop where
  ocupado : e.ocupado = false
  nkey : e.nkey = 0
  hour : e.hour = 0
  data_size : e.data_size = 0

theorem Limpio.congr {e e' : t_dict_element} (h : Limpio e) (ho : e'.ocupado = e.ocupado)
    (hn : e'.nkey = e.nkey) (hh : e'.hour = e.hour) (hd : e'.data_size = e.data_size) :
    Limpio e' :=
  ⟨ho.trans h.ocupado, hn.trans h.nkey, hh.trans h.hour, hd.trans h.data_size⟩

/-- What does not depend on the links. -/
theorem contenido_congr {e e' : t_dict_element} (h : e'.contenido = e.contenido) :
    e'.data = e.data ∧ e'.chunk_size = e.chunk_size ∧ enUso e' = enUso e ∧
      (Limpio e → Limpio e') := by
  simp only [t_dict_element.contenido, t_dict_element.mk.injEq, true_and, and_true] at h
  obtain ⟨-, hn, hd, hh, hs, hl, ho, -⟩ := h
  exact ⟨hd, hs, by simp [enUso, estaReservado, ho, hn], fun hlimpio => hlimpio.congr ho hn hh hl⟩

namespace t_diccionario

variable (self : t_diccionario)

def cant_max : Nat := self.table_max_size / self.slab_min_size

/-- A node that was allocated: the array has one slot less than the number of nodes. -/
def allocated : Ptr → Bool
  | .element => true
  | .slot i => i + 1 < self.cant_max

/-- More turns than any loop takes on a well formed dictionary. -/
def turns : Nat := self.table_max_size + 1

def modificar (p : Ptr) (f : t_dict_element → t_dict_element) : t_diccionario :=
  { self with node := Function.update self.node p (f (self.node p)) }

/-- Modifying what a pointer leads to, if anything. -/
def modificar? (p : Option Ptr) (f : t_dict_element → t_dict_element) : t_diccionario :=
  match p with
  | none => self
  | some p => self.modificar p f

/-- Putting a node in front of the list of unused nodes. -/
def devolver (p : Ptr) : t_diccionario :=
  let self' := self.modificar p (fun e => { e with prev := none, next := self.nodes })
  { self'.modificar? self'.nodes (fun e => { e with prev := some p }) with nodes := some p }

/-- Forgetting what a node holds. -/
def limpiar (p : Ptr) : t_diccionario :=
  { self.modificar p (fun e => { e with
      key := Function.update e.key 0 0, nkey := 0, hour := 0, flags := 0, ocupado := false,
      data_size := 0 }) with
    table_current_size := int (self.table_current_size - (self.node p).data_size) }

/-- `while (it != NULL && !p(it)) it = it->next;` -/
def buscar (p : t_dict_element → Bool) : Nat → Option Ptr → Except Falla (Option Ptr)
  | _, none => .ok none
  | 0, some _ => .error .no_termina
  | n + 1, some it =>
    if p (self.node it) then .ok (some it) else buscar p n (self.node it).next

/-- `while (it != NULL && it != hasta) { ..; it = it->next; }` -/
def recorrer {β : Type} (f : β → Ptr → β) (hasta : Option Ptr) :
    Nat → Option Ptr → β → Except Falla β
  | _, none, b => .ok b
  | 0, some _, _ => .error .no_termina
  | n + 1, some it, b =>
    if some it = hasta then .ok b else recorrer f hasta n (self.node it).next (f b it)

end t_diccionario

open t_diccionario

/-- The state in which `malloc` and `calloc` left the memory is arbitrary. The last
assignment of the loop's `nodes[i].next` falls on the slot behind the array. -/
def inicializarElementos (self : t_diccionario) : t_diccionario :=
  let cant_max_el := self.cant_max
  { self with
    elements := some .element
    nodes := some (.slot 0)
    node := fun p =>
      match p with
      | .element =>
        { self.node .element with
          prev := none, chunk_size := self.table_max_size, data := some 0, nkey := 0
          data_size := 0, flags := 0, hour := 0, next := none, ocupado := false }
      | .slot i =>
        if i + 1 < cant_max_el then
          { self.node (.slot i) with
            prev := if i = 0 then none else some (.slot (i - 1))
            data := none, nkey := 0, data_size := 0, hour := 0, ocupado := false
            chunk_size := 0, flags := 0, next := some (.slot (i + 1)) }
        else if i = cant_max_el - 1 then { self.node (.slot i) with next := none }
        else self.node (.slot i) }

def diccionario_obtener (self : t_diccionario) (key : Nat → UInt8) (nkey : Nat) :
    Except Falla (Option Ptr) :=
  self.buscar (fun it => it.nkey != 0 && it.nkey == nkey &&
    (List.range nkey).all (fun i => it.key i == key i)) self.turns self.elements

/-- The message it logs reads the key of the victim. -/
def diccionario_elegirVictima (self : t_diccionario) : Except Falla Ptr :=
  match self.buscar (fun e => e.hour != 0) self.turns self.elements with
  | .error e => .error e
  | .ok none => .error .puntero_nulo
  | .ok (some victima) =>
    self.recorrer (fun victima item =>
      if (self.node item).hour ≠ 0 ∧ (self.node item).hour < (self.node victima).hour then item
      else victima) none self.turns (some victima) victima

def reservar (self : t_diccionario) (item : Ptr) (data_size : Nat) : t_diccionario :=
  { self.modificar item (fun e => { e with data_size := data_size }) with
    table_current_size := int (self.table_current_size + data_size) }

/-- The first partition that is free and large enough. -/
def primer_ajuste (self : t_diccionario) (aux : Nat) : Except Falla (Option Ptr) :=
  self.buscar (fun e => !(enUso e || decide (e.chunk_size < aux))) self.turns self.elements

/-- The scan for the best fit that starts at the first fit. -/
def mejor_ajuste (self : t_diccionario) (aux : Nat) (item : Ptr) : Except Falla Ptr :=
  self.recorrer (fun item aux_item =>
    if !enUso (self.node aux_item) &&
        (self.node aux_item).chunk_size < (self.node item).chunk_size &&
        aux ≤ (self.node aux_item).chunk_size then aux_item
    else item) none self.turns (some item) item

section Nodes

variable {self : t_diccionario} {p q : Ptr} {o : Option Ptr} {f : t_dict_element → t_dict_element}

@[simp]
theorem node_modificar : (self.modificar p f).node q =
    if q = p then f (self.node q) else self.node q := by
  by_cases h : q = p
  · subst h; simp [modificar]
  · simp [modificar, h]

@[simp]
theorem node_modificar? : (self.modificar? o f).node q =
    if o = some q then f (self.node q) else self.node q := by
  cases o with
  | none => simp [modificar?]
  | some p => simp [modificar?, eq_comm]

@[simp] theorem nodes_modificar : (self.modificar p f).nodes = self.nodes := rfl
@[simp] theorem elements_modificar : (self.modificar p f).elements = self.elements := rfl
@[simp] theorem max_modificar : (self.modificar p f).table_max_size = self.table_max_size := rfl
@[simp] theorem slab_modificar : (self.modificar p f).slab_min_size = self.slab_min_size := rfl

@[simp] theorem nodes_modificar? : (self.modificar? o f).nodes = self.nodes := by
  cases o <;> rfl
@[simp] theorem elements_modificar? : (self.modificar? o f).elements = self.elements := by
  cases o <;> rfl
@[simp] theorem max_modificar? : (self.modificar? o f).table_max_size = self.table_max_size := by
  cases o <;> rfl
@[simp] theorem slab_modificar? : (self.modificar? o f).slab_min_size = self.slab_min_size := by
  cases o <;> rfl

@[simp] theorem nodes_limpiar : (self.limpiar p).nodes = self.nodes := rfl
@[simp] theorem elements_limpiar : (self.limpiar p).elements = self.elements := rfl
@[simp] theorem max_limpiar : (self.limpiar p).table_max_size = self.table_max_size := rfl
@[simp] theorem slab_limpiar : (self.limpiar p).slab_min_size = self.slab_min_size := rfl

@[simp] theorem nodes_devolver : (self.devolver p).nodes = some p := rfl
@[simp] theorem elements_devolver : (self.devolver p).elements = self.elements := by
  simp [devolver]
@[simp] theorem max_devolver : (self.devolver p).table_max_size = self.table_max_size := by
  simp [devolver]
@[simp] theorem slab_devolver : (self.devolver p).slab_min_size = self.slab_min_size := by
  simp [devolver]

@[simp] theorem mem_modificar : (self.modificar p f).mem = self.mem := rfl
@[simp] theorem mem_modificar? : (self.modificar? o f).mem = self.mem := by
  cases o <;> rfl
@[simp] theorem mem_limpiar : (self.limpiar p).mem = self.mem := rfl
@[simp] theorem mem_devolver : (self.devolver p).mem = self.mem := by simp [devolver]

end Nodes

/-- The slot behind the array, at the bottom of the list of unused nodes. -/
def t_diccionario.last_slot (self : t_diccionario) : Ptr := .slot (self.cant_max - 1)

/-- The nodes that were allocated. -/
def t_diccionario.all_nodes (self : t_diccionario) : List Ptr :=
  .element :: (List.range (self.cant_max - 1)).map .slot

/-- `l` is the element list and `ps` the list of unused nodes, above the last slot. -/
structure Listas (d : t_diccionario) (l ps : List Ptr) : Prop where
  dlist : DList (fun p => (d.node p).next) (fun p => (d.node p).prev) l
  head : d.elements = l.head?
  pool : Seg (fun p => (d.node p).next) (ps ++ [d.last_slot]) none
  top : d.nodes = (ps ++ [d.last_slot]).head?
  perm : (l ++ ps).Perm d.all_nodes

section Listas

variable {self self' : t_diccionario} {l ps u v w : List Ptr} {p q n : Ptr}

theorem all_nodes_nodup : self.all_nodes.Nodup := by
  refine List.nodup_cons.mpr ⟨by simp, ?_⟩
  exact List.nodup_range.map (fun i j h => by simpa using h)

theorem mem_all_nodes : p ∈ self.all_nodes ↔ self.allocated p = true := by
  cases p with
  | element => simp [all_nodes, allocated]
  | slot i =>
    simp only [all_nodes, allocated, List.mem_cons, reduceCtorEq, List.mem_map, List.mem_range,
      Ptr.slot.injEq, exists_eq_right, false_or, decide_eq_true_eq]
    omega

theorem last_slot_not_mem : self.last_slot ∉ self.all_nodes := by
  rw [mem_all_nodes]
  simp only [last_slot, allocated, decide_eq_true_eq]
  omega

namespace Listas

theorem nodup (h : Listas self l ps) : (l ++ ps).Nodup := h.perm.nodup_iff.mpr all_nodes_nodup

theorem length_le (h : Listas self l ps) : l.length + ps.length ≤ self.cant_max - 1 + 1 := by
  have := h.perm.length_eq
  simp [all_nodes] at this
  omega

theorem length_lt_turns (h : Listas self l ps) : l.length < self.turns + 1 := by
  have hle := h.length_le
  have hdiv : self.cant_max ≤ self.table_max_size := Nat.div_le_self _ _
  unfold turns
  omega

theorem last_slot_not_mem_left (h : Listas self l ps) : self.last_slot ∉ l ++ ps := by
  rw [h.perm.mem_iff]
  exact last_slot_not_mem

theorem seg (h : Listas self (u ++ v) ps) : Seg (fun p => (self.node p).next) v none :=
  (seg_append.mp h.dlist.next).2

/-- There is one element list only. -/
theorem unique {l' ps' : List Ptr} (h : Listas self l ps) (h' : Listas self l' ps') :
    l = l' := h.dlist.next.unique h'.dlist.next (h.head.symm.trans h'.head)

/-- The unused nodes are those of the array that are not in the element list. -/
theorem mem_pool (h : Listas self l ps) : p ∈ ps ↔ p ∈ self.all_nodes ∧ p ∉ l := by
  rw [← h.perm.mem_iff, List.mem_append]
  constructor
  · intro hp
    exact ⟨Or.inr hp, fun hl => (List.nodup_append'.mp h.nodup).2.2 hl hp⟩
  · rintro ⟨hl | hp, hnot⟩
    · exact absurd hl hnot
    · exact hp

theorem allocated (h : Listas self l ps) (hp : p ∈ l) : self.allocated p = true :=
  mem_all_nodes.mp (h.perm.mem_iff.mp (List.mem_append_left ps hp))

/-- The unused nodes only lead to each other and to the last slot. -/
theorem unused_ne (h : Listas self l (v ++ ps)) (hq : q ∈ l ++ v) :
    (ps ++ [self.last_slot]).head? ≠ some q := by
  intro hhead
  rcases List.mem_append.mp (List.mem_of_head? hhead) with hps | hlast
  · have := h.nodup
    rw [← List.append_assoc] at this
    exact (List.nodup_append'.mp this).2.2 hq hps
  · refine h.last_slot_not_mem_left ?_
    rw [← List.mem_singleton.mp hlast, ← List.append_assoc]
    exact List.mem_append_left ps hq

/-- Partitions of at least a slab that leave room for one more leave an unused node. -/
theorem pool_ne (h : Listas self (u ++ p :: v) ps)
    (ht : Tiles (fun p => (self.node p).data) (fun p => (self.node p).chunk_size) 0 (u ++ p :: v)
      self.table_max_size)
    (hslab : ∀ q ∈ u ++ p :: v, self.slab_min_size ≤ (self.node q).chunk_size)
    (hpos : 1 ≤ self.slab_min_size) (hsize : 2 * self.slab_min_size ≤ (self.node p).chunk_size) :
    ∃ n ps', ps = n :: ps' := by
  obtain ⟨m, hu, -, hv⟩ := ht.piece
  have hleu := hu.length_mul_le (fun q hq => hslab q (by simp [hq]))
  have hlev := hv.length_mul_le (fun q hq => hslab q (by simp [hq]))
  have hend := hv.le
  have hfit : (u.length + v.length + 2) * self.slab_min_size ≤ self.table_max_size := by
    rw [Nat.add_mul, Nat.add_mul]
    omega
  have hcount : u.length + v.length + 2 ≤ self.cant_max := (Nat.le_div_iff_mul_le hpos).mpr hfit
  have hperm := h.perm.length_eq
  simp only [List.length_append, List.length_cons, all_nodes, List.length_map,
    List.length_range] at hperm
  cases ps with
  | nil =>
    simp only [List.length_nil] at hperm
    omega
  | cons n ps' => exact ⟨n, ps', rfl⟩

/-- The lists only depend on the links. -/
theorem congr (h : Listas self l ps) (hnext : ∀ p, (self'.node p).next = (self.node p).next)
    (hprev : ∀ p ∈ l, (self'.node p).prev = (self.node p).prev) (hnodes : self'.nodes = self.nodes)
    (hhead : self'.elements = self.elements) (hmax : self'.cant_max = self.cant_max) :
    Listas self' l ps where
  dlist := h.dlist.congr (fun p _ => hnext p) hprev
  head := hhead.trans h.head
  pool := by
    rw [show self'.last_slot = self.last_slot by simp [last_slot, hmax]]
    exact h.pool.congr (fun p _ => hnext p)
  top := by
    rw [show self'.last_slot = self.last_slot by simp [last_slot, hmax], hnodes, h.top]
  perm := by
    rw [show self'.all_nodes = self.all_nodes by simp [all_nodes, hmax]]
    exact h.perm

/-- Unlinking `p` and putting it in front of the unused nodes. -/
theorem quitar (h : Listas self (u ++ p :: v) ps) (hmax : self'.cant_max = self.cant_max)
    (hn : ∀ q ∈ u ++ v, (self'.node q).next =
      if (self.node p).prev = some q then (self.node p).next else (self.node q).next)
    (hp : ∀ q ∈ u ++ v, (self'.node q).prev =
      if (self.node p).next = some q then (self.node p).prev else (self.node q).prev)
    (hhead : self'.elements = (u ++ v).head?) (htop : self'.nodes = some p)
    (hnp : (self'.node p).next = self.nodes)
    (hpool : ∀ q ∈ ps ++ [self.last_slot], (self'.node q).next = (self.node q).next) :
    Listas self' (u ++ v) (p :: ps) where
  dlist := h.dlist.remove hn hp
  head := hhead
  pool := by
    have hlast : self'.last_slot = self.last_slot := by simp [last_slot, hmax]
    rw [hlast]
    refine ⟨?_, h.pool.congr hpool⟩
    simpa using hnp.trans h.top
  top := by simp [htop]
  perm := by
    have hall : self'.all_nodes = self.all_nodes := by simp [all_nodes, hmax]
    rw [hall]
    refine List.Perm.trans ?_ h.perm
    have hfrom := @List.perm_middle _ p (u ++ v) ps
    have hto := @List.perm_middle _ p u (v ++ ps)
    simp only [List.append_assoc, List.cons_append] at hfrom hto ⊢
    exact hfrom.trans hto.symm

/-- Taking the first unused node and linking it behind `p`. -/
theorem tomar (h : Listas self (u ++ p :: v) (n :: ps)) (hmax : self'.cant_max = self.cant_max)
    (hn : ∀ q ∈ u ++ p :: v, (self'.node q).next = if q = p then some n else (self.node q).next)
    (hnn : (self'.node n).next = (self.node p).next)
    (hp : ∀ q ∈ u ++ p :: v, (self'.node q).prev =
      if (self.node p).next = some q then some n else (self.node q).prev)
    (hpn : (self'.node n).prev = some p)
    (hhead : self'.elements = self.elements) (htop : self'.nodes = (self.node n).next)
    (hpool : ∀ q ∈ ps ++ [self.last_slot], (self'.node q).next = (self.node q).next) :
    Listas self' (u ++ p :: n :: v) ps where
  dlist := by
    refine h.dlist.insert ?_ hn hnn hp hpn
    intro hmem
    exact (List.nodup_append'.mp h.nodup).2.2 hmem (by simp)
  head := by
    rw [hhead, h.head]
    cases u <;> simp
  pool := by
    have hlast : self'.last_slot = self.last_slot := by simp [last_slot, hmax]
    rw [hlast]
    exact h.pool.2.congr hpool
  top := by
    have hlast : self'.last_slot = self.last_slot := by simp [last_slot, hmax]
    rw [hlast, htop]
    simpa using h.pool.1
  perm := by
    have hall : self'.all_nodes = self.all_nodes := by simp [all_nodes, hmax]
    rw [hall]
    refine List.Perm.trans ?_ h.perm
    have hfrom := @List.perm_middle _ n (u ++ [p]) (v ++ ps)
    have hto := @List.perm_middle _ n (u ++ p :: v) ps
    simp only [List.append_assoc, List.cons_append, List.nil_append] at hfrom hto ⊢
    exact hfrom.trans hto.symm

/-- As `inicializarElementos` leaves them. -/
theorem inicial (hmax : 0 < self.cant_max) :
    Listas (inicializarElementos self) [.element]
      ((List.range (self.cant_max - 1)).map .slot) := by
  have hseg : ∀ k ≤ self.cant_max - 1, Seg (fun p => ((inicializarElementos self).node p).next)
      ((List.range' (self.cant_max - 1 - k) k).map .slot ++ [self.last_slot]) none := by
    intro k hk
    induction k with
    | zero =>
      refine ⟨?_, trivial⟩
      simp only [last_slot, inicializarElementos]
      rw [if_neg (by omega), if_pos trivial]
      rfl
    | succ k ih =>
      have hnext : self.cant_max - 1 - (k + 1) + 1 = self.cant_max - 1 - k := by omega
      rw [List.range'_succ, hnext]
      refine ⟨?_, ih (by omega)⟩
      simp only [inicializarElementos]
      rw [if_pos (by omega), hnext]
      cases k with
      | zero => simp [last_slot]
      | succ k => simp [List.range'_succ]
  refine ⟨⟨by simp, ⟨rfl, trivial⟩, ⟨rfl, trivial⟩⟩, rfl, ?_, ?_, List.Perm.refl _⟩
  · have := hseg (self.cant_max - 1) le_rfl
    rwa [Nat.sub_self, ← List.range_eq_range'] at this
  · change some (Ptr.slot 0) = _
    cases hk : self.cant_max - 1 with
    | zero => simp [last_slot, inicializarElementos, cant_max] at hk ⊢; omega
    | succ k => simp [List.range_succ_eq_map]

end Listas

/-- The searches over a list that ends in `NULL`. -/
theorem buscar_eq {f : t_dict_element → Bool} {k : Nat} {o : Option Ptr}
    (h : Seg (fun p => (self.node p).next) v none) (ho : o = v.head?) (hk : v.length ≤ k) :
    self.buscar f k o = .ok (v.find? (fun p => f (self.node p))) := by
  subst ho
  induction v generalizing k with
  | nil => cases k <;> rfl
  | cons p v ih =>
    cases k with
    | zero => simp at hk
    | succ k =>
      have hnext : (self.node p).next = v.head? := by simpa using h.1
      simp only [List.head?_cons, buscar, List.find?_cons, hnext]
      cases f (self.node p) with
      | true => rfl
      | false => exact ih h.2 (by simpa using hk)

theorem recorrer_eq {β : Type} {f : β → Ptr → β} {k : Nat} {b : β} {o : Option Ptr}
    (h : Seg (fun p => (self.node p).next) v none) (ho : o = v.head?) (hk : v.length ≤ k) :
    self.recorrer f none k o b = .ok (v.foldl f b) := by
  subst ho
  induction v generalizing k b with
  | nil => cases k <;> rfl
  | cons p v ih =>
    cases k with
    | zero => simp at hk
    | succ k =>
      have hnext : (self.node p).next = v.head? := by simpa using h.1
      simp only [List.head?_cons, recorrer, reduceCtorEq, if_false, List.foldl_cons, hnext]
      exact ih h.2 (by simpa using hk)

theorem recorrer_hasta {β : Type} {f : β → Ptr → β} {k : Nat} {b : β} {o : Option Ptr}
    (h : Seg (fun p => (self.node p).next) (v ++ p :: w) none) (hp : p ∉ v)
    (ho : o = (v ++ p :: w).head?) (hk : v.length < k) :
    self.recorrer f (some p) k o b = .ok (v.foldl f b) := by
  subst ho
  induction v generalizing k b with
  | nil =>
    cases k with
    | zero => simp at hk
    | succ k => simp [recorrer]
  | cons q v ih =>
    cases k with
    | zero => simp at hk
    | succ k =>
      obtain ⟨hne, hp⟩ := not_or.mp (List.mem_cons.not.mp hp)
      have hnext : (self.node q).next = (v ++ p :: w).head? := by simpa using h.1
      simp only [List.cons_append, List.head?_cons, recorrer, Option.some.injEq,
        if_neg (Ne.symm (Ne.intro hne)), List.foldl_cons, hnext]
      exact ih h.2 hp (by simpa using hk)

section Searches

variable {d : t_diccionario} {aux : Nat} {item : Ptr}

/-- A free partition of the element list in which `aux` bytes fit. -/
def Apto (d : t_diccionario) (l : List Ptr) (aux : Nat) (item : Ptr) : Prop :=
  item ∈ l ∧ enUso (d.node item) = false ∧ aux ≤ (d.node item).chunk_size

/-- The test of `Apto`. -/
def apto (d : t_diccionario) (aux : Nat) (p : Ptr) : Bool :=
  !enUso (d.node p) && decide (aux ≤ (d.node p).chunk_size)

theorem apto_iff : (item ∈ l ∧ apto d aux item = true) ↔ Apto d l aux item := by
  simp [apto, Apto, -enUso_eq_false]

/-- The choice of the configured policy: the first fit, or the first of the best fits. -/
def ajuste (d : t_diccionario) (l : List Ptr) (aux : Nat) : Option Ptr :=
  if d.bestfit then (l.filter (apto d aux)).argmin (fun p => (d.node p).chunk_size)
  else l.find? (apto d aux)

theorem primer_ajuste_find (aux : Nat) (hl : Listas d l ps) :
    primer_ajuste d aux = .ok (l.find? (apto d aux)) := by
  have htest : apto d aux = fun p =>
      !(enUso (d.node p) || decide ((d.node p).chunk_size < aux)) := by
    funext p
    rw [apto, Bool.not_or, ← decide_not]
    congr 2
    exact propext Nat.not_lt.symm
  rw [htest]
  exact buscar_eq hl.dlist.next hl.head (Nat.lt_succ_iff.mp hl.length_lt_turns)

theorem primer_ajuste_eq (aux : Nat) (hl : Listas d l ps) :
    ∃ r, primer_ajuste d aux = .ok r ∧ ∀ item ∈ r, Apto d l aux item := by
  refine ⟨_, primer_ajuste_find aux hl, ?_⟩
  intro item hitem
  exact apto_iff.mp ⟨List.mem_of_find?_eq_some hitem, List.find?_some hitem⟩

/-- From the first fit on, the scan finds the first of the best fits. -/
theorem mejor_ajuste_argmin (hl : Listas d l ps) (h : l.find? (apto d aux) = some item) :
    ∃ r, mejor_ajuste d aux item = .ok r ∧
      (l.filter (apto d aux)).argmin (fun p => (d.node p).chunk_size) = some r := by
  obtain ⟨u, v, rfl, hmin⟩ := argmin_filter_of_find (f := fun p => (d.node p).chunk_size) h
  have hlen : (item :: v).length ≤ d.turns := by
    have := hl.length_lt_turns
    simp only [List.length_append] at this
    omega
  refine ⟨_, recorrer_eq hl.seg rfl hlen, ?_⟩
  rw [hmin]
  congr 3
  funext r x
  simp only [apto, Bool.and_eq_true, decide_eq_true_eq, Nat.lt_iff_add_one_le]
  congr 1
  simp only [eq_iff_iff]
  tauto

theorem ajuste_eq (hl : Listas d l ps) (h : l.find? (apto d aux) = some item) :
    ∃ r, (if d.bestfit = true then mejor_ajuste d aux item else .ok item) = .ok r ∧
      ajuste d l aux = some r := by
  unfold ajuste
  split_ifs
  · exact mejor_ajuste_argmin hl h
  · exact ⟨item, rfl, h⟩

theorem apto_of_ajuste (h : ajuste d l aux = some item) : Apto d l aux item := by
  unfold ajuste at h
  split_ifs at h
  · exact apto_iff.mp (List.mem_filter.mp (List.argmin_mem h))
  · exact apto_iff.mp ⟨List.mem_of_find?_eq_some h, List.find?_some h⟩

theorem mejor_ajuste_eq (hl : Listas d l ps) (h : Apto d l aux item) :
    ∃ r, mejor_ajuste d aux item = .ok r ∧ Apto d l aux r := by
  obtain ⟨u, v, rfl⟩ := List.append_of_mem h.1
  have hlen : (item :: v).length ≤ d.turns := by
    have := hl.length_lt_turns
    simp only [List.length_append] at this
    omega
  refine ⟨_, recorrer_eq hl.seg rfl hlen, ?_⟩
  -- every choice along the scan is suitable
  refine List.foldlRecOn (item :: v) _ h ?_
  intro b hb p hp
  split_ifs with hc
  · simp only [Bool.and_eq_true, Bool.not_eq_eq_eq_not, Bool.not_true, decide_eq_true_eq] at hc
    exact ⟨List.mem_append_right u hp, hc.1.1, hc.2⟩
  · exact hb

/-- The victim is the first of the elements with the least time stamp. -/
theorem diccionario_elegirVictima_argmin (hl : Listas d l ps) :
    diccionario_elegirVictima d =
      match (l.filter (fun p => (d.node p).hour != 0)).argmin (fun p => (d.node p).hour) with
      | none => .error .puntero_nulo
      | some victima => .ok victima := by
  have hlen := Nat.lt_succ_iff.mp hl.length_lt_turns
  unfold diccionario_elegirVictima
  rw [buscar_eq hl.dlist.next hl.head hlen]
  cases hfind : l.find? (fun p => (d.node p).hour != 0) with
  | none =>
    have hnone : l.filter (fun p => (d.node p).hour != 0) = [] :=
      List.filter_eq_nil_iff.mpr (List.find?_eq_none.mp hfind)
    rw [hnone]
    rfl
  | some victima =>
    obtain ⟨u, v, rfl, hmin⟩ := argmin_filter_of_find (f := fun p => (d.node p).hour) hfind
    have hlen' : (victima :: v).length ≤ d.turns := by
      simp only [List.length_append] at hlen
      omega
    simp only [hmin, bne_iff_ne]
    exact recorrer_eq hl.seg rfl hlen'

theorem diccionario_elegirVictima_eq (hl : Listas d l ps) :
    (diccionario_elegirVictima d = .error .puntero_nulo ∧ ∀ p ∈ l, (d.node p).hour = 0) ∨
    ∃ victima ∈ l, diccionario_elegirVictima d = .ok victima ∧ (d.node victima).hour ≠ 0 := by
  rw [diccionario_elegirVictima_argmin hl]
  cases hmin : (l.filter (fun p => (d.node p).hour != 0)).argmin (fun p => (d.node p).hour) with
  | none =>
    refine Or.inl ⟨rfl, ?_⟩
    intro p hp
    have := List.filter_eq_nil_iff.mp (List.argmin_eq_none.mp hmin) p hp
    simpa using this
  | some victima =>
    obtain ⟨hmem, hhour⟩ := List.mem_filter.mp (List.argmin_mem hmin)
    exact Or.inr ⟨victima, hmem, rfl, by simpa using hhour⟩

end Searches

end Listas

end LaLiga.Rc
