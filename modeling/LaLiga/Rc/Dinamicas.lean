import LaLiga.Rc.Diccionario

/-! Dynamic partitions. -/
namespace LaLiga.Rc

open LaLiga.Lib t_diccionario

def diccionario_crear (basura : t_diccionario) (table_max_size slab_size : Nat) : t_diccionario :=
  inicializarElementos { basura with
    table_max_size := table_max_size, slab_min_size := slab_size, table_current_size := 0
    compactarMemoria := 0 }

/-- One turn of the first loop of `diccionario_eliminar`: `anterior` absorbs `it`. -/
def unir_anterior (self : t_diccionario) (it anterior : Ptr) : t_diccionario :=
  let self := self.modificar anterior (fun e =>
    { e with chunk_size := e.chunk_size + (self.node it).chunk_size })
  let self := self.modificar it (fun e => { e with chunk_size := 0 })
  let self := self.modificar anterior (fun e => { e with next := (self.node it).next })
  let self := self.modificar? (self.node it).next (fun e => { e with prev := some anterior })
  self.devolver it

/-- One turn of its second loop: `it` absorbs `posterior`. -/
def unir_posterior (self : t_diccionario) (it posterior : Ptr) : t_diccionario :=
  let self := self.modificar it (fun e =>
    { e with chunk_size := e.chunk_size + (self.node posterior).chunk_size })
  let self := self.modificar posterior (fun e => { e with chunk_size := 0 })
  let self := self.modificar it (fun e => { e with next := (self.node posterior).next })
  self.devolver posterior

def unir_anteriores (s : t_diccionario × Ptr) :
    Except Falla ((t_diccionario × Ptr) ⊕ (t_diccionario × Ptr)) :=
  match (s.1.node s.2).prev with
  | none => .ok (.inr s)
  | some anterior =>
    if (s.1.node anterior).ocupado then .ok (.inr s)
    else .ok (.inl (unir_anterior s.1 s.2 anterior, anterior))

def unir_posteriores (it : Ptr) (self : t_diccionario) :
    Except Falla (t_diccionario ⊕ t_diccionario) :=
  match (self.node it).next with
  | none => .ok (.inr self)
  | some posterior =>
    if (self.node posterior).ocupado then .ok (.inr self)
    else .ok (.inl (unir_posterior self it posterior))

def diccionario_eliminar (self : t_diccionario) (it : Ptr) : Except Falla (t_diccionario × Ptr) :=
  match loop .no_termina unir_anteriores self.turns (self.limpiar it, it) with
  | .error e => .error e
  | .ok (self, it) =>
    match loop .no_termina (unir_posteriores it) self.turns self with
    | .error e => .error e
    | .ok self => .ok (self, it)

/-- `memcpy`, from the lowest byte on: the partitions that it copies may overlap. -/
def copiar (mem : Nat → UInt8) (dst src n : Nat) : Nat → UInt8 :=
  fun a => if dst ≤ a ∧ a < dst + n then mem (src + (a - dst)) else mem a

/-- Joining the free partition `item` to the one before it. -/
def juntar (self : t_diccionario) (item_libre item : Ptr) : t_diccionario :=
  let self := self.modificar item_libre (fun e =>
    { e with chunk_size := e.chunk_size + (self.node item).chunk_size })
  let self := self.modificar item_libre (fun e => { e with next := (self.node item).next })
  let self := self.modificar? (self.node item).next (fun e => { e with prev := some item_libre })
  (self.devolver item).modificar item (fun e => { e with chunk_size := 0 })

def juntar_libres (item_libre : Ptr) (s : t_diccionario × Option Ptr) :
    Except Falla ((t_diccionario × Option Ptr) ⊕ (t_diccionario × Option Ptr)) :=
  match s.2 with
  | none => .ok (.inr s)
  | some item =>
    if enUso (s.1.node item) then .ok (.inr s)
    else
      let self := juntar s.1 item_libre item
      .ok (.inl (self, (self.node item_libre).next))

/-- The free partition `item_libre` takes over what the next one holds. -/
def intercambiar (self : t_diccionario) (item_libre item : Ptr) : Except Falla t_diccionario :=
  let espacioLibre := (self.node item_libre).chunk_size
  let self := self.modificar item_libre (fun e =>
    { e with chunk_size := (self.node item).chunk_size })
  match (self.node item_libre).data, (self.node item).data with
  | some dst, some src =>
    let self := { self with mem := copiar self.mem dst src (self.node item).chunk_size }
    let self := self.modificar item (fun e =>
      { e with data := some (dst + (self.node item_libre).chunk_size) })
    let self := self.modificar item_libre (fun e => { e with
      data_size := (self.node item).data_size, hour := (self.node item).hour
      key := fun i => if i < (self.node item).nkey + 1 then (self.node item).key i else e.key i
      ocupado := true })
    .ok (self.modificar item (fun e => { e with
      prev := some item_libre, chunk_size := espacioLibre, ocupado := false
      key := Function.update e.key 0 0, hour := 0, data_size := 0 }))
  | _, _ => .error .puntero_nulo

/-- One turn of the loop over `item_libre` and `item`. -/
def compactar_turno (s : t_diccionario × Option Ptr × Option Ptr) :
    Except Falla ((t_diccionario × Option Ptr × Option Ptr) ⊕ t_diccionario) :=
  match s with
  | (self, _, none) => .ok (.inr self)
  | (_, none, some _) => .error .puntero_nulo
  | (self, some item_libre, some item) =>
    match loop .no_termina (juntar_libres item_libre) self.turns (self, some item) with
    | .error e => .error e
    | .ok (self, none) => .ok (.inr self)
    | .ok (self, some item) =>
      match intercambiar self item_libre item with
      | .error e => .error e
      | .ok self => .ok (.inl (self, (self.node item_libre).next, (self.node item).next))

/-- The outermost loop makes one turn: the loop inside goes on to the end of the list. -/
def diccionario_compactarMemoria (self : t_diccionario) : Except Falla t_diccionario :=
  match self.buscar (fun e => !enUso e) self.turns self.elements with
  | .error e => .error e
  | .ok none => .ok self
  | .ok (some item_libre) =>
    loop .no_termina compactar_turno self.turns
      (self, some item_libre, (self.node item_libre).next)

/-- Splitting off what the request does not need. -/
def partir (self : t_diccionario) (item : Ptr) (aux : Nat) : Except Falla t_diccionario :=
  match self.nodes with
  | none => .ok self
  | some nuevo_nodo =>
    if self.slab_min_size ≤ (self.node item).chunk_size - aux then
      if self.allocated nuevo_nodo = false then .error .fuera_de_nodos
      else
        let self := { self with nodes := (self.node nuevo_nodo).next }
        let self := self.modificar? self.nodes (fun e => { e with prev := none })
        let self := self.modificar nuevo_nodo (fun e =>
          { e with next := (self.node item).next, prev := some item })
        let self := self.modificar? (self.node item).next (fun e =>
          { e with prev := some nuevo_nodo })
        let self := self.modificar item (fun e => { e with next := some nuevo_nodo })
        let self := self.modificar nuevo_nodo (fun e =>
          { e with chunk_size := e.chunk_size + ((self.node item).chunk_size - aux) })
        let self := self.modificar item (fun e => { e with chunk_size := aux })
        .ok (self.modificar nuevo_nodo (fun e => { e with
          data := (self.node item).data.map (· + (self.node item).chunk_size) }))
    else .ok self

def contar_intento (self : t_diccionario) : t_diccionario :=
  if 0 < self.compactarMemoria then { self with compactarMemoria := self.compactarMemoria - 1 }
  else self

def conviene_compactar (self : t_diccionario) (aux : Nat) : Bool :=
  self.compactarMemoria == 0 && decide ((aux : Int) ≤ self.table_max_size - self.table_current_size)

/-- What a turn of the search does when no partition is large enough. -/
def hacer_lugar (self : t_diccionario) (aux : Nat) : Except Falla t_diccionario :=
  let self := contar_intento self
  if conviene_compactar self aux then
    match diccionario_compactarMemoria self with
    | .error e => .error e
    | .ok self => .ok { self with compactarMemoria := self.frecuenciaCompactacion }
  else
    match diccionario_elegirVictima self with
    | .error e => .error e
    | .ok victima =>
      match diccionario_eliminar self victima with
      | .error e => .error e
      | .ok (self, _) => .ok self

def buscar_lugar (data_size : Nat) (self : t_diccionario) :
    Except Falla (t_diccionario ⊕ (t_diccionario × Option Ptr)) :=
  let aux := aux_data_size data_size self.slab_min_size
  if aux ≤ self.table_max_size then
    match primer_ajuste self aux with
    | .error e => .error e
    | .ok none =>
      match hacer_lugar self aux with
      | .error e => .error e
      | .ok self => .ok (.inl self)
    | .ok (some item) =>
      match if self.bestfit then mejor_ajuste self aux item else .ok item with
      | .error e => .error e
      | .ok item =>
        match partir self item aux with
        | .error e => .error e
        | .ok self => .ok (.inr (reservar self item data_size, some item))
  else .ok (.inr (self, none))

/-- The search need not end: it is given a number of turns. -/
def diccionario_obtenerDireccion (turnos : Nat) (self : t_diccionario) (data_size : Nat) :
    Except Falla (t_diccionario × Option Ptr) :=
  loop .no_termina (buscar_lugar data_size) turnos self

/-- The element list `l` and the unused nodes `ps` of a well formed dictionary. -/
structure Particiones (d : t_diccionario) (l ps : List Ptr) : Prop where
  listas : Listas d l ps
  tiles : Tiles (fun p => (d.node p).data) (fun p => (d.node p).chunk_size) 0 l d.table_max_size
  slab : ∀ p ∈ l, d.slab_min_size ≤ (d.node p).chunk_size
  cabe : ∀ p ∈ l, (d.node p).data_size ≤ (d.node p).chunk_size
  vacias : ∀ p ∈ l, enUso (d.node p) = false → (d.node p).data_size = 0
  libres : ∀ p ∈ ps, (d.node p).chunk_size = 0 ∧ (d.node p).data_size = 0
  total : d.table_current_size = ((l.map (fun p => (d.node p).data_size)).sum : Nat)
  slab_pos : 1 ≤ d.slab_min_size
  max_lt : d.table_max_size < 2 ^ 31

section Effects

variable {d d' : t_diccionario} {a b n item : Ptr} {aux : Nat}

theorem modificar_eq_self {p : Ptr} {f : t_dict_element → t_dict_element}
    (h : f (d.node p) = d.node p) : d.modificar p f = d := by
  simp [modificar, h]

/-- `a` absorbs `b`, which goes to the unused nodes. -/
structure Absorbido (d : t_diccionario) (a b : Ptr) (d' : t_diccionario) : Prop where
  next : ∀ q, (d'.node q).next = if q = b then d.nodes
    else if q = a then (d.node b).next else (d.node q).next
  prev : ∀ q, q ≠ b → d.nodes ≠ some q → (d'.node q).prev =
    if (d.node b).next = some q then some a else (d.node q).prev
  contenido : ∀ q, (d'.node q).contenido =
    if q = a then { (d.node a).contenido with
      chunk_size := (d.node a).chunk_size + (d.node b).chunk_size }
    else if q = b then { (d.node b).contenido with chunk_size := 0 }
    else (d.node q).contenido
  nodes : d'.nodes = some b
  elements : d'.elements = d.elements
  max : d'.table_max_size = d.table_max_size
  slab : d'.slab_min_size = d.slab_min_size
  current : d'.table_current_size = d.table_current_size

namespace Absorbido

/-- Fields of the other nodes, but for their links. -/
theorem igual {β : Type} (h : Absorbido d a b d') (f : t_dict_element → β)
    (hf : ∀ e, f e.contenido = f e) {q : Ptr} (ha : q ≠ a) (hb : q ≠ b) :
    f (d'.node q) = f (d.node q) := by
  rw [← hf, h.contenido, if_neg ha, if_neg hb, hf]

theorem de_absorbente (h : Absorbido d a b d') : (d'.node a).contenido =
    { (d.node a).contenido with
      chunk_size := (d.node a).chunk_size + (d.node b).chunk_size } := by
  rw [h.contenido, if_pos rfl]

theorem de_absorbido (h : Absorbido d a b d') (hab : a ≠ b) :
    (d'.node b).contenido = { (d.node b).contenido with chunk_size := 0 } := by
  rw [h.contenido, if_neg hab.symm, if_pos rfl]

theorem data_absorbente (h : Absorbido d a b d') : (d'.node a).data = (d.node a).data :=
  (congrArg t_dict_element.data h.de_absorbente :)

theorem chunk_absorbente (h : Absorbido d a b d') :
    (d'.node a).chunk_size = (d.node a).chunk_size + (d.node b).chunk_size :=
  (congrArg t_dict_element.chunk_size h.de_absorbente :)

theorem data_size_absorbente (h : Absorbido d a b d') :
    (d'.node a).data_size = (d.node a).data_size :=
  (congrArg t_dict_element.data_size h.de_absorbente :)

theorem uso_absorbente (h : Absorbido d a b d') : enUso (d'.node a) = enUso (d.node a) :=
  (congrArg enUso h.de_absorbente :)

theorem chunk_absorbido (h : Absorbido d a b d') (hab : a ≠ b) : (d'.node b).chunk_size = 0 :=
  (congrArg t_dict_element.chunk_size (h.de_absorbido hab) :)

theorem data_size_absorbido (h : Absorbido d a b d') (hab : a ≠ b) :
    (d'.node b).data_size = (d.node b).data_size :=
  (congrArg t_dict_element.data_size (h.de_absorbido hab) :)

end Absorbido

/-- `item` keeps `aux` bytes and the first unused node takes the rest. -/
structure Partido (d : t_diccionario) (item n : Ptr) (aux : Nat) (d' : t_diccionario) : Prop where
  next : ∀ q, (d'.node q).next = if q = item then some n
    else if q = n then (d.node item).next else (d.node q).next
  prev : ∀ q, q ≠ item → (d.node n).next ≠ some q → (d'.node q).prev =
    if (d.node item).next = some q then some n else if q = n then some item else (d.node q).prev
  prev_item : (d'.node item).prev = (d.node item).prev
  contenido : ∀ q, (d'.node q).contenido =
    if q = item then { (d.node item).contenido with chunk_size := aux }
    else if q = n then { (d.node n).contenido with
      chunk_size := (d.node n).chunk_size + ((d.node item).chunk_size - aux)
      data := (d.node item).data.map (· + aux) }
    else (d.node q).contenido
  nodes : d'.nodes = (d.node n).next
  elements : d'.elements = d.elements
  max : d'.table_max_size = d.table_max_size
  slab : d'.slab_min_size = d.slab_min_size
  current : d'.table_current_size = d.table_current_size

namespace Partido

theorem igual {β : Type} (h : Partido d item n aux d') (f : t_dict_element → β)
    (hf : ∀ e, f e.contenido = f e) {q : Ptr} (hi : q ≠ item) (hn : q ≠ n) :
    f (d'.node q) = f (d.node q) := by
  rw [← hf, h.contenido, if_neg hi, if_neg hn, hf]

theorem de_item (h : Partido d item n aux d') :
    (d'.node item).contenido = { (d.node item).contenido with chunk_size := aux } := by
  rw [h.contenido, if_pos rfl]

theorem de_nuevo (h : Partido d item n aux d') (hne : n ≠ item) :
    (d'.node n).contenido = { (d.node n).contenido with
      chunk_size := (d.node n).chunk_size + ((d.node item).chunk_size - aux)
      data := (d.node item).data.map (· + aux) } := by
  rw [h.contenido, if_neg hne, if_pos rfl]

end Partido

@[simp] theorem current_modificar {p : Ptr} {f : t_dict_element → t_dict_element} :
    (d.modificar p f).table_current_size = d.table_current_size := rfl
@[simp] theorem current_modificar? {o : Option Ptr} {f : t_dict_element → t_dict_element} :
    (d.modificar? o f).table_current_size = d.table_current_size := by
  cases o <;> rfl
@[simp] theorem current_devolver {p : Ptr} :
    (d.devolver p).table_current_size = d.table_current_size := by
  simp [devolver]

theorem unir_anterior_eq (hne : a ≠ b) : Absorbido d a b (unir_anterior d b a) where
  next := by
    intro q
    have hne' := hne.symm
    simp only [unir_anterior, devolver, node_modificar, node_modificar?, nodes_modificar,
      nodes_modificar?, apply_ite t_dict_element.next, ite_self, hne', if_false]
  prev := by
    intro q hq hpool
    have hne' := hne.symm
    simp only [unir_anterior, devolver, node_modificar, node_modificar?, nodes_modificar,
      nodes_modificar?, apply_ite t_dict_element.prev, apply_ite t_dict_element.next, ite_self,
      hne', hq, hpool, if_false]
  contenido := by
    intro q
    have hne' := hne.symm
    simp only [unir_anterior, devolver, node_modificar, node_modificar?, nodes_modificar,
      nodes_modificar?, t_dict_element.contenido]
    split_ifs <;> simp_all
  nodes := by simp [unir_anterior]
  elements := by simp [unir_anterior]
  max := by simp [unir_anterior]
  slab := by simp [unir_anterior]
  current := by simp [unir_anterior]

theorem juntar_eq (hne : a ≠ b) : Absorbido d a b (juntar d a b) where
  next := by
    intro q
    have hne' := hne.symm
    simp only [juntar, devolver, node_modificar, node_modificar?, nodes_modificar,
      nodes_modificar?, apply_ite t_dict_element.next, ite_self, hne', if_false]
  prev := by
    intro q hq hpool
    have hne' := hne.symm
    simp only [juntar, devolver, node_modificar, node_modificar?, nodes_modificar,
      nodes_modificar?, apply_ite t_dict_element.prev, apply_ite t_dict_element.next, ite_self,
      hne', hq, hpool, if_false]
  contenido := by
    intro q
    have hne' := hne.symm
    simp only [juntar, devolver, node_modificar, node_modificar?, nodes_modificar,
      nodes_modificar?, t_dict_element.contenido]
    split_ifs <;> simp_all
  nodes := by simp [juntar]
  elements := by simp [juntar]
  max := by simp [juntar]
  slab := by simp [juntar]
  current := by simp [juntar]

/-- The back link that the second loop of `diccionario_eliminar` does not restore. -/
def reparar (self : t_diccionario) (it : Ptr) : t_diccionario :=
  self.modificar? (self.node it).next (fun e => { e with prev := some it })

/-- With that link restored a turn of the second loop is as one of the first. -/
theorem unir_posterior_eq (hne : a ≠ b) (hnext : (d.node a).next = some b) :
    Absorbido (reparar d a) a b (reparar (unir_posterior d a b) a) where
  next := by
    intro q
    have hne' := hne.symm
    simp only [reparar, unir_posterior, devolver, node_modificar, node_modificar?, nodes_modificar,
      nodes_modificar?, apply_ite t_dict_element.next, ite_self, hne', if_false]
  prev := by
    intro q hq hpool
    have hne' := hne.symm
    simp only [reparar, nodes_modificar?] at hpool
    simp only [reparar, unir_posterior, devolver, node_modificar, node_modificar?,
      nodes_modificar, apply_ite t_dict_element.prev, apply_ite t_dict_element.next, ite_self,
      hne, hne', hq, hpool, if_false, if_true, hnext, Option.some.injEq, Ne.symm hq]
  contenido := by
    intro q
    have hne' := hne.symm
    simp only [reparar, unir_posterior, devolver, node_modificar, node_modificar?,
      nodes_modificar, t_dict_element.contenido]
    split_ifs <;> simp_all
  nodes := by simp [reparar, unir_posterior]
  elements := by simp [reparar, unir_posterior]
  max := by simp [reparar, unir_posterior]
  slab := by simp [reparar, unir_posterior]
  current := by simp [reparar, unir_posterior]

theorem partir_eq (hn : d.nodes = some n) (ha : d.allocated n = true) (hne : n ≠ item)
    (hsize : d.slab_min_size ≤ (d.node item).chunk_size - aux)
    (hpool : (d.node n).next ≠ some item) (hself : (d.node item).next ≠ some item) :
    ∃ d', partir d item aux = .ok d' ∧ Partido d item n aux d' := by
  unfold partir
  rw [hn]
  simp only [ha, Bool.true_eq_false, if_false, if_pos hsize]
  have hne' := hne.symm
  refine ⟨_, rfl, ?_, ?_, ?_, ?_, ?_, ?_, ?_, ?_, ?_⟩
  · intro q
    by_cases hq : q = item
    · subst hq; simp [hne']
    · by_cases hq' : q = n
      · subst hq'; simp [hne, hne', apply_ite t_dict_element.next]
      · simp [hq, hq', apply_ite t_dict_element.next]
  · intro q hq hq'
    by_cases hqn : q = n
    · subst hqn
      simp [hne, hne', hq', apply_ite t_dict_element.prev, apply_ite t_dict_element.next]
    · simp [hq, hq', hqn, hne', apply_ite t_dict_element.prev, apply_ite t_dict_element.next]
  · simp [hne', hpool, hself]
  · intro q
    simp only [node_modificar, node_modificar?, t_dict_element.contenido]
    split_ifs <;> simp_all
  all_goals simp

/-- The contents of `b` move to `a`, and `b` becomes the free partition behind it. -/
structure Intercambiado (d : t_diccionario) (a b : Ptr) (dst : Nat) (d' : t_diccionario) :
    Prop where
  igual : ∀ q, q ≠ a → q ≠ b → d'.node q = d.node q
  next : ∀ q, (d'.node q).next = (d.node q).next
  prev : ∀ q, q ≠ b → (d'.node q).prev = (d.node q).prev
  prev_b : (d'.node b).prev = some a
  data_a : (d'.node a).data = (d.node a).data
  chunk_a : (d'.node a).chunk_size = (d.node b).chunk_size
  data_size_a : (d'.node a).data_size = (d.node b).data_size
  ocupado_a : (d'.node a).ocupado = true
  data_b : (d'.node b).data = some (dst + (d.node b).chunk_size)
  chunk_b : (d'.node b).chunk_size = (d.node a).chunk_size
  data_size_b : (d'.node b).data_size = 0
  nodes : d'.nodes = d.nodes
  elements : d'.elements = d.elements
  max : d'.table_max_size = d.table_max_size
  slab : d'.slab_min_size = d.slab_min_size
  current : d'.table_current_size = d.table_current_size

theorem intercambiar_eq {dst src : Nat} (hab : a ≠ b) (ha : (d.node a).data = some dst)
    (hb : (d.node b).data = some src) :
    ∃ d', intercambiar d a b = .ok d' ∧ Intercambiado d a b dst d' := by
  have hab' := hab.symm
  unfold intercambiar
  simp only [node_modificar, if_true, hab', if_false, ha, hb]
  refine ⟨_, rfl, ?_, ?_, ?_, ?_, ?_, ?_, ?_, ?_, ?_, ?_, ?_, ?_, ?_, ?_, ?_, ?_⟩
  · intro q hqa hqb
    simp [modificar, hqa, hqb]
  · intro q
    simp only [node_modificar]
    by_cases hqb : q = b
    · subst hqb
      simp [hab']
    · by_cases hqa : q = a
      · subst hqa
        simp [hqb]
      · simp [hqa, hqb]
  · intro q hqb
    by_cases hqa : q = a
    · subst hqa
      simp [modificar, hqb]
    · simp [modificar, hqa, hqb]
  all_goals simp [modificar, hab, hab', ha]

end Effects

section Steps

variable {d d' : t_diccionario} {a b it item n : Ptr} {l u v ps : List Ptr} {aux : Nat}

theorem int_eq {x : Int} (hx : 0 ≤ x) (hlt : x < 2 ^ 31) : int x = x := by
  unfold int
  rw [Int.bmod_eq_of_le] <;> omega

namespace Particiones

theorem suma_le (h : Particiones d l ps) :
    (l.map (fun p => (d.node p).data_size)).sum ≤ d.table_max_size := by
  have hsum := List.sum_le_sum h.cabe
  have hend := h.tiles.end_eq
  omega

theorem cant_max_congr (hmax : d'.table_max_size = d.table_max_size)
    (hslab : d'.slab_min_size = d.slab_min_size) : d'.cant_max = d.cant_max := by
  simp [cant_max, hmax, hslab]

/-- Changing what `it` holds but neither its place nor its size. -/
theorem tocar (h : Particiones d (u ++ it :: v) ps)
    (hother : ∀ p, p ≠ it → d'.node p = d.node p)
    (hit : (d'.node it).next = (d.node it).next ∧ (d'.node it).prev = (d.node it).prev ∧
      (d'.node it).data = (d.node it).data ∧ (d'.node it).chunk_size = (d.node it).chunk_size)
    (hself : d'.nodes = d.nodes ∧ d'.elements = d.elements ∧
      d'.table_max_size = d.table_max_size ∧ d'.slab_min_size = d.slab_min_size)
    (hcabe : (d'.node it).data_size ≤ (d.node it).chunk_size)
    (huso : enUso (d'.node it) = false → (d'.node it).data_size = 0)
    (hcurrent : ∀ x : Int, 0 ≤ x → x < 2 ^ 31 →
      x = d.table_current_size - (d.node it).data_size + (d'.node it).data_size →
      d'.table_current_size = x) : Particiones d' (u ++ it :: v) ps := by
  obtain ⟨hnext, hprev, hdata, hsize⟩ := hit
  obtain ⟨hnodes, helements, hmax, hslab⟩ := hself
  have hsame : ∀ p, (d'.node p).next = (d.node p).next ∧ (d'.node p).prev = (d.node p).prev ∧
      (d'.node p).data = (d.node p).data ∧ (d'.node p).chunk_size = (d.node p).chunk_size := by
    intro p
    by_cases hp : p = it
    · subst hp
      exact ⟨hnext, hprev, hdata, hsize⟩
    · rw [hother p hp]
      exact ⟨rfl, rfl, rfl, rfl⟩
  have hcant := cant_max_congr hmax hslab
  have hpool := (List.nodup_append'.mp h.listas.nodup).2.2
  obtain ⟨hnot, -⟩ := List.nodup_cons.mp (List.nodup_middle.mp h.listas.dlist.nodup)
  have hcabe' : ∀ p ∈ u ++ it :: v, (d'.node p).data_size ≤ (d'.node p).chunk_size := by
    intro p hp
    rw [(hsame p).2.2.2]
    by_cases hpit : p = it
    · subst hpit
      exact hcabe
    · rw [hother p hpit]
      exact h.cabe p hp
  have htiles : Tiles (fun p => (d'.node p).data) (fun p => (d'.node p).chunk_size) 0
      (u ++ it :: v) d'.table_max_size := by
    rw [hmax]
    exact h.tiles.congr (fun p _ => (hsame p).2.2.1) (fun p _ => (hsame p).2.2.2)
  refine ⟨h.listas.congr (fun p => (hsame p).1) (fun p _ => (hsame p).2.1) hnodes helements hcant,
    htiles, ?_, hcabe', ?_, ?_, ?_, ?_, ?_⟩
  · intro p hp
    rw [hslab, (hsame p).2.2.2]
    exact h.slab p hp
  · intro p hp
    by_cases hpit : p = it
    · subst hpit
      exact huso
    · rw [hother p hpit]
      exact h.vacias p hp
  · intro p hp
    rw [hother p]
    · exact h.libres p hp
    · rintro rfl
      exact hpool (a := p) (by simp) hp
  · have hle : ((u ++ it :: v).map (fun p => (d'.node p).data_size)).sum ≤ d'.table_max_size := by
      have hsum := List.sum_le_sum hcabe'
      have hend := htiles.end_eq
      omega
    have hmap : ∀ w : List Ptr, (∀ p ∈ w, p ∈ u ++ v) →
        w.map (fun p => (d'.node p).data_size) = w.map (fun p => (d.node p).data_size) := by
      intro w hw
      refine List.map_congr_left ?_
      intro p hp
      rw [hother p]
      rintro rfl
      exact hnot (hw p hp)
    have htotal := h.total
    have hlt := h.max_lt
    rw [List.map_append, List.map_cons, List.sum_append, List.sum_cons] at htotal hle ⊢
    rw [hmap u (fun p hp => by simp [hp]), hmap v (fun p hp => by simp [hp])] at hle ⊢
    refine hcurrent _ (by omega) (by omega) ?_
    push_cast at htotal ⊢
    omega
  · rw [hslab]
    exact h.slab_pos
  · rw [hmax]
    exact h.max_lt

end Particiones

/-- What the nodes of the list have in common with those at hand. -/
theorem Listas.places (h : Listas d (u ++ a :: b :: v) ps) : a ≠ b ∧ a ∉ u ∧ b ∉ u ∧ a ∉ v ∧ b ∉ v ∧
    (d.node a).next = some b ∧ (d.node b).next = v.head? ∧ (d.node b).prev = some a ∧
    (∀ q ∈ u ++ a :: b :: v, d.nodes ≠ some q) ∧ (∀ q ∈ u ++ a :: b :: v, q ∉ ps) := by
  have hnodup := h.dlist.nodup
  rw [List.nodup_append, List.nodup_cons, List.nodup_cons] at hnodup
  obtain ⟨-, ⟨ha, hb, -⟩, hdisj⟩ := hnodup
  have hpool := (List.nodup_append'.mp h.nodup).2.2
  have hb' : DList (fun p => (d.node p).next) (fun p => (d.node p).prev)
      ((u ++ [a]) ++ b :: v) := by
    simpa using h.dlist
  refine ⟨fun hab => ha (by simp [hab]), fun hu => hdisj a hu a (by simp) rfl,
    fun hu => hdisj b hu b (by simp) rfl, fun hv => ha (by simp [hv]), hb, h.dlist.next_eq,
    hb'.next_eq, by simpa using hb'.prev_eq, ?_, fun q hq => hpool hq⟩
  intro q hq
  rw [h.top]
  exact Listas.unused_ne (v := []) h (by simpa using hq)

/-- One node of the list may be absorbed by the one before it. -/
theorem Listas.absorber (h : Listas d (u ++ a :: b :: v) ps) (he : Absorbido d a b d') :
    Listas d' (u ++ a :: v) (b :: ps) := by
  obtain ⟨hab, -, hbu, -, hbv, -, -, hprevb, htop, hpool⟩ := h.places
  have hl : Listas d ((u ++ [a]) ++ b :: v) ps := by simpa using h
  have hne : ∀ q ∈ u ++ [a] ++ v, q ≠ b ∧ q ∈ u ++ a :: b :: v := by
    intro q hq
    simp only [List.mem_append, List.mem_cons, List.not_mem_nil, or_false] at hq ⊢
    refine ⟨?_, by tauto⟩
    rintro rfl
    rcases hq with (hq | rfl) | hq
    · exact hbu hq
    · exact hab rfl
    · exact hbv hq
  have hquit : Listas d' ((u ++ [a]) ++ v) (b :: ps) := by
    refine hl.quitar (Particiones.cant_max_congr he.max he.slab) ?_ ?_ ?_ he.nodes ?_ ?_
    · intro q hq
      rw [he.next, if_neg (hne q hq).1, hprevb]
      by_cases hqa : q = a
      · simp [hqa]
      · simp [hqa, Ne.symm hqa]
    · intro q hq
      rw [he.prev q (hne q hq).1 (htop q (hne q hq).2), hprevb]
    · rw [he.elements, h.head]
      cases u <;> simp
    · rw [he.next, if_pos rfl]
    · intro q hq
      rw [he.next]
      rcases List.mem_append.mp hq with hq | hq
      · have hqb : q ≠ b := by rintro rfl; exact hpool q (by simp) hq
        have hqa : q ≠ a := by rintro rfl; exact hpool q (by simp) hq
        rw [if_neg hqb, if_neg hqa]
      · obtain rfl := List.mem_singleton.mp hq
        have hnot := hl.last_slot_not_mem_left
        rw [if_neg (by rintro hqb; exact hnot (by simp [hqb])),
          if_neg (by rintro hqa; exact hnot (by simp [hqa]))]
  simpa using hquit

/-- A node of the list gives the rest of it to the first unused node. -/
theorem Listas.repartir (h : Listas d (u ++ item :: v) (n :: ps)) (he : Partido d item n aux d') :
    Listas d' (u ++ item :: n :: v) ps := by
  have hpool := (List.nodup_append'.mp h.nodup).2.2
  have hps := (List.nodup_cons.mp (List.nodup_append'.mp h.nodup).2.1).1
  obtain ⟨hnot, -⟩ := List.nodup_cons.mp (List.nodup_middle.mp h.dlist.nodup)
  have hn : n ∉ u ++ item :: v := fun hmem => hpool hmem (by simp)
  have hne : n ≠ item := by rintro rfl; simp at hn
  have hunused : ∀ q ∈ (u ++ item :: v) ++ [n], (d.node n).next ≠ some q := by
    intro q hq
    have hnext : (d.node n).next = (ps ++ [d.last_slot]).head? := by
      simpa using h.pool.1
    rw [hnext]
    exact Listas.unused_ne (v := [n]) h hq
  refine h.tomar (Particiones.cant_max_congr he.max he.slab) ?_ ?_ ?_ ?_ he.elements he.nodes ?_
  · intro q hq
    have hqn : q ≠ n := by rintro rfl; exact hn hq
    rw [he.next]
    simp only [if_neg hqn]
  · rw [he.next, if_neg hne, if_pos rfl]
  · intro q hq
    have hqn : q ≠ n := by rintro rfl; exact hn hq
    by_cases hqi : q = item
    · rw [hqi, he.prev_item, h.dlist.next_eq, if_neg]
      intro hv
      exact hnot (List.mem_append_right u (List.mem_of_head? hv))
    · rw [he.prev q hqi (hunused q (List.mem_append_left [n] hq))]
      simp only [if_neg hqn]
  · have hnext : (d.node item).next ≠ some n := by
      rw [h.dlist.next_eq]
      intro hv
      have := List.mem_of_head? hv
      exact hn (by simp [this])
    rw [he.prev n hne (hunused n (by simp)), if_neg hnext, if_pos rfl]
  · intro q hq
    rw [he.next]
    rcases List.mem_append.mp hq with hq | hq
    · rw [if_neg (by rintro rfl; exact hpool (a := q) (by simp) (by simp [hq])),
        if_neg (by rintro rfl; exact hps hq)]
    · obtain rfl := List.mem_singleton.mp hq
      have hlast := h.last_slot_not_mem_left
      rw [if_neg (by intro hqi; exact hlast (by simp [hqi])),
        if_neg (by intro hqn; exact hlast (by simp [hqn]))]

namespace Particiones

theorem places (h : Particiones d (u ++ a :: b :: v) ps) : a ≠ b ∧ a ∉ u ∧ b ∉ u ∧ a ∉ v ∧ b ∉ v ∧
    (d.node a).next = some b ∧ (d.node b).next = v.head? ∧ (d.node b).prev = some a ∧
    (∀ q ∈ u ++ a :: b :: v, d.nodes ≠ some q) ∧ (∀ q ∈ u ++ a :: b :: v, q ∉ ps) :=
  h.listas.places

/-- A partition without data may be absorbed by the one before it. -/
theorem absorber (h : Particiones d (u ++ a :: b :: v) ps) (hb : (d.node b).data_size = 0)
    (he : Absorbido d a b d') : Particiones d' (u ++ a :: v) (b :: ps) := by
  obtain ⟨hab, hau, hbu, hav, hbv, -, -, -, -, hpool⟩ := h.places
  have hrest : ∀ q ∈ u ++ v, q ≠ a ∧ q ≠ b := by
    intro q hq
    refine ⟨?_, ?_⟩
    · rintro rfl
      exact (List.mem_append.mp hq).elim hau hav
    · rintro rfl
      exact (List.mem_append.mp hq).elim hbu hbv
  have hfield : ∀ {β : Type} (f : t_dict_element → β), (∀ e, f e.contenido = f e) →
      ∀ q ∈ u ++ v, f (d'.node q) = f (d.node q) :=
    fun f hf q hq => he.igual f hf (hrest q hq).1 (hrest q hq).2
  have hmem : ∀ q ∈ u ++ a :: v, q ≠ a → q ∈ u ++ v ∧ q ∈ u ++ a :: b :: v := by
    intro q hq hqa
    simp only [List.mem_append, List.mem_cons] at hq ⊢
    tauto
  have hslab := h.slab
  have hcabe := h.cabe
  refine ⟨h.listas.absorber he, ?_, ?_, ?_, ?_, ?_, ?_, ?_, ?_⟩
  · rw [he.max]
    obtain ⟨m, hu, ha, hb, hv⟩ := tiles_append.mp h.tiles
    refine tiles_append.mpr ⟨m, hu.congr ?_ ?_, he.data_absorbente.trans ha, ?_⟩
    · exact fun q hq => hfield t_dict_element.data (fun _ => rfl) q (by simp [hq])
    · exact fun q hq => hfield t_dict_element.chunk_size (fun _ => rfl) q (by simp [hq])
    · simp only [he.chunk_absorbente, ← Nat.add_assoc]
      refine hv.congr ?_ ?_
      · exact fun q hq => hfield t_dict_element.data (fun _ => rfl) q (by simp [hq])
      · exact fun q hq => hfield t_dict_element.chunk_size (fun _ => rfl) q (by simp [hq])
  · intro q hq
    rw [he.slab]
    by_cases hqa : q = a
    · have := hslab a (by simp)
      rw [hqa, he.chunk_absorbente]
      omega
    · rw [hfield t_dict_element.chunk_size (fun _ => rfl) q (hmem q hq hqa).1]
      exact hslab q (hmem q hq hqa).2
  · intro q hq
    by_cases hqa : q = a
    · have := hcabe a (by simp)
      rw [hqa, he.data_size_absorbente, he.chunk_absorbente]
      omega
    · rw [hfield t_dict_element.data_size (fun _ => rfl) q (hmem q hq hqa).1,
        hfield t_dict_element.chunk_size (fun _ => rfl) q (hmem q hq hqa).1]
      exact hcabe q (hmem q hq hqa).2
  · intro q hq
    by_cases hqa : q = a
    · rw [hqa, he.uso_absorbente, he.data_size_absorbente]
      exact h.vacias a (by simp)
    · rw [hfield enUso (fun _ => rfl) q (hmem q hq hqa).1,
        hfield t_dict_element.data_size (fun _ => rfl) q (hmem q hq hqa).1]
      exact h.vacias q (hmem q hq hqa).2
  · intro q hq
    rcases List.mem_cons.mp hq with rfl | hps
    · exact ⟨he.chunk_absorbido hab, (he.data_size_absorbido hab).trans hb⟩
    · have hqa : q ≠ a := by rintro rfl; exact hpool q (by simp) hps
      have hqb : q ≠ b := by rintro rfl; exact hpool q (by simp) hps
      rw [he.igual t_dict_element.chunk_size (fun _ => rfl) hqa hqb,
        he.igual t_dict_element.data_size (fun _ => rfl) hqa hqb]
      exact h.libres q hps
  · have hmap : ∀ w : List Ptr, (∀ q ∈ w, q ∈ u ++ v) →
        w.map (fun q => (d'.node q).data_size) = w.map (fun q => (d.node q).data_size) :=
      fun w hw => List.map_congr_left (fun q hq =>
        hfield t_dict_element.data_size (fun _ => rfl) q (hw q hq))
    rw [he.current, h.total]
    simp only [List.map_append, List.map_cons, hmap u (fun q hq => by simp [hq]),
      hmap v (fun q hq => by simp [hq]), he.data_size_absorbente, hb, List.sum_append,
      List.sum_cons, Nat.zero_add]
  · rw [he.slab]
    exact h.slab_pos
  · rw [he.max]
    exact h.max_lt

/-- A partition without data may give the rest of it to an unused node. -/
theorem partir (h : Particiones d (u ++ item :: v) (n :: ps)) (hempty : (d.node item).data_size = 0)
    (haux : d.slab_min_size ≤ aux) (hsize : d.slab_min_size ≤ (d.node item).chunk_size - aux)
    (he : Partido d item n aux d') : Particiones d' (u ++ item :: n :: v) ps := by
  have hpool := (List.nodup_append'.mp h.listas.nodup).2.2
  have hps := (List.nodup_cons.mp (List.nodup_append'.mp h.listas.nodup).2.1).1
  obtain ⟨hnot, -⟩ := List.nodup_cons.mp (List.nodup_middle.mp h.listas.dlist.nodup)
  have hn : n ∉ u ++ item :: v := fun hmem => hpool hmem (by simp)
  have hne : n ≠ item := by rintro rfl; simp at hn
  have hslab_pos := h.slab_pos
  have hrest : ∀ q ∈ u ++ v, q ≠ item ∧ q ≠ n := by
    intro q hq
    refine ⟨by rintro rfl; exact hnot hq, ?_⟩
    rintro rfl
    simp only [List.mem_append, List.mem_cons] at hq hn
    tauto
  have hfield : ∀ {β : Type} (f : t_dict_element → β), (∀ e, f e.contenido = f e) →
      ∀ q ∈ u ++ v, f (d'.node q) = f (d.node q) :=
    fun f hf q hq => he.igual f hf (hrest q hq).1 (hrest q hq).2
  have hcases : ∀ q ∈ u ++ item :: n :: v, q = item ∨ q = n ∨ q ∈ u ++ v := by
    intro q hq
    simp only [List.mem_append, List.mem_cons] at hq ⊢
    tauto
  have hkeep : ∀ q ∈ u ++ v, q ∈ u ++ item :: v := by
    intro q hq
    simp only [List.mem_append, List.mem_cons] at hq ⊢
    tauto
  obtain ⟨hlibre, hvacio⟩ := h.libres n (by simp)
  have hci := he.de_item
  have hcn := he.de_nuevo hne
  have hsi : (d'.node item).chunk_size = aux := (congrArg t_dict_element.chunk_size hci :)
  have hzi : (d'.node item).data_size = 0 := (congrArg t_dict_element.data_size hci :).trans hempty
  have hzn : (d'.node n).data_size = 0 := (congrArg t_dict_element.data_size hcn :).trans hvacio
  have hsn : (d'.node n).chunk_size = (d.node item).chunk_size - aux := by
    have hsum : (d'.node n).chunk_size =
      (d.node n).chunk_size + ((d.node item).chunk_size - aux) :=
        (congrArg t_dict_element.chunk_size hcn :)
    rw [hsum, hlibre, Nat.zero_add]
  refine ⟨?_, ?_, ?_, ?_, ?_, ?_, ?_, ?_, ?_⟩
  · exact h.listas.repartir he
  · rw [he.max]
    refine h.tiles.divide (hfield t_dict_element.data fun _ => rfl)
      (hfield t_dict_element.chunk_size fun _ => rfl) (congrArg t_dict_element.data hci :) ?_ ?_
    · have hdata : (d'.node n).data = (d.node item).data.map (· + aux) :=
        (congrArg t_dict_element.data hcn :)
      rw [hdata, hsi]
    · rw [hsi, hsn]
      omega
  · intro q hq
    rw [he.slab]
    rcases hcases q hq with rfl | rfl | hq
    · rw [hsi]
      exact haux
    · rw [hsn]
      exact hsize
    · rw [hfield t_dict_element.chunk_size (fun _ => rfl) q hq]
      exact h.slab q (hkeep q hq)
  · intro q hq
    rcases hcases q hq with rfl | rfl | hq
    · rw [hzi]
      exact Nat.zero_le _
    · rw [hzn]
      exact Nat.zero_le _
    · rw [hfield t_dict_element.data_size (fun _ => rfl) q hq,
        hfield t_dict_element.chunk_size (fun _ => rfl) q hq]
      exact h.cabe q (hkeep q hq)
  · intro q hq
    rcases hcases q hq with rfl | rfl | hq
    · exact fun _ => hzi
    · exact fun _ => hzn
    · rw [hfield enUso (fun _ => rfl) q hq, hfield t_dict_element.data_size (fun _ => rfl) q hq]
      exact h.vacias q (hkeep q hq)
  · intro q hq
    have hqi : q ≠ item := by rintro rfl; exact hpool (a := q) (by simp) (by simp [hq])
    have hqn : q ≠ n := by rintro rfl; exact hps hq
    rw [he.igual t_dict_element.chunk_size (fun _ => rfl) hqi hqn,
      he.igual t_dict_element.data_size (fun _ => rfl) hqi hqn]
    exact h.libres q (by simp [hq])
  · have hmap : ∀ w : List Ptr, (∀ q ∈ w, q ∈ u ++ v) →
        w.map (fun q => (d'.node q).data_size) = w.map (fun q => (d.node q).data_size) :=
      fun w hw => List.map_congr_left (fun q hq =>
        hfield t_dict_element.data_size (fun _ => rfl) q (hw q hq))
    rw [he.current, h.total]
    simp only [List.map_append, List.map_cons, hmap u (fun q hq => by simp [hq]),
      hmap v (fun q hq => by simp [hq]), hzi, hzn, hempty, List.sum_append, List.sum_cons,
      Nat.zero_add]
  · rw [he.slab]
    exact h.slab_pos
  · rw [he.max]
    exact h.max_lt

/-- A partition without data may exchange places with the next one. -/
theorem intercambiar (h : Particiones d (u ++ a :: b :: v) ps) (hempty : (d.node a).data_size = 0)
    {dst : Nat} (hdst : (d.node a).data = some dst) (he : Intercambiado d a b dst d') :
    Particiones d' (u ++ a :: b :: v) ps := by
  obtain ⟨hab, hau, hbu, hav, hbv, -, -, hprevb, -, hpool⟩ := h.places
  have hrest : ∀ q ∈ u ++ v, d'.node q = d.node q := by
    intro q hq
    refine he.igual q ?_ ?_
    · rintro rfl
      exact (List.mem_append.mp hq).elim hau hav
    · rintro rfl
      exact (List.mem_append.mp hq).elim hbu hbv
  have hcases : ∀ q ∈ u ++ a :: b :: v, q = a ∨ q = b ∨ q ∈ u ++ v := by
    intro q hq
    simp only [List.mem_append, List.mem_cons] at hq ⊢
    tauto
  have hkeep : ∀ q ∈ u ++ v, q ∈ u ++ a :: b :: v := by
    intro q hq
    simp only [List.mem_append, List.mem_cons] at hq ⊢
    tauto
  refine ⟨h.listas.congr he.next ?_ he.nodes he.elements (cant_max_congr he.max he.slab),
    ?_, ?_, ?_, ?_, ?_, ?_, ?_, ?_⟩
  · intro q hq
    by_cases hqb : q = b
    · rw [hqb, he.prev_b, hprevb]
    · exact he.prev q hqb
  · rw [he.max]
    obtain ⟨m, hu, ha, hb, hv⟩ := tiles_append.mp h.tiles
    have hdata : (d'.node b).data = some (m + (d.node b).chunk_size) := by
      simp only [hdst, Option.some.injEq] at ha
      rw [he.data_b, ha]
    have hend : m + (d.node b).chunk_size + (d.node a).chunk_size =
        m + (d.node a).chunk_size + (d.node b).chunk_size := by
      omega
    refine tiles_append.mpr ⟨m, hu.congr ?_ ?_, he.data_a.trans ha, ?_, ?_⟩
    · exact fun q hq => by rw [hrest q (by simp [hq])]
    · exact fun q hq => by rw [hrest q (by simp [hq])]
    · simp only [he.chunk_a, hdata]
    · simp only [he.chunk_a, he.chunk_b, hend]
      refine hv.congr ?_ ?_
      · exact fun q hq => by rw [hrest q (by simp [hq])]
      · exact fun q hq => by rw [hrest q (by simp [hq])]
  · intro q hq
    rw [he.slab]
    rcases hcases q hq with rfl | rfl | hq
    · rw [he.chunk_a]
      exact h.slab b (by simp)
    · rw [he.chunk_b]
      exact h.slab a (by simp)
    · rw [hrest q hq]
      exact h.slab q (hkeep q hq)
  · intro q hq
    rcases hcases q hq with rfl | rfl | hq
    · rw [he.data_size_a, he.chunk_a]
      exact h.cabe b (by simp)
    · rw [he.data_size_b]
      exact Nat.zero_le _
    · rw [hrest q hq]
      exact h.cabe q (hkeep q hq)
  · intro q hq
    rcases hcases q hq with rfl | rfl | hq
    · intro huso
      exact absurd huso (by simp [he.ocupado_a])
    · exact fun _ => he.data_size_b
    · rw [hrest q hq]
      exact h.vacias q (hkeep q hq)
  · intro q hq
    rw [he.igual q (by rintro rfl; exact hpool q (by simp) hq)
      (by rintro rfl; exact hpool q (by simp) hq)]
    exact h.libres q hq
  · have hmap : ∀ w : List Ptr, (∀ q ∈ w, q ∈ u ++ v) →
        w.map (fun q => (d'.node q).data_size) = w.map (fun q => (d.node q).data_size) :=
      fun w hw => List.map_congr_left (fun q hq => by rw [hrest q (hw q hq)])
    rw [he.current, h.total]
    simp only [List.map_append, List.map_cons, hmap u (fun q hq => by simp [hq]),
      hmap v (fun q hq => by simp [hq]), he.data_size_a, he.data_size_b, hempty, List.sum_append,
      List.sum_cons, Nat.zero_add]
  · rw [he.slab]
    exact h.slab_pos
  · rw [he.max]
    exact h.max_lt

theorem limpiar (h : Particiones d (u ++ it :: v) ps) :
    Particiones (d.limpiar it) (u ++ it :: v) ps := by
  refine h.tocar ?_ ?_ ⟨rfl, rfl, rfl, rfl⟩ ?_ ?_ ?_
  · intro p hp
    simp [t_diccionario.limpiar, hp]
  · simp [t_diccionario.limpiar]
  · simp [t_diccionario.limpiar]
  · simp [t_diccionario.limpiar]
  · intro x hx hlt hxd
    have hcurrent : (d.limpiar it).table_current_size =
        int (d.table_current_size - (d.node it).data_size) := rfl
    have hzero : ((d.limpiar it).node it).data_size = 0 := by simp [t_diccionario.limpiar]
    rw [hzero] at hxd
    rw [hcurrent, ← int_eq hx hlt, hxd]
    simp

end Particiones

end Steps

section Eliminar

variable {d d' : t_diccionario} {it : Ptr} {l w r s t v ps : List Ptr}

/-- `it` between the unoccupied partitions `r` before and `s` behind it. -/
structure Vecinas (d : t_diccionario) (w r : List Ptr) (it : Ptr) (s t ps : List Ptr) : Prop where
  listas : Listas d (w ++ (r ++ it :: (s ++ t))) ps
  antes : ∀ p ∈ w.getLast?, (d.node p).ocupado = true
  anteriores : ∀ p ∈ r, (d.node p).ocupado = false
  posteriores : ∀ p ∈ s, (d.node p).ocupado = false
  despues : ∀ p ∈ t.head?, (d.node p).ocupado = true

/-- Absorbing its neighbours loses no data, and those behind it are the last ones. -/
def Segura (d : t_diccionario) (it : Ptr) : Prop :=
  ∃ w r s t ps, Vecinas d w r it s t ps ∧ (∀ p ∈ r.tail, (d.node p).data_size = 0) ∧
    (∀ p ∈ s, (d.node p).data_size = 0) ∧ (s = [] ∨ t = [])

/-- Clearing `it` is nothing to the others. -/
theorem Vecinas.otros (hv : Vecinas d w r it s t ps) :
    ∀ p ∈ (w ++ r) ++ (s ++ t), (d.limpiar it).node p = d.node p := by
  have hnodup := hv.listas.dlist.nodup
  rw [← List.append_assoc] at hnodup
  obtain ⟨hnot, -⟩ := List.nodup_cons.mp (List.nodup_middle.mp hnodup)
  intro p hp
  have hne : p ≠ it := by rintro rfl; exact hnot hp
  simp [t_diccionario.limpiar, hne]

/-- The state of the first loop, with `r` still to be absorbed. -/
structure Retroceso (d₀ : t_diccionario) (w r : List Ptr) (it : Ptr) (v : List Ptr)
    (d : t_diccionario) : Prop where
  particiones : ∃ ps, Particiones d (w ++ (r ++ it :: v)) ps
  antes : ∀ p ∈ w.getLast?, (d.node p).ocupado = true
  libres : ∀ p ∈ r, (d.node p).ocupado = false
  vacias : ∀ p ∈ r.tail, (d.node p).data_size = 0
  propia : r ≠ [] → (d.node it).data_size = 0
  resto : ∀ p ∈ v, (d.node p).contenido = (d₀.node p).contenido
  max : d.table_max_size = d₀.table_max_size
  slab : d.slab_min_size = d₀.slab_min_size

theorem unir_anteriores_cases {d₀ : t_diccionario} (h : Retroceso d₀ w r it v d) :
    (r = [] ∧ unir_anteriores (d, it) = .ok (.inr (d, it))) ∨
    ∃ r' a d', r = r' ++ [a] ∧ unir_anteriores (d, it) = .ok (.inl (d', a)) ∧
      Retroceso d₀ w r' a v d' := by
  obtain ⟨ps, hp⟩ := h.particiones
  unfold unir_anteriores
  rcases List.eq_nil_or_concat r with rfl | ⟨r', a, rfl⟩
  · left
    have hprev : (d.node it).prev = w.getLast? := by
      have := DList.prev_eq (u := w) (p := it) (v := v) hp.listas.dlist
      exact this
    refine ⟨rfl, ?_⟩
    simp only [hprev]
    cases hlast : w.getLast? with
    | none => rfl
    | some p => simp [h.antes p hlast]
  · right
    rw [List.concat_eq_append] at *
    have hp' : Particiones d ((w ++ r') ++ a :: it :: v) ps := by simpa using hp
    obtain ⟨hne, har, hir, hav, hiv, -, -, hprev, -⟩ := hp'.places
    have he := unir_anterior_eq (d := d) hne
    have hzero := h.propia (by simp)
    have hother : ∀ p ∈ (w ++ r') ++ v, p ≠ a ∧ p ≠ it := by
      intro p hmem
      refine ⟨?_, ?_⟩
      · rintro rfl
        exact (List.mem_append.mp hmem).elim har hav
      · rintro rfl
        exact (List.mem_append.mp hmem).elim hir hiv
    have hfield : ∀ {β : Type} (f : t_dict_element → β), (∀ e, f e.contenido = f e) →
        ∀ q ∈ (w ++ r') ++ v, f ((unir_anterior d it a).node q) = f (d.node q) :=
      fun f hf q hq => he.igual f hf (hother q hq).1 (hother q hq).2
    refine ⟨r', a, unir_anterior d it a, rfl, ?_, ?_, ?_, ?_, ?_, ?_, ?_, ?_, ?_⟩
    · simp [hprev, h.libres a (by simp)]
    · exact ⟨_, by simpa using hp'.absorber hzero he⟩
    · intro p hlast
      rw [hfield t_dict_element.ocupado (fun _ => rfl) p
        (by simp [List.mem_of_getLast? hlast])]
      exact h.antes p hlast
    · intro p hr
      rw [hfield t_dict_element.ocupado (fun _ => rfl) p (by simp [hr])]
      exact h.libres p (by simp [hr])
    · intro p hr
      have hmem := List.mem_of_mem_tail hr
      rw [hfield t_dict_element.data_size (fun _ => rfl) p (by simp [hmem])]
      cases r' with
      | nil => simp at hr
      | cons b r' => exact h.vacias p (by simp at hr ⊢; exact Or.inl hr)
    · intro hr
      rw [he.data_size_absorbente]
      cases r' with
      | nil => exact absurd rfl hr
      | cons b r' => exact h.vacias a (by simp)
    · intro p hv
      rw [hfield t_dict_element.contenido (fun _ => rfl) p (by simp [hv])]
      exact h.resto p hv
    · exact he.max.trans h.max
    · exact he.slab.trans h.slab

theorem unir_anteriores_loop {d₀ : t_diccionario} (h : Retroceso d₀ w r it v d) :
    ∃ d' it', loop .no_termina unir_anteriores d.turns (d, it) = .ok (d', it') ∧
      Retroceso d₀ w [] it' v d' := by
  obtain ⟨ps, hp⟩ := h.particiones
  have hlen := hp.listas.length_lt_turns
  refine loop_bound
    (I := fun k s => ∃ r, r.length = k ∧ Retroceso d₀ w r s.2 v s.1)
    (R := fun x => ∃ d' it', x = .ok (d', it') ∧ Retroceso d₀ w [] it' v d')
    ?_ ?_ ?_ _ r.length _ ⟨r, rfl, h⟩ ?_
  · rintro k ⟨e, i⟩ f ⟨r, -, hr⟩ herror
    rcases unir_anteriores_cases hr with ⟨-, hok⟩ | ⟨r', a, e', -, hok, -⟩
    · rw [herror] at hok
      exact absurd hok (by simp)
    · rw [herror] at hok
      exact absurd hok (by simp)
  · rintro k ⟨e, i⟩ x ⟨r, rfl, hr⟩ hturn
    rcases unir_anteriores_cases hr with ⟨-, hok⟩ | ⟨r', a, e', rfl, hok, hr'⟩
    · rw [hturn] at hok
      exact absurd hok (by simp)
    · rw [hturn] at hok
      obtain rfl : x = (e', a) := by simpa using hok
      exact ⟨r'.length, by simp, r', rfl, hr'⟩
  · rintro k ⟨e, i⟩ x ⟨r, -, hr⟩ hturn
    rcases unir_anteriores_cases hr with ⟨rfl, hok⟩ | ⟨r', a, e', -, hok, -⟩
    · rw [hturn] at hok
      obtain rfl : x = (e, i) := by simpa using hok
      exact ⟨e, i, rfl, hr⟩
    · rw [hturn] at hok
      exact absurd hok (by simp)
  · simp only [List.length_append, List.length_cons] at hlen
    omega

theorem nodes_reparar : (reparar d it).nodes = d.nodes := by simp [reparar]
theorem next_reparar {q : Ptr} : ((reparar d it).node q).next = (d.node q).next := by
  simp only [reparar, node_modificar?]
  split_ifs <;> rfl

theorem contenido_reparar {q : Ptr} :
    ((reparar d it).node q).contenido = (d.node q).contenido := by
  simp only [reparar, node_modificar?]
  split_ifs <;> rfl

/-- Nothing is to be restored behind the last partition, nor in a well formed list. -/
theorem reparar_eq (h : ∀ q, (d.node it).next = some q → (d.node q).prev = some it) :
    reparar d it = d := by
  unfold reparar
  cases hnext : (d.node it).next with
  | none => rfl
  | some q =>
    have hprev := h q hnext
    simp only [modificar?]
    refine modificar_eq_self ?_
    rw [← hprev]

/-- The state of the second loop, with `s` still to be absorbed. -/
structure Avance (d₀ : t_diccionario) (w : List Ptr) (it : Ptr) (s t : List Ptr)
    (d : t_diccionario) : Prop where
  particiones : ∃ ps, Particiones (reparar d it) (w ++ it :: (s ++ t)) ps
  libres : ∀ p ∈ s, (d.node p).ocupado = false
  vacias : ∀ p ∈ s, (d.node p).data_size = 0
  despues : ∀ p ∈ t.head?, (d.node p).ocupado = true
  restaurada : t = [] ∨ s = [] ∧ reparar d it = d
  max : d.table_max_size = d₀.table_max_size
  slab : d.slab_min_size = d₀.slab_min_size

theorem Avance.next {d₀ : t_diccionario} (h : Avance d₀ w it s t d) :
    (d.node it).next = (s ++ t).head? := by
  obtain ⟨ps, hp⟩ := h.particiones
  rw [← next_reparar]
  exact hp.listas.dlist.next_eq

theorem unir_posteriores_cases {d₀ : t_diccionario} (h : Avance d₀ w it s t d) :
    (s = [] ∧ unir_posteriores it d = .ok (.inr d)) ∨
    ∃ b s' d', s = b :: s' ∧ unir_posteriores it d = .ok (.inl d') ∧ Avance d₀ w it s' t d' := by
  have hnext := h.next
  unfold unir_posteriores
  cases s with
  | nil =>
    refine Or.inl ⟨rfl, ?_⟩
    rw [hnext, List.nil_append]
    cases ht : t.head? with
    | none => rfl
    | some p => simp [h.despues p ht]
  | cons b s' =>
    right
    obtain ⟨ps, hp⟩ := h.particiones
    obtain ⟨hne, hiw, hbw, his, hbs, -⟩ := hp.places
    have hnext' : (d.node it).next = some b := by simpa using hnext
    have he := unir_posterior_eq hne hnext'
    have hzero : ((reparar d it).node b).data_size = 0 :=
      (congrArg t_dict_element.data_size
        (contenido_reparar : ((reparar d it).node b).contenido = _) :).trans
        (h.vacias b (by simp))
    have hfield : ∀ {β : Type} (f : t_dict_element → β), (∀ e, f e.contenido = f e) →
        ∀ q ∈ s' ++ t, f ((unir_posterior d it b).node q) = f (d.node q) := by
      intro β f hf q hq
      have hqi : q ≠ it := by rintro rfl; exact his hq
      have hqb : q ≠ b := by rintro rfl; exact hbs hq
      have hsame := he.igual f hf hqi hqb
      rwa [← hf, contenido_reparar, hf, ← hf ((reparar d it).node q), contenido_reparar, hf]
        at hsame
    refine ⟨b, s', unir_posterior d it b, rfl, ?_, ⟨_, hp.absorber hzero he⟩, ?_, ?_, ?_, ?_,
      ?_, ?_⟩
    · simp [hnext', h.libres b (by simp)]
    · intro p hs
      rw [hfield t_dict_element.ocupado (fun _ => rfl) p (by simp [hs])]
      exact h.libres p (by simp [hs])
    · intro p hs
      rw [hfield t_dict_element.data_size (fun _ => rfl) p (by simp [hs])]
      exact h.vacias p (by simp [hs])
    · intro p ht
      rw [hfield t_dict_element.ocupado (fun _ => rfl) p (by simp [List.mem_of_head? ht])]
      exact h.despues p ht
    · rcases h.restaurada with ht | ⟨hs, -⟩
      · exact Or.inl ht
      · exact absurd hs (by simp)
    · refine Eq.trans ?_ h.max
      simp [unir_posterior]
    · refine Eq.trans ?_ h.slab
      simp [unir_posterior]

theorem unir_posteriores_loop {d₀ : t_diccionario} (h : Avance d₀ w it s t d) :
    ∃ d' ps, loop .no_termina (unir_posteriores it) d.turns d = .ok d' ∧
      Particiones d' (w ++ it :: t) ps ∧ d'.table_max_size = d₀.table_max_size ∧
      d'.slab_min_size = d₀.slab_min_size := by
  obtain ⟨ps, hp⟩ := h.particiones
  have hlen := hp.listas.length_lt_turns
  have hturns : (reparar d it).turns = d.turns := by simp [turns, reparar]
  refine loop_bound
    (I := fun k e => ∃ s, s.length = k ∧ Avance d₀ w it s t e)
    (R := fun x => ∃ d' ps, x = .ok d' ∧ Particiones d' (w ++ it :: t) ps ∧
      d'.table_max_size = d₀.table_max_size ∧ d'.slab_min_size = d₀.slab_min_size)
    ?_ ?_ ?_ _ s.length _ ⟨s, rfl, h⟩ ?_
  · rintro k e f ⟨s, -, hs⟩ herror
    rcases unir_posteriores_cases hs with ⟨-, hok⟩ | ⟨b, s', e', -, hok, -⟩
    · rw [herror] at hok
      exact absurd hok (by simp)
    · rw [herror] at hok
      exact absurd hok (by simp)
  · rintro k e x ⟨s, rfl, hs⟩ hturn
    rcases unir_posteriores_cases hs with ⟨-, hok⟩ | ⟨b, s', e', rfl, hok, hs'⟩
    · rw [hturn] at hok
      exact absurd hok (by simp)
    · rw [hturn] at hok
      obtain rfl : x = e' := by simpa using hok
      exact ⟨s'.length, by simp, s', rfl, hs'⟩
  · rintro k e x ⟨s, -, hs⟩ hturn
    rcases unir_posteriores_cases hs with ⟨rfl, hok⟩ | ⟨b, s', e', -, hok, -⟩
    · rw [hturn] at hok
      obtain rfl : x = e := by simpa using hok
      obtain ⟨ps', hp'⟩ := hs.particiones
      have hrest : reparar x it = x := by
        rcases hs.restaurada with rfl | ⟨-, hrest⟩
        · refine reparar_eq ?_
          intro q hq
          rw [hs.next] at hq
          simp at hq
        · exact hrest
      rw [hrest] at hp'
      exact ⟨x, ps', rfl, hp', hs.max, hs.slab⟩
    · rw [hturn] at hok
      exact absurd hok (by simp)
  · simp only [List.length_append, List.length_cons] at hlen
    omega

/-- The first loop starts with the partition cleared. -/
theorem Vecinas.retroceso {qs : List Ptr} (hv : Vecinas d w r it s t ps)
    (h : Particiones d (w ++ (r ++ it :: (s ++ t))) qs)
    (hr : ∀ p ∈ r.tail, (d.node p).data_size = 0) :
    Retroceso (d.limpiar it) w r it (s ++ t) (d.limpiar it) := by
  have hl : Particiones (d.limpiar it) ((w ++ r) ++ it :: (s ++ t)) qs :=
    Particiones.limpiar (by simpa using h)
  refine ⟨⟨qs, by simpa using hl⟩, ?_, ?_, ?_, ?_, fun _ _ => rfl, rfl, rfl⟩
  · intro p hp
    rw [hv.otros p (by simp [List.mem_of_getLast? hp])]
    exact hv.antes p hp
  · intro p hp
    rw [hv.otros p (by simp [hp])]
    exact hv.anteriores p hp
  · intro p hp
    rw [hv.otros p (by simp [List.mem_of_mem_tail hp])]
    exact hr p hp
  · intro _
    simp [t_diccionario.limpiar]

/-- The second loop starts where the first one stops. -/
theorem Retroceso.avance {it₁ : Ptr} (hv : Vecinas d w r it s t ps)
    (hback : Retroceso (d.limpiar it) w [] it₁ (s ++ t) d')
    (hs : ∀ p ∈ s, (d.node p).data_size = 0) (hst : s = [] ∨ t = []) :
    Avance d w it₁ s t d' := by
  obtain ⟨ps₁, hp₁⟩ := hback.particiones
  rw [List.nil_append] at hp₁
  have hrest : ∀ {β : Type} (f : t_dict_element → β), (∀ e, f e.contenido = f e) →
      ∀ q ∈ s ++ t, f (d'.node q) = f (d.node q) := by
    intro β f hf q hq
    rw [← hf, hback.resto q hq, hf, hv.otros q (by simp [List.mem_append.mp hq])]
  have hrep : reparar d' it₁ = d' := by
    refine reparar_eq ?_
    intro q hq
    have hmem : q ∈ w ++ it₁ :: (s ++ t) := by
      rw [hp₁.listas.dlist.next_eq] at hq
      simp [List.mem_of_head? hq]
    exact (hp₁.listas.dlist.inverse (by simp) hmem).mp hq
  refine ⟨⟨ps₁, by rwa [hrep]⟩, ?_, ?_, ?_, ?_, hback.max, hback.slab⟩
  · intro p hp
    rw [hrest t_dict_element.ocupado (fun _ => rfl) p (by simp [hp])]
    exact hv.posteriores p hp
  · intro p hp
    rw [hrest t_dict_element.data_size (fun _ => rfl) p (by simp [hp])]
    exact hs p hp
  · intro p hp
    rw [hrest t_dict_element.ocupado (fun _ => rfl) p (by simp [List.mem_of_head? hp])]
    exact hv.despues p hp
  · rcases hst with rfl | rfl
    · exact Or.inr ⟨rfl, hrep⟩
    · exact Or.inl rfl

/-- A safe release puts one partition in the place of those that it joins. -/
theorem diccionario_eliminar_lista {qs : List Ptr}
    (h : Particiones d (w ++ (r ++ it :: (s ++ t))) qs) (hv : Vecinas d w r it s t ps)
    (hr : ∀ p ∈ r.tail, (d.node p).data_size = 0) (hs : ∀ p ∈ s, (d.node p).data_size = 0)
    (hst : s = [] ∨ t = []) :
    ∃ d' it' ps', diccionario_eliminar d it = .ok (d', it') ∧ Particiones d' (w ++ it' :: t) ps' ∧
      d'.table_max_size = d.table_max_size ∧ d'.slab_min_size = d.slab_min_size := by
  obtain ⟨d₁, it₁, hloop, hback⟩ := unir_anteriores_loop (hv.retroceso h hr)
  obtain ⟨d₂, ps₂, hloop', hp₂, hmax, hslab⟩ := unir_posteriores_loop (hback.avance hv hs hst)
  have hturns : (d.limpiar it).turns = d.turns := rfl
  rw [hturns] at hloop
  exact ⟨d₂, it₁, ps₂, by simp [diccionario_eliminar, hloop, hloop'], hp₂, hmax, hslab⟩

/-- A safe release keeps the dictionary well formed. -/
theorem diccionario_eliminar_eq (h : Particiones d l ps) (hs : Segura d it) :
    ∃ d' it' l' ps', diccionario_eliminar d it = .ok (d', it') ∧ Particiones d' l' ps' ∧
      it' ∈ l' ∧ d'.table_max_size = d.table_max_size ∧ d'.slab_min_size = d.slab_min_size := by
  obtain ⟨w, r, s, t, ps', hv, hr, hs, hst⟩ := hs
  obtain rfl := h.listas.unique hv.listas
  obtain ⟨d', it', qs, hok, hp, hmax, hslab⟩ := diccionario_eliminar_lista h hv hr hs hst
  exact ⟨d', it', _, qs, hok, hp, by simp, hmax, hslab⟩

end Eliminar

section Compactar

variable {d d₀ : t_diccionario} {libre : Ptr} {l u v ps : List Ptr} {o : Option Ptr}

/-- The partition `libre` is to be filled, and `v` is still ahead. -/
structure Compactando (d₀ : t_diccionario) (u : List Ptr) (libre : Ptr) (v : List Ptr)
    (d : t_diccionario) : Prop where
  particiones : ∃ ps, Particiones d (u ++ libre :: v) ps
  vacia : (d.node libre).data_size = 0
  max : d.table_max_size = d₀.table_max_size
  slab : d.slab_min_size = d₀.slab_min_size

theorem Compactando.next (h : Compactando d₀ u libre v d) : (d.node libre).next = v.head? := by
  obtain ⟨ps, hp⟩ := h.particiones
  exact hp.listas.dlist.next_eq

theorem juntar_libres_cases (h : Compactando d₀ u libre v d) :
    (v = [] ∧ juntar_libres libre (d, v.head?) = .ok (.inr (d, none))) ∨
    ∃ b v', v = b :: v' ∧ (juntar_libres libre (d, v.head?) = .ok (.inr (d, some b)) ∨
      ∃ d', juntar_libres libre (d, v.head?) = .ok (.inl (d', v'.head?)) ∧
        Compactando d₀ u libre v' d') := by
  cases v with
  | nil => exact Or.inl ⟨rfl, rfl⟩
  | cons b v' =>
    refine Or.inr ⟨b, v', rfl, ?_⟩
    simp only [juntar_libres, List.head?_cons]
    split_ifs with huso
    · exact Or.inl rfl
    · right
      obtain ⟨ps, hp⟩ := h.particiones
      have he := juntar_eq (d := d) hp.places.1
      have hzero := hp.vacias b (by simp) (by simpa using huso)
      have hnext : Compactando d₀ u libre v' (juntar d libre b) :=
        ⟨⟨_, hp.absorber hzero he⟩, he.data_size_absorbente.trans h.vacia, he.max.trans h.max,
          he.slab.trans h.slab⟩
      exact ⟨_, by rw [hnext.next], hnext⟩

theorem juntar_libres_loop (h : Compactando d₀ u libre v d) :
    ∃ d' v', loop .no_termina (juntar_libres libre) d.turns (d, v.head?) = .ok (d', v'.head?) ∧
      Compactando d₀ u libre v' d' ∧ v'.length ≤ v.length := by
  obtain ⟨ps, hp⟩ := h.particiones
  have hlen := hp.listas.length_lt_turns
  refine loop_bound
    (I := fun k (s : t_diccionario × Option Ptr) => ∃ w, w.length = k ∧ k ≤ v.length ∧
      s.2 = w.head? ∧ Compactando d₀ u libre w s.1)
    (R := fun x => ∃ d' v', x = .ok (d', v'.head?) ∧ Compactando d₀ u libre v' d' ∧
      v'.length ≤ v.length) ?_ ?_ ?_ _ v.length (d, v.head?)
    ⟨v, rfl, le_rfl, rfl, h⟩ ?_
  · rintro k ⟨e, o⟩ f ⟨w, -, -, rfl, hw⟩ herror
    rcases juntar_libres_cases hw with ⟨-, hok⟩ | ⟨b, w', -, hok | ⟨e', hok, -⟩⟩
    · rw [herror] at hok
      exact absurd hok (by simp)
    · rw [herror] at hok
      exact absurd hok (by simp)
    · rw [herror] at hok
      exact absurd hok (by simp)
  · rintro k ⟨e, o⟩ x ⟨w, rfl, hle, rfl, hw⟩ hturn
    rcases juntar_libres_cases hw with ⟨-, hok⟩ | ⟨b, w', rfl, hok | ⟨e', hok, hw'⟩⟩
    · rw [hturn] at hok
      exact absurd hok (by simp)
    · rw [hturn] at hok
      exact absurd hok (by simp)
    · rw [hturn] at hok
      obtain rfl : x = (e', w'.head?) := by simpa using hok
      simp only [List.length_cons] at hle
      exact ⟨w'.length, by simp, w', rfl, by omega, rfl, hw'⟩
  · rintro k ⟨e, o⟩ x ⟨w, rfl, hle, rfl, hw⟩ hturn
    rcases juntar_libres_cases hw with ⟨rfl, hok⟩ | ⟨b, w', rfl, hok | ⟨e', hok, -⟩⟩
    · rw [hturn] at hok
      obtain rfl : x = (e, none) := by simpa using hok
      exact ⟨e, [], rfl, hw, hle⟩
    · rw [hturn] at hok
      obtain rfl : x = (e, some b) := by simpa using hok
      exact ⟨e, b :: w', rfl, hw, hle⟩
    · rw [hturn] at hok
      exact absurd hok (by simp)
  · simp only [List.length_append, List.length_cons] at hlen
    omega

theorem compactar_turno_cases (h : Compactando d₀ u libre v d) :
    (∃ d', compactar_turno (d, some libre, v.head?) = .ok (.inr d') ∧
      Compactando d₀ u libre [] d') ∨
    ∃ d' b v', compactar_turno (d, some libre, v.head?) = .ok (.inl (d', some b, v'.head?)) ∧
      Compactando d₀ (u ++ [libre]) b v' d' ∧ v'.length < v.length := by
  cases hv : v with
  | nil =>
    subst hv
    exact Or.inl ⟨d, rfl, h⟩
  | cons c w =>
    obtain ⟨d', v', hloop, hc, hle⟩ := juntar_libres_loop h
    rw [hv, List.head?_cons] at hloop
    simp only [compactar_turno, List.head?_cons, hloop]
    cases v' with
    | nil => exact Or.inl ⟨d', rfl, hc⟩
    | cons b v'' =>
      right
      obtain ⟨ps, hp⟩ := hc.particiones
      obtain ⟨m, -, hdst, hsrc, -⟩ := tiles_append.mp hp.tiles
      obtain ⟨d'', hok, he⟩ := intercambiar_eq hp.places.1 hdst hsrc
      have hp' := hp.intercambiar hc.vacia hdst he
      have hnextb : (d''.node b).next = v''.head? := by
        have hlist : DList (fun p => (d''.node p).next) (fun p => (d''.node p).prev)
            ((u ++ [libre]) ++ b :: v'') := by simpa using hp'.listas.dlist
        exact hlist.next_eq
      have hnextl : (d''.node libre).next = some b := hp'.listas.dlist.next_eq
      refine ⟨d'', b, v'', ?_, ⟨⟨ps, by simpa using hp'⟩, he.data_size_b, he.max.trans hc.max,
        he.slab.trans hc.slab⟩, ?_⟩
      · simp only [hok, List.head?_cons, hnextb, hnextl]
      · rw [← hv]
        exact hle

/-- Compaction keeps the dictionary well formed. -/
theorem diccionario_compactarMemoria_eq (h : Particiones d l ps) :
    ∃ d' l' ps', diccionario_compactarMemoria d = .ok d' ∧ Particiones d' l' ps' ∧
      d'.table_max_size = d.table_max_size ∧ d'.slab_min_size = d.slab_min_size := by
  have hlen := h.listas.length_lt_turns
  unfold diccionario_compactarMemoria
  rw [buscar_eq h.listas.dlist.next h.listas.head (Nat.lt_succ_iff.mp hlen)]
  cases hfind : l.find? (fun p => !enUso (d.node p)) with
  | none => exact ⟨d, l, ps, rfl, h, rfl, rfl⟩
  | some libre =>
    have huso : enUso (d.node libre) = false := by simpa using List.find?_some hfind
    obtain ⟨u, v, rfl⟩ := List.append_of_mem (List.mem_of_find?_eq_some hfind)
    have hstart : Compactando d u libre v d :=
      ⟨⟨ps, h⟩, h.vacias libre (by simp) huso, rfl, rfl⟩
    simp only [hstart.next]
    refine loop_bound
      (I := fun k (s : t_diccionario × Option Ptr × Option Ptr) => ∃ w b x, x.length = k ∧
        s.2 = (some b, x.head?) ∧ Compactando d w b x s.1)
      (R := fun x => ∃ d' l' ps', x = .ok d' ∧ Particiones d' l' ps' ∧
        d'.table_max_size = d.table_max_size ∧ d'.slab_min_size = d.slab_min_size)
      ?_ ?_ ?_ _ v.length (d, some libre, v.head?) ⟨u, libre, v, rfl, rfl, hstart⟩ ?_
    · rintro k ⟨e, -⟩ f ⟨w, b, x, -, rfl, hc⟩ herror
      rcases compactar_turno_cases hc with ⟨e', hok, -⟩ | ⟨e', b', x', hok, -⟩
      · rw [herror] at hok
        exact absurd hok (by simp)
      · rw [herror] at hok
        exact absurd hok (by simp)
    · rintro k ⟨e, -⟩ y ⟨w, b, x, rfl, rfl, hc⟩ hturn
      rcases compactar_turno_cases hc with ⟨e', hok, -⟩ | ⟨e', b', x', hok, hc', hlt⟩
      · rw [hturn] at hok
        exact absurd hok (by simp)
      · rw [hturn] at hok
        obtain rfl : y = (e', some b', x'.head?) := by simpa using hok
        exact ⟨x'.length, hlt, _, b', x', rfl, rfl, hc'⟩
    · rintro k ⟨e, -⟩ y ⟨w, b, x, -, rfl, hc⟩ hturn
      rcases compactar_turno_cases hc with ⟨e', hok, hc'⟩ | ⟨e', b', x', hok, -⟩
      · rw [hturn] at hok
        obtain rfl : y = e' := by simpa using hok
        obtain ⟨ps', hp'⟩ := hc'.particiones
        exact ⟨y, _, ps', rfl, hp', hc'.max, hc'.slab⟩
      · rw [hturn] at hok
        exact absurd hok (by simp)
    · simp only [List.length_append, List.length_cons] at hlen
      omega

end Compactar

section Asignar

variable {d d' : t_diccionario} {item : Ptr} {l u v ps : List Ptr} {aux n nkey : Nat} {flags : Int}
  {key : t_dict_element → Nat → UInt8}

/-- Splitting does not put the partition to use. -/
theorem partir_uso (h : partir d item aux = .ok d') (hn : d.nodes ≠ some item) :
    enUso (d'.node item) = enUso (d.node item) := by
  unfold partir at h
  cases hnodes : d.nodes with
  | none =>
    simp only [hnodes] at h
    rw [Except.ok.inj h]
  | some n =>
    have hne : item ≠ n := fun heq => hn (heq ▸ hnodes)
    simp only [hnodes] at h
    split_ifs at h
    · rw [← Except.ok.inj h]
      simp only [node_modificar, node_modificar?, hne, if_true, if_false, enUso, estaReservado]
      split_ifs <;> rfl
    · rw [Except.ok.inj h]

/-- A rest of at least a slab finds an unused node. -/
theorem Listas.partir_ok (h : Listas d (u ++ item :: v) ps)
    (ht : Tiles (fun p => (d.node p).data) (fun p => (d.node p).chunk_size) 0 (u ++ item :: v)
      d.table_max_size)
    (hslab : ∀ q ∈ u ++ item :: v, d.slab_min_size ≤ (d.node q).chunk_size)
    (hpos : 1 ≤ d.slab_min_size) (haux : d.slab_min_size ≤ aux)
    (hsize : d.slab_min_size ≤ (d.node item).chunk_size - aux) :
    ∃ n ps' d', ps = n :: ps' ∧ n ≠ item ∧ partir d item aux = .ok d' ∧ Partido d item n aux d' := by
  obtain ⟨n, ps', rfl⟩ := h.pool_ne ht hslab hpos (by omega)
  have hall : d.allocated n = true := mem_all_nodes.mp (h.perm.mem_iff.mp (by simp))
  have hnodes : d.nodes = some n := by rw [h.top]; rfl
  have hnext : (d.node n).next = (ps' ++ [d.last_slot]).head? := by simpa using h.pool.1
  have hne : n ≠ item := by
    rintro rfl
    have hpool := (List.nodup_append'.mp h.nodup).2.2
    exact hpool (a := n) (by simp) (by simp)
  have hunused : (d.node n).next ≠ some item := by
    rw [hnext]
    exact Listas.unused_ne (v := [n]) h (by simp)
  have hself : (d.node item).next ≠ some item := by
    rw [h.dlist.next_eq]
    intro hv
    have := List.mem_of_head? hv
    exact (List.nodup_cons.mp (List.nodup_middle.mp h.dlist.nodup)).1 (by simp [this])
  obtain ⟨d', hok, he⟩ := partir_eq hnodes hall hne hsize hunused hself
  exact ⟨n, ps', d', rfl, hne, hok, he⟩

/-- A smaller rest stays with the partition. -/
theorem partir_entera (hsize : ¬ d.slab_min_size ≤ (d.node item).chunk_size - aux) :
    partir d item aux = .ok d := by
  unfold partir
  cases d.nodes with
  | none => rfl
  | some nuevo_nodo => simp only [if_neg hsize]

/-- Taking a free partition finds an unused node for the rest of it. -/
theorem partir_cases (h : Particiones d l ps) (hitem : Apto d l aux item)
    (haux : d.slab_min_size ≤ aux) :
    ∃ d' l' ps', partir d item aux = .ok d' ∧ Particiones d' l' ps' ∧ item ∈ l' ∧
      (d'.node item).data_size = 0 ∧ aux ≤ (d'.node item).chunk_size ∧
      d'.table_max_size = d.table_max_size ∧ d'.slab_min_size = d.slab_min_size := by
  obtain ⟨hmem, huso, hfits⟩ := hitem
  have hempty := h.vacias item hmem huso
  by_cases hsize : d.slab_min_size ≤ (d.node item).chunk_size - aux
  · obtain ⟨u, v, rfl⟩ := List.append_of_mem hmem
    obtain ⟨n, ps', d', rfl, -, hok, he⟩ :=
      h.listas.partir_ok h.tiles h.slab h.slab_pos haux hsize
    have hchunk : (d'.node item).chunk_size = aux :=
      (congrArg t_dict_element.chunk_size he.de_item :)
    exact ⟨d', _, ps', hok, h.partir hempty haux hsize he, by simp,
      (congrArg t_dict_element.data_size he.de_item :).trans hempty, hchunk.ge, he.max, he.slab⟩
  · exact ⟨d, l, ps, partir_entera hsize, h, hmem, hempty, hfits, rfl, rfl⟩

/-- The request of `n` bytes goes to `item`, which gets its key. -/
theorem Particiones.asignar (h : Particiones d l ps) (hmem : item ∈ l)
    (hempty : (d.node item).data_size = 0) (hfits : n ≤ (d.node item).chunk_size)
    (hkey : 0 < nkey) :
    Particiones ((reservar d item n).modificar item (fun e => { e with
      nkey := nkey, flags := flags, key := key e })) l ps := by
  obtain ⟨u, v, rfl⟩ := List.append_of_mem hmem
  refine h.tocar ?_ ?_ ⟨rfl, rfl, rfl, rfl⟩ ?_ ?_ ?_
  · intro p hp
    simp [reservar, hp]
  · simp [reservar]
  · simpa [reservar] using hfits
  · intro huso
    have hnkey : nkey = 0 := by
      have := (enUso_eq_false.mp huso).2
      simpa [reservar] using this
    omega
  · intro x hx hlt hxd
    have hcurrent : ((reservar d item n).modificar item (fun e => { e with
      nkey := nkey, flags := flags, key := key e })).table_current_size =
        int (d.table_current_size + n) := rfl
    rw [hcurrent, ← int_eq hx hlt, hxd, hempty]
    simp [reservar]

end Asignar

end LaLiga.Rc
