import LaLiga.Rc.BuddySystem
import LaLiga.Rc.Dinamicas

/-! The initialisation of the nodes write by write: where it writes, and to which nodes the
list of unused ones leads. -/
namespace LaLiga.Rc

open LaLiga.Lib t_diccionario

/-- The dictionary, the nodes written to so far, and the key buffers obtained so far, each
with the number of its `malloc`. -/
structure Inicio where
  dict : t_diccionario
  escritos : List Ptr
  buffers : Ptr → Option Nat
  mallocs : Nat

def Inicio.escribir (s : Inicio) (p : Ptr) (f : t_dict_element → t_dict_element) : Inicio :=
  { s with dict := s.dict.modificar p f, escritos := s.escritos ++ [p] }

/-- `p->key = malloc(KEY_SIZE_MAX);` -/
def Inicio.pedir_clave (s : Inicio) (p : Ptr) : Inicio :=
  { s with
    escritos := s.escritos ++ [p]
    buffers := Function.update s.buffers p (some s.mallocs)
    mallocs := s.mallocs + 1 }

/-- One turn of the loop. -/
def inicializar_nodo (s : Inicio) (i : Nat) : Inicio :=
  (s.escribir (.slot i) (fun e => { e with
    prev := if i = 0 then none else some (.slot (i - 1))
    data := none, nkey := 0, data_size := 0, hour := 0, ocupado := false
    chunk_size := 0, flags := 0, next := some (.slot (i + 1)) })).pedir_clave (.slot i)

/-- The arrays of the elements and of the nodes as `calloc` gave them. -/
def inicializar_desde (self : t_diccionario) : Inicio where
  dict := { self with elements := some .element, nodes := some (.slot 0) }
  escritos := []
  buffers := fun _ => none
  mallocs := 0

/-- `inicializarElementos` in the order of its assignments; the loop ends with `i` at
`cant_max_el - 1`. -/
def inicializar (self : t_diccionario) : Inicio :=
  let cant_max_el := self.cant_max
  let s := (List.range (cant_max_el - 1)).foldl inicializar_nodo (inicializar_desde self)
  let s := s.escribir (.slot (cant_max_el - 1)) (fun e => { e with next := none })
  (s.escribir .element (fun e => { e with
    prev := none, chunk_size := self.table_max_size, data := some 0, nkey := 0
    data_size := 0, flags := 0, hour := 0, next := none, ocupado := false })).pedir_clave .element

/-- What `diccionario_crear` does after it has stored the sizes. -/
def diccionario_crear_pasos (basura : t_diccionario) (table_max_size slab_size : Nat) : Inicio :=
  inicializar { basura with
    table_max_size := table_max_size, slab_min_size := slab_size, table_current_size := 0
    compactarMemoria := 0 }

def diccionario_crear_buddy_pasos (basura : t_diccionario) (table_max_size slab_size : Nat) :
    Inicio :=
  inicializar { basura with
    table_max_size := table_max_size, table_current_size := 0, slab_min_size := slab_size }

/-- Only nodes that were allocated have been written to. -/
def Inicio.Dentro (s : Inicio) : Prop := ∀ p ∈ s.escritos, s.dict.allocated p = true

/-- From `nodes` on, `next` visits the nodes of the array, each once and each with a key buffer
that no other has, and ends in `NULL`. -/
def Inicio.Encadenados (s : Inicio) : Prop :=
  ∃ v : List Ptr, s.dict.nodes = v.head? ∧ Seg (fun p => (s.dict.node p).next) v none ∧
    v.Perm ((List.range (s.dict.cant_max - 1)).map .slot) ∧
    ∀ p ∈ v, ∃ b, s.buffers p = some b ∧ ∀ q ∈ v, s.buffers q = some b → q = p

section Turns

variable {self : t_diccionario} {k : Nat} {p : Ptr}

theorem nodo_escritos (s : Inicio) (i : Nat) :
    (inicializar_nodo s i).escritos = s.escritos ++ [.slot i, .slot i] := by
  simp [inicializar_nodo, Inicio.escribir, Inicio.pedir_clave]

/-- After `k` turns the first `k` nodes are initialised and the others as they were. -/
theorem nodos_turnos (k : Nat) :
    ((List.range k).foldl inicializar_nodo (inicializar_desde self)).dict =
      { self with
        elements := some .element, nodes := some (.slot 0)
        node := fun p =>
          match p with
          | .element => self.node .element
          | .slot i =>
            if i < k then
              { self.node (.slot i) with
                prev := if i = 0 then none else some (.slot (i - 1))
                data := none, nkey := 0, data_size := 0, hour := 0, ocupado := false
                chunk_size := 0, flags := 0, next := some (.slot (i + 1)) }
            else self.node (.slot i) } := by
  induction k with
  | zero =>
    simp only [List.range_zero, List.foldl_nil, inicializar_desde, Nat.not_lt_zero, if_false]
    congr 1
    funext p
    cases p <;> rfl
  | succ k ih =>
    rw [List.range_succ, List.foldl_append, List.foldl_cons, List.foldl_nil]
    simp only [inicializar_nodo, Inicio.escribir, Inicio.pedir_clave, modificar, ih]
    congr 1
    funext p
    cases p with
    | element => simp
    | slot i =>
      by_cases hi : i = k
      · subst hi
        simp
      · have hlt : i < k + 1 ↔ i < k := by omega
        simp [hi, hlt]

/-- The writes in order leave what `inicializarElementos` leaves. -/
theorem inicializar_dict : (inicializar self).dict = inicializarElementos self := by
  simp only [inicializar, Inicio.escribir, Inicio.pedir_clave, modificar, nodos_turnos,
    inicializarElementos]
  congr 1
  funext p
  cases p with
  | element => simp
  | slot i =>
    by_cases hlast : i = self.cant_max - 1
    · subst hlast
      have hnot : ¬ self.cant_max - 1 + 1 < self.cant_max := by omega
      simp [hnot]
    · have hlt : i < self.cant_max - 1 ↔ i + 1 < self.cant_max := by omega
      simp [hlast, hlt]

theorem diccionario_crear_pasos_dict (basura : t_diccionario) (table_max_size slab_size : Nat) :
    (diccionario_crear_pasos basura table_max_size slab_size).dict =
      diccionario_crear basura table_max_size slab_size := inicializar_dict

theorem diccionario_crear_buddy_pasos_dict (basura : t_diccionario)
    (table_max_size slab_size : Nat) :
    (diccionario_crear_buddy_pasos basura table_max_size slab_size).dict =
      diccionario_crear_buddy basura table_max_size slab_size := inicializar_dict

theorem cant_max_inicializar : (inicializar self).dict.cant_max = self.cant_max := by
  rw [inicializar_dict]
  rfl

theorem last_slot_inicializar : (inicializar self).dict.last_slot = self.last_slot := by
  rw [last_slot, cant_max_inicializar, last_slot]

/-- The assignment behind the loop is made to the slot behind the array. -/
theorem last_slot_escrito : self.last_slot ∈ (inicializar self).escritos := by
  simp [inicializar, Inicio.escribir, Inicio.pedir_clave, last_slot]

theorem not_dentro : ¬ (inicializar self).Dentro := by
  intro h
  have hall := mem_all_nodes.mpr (h _ last_slot_escrito)
  rw [← last_slot_inicializar] at hall
  exact last_slot_not_mem hall

/-- The list of unused nodes leads through the whole array to the slot behind it. -/
theorem not_encadenados (hmax : 0 < self.cant_max) : ¬ (inicializar self).Encadenados := by
  rintro ⟨v, hhead, hseg, hperm, -⟩
  rw [inicializar_dict] at hhead hseg
  rw [cant_max_inicializar] at hperm
  have hl := Listas.inicial hmax
  have heq := hseg.unique hl.pool (hhead.symm.trans hl.top)
  have hlen := congrArg List.length heq
  rw [hperm.length_eq] at hlen
  simp at hlen

end Turns

/-- Whatever the sizes, one node too many is written to and left in the list. -/
theorem nodos_fuera {table_max_size slab_size : Nat} (h : 2 ≤ table_max_size / slab_size)
    (basura : t_diccionario) :
    ¬ (diccionario_crear_pasos basura table_max_size slab_size).Dentro ∧
      ¬ (diccionario_crear_pasos basura table_max_size slab_size).Encadenados ∧
      ¬ (diccionario_crear_buddy_pasos basura table_max_size slab_size).Dentro ∧
      ¬ (diccionario_crear_buddy_pasos basura table_max_size slab_size).Encadenados := by
  have hpos : 0 < table_max_size / slab_size := by omega
  exact ⟨not_dentro, not_encadenados hpos, not_dentro, not_encadenados hpos⟩

theorem nodos_fuera_dos : ¬ (diccionario_crear_pasos default 2 1).Dentro ∧
    ¬ (diccionario_crear_pasos default 2 1).Encadenados ∧
    ¬ (diccionario_crear_buddy_pasos default 2 1).Dentro ∧
    ¬ (diccionario_crear_buddy_pasos default 2 1).Encadenados :=
  nodos_fuera (by decide) default

/-- With two nodes the array has one slot, which leads to a second one without a buffer. -/
theorem segundo_nodo_fuera : ¬ (diccionario_crear_pasos default 2 1).Dentro ∧
    ((diccionario_crear_pasos default 2 1).dict.node (.slot 0)).next = some (.slot 1) ∧
    (diccionario_crear_pasos default 2 1).dict.allocated (.slot 1) = false ∧
    (diccionario_crear_pasos default 2 1).buffers (.slot 1) = none :=
  ⟨not_dentro, rfl, rfl, rfl⟩

end LaLiga.Rc
