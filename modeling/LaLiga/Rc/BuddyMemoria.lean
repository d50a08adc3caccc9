import LaLiga.Rc.BuddySystem
import LaLiga.Rc.Colocacion

/-! The memory that `diccionario_crear_buddy` obtains and the chunks handed out. -/
namespace LaLiga.Rc

open LaLiga.Lib t_diccionario

/-- `pow(2, (int) log2(un_numero))` -/
def power_two_low (un_numero : Nat) : Nat := 2 ^ Nat.log2 un_numero

/-- A chunk within the bytes that were obtained for the pool. -/
def EnMemoria (table_max_size : Nat) (e : t_dict_element) : Prop :=
  ∃ o, e.data = some o ∧ o + e.chunk_size ≤ power_two_low table_max_size

def CreadaBuddy (table_max_size slab_size : Nat) (d : t_diccionario) : Prop :=
  ∃ basura, d = diccionario_crear_buddy basura table_max_size slab_size

section Memoria

variable {d : t_diccionario} {l ps : List Ptr} {p : Ptr} {i : Option Ptr} {K max slab : Nat}

theorem power_two_low_pow : power_two_low (2 ^ K) = 2 ^ K := by
  rw [power_two_low, Nat.log2_two_pow]

theorem power_two_low_le (hpos : 0 < max) : power_two_low max ≤ max :=
  Nat.log2_self_le (by omega)

/-- In a memory that is a power of two every chunk of the list is inside. -/
theorem Valido.en_memoria (h : Valido d l ps i) (hp : p ∈ l) (hmax : d.table_max_size = 2 ^ K) :
    EnMemoria (2 ^ K) (d.node p) := by
  obtain ⟨u, v, rfl⟩ := List.append_of_mem hp
  obtain ⟨o, -, ho, hv⟩ := h.bloques.tiles.piece
  refine ⟨o, ho, ?_⟩
  rw [power_two_low_pow, ← hmax]
  exact hv.le

/-- The first request may be for the whole memory, and gets the whole memory. -/
theorem todo_en_uno (basura : t_diccionario) (hslab : 1 ≤ slab) (hle : slab ≤ max)
    (hlt : max < 2 ^ 31) :
    ∃ e, diccionario_obtenerDireccion_buddy (diccionario_crear_buddy basura max slab) max =
      .ok (e, some .element) ∧ (e.node .element).data = some 0 ∧
        (e.node .element).chunk_size = max := by
  have hinicial : Repartida (diccionario_crear_buddy basura max slab) [.element] _ :=
    repartida_inicial hslab hle hlt
  have hapto : Apto (diccionario_crear_buddy basura max slab) [.element] max .element :=
    ⟨by simp, rfl, le_rfl⟩
  obtain ⟨primera, item, hprimera, hitem, hajuste⟩ := hinicial.listas.elegir hapto
  obtain rfl := List.mem_singleton.mp (apto_of_ajuste hajuste).1
  have haux : aux_data_size max (diccionario_crear_buddy basura max slab).slab_min_size = max := by
    rw [aux_data_size_eq hlt]
    exact max_eq_left hle
  -- half of it would be too small
  have hentera : dividir max .element (diccionario_crear_buddy basura max slab) =
      .ok (.inr (diccionario_crear_buddy basura max slab)) := by
    refine if_neg ?_
    rintro ⟨hsize, -⟩
    have hchunk : ((diccionario_crear_buddy basura max slab).node .element).chunk_size = max := rfl
    omega
  refine ⟨reservar (diccionario_crear_buddy basura max slab) .element max, ?_, ?_, ?_⟩
  · exact loop_exit max (buscar_lugar_buddy_encontrado haux le_rfl hprimera hitem
      (loop_exit max hentera))
  · simp [reservar, diccionario_crear_buddy, inicializarElementos]
  · simp [reservar, diccionario_crear_buddy, inicializarElementos]

end Memoria

/-- The chunks handed out stay within the memory obtained for the sizes that are powers of
two, and for these only. -/
theorem memoria_alcanza_iff {table_max_size slab_size : Nat} (hslab : 1 ≤ slab_size)
    (hle : slab_size ≤ table_max_size) (hlt : table_max_size < 2 ^ 31) :
    (∀ d, Reachable (CreadaBuddy table_max_size slab_size) Paso d →
      (∀ n e it, diccionario_obtenerDireccion_buddy d n = .ok (e, some it) →
        EnMemoria table_max_size (e.node it)) ∧
      ∀ p, EnLista d p → enUso (d.node p) = true → EnMemoria table_max_size (d.node p)) ↔
    ∃ K, table_max_size = 2 ^ K := by
  constructor
  · intro h
    have hinit : CreadaBuddy table_max_size slab_size
        (diccionario_crear_buddy default table_max_size slab_size) := ⟨default, rfl⟩
    obtain ⟨e, hok, hdata, hsize⟩ := todo_en_uno default hslab hle hlt
    obtain ⟨o, ho, hin⟩ := (h _ (reachable_init hinit)).1 _ _ _ hok
    obtain rfl := Option.some.inj (ho.symm.trans hdata)
    rw [Nat.zero_add, hsize] at hin
    exact ⟨Nat.log2 table_max_size, le_antisymm hin (power_two_low_le (by omega))⟩
  · rintro ⟨K, rfl⟩ d hd
    have hcreado : ∀ d, CreadaBuddy (2 ^ K) slab_size d → Creado K slab_size d :=
      fun d hd => ⟨hslab, hle, hd⟩
    obtain ⟨s, cs, hs, hrun⟩ := hd
    obtain ⟨l, ps, hv, hmax, -⟩ := valido_alcanzable ⟨s, cs, hcreado s hs, hrun⟩
    refine ⟨?_, ?_⟩
    · intro n e it hok
      have hobt : Obtenido d n _ _ := diccionario_obtenerDireccion_buddy_eq hv rfl
      rw [hok] at hobt
      cases hobt with
      | @lugar f _ hparte _ =>
        obtain ⟨u, v, ps', hf⟩ := hparte.valido
        have hmem := hf.en_memoria (p := it) (by simp) (hparte.max.trans hmax)
        simpa [EnMemoria, reservar] using hmem
    · rintro p ⟨l', ps', hl', hp⟩ -
      obtain rfl := hv.listas.unique hl'
      exact hv.en_memoria hp hmax

/-- Sixteen bytes in slabs of four. -/
theorem memoria_alcanza_dieciseis : (∀ d, Reachable (CreadaBuddy 16 4) Paso d →
      (∀ n e it, diccionario_obtenerDireccion_buddy d n = .ok (e, some it) →
        EnMemoria 16 (e.node it)) ∧
      ∀ p, EnLista d p → enUso (d.node p) = true → EnMemoria 16 (d.node p)) ↔
    ∃ K, 16 = 2 ^ K :=
  memoria_alcanza_iff (by decide) (by decide) (by decide)

/-- Of a memory of six bytes four were obtained. -/
theorem seis_de_cuatro : ∃ d e it, Reachable (CreadaBuddy 6 1) Paso d ∧
    diccionario_obtenerDireccion_buddy d 6 = .ok (e, some it) ∧ ¬ EnMemoria 6 (e.node it) := by
  obtain ⟨e, hok, hdata, hsize⟩ :=
    @todo_en_uno 6 1 default (by decide) (by decide) (by decide)
  refine ⟨_, e, .element, reachable_init ⟨default, rfl⟩, hok, ?_⟩
  rintro ⟨o, ho, hin⟩
  have hlow : power_two_low 6 = 4 := by decide
  rw [hsize, hlow] at hin
  omega

end LaLiga.Rc
