import LaLiga.Rc.Compactacion
import LaLiga.Rc.Frecuencia

/-! Whether a compaction makes room for the request that it is made for. -/
namespace LaLiga.Rc

open LaLiga.Lib t_diccionario

/-- The last partition in use behind the first free one, if there is one, has no key. -/
def UltimaSinClave (d : t_diccionario) (l : List Ptr) : Prop :=
  ∀ q ∈ ((l.dropWhile (fun p => enUso (d.node p))).filter (fun p => enUso (d.node p))).getLast?,
    (d.node q).nkey = 0

section Busqueda

variable {d e f : t_diccionario} {libre : Ptr} {l u v ps : List Ptr} {aux max slab n nkey : Nat}
  {key : Nat → UInt8} {flags : Int}

theorem primer_ajuste_iff (hl : Listas d l ps) :
    (∃ item, primer_ajuste d aux = .ok (some item)) ↔ ∃ p, Apto d l aux p := by
  constructor
  · rintro ⟨item, hitem⟩
    obtain ⟨r, hr, hapto⟩ := primer_ajuste_eq aux hl
    obtain rfl := Except.ok.inj (hitem.symm.trans hr)
    exact ⟨item, hapto item rfl⟩
  · rintro ⟨p, hmem, huso, hfits⟩
    unfold primer_ajuste
    rw [buscar_eq hl.dlist.next hl.head (Nat.lt_succ_iff.mp hl.length_lt_turns)]
    cases hfind : l.find?
        (fun p => !(enUso (d.node p) || decide ((d.node p).chunk_size < aux))) with
    | none =>
      have hno := List.find?_eq_none.mp hfind p hmem
      simp only [huso, Bool.false_or, Bool.not_eq_true', Bool.not_eq_false,
        decide_eq_true_eq] at hno
      omega
    | some item => exact ⟨item, rfl⟩

theorem ultimaSinClave_iff (hu : ∀ q ∈ u, enUso (d.node q) = true)
    (hlibre : enUso (d.node libre) = false) :
    UltimaSinClave d (u ++ libre :: v) ↔ (d.node (ultima d libre v)).nkey = 0 := by
  have hdrop : (u ++ libre :: v).dropWhile (fun p => enUso (d.node p)) = libre :: v := by
    rw [List.dropWhile_append_of_pos hu, List.dropWhile_cons_of_neg (by simp [hlibre])]
  unfold UltimaSinClave ultima
  rw [hdrop, List.filter_cons_of_neg (by simp [hlibre])]
  cases (v.filter (fun p => enUso (d.node p))).getLast? with
  | none => simpa using (enUso_eq_false.mp hlibre).2
  | some q => simp

/-- The search that follows a compaction. -/
theorem compactar_encuentra_iff (h : Particiones d l ps) (haux : 0 < aux)
    (hok : diccionario_compactarMemoria d = .ok e) (k : Int) :
    (∃ item, primer_ajuste { e with compactarMemoria := k } aux = .ok (some item)) ↔
      aux ≤ memoria_libre d l ∧ UltimaSinClave d l := by
  by_cases hl : ∀ q ∈ l, enUso (d.node q) = true
  · obtain rfl := Except.ok.inj ((compactar_llena h hl).symm.trans hok)
    rw [primer_ajuste_iff (h.contador k).listas, memoria_libre_usadas hl]
    constructor
    · rintro ⟨p, hp, huso, -⟩
      rw [show enUso (({ d with compactarMemoria := k } : t_diccionario).node p) =
        enUso (d.node p) from rfl, hl p hp] at huso
      exact absurd huso (by simp)
    · rintro ⟨hle, -⟩
      omega
  obtain ⟨u, libre, v, rfl, hu, hlibre⟩ := exists_primera_libre hl
  obtain ⟨u', ⟨qs, hp'⟩, hused, hvacante, htotal, -, -⟩ := compactar_corridas h hu hlibre hok
  dsimp only [balance] at hp' hvacante htotal
  rw [primer_ajuste_iff (hp'.contador k).listas, ultimaSinClave_iff hu hlibre,
    ← nkey_compactar hok, ← htotal]
  constructor
  · rintro ⟨p, hp, huso, hfits⟩
    rcases List.mem_append.mp hp with hp | hp
    · have hp := hused p hp
      rw [show enUso (e.node p) = false from huso] at hp
      exact absurd hp (by simp)
    · obtain rfl := List.mem_singleton.mp hp
      exact ⟨hfits, (enUso_eq_false.mp huso).2⟩
  · rintro ⟨hfits, hkey⟩
    exact ⟨_, by simp, enUso_eq_false.mpr ⟨hvacante, hkey⟩, hfits⟩

/-- The states from which the turns of an allowed allocation start. -/
theorem Formada.turnos (h : Formada max slab d) (hc : Permitida d (.allocate key nkey n flags))
    (hree : LaLiga.Rc.reemplazar ParticionesDinamicas d key nkey = .ok e)
    (ht : Turns (buscar_lugar n) e f) : Formada max slab f := by
  obtain ⟨-, hsegura⟩ := hc
  induction ht with
  | refl =>
    exact h.reemplazar (fun it hobt hocupado => hsegura d it (.reemplazo hobt hocupado)) hree
  | next hturns hturn ih =>
    have hf := ih
    obtain ⟨⟨l, ps, hp⟩, -, -⟩ := id hf
    rcases buscar_lugar_cases hp n with hno | ⟨hnone, -, hmake⟩ | ⟨e', item', -, -, hyes, -⟩
    · rw [hturn] at hno
      exact absurd hno (by simp)
    · refine hf.hacer_lugar ?_ (hmake _ hturn)
      intro it hconv hvictima
      exact hsegura _ it (.victima hree hturns hnone hconv hvictima)
    · rw [hturn] at hyes
      exact absurd hyes (by simp)

/-- The search behind a compaction finds a partition if and only if the free partitions have
enough bytes together and the one that they are joined to is not taken for a reserved one. -/
theorem compactacion_conviene_iff (h : Reachable (Creada max slab)
      (Guarded Permitida (Ejecuta ParticionesDinamicas)) d)
    (hc : Permitida d (.allocate key nkey n flags))
    (hf : Compacta d (.allocate key nkey n flags) f) :
    ∃ l ps e, Particiones f l ps ∧ diccionario_compactarMemoria f = .ok e ∧
      ((∃ item, primer_ajuste { e with compactarMemoria := e.frecuenciaCompactacion }
          (aux_data_size n slab) = .ok (some item)) ↔
        aux_data_size n slab ≤ memoria_libre f l ∧ UltimaSinClave f l) := by
  have hd : Formada max slab d :=
    h.invariant (fun _ => formada_creada) (fun _ _ _ hd hstep => formada_step hd hstep)
  cases hf with
  | allocate hree hturns hnone hconv =>
    obtain ⟨⟨l, ps, hp⟩, hmax, hslab⟩ := (hd.turnos hc hree hturns).intento
    obtain ⟨e, l', ps', hok, -⟩ := diccionario_compactarMemoria_eq hp
    have hpos : 0 < aux_data_size n slab := by
      have := le_aux_data_size n slab
      have := hp.slab_pos
      omega
    exact ⟨l, ps, e, hp, hok, compactar_encuentra_iff hp hpos hok _⟩

/-- The key `a` is set to no bytes in a memory of four, all of which it takes. -/
theorem sin_lugar_eq : ∃ d₁ d,
    ejecutar ParticionesDinamicas 1 (diccionario_crear default 4 4)
      (.allocate (fun _ => 97) 1 0 0) = .ok d₁ ∧
    ejecutar ParticionesDinamicas 0 d₁ (.store .element 1) = .ok d ∧
    diccionario_obtener d (fun _ => 98) 1 = .ok none ∧
    primer_ajuste d (aux_data_size 4 d.slab_min_size) = .ok none ∧
    conviene_compactar (contar_intento d) (aux_data_size 4 d.slab_min_size) = true ∧
    contar_intento d = d ∧ buscar_lugar 4 d = .ok (.inl d) ∧
    d.elements = some .element ∧ (d.node .element).next = none ∧ Vigente (d.node .element) :=
  ⟨_, _, rfl, rfl, rfl, rfl, rfl, rfl, rfl, rfl, rfl, rfl, by decide⟩

theorem sin_lugar_alcanzada {d₁ : t_diccionario}
    (hfirst : ejecutar ParticionesDinamicas 1 (diccionario_crear default 4 4)
      (.allocate (fun _ => 97) 1 0 0) = .ok d₁)
    (hstore : ejecutar ParticionesDinamicas 0 d₁ (.store .element 1) = .ok d) :
    Reachable (Creada 4 4) (Guarded Permitida (Ejecuta ParticionesDinamicas)) d := by
  have hcreada : Creada 4 4 (diccionario_crear default 4 4) :=
    ⟨by decide, by decide, by decide, default, rfl⟩
  have hprimera : Permitida (diccionario_crear default 4 4) (.allocate (fun _ => 97) 1 0 0) := by
    refine ⟨by simp [Pedido, KEY_SIZE_MAX], fun f it he => ?_⟩
    cases he with
    | reemplazo hobt' => exact absurd (hobt'.symm.trans rfl : _ = .ok none) (by simp)
    | victima hree hturns hnone' =>
      obtain rfl := (Except.ok.inj hree : diccionario_crear default 4 4 = _)
      obtain ⟨r, hexit⟩ : ∃ r, buscar_lugar 0 (diccionario_crear default 4 4) = .ok (.inr r) :=
        ⟨_, rfl⟩
      rw [hturns.eq_of_exit hexit] at hnone'
      exact absurd (hnone'.symm.trans rfl : _ = .ok (some Ptr.element)) (by simp)
  have hguarda : Permitida d₁ (.store .element 1) := ⟨trivial, fun f it he => by cases he⟩
  exact reachable_step (reachable_step (reachable_init hcreada) ⟨hprimera, 1, hfirst⟩)
    ⟨hguarda, 0, hstore⟩

/-- Each turn of a search for four bytes compacts in vain. -/
theorem compactacion_en_vano : ∃ d l ps e, Compacta d (.allocate (fun _ => 98) 1 4 0) d ∧
    Particiones d l ps ∧ diccionario_compactarMemoria d = .ok e ∧
    ((∃ item, primer_ajuste { e with compactarMemoria := e.frecuenciaCompactacion }
        (aux_data_size 4 4) = .ok (some item)) ↔
      aux_data_size 4 4 ≤ memoria_libre d l ∧ UltimaSinClave d l) := by
  obtain ⟨d₁, d, hfirst, hstore, hobt, hnone, hconv, hsame, hturn, -⟩ := sin_lugar_eq
  have hd := sin_lugar_alcanzada hfirst hstore
  have hree : reemplazar ParticionesDinamicas d (fun _ => 98) 1 = .ok d := by
    unfold reemplazar
    rw [hobt]
  have hturns : ∀ f, Turns (buscar_lugar 4) d f → f = d := by
    intro f hf
    induction hf with
    | refl => rfl
    | next _ hnext ih =>
      rw [ih, hturn] at hnext
      exact (Sum.inl.inj (Except.ok.inj hnext)).symm
  have hc : Permitida d (.allocate (fun _ => 98) 1 4 0) := by
    refine ⟨by simp [Pedido, KEY_SIZE_MAX], fun f it he => ?_⟩
    cases he with
    | reemplazo hobt' => exact absurd (hobt'.symm.trans hobt) (by simp)
    | victima hree' ht _ hno =>
      obtain rfl := Except.ok.inj (hree.symm.trans hree')
      rw [hturns _ ht, hconv] at hno
      exact absurd hno (by simp)
  have hcomp : Compacta d (.allocate (fun _ => 98) 1 4 0) (contar_intento d) :=
    .allocate hree .refl hnone hconv
  rw [hsame] at hcomp
  obtain ⟨l, ps, e, hp, hok, hiff⟩ := compactacion_conviene_iff hd hc hcomp
  exact ⟨d, l, ps, e, hcomp, hp, hok, hiff⟩

/-- Three bytes are free, two in front of a stored one and one behind it: the search for three
compacts, and finds nothing. -/
theorem compactacion_inutil : ∃ d e, Reachable (Creada 4 1) (Ejecuta ParticionesDinamicas) d ∧
    (∀ p, d.allocated p = true → estaReservado (d.node p) = false) ∧
    Compacta d (.allocate (fun _ => 99) 1 3 0) d ∧ diccionario_compactarMemoria d = .ok e ∧
    primer_ajuste { e with compactarMemoria := e.frecuenciaCompactacion } (aux_data_size 3 1) =
      .ok none := by
  obtain ⟨d, e, hd, hp, hobt, hnone, hconv, hsame, hok, hafter⟩ : ∃ d e,
      correr ParticionesDinamicas 9 (diccionario_crear default 4 1) (peticiones.take 5) = .ok d ∧
      (∀ p ∈ d.all_nodes, estaReservado (d.node p) = false) ∧
      diccionario_obtener d (fun _ => 99) 1 = .ok none ∧
      primer_ajuste d (aux_data_size 3 d.slab_min_size) = .ok none ∧
      conviene_compactar (contar_intento d) (aux_data_size 3 d.slab_min_size) = true ∧
      contar_intento d = d ∧ diccionario_compactarMemoria d = .ok e ∧
      primer_ajuste { e with compactarMemoria := e.frecuenciaCompactacion } (aux_data_size 3 1) =
        .ok none :=
    ⟨_, _, rfl, by decide, rfl, rfl, rfl, rfl, rfl, rfl⟩
  have hree : reemplazar ParticionesDinamicas d (fun _ => 99) 1 = .ok d := by
    unfold reemplazar
    rw [hobt]
  have hcomp : Compacta d (.allocate (fun _ => 99) 1 3 0) (contar_intento d) :=
    .allocate hree .refl hnone hconv
  rw [hsame] at hcomp
  exact ⟨d, e, ⟨_, _, ⟨by decide, by decide, by decide, default, rfl⟩, correr_trace hd⟩,
    fun p hp' => hp p (mem_all_nodes.mpr hp'), hcomp, hok, hafter⟩

end Busqueda

end LaLiga.Rc
