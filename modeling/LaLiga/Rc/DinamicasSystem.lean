import LaLiga.Rc.Engine

/-! Runs of the engine with dynamic partitions. -/
namespace LaLiga.Rc

open LaLiga.Lib t_diccionario

/-- The representation invariant. -/
structure Representacion (d : t_diccionario) (l ps : List Ptr) : Prop where
  head : d.elements = l.head?
  dlist : DList (fun p => (d.node p).next) (fun p => (d.node p).prev) l
  inverse : ∀ p ∈ l, ∀ q ∈ l, (d.node p).next = some q ↔ (d.node q).prev = some p
  -- the partitions lie one behind the other from the start of the memory to its end
  tiles : Tiles (fun p => (d.node p).data) (fun p => (d.node p).chunk_size) 0 l d.table_max_size
  positive : ∀ p ∈ l, 0 < (d.node p).chunk_size
  sum : (l.map (fun p => (d.node p).chunk_size)).sum = d.table_max_size
  -- `ps` are the unused nodes
  top : d.nodes = ps.head?
  pool : Seg (fun p => (d.node p).next) ps none
  disjoint : ∀ p ∈ l, p ∉ ps
  current : d.table_current_size =
    (((l.filter (fun p => enUso (d.node p))).map (fun p => (d.node p).data_size)).sum : Nat)

/-- The releases that a call makes, with the states in which it makes them. -/
inductive Elimina : t_diccionario → Operacion → t_diccionario → Ptr → Prop
  | reemplazo {d : t_diccionario} {key : Nat → UInt8} {nkey nbytes : Nat} {flags : Int} {it : Ptr} :
      diccionario_obtener d key nkey = .ok (some it) → (d.node it).ocupado = true →
      Elimina d (.allocate key nkey nbytes flags) d it
  | victima {d e f : t_diccionario} {key : Nat → UInt8} {nkey nbytes : Nat} {flags : Int}
      {it : Ptr} :
      reemplazar ParticionesDinamicas d key nkey = .ok e → Turns (buscar_lugar nbytes) e f →
      primer_ajuste f (aux_data_size nbytes f.slab_min_size) = .ok none →
      conviene_compactar (contar_intento f) (aux_data_size nbytes f.slab_min_size) = false →
      diccionario_elegirVictima (contar_intento f) = .ok it →
      Elimina d (.allocate key nkey nbytes flags) (contar_intento f) it
  | release {d : t_diccionario} {it : Ptr} :
      (d.node it).ocupado = false → Elimina d (.release it) d it
  | remove {d : t_diccionario} {key : Nat → UInt8} {nkey : Nat} {it : Ptr} :
      diccionario_obtener d key nkey = .ok (some it) → Elimina d (.remove key nkey) d it
  | flush {d e : t_diccionario} {it : Ptr} :
      Turns (limpiar_turno ParticionesDinamicas) (d, d.elements) (e, some it) →
      (e.node it).nkey ≠ 0 → Elimina d .flush e it

/-- The key fits its buffer and the size is an `int`. -/
def Pedido : Operacion → Prop
  | .allocate _ nkey nbytes _ => 0 < nkey ∧ nkey < KEY_SIZE_MAX ∧ nbytes < 2 ^ 31
  | _ => True

/-- The calls that the code gets right. -/
def Permitida (d : t_diccionario) (c : Operacion) : Prop :=
  Pedido c ∧ ∀ e it, Elimina d c e it → Segura e it

/-- A dictionary just created. -/
def Creada (table_max_size slab_size : Nat) (d : t_diccionario) : Prop :=
  1 ≤ slab_size ∧ slab_size ≤ table_max_size ∧ table_max_size < 2 ^ 31 ∧
    ∃ basura, d = diccionario_crear basura table_max_size slab_size

section Runs

variable {d e : t_diccionario} {l ps : List Ptr} {it : Ptr} {n aux max slab nkey : Nat}
  {key : Nat → UInt8} {flags : Int} {c : Operacion}

theorem Particiones.representacion (h : Particiones d l ps) :
    Representacion d l (ps ++ [d.last_slot]) where
  head := h.listas.head
  dlist := h.listas.dlist
  inverse := fun p hp q hq => h.listas.dlist.inverse hp hq
  tiles := h.tiles
  positive := fun p hp => Nat.lt_of_lt_of_le h.slab_pos (h.slab p hp)
  sum := by
    have := h.tiles.end_eq
    omega
  top := h.listas.top
  pool := h.listas.pool
  disjoint := by
    intro p hp hps
    rcases List.mem_append.mp hps with hps | hlast
    · exact (List.nodup_append'.mp h.listas.nodup).2.2 hp hps
    · refine h.listas.last_slot_not_mem_left ?_
      rw [← List.mem_singleton.mp hlast]
      exact List.mem_append_left ps hp
  current := by
    rw [h.total]
    congr 1
    -- partitions that are not in use hold no data
    have hfree := h.vacias
    clear h
    induction l with
    | nil => rfl
    | cons p l ih =>
      have hl := ih (fun q hq => hfree q (by simp [hq]))
      cases huso : enUso (d.node p) with
      | true => simp [huso, hl]
      | false => simp [huso, hl, hfree p (by simp) huso]

theorem Particiones.contador (h : Particiones d l ps) (k : Int) :
    Particiones { d with compactarMemoria := k } l ps :=
  ⟨⟨h.listas.dlist, h.listas.head, h.listas.pool, h.listas.top, h.listas.perm⟩, h.tiles, h.slab,
    h.cabe, h.vacias, h.libres, h.total, h.slab_pos, h.max_lt⟩

theorem Particiones.intento (h : Particiones d l ps) : Particiones (contar_intento d) l ps := by
  unfold contar_intento
  split_ifs
  · exact h.contador _
  · exact h

theorem node_intento : (contar_intento d).node = d.node := by
  unfold contar_intento
  split_ifs <;> rfl

theorem max_intento : (contar_intento d).table_max_size = d.table_max_size := by
  unfold contar_intento
  split_ifs <;> rfl

theorem slab_intento : (contar_intento d).slab_min_size = d.slab_min_size := by
  unfold contar_intento
  split_ifs <;> rfl

/-- A well formed dictionary of the given sizes. -/
def Formada (max slab : Nat) (d : t_diccionario) : Prop :=
  (∃ l ps, Particiones d l ps) ∧ d.table_max_size = max ∧ d.slab_min_size = slab

theorem Formada.eliminar (h : Formada max slab d) (hs : Segura d it) :
    ∃ e it', diccionario_eliminar d it = .ok (e, it') ∧ Formada max slab e := by
  obtain ⟨⟨l, ps, hp⟩, hmax, hslab⟩ := h
  obtain ⟨e, it', l', ps', he, hp', -, hmax', hslab'⟩ := diccionario_eliminar_eq hp hs
  exact ⟨e, it', he, ⟨l', ps', hp'⟩, hmax'.trans hmax, hslab'.trans hslab⟩

theorem Formada.intento (h : Formada max slab d) : Formada max slab (contar_intento d) := by
  obtain ⟨⟨l, ps, hp⟩, hmax, hslab⟩ := h
  exact ⟨⟨l, ps, hp.intento⟩, max_intento.trans hmax, slab_intento.trans hslab⟩

theorem Formada.hacer_lugar (h : Formada max slab d)
    (hs : ∀ it, conviene_compactar (contar_intento d) aux = false →
      diccionario_elegirVictima (contar_intento d) = .ok it → Segura (contar_intento d) it)
    (hok : hacer_lugar d aux = .ok e) : Formada max slab e := by
  have hi := h.intento
  unfold LaLiga.Rc.hacer_lugar at hok
  simp only at hok
  split_ifs at hok with hc
  · obtain ⟨⟨l, ps, hp⟩, hmax, hslab⟩ := hi
    obtain ⟨e', l', ps', he', hp', hmax', hslab'⟩ := diccionario_compactarMemoria_eq hp
    rw [he'] at hok
    obtain rfl := Except.ok.inj hok
    exact ⟨⟨l', ps', hp'.contador _⟩, hmax'.trans hmax, hslab'.trans hslab⟩
  · cases hv : diccionario_elegirVictima (contar_intento d) with
    | error f => simp [hv] at hok
    | ok victima =>
      obtain ⟨e', it', he', hf⟩ := hi.eliminar (hs victima (by simpa using hc) hv)
      simp only [hv, he'] at hok
      obtain rfl := Except.ok.inj hok
      exact hf

theorem le_of_aux (hn : n < 2 ^ 31) : n ≤ aux_data_size n slab := by
  have hint : int n = n := int_eq (by omega) (by omega)
  unfold aux_data_size
  rw [hint]
  omega

/-- A turn of the search refuses the request, makes room, or takes a free partition. -/
theorem buscar_lugar_cases (hp : Particiones d l ps) (n : Nat) :
    buscar_lugar n d = .ok (.inr (d, none)) ∨
    primer_ajuste d (aux_data_size n d.slab_min_size) = .ok none ∧
      (∀ r, buscar_lugar n d ≠ .ok (.inr r)) ∧
      (∀ e, buscar_lugar n d = .ok (.inl e) →
        hacer_lugar d (aux_data_size n d.slab_min_size) = .ok e) ∨
    ∃ e item l' ps', buscar_lugar n d = .ok (.inr (reservar e item n, some item)) ∧
      Particiones e l' ps' ∧ item ∈ l' ∧ (e.node item).data_size = 0 ∧
      enUso (e.node item) = false ∧ aux_data_size n d.slab_min_size ≤ (e.node item).chunk_size ∧
      e.table_max_size = d.table_max_size ∧ e.slab_min_size = d.slab_min_size := by
  unfold buscar_lugar
  by_cases hbig : aux_data_size n d.slab_min_size ≤ d.table_max_size
  swap
  · exact Or.inl (if_neg hbig)
  right
  simp only [if_pos hbig]
  obtain ⟨r, hr, hapto⟩ := primer_ajuste_eq (aux_data_size n d.slab_min_size) hp.listas
  cases r with
  | none =>
    refine Or.inl ⟨hr, ?_, ?_⟩
    · intro r
      rw [hr]
      cases LaLiga.Rc.hacer_lugar d (aux_data_size n d.slab_min_size) <;> simp
    · intro e
      rw [hr]
      cases LaLiga.Rc.hacer_lugar d (aux_data_size n d.slab_min_size) <;> simp
  | some item =>
    right
    have hbest : ∃ item', (if d.bestfit = true then
        mejor_ajuste d (aux_data_size n d.slab_min_size) item else .ok item) = .ok item' ∧
        Apto d l (aux_data_size n d.slab_min_size) item' := by
      split_ifs
      · exact mejor_ajuste_eq hp.listas (hapto item rfl)
      · exact ⟨item, rfl, hapto item rfl⟩
    obtain ⟨item', hbest, hitem⟩ := hbest
    obtain ⟨e, l', ps', hok, hp', hmem, hempty, hfits, hmax, hslab⟩ :=
      partir_cases hp hitem (le_aux_data_size _ _)
    have hunused : d.nodes ≠ some item' := by
      rw [hp.listas.top]
      exact Listas.unused_ne (v := []) hp.listas (by simpa using hitem.1)
    exact ⟨e, item', l', ps', by simp only [hr, hbest, hok], hp', hmem, hempty,
      (partir_uso hok hunused).trans hitem.2.1, hfits, hmax, hslab⟩

theorem Formada.reemplazar (h : Formada max slab d)
    (hs : ∀ it, diccionario_obtener d key nkey = .ok (some it) → (d.node it).ocupado = true →
      Segura d it) (hok : reemplazar ParticionesDinamicas d key nkey = .ok e) :
    Formada max slab e := by
  rcases reemplazar_cases hok with ⟨rfl, -⟩ | ⟨it, it', hobt, hocupado, hel⟩
  · exact h
  · obtain ⟨e', i, he', hf⟩ := h.eliminar (hs it hobt hocupado)
    have he : .ok (e, it') = Except.ok (e', i) := hel.symm.trans he'
    obtain ⟨rfl, -⟩ := Prod.mk.inj (Except.ok.inj he)
    exact hf

/-- An allocation is refused, or gives the key to a partition that was free. -/
theorem allocate_cases (h : Formada max slab d) (hc : Permitida d (.allocate key nkey n flags))
    {r : Option Ptr} {turnos : Nat}
    (hok : justice_engine_allocate ParticionesDinamicas turnos d key nkey n flags = .ok (e, r)) :
    r = none ∧ Formada max slab e ∨
    ∃ g item l ps, r = some item ∧ Particiones g l ps ∧ item ∈ l ∧ (g.node item).data_size = 0 ∧
      enUso (g.node item) = false ∧ n ≤ (g.node item).chunk_size ∧ g.table_max_size = max ∧
      g.slab_min_size = slab ∧ e = nombrar (reservar g item n) item key nkey flags := by
  obtain ⟨⟨-, -, hn⟩, hsegura⟩ := hc
  obtain ⟨d₁, d₂, hree, hsearch, hcase⟩ := allocate_inv hok
  have h₁ := h.reemplazar (fun it hobt hocupado => hsegura d it (.reemplazo hobt hocupado)) hree
  -- every turn up to the last one keeps the dictionary well formed
  have hstep : ∀ f g, Turns (buscar_lugar n) d₁ f → Formada max slab f →
      buscar_lugar n f = .ok (.inl g) → Formada max slab g := by
    intro f g hturns hf hturn
    obtain ⟨⟨l, ps, hp⟩, -, -⟩ := id hf
    rcases buscar_lugar_cases hp n with hno | ⟨hnone, -, hmake⟩ | ⟨e', item', -, -, hyes, -⟩
    · rw [hturn] at hno
      exact absurd hno (by simp)
    · refine hf.hacer_lugar ?_ (hmake g hturn)
      intro it hconv hvictima
      exact hsegura _ it (.victima hree hturns hnone hconv hvictima)
    · rw [hturn] at hyes
      exact absurd hyes (by simp)
  obtain ⟨f, -, hf, hlast⟩ := loop_turns hstep h₁ turnos hsearch
  obtain ⟨⟨l, ps, hp⟩, hmax, hslab⟩ := id hf
  rcases buscar_lugar_cases hp n with hno | ⟨-, hmake, -⟩ |
    ⟨g, item, l', ps', hyes, hp', hmem, hempty, hlibre, hfits, hmax', hslab'⟩
  · rw [hlast] at hno
    obtain ⟨rfl, rfl⟩ : d₂ = f ∧ r = none := by simpa using hno
    rcases hcase with ⟨-, rfl⟩ | ⟨it, hit, -⟩
    · exact Or.inl ⟨rfl, hf⟩
    · exact absurd hit (by simp)
  · exact absurd hlast (hmake _)
  · rw [hlast] at hyes
    obtain ⟨rfl, rfl⟩ : d₂ = reservar g item n ∧ r = some item := by simpa using hyes
    rcases hcase with ⟨hnone, -⟩ | ⟨it, hit, -, rfl⟩
    · exact absurd hnone (by simp)
    · obtain rfl := Option.some.inj hit
      exact Or.inr ⟨g, item, l', ps', rfl, hp', hmem, hempty, hlibre, le_trans (le_of_aux hn) hfits,
        hmax'.trans hmax, hslab'.trans hslab, rfl⟩

theorem Formada.allocate (h : Formada max slab d) (hc : Permitida d (.allocate key nkey n flags))
    {r : Option Ptr} {turnos : Nat}
    (hok : justice_engine_allocate ParticionesDinamicas turnos d key nkey n flags = .ok (e, r)) :
    Formada max slab e := by
  rcases allocate_cases h hc hok with
    ⟨-, hf⟩ | ⟨g, item, l, ps, -, hp, hmem, hempty, -, hfits, hmax, hslab, rfl⟩
  · exact hf
  · exact ⟨⟨l, ps, hp.asignar hmem hempty hfits hc.1.1⟩, hmax, hslab⟩

theorem diccionario_obtener_mem (hp : Particiones d l ps)
    (hok : diccionario_obtener d key nkey = .ok (some it)) :
    it ∈ l ∧ (d.node it).nkey ≠ 0 := by
  unfold diccionario_obtener at hok
  rw [buscar_eq hp.listas.dlist.next hp.listas.head
    (Nat.lt_succ_iff.mp hp.listas.length_lt_turns)] at hok
  have hfind := Except.ok.inj hok
  refine ⟨List.mem_of_find?_eq_some hfind, ?_⟩
  have := List.find?_some hfind
  simp only [Bool.and_eq_true, bne_iff_ne, ne_eq] at this
  exact this.1.1

/-- Changes of an element that concern neither its place nor its size. -/
theorem Formada.modificar (h : Formada max slab d) {f : t_dict_element → t_dict_element}
    (hmem : ∃ l ps, Particiones d l ps ∧ it ∈ l)
    (hlinks : ∀ e, (f e).next = e.next ∧ (f e).prev = e.prev ∧ (f e).data = e.data ∧
      (f e).chunk_size = e.chunk_size)
    (hdata : ∀ e, (f e).data_size = e.data_size)
    (huso : ∀ e, enUso (f e) = false → enUso e = false) : Formada max slab (d.modificar it f) := by
  obtain ⟨-, hmax, hslab⟩ := h
  obtain ⟨l, ps, hp, hmem⟩ := hmem
  obtain ⟨u, v, rfl⟩ := List.append_of_mem hmem
  have hcabe := hp.cabe it (by simp)
  have hvacia := hp.vacias it (by simp)
  refine ⟨⟨_, ps, hp.tocar ?_ ?_ ⟨rfl, rfl, rfl, rfl⟩ ?_ ?_ ?_⟩, hmax, hslab⟩
  · intro p hne
    simp [hne]
  · simpa using hlinks (d.node it)
  · simpa [hdata] using hcabe
  · intro hfree
    simp only [node_modificar, if_true] at hfree ⊢
    rw [hdata]
    exact hvacia (huso _ hfree)
  · intro x _ _ hx
    simp only [node_modificar, if_true, hdata] at hx
    rw [current_modificar, hx]
    omega

theorem Formada.store {item : Ptr} {hora : Int} {r : Bool} (h : Formada max slab d)
    (hok : justice_engine_store d item hora = .ok (e, r)) : Formada max slab e := by
  rcases store_cases hok with ⟨rfl, -⟩ | ⟨it, hobt, -, rfl⟩
  · exact h
  · obtain ⟨⟨l, ps, hp⟩, -, -⟩ := id h
    exact h.modificar ⟨l, ps, hp, (diccionario_obtener_mem hp hobt).1⟩
      (fun _ => ⟨rfl, rfl, rfl, rfl⟩) (fun _ => rfl) (fun e he => absurd he (by simp))

theorem Formada.get {hora : Int} {r : Option Ptr} (h : Formada max slab d)
    (hok : justice_engine_get d key nkey hora = .ok (e, r)) : Formada max slab e := by
  rcases get_cases hok with ⟨rfl, -⟩ | ⟨it, hobt, -, -, rfl | rfl⟩
  · exact h
  · exact h
  · obtain ⟨⟨l, ps, hp⟩, -, -⟩ := id h
    exact h.modificar ⟨l, ps, hp, (diccionario_obtener_mem hp hobt).1⟩
      (fun _ => ⟨rfl, rfl, rfl, rfl⟩) (fun _ => rfl) (fun _ he => he)

theorem Formada.release (h : Formada max slab d) (hc : Permitida d (.release it))
    (hok : justice_engine_item_release d it = .ok e) : Formada max slab e := by
  unfold justice_engine_item_release at hok
  split_ifs at hok with hocupado
  · obtain rfl := Except.ok.inj hok
    exact h
  · obtain ⟨e', it', he', hf⟩ := h.eliminar (hc.2 d it (.release (by simpa using hocupado)))
    simp only [he'] at hok
    obtain rfl := Except.ok.inj hok
    exact hf

theorem Formada.remove {r : Bool} (h : Formada max slab d) (hc : Permitida d (.remove key nkey))
    (hok : justice_engine_item_delete ParticionesDinamicas d key nkey = .ok (e, r)) :
    Formada max slab e := by
  rcases item_delete_cases hok with ⟨rfl, -⟩ | ⟨it, it', hobt, -, hel⟩
  · exact h
  · obtain ⟨e', i, he', hf⟩ := h.eliminar (hc.2 d it (.remove hobt))
    have he : .ok (e, it') = Except.ok (e', i) := hel.symm.trans he'
    obtain ⟨rfl, -⟩ := Prod.mk.inj (Except.ok.inj he)
    exact hf

theorem Formada.flush {turnos : Nat} (h : Formada max slab d) (hc : Permitida d .flush)
    (hok : justice_engine_flush ParticionesDinamicas turnos d = .ok e) : Formada max slab e := by
  have hstep : ∀ x y : t_diccionario × Option Ptr,
      Turns (limpiar_turno ParticionesDinamicas) (d, d.elements) x → Formada max slab x.1 →
      limpiar_turno ParticionesDinamicas x = .ok (.inl y) → Formada max slab y.1 := by
    rintro ⟨f, o⟩ ⟨g, o'⟩ hturns hf hturn
    cases o with
    | none => simp [limpiar_turno] at hturn
    | some item =>
      rcases limpiar_turno_inl hturn with ⟨-, rfl, -⟩ | ⟨it', hnkey, hel, -⟩
      · exact hf
      · obtain ⟨e', i, he', hf'⟩ := Formada.eliminar hf (hc.2 f item (.flush hturns hnkey))
        have he : .ok (g, it') = Except.ok (e', i) := hel.symm.trans he'
        obtain ⟨rfl, -⟩ := Prod.mk.inj (Except.ok.inj he)
        exact hf'
  obtain ⟨s, -, hf, hlast⟩ := loop_turns hstep h turnos hok
  obtain rfl := limpiar_turno_inr hlast
  exact hf

theorem formada_creada (h : Creada max slab d) : Formada max slab d := by
  obtain ⟨hpos, hle, hlt, basura, rfl⟩ := h
  refine ⟨⟨[.element], _, ⟨Listas.inicial ?_, ⟨rfl, ?_⟩, ?_, ?_, ?_, ?_, ?_, hpos, hlt⟩⟩, rfl, rfl⟩
  · exact Nat.div_pos hle hpos
  · exact Nat.zero_add _
  · simp only [List.mem_singleton, forall_eq]
    exact hle
  · simp only [List.mem_singleton, forall_eq]
    exact Nat.zero_le _
  · simp only [List.mem_singleton, forall_eq]
    exact fun _ => rfl
  · intro p hp
    obtain ⟨i, hi, rfl⟩ := List.mem_map.mp hp
    have hlt : i + 1 < max / slab := by
      have hi := List.mem_range.mp hi
      simp only [cant_max] at hi
      omega
    simp [diccionario_crear, inicializarElementos, cant_max, hlt]
  · rfl

/-- Each call that the code gets right leaves the dictionary well formed. -/
theorem formada_step (h : Formada max slab d)
    (hp : Guarded Permitida (Ejecuta ParticionesDinamicas) d c e) : Formada max slab e := by
  obtain ⟨hc, turnos, hok⟩ := hp
  cases c with
  | allocate key nkey nbytes flags =>
    obtain ⟨r, hok⟩ := exists_of_map_fst hok
    exact h.allocate hc hok
  | store item hora =>
    obtain ⟨r, hok⟩ := exists_of_map_fst hok
    exact h.store hok
  | release item => exact h.release hc hok
  | get key nkey hora =>
    obtain ⟨r, hok⟩ := exists_of_map_fst hok
    exact h.get hok
  | remove key nkey =>
    obtain ⟨r, hok⟩ := exists_of_map_fst hok
    exact h.remove hc hok
  | flush => exact h.flush hc hok

/-- In every run whose calls release elements in safe places only, the dictionary is well
formed in every state. -/
theorem representacion_reachable (h : Reachable (Creada max slab)
    (Guarded Permitida (Ejecuta ParticionesDinamicas)) d) :
    d.table_max_size = max ∧ ∃ l ps, Representacion d l ps := by
  obtain ⟨⟨l, ps, hp⟩, hmax, -⟩ := h.invariant (fun _ => formada_creada)
    (fun _ _ _ hd hstep => formada_step hd hstep)
  exact ⟨hmax, l, _, hp.representacion⟩

theorem creada_cuarenta : Creada 40 4 (diccionario_crear default 40 4) :=
  ⟨by decide, by decide, by decide, default, rfl⟩

/-- A first allocation releases nothing. -/
theorem permitida_primera :
    Permitida (diccionario_crear default 40 4) (.allocate (fun _ => 97) 1 4 0) := by
  refine ⟨by simp [Pedido, KEY_SIZE_MAX], ?_⟩
  intro e it he
  cases he with
  | reemplazo hobt => exact absurd (hobt.symm.trans rfl : _ = .ok none) (by simp)
  | victima hree hturns hnone =>
    obtain rfl := (Except.ok.inj hree : diccionario_crear default 40 4 = _)
    obtain ⟨r, hexit⟩ : ∃ r, buscar_lugar 4 (diccionario_crear default 40 4) = .ok (.inr r) :=
      ⟨_, rfl⟩
    rw [hturns.eq_of_exit hexit] at hnone
    exact absurd (hnone.symm.trans rfl : _ = .ok (some Ptr.element)) (by simp)

theorem representacion_allocate : ∃ d, Ejecuta ParticionesDinamicas
    (diccionario_crear default 40 4) (.allocate (fun _ => 97) 1 4 0) d ∧
      d.table_max_size = 40 ∧ ∃ l ps, Representacion d l ps := by
  obtain ⟨d, hd⟩ : ∃ d, ejecutar ParticionesDinamicas 1 (diccionario_crear default 40 4)
      (.allocate (fun _ => 97) 1 4 0) = .ok d := ⟨_, rfl⟩
  exact ⟨d, ⟨1, hd⟩, representacion_reachable
    (reachable_step (reachable_init creada_cuarenta) ⟨permitida_primera, 1, hd⟩)⟩

/-- The keys `a`, `b` and `c` are set, then `b` and `a` are removed. -/
def quitar_dos : List Operacion :=
  let clave := fun (n : UInt8) (_ : Nat) => n
  [.allocate (clave 97) 1 4 0, .store .element 1, .allocate (clave 98) 1 4 0, .store (.slot 0) 1,
    .allocate (clave 99) 1 4 0, .store (.slot 1) 1, .remove (clave 98) 1, .remove (clave 97) 1]

/-- The back link of the element that follows the released ones is lost. -/
theorem representacion_broken : ∃ d, Reachable (Creada 40 4) (Ejecuta ParticionesDinamicas) d ∧
    ¬ ∃ l ps, Representacion d l ps := by
  have hrun : (correr ParticionesDinamicas 9 (diccionario_crear default 40 4) quitar_dos).map
      (fun d => (d.elements, (d.node .element).next, (d.node (.slot 1)).prev)) =
      .ok (some .element, some (.slot 1), some (.slot 0)) := by decide
  cases hd : correr ParticionesDinamicas 9 (diccionario_crear default 40 4) quitar_dos with
  | error f => simp [hd, Except.map] at hrun
  | ok d =>
    simp only [hd, Except.map, Except.ok.injEq, Prod.mk.injEq] at hrun
    obtain ⟨hhead, hnext, hprev⟩ := hrun
    refine ⟨d, ⟨_, _, creada_cuarenta, correr_trace hd⟩, ?_⟩
    rintro ⟨l, ps, h⟩
    cases l with
    | nil =>
      have := h.head
      simp [hhead] at this
    | cons p l =>
      obtain rfl : p = .element := by
        have := h.head
        simpa [hhead] using this.symm
      have hmem : Ptr.slot 1 ∈ l := by
        have hseg := h.dlist.next.1
        simp only [hnext, Option.or_none] at hseg
        exact List.mem_of_head? hseg.symm
      have hback := (h.inverse _ (by simp) _ (by simp [hmem])).mp hnext
      rw [hprev] at hback
      simp at hback

end Runs

end LaLiga.Rc
