import LaLiga.Lib.Counting
import LaLiga.Lib.Transition
import LaLiga.Rc.Buddy

/-! Runs of the buddy system. -/
namespace LaLiga.Rc

open LaLiga.Lib t_diccionario

def EnLista (d : t_diccionario) (it : Ptr) : Prop :=
  ∃ l ps, Listas d l ps ∧ it ∈ l

theorem EnLista.allocated {d : t_diccionario} {it : Ptr} (h : EnLista d it) :
    d.allocated it = true := by
  obtain ⟨l, ps, hl, hmem⟩ := h
  exact hl.allocated hmem

section Allocate

variable {d d' : t_diccionario} {l u v ps : List Ptr} {it victima : Ptr} {data_size aux : Nat}

def en_uso (d : t_diccionario) : Nat := d.all_nodes.countP (fun p => enUso (d.node p))

/-- An eviction leaves one element less in use. -/
theorem en_uso_lt (h : Valido d l ps none) (hmem : victima ∈ l)
    (hu : enUso (d.node victima) = true) (hl : Limpio (d'.node victima))
    (ha : Ajeno d victima d') : en_uso d' < en_uso d := by
  have hall : d'.all_nodes = d.all_nodes := by simp [all_nodes, cant_max, ha.max, ha.slab]
  have hin : victima ∈ d.all_nodes := h.listas.perm.mem_iff.mp (by simp [hmem])
  unfold en_uso
  rw [hall]
  refine countP_lt ?_ hin hu hl.libre
  intro p _ huse
  by_cases hp : p = victima
  · rw [hp]
    exact hu
  · rwa [← ha.uso p hp]

theorem en_uso_le (h : Valido d l ps none) : en_uso d ≤ d.table_max_size := by
  have hfree : ps.countP (fun p => enUso (d.node p)) = 0 := by
    rw [List.countP_eq_zero]
    intro p hp
    simp [(h.libres p hp).libre]
  have hlen := h.bloques.tiles.length_mul_le (k := 1) (fun p hp => h.bloques.pos hp)
  have hle : l.countP (fun p => enUso (d.node p)) ≤ l.length := List.countP_le_length
  rw [en_uso, ← h.listas.perm.countP_eq, List.countP_append, hfree]
  omega

/-- What a call of `diccionario_obtenerDireccion_buddy` can end in: no victim, a size over
the memory's, or a partition halved as often as possible. -/
inductive Obtenido (d : t_diccionario) (data_size aux : Nat) :
    Except Falla (t_diccionario × Option Ptr) → Prop
  | sin_victima : Obtenido d data_size aux (.error .puntero_nulo)
  | grande {e : t_diccionario} {l ps : List Ptr} : d.table_max_size < aux →
      e.table_max_size = d.table_max_size → e.slab_min_size = d.slab_min_size →
      Valido e l ps none → Obtenido d data_size aux (.ok (e, none))
  | lugar {e : t_diccionario} {item : Ptr} : Partiendo d aux item e →
      (e.node item).chunk_size / 2 < aux →
      Obtenido d data_size aux (.ok (reservar e item data_size, some item))

/-- What one turn of the search can do to the dictionary `d`. -/
inductive Turno (d : t_diccionario) (data_size aux : Nat) :
    Except Falla (t_diccionario ⊕ (t_diccionario × Option Ptr)) → Prop
  | grande : d.table_max_size < aux → Turno d data_size aux (.ok (.inr (d, none)))
  | sin_victima : primer_ajuste d aux = .ok none → (∀ p, EnLista d p → (d.node p).hour = 0) →
      Turno d data_size aux (.error .puntero_nulo)
  | desaloja {victima : Ptr} {e : t_diccionario} : primer_ajuste d aux = .ok none →
      diccionario_elegirVictima d = .ok victima → EnLista d victima →
      enUso (d.node victima) = true → diccionario_eliminar_buddy d victima = .ok e →
      Turno d data_size aux (.ok (.inl e))
  | lugar {item : Ptr} {e : t_diccionario} : EnLista d item → enUso (d.node item) = false →
      Partiendo d aux item e → (e.node item).chunk_size / 2 < aux → Ajeno d item e →
      e.mem = d.mem → Turno d data_size aux (.ok (.inr (reservar e item data_size, some item)))

theorem buscar_lugar_buddy_turno (h : Valido d l ps none)
    (haux : aux_data_size data_size d.slab_min_size = aux) :
    Turno d data_size aux (buscar_lugar_buddy data_size d) := by
  unfold buscar_lugar_buddy
  simp only [haux]
  by_cases hbig : aux ≤ d.table_max_size
  swap
  · rw [if_neg hbig]
    exact .grande (by omega)
  rw [if_pos hbig]
  obtain ⟨r, hr, hapto⟩ := primer_ajuste_eq aux h.listas
  rw [hr]
  cases r with
  | none =>
    rcases diccionario_elegirVictima_eq h.listas with ⟨herror, hnone⟩ | ⟨victima, hmem, hok, hhour⟩
    · rw [herror]
      refine .sin_victima hr ?_
      rintro p ⟨l', ps', hl', hp⟩
      obtain rfl := h.listas.unique hl'
      exact hnone p hp
    · obtain ⟨u, v, rfl⟩ := List.append_of_mem hmem
      have hu : enUso (d.node victima) = true := by
        rcases h.limpios victima hmem with huse | hl
        · exact huse
        · exact absurd hl.hour hhour
      obtain ⟨e, u', v', ps', he, -⟩ := diccionario_eliminar_buddy_eq h
      simp only [hok, he]
      exact .desaloja hr hok ⟨_, _, h.listas, hmem⟩ hu he
  | some item =>
    have hitem := hapto item rfl
    have hbest : ∃ item', (if d.bestfit = true then mejor_ajuste d aux item else .ok item) =
        .ok item' ∧ Apto d l aux item' := by
      split_ifs
      · exact mejor_ajuste_eq h.listas hitem
      · exact ⟨item, rfl, hitem⟩
    obtain ⟨item', hbest, hmem, hlibre, hfits⟩ := hbest
    obtain ⟨u, v, rfl⟩ := List.append_of_mem hmem
    have hstart : Partiendo d aux item' d :=
      ⟨⟨u, v, ps, h.eximir⟩, h.libre hmem hlibre, hfits, rfl, rfl⟩
    obtain ⟨e, hloop, hp, hsmall, ha, hm⟩ := dividir_loop hstart (by
      rw [← haux]
      exact le_aux_data_size _ _)
    simp only [hbest, hloop]
    exact .lugar ⟨_, _, h.listas, hmem⟩ hlibre hp hsmall ha hm

/-- One turn ends the call, or evicts an element in use. -/
theorem buscar_lugar_buddy_cases {e : t_diccionario} (h : Valido e l ps none)
    (haux : aux_data_size data_size d.slab_min_size = aux)
    (hmax : e.table_max_size = d.table_max_size) (hslab : e.slab_min_size = d.slab_min_size) :
    (∃ r, buscar_lugar_buddy data_size e = .ok (.inr r) ∧ Obtenido d data_size aux (.ok r)) ∨
    buscar_lugar_buddy data_size e = .error .puntero_nulo ∨
    ∃ e' l' ps', buscar_lugar_buddy data_size e = .ok (.inl e') ∧ Valido e' l' ps' none ∧
      e'.table_max_size = d.table_max_size ∧ e'.slab_min_size = d.slab_min_size ∧
      en_uso e' < en_uso e := by
  have hturno := buscar_lugar_buddy_turno h (by rw [hslab, haux])
  cases hr : buscar_lugar_buddy data_size e with
  | error f =>
    rw [hr] at hturno
    cases hturno with
    | sin_victima _ _ => exact Or.inr (Or.inl rfl)
  | ok r =>
    rw [hr] at hturno
    cases hturno with
    | grande hbig => exact Or.inl ⟨_, rfl, .grande (by omega) hmax hslab h⟩
    | @desaloja victima e' _ hok hin hu he =>
      obtain ⟨l', ps', hl', hmem⟩ := hin
      obtain rfl := h.listas.unique hl'
      obtain ⟨u, v, rfl⟩ := List.append_of_mem hmem
      obtain ⟨e'', u', v', ps'', he'', hv', hl', ha⟩ := diccionario_eliminar_buddy_eq h
      rw [he] at he''
      obtain rfl := Except.ok.inj he''
      exact Or.inr (Or.inr ⟨e', _, ps'', rfl, hv', ha.max.trans hmax, ha.slab.trans hslab,
        en_uso_lt h hmem hu hl' ha⟩)
    | lugar _ _ hp hsmall _ _ =>
      exact Or.inl ⟨_, rfl, .lugar ⟨hp.valido, hp.limpio, hp.fits, hp.max.trans hmax,
        hp.slab.trans hslab⟩ hsmall⟩

/-- The call never touches a node outside the dictionary and always stops. -/
theorem diccionario_obtenerDireccion_buddy_eq (h : Valido d l ps none)
    (haux : aux_data_size data_size d.slab_min_size = aux) :
    Obtenido d data_size aux (diccionario_obtenerDireccion_buddy d data_size) := by
  unfold diccionario_obtenerDireccion_buddy
  have hstart : ∃ l ps, Valido d l ps none ∧ d.table_max_size = d.table_max_size ∧
      d.slab_min_size = d.slab_min_size := ⟨l, ps, h, rfl, rfl⟩
  refine loop_rule (I := fun e => ∃ l ps, Valido e l ps none ∧
      e.table_max_size = d.table_max_size ∧ e.slab_min_size = d.slab_min_size)
    (R := Obtenido d data_size aux) en_uso ?_ ?_ ?_ d.turns d hstart ?_
  · rintro e f ⟨l', ps', he, hmax, hslab⟩ herror
    rcases buscar_lugar_buddy_cases he haux hmax hslab with
      ⟨r, hr, -⟩ | hr | ⟨e', -, -, hr, -⟩
    · rw [herror] at hr
      exact absurd hr (by simp)
    · rw [herror] at hr
      obtain rfl : f = .puntero_nulo := by simpa using hr
      exact .sin_victima
    · rw [herror] at hr
      exact absurd hr (by simp)
  · rintro e e' ⟨l', ps', he, hmax, hslab⟩ hturn
    rcases buscar_lugar_buddy_cases he haux hmax hslab with
      ⟨r, hr, -⟩ | hr | ⟨e'', l'', ps'', hr, he'', hmax', hslab', hlt⟩
    · rw [hturn] at hr
      exact absurd hr (by simp)
    · rw [hturn] at hr
      exact absurd hr (by simp)
    · rw [hturn] at hr
      obtain rfl : e' = e'' := by simpa using hr
      exact ⟨⟨l'', ps'', he'', hmax', hslab'⟩, hlt⟩
  · rintro e r ⟨l', ps', he, hmax, hslab⟩ hturn
    rcases buscar_lugar_buddy_cases he haux hmax hslab with
      ⟨r', hr, hobt⟩ | hr | ⟨e', -, -, hr, -⟩
    · rw [hturn] at hr
      obtain rfl : r = r' := by simpa using hr
      exact hobt
    · rw [hturn] at hr
      exact absurd hr (by simp)
    · rw [hturn] at hr
      exact absurd hr (by simp)
  · exact Nat.lt_succ_of_le (en_uso_le h)

end Allocate

/-- `basura` is what `malloc` and `calloc` left in the memory they gave, with the settings
that the engine stores afterwards. -/
def diccionario_crear_buddy (basura : t_diccionario) (table_max_size slab_size : Nat) :
    t_diccionario :=
  inicializarElementos { basura with
    table_max_size := table_max_size, table_current_size := 0, slab_min_size := slab_size }

inductive Llamada
  | asignar (data_size nkey : Nat)
  | guardar (it : Ptr)
  | eliminar (it : Ptr)

/-- Calls of the buddy routines as the engine makes them. -/
inductive Paso : t_diccionario → Llamada → t_diccionario → Prop
  | asignar {d e : t_diccionario} {it : Ptr} {data_size nkey : Nat} {flags : Int}
      {key : Nat → UInt8} :
      diccionario_obtenerDireccion_buddy d data_size = .ok (e, some it) → nkey ≠ 0 →
      Paso d (.asignar data_size nkey)
        (e.modificar it (fun i => { i with nkey := nkey, flags := flags, key := key }))
  | rechazar {d e : t_diccionario} {data_size nkey : Nat} :
      diccionario_obtenerDireccion_buddy d data_size = .ok (e, none) →
      Paso d (.asignar data_size nkey) e
  | guardar {d : t_diccionario} {it : Ptr} {hour : Int} :
      EnLista d it → enUso (d.node it) = true → hour ≠ 0 →
      Paso d (.guardar it) (d.modificar it (fun i => { i with ocupado := true, hour := hour }))
  | eliminar {d e : t_diccionario} {it : Ptr} :
      EnLista d it → enUso (d.node it) = true → diccionario_eliminar_buddy d it = .ok e →
      Paso d (.eliminar it) e

section Runs

variable {K slab : Nat} {d e : t_diccionario} {l ps : List Ptr} {c : Llamada}

/-- A dictionary just created with a memory of `2 ^ K` bytes. -/
def Creado (K slab : Nat) (d : t_diccionario) : Prop :=
  1 ≤ slab ∧ slab ≤ 2 ^ K ∧ ∃ basura, d = diccionario_crear_buddy basura (2 ^ K) slab

theorem creado_limpio {p : Ptr} (h : Creado K slab d) (hp : d.allocated p = true) :
    Limpio (d.node p) := by
  obtain ⟨-, -, basura, rfl⟩ := h
  cases p with
  | element => exact ⟨rfl, rfl, rfl, rfl⟩
  | slot i =>
    have hi : i + 1 < 2 ^ K / slab := of_decide_eq_true hp
    constructor <;> simp [diccionario_crear_buddy, inicializarElementos, cant_max, hi]

theorem valido_creado (h : Creado K slab d) : ∃ l ps, Valido d l ps none ∧
    d.table_max_size = 2 ^ K ∧ d.slab_min_size = slab := by
  have hlimpio := fun p => creado_limpio (p := p) h
  obtain ⟨hpos, hle, basura, rfl⟩ := h
  refine ⟨[.element], _, ⟨Listas.inicial ?_, ⟨⟨rfl, ?_⟩, ?_, ?_, ?_, List.isChain_singleton _⟩,
    ?_, ?_, hpos⟩, rfl, rfl⟩
  · exact Nat.div_pos hle hpos
  · exact Nat.zero_add _
  · simp only [List.mem_singleton, forall_eq]
    exact ⟨K, rfl⟩
  · simp only [List.mem_singleton, forall_eq]
    exact hle
  · simp only [List.mem_singleton, forall_eq]
    intro o ho
    obtain rfl : 0 = o := Option.some.inj ho
    exact dvd_zero _
  · intro p hp
    obtain ⟨i, hi, rfl⟩ := List.mem_map.mp hp
    have hlt : i + 1 < 2 ^ K / slab := by
      have hi := List.mem_range.mp hi
      simp only [cant_max] at hi
      omega
    exact hlimpio (.slot i) (decide_eq_true hlt)
  · simp only [List.mem_singleton, forall_eq]
    exact Or.inr (hlimpio .element rfl)

/-- Each call leaves the dictionary well formed. -/
theorem paso_valido (h : Valido d l ps none) (hp : Paso d c e) :
    ∃ l' ps', Valido e l' ps' none ∧ e.table_max_size = d.table_max_size ∧
      e.slab_min_size = d.slab_min_size := by
  have hcall : ∀ n, Obtenido d n (aux_data_size n d.slab_min_size)
      (diccionario_obtenerDireccion_buddy d n) :=
    fun n => diccionario_obtenerDireccion_buddy_eq h rfl
  cases hp with
  | @asignar e it n nkey flags key hobt hkey =>
    have := hcall n
    rw [hobt] at this
    cases this with
    | @lugar f _ hpart hsmall =>
      obtain ⟨u, v, ps', hv⟩ := hpart.valido
      have huse : enUso (((reservar f it n).modificar it (fun i =>
          { i with nkey := nkey, flags := flags, key := key })).node it) = true := by
        simp [reservar, enUso, estaReservado, hkey]
      refine ⟨_, ps', hv.tocar (Or.inr rfl) (Or.inr huse) ?_ ?_ ⟨rfl, rfl, rfl, rfl⟩
        (Or.inl huse), hpart.max, hpart.slab⟩
      · intro p hp
        simp [reservar, hp]
      · simp [reservar]
  | @rechazar e n nkey hobt =>
    have := hcall n
    rw [hobt] at this
    cases this with
    | grande _ hmax hslab hv => exact ⟨_, _, hv, hmax, hslab⟩
  | @guardar it hour hin hu hhour =>
    obtain ⟨l', ps', hl', hmem⟩ := hin
    obtain rfl := h.listas.unique hl'
    obtain ⟨u, v, rfl⟩ := List.append_of_mem hmem
    have huse : enUso ((d.modificar it (fun i =>
        { i with ocupado := true, hour := hour })).node it) = true := by
      simp [enUso]
    refine ⟨_, ps, h.tocar (Or.inl rfl) (Or.inr huse) ?_ ?_ ⟨rfl, rfl, rfl, rfl⟩ (Or.inl huse),
      rfl, rfl⟩
    · intro p hp
      simp [hp]
    · simp
  | eliminar hin hu hel =>
    obtain ⟨l', ps', hl', hmem⟩ := hin
    obtain rfl := h.listas.unique hl'
    obtain ⟨u, v, rfl⟩ := List.append_of_mem hmem
    obtain ⟨e', u', v', ps'', he', hv', -, ha⟩ := diccionario_eliminar_buddy_eq h
    rw [hel] at he'
    obtain rfl := Except.ok.inj he'
    exact ⟨_, _, hv', ha.max, ha.slab⟩

theorem valido_alcanzable (h : Reachable (Creado K slab) Paso d) : ∃ l ps, Valido d l ps none ∧
    d.table_max_size = 2 ^ K ∧ d.slab_min_size = slab := by
  refine h.invariant (I := fun d => ∃ l ps, Valido d l ps none ∧ d.table_max_size = 2 ^ K ∧
    d.slab_min_size = slab) (fun _ hd => valido_creado hd) ?_
  rintro d c e ⟨l, ps, hv, hmax, hslab⟩ hp
  obtain ⟨l', ps', hv', hmax', hslab'⟩ := paso_valido hv hp
  exact ⟨l', ps', hv', hmax'.trans hmax, hslab'.trans hslab⟩

/-- In address order a chunk is followed by the one that starts where it ends. -/
theorem Bloques.adjacent {p q : Ptr} {o : Nat} (h : Bloques d l none) (hp : p ∈ l) (hq : q ∈ l)
    (hop : (d.node p).data = some o)
    (hoq : (d.node q).data = some (o + (d.node p).chunk_size)) : ∃ u v, l = u ++ p :: q :: v := by
  have hpos := h.pos hp
  obtain ⟨u, w, rfl⟩ := List.append_of_mem hp
  obtain ⟨m, hu, hm, hw⟩ := h.tiles.piece
  rw [hop] at hm
  obtain rfl := Option.some.inj hm
  -- chunks before `p` start before it, those behind it where it ends or later
  have hbefore : ∀ x ∈ u, ∀ a, (d.node x).data = some a → a ≤ o := by
    intro x hx a ha
    obtain ⟨a₁, a₂, rfl⟩ := List.append_of_mem hx
    obtain ⟨k, -, hk, hrest⟩ := hu.piece
    simp only [ha, Option.some.injEq] at hk
    have := hrest.le
    omega
  rcases List.mem_append.mp hq with hq | hq
  · have := hbefore q hq _ hoq
    omega
  rcases List.mem_cons.mp hq with rfl | hq
  · rw [hop] at hoq
    have := Option.some.inj hoq
    omega
  cases w with
  | nil => simp at hq
  | cons r v =>
    obtain ⟨hr, hv⟩ := hw
    rcases List.mem_cons.mp hq with rfl | hq
    · exact ⟨u, v, rfl⟩
    · obtain ⟨a₁, a₂, rfl⟩ := List.append_of_mem hq
      obtain ⟨k, hk, hqk, -⟩ := hv.piece
      simp only [hoq, Option.some.injEq] at hqk
      have hend := hk.le
      have hrpos : 0 < (d.node r).chunk_size := h.pos (by simp)
      simp only at hend
      omega

/-- The buddy invariant, in every state that calls of the routines can reach. -/
theorem invariante_buddy (h : Reachable (Creado K slab) Paso d) :
    ∃ l, d.elements = l.head? ∧
      -- the links are those of the list, in both directions
      DList (fun p => (d.node p).next) (fun p => (d.node p).prev) l ∧
      (∀ p ∈ l, ∀ q ∈ l, (d.node p).next = some q ↔ (d.node q).prev = some p) ∧
      -- the chunks tile the memory in address order
      Tiles (fun p => (d.node p).data) (fun p => (d.node p).chunk_size) 0 l (2 ^ K) ∧
      -- their sizes are aligned powers of two, not below a slab
      (∀ p ∈ l, (∃ k, (d.node p).chunk_size = 2 ^ k) ∧ slab ≤ (d.node p).chunk_size ∧
        ∃ o, (d.node p).data = some o ∧ (d.node p).chunk_size ∣ o) ∧
      -- no two buddies are both free
      (∀ p ∈ l, ∀ q ∈ l, ∀ o, (d.node p).chunk_size = (d.node q).chunk_size →
        (d.node p).data = some o → (d.node q).data = some (o + (d.node p).chunk_size) →
        2 * (d.node p).chunk_size ∣ o →
        ¬ (enUso (d.node p) = false ∧ enUso (d.node q) = false)) ∧
      -- a chunk that can be split finds an allocated node outside the list
      (∀ p ∈ l, slab ≤ (d.node p).chunk_size / 2 →
        ∃ n, d.nodes = some n ∧ d.allocated n = true ∧ n ∉ l) ∧
      -- no call runs out of such nodes, and each halves its chunk as far as it has to
      (∀ n, Obtenido d n (aux_data_size n slab) (diccionario_obtenerDireccion_buddy d n)) := by
  obtain ⟨l, ps, hv, hmax, hslab⟩ := valido_alcanzable h
  refine ⟨l, hv.listas.head, hv.listas.dlist, fun p hp q hq => hv.listas.dlist.inverse hp hq,
    ?_, ?_, ?_, ?_, ?_⟩
  · rw [← hmax]
    exact hv.bloques.tiles
  · intro p hp
    obtain ⟨u, v, rfl⟩ := List.append_of_mem hp
    obtain ⟨o, -, ho, -⟩ := hv.bloques.tiles.piece
    refine ⟨hv.bloques.power p hp, ?_, o, ho, hv.bloques.aligned p hp o ho⟩
    rw [← hslab]
    exact hv.bloques.slab p hp
  · rintro p hp q hq o hsize hop hoq hdvd ⟨hfp, hfq⟩
    obtain ⟨u, v, rfl⟩ := hv.bloques.adjacent hp hq hop hoq
    have hchain := (List.isChain_append.mp hv.bloques.merged).2.1
    refine (List.isChain_cons.mp hchain).1 q rfl (by simp) (by simp) ⟨hfp, hfq, hsize, ?_⟩
    intro o' ho'
    rw [hop] at ho'
    rwa [← Option.some.inj ho']
  · intro p hp hsize
    obtain ⟨u, v, rfl⟩ := List.append_of_mem hp
    obtain ⟨n, ps', rfl⟩ := hv.pool_ne (by rw [hslab]; exact hsize)
    refine ⟨n, by rw [hv.listas.top]; rfl, mem_all_nodes.mp (hv.listas.perm.mem_iff.mp (by simp)),
      ?_⟩
    intro hn
    have hpool := (List.nodup_append'.mp hv.listas.nodup).2.2
    exact hpool hn (by simp)
  · intro n
    exact diccionario_obtenerDireccion_buddy_eq hv (by rw [hslab])

/-- The invariant after a first allocation. -/
theorem invariante_buddy_asignado :
    ∃ d, Paso (diccionario_crear_buddy default 4 1) (.asignar 1 1) d ∧
      ∃ l, d.elements = l.head? ∧ DList (fun p => (d.node p).next) (fun p => (d.node p).prev) l ∧
        Tiles (fun p => (d.node p).data) (fun p => (d.node p).chunk_size) 0 l (2 ^ 2) := by
  obtain ⟨e, he⟩ : ∃ e, diccionario_obtenerDireccion_buddy
      (diccionario_crear_buddy default 4 1) 1 = .ok (e, some .element) := ⟨_, rfl⟩
  have hpaso : Paso _ (.asignar 1 1) (e.modificar .element
      (fun i => { i with nkey := 1, flags := 0, key := fun _ => 97 })) := .asignar he (by decide)
  have hcreado : Creado 2 1 (diccionario_crear_buddy default 4 1) :=
    ⟨by decide, by decide, default, rfl⟩
  obtain ⟨l, hhead, hlist, -, htiles, -⟩ :=
    invariante_buddy (reachable_step (reachable_init hcreado) hpaso)
  exact ⟨_, hpaso, l, hhead, hlist, htiles⟩

end Runs

end LaLiga.Rc
