import LaLiga.Rc.BuddyEngine

/-! What a client that holds an item can rely on, in either scheme. -/
namespace LaLiga.Rc

open LaLiga.Lib t_diccionario

/-- The schemes that the configuration can name. -/
inductive Modo
  | ParticionesDinamicas
  | BuddySystem

namespace Modo

/-- The routines that `justice_engine_inicializar` installs. -/
def esquema : Modo → Esquema
  | .ParticionesDinamicas => LaLiga.Rc.ParticionesDinamicas
  | .BuddySystem => LaLiga.Rc.BuddySystem

/-- A dictionary just created; in the buddy system the memory is a power of two. -/
def Creada : Modo → Nat → Nat → t_diccionario → Prop
  | .ParticionesDinamicas, max, slab, d => LaLiga.Rc.Creada max slab d
  | .BuddySystem, max, slab, d => ∃ K, max = 2 ^ K ∧ Creado K slab d

/-- The calls that leave the dictionary well formed. -/
def Permitida : Modo → t_diccionario → Operacion → Prop
  | .ParticionesDinamicas => LaLiga.Rc.Permitida
  | .BuddySystem => PermitidaBuddy

/-- The calls that give up the partition. -/
def Suelta : Modo → t_diccionario → Operacion → Ptr → Prop
  | .ParticionesDinamicas, d, c, p => LaLiga.Rc.Suelta d c p
  | .BuddySystem, d, c, p => ∃ e, EliminaBuddy d c e p

def Bien : Modo → Nat → Nat → t_diccionario → Prop
  | .ParticionesDinamicas => Formada
  | .BuddySystem => Ordenada

end Modo

/-- What the clients do: they call the engine, and write a byte of the value of an item
through the pointer that it has. -/
inductive Evento
  | llama (c : Operacion)
  | escribe (item : Ptr) (i : Nat) (b : UInt8)

inductive Ocurre (E : Esquema) : t_diccionario → Evento → t_diccionario → Prop
  | llama {d e : t_diccionario} {c : Operacion} : Ejecuta E d c e → Ocurre E d (.llama c) e
  | escribe {d : t_diccionario} {item : Ptr} {i o : Nat} {b : UInt8} :
      (d.node item).data = some o → i < (d.node item).data_size →
      Ocurre E d (.escribe item i b) { d with mem := Function.update d.mem (o + i) b }

/-- The calls are permitted and what is written to is in the list. -/
def Correcto (m : Modo) (d : t_diccionario) : Evento → Prop
  | .llama c => m.Permitida d c
  | .escribe item _ _ => EnLista d item

/-- What the others may do while a client holds `p`: give up other partitions and write to
other partitions. -/
def Cuida (m : Modo) (p : Ptr) (d : t_diccionario) : Evento → Prop
  | .llama c => m.Permitida d c ∧ ¬ m.Suelta d c p
  | .escribe item _ _ => EnLista d item ∧ item ≠ p

/-- `value[0]` is what `iov_base` and `iov_len` describe. -/
structure item_info where
  cas : Nat
  clsid : Nat
  exptime : Nat
  flags : Int
  nbytes : Nat
  key : Nat → UInt8
  nkey : Nat
  nvalue : Nat
  iov_base : Option Nat
  iov_len : Nat

def justice_engine_get_item_info (cache : t_diccionario) (it : Ptr) : item_info where
  cas := 0
  clsid := 0
  exptime := 0
  flags := (cache.node it).flags
  nbytes := (cache.node it).data_size
  key := (cache.node it).key
  nkey := (cache.node it).nkey
  nvalue := 1
  iov_base := (cache.node it).data
  iov_len := (cache.node it).data_size

/-- A client gets hold of an item. -/
inductive Obtiene (m : Modo) : t_diccionario → Ptr → t_diccionario → Prop
  | allocate {d e : t_diccionario} {p : Ptr} {turnos nkey nbytes : Nat} {key : Nat → UInt8}
      {flags : Int} : m.Permitida d (.allocate key nkey nbytes flags) →
      justice_engine_allocate m.esquema turnos d key nkey nbytes flags = .ok (e, some p) →
      Obtiene m d p e
  | get {d e : t_diccionario} {p : Ptr} {nkey : Nat} {key : Nat → UInt8} {hora : Int} :
      justice_engine_get d key nkey hora = .ok (e, some p) → Obtiene m d p e

section Holding

variable {m : Modo} {d d₀ e f : t_diccionario} {p q item : Ptr} {l ps : List Ptr}
  {max slab n nkey turnos : Nat} {key : Nat → UInt8} {flags hora : Int} {c : Operacion}
  {ev : Evento} {evs : List Evento} {datos : Nat → UInt8}

/-- A partition in use of a well formed dictionary. -/
structure Tiene (m : Modo) (max slab : Nat) (d : t_diccionario) (p : Ptr) : Prop where
  bien : m.Bien max slab d
  allocated : d.allocated p = true
  chunk : 0 < (d.node p).chunk_size
  uso : enUso (d.node p) = true

/-- What the schemes have in common: the partitions tile the memory, each with its value
in it, and what is in use is one of them. -/
structure Comun (max : Nat) (d : t_diccionario) (l ps : List Ptr) : Prop where
  listas : Listas d l ps
  tiles : Tiles (fun p => (d.node p).data) (fun p => (d.node p).chunk_size) 0 l max
  cabe : ∀ p ∈ l, (d.node p).data_size ≤ (d.node p).chunk_size
  mem_of_uso : ∀ p, d.allocated p = true → 0 < (d.node p).chunk_size → enUso (d.node p) = true →
    p ∈ l
  chunk : ∀ p ∈ l, 0 < (d.node p).chunk_size

theorem Modo.Bien.comun (h : m.Bien max slab d) : ∃ l ps, Comun max d l ps := by
  cases m with
  | ParticionesDinamicas =>
    obtain ⟨⟨l, ps, hp⟩, rfl, -⟩ := h
    exact ⟨l, ps, hp.listas, hp.tiles, hp.cabe, fun p ha hpos _ => hp.mem_of_chunk ha hpos,
      fun p hin => hp.chunk_pos hin⟩
  | BuddySystem =>
    obtain ⟨l, ps, hv, hcabe, rfl, -⟩ := h
    exact ⟨l, ps, hv.listas, hv.bloques.tiles, hcabe, fun p ha _ hu => hv.mem_of_uso ha hu,
      fun p hin => hv.bloques.pos hin⟩

theorem Modo.bien_creada (h : m.Creada max slab d) : m.Bien max slab d := by
  cases m with
  | ParticionesDinamicas => exact formada_creada h
  | BuddySystem =>
    obtain ⟨K, rfl, hc⟩ := h
    exact ordenada_creado hc

theorem Modo.Bien.step (h : m.Bien max slab d)
    (hs : Guarded m.Permitida (Ejecuta m.esquema) d c e) : m.Bien max slab e := by
  cases m with
  | ParticionesDinamicas => exact formada_step h hs
  | BuddySystem => exact ordenada_step h hs

theorem Listas.con_mem (h : Listas d l ps) : Listas { d with mem := datos } l ps :=
  ⟨h.dlist, h.head, h.pool, h.top, h.perm⟩

/-- The bytes of the values are no part of the structure. -/
theorem Modo.Bien.con_mem (h : m.Bien max slab d) : m.Bien max slab { d with mem := datos } := by
  cases m with
  | ParticionesDinamicas =>
    obtain ⟨⟨l, ps, hp⟩, hmax, hslab⟩ := h
    exact ⟨⟨l, ps, hp.listas.con_mem, hp.tiles, hp.slab, hp.cabe, hp.vacias, hp.libres, hp.total,
      hp.slab_pos, hp.max_lt⟩, hmax, hslab⟩
  | BuddySystem =>
    obtain ⟨l, ps, hv, hcabe, hmax, hslab⟩ := h
    have hb := hv.bloques
    exact ⟨l, ps, ⟨hv.listas.con_mem, ⟨hb.tiles, hb.power, hb.slab, hb.aligned, hb.merged⟩,
      hv.libres, hv.limpios, hv.slab_pos⟩, hcabe, hmax, hslab⟩

theorem bien_ocurre (h : m.Bien max slab d)
    (hs : Guarded (Correcto m) (Ocurre m.esquema) d ev e) : m.Bien max slab e := by
  obtain ⟨hc, hok⟩ := hs
  cases hok with
  | llama hok => exact h.step ⟨hc, hok⟩
  | escribe _ _ => exact h.con_mem

theorem bien_alcanzable
    (h : Reachable (m.Creada max slab) (Guarded (Correcto m) (Ocurre m.esquema)) d) :
    m.Bien max slab d :=
  h.invariant (fun _ hd => m.bien_creada hd) fun _ _ _ hd hstep => bien_ocurre hd hstep

theorem Tiene.intacta (h : Tiene m max slab d p) (hb : m.Bien max slab e) (hi : Intacta d p e)
    (ha : e.allocated p = d.allocated p) : Tiene m max slab e p :=
  ⟨hb, ha ▸ h.allocated, hi.chunk_size ▸ h.chunk, hi.enUso h.uso⟩

theorem Modo.Bien.allocated (h : m.Bien max slab d) (h' : m.Bien max slab e) :
    e.allocated p = d.allocated p := by
  have hsame : e.cant_max = d.cant_max := by
    cases m with
    | ParticionesDinamicas =>
      exact Particiones.cant_max_congr (h'.2.1.trans h.2.1.symm) (h'.2.2.trans h.2.2.symm)
    | BuddySystem =>
      obtain ⟨-, -, -, -, hmax, hslab⟩ := h
      obtain ⟨-, -, -, -, hmax', hslab'⟩ := h'
      exact Particiones.cant_max_congr (hmax'.trans hmax.symm) (hslab'.trans hslab.symm)
  cases p with
  | element => rfl
  | slot i => simp only [t_diccionario.allocated, hsame]

theorem Tiene.mem (h : Tiene m max slab d p) (hc : Comun max d l ps) : p ∈ l :=
  hc.mem_of_uso p h.allocated h.chunk h.uso

/-- A call leaves alone what it does not give up. -/
theorem Tiene.llama (h : Tiene m max slab d p) (hc : m.Permitida d c) (hs : ¬ m.Suelta d c p)
    (hok : Ejecuta m.esquema d c e) : Tiene m max slab e p ∧ Intacta d p e ∧
      (¬ Publica d c p → (e.node p).ocupado = (d.node p).ocupado) := by
  have hb := h.bien.step ⟨hc, hok⟩
  have hi : Intacta d p e ∧ (¬ Publica d c p → (e.node p).ocupado = (d.node p).ocupado) := by
    cases m with
    | ParticionesDinamicas =>
      exact ejecuta_intacta ⟨h.bien, h.allocated, h.chunk, h.uso⟩ hc hs hok
    | BuddySystem =>
      exact ejecuta_buddy_intacta h.bien h.uso hc (fun f hf => hs ⟨f, hf⟩) hok
  exact ⟨h.intacta hb hi.1 (h.bien.allocated hb), hi⟩

/-- Bytes written to another partition. -/
theorem Tiene.escribe {i o : Nat} {b : UInt8} (h : Tiene m max slab d p) (hin : EnLista d item)
    (hne : item ≠ p) (ho : (d.node item).data = some o) (hi : i < (d.node item).data_size) :
    Quieta d p { d with mem := Function.update d.mem (o + i) b } := by
  obtain ⟨l, ps, hc⟩ := h.bien.comun
  obtain ⟨l', ps', hl', hmem⟩ := hin
  obtain rfl := hc.listas.unique hl'
  refine ⟨rfl, ?_⟩
  intro o' ho' a hle hlt
  have hdisj := hc.tiles.disjoint (h.mem hc) hmem hne.symm ho' ho
  have hfit := hc.cabe item hmem
  have : a ≠ o + i := by
    rintro rfl
    omega
  simp [this]

theorem Tiene.step (h : Tiene m max slab d p)
    (hs : Guarded (Cuida m p) (Ocurre m.esquema) d ev e) :
    Tiene m max slab e p ∧ Intacta d p e := by
  obtain ⟨hc, hok⟩ := hs
  cases hok with
  | llama hok =>
    obtain ⟨ht, hi, -⟩ := h.llama hc.1 hc.2 hok
    exact ⟨ht, hi⟩
  | @escribe item i o b ho hi =>
    have hq := h.escribe (b := b) hc.1 hc.2 ho hi
    exact ⟨h.intacta h.bien.con_mem hq.intacta rfl, hq.intacta⟩

theorem Tiene.trace (h : Tiene m max slab d p)
    (hx : Trace (Guarded (Cuida m p) (Ocurre m.esquema)) d evs e) :
    Tiene m max slab e p ∧ Intacta d p e := by
  induction hx with
  | refl => exact ⟨h, .refl⟩
  | stepL hs _ ih =>
    obtain ⟨ht, hi⟩ := h.step hs
    obtain ⟨ht', hi'⟩ := ih ht
    exact ⟨ht', hi.trans hi'⟩

theorem Modo.permitida_get : m.Permitida d (.get key nkey hora) := by
  cases m with
  | ParticionesDinamicas => exact ⟨trivial, fun f it he => by cases he⟩
  | BuddySystem => exact ⟨trivial, fun it hit => by cases hit⟩

theorem Modo.no_suelta_get : ¬ m.Suelta d (.get key nkey hora) p := by
  cases m with
  | ParticionesDinamicas =>
    rintro (⟨f, it, he, -⟩ | ⟨f, hf, -⟩)
    · cases he
    · cases hf
  | BuddySystem =>
    rintro ⟨f, hf⟩
    cases hf

theorem get_some (hok : justice_engine_get d key nkey hora = .ok (e, some p)) :
    diccionario_obtener d key nkey = .ok (some p) ∧ (d.node p).ocupado = true := by
  rcases get_cases hok with ⟨-, hnone⟩ | ⟨it, hobt, hocupado, hit, -⟩
  · exact absurd hnone (by simp)
  · obtain rfl := Option.some.inj hit
    exact ⟨hobt, hocupado⟩

/-- What `get` hands out is stored under the key. -/
theorem get_tiene (h : m.Bien max slab d₀)
    (hok : justice_engine_get d₀ key nkey hora = .ok (d, some p)) :
    Tiene m max slab d p ∧ (d.node p).ocupado = true ∧ MismaClave d p key nkey := by
  obtain ⟨l, ps, hc⟩ := h.comun
  have hcall : Ejecuta m.esquema d₀ (.get key nkey hora) d :=
    ⟨0, by simp [ejecutar, hok, Except.map]⟩
  have hfound := get_some hok
  obtain ⟨hmem, -, hclave⟩ := obtener_en_lista hc.listas hfound.1
  have ht : Tiene m max slab d₀ p :=
    ⟨h, hc.listas.allocated hmem, hc.chunk p hmem, by simp [enUso, hfound.2]⟩
  obtain ⟨ht', hi, -⟩ := ht.llama Modo.permitida_get Modo.no_suelta_get hcall
  refine ⟨ht', hi.ocupado hfound.2, hi.nkey.trans hclave.1, ?_⟩
  rw [hi.igual t_dict_element.key fun _ => rfl]
  exact hclave.2

/-- What `allocate` hands out is reserved for the key. -/
theorem allocate_tiene (h : m.Bien max slab d₀) (hc : m.Permitida d₀ (.allocate key nkey n flags))
    (hok : justice_engine_allocate m.esquema turnos d₀ key nkey n flags = .ok (d, some p)) :
    Tiene m max slab d p ∧ Entregada d p key nkey n flags := by
  cases m with
  | ParticionesDinamicas =>
    obtain ⟨hu, he⟩ := allocate_entregada h hc hok
    exact ⟨⟨hu.formada, hu.allocated, hu.chunk, hu.uso⟩, he⟩
  | BuddySystem =>
    have hord := Ordenada.allocate h hc.1 hok
    obtain ⟨d₁, vs, f, -, -, -, hf, ⟨hno, -⟩ | ⟨g, item, heq, hin, hlibre, ha, -, hl, rfl, -⟩⟩ :=
      allocate_buddy_cases h hc.1 hok
    · cases hno
    obtain rfl := Option.some.inj heq
    have he : Entregada (nombrar (reservar g p n) p key nkey flags) p key nkey n flags :=
      entregada_nombrar hl.libre
    have hu := he.uso (Nat.pos_iff_ne_zero.mp hc.1.1)
    have hall : (nombrar (reservar g p n) p key nkey flags).allocated p = true := by
      rw [(show Modo.BuddySystem.Bien max slab f from hf).allocated hord]
      exact hin.allocated
    obtain ⟨l, ps, hv, -⟩ := id hord
    exact ⟨⟨hord, hall, hv.bloques.pos (hv.mem_of_uso hall hu), hu⟩, he⟩

theorem Tiene.of_lista (h : m.Bien max slab d) (hin : EnLista d p)
    (hu : enUso (d.node p) = true) : Tiene m max slab d p := by
  obtain ⟨l, ps, hc⟩ := h.comun
  obtain ⟨l', ps', hl', hmem⟩ := hin
  obtain rfl := hc.listas.unique hl'
  exact ⟨h, hc.listas.allocated hmem, hc.chunk p hmem, hu⟩

theorem Tiene.en_lista (h : Tiene m max slab d p) : EnLista d p := by
  obtain ⟨l, ps, hc⟩ := h.bien.comun
  exact ⟨l, ps, hc.listas, h.mem hc⟩

theorem Obtiene.tiene (h : m.Bien max slab d₀) (ho : Obtiene m d₀ p d) :
    Tiene m max slab d p := by
  cases ho with
  | allocate hc hok => exact (allocate_tiene h hc hok).1
  | get hok => exact (get_tiene h hok).1

end Holding

/-- The item keeps its description and its bytes while nobody gives it up. -/
theorem leido_estable {m : Modo} {d₀ d e : t_diccionario} {p : Ptr} {max slab nkey : Nat}
    {key : Nat → UInt8} {hora : Int} {evs : List Evento}
    (h : Reachable (m.Creada max slab) (Guarded (Correcto m) (Ocurre m.esquema)) d₀)
    (hget : justice_engine_get d₀ key nkey hora = .ok (d, some p))
    (hx : Trace (Guarded (Cuida m p) (Ocurre m.esquema)) d evs e) :
    MismaClave e p key nkey ∧
      justice_engine_get_item_info e p = justice_engine_get_item_info d p ∧
      ∃ o, (d.node p).data = some o ∧
        ∀ i < (d.node p).data_size, e.mem (o + i) = d.mem (o + i) := by
  obtain ⟨ht, -, hclave⟩ := get_tiene (bien_alcanzable h) hget
  obtain ⟨-, hi⟩ := ht.trace hx
  have hkey := hi.igual t_dict_element.key fun _ => rfl
  have hsize := hi.igual t_dict_element.data_size fun _ => rfl
  have hflags := hi.igual t_dict_element.flags fun _ => rfl
  refine ⟨⟨hi.nkey.trans hclave.1, by rw [hkey]; exact hclave.2⟩, ?_, ?_⟩
  · simp only [justice_engine_get_item_info, hkey, hsize, hflags, hi.nkey, hi.data]
  · obtain ⟨l, ps, hc⟩ := ht.bien.comun
    have hmem := ht.mem hc
    have hfit := hc.cabe p hmem
    obtain ⟨u, v, rfl⟩ := List.append_of_mem hmem
    obtain ⟨o, -, ho, -⟩ := hc.tiles.piece
    refine ⟨o, ho, ?_⟩
    intro i hlt
    exact hi.bytes o ho (o + i) (by omega) (by omega)

/-- Another client asks for a key that is not there. -/
theorem leido_estable_consulta : ∃ d₀ d e,
    justice_engine_get d₀ (fun _ => 97) 1 2 = .ok (d, some .element) ∧
    Ejecuta ParticionesDinamicas d (.get (fun _ => 98) 1 3) e ∧
    justice_engine_get_item_info e .element = justice_engine_get_item_info d .element := by
  obtain ⟨d₁, d₀, d, e, hallocate, hstore, hget, hother⟩ : ∃ d₁ d₀ d e,
      ejecutar ParticionesDinamicas 1 (diccionario_crear default 40 4)
        (.allocate (fun _ => 97) 1 4 0) = .ok d₁ ∧
      ejecutar ParticionesDinamicas 0 d₁ (.store .element 1) = .ok d₀ ∧
      justice_engine_get d₀ (fun _ => 97) 1 2 = .ok (d, some .element) ∧
      ejecutar ParticionesDinamicas 0 d (.get (fun _ => 98) 1 3) = .ok e :=
    ⟨_, _, _, _, rfl, rfl, rfl, rfl⟩
  have hcuida : Cuida .ParticionesDinamicas .element d (.llama (.get (fun _ => 98) 1 3)) :=
    ⟨Modo.permitida_get, Modo.no_suelta_get⟩
  have hreach : Reachable (Modo.ParticionesDinamicas.Creada 40 4)
      (Guarded (Correcto .ParticionesDinamicas) (Ocurre ParticionesDinamicas)) d₀ := by
    refine reachable_step (reachable_step (reachable_init creada_cuarenta)
      (a := .llama (.allocate (fun _ => 97) 1 4 0)) ⟨permitida_primera, .llama ⟨1, hallocate⟩⟩)
      (a := .llama (.store .element 1)) ⟨⟨trivial, fun f it he => by cases he⟩, .llama ⟨0, hstore⟩⟩
  have h := leido_estable (m := .ParticionesDinamicas) hreach hget
    (.single ⟨hcuida, .llama ⟨0, hother⟩⟩)
  exact ⟨d₀, d, e, hget, ⟨0, hother⟩, h.2.1⟩

/-- Another client removes the key: the item that is being sent has no bytes any more. -/
theorem leido_quitado : ∃ d₀ d e p,
    Reachable (Creada 40 4) (Ejecuta ParticionesDinamicas) d₀ ∧
    justice_engine_get d₀ (fun _ => 97) 1 2 = .ok (d, some p) ∧
    Ejecuta ParticionesDinamicas d (.remove (fun _ => 97) 1) e ∧
    justice_engine_get_item_info e p ≠ justice_engine_get_item_info d p := by
  obtain ⟨d₀, d, e, hset, hget, hremove, hfour, hzero⟩ : ∃ d₀ d e,
      correr ParticionesDinamicas 1 (diccionario_crear default 40 4)
        [.allocate (fun _ => 97) 1 4 0, .store .element 1] = .ok d₀ ∧
      justice_engine_get d₀ (fun _ => 97) 1 2 = .ok (d, some .element) ∧
      ejecutar ParticionesDinamicas 0 d (.remove (fun _ => 97) 1) = .ok e ∧
      (d.node .element).data_size = 4 ∧ (e.node .element).data_size = 0 :=
    ⟨_, _, _, rfl, rfl, rfl, rfl, rfl⟩
  refine ⟨d₀, d, e, .element, ⟨_, _, creada_cuarenta, correr_trace hset⟩, hget, ⟨0, hremove⟩, ?_⟩
  intro hsame
  have hbytes := congrArg item_info.nbytes hsame
  simp only [justice_engine_get_item_info] at hbytes
  omega

end LaLiga.Rc
