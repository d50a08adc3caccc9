import LaLiga.Rc.BuddySystem
import LaLiga.Rc.Reservas

/-! The calls of the engine with the buddy system. -/
namespace LaLiga.Rc

open LaLiga.Lib t_diccionario

def BuddySystem : Esquema where
  f_eliminar d it := (diccionario_eliminar_buddy d it).map (fun e => (e, it))
  f_obtenerDireccion _ d data_size := diccionario_obtenerDireccion_buddy d data_size

theorem f_eliminar_buddy : BuddySystem.f_eliminar =
    fun d it => (diccionario_eliminar_buddy d it).map (fun e => (e, it)) := rfl

theorem f_obtenerDireccion_buddy {turnos data_size : Nat} {d : t_diccionario} :
    BuddySystem.f_obtenerDireccion turnos d data_size =
      diccionario_obtenerDireccion_buddy d data_size := by
  simp only [BuddySystem]

/-- A well formed dictionary of the given sizes, each value in its chunk. -/
def Ordenada (max slab : Nat) (d : t_diccionario) : Prop :=
  ∃ l ps, Valido d l ps none ∧ (∀ p ∈ l, (d.node p).data_size ≤ (d.node p).chunk_size) ∧
    d.table_max_size = max ∧ d.slab_min_size = slab

section Eliminar

variable {d e : t_diccionario} {l ps : List Ptr} {it p : Ptr} {max slab : Nat} {i : Option Ptr}

theorem mem_unir {hno : Ptr} {data : Option Nat} : (unir d it hno data).mem = d.mem := by
  simp [unir]

theorem unir_hermanos_inl {s t : t_diccionario × Option Ptr × Option Nat}
    (h : unir_hermanos it s = .ok (.inl t)) :
    ∃ hno, s.2.1 = some hno ∧ enUso (s.1.node hno) = false ∧ t.1 = unir s.1 it hno s.2.2 ∧
      elegir_hermano t.1 it s.2.2 = .ok t.2 := by
  obtain ⟨d, o, data⟩ := s
  cases o with
  | none => simp [unir_hermanos] at h
  | some hno =>
    simp only [unir_hermanos] at h
    split_ifs at h with htest
    · cases hr : elegir_hermano (unir d it hno data) it data with
      | error f => simp [hr] at h
      | ok r =>
        simp only [hr] at h
        obtain rfl := Sum.inl.inj (Except.ok.inj h)
        rw [Bool.and_eq_true, Bool.not_eq_true'] at htest
        exact ⟨hno, rfl, htest.1, rfl, hr⟩
    · simp at h

theorem unir_hermanos_inr {s : t_diccionario × Option Ptr × Option Nat}
    (h : unir_hermanos it s = .ok (.inr e)) : e = s.1 := by
  obtain ⟨d, o, data⟩ := s
  cases o with
  | none => exact (Sum.inr.inj (Except.ok.inj h)).symm
  | some hno =>
    simp only [unir_hermanos] at h
    split_ifs at h
    · cases hr : elegir_hermano (unir d it hno data) it data <;> simp [hr] at h
    · exact (Sum.inr.inj (Except.ok.inj h)).symm

/-- What merging leaves alone, a release leaves as clearing the element has left it. -/
theorem eliminar_buddy_igual {β : Type} (g : t_diccionario → β)
    (hunir : ∀ d hno data, g (unir d it hno data) = g d)
    (h : diccionario_eliminar_buddy d it = .ok e) : g e = g (d.limpiar it) := by
  unfold diccionario_eliminar_buddy at h
  cases hr : elegir_hermano d it (d.node it).data with
  | error f => simp [hr] at h
  | ok r =>
    simp only [hr] at h
    have hstep : ∀ s t : t_diccionario × Option Ptr × Option Nat,
        g s.1 = g (d.limpiar it) → unir_hermanos it s = .ok (.inl t) →
          g t.1 = g (d.limpiar it) := by
      intro s t hs hturn
      obtain ⟨hno, -, -, ht, -⟩ := unir_hermanos_inl hturn
      rw [ht, hunir, hs]
    obtain ⟨s, -, hs, hlast⟩ := loop_turns (fun s t _ => hstep s t) rfl _ h
    rw [unir_hermanos_inr hlast, hs]

theorem mem_eliminar_buddy (h : diccionario_eliminar_buddy d it = .ok e) : e.mem = d.mem :=
  eliminar_buddy_igual t_diccionario.mem (fun _ _ _ => mem_unir) h

/-- A node in use is in the list. -/
theorem Valido.mem_of_uso (h : Valido d l ps i) (ha : d.allocated p = true)
    (hu : enUso (d.node p) = true) : p ∈ l := by
  by_contra hnot
  have hpool := (h.listas.mem_pool).mpr ⟨mem_all_nodes.mpr ha, hnot⟩
  rw [(h.libres p hpool).libre] at hu
  exact absurd hu (by simp)

theorem Valido.allocated (h : Valido d l ps i) (hp : p ∈ l) : d.allocated p = true :=
  h.listas.allocated hp

theorem Ajeno.allocated (h : Ajeno d it e) : e.allocated p = d.allocated p := by
  have hcant : e.cant_max = d.cant_max := by simp only [cant_max, h.max, h.slab]
  cases p with
  | element => rfl
  | slot i => simp only [t_diccionario.allocated, hcant]

theorem Ajeno.all_nodes (h : Ajeno d it e) : e.all_nodes = d.all_nodes := by
  simp only [t_diccionario.all_nodes, cant_max, h.max, h.slab]

/-- What is in use and untouched still has its value in its chunk. -/
theorem Ajeno.cabe {l' ps' : List Ptr} {j : Option Ptr} (ha : Ajeno d it e) (h : Valido d l ps i)
    (h' : Valido e l' ps' j) (hl : Limpio (e.node it))
    (hcabe : ∀ p ∈ l, (d.node p).data_size ≤ (d.node p).chunk_size) :
    ∀ p ∈ l', (e.node p).data_size ≤ (e.node p).chunk_size := by
  intro p hp
  by_cases hit : p = it
  · subst hit
    rw [hl.data_size]
    exact Nat.zero_le _
  · rcases h'.limpios p hp with hu | hlimpio
    · have hud : enUso (d.node p) = true := by rw [← ha.uso p hit, hu]
      have hsame := ha.contenido p hit hud
      have hin := h.mem_of_uso (by rw [← ha.allocated, h'.allocated hp]) hud
      have hdata : (e.node p).data_size = (d.node p).data_size :=
        (congrArg t_dict_element.data_size hsame :)
      rw [hdata, (contenido_congr hsame).2.1]
      exact hcabe p hin
    · rw [hlimpio.data_size]
      exact Nat.zero_le _

theorem Ajeno.quieta (h : Ajeno d it e) (hm : e.mem = d.mem) (hne : p ≠ it)
    (hu : enUso (d.node p) = true) : Quieta d p e := .of_contenido (h.contenido p hne hu) hm

/-- A release in the buddy system touches nothing else that is in use. -/
theorem Ordenada.eliminar (h : Ordenada max slab d) (hit : EnLista d it) :
    ∃ e, diccionario_eliminar_buddy d it = .ok e ∧ Ordenada max slab e ∧ Limpio (e.node it) ∧
      Ajeno d it e ∧ e.mem = d.mem := by
  obtain ⟨l, ps, hv, hcabe, hmax, hslab⟩ := h
  obtain ⟨l', ps', hl', hmem⟩ := hit
  obtain rfl := hv.listas.unique hl'
  obtain ⟨u, v, rfl⟩ := List.append_of_mem hmem
  obtain ⟨e, u', v', ps'', he, hv', hl, ha⟩ := diccionario_eliminar_buddy_eq hv
  exact ⟨e, he, ⟨_, ps'', hv', ha.cabe hv hv' hl hcabe, ha.max.trans hmax, ha.slab.trans hslab⟩, hl,
    ha, mem_eliminar_buddy he⟩

end Eliminar

/-- An eviction of the search. -/
def Desaloja (data_size : Nat) (d : t_diccionario) (victima : Ptr) (e : t_diccionario) : Prop :=
  primer_ajuste d (aux_data_size data_size d.slab_min_size) = .ok none ∧
    diccionario_elegirVictima d = .ok victima ∧ diccionario_eliminar_buddy d victima = .ok e

/-- The releases that a call makes, with the states in which it makes them. -/
inductive EliminaBuddy : t_diccionario → Operacion → t_diccionario → Ptr → Prop
  | reemplazo {d : t_diccionario} {key : Nat → UInt8} {nkey nbytes : Nat} {flags : Int} {it : Ptr} :
      diccionario_obtener d key nkey = .ok (some it) → (d.node it).ocupado = true →
      EliminaBuddy d (.allocate key nkey nbytes flags) d it
  | victima {d e f g : t_diccionario} {key : Nat → UInt8} {nkey nbytes : Nat} {flags : Int}
      {victimas : List Ptr} {it : Ptr} :
      reemplazar BuddySystem d key nkey = .ok e → Trace (Desaloja nbytes) e victimas f →
      Desaloja nbytes f it g → EliminaBuddy d (.allocate key nkey nbytes flags) f it
  | remove {d : t_diccionario} {key : Nat → UInt8} {nkey : Nat} {it : Ptr} :
      diccionario_obtener d key nkey = .ok (some it) → EliminaBuddy d (.remove key nkey) d it
  | flush {d e : t_diccionario} {it : Ptr} :
      Turns (limpiar_turno BuddySystem) (d, d.elements) (e, some it) →
      (e.node it).nkey ≠ 0 → EliminaBuddy d .flush e it

/-- The calls that the code gets right: a release of an element that is not stored runs the
routine of the other scheme. -/
def PermitidaBuddy (d : t_diccionario) (c : Operacion) : Prop :=
  Pedido c ∧ ∀ item, c = .release item → (d.node item).ocupado = true

section Calls

variable {d e f g : t_diccionario} {l u v ps vs : List Ptr} {it item p : Ptr}
  {max slab n nkey aux : Nat} {key : Nat → UInt8} {flags : Int} {c : Operacion}

theorem obtener_en_lista (hl : Listas d l ps)
    (hok : diccionario_obtener d key nkey = .ok (some it)) :
    it ∈ l ∧ (d.node it).nkey ≠ 0 ∧ MismaClave d it key nkey := by
  unfold diccionario_obtener at hok
  rw [buscar_eq hl.dlist.next hl.head (Nat.lt_succ_iff.mp hl.length_lt_turns)] at hok
  have hfind := Except.ok.inj hok
  have := List.find?_some hfind
  simp only [Bool.and_eq_true, bne_iff_ne, ne_eq, beq_iff_eq, List.all_eq_true,
    List.mem_range] at this
  exact ⟨List.mem_of_find?_eq_some hfind, this.1.1, this.1.2, this.2⟩

theorem Ordenada.obtener (h : Ordenada max slab d)
    (hok : diccionario_obtener d key nkey = .ok (some it)) :
    EnLista d it ∧ (d.node it).nkey ≠ 0 := by
  obtain ⟨l, ps, hv, -⟩ := h
  obtain ⟨hmem, hnkey, -⟩ := obtener_en_lista hv.listas hok
  exact ⟨⟨l, ps, hv.listas, hmem⟩, hnkey⟩

theorem enUso_of_nkey {i : t_dict_element} (h : i.nkey ≠ 0) : enUso i = true := by
  cases ho : i.ocupado <;> simp [enUso, estaReservado, ho, h]

/-- The last turn of the search, or an eviction. -/
theorem Ordenada.turno (h : Ordenada max slab d) :
    Turno d n (aux_data_size n slab) (buscar_lugar_buddy n d) := by
  obtain ⟨l, ps, hv, -, -, rfl⟩ := h
  exact buscar_lugar_buddy_turno hv rfl

theorem Ordenada.desaloja (h : Ordenada max slab d) (hd : Desaloja n d it e) :
    Ordenada max slab e ∧ Limpio (e.node it) ∧ Ajeno d it e ∧ e.mem = d.mem := by
  obtain ⟨l, ps, hv, -⟩ := id h
  rcases diccionario_elegirVictima_eq hv.listas with ⟨herror, -⟩ | ⟨victima, hmem, hok, -⟩
  · rw [hd.2.1] at herror
    exact absurd herror (by simp)
  · rw [hd.2.1] at hok
    obtain rfl := Except.ok.inj hok
    obtain ⟨e', he', hrest⟩ := h.eliminar ⟨l, ps, hv.listas, hmem⟩
    rw [hd.2.2] at he'
    obtain rfl := Except.ok.inj he'
    exact hrest

theorem Ordenada.desalojos (h : Ordenada max slab d) (hx : Trace (Desaloja n) d vs e) :
    Ordenada max slab e := hx.invariant (fun _ _ _ hd hstep => (hd.desaloja hstep).1) h

/-- A turn of the search that goes on is an eviction. -/
theorem Ordenada.turno_desaloja (h : Ordenada max slab d)
    (hturn : buscar_lugar_buddy n d = .ok (.inl e)) : ∃ it, Desaloja n d it e := by
  have hturno := h.turno (n := n)
  rw [hturn] at hturno
  cases hturno with
  | desaloja hnone hvictima _ _ hel =>
    obtain ⟨-, -, -, -, -, hslab⟩ := h
    exact ⟨_, by rwa [hslab], hvictima, hel⟩

/-- What a search of the buddy system does: evictions, then a refusal or a split. -/
theorem Ordenada.obtenerDireccion (h : Ordenada max slab d) {r : Option Ptr}
    (hok : diccionario_obtenerDireccion_buddy d n = .ok (e, r)) :
    ∃ vs f, Trace (Desaloja n) d vs f ∧ Ordenada max slab f ∧
      (r = none ∧ e = f ∧ max < aux_data_size n slab ∨
        ∃ g item, r = some item ∧ e = reservar g item n ∧ EnLista f item ∧
          enUso (f.node item) = false ∧ Partiendo f (aux_data_size n slab) item g ∧
          Ajeno f item g ∧ g.mem = f.mem) := by
  have hstep : ∀ x y, (∃ vs, Trace (Desaloja n) d vs x) → buscar_lugar_buddy n x = .ok (.inl y) →
      ∃ vs, Trace (Desaloja n) d vs y := by
    rintro x y ⟨vs, hx⟩ hturn
    obtain ⟨it, hd⟩ := (h.desalojos hx).turno_desaloja hturn
    exact ⟨_, hx.snoc hd⟩
  unfold diccionario_obtenerDireccion_buddy at hok
  obtain ⟨f, -, ⟨vs, hx⟩, hlast⟩ := loop_turns (fun x y _ => hstep x y) ⟨[], .refl⟩ _ hok
  have hf := h.desalojos hx
  refine ⟨vs, f, hx, hf, ?_⟩
  have hturno := hf.turno (n := n)
  rw [hlast] at hturno
  cases hturno with
  | grande hbig =>
    obtain ⟨-, -, -, -, hmax, -⟩ := hf
    exact Or.inl ⟨rfl, rfl, hmax ▸ hbig⟩
  | lugar hin hlibre hp _ ha hm =>
    exact Or.inr ⟨_, _, rfl, rfl, hin, hlibre, hp, ha, hm⟩

/-- The chunk found goes to the key. -/
theorem Ordenada.nombrar (h : Ordenada max slab f) (hp : Partiendo f aux item g)
    (ha : Ajeno f item g) (hfits : n ≤ aux) (hpos : nkey ≠ 0) :
    Ordenada max slab (nombrar (reservar g item n) item key nkey flags) := by
  obtain ⟨l, ps, hv, hcabe, hmax, hslab⟩ := h
  obtain ⟨u, v, ps', hv'⟩ := hp.valido
  have huse : enUso ((LaLiga.Rc.nombrar (reservar g item n) item key nkey flags).node item) =
      true := enUso_of_nkey (by simpa [LaLiga.Rc.nombrar] using hpos)
  refine ⟨_, ps', hv'.tocar (Or.inr rfl) (Or.inr huse) ?_ ?_ ⟨rfl, rfl, rfl, rfl⟩ (Or.inl huse), ?_,
    hp.max.trans hmax, hp.slab.trans hslab⟩
  · intro p hne
    simp [LaLiga.Rc.nombrar, reservar, hne]
  · simp [LaLiga.Rc.nombrar, reservar]
  · intro p hin
    by_cases hit : p = item
    · subst hit
      have := hp.fits
      simp only [LaLiga.Rc.nombrar, reservar, node_modificar, if_true]
      omega
    · have := ha.cabe hv hv' hp.limpio hcabe p hin
      simpa [LaLiga.Rc.nombrar, reservar, hit] using this

/-- Changes of an element in use that concern neither its place nor its size. -/
theorem Ordenada.modificar (h : Ordenada max slab d) (hin : EnLista d it)
    {f : t_dict_element → t_dict_element} (hu : enUso (f (d.node it)) = true)
    (hlinks : (f (d.node it)).next = (d.node it).next ∧ (f (d.node it)).prev = (d.node it).prev ∧
      (f (d.node it)).data = (d.node it).data ∧
      (f (d.node it)).chunk_size = (d.node it).chunk_size)
    (hdata : (f (d.node it)).data_size = (d.node it).data_size) :
    Ordenada max slab (d.modificar it f) := by
  obtain ⟨l, ps, hv, hcabe, hmax, hslab⟩ := h
  obtain ⟨l', ps', hl', hmem⟩ := hin
  obtain rfl := hv.listas.unique hl'
  obtain ⟨u, v, rfl⟩ := List.append_of_mem hmem
  have hself : (d.modificar it f).node it = f (d.node it) := by simp
  refine ⟨_, ps, hv.tocar (Or.inl rfl) (Or.inr (hself ▸ hu)) (fun p hne => by simp [hne])
    (hself ▸ hlinks) ⟨rfl, rfl, rfl, rfl⟩ (Or.inl (hself ▸ hu)), ?_, hmax, hslab⟩
  intro p hp
  by_cases hit : p = it
  · subst hit
    rw [hself, hdata, hlinks.2.2.2]
    exact hcabe p hp
  · simpa [hit] using hcabe p hp

theorem f_eliminar_buddy_ok (h : BuddySystem.f_eliminar d it = .ok (e, p)) :
    diccionario_eliminar_buddy d it = .ok e ∧ p = it := by
  rw [f_eliminar_buddy] at h
  cases hel : diccionario_eliminar_buddy d it with
  | error f => simp [hel, Except.map] at h
  | ok e' =>
    simp only [hel, Except.map] at h
    obtain ⟨rfl, rfl⟩ := Prod.mk.inj (Except.ok.inj h)
    exact ⟨rfl, rfl⟩

theorem Ordenada.f_eliminar (h : Ordenada max slab d) (hit : EnLista d it)
    (hok : BuddySystem.f_eliminar d it = .ok (e, p)) :
    Ordenada max slab e ∧ Limpio (e.node it) ∧ Ajeno d it e ∧ e.mem = d.mem := by
  obtain ⟨hel, -⟩ := f_eliminar_buddy_ok hok
  obtain ⟨e', he', hrest⟩ := h.eliminar hit
  rw [hel] at he'
  obtain rfl := Except.ok.inj he'
  exact hrest

/-- The steps of an allocation: the old value goes, elements are evicted, and a chunk is
split and named if the size is not over the memory's. -/
theorem allocate_buddy_cases (h : Ordenada max slab d)
    (hc : Pedido (.allocate key nkey n flags)) {turnos : Nat} {r : Option Ptr}
    (hok : justice_engine_allocate BuddySystem turnos d key nkey n flags = .ok (e, r)) :
    ∃ d₁ vs f, reemplazar BuddySystem d key nkey = .ok d₁ ∧ Ordenada max slab d₁ ∧
      Trace (Desaloja n) d₁ vs f ∧ Ordenada max slab f ∧
      (r = none ∧ e = f ∧ max < aux_data_size n slab ∨
        ∃ g item, r = some item ∧ EnLista f item ∧ enUso (f.node item) = false ∧
          Ajeno f item g ∧ g.mem = f.mem ∧ Limpio (g.node item) ∧
          e = nombrar (reservar g item n) item key nkey flags ∧ Ordenada max slab e) := by
  have hpos : nkey ≠ 0 := Nat.pos_iff_ne_zero.mp hc.1
  have hfits : n ≤ aux_data_size n slab := le_of_aux hc.2.2
  obtain ⟨d₁, d₂, hree, hsearch, hcase⟩ := allocate_inv hok
  have h₁ : Ordenada max slab d₁ := by
    rcases reemplazar_cases hree with ⟨rfl, -⟩ | ⟨it, it', hobt, -, hel⟩
    · exact h
    · exact (h.f_eliminar (h.obtener hobt).1 hel).1
  rw [f_obtenerDireccion_buddy] at hsearch
  obtain ⟨vs, f, hx, hf, hfound⟩ := h₁.obtenerDireccion hsearch
  refine ⟨d₁, vs, f, hree, h₁, hx, hf, ?_⟩
  rcases hfound with ⟨rfl, rfl, hbig⟩ | ⟨g, item, rfl, rfl, hin, hlibre, hp, ha, hm⟩
  · rcases hcase with ⟨-, rfl⟩ | ⟨it, hit, -⟩
    · exact Or.inl ⟨rfl, rfl, hbig⟩
    · exact absurd hit (by simp)
  · rcases hcase with ⟨hnone, -⟩ | ⟨it, hit, -, rfl⟩
    · exact absurd hnone (by simp)
    · obtain rfl := Option.some.inj hit
      exact Or.inr ⟨g, item, rfl, hin, hlibre, ha, hm, hp.limpio, rfl,
        hf.nombrar hp ha hfits hpos⟩

theorem EnLista.next (h : EnLista d it) (hq : (d.node it).next = some p) : EnLista d p := by
  obtain ⟨l, ps, hl, hmem⟩ := h
  obtain ⟨u, v, rfl⟩ := List.append_of_mem hmem
  rw [hl.dlist.next_eq] at hq
  exact ⟨_, ps, hl, by simp [List.mem_of_head? hq]⟩

theorem Ordenada.en_lista (h : Ordenada max slab d) (ha : d.allocated p = true)
    (hu : enUso (d.node p) = true) : EnLista d p := by
  obtain ⟨l, ps, hv, -⟩ := h
  exact ⟨l, ps, hv.listas, hv.mem_of_uso ha hu⟩

theorem Ordenada.allocate (h : Ordenada max slab d) (hc : Pedido (.allocate key nkey n flags))
    {turnos : Nat} {r : Option Ptr}
    (hok : justice_engine_allocate BuddySystem turnos d key nkey n flags = .ok (e, r)) :
    Ordenada max slab e := by
  obtain ⟨d₁, vs, f, -, -, -, hf, ⟨-, rfl, -⟩ | ⟨g, item, -, -, -, -, -, -, -, he⟩⟩ :=
    allocate_buddy_cases h hc hok
  · exact hf
  · exact he

theorem desalojos_quieta (h : Ordenada max slab d) (hx : Trace (Desaloja n) d vs e)
    (hu : enUso (d.node p) = true) (hno : p ∉ vs) : Quieta d p e := by
  induction hx with
  | refl => exact .refl
  | @stepL d f e it vs hstep _ ih =>
    obtain ⟨hf, -, ha, hm⟩ := h.desaloja hstep
    have hne : p ≠ it := by
      rintro rfl
      exact hno (by simp)
    have hq := ha.quieta hm hne hu
    exact hq.trans (ih hf (hq.enUso.trans hu) fun hin => hno (by simp [hin]))

theorem reemplazar_buddy_quieta (h : Ordenada max slab d) (hu : enUso (d.node p) = true)
    (hs : ∀ it, diccionario_obtener d key nkey = .ok (some it) → (d.node it).ocupado = true →
      p ≠ it) (hok : reemplazar BuddySystem d key nkey = .ok e) : Quieta d p e := by
  rcases reemplazar_cases hok with ⟨rfl, -⟩ | ⟨it, it', hobt, hocupado, hel⟩
  · exact .refl
  · obtain ⟨-, -, ha, hm⟩ := h.f_eliminar (h.obtener hobt).1 hel
    exact ha.quieta hm (hs it hobt hocupado) hu

/-- An allocation that does not remove `p` does not hand it out either. -/
theorem allocate_buddy_quieta (h : Ordenada max slab d) (hu : enUso (d.node p) = true)
    (hc : Pedido (.allocate key nkey n flags))
    (hs : ∀ f, ¬ EliminaBuddy d (.allocate key nkey n flags) f p) {turnos : Nat} {r : Option Ptr}
    (hok : justice_engine_allocate BuddySystem turnos d key nkey n flags = .ok (e, r)) :
    Quieta d p e ∧ r ≠ some p := by
  obtain ⟨d₁, vs, f, hree, h₁, hx, hf, hcase⟩ := allocate_buddy_cases h hc hok
  have hq₁ : Quieta d p d₁ := by
    refine reemplazar_buddy_quieta h hu ?_ hree
    rintro it hobt hocupado rfl
    exact hs d (.reemplazo hobt hocupado)
  have hno : p ∉ vs := by
    intro hin
    obtain ⟨v, w, rfl⟩ := List.append_of_mem hin
    obtain ⟨t, t', hv, hstep, -⟩ := hx.split
    exact hs t (.victima hree hv hstep)
  have hq := hq₁.trans (desalojos_quieta h₁ hx (hq₁.enUso.trans hu) hno)
  rcases hcase with ⟨rfl, rfl, -⟩ | ⟨g, item, rfl, -, hlibre, ha, hm, -, rfl, -⟩
  · exact ⟨hq, by simp⟩
  · have huf := hq.enUso.trans hu
    have hne : p ≠ item := by
      rintro rfl
      rw [hlibre] at huf
      exact absurd huf (by simp)
    exact ⟨(hq.trans (ha.quieta hm hne huf)).trans (nombrar_quieta hne), by simpa using hne.symm⟩

/-- The turns of a flush: they clear elements of the list. -/
theorem limpiar_buddy_turno {o o' : Option Ptr} (h : Ordenada max slab d)
    (hin : ∀ it, o = some it → EnLista d it)
    (hturn : limpiar_turno BuddySystem (d, o) = .ok (.inl (e, o'))) :
    ∃ it, o = some it ∧ o' = (e.node it).next ∧ Ordenada max slab e ∧
      (∀ it, o' = some it → EnLista e it) ∧
      ((d.node it).nkey = 0 ∧ e = d ∨ (d.node it).nkey ≠ 0 ∧ Limpio (e.node it) ∧
        Ajeno d it e ∧ e.mem = d.mem ∧ diccionario_eliminar_buddy d it = .ok e) := by
  cases o with
  | none => simp [limpiar_turno] at hturn
  | some it =>
    have hit := hin it rfl
    rcases limpiar_turno_inl hturn with ⟨hnkey, rfl, rfl⟩ | ⟨it', hnkey, hel, ho⟩
    · exact ⟨it, rfl, rfl, h, fun q hq => hit.next hq, Or.inl ⟨hnkey, rfl⟩⟩
    · obtain ⟨hok, rfl⟩ := f_eliminar_buddy_ok hel
      obtain ⟨he, hl, ha, hm⟩ := h.f_eliminar hit hel
      refine ⟨it', rfl, ho, he, ?_, Or.inr ⟨hnkey, hl, ha, hm, hok⟩⟩
      obtain ⟨l, ps, hv, -⟩ := h
      obtain ⟨l', ps', hl', hmem⟩ := hit
      obtain rfl := hv.listas.unique hl'
      obtain ⟨u, v, rfl⟩ := List.append_of_mem hmem
      obtain ⟨e', u', v', ps'', he', hv', -⟩ := diccionario_eliminar_buddy_eq hv
      rw [hok] at he'
      obtain rfl := Except.ok.inj he'
      intro q hq
      rw [ho] at hq
      exact EnLista.next ⟨_, _, hv'.listas, by simp⟩ hq

theorem Ordenada.en_cabeza (h : Ordenada max slab d) (hit : d.elements = some it) :
    EnLista d it := by
  obtain ⟨l, ps, hv, -⟩ := h
  rw [hv.listas.head] at hit
  exact ⟨l, ps, hv.listas, List.mem_of_head? hit⟩

theorem flush_buddy_quieta {turnos : Nat} (h : Ordenada max slab d)
    (hok : justice_engine_flush BuddySystem turnos d = .ok e) :
    Ordenada max slab e ∧ ∀ p, enUso (d.node p) = true → (∀ f, ¬ EliminaBuddy d .flush f p) →
      Quieta d p e := by
  have hstep : ∀ x y : t_diccionario × Option Ptr,
      Turns (limpiar_turno BuddySystem) (d, d.elements) x →
      (Ordenada max slab x.1 ∧ (∀ it, x.2 = some it → EnLista x.1 it) ∧
        ∀ p, enUso (d.node p) = true → (∀ f, ¬ EliminaBuddy d .flush f p) → Quieta d p x.1) →
      limpiar_turno BuddySystem x = .ok (.inl y) →
      Ordenada max slab y.1 ∧ (∀ it, y.2 = some it → EnLista y.1 it) ∧
        ∀ p, enUso (d.node p) = true → (∀ f, ¬ EliminaBuddy d .flush f p) → Quieta d p y.1 := by
    rintro ⟨f, o⟩ ⟨g, o'⟩ hturns ⟨hf, hin, hq⟩ hturn
    obtain ⟨it, rfl, -, hg, hin', hcase⟩ := limpiar_buddy_turno hf hin hturn
    refine ⟨hg, hin', ?_⟩
    intro p hu hno
    rcases hcase with ⟨-, rfl⟩ | ⟨hnkey, -, ha, hm, -⟩
    · exact hq p hu hno
    · have hne : p ≠ it := by
        rintro rfl
        exact hno f (.flush hturns hnkey)
      exact (hq p hu hno).trans (ha.quieta hm hne ((hq p hu hno).enUso.trans hu))
  obtain ⟨s, -, ⟨hs, -, hq⟩, hlast⟩ := loop_turns hstep
    ⟨h, fun it hit => h.en_cabeza hit, fun _ _ _ => .refl⟩ turnos hok
  obtain rfl := limpiar_turno_inr hlast
  exact ⟨hs, hq⟩

theorem Ordenada.store {hora : Int} {r : Bool} (h : Ordenada max slab d)
    (hok : justice_engine_store d item hora = .ok (e, r)) : Ordenada max slab e := by
  rcases store_cases hok with ⟨rfl, -⟩ | ⟨it, hobt, -, rfl⟩
  · exact h
  · exact h.modificar (h.obtener hobt).1 (by simp [enUso]) ⟨rfl, rfl, rfl, rfl⟩ rfl

theorem Ordenada.get {hora : Int} {r : Option Ptr} (h : Ordenada max slab d)
    (hok : justice_engine_get d key nkey hora = .ok (e, r)) : Ordenada max slab e := by
  rcases get_cases hok with ⟨rfl, -⟩ | ⟨it, hobt, hocupado, -, rfl | rfl⟩
  · exact h
  · exact h
  · exact h.modificar (h.obtener hobt).1 (by simp [enUso, hocupado]) ⟨rfl, rfl, rfl, rfl⟩ rfl

/-- Each call that the code gets right leaves the dictionary well formed. -/
theorem ordenada_step (h : Ordenada max slab d)
    (hp : Guarded PermitidaBuddy (Ejecuta BuddySystem) d c e) : Ordenada max slab e := by
  obtain ⟨⟨hpedido, hrelease⟩, turnos, hok⟩ := hp
  cases c with
  | allocate key nkey nbytes flags =>
    obtain ⟨r, hok⟩ := exists_of_map_fst hok
    exact h.allocate hpedido hok
  | store item hora =>
    obtain ⟨r, hok⟩ := exists_of_map_fst hok
    exact h.store hok
  | release item =>
    simp only [ejecutar, justice_engine_item_release, hrelease item rfl, if_true] at hok
    obtain rfl := Except.ok.inj hok
    exact h
  | get key nkey hora =>
    obtain ⟨r, hok⟩ := exists_of_map_fst hok
    exact h.get hok
  | remove key nkey =>
    obtain ⟨r, hok⟩ := exists_of_map_fst hok
    rcases item_delete_cases hok with ⟨rfl, -⟩ | ⟨it, it', hobt, -, hel⟩
    · exact h
    · exact (h.f_eliminar (h.obtener hobt).1 hel).1
  | flush => exact (flush_buddy_quieta h hok).1

/-- A call leaves alone what it does not remove, and only `store` may mark it. -/
theorem ejecuta_buddy_intacta (h : Ordenada max slab d) (hu : enUso (d.node p) = true)
    (hc : PermitidaBuddy d c) (hs : ∀ f, ¬ EliminaBuddy d c f p)
    (hok : Ejecuta BuddySystem d c e) :
    Intacta d p e ∧ (¬ Publica d c p → (e.node p).ocupado = (d.node p).ocupado) := by
  obtain ⟨turnos, hok⟩ := hok
  cases c with
  | allocate key nkey nbytes flags =>
    obtain ⟨r, hok⟩ := exists_of_map_fst hok
    exact (allocate_buddy_quieta h hu hc.1 hs hok).1.efecto
  | store item hora =>
    obtain ⟨r, hok⟩ := exists_of_map_fst hok
    exact store_intacta hok
  | release item =>
    simp only [ejecutar, justice_engine_item_release, hc.2 item rfl, if_true] at hok
    obtain rfl := Except.ok.inj hok
    exact Quieta.refl.efecto
  | get key nkey hora =>
    obtain ⟨r, hok⟩ := exists_of_map_fst hok
    exact get_intacta hok
  | remove key nkey =>
    obtain ⟨r, hok⟩ := exists_of_map_fst hok
    rcases item_delete_cases hok with ⟨rfl, -⟩ | ⟨it, it', hobt, -, hel⟩
    · exact Quieta.refl.efecto
    · have hne : p ≠ it := by
        rintro rfl
        exact hs d (.remove hobt)
      obtain ⟨-, -, ha, hm⟩ := h.f_eliminar (h.obtener hobt).1 hel
      exact (ha.quieta hm hne hu).efecto
  | flush => exact ((flush_buddy_quieta h hok).2 p hu hs).efecto

theorem ordenada_creado {K : Nat} (h : Creado K slab d) : Ordenada (2 ^ K) slab d := by
  obtain ⟨l, ps, hv, hmax, hslab⟩ := valido_creado h
  refine ⟨l, ps, hv, ?_, hmax, hslab⟩
  intro p hp
  rw [(creado_limpio h (hv.allocated hp)).data_size]
  exact Nat.zero_le _

end Calls

end LaLiga.Rc
