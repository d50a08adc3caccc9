import LaLiga.Rc.BuddyLista

/-! A flush of the buddy system empties the memory. -/
namespace LaLiga.Rc

open LaLiga.Lib t_diccionario

/-- The calls of the routines, and gets, which may date the element that they find. -/
inductive PasoConGet : t_diccionario → Option Llamada → t_diccionario → Prop
  | llamada {d e : t_diccionario} {c : Llamada} : Paso d c e → PasoConGet d (some c) e
  | get {d : t_diccionario} {it : Ptr} {hour : Int} : EnLista d it → (d.node it).ocupado = true →
      PasoConGet d none (d.modificar it (fun i => { i with hour := hour }))

/-- The bytes that the nodes say they hold. -/
def datos (d : t_diccionario) : Nat := (d.all_nodes.map (fun p => (d.node p).data_size)).sum

/-- A well formed dictionary in which what is in use has a key and `table_current_size` is the
sum of the sizes of the values. -/
structure Cuadrada (max slab : Nat) (d : t_diccionario) : Prop where
  valido : ∃ l ps, Valido d l ps none
  max : d.table_max_size = max
  slab : d.slab_min_size = slab
  clave : ∀ q, d.allocated q = true → enUso (d.node q) = true → (d.node q).nkey ≠ 0
  suma : d.table_current_size = int (datos d)

section Suma

variable {d e : t_diccionario} {l l' ps ps' : List Ptr} {it p : Ptr} {i j : Option Ptr}
  {n aux max slab : Nat}

theorem int_add (x y : Int) : int (int x + y) = int (x + y) := Int.bmod_add_bmod

theorem int_sub (x y : Int) : int (int x - y) = int (x - y) := Int.bmod_sub_bmod

/-- Where only `it` holds another number of bytes. -/
theorem datos_cambia (hall : e.all_nodes = d.all_nodes) (hin : it ∈ d.all_nodes)
    (h : ∀ q ∈ d.all_nodes, q ≠ it → (e.node q).data_size = (d.node q).data_size) :
    datos d + (e.node it).data_size = datos e + (d.node it).data_size := by
  unfold datos
  rw [hall]
  obtain ⟨u, v, huv⟩ := List.append_of_mem hin
  have hnodup : d.all_nodes.Nodup := all_nodes_nodup
  rw [huv] at h hnodup ⊢
  obtain ⟨hnot, -⟩ := List.nodup_cons.mp (List.nodup_middle.mp hnodup)
  have hsame : ∀ w : List Ptr, (∀ q ∈ w, q ∈ u ++ v) →
      w.map (fun q => (e.node q).data_size) = w.map (fun q => (d.node q).data_size) := by
    intro w hw
    refine List.map_congr_left fun q hq => h q ?_ ?_
    · have := hw q hq
      simp only [List.mem_append, List.mem_cons] at this ⊢
      tauto
    · rintro rfl
      exact hnot (hw q hq)
  rw [List.map_append, List.map_append, List.map_cons, List.map_cons,
    hsame u (fun q hq => by simp [hq]), hsame v (fun q hq => by simp [hq])]
  simp only [List.sum_append, List.sum_cons]
  omega

theorem Valido.limpio (h : Valido d l ps i) (ha : d.allocated p = true)
    (hu : enUso (d.node p) = false) : Limpio (d.node p) := by
  rcases List.mem_append.mp (h.listas.perm.mem_iff.mpr (mem_all_nodes.mpr ha)) with hp | hp
  · exact h.libre hp hu
  · exact h.libres p hp

/-- What happens to `it` alone changes the sum by what `it` holds. -/
theorem Ajeno.datos (ha : Ajeno d it e) (h : Valido d l ps i) (h' : Valido e l' ps' j)
    (hin : d.allocated it = true) :
    LaLiga.Rc.datos d + (e.node it).data_size = LaLiga.Rc.datos e + (d.node it).data_size := by
  refine datos_cambia ha.all_nodes (mem_all_nodes.mpr hin) ?_
  intro q hq hne
  have hall := mem_all_nodes.mp hq
  cases hu : enUso (d.node q) with
  | true => exact (congrArg t_dict_element.data_size (ha.contenido q hne hu) :)
  | false =>
    have hall' : e.allocated q = true := ha.allocated.trans hall
    rw [(h.limpio hall hu).data_size, (h'.limpio hall' ((ha.uso q hne).trans hu)).data_size]

theorem Ajeno.clave (ha : Ajeno d it e) (hl : Limpio (e.node it))
    (h : ∀ q, d.allocated q = true → enUso (d.node q) = true → (d.node q).nkey ≠ 0) :
    ∀ q, e.allocated q = true → enUso (e.node q) = true → (e.node q).nkey ≠ 0 := by
  intro q hq hu
  have hne : q ≠ it := by
    rintro rfl
    rw [hl.libre] at hu
    exact absurd hu (by simp)
  have hud := (ha.uso q hne).symm.trans hu
  have hnkey : (e.node q).nkey = (d.node q).nkey :=
    (congrArg t_dict_element.nkey (ha.contenido q hne hud) :)
  rw [hnkey]
  exact h q (ha.allocated.symm.trans hq) hud

/-- A release. -/
theorem Cuadrada.eliminar (h : Cuadrada max slab d) (hit : EnLista d it)
    (hok : diccionario_eliminar_buddy d it = .ok e) : Cuadrada max slab e := by
  obtain ⟨l, ps, hv⟩ := h.valido
  obtain ⟨l', ps', hl', hmem⟩ := id hit
  obtain rfl := hv.listas.unique hl'
  obtain ⟨u, v, rfl⟩ := List.append_of_mem hmem
  obtain ⟨e', u', v', ps'', he, hv', hl, ha⟩ := diccionario_eliminar_buddy_eq hv
  rw [hok] at he
  obtain rfl := Except.ok.inj he
  have hcurrent := eliminar_buddy_igual t_diccionario.table_current_size
    (fun d hno data => by simp [unir, devolver]) hok
  have hsum := ha.datos hv hv' hit.allocated
  rw [hl.data_size, Nat.add_zero] at hsum
  refine ⟨⟨_, _, hv'⟩, ha.max.trans h.max, ha.slab.trans h.slab, ha.clave hl h.clave, ?_⟩
  change e.table_current_size = int (d.table_current_size - (d.node it).data_size) at hcurrent
  rw [hcurrent, h.suma, int_sub, hsum]
  congr 1
  push_cast
  omega

theorem current_agregarHijosDePadre (h : agregarHijosDePadre d it = .ok e) :
    e.table_current_size = d.table_current_size := by
  unfold agregarHijosDePadre at h
  cases hn : d.nodes with
  | none => simp [hn] at h
  | some n =>
    simp only [hn] at h
    split_ifs at h
    obtain rfl := Except.ok.inj h
    simp

theorem current_dividir {m : Nat}
    (h : loop .no_termina (dividir aux it) m d = .ok e) :
    e.table_current_size = d.table_current_size := by
  have hstep : ∀ s t, s.table_current_size = d.table_current_size →
      dividir aux it s = .ok (.inl t) → t.table_current_size = d.table_current_size := by
    intro s t hs hturn
    unfold dividir at hturn
    split_ifs at hturn
    · cases hagrega : agregarHijosDePadre s it with
      | error f => simp [hagrega] at hturn
      | ok t' =>
        simp only [hagrega] at hturn
        obtain rfl := Sum.inl.inj (Except.ok.inj hturn)
        exact (current_agregarHijosDePadre hagrega).trans hs
    · simp at hturn
  obtain ⟨s, -, hs, hlast⟩ := loop_turns (fun s t _ => hstep s t) rfl _ h
  unfold dividir at hlast
  split_ifs at hlast
  · cases hagrega : agregarHijosDePadre s it <;> simp [hagrega] at hlast
  · obtain rfl := Sum.inr.inj (Except.ok.inj hlast)
    exact hs

/-- A search that finds a partition adds what is asked for. -/
theorem buscar_lugar_buddy_current (h : Valido d l ps none)
    (haux : aux_data_size n d.slab_min_size = aux)
    (hok : buscar_lugar_buddy n d = .ok (.inr (e, some it))) :
    e.table_current_size = int (d.table_current_size + n) := by
  have hpos : d.slab_min_size ≤ aux := haux ▸ le_aux_data_size _ _
  by_cases hfits : aux ≤ d.table_max_size
  swap
  · unfold buscar_lugar_buddy at hok
    simp only [haux] at hok
    rw [if_neg hfits] at hok
    simp at hok
  obtain ⟨r, hr, hapto⟩ := primer_ajuste_eq aux h.listas
  cases r with
  | none =>
    unfold buscar_lugar_buddy at hok
    simp only [haux] at hok
    rw [if_pos hfits, hr] at hok
    cases hv : diccionario_elegirVictima d with
    | error f => simp [hv] at hok
    | ok victima => cases hel : diccionario_eliminar_buddy d victima <;> simp [hv, hel] at hok
  | some primera =>
    have hbest : ∃ item, (if d.bestfit = true then mejor_ajuste d aux primera
        else .ok primera) = .ok item ∧ Apto d l aux item := by
      split_ifs
      · exact mejor_ajuste_eq h.listas (hapto primera rfl)
      · exact ⟨primera, rfl, hapto primera rfl⟩
    obtain ⟨item, hbest, hmem, hlibre, hitem⟩ := hbest
    obtain ⟨u, v, rfl⟩ := List.append_of_mem hmem
    have hstart : Partiendo d aux item d :=
      ⟨⟨u, v, ps, h.eximir⟩, h.libre hmem hlibre, hitem, rfl, rfl⟩
    obtain ⟨f, hloop, -⟩ := dividir_loop hstart hpos
    rw [buscar_lugar_buddy_encontrado haux hfits hr hbest hloop] at hok
    obtain ⟨rfl, -⟩ := Prod.mk.inj (Sum.inr.inj (Except.ok.inj hok))
    exact congrArg (fun c : Int => int (c + n)) (current_dividir hloop)

end Suma

section Runs

variable {d e : t_diccionario} {l ps : List Ptr} {it p : Ptr} {n nkey max slab K turnos : Nat}
  {r : Option Ptr} {c : Llamada}

/-- A search makes room by releases, and ends with a turn of its own. -/
theorem Cuadrada.ultimo (h : Cuadrada max slab d)
    (hok : diccionario_obtenerDireccion_buddy d n = .ok (e, r)) :
    ∃ f, Cuadrada max slab f ∧ buscar_lugar_buddy n f = .ok (.inr (e, r)) := by
  have hstep : ∀ x y, Cuadrada max slab x → buscar_lugar_buddy n x = .ok (.inl y) →
      Cuadrada max slab y := by
    intro x y hx hturn
    obtain ⟨l, ps, hv⟩ := hx.valido
    have hturno : Turno _ n _ (buscar_lugar_buddy n _) := buscar_lugar_buddy_turno hv rfl
    rw [hturn] at hturno
    cases hturno with
    | desaloja _ _ hin _ hel => exact hx.eliminar hin hel
  unfold diccionario_obtenerDireccion_buddy at hok
  obtain ⟨f, -, hf, hlast⟩ := loop_turns (fun x y _ => hstep x y) h _ hok
  exact ⟨f, hf, hlast⟩

/-- Changes of an element in use that keep it in use and concern neither its place nor what it
holds. -/
theorem Cuadrada.marcar (h : Cuadrada max slab d) (hin : EnLista d it)
    {f : t_dict_element → t_dict_element} (hu : enUso (d.node it) = true)
    (huso : enUso (f (d.node it)) = true)
    (hlinks : (f (d.node it)).next = (d.node it).next ∧ (f (d.node it)).prev = (d.node it).prev ∧
      (f (d.node it)).data = (d.node it).data ∧
      (f (d.node it)).chunk_size = (d.node it).chunk_size)
    (hnkey : (f (d.node it)).nkey = (d.node it).nkey)
    (hdata : (f (d.node it)).data_size = (d.node it).data_size) :
    Cuadrada max slab (d.modificar it f) := by
  obtain ⟨l, ps, hv⟩ := h.valido
  obtain ⟨l', ps', hl', hmem⟩ := id hin
  obtain rfl := hv.listas.unique hl'
  obtain ⟨u, v, rfl⟩ := List.append_of_mem hmem
  have hself : (d.modificar it f).node it = f (d.node it) := by simp
  refine ⟨⟨_, ps, hv.tocar (Or.inl rfl) (Or.inr (hself ▸ huso)) (fun p hne => by simp [hne])
    (hself ▸ hlinks) ⟨rfl, rfl, rfl, rfl⟩ (Or.inl (hself ▸ huso))⟩, h.max, h.slab, ?_, ?_⟩
  · intro q hq huq
    by_cases hne : q = it
    · subst hne
      rw [hself, hnkey]
      exact h.clave q hq hu
    · simp only [node_modificar, hne, if_false] at huq ⊢
      exact h.clave q hq huq
  · have hsum : datos (d.modificar it f) = datos d := by
      unfold datos
      refine congrArg List.sum (List.map_congr_left fun q _ => ?_)
      by_cases hne : q = it
      · subst hne
        rw [hself, hdata]
      · simp [hne]
    rw [hsum]
    exact h.suma

/-- The partition found, with its key. -/
theorem Cuadrada.asignar {key : Nat → UInt8} {flags : Int} (h : Cuadrada max slab d)
    (hok : diccionario_obtenerDireccion_buddy d n = .ok (e, some it)) (hkey : nkey ≠ 0) :
    Cuadrada max slab (e.modificar it (fun i => { i with
      nkey := nkey, flags := flags, key := key })) := by
  obtain ⟨l', ps', hv', hmax', hslab'⟩ : ∃ l ps, Valido (e.modificar it (fun i => { i with
      nkey := nkey, flags := flags, key := key })) l ps none ∧ _ := by
    obtain ⟨l, ps, hv⟩ := h.valido
    exact paso_valido hv (.asignar hok hkey)
  obtain ⟨f, hf, hlast⟩ := h.ultimo hok
  obtain ⟨l, ps, hv⟩ := hf.valido
  have hcurrent := buscar_lugar_buddy_current hv rfl hlast
  have hturno : Turno _ n _ (buscar_lugar_buddy n _) := buscar_lugar_buddy_turno hv rfl
  rw [hlast] at hturno
  cases hturno with
  | @lugar _ g hin hlibre hparte hsmall ha hm =>
    obtain ⟨u, v, qs, hg⟩ := hparte.valido
    have hclave := ha.clave hparte.limpio hf.clave
    refine ⟨⟨l', ps', hv'⟩, hmax'.trans h.max, hslab'.trans h.slab, ?_, ?_⟩
    · intro q hq huq
      by_cases hne : q = it
      · subst hne
        simpa using hkey
      · simp only [reservar, node_modificar, hne, if_false] at huq ⊢
        exact hclave q hq huq
    · have hall : g.allocated it = true := ha.allocated.trans hin.allocated
      -- splitting moves no data, and the partition had none
      have hsplit := ha.datos hv hg hin.allocated
      rw [hparte.limpio.data_size, (hv.limpio hin.allocated hlibre).data_size] at hsplit
      have hnew := datos_cambia (d := g)
        (e := (reservar g it n).modificar it (fun i => { i with
          nkey := nkey, flags := flags, key := key })) rfl (mem_all_nodes.mpr hall) (by
            intro q _ hne
            simp [reservar, hne])
      have hfin : (((reservar g it n).modificar it (fun i => { i with
          nkey := nkey, flags := flags, key := key })).node it).data_size = n := by
        simp [reservar]
      rw [hparte.limpio.data_size, hfin] at hnew
      have htotal : datos f + n = datos ((reservar g it n).modificar it (fun i => { i with
          nkey := nkey, flags := flags, key := key })) := by omega
      rw [← htotal, Nat.cast_add, ← int_add, ← hf.suma]
      exact hcurrent

theorem Cuadrada.paso (h : Cuadrada max slab d) (hp : Paso d c e) : Cuadrada max slab e := by
  cases hp with
  | asignar hok hkey => exact h.asignar hok hkey
  | @rechazar _ n nkey hok =>
    obtain ⟨f, hf, hlast⟩ := h.ultimo hok
    obtain ⟨l, ps, hv⟩ := hf.valido
    have hturno : Turno _ n _ (buscar_lugar_buddy n _) := buscar_lugar_buddy_turno hv rfl
    rw [hlast] at hturno
    cases hturno with
    | grande _ => exact hf
  | guardar hin hu _ =>
    exact h.marcar hin hu (by simp [enUso]) ⟨rfl, rfl, rfl, rfl⟩ rfl rfl
  | eliminar hin _ hel => exact h.eliminar hin hel

theorem cuadrada_creada (h : Creado K slab d) : Cuadrada (2 ^ K) slab d := by
  obtain ⟨l, ps, hv, hmax, hslab⟩ := valido_creado h
  have hlimpio := fun q => creado_limpio (p := q) h
  refine ⟨⟨l, ps, hv⟩, hmax, hslab, ?_, ?_⟩
  · intro q hq hu
    rw [(hlimpio q hq).libre] at hu
    exact absurd hu (by simp)
  · have hzero : datos d = 0 := by
      refine List.sum_eq_zero fun x hx => ?_
      obtain ⟨q, hq, rfl⟩ := List.mem_map.mp hx
      exact (hlimpio q (mem_all_nodes.mp hq)).data_size
    obtain ⟨-, -, basura, rfl⟩ := h
    rw [hzero]
    rfl

theorem cuadrada_alcanzable (h : Reachable (Creado K slab) PasoConGet d) :
    Cuadrada (2 ^ K) slab d := by
  refine h.invariant (fun _ hd => cuadrada_creada hd) ?_
  rintro d c e hd hp
  cases hp with
  | llamada hp => exact hd.paso hp
  | get hin hocupado =>
    exact hd.marcar hin (by simp [enUso, hocupado]) (by simp [enUso, hocupado])
      ⟨rfl, rfl, rfl, rfl⟩ rfl rfl

theorem conserva_cuadrada : Conserva (Cuadrada max slab) where
  valido := fun h => h.valido
  clave := fun h => h.clave _
  eliminar := fun h => h.eliminar

/-- A chunk as large as the memory is the only one. -/
theorem Valido.unica (h : Valido d l ps none) (hp : p ∈ l)
    (hsize : (d.node p).chunk_size = d.table_max_size) :
    l = [p] ∧ (d.node p).data = some 0 := by
  obtain ⟨u, v, rfl⟩ := List.append_of_mem hp
  obtain ⟨m, hu, hm, hv⟩ := h.bloques.tiles.piece
  have hend := hv.le
  have hcountu := hu.length_mul_le (k := 1) fun q hq => h.bloques.pos (by simp [hq])
  have hcountv := hv.length_mul_le (k := 1) fun q hq => h.bloques.pos (by simp [hq])
  have hulen : u.length = 0 := by omega
  have hvlen : v.length = 0 := by omega
  obtain rfl := List.length_eq_zero_iff.mp hulen
  obtain rfl := List.length_eq_zero_iff.mp hvlen
  obtain rfl : m = 0 := by omega
  exact ⟨rfl, hm⟩

/-- A flush ends, with one free chunk, no key and all the other nodes unused. -/
theorem limpiar_vacia (h : Reachable (Creado K slab) PasoConGet d) (hn : d.turns ≤ turnos) :
    ∃ e p ps, diccionario_limpiar BuddySystem turnos d = .ok e ∧ Listas e [p] ps ∧
      (e.node p).data = some 0 ∧ (e.node p).chunk_size = 2 ^ K ∧
      (∀ q, e.allocated q = true → (e.node q).ocupado = false ∧ (e.node q).nkey = 0) ∧
      (∀ key nkey, diccionario_obtener e key nkey = .ok none) ∧ e.table_current_size = 0 := by
  obtain ⟨e, hok, he, hfree⟩ := conserva_cuadrada.flush (cuadrada_alcanzable h) hn
  obtain ⟨l, ps, hv⟩ := he.valido
  obtain ⟨p, hp, hsize⟩ := hv.libre_total he.max fun q hq => hfree q (hv.allocated hq)
  obtain ⟨rfl, hdata⟩ := hv.unica hp (hsize.trans he.max.symm)
  have hlibre := fun q hq => enUso_eq_false.mp (hfree q hq)
  refine ⟨e, p, ps, hok, hv.listas, hdata, hsize, hlibre, ?_, ?_⟩
  · intro key nkey
    unfold diccionario_obtener
    rw [buscar_eq hv.listas.dlist.next hv.listas.head
      (Nat.lt_succ_iff.mp hv.listas.length_lt_turns)]
    simp [(hlibre p (hv.allocated hp)).2]
  · have hzero : datos e = 0 := by
      refine List.sum_eq_zero fun x hx => ?_
      obtain ⟨q, hq, rfl⟩ := List.mem_map.mp hx
      exact (hv.limpio (mem_all_nodes.mp hq) (hfree q (mem_all_nodes.mp hq))).data_size
    rw [he.suma, hzero]
    rfl

/-- Flushed after a first allocation out of four bytes. -/
theorem limpiar_vacia_asignada : ∃ d e p ps,
    Paso (diccionario_crear_buddy default 4 1) (.asignar 1 1) d ∧
      diccionario_limpiar BuddySystem d.turns d = .ok e ∧ Listas e [p] ps ∧
      (e.node p).data = some 0 ∧ (e.node p).chunk_size = 2 ^ 2 ∧
      (∀ q, e.allocated q = true → (e.node q).ocupado = false ∧ (e.node q).nkey = 0) ∧
      (∀ key nkey, diccionario_obtener e key nkey = .ok none) ∧ e.table_current_size = 0 := by
  obtain ⟨f, hf⟩ : ∃ f, diccionario_obtenerDireccion_buddy
      (diccionario_crear_buddy default 4 1) 1 = .ok (f, some .element) := ⟨_, rfl⟩
  have hpaso : Paso _ (.asignar 1 1) (f.modificar .element
      (fun i => { i with nkey := 1, flags := 0, key := fun _ => 97 })) := .asignar hf (by decide)
  have hcreado : Creado 2 1 (diccionario_crear_buddy default 4 1) :=
    ⟨by decide, by decide, default, rfl⟩
  obtain ⟨e, p, ps, h⟩ :=
    limpiar_vacia (reachable_step (reachable_init hcreado) (.llamada hpaso)) le_rfl
  exact ⟨_, e, p, ps, hpaso, h⟩

end Runs

end LaLiga.Rc
