import LaLiga.Rc.Fechas
import LaLiga.Rc.Reservas
import LaLiga.Rc.Conveniencia

/-! What a search of the dynamic partitions leaves of the stored ones. -/
namespace LaLiga.Rc

open LaLiga.Lib t_diccionario

/-- Something is stored, and the first partition is not reserved. -/
def Desalojable (d : t_diccionario) : Prop :=
  (∀ p, d.elements = some p → estaReservado (d.node p) = false) ∧
    ∃ p, EnLista d p ∧ (d.node p).ocupado = true

/-- No reserved partition has a free one before it, so that a compaction leaves it alone. -/
def SinMover (d : t_diccionario) : Prop :=
  ∀ q, EnLista d q → estaReservado (d.node q) = true → Delante d q

/-- A compaction under way, with nothing reserved in front of it. -/
structure Moviendo (u : List Ptr) (libre : Ptr) (v : List Ptr) (d : t_diccionario) : Prop where
  compactando : Compactando d u libre v d
  fechado : Fechado d
  sin_reservas : ∀ q ∈ v, estaReservado (d.node q) = false

/-- Something is stored behind or in front of the free partition, and nothing reserved is first. -/
def Quedan (u v : List Ptr) (d : t_diccionario) : Prop :=
  (∀ q ∈ u.head?, estaReservado (d.node q) = false) ∧ ∃ q ∈ u ++ v, (d.node q).ocupado = true

/-- The calls that also leave what is stored with a date, and what is reserved in its place. -/
def PermiteVictima (d : t_diccionario) (c : Operacion) : Prop :=
  Permitida d c ∧ ConHora c ∧ ∀ e, Compacta d c e → SinMover e

section Compactar

variable {d e f : t_diccionario} {l ps u v w : List Ptr} {libre b q : Ptr}

theorem desalojable_iff (hl : Listas d l ps) : Desalojable d ↔
    (∀ p ∈ l.head?, estaReservado (d.node p) = false) ∧ ∃ p ∈ l, (d.node p).ocupado = true := by
  unfold Desalojable
  rw [hl.head]
  refine and_congr Iff.rfl ⟨?_, ?_⟩
  · rintro ⟨p, ⟨l', ps', hl', hp⟩, ho⟩
    obtain rfl := hl.unique hl'
    exact ⟨p, hp, ho⟩
  · rintro ⟨p, hp, ho⟩
    exact ⟨p, ⟨l, ps, hl, hp⟩, ho⟩

theorem estaReservado_congr (h : (e.node q).contenido = (d.node q).contenido) :
    estaReservado (e.node q) = estaReservado (d.node q) := (congrArg estaReservado h :)

theorem ocupado_congr (h : (e.node q).contenido = (d.node q).contenido) :
    (e.node q).ocupado = (d.node q).ocupado := (congrArg t_dict_element.ocupado h :)

theorem sin_lugar_juntar : ((juntar d libre b).node q).sin_lugar = (d.node q).sin_lugar := by
  simp only [juntar, devolver, node_modificar, node_modificar?, t_dict_element.sin_lugar,
    t_dict_element.contenido]
  split_ifs <;> rfl

/-- Joining free partitions changes no date. -/
theorem Fechado.juntado (h : Fechado d) (hsame : ∀ {β : Type} (g : t_diccionario → β),
    (∀ d a b, g (juntar d a b) = g d) → g e = g d) : Fechado e :=
  h.congr (ajustes_allocated (hsame _ fun _ _ _ => ajustes_juntar)) fun q =>
    hsame (fun d => (d.node q).sin_lugar) fun _ _ _ => sin_lugar_juntar

theorem Juntado.fuera (hj : Juntado d u libre w v e) (h : Compactando d u libre (w ++ v) d) :
    ∀ q ∈ u ++ v, (e.node q).contenido = (d.node q).contenido := by
  obtain ⟨ps, hp⟩ := h.particiones
  obtain ⟨-, hder, hdisj⟩ := List.nodup_append'.mp hp.listas.dlist.nodup
  obtain ⟨hnot, hder⟩ := List.nodup_cons.mp hder
  have hwv := (List.nodup_append'.mp hder).2.2
  intro q hq
  rcases List.mem_append.mp hq with hq | hq
  · have hout := hdisj hq
    exact hj.contenido q (fun heq => hout (by simp [heq])) fun hw => hout (by simp [hw])
  · exact hj.contenido q (fun heq => hnot (by simp [← heq, hq])) fun hw => hwv hw hq

theorem Moviendo.juntado (h : Moviendo u libre (w ++ v) d) (hj : Juntado d u libre w v e)
    (hsame : ∀ {β : Type} (g : t_diccionario → β), (∀ d a b, g (juntar d a b) = g d) → g e = g d) :
    Moviendo u libre v e := by
  refine ⟨⟨hj.compactando.particiones, hj.compactando.vacia, rfl, rfl⟩,
    h.fechado.juntado hsame, ?_⟩
  intro q hq
  rw [estaReservado_congr (hj.fuera h.compactando q (List.mem_append_right u hq))]
  exact h.sin_reservas q (List.mem_append_right w hq)

theorem Quedan.juntado (hq : Quedan u (w ++ v) d) (h : Compactando d u libre (w ++ v) d)
    (hj : Juntado d u libre w v e) : Quedan u v e := by
  obtain ⟨hhead, q, hin, ho⟩ := hq
  have hsame := hj.fuera h
  refine ⟨?_, q, ?_⟩
  · intro p hp
    rw [estaReservado_congr (hsame p (List.mem_append_left v (List.mem_of_head? hp)))]
    exact hhead p hp
  · have hqw : q ∉ w := by
      intro hw
      rw [(enUso_eq_false.mp (hj.libres q hw)).1] at ho
      exact absurd ho (by simp)
    have hin' : q ∈ u ++ v := by
      simp only [List.mem_append] at hin ⊢
      tauto
    exact ⟨hin', (ocupado_congr (hsame q hin')).trans ho⟩

/-- What is moved is stored, and takes its date along. -/
theorem Moviendo.intercambiar (h : Moviendo u libre (b :: v) d) (hb : enUso (d.node b) = true)
    (hok : LaLiga.Rc.intercambiar d libre b = .ok e) : Moviendo (u ++ [libre]) b v e := by
  obtain ⟨dst, e', hok', he, hc, hsame, -⟩ := h.compactando.intercambiar
  obtain rfl := Except.ok.inj (hok'.symm.trans hok)
  obtain ⟨ps, hp⟩ := h.compactando.particiones
  obtain ⟨hocupado, hhour, hhour'⟩ := intercambiar_fechas hp.places.1 hok'
  have hstored : (d.node b).ocupado = true := by
    simpa [enUso, h.sin_reservas b (by simp)] using hb
  have hdate := (h.fechado b (hp.allocated (by simp))).mp hstored
  refine ⟨hc, ?_, ?_⟩
  · intro q hq
    by_cases hqb : q = b
    · simp [hqb, hocupado, hhour']
    by_cases hql : q = libre
    · rw [hql]
      exact ⟨fun _ => hhour ▸ hdate, fun _ => he.ocupado_a⟩
    · rw [he.igual q hql hqb]
      exact h.fechado q (ajustes_allocated (ajustes_intercambiar hok') q ▸ hq)
  · intro q hq
    rw [hsame q (List.mem_append_right u hq)]
    exact h.sin_reservas q (List.mem_cons_of_mem b hq)

theorem Quedan.intercambiar (hq : Quedan u (b :: v) d) (h : Compactando d u libre (b :: v) d)
    (hok : LaLiga.Rc.intercambiar d libre b = .ok e) : Quedan (u ++ [libre]) v e := by
  obtain ⟨dst, e', hok', he, -, hsame, -⟩ := h.intercambiar
  obtain rfl := Except.ok.inj (hok'.symm.trans hok)
  refine ⟨?_, libre, by simp, he.ocupado_a⟩
  intro p hp
  cases u with
  | nil =>
    obtain rfl : libre = p := by simpa using hp
    simp [estaReservado, he.ocupado_a]
  | cons a u =>
    obtain rfl : a = p := by simpa using hp
    rw [hsame a (by simp)]
    exact hq.1 a (by simp)

theorem Moviendo.fin (h : Moviendo u libre [] d) (hq : Quedan u [] d) : Desalojable d := by
  obtain ⟨ps, hp⟩ := h.compactando.particiones
  obtain ⟨hhead, q, hin, ho⟩ := hq
  rw [List.append_nil] at hin
  refine (desalojable_iff hp.listas).mpr ⟨?_, q, List.mem_append_left _ hin, ho⟩
  intro p hp
  cases u with
  | nil => simp at hin
  | cons a u => exact hhead p hp

theorem Moviendo.turno (h : Moviendo u libre v d) :
    (∀ e, compactar_turno (d, some libre, v.head?) = .ok (.inr e) →
      Fechado e ∧ (Quedan u v d → Desalojable e)) ∧
    ∀ t, compactar_turno (d, some libre, v.head?) = .ok (.inl t) →
      ∃ u' b v', t.2 = (some b, v'.head?) ∧ Moviendo u' b v' t.1 ∧
        (Quedan u v d → Quedan u' v' t.1) := by
  rcases compactar_turno_inv h.compactando with
    ⟨e, hturn, hj, hsame⟩ | ⟨w, b, v', e, f, rfl, hj, hsame, huso, hok, hturn⟩
  · rw [hturn]
    refine ⟨fun e' h' => ?_, fun t h' => by simp at h'⟩
    obtain rfl := Sum.inr.inj (Except.ok.inj h')
    rw [← List.append_nil v] at h ⊢
    have he := h.juntado hj hsame
    exact ⟨he.fechado, fun hq => he.fin (hq.juntado h.compactando hj)⟩
  · rw [hturn]
    refine ⟨fun e' h' => by simp at h', fun t h' => ?_⟩
    obtain rfl := Sum.inl.inj (Except.ok.inj h')
    have he := h.juntado hj hsame
    exact ⟨_, b, v', rfl, he.intercambiar huso hok,
      fun hq => (hq.juntado h.compactando hj).intercambiar he.compactando hok⟩

/-- A compaction that moves nothing reserved. -/
theorem Fechado.compactar (hf : Fechado d) (hp : Particiones d l ps) (hs : SinMover d)
    (hok : diccionario_compactarMemoria d = .ok e) :
    Fechado e ∧ (Desalojable d → Desalojable e) := by
  by_cases hl : ∀ q ∈ l, enUso (d.node q) = true
  · obtain rfl := Except.ok.inj ((compactar_llena hp hl).symm.trans hok)
    exact ⟨hf, id⟩
  obtain ⟨u, libre, v, rfl, hu, hlibre⟩ := exists_primera_libre hl
  obtain ⟨hstart, hc⟩ := compactar_desde hp hu hlibre
  rw [hstart] at hok
  have hmoviendo : Moviendo u libre v d := by
    refine ⟨hc, hf, fun q hq => ?_⟩
    by_contra hres
    -- what is reserved behind a free partition would be moved
    have hin := (hs q ⟨_, ps, hp.listas, by simp [hq]⟩ (by simpa using hres)).mem hp.listas hlibre
    exact (List.nodup_append'.mp hp.listas.dlist.nodup).2.2 hin (by simp [hq])
  have hquedan : Desalojable d → Quedan u v d := by
    intro hd
    obtain ⟨hhead, q, hin, ho⟩ := (desalojable_iff hp.listas).mp hd
    refine ⟨fun p hp => hhead p ?_, q, ?_, ho⟩
    · rw [List.head?_append, hp, Option.some_or]
      rfl
    · have hne : q ≠ libre := by
        rintro rfl
        rw [(enUso_eq_false.mp hlibre).1] at ho
        exact absurd ho (by simp)
      simpa [hne] using hin
  obtain ⟨⟨x, o⟩, -, ⟨u', b, v', rfl, hx, hqx⟩, hlast⟩ := loop_turns
    (I := fun s => ∃ u' b v', s.2 = (some b, v'.head?) ∧ Moviendo u' b v' s.1 ∧
      (Desalojable d → Quedan u' v' s.1))
    (fun s t _ hs hturn => by
      obtain ⟨x, o⟩ := s
      obtain ⟨u', b, v', rfl, hx, hqx⟩ := hs
      obtain ⟨u'', c, v'', ht, hy, hqy⟩ := hx.turno.2 t hturn
      exact ⟨u'', c, v'', ht, hy, fun hd => hqy (hqx hd)⟩)
    ⟨u, libre, v, rfl, hmoviendo, hquedan⟩ _ hok
  obtain ⟨he, hqe⟩ := hx.turno.1 e hlast
  exact ⟨he, fun hd => hqe (hqx hd)⟩

end Compactar

section Desalojar

variable {d e f g : t_diccionario} {l ps r s t w : List Ptr} {it it' item : Ptr}
  {max slab n nkey aux turnos : Nat} {key : Nat → UInt8} {flags : Int}

/-- The element that stands for the released one is free, if the first of them was not reserved. -/
theorem Vecinas.libera (hv : Vecinas d w r it s t ps) (hj : Junta (d.limpiar it) (r ++ it :: s) it' e)
    (hhead : estaReservado (d.node it') = false) : enUso (e.node it') = false := by
  have huso : enUso (e.node it') = enUso ((d.limpiar it).node it') :=
    (congrArg enUso (hj.sin_tamano it') :)
  rw [huso]
  by_cases hne : it' = it
  · simp [hne, limpio_limpiar.libre]
  · have hr : it' ∈ r := by
      have hcabeza := hj.cabeza
      cases r with
      | nil => exact absurd (by simpa using hcabeza.symm) hne
      | cons a r =>
        obtain rfl : a = it' := by simpa using hcabeza
        simp
    rw [node_limpiar_ne hne]
    simp [enUso, hhead, hv.anteriores it' hr]

/-- An eviction leaves something stored, or the whole memory free. -/
theorem Desalojable.eliminar (hd : Desalojable d) (h : Formada max slab d) (hs : Segura d it)
    (haux : aux ≤ max) (hok : diccionario_eliminar d it = .ok (e, it')) :
    (∃ item, primer_ajuste e aux = .ok (some item)) ∨ Desalojable e := by
  obtain ⟨w, r, s, t, ps, hv, -, -, hst⟩ := id hs
  obtain ⟨e', i, he, hf⟩ := h.eliminar hs
  obtain ⟨x, j, qs, hx, hlist, hj, hentera⟩ := diccionario_eliminar_junta hv
  rw [hok] at he hx
  obtain ⟨rfl, rfl⟩ := Prod.mk.inj (Except.ok.inj he)
  obtain ⟨rfl, rfl⟩ := Prod.mk.inj (Except.ok.inj hx)
  rw [hentera hst] at hlist
  have hotros := hv.ajenos hj
  obtain ⟨hhead, -⟩ := (desalojable_iff hv.listas).mp hd
  have hprimera : w = [] → estaReservado (d.node it') = false := by
    rintro rfl
    refine hhead it' ?_
    have hcabeza := hj.cabeza
    rw [show r ++ it :: (s ++ t) = (r ++ it :: s) ++ t by simp, List.nil_append,
      List.head?_append, hcabeza, Option.some_or]
    rfl
  by_cases hvacia : w ++ t = []
  · -- nothing else is left: the memory is one free partition
    left
    obtain ⟨rfl, rfl⟩ := List.append_eq_nil_iff.mp hvacia
    obtain ⟨⟨l', ps', hp'⟩, hmax, -⟩ := hf
    obtain rfl := hlist.unique hp'.listas
    have hsize := hp'.tiles.end_eq
    have hlibre := hv.libera hj (hprimera rfl)
    refine (primer_ajuste_iff hlist).mpr ⟨it', by simp, hlibre, ?_⟩
    simp at hsize
    omega
  · right
    refine (desalojable_iff hlist).mpr ⟨?_, ?_⟩
    · intro p hp
      cases w with
      | nil =>
        obtain rfl : it' = p := by simpa using hp
        obtain ⟨hocupado, hnkey⟩ := enUso_eq_false.mp (hv.libera hj (hprimera rfl))
        simp [estaReservado, hocupado, hnkey]
      | cons a w =>
        obtain rfl : a = p := by simpa using hp
        rw [estaReservado_congr (hotros a (by simp))]
        exact hhead a (by simp)
    · -- the neighbours of what was joined are stored
      have hstored : ∃ p ∈ w ++ t, (d.node p).ocupado = true := by
        cases hlast : w.getLast? with
        | some p => exact ⟨p, by simp [List.mem_of_getLast? hlast], hv.antes p hlast⟩
        | none =>
          obtain rfl := List.getLast?_eq_none_iff.mp hlast
          cases t with
          | nil => simp at hvacia
          | cons p t => exact ⟨p, by simp, hv.despues p rfl⟩
      obtain ⟨p, hp, ho⟩ := hstored
      refine ⟨p, ?_, (ocupado_congr (hotros p hp)).trans ho⟩
      simp only [List.mem_append, List.mem_cons] at hp ⊢
      tauto

/-- The counters of the compactions are nothing to the elements. -/
theorem Desalojable.contador (hp : Particiones d l ps) {k : Int} :
    Desalojable { d with compactarMemoria := k } ↔ Desalojable d := by
  rw [desalojable_iff hp.listas, desalojable_iff (hp.contador k).listas]

theorem Desalojable.intento (hp : Particiones d l ps) :
    Desalojable (contar_intento d) ↔ Desalojable d := by
  rw [desalojable_iff hp.listas, desalojable_iff hp.intento.listas, node_intento]

theorem Fechado.contador (h : Fechado d) {k : Int} :
    Fechado { d with compactarMemoria := k } := h

theorem Fechado.intento (h : Fechado d) : Fechado (contar_intento d) := by
  unfold contar_intento
  split_ifs
  · exact h.contador
  · exact h

/-- With something stored there is a victim. -/
theorem Fechado.hay_victima (hf : Fechado d) (hl : Listas d l ps)
    (hsome : ∃ p ∈ l, (d.node p).ocupado = true) : ∃ it, diccionario_elegirVictima d = .ok it := by
  rcases diccionario_elegirVictima_eq hl with ⟨-, hcero⟩ | ⟨it, -, hok, -⟩
  · obtain ⟨p, hp, ho⟩ := hsome
    exact absurd (hcero p hp) ((hf p (hl.allocated hp)).mp ho)
  · exact ⟨it, hok⟩

/-- A search that finds nothing makes room for the next one. -/
theorem Fechado.hacer_lugar (hf : Fechado d) (h : Formada max slab d)
    (hs : ∀ it, conviene_compactar (contar_intento d) aux = false →
      diccionario_elegirVictima (contar_intento d) = .ok it → Segura (contar_intento d) it)
    (hm : conviene_compactar (contar_intento d) aux = true → SinMover (contar_intento d))
    (hok : LaLiga.Rc.hacer_lugar d aux = .ok e) : Fechado e ∧ (aux ≤ max → Desalojable d →
      (∃ item, primer_ajuste e aux = .ok (some item)) ∨ Desalojable e) := by
  have hi := h.intento
  obtain ⟨⟨l, ps, hp⟩, -, -⟩ := id h
  rw [← Desalojable.intento hp]
  unfold LaLiga.Rc.hacer_lugar at hok
  simp only at hok
  split_ifs at hok with hc
  · cases hcompacta : diccionario_compactarMemoria (contar_intento d) with
    | error f => simp [hcompacta] at hok
    | ok f =>
      simp only [hcompacta] at hok
      obtain rfl := Except.ok.inj hok
      obtain ⟨l', qs, hp'⟩ : ∃ l' qs, Particiones f l' qs := by
        obtain ⟨f', l', qs, hf', hp', -⟩ := diccionario_compactarMemoria_eq hp.intento
        obtain rfl := Except.ok.inj (hcompacta.symm.trans hf')
        exact ⟨l', qs, hp'⟩
      obtain ⟨hff, hd⟩ := hf.intento.compactar hp.intento (hm hc) hcompacta
      exact ⟨hff.contador, fun _ hdes => Or.inr ((Desalojable.contador hp').mpr (hd hdes))⟩
  · cases hv : diccionario_elegirVictima (contar_intento d) with
    | error f => simp [hv] at hok
    | ok victima =>
      simp only [hv] at hok
      cases hel : diccionario_eliminar (contar_intento d) victima with
      | error f => simp [hel] at hok
      | ok x =>
        simp only [hel] at hok
        obtain rfl := Except.ok.inj hok
        exact ⟨hf.intento.eliminar hel, fun haux hdes =>
          hdes.eliminar hi (hs victima (by simpa using hc) hv) haux hel⟩

/-- The states of the search of an allocation. -/
theorem Formada.turnos_fechados (h : Formada max slab d) (hf : Fechado d)
    (hc : PermiteVictima d (.allocate key nkey n flags))
    (hree : LaLiga.Rc.reemplazar ParticionesDinamicas d key nkey = .ok e)
    (ht : Turns (buscar_lugar n) e f) : Fechado f ∧ (aux_data_size n slab ≤ max →
      (∃ item, primer_ajuste e (aux_data_size n slab) = .ok (some item)) ∨ Desalojable e →
      (∃ item, primer_ajuste f (aux_data_size n slab) = .ok (some item)) ∨ Desalojable f) := by
  obtain ⟨hpermitida, -, hmover⟩ := hc
  induction ht with
  | refl =>
    refine ⟨?_, fun _ => id⟩
    rcases reemplazar_cases hree with ⟨rfl, -⟩ | ⟨it, it', -, -, hel⟩
    · exact hf
    · exact hf.eliminar hel
  | @next f g hturns hturn ih =>
    have hformada := h.turnos hpermitida hree hturns
    obtain ⟨⟨l, ps, hp⟩, -, hslab⟩ := id hformada
    obtain ⟨hff, hkeep⟩ := ih
    rcases buscar_lugar_cases hp n with hno | ⟨hnone, -, hmake⟩ | ⟨f', item', -, -, hyes, -⟩
    · rw [hturn] at hno
      exact absurd hno (by simp)
    · have hmake := hmake g hturn
      obtain ⟨hfg, hroom⟩ := hff.hacer_lugar hformada
        (fun it hconv hvictima => hpermitida.2 _ it (.victima hree hturns hnone hconv hvictima))
        (fun hconv => hmover _ (.allocate hree hturns hnone hconv)) hmake
      rw [hslab] at hnone hroom
      refine ⟨hfg, fun haux hstart => ?_⟩
      rcases hkeep haux hstart with ⟨item, hitem⟩ | hdes
      · rw [hnone] at hitem
        exact absurd hitem (by simp)
      · exact hroom haux hdes
    · rw [hturn] at hyes
      exact absurd hyes (by simp)

end Desalojar

end LaLiga.Rc
