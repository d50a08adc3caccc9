import LaLiga.Rc.Mapa

/-! What a compaction leaves. -/
namespace LaLiga.Rc

open LaLiga.Lib t_diccionario

/-- The bytes of the free partitions. -/
def memoria_libre (d : t_diccionario) (l : List Ptr) : Nat :=
  ((l.filter (fun p => !enUso (d.node p))).map (fun p => (d.node p).chunk_size)).sum

/-- The last partition in use of `v`, or `libre`. -/
def ultima (d : t_diccionario) (libre : Ptr) (v : List Ptr) : Ptr :=
  ((v.filter (fun p => enUso (d.node p))).getLast?).getD libre

section Turnos

variable {d e : t_diccionario} {libre b p q : Ptr} {l u v w ps : List Ptr}

theorem memoria_libre_append :
    memoria_libre d (u ++ v) = memoria_libre d u + memoria_libre d v := by
  simp [memoria_libre]

theorem memoria_libre_libres (hv : ∀ q ∈ v, enUso (d.node q) = false) :
    memoria_libre d v = (v.map (fun p => (d.node p).chunk_size)).sum := by
  unfold memoria_libre
  rw [List.filter_eq_self.mpr fun q hq => by rw [hv q hq]; rfl]

theorem memoria_libre_usadas (hu : ∀ q ∈ u, enUso (d.node q) = true) : memoria_libre d u = 0 := by
  unfold memoria_libre
  rw [List.filter_eq_nil_iff.mpr fun q hq => by simp [hu q hq]]
  rfl

theorem memoria_libre_cons_usada (hb : enUso (d.node b) = true) :
    memoria_libre d (b :: v) = memoria_libre d v := by
  simp [memoria_libre, hb]

theorem uso_de_contenido (h : (e.node q).contenido = (d.node q).contenido) :
    enUso (e.node q) = enUso (d.node q) := (contenido_congr h).2.2.1

theorem uso_de_nkey (h : (d.node q).nkey ≠ 0) : enUso (d.node q) = true := by
  cases hu : enUso (d.node q) with
  | true => rfl
  | false => exact absurd (enUso_eq_false.mp hu).2 h

theorem memoria_libre_congr (h : ∀ q ∈ v, (e.node q).contenido = (d.node q).contenido) :
    memoria_libre e v = memoria_libre d v := by
  unfold memoria_libre
  rw [List.filter_congr fun q hq => by rw [uso_de_contenido (h q hq)]]
  congr 1
  refine List.map_congr_left fun q hq => ?_
  exact (congrArg t_dict_element.chunk_size (h q (List.mem_of_mem_filter hq)) :)

theorem ultima_congr (h : ∀ q ∈ v, (e.node q).contenido = (d.node q).contenido) :
    ultima e libre v = ultima d libre v := by
  unfold ultima
  rw [List.filter_congr fun q hq => by rw [uso_de_contenido (h q hq)]]

theorem ultima_libres (hw : ∀ q ∈ w, enUso (d.node q) = false) :
    ultima d libre (w ++ v) = ultima d libre v := by
  unfold ultima
  rw [List.filter_append, List.filter_eq_nil_iff.mpr fun q hq => by simp [hw q hq],
    List.nil_append]

theorem ultima_mem (h : ∃ q ∈ v, enUso (d.node q) = true) :
    ultima d libre v ∈ v ∧ enUso (d.node (ultima d libre v)) = true := by
  obtain ⟨q, hq, hused⟩ := h
  unfold ultima
  cases hlast : (v.filter (fun p => enUso (d.node p))).getLast? with
  | none =>
    have hin : q ∈ v.filter (fun p => enUso (d.node p)) := List.mem_filter.mpr ⟨hq, hused⟩
    rw [List.getLast?_eq_none_iff.mp hlast] at hin
    exact absurd hin (by simp)
  | some z => exact List.mem_filter.mp (List.mem_of_getLast? hlast)

theorem ultima_usada (hb : enUso (d.node b) = true) :
    ultima d libre (b :: v) = ultima d b v := by
  unfold ultima
  rw [List.filter_cons, if_pos hb, List.getLast?_cons]
  rfl

theorem intercambiar_fechas (hne : libre ≠ b) (h : intercambiar d libre b = .ok e) :
    (e.node b).ocupado = false ∧ (e.node libre).hour = (d.node b).hour ∧ (e.node b).hour = 0 := by
  unfold intercambiar at h
  simp only [node_modificar, if_true] at h
  split at h
  · obtain rfl := Except.ok.inj h
    simp [modificar, hne, hne.symm]
  · simp at h

/-- Those in `w` have been joined to `libre`. -/
structure Juntado (d : t_diccionario) (u : List Ptr) (libre : Ptr) (w v : List Ptr)
    (e : t_diccionario) : Prop where
  compactando : Compactando d u libre v e
  libres : ∀ q ∈ w, enUso (d.node q) = false
  contenido : ∀ q, q ≠ libre → q ∉ w → (e.node q).contenido = (d.node q).contenido
  libre : (e.node libre).contenido = { (d.node libre).contenido with
    chunk_size := (d.node libre).chunk_size + (w.map (fun q => (d.node q).chunk_size)).sum }
  mem : e.mem = d.mem

theorem Juntado.refl (h : Compactando d u libre v d) : Juntado d u libre [] v d :=
  ⟨h, by simp, fun _ _ _ => rfl, by simp [t_dict_element.contenido], rfl⟩

/-- One more. -/
theorem Juntado.juntar (h : Juntado d u libre w (b :: v) e) (hnew : b ≠ libre ∧ b ∉ w)
    (hlibre : enUso (d.node b) = false) :
    Juntado d u libre (w ++ [b]) v (juntar e libre b) := by
  obtain ⟨ps, hp⟩ := h.compactando.particiones
  have hb := h.contenido b hnew.1 hnew.2
  have hne : libre ≠ b := hp.places.1
  have he := juntar_eq (d := e) hne
  have hzero := hp.vacias b (by simp) ((uso_de_contenido hb).trans hlibre)
  refine ⟨⟨⟨_, hp.absorber hzero he⟩, he.data_size_absorbente.trans h.compactando.vacia,
    he.max.trans h.compactando.max, he.slab.trans h.compactando.slab⟩, ?_, ?_, ?_,
    mem_juntar.trans h.mem⟩
  · intro q hq
    rcases List.mem_append.mp hq with hq | hq
    · exact h.libres q hq
    · rwa [List.mem_singleton.mp hq]
  · intro q hql hqw
    simp only [List.mem_append, List.mem_singleton, not_or] at hqw
    rw [contenido_juntar hql hqw.2, h.contenido q hql hqw.1]
  · have hchunk : (e.node b).chunk_size = (d.node b).chunk_size :=
      (congrArg t_dict_element.chunk_size hb :)
    have hchunk' : (e.node libre).chunk_size = (d.node libre).chunk_size +
        (w.map (fun q => (d.node q).chunk_size)).sum :=
      (congrArg t_dict_element.chunk_size h.libre :)
    rw [he.de_absorbente, h.libre, hchunk, hchunk']
    simp [Nat.add_assoc]

/-- The free partitions in front of the next one in use are joined. -/
theorem juntar_todas (h : Compactando d u libre v d) :
    ∃ w v' e, v = w ++ v' ∧
      loop .no_termina (juntar_libres libre) d.turns (d, v.head?) = .ok (e, v'.head?) ∧
      Juntado d u libre w v' e ∧
      ∀ b ∈ v'.head?, enUso (d.node b) = true ∧ enUso (e.node b) = true := by
  obtain ⟨ps, hp⟩ := h.particiones
  have hnodup := (List.nodup_append.mp hp.listas.dlist.nodup).2.1
  obtain ⟨hnot, hnodup⟩ := List.nodup_cons.mp hnodup
  have hnew : ∀ {w v' : List Ptr} {b : Ptr}, v = w ++ b :: v' → b ≠ libre ∧ b ∉ w := by
    rintro w v' b rfl
    refine ⟨fun heq => hnot (by simp [heq]), fun hmem => ?_⟩
    exact (List.nodup_append'.mp hnodup).2.2 hmem (by simp)
  obtain ⟨d', v', hloop, -, -⟩ := juntar_libres_loop h
  -- each turn joins one, as long as they are free
  have hstep : ∀ x y : t_diccionario × Option Ptr,
      (∃ w v', v = w ++ v' ∧ x.2 = v'.head? ∧ Juntado d u libre w v' x.1) →
      juntar_libres libre x = .ok (.inl y) →
      ∃ w v', v = w ++ v' ∧ y.2 = v'.head? ∧ Juntado d u libre w v' y.1 := by
    rintro ⟨x, o⟩ ⟨y, o'⟩ ⟨w, v', hv, rfl, hj⟩ hturn
    cases v' with
    | nil => simp [juntar_libres] at hturn
    | cons b v' =>
      simp only [juntar_libres, List.head?_cons] at hturn
      split_ifs at hturn with huso
      · simp at hturn
      · obtain ⟨rfl, rfl⟩ := Prod.mk.inj (Sum.inl.inj (Except.ok.inj hturn))
        have hb := uso_de_contenido (hj.contenido b (hnew hv).1 (hnew hv).2)
        have hj' := hj.juntar (hnew hv) (hb.symm.trans (by simpa using huso))
        exact ⟨w ++ [b], v', by simp [hv], hj'.compactando.next, hj'⟩
  obtain ⟨⟨x, o⟩, -, ⟨w, v', hv, rfl, hj⟩, hlast⟩ := loop_turns (fun x y _ => hstep x y)
    ⟨[], v, rfl, rfl, .refl h⟩ _ hloop
  obtain ⟨rfl, hhead⟩ := Prod.mk.inj (juntar_libres_inr hlast)
  refine ⟨w, v', _, hv, ?_, hj, ?_⟩
  · rw [hloop, hhead]
  · rintro b hb
    cases v' with
    | nil => simp at hb
    | cons c v' =>
      obtain rfl : c = b := by simpa using hb
      simp only [juntar_libres, List.head?_cons] at hlast
      split_ifs at hlast with huso
      · exact ⟨(uso_de_contenido (hj.contenido c (hnew hv).1 (hnew hv).2)).symm.trans huso, huso⟩
      · simp at hlast

/-- A partition that is stored, with the time at which it was. -/
def Vigente (e : t_dict_element) : Prop := e.ocupado = true ∧ e.hour ≠ 0

theorem vigente_de_contenido (h : (e.node q).contenido = (d.node q).contenido)
    (hd : Vigente (d.node q)) : Vigente (e.node q) := by
  have hocupado : (e.node q).ocupado = (d.node q).ocupado := (congrArg t_dict_element.ocupado h :)
  have hhour : (e.node q).hour = (d.node q).hour := (congrArg t_dict_element.hour h :)
  exact ⟨hocupado.trans hd.1, hhour ▸ hd.2⟩

/-- What does not change in the course of a compaction: the bytes that are free, the partition
that is free in the end, the number of the others, and whether these were all stored. -/
structure Balance where
  total : Nat
  final : Ptr
  cuenta : Nat
  vigentes : Prop

/-- No free partition is left in front of `libre`, to which all of them are joined. -/
structure Corrida (B : Balance) (u : List Ptr) (libre : Ptr) (v : List Ptr)
    (d : t_diccionario) : Prop where
  compactando : Compactando d u libre v d
  usadas : ∀ q ∈ u, enUso (d.node q) = true
  vacante : (d.node libre).ocupado = false
  total : (d.node libre).chunk_size + memoria_libre d v = B.total
  final : ultima d libre v = B.final
  cuenta : u.length + v.countP (fun q => enUso (d.node q)) = B.cuenta
  vigentes : B.vigentes → (∀ q ∈ u, Vigente (d.node q)) ∧ (d.node libre).hour = 0 ∧
    ∀ q ∈ v, enUso (d.node q) = true → Vigente (d.node q)

variable {B : Balance}

theorem countP_congr_contenido (h : ∀ q ∈ v, (e.node q).contenido = (d.node q).contenido) :
    v.countP (fun q => enUso (e.node q)) = v.countP (fun q => enUso (d.node q)) :=
  List.countP_congr fun q hq => by rw [uso_de_contenido (h q hq)]

theorem Corrida.juntado (h : Corrida B u libre (w ++ v) d)
    (hj : Juntado d u libre w v e) : Corrida B u libre v e := by
  obtain ⟨ps, hp⟩ := h.compactando.particiones
  have hnodup := hp.listas.dlist.nodup
  obtain ⟨hnot, hnodup'⟩ := List.nodup_cons.mp (List.nodup_append.mp hnodup).2.1
  have hv : ∀ q ∈ v, (e.node q).contenido = (d.node q).contenido := by
    intro q hq
    refine hj.contenido q (fun heq => hnot (by simp [← heq, hq])) (fun hw => ?_)
    exact (List.nodup_append'.mp hnodup').2.2 hw hq
  have hu : ∀ q ∈ u, (e.node q).contenido = (d.node q).contenido := by
    intro q hq
    have hdisj := (List.nodup_append'.mp hnodup).2.2 hq
    exact hj.contenido q (fun heq => hdisj (by simp [heq])) fun hw => hdisj (by simp [hw])
  refine ⟨⟨hj.compactando.particiones, hj.compactando.vacia, rfl, rfl⟩, ?_, ?_, ?_, ?_, ?_, ?_⟩
  · intro q hq
    rw [uso_de_contenido (hu q hq), h.usadas q hq]
  · exact (congrArg t_dict_element.ocupado hj.libre :).trans h.vacante
  · have hchunk : (e.node libre).chunk_size = (d.node libre).chunk_size +
        (w.map (fun q => (d.node q).chunk_size)).sum :=
      (congrArg t_dict_element.chunk_size hj.libre :)
    have htotal := h.total
    rw [memoria_libre_append, memoria_libre_libres hj.libres] at htotal
    rw [hchunk, memoria_libre_congr hv]
    omega
  · rw [ultima_congr hv, ← h.final, ultima_libres hj.libres]
  · have hcuenta := h.cuenta
    rw [List.countP_append, List.countP_eq_zero.mpr fun q hq => by simp [hj.libres q hq],
      Nat.zero_add] at hcuenta
    rw [countP_congr_contenido hv, hcuenta]
  · intro hB
    obtain ⟨hbefore, hhour, hahead⟩ := h.vigentes hB
    refine ⟨fun q hq => vigente_de_contenido (hu q hq) (hbefore q hq), ?_, ?_⟩
    · exact (congrArg t_dict_element.hour hj.libre :).trans hhour
    · intro q hq hused
      rw [uso_de_contenido (hv q hq)] at hused
      exact vigente_de_contenido (hv q hq) (hahead q (by simp [hq]) hused)

/-- The next partition in use moves in front of the free one, which keeps the length of its key. -/
theorem Compactando.intercambiar (h : Compactando d u libre (b :: v) d) :
    ∃ dst e, LaLiga.Rc.intercambiar d libre b = .ok e ∧ Intercambiado d libre b dst e ∧
      Compactando e (u ++ [libre]) b v e ∧ (∀ q ∈ u ++ v, e.node q = d.node q) ∧
      (e.node libre).next = some b ∧ (e.node b).next = v.head? := by
  obtain ⟨ps, hp⟩ := h.particiones
  obtain ⟨dst, -, hdst, hsrc, -⟩ := tiles_append.mp hp.tiles
  obtain ⟨e, hok, he⟩ := intercambiar_eq hp.places.1 hdst hsrc
  have hp' := hp.intercambiar h.vacia hdst he
  have hp'' : Particiones e ((u ++ [libre]) ++ b :: v) ps := by simpa using hp'
  obtain ⟨-, hnu, hbu, hnv, hbv, -⟩ := hp.places
  refine ⟨dst, e, hok, he, ⟨⟨ps, hp''⟩, he.data_size_b, rfl, rfl⟩, ?_, hp'.listas.dlist.next_eq,
    hp''.listas.dlist.next_eq⟩
  intro q hq
  rcases List.mem_append.mp hq with hq | hq
  · exact he.igual q (fun heq => hnu (heq ▸ hq)) (fun heq => hbu (heq ▸ hq))
  · exact he.igual q (fun heq => hnv (heq ▸ hq)) (fun heq => hbv (heq ▸ hq))

/-- A turn joins the free partitions that come next, and moves the one in use behind them. -/
theorem compactar_turno_inv (h : Compactando d u libre v d) :
    (∃ e, compactar_turno (d, some libre, v.head?) = .ok (.inr e) ∧ Juntado d u libre v [] e ∧
      ∀ {β : Type} (g : t_diccionario → β), (∀ d a b, g (juntar d a b) = g d) → g e = g d) ∨
    ∃ w b v' e f, v = w ++ b :: v' ∧ Juntado d u libre w (b :: v') e ∧
      (∀ {β : Type} (g : t_diccionario → β), (∀ d a b, g (juntar d a b) = g d) → g e = g d) ∧
      enUso (e.node b) = true ∧ LaLiga.Rc.intercambiar e libre b = .ok f ∧
      compactar_turno (d, some libre, v.head?) = .ok (.inl (f, some b, v'.head?)) := by
  obtain ⟨w, v', e, hv, hloop, hj, huso⟩ := juntar_todas h
  have higual : ∀ {β : Type} (g : t_diccionario → β), (∀ d a b, g (juntar d a b) = g d) →
      g e = g d := fun g hg => juntar_libres_igual hg hloop
  cases v with
  | nil =>
    obtain ⟨rfl, rfl⟩ : w = [] ∧ v' = [] := by simpa using hv.symm
    exact Or.inl ⟨d, rfl, .refl h, fun _ _ => rfl⟩
  | cons c v =>
    rw [List.head?_cons] at hloop
    cases v' with
    | nil =>
      obtain rfl : c :: v = w := by simpa using hv
      refine Or.inl ⟨e, ?_, hj, higual⟩
      simp only [compactar_turno, List.head?_cons, hloop, List.head?_nil]
    | cons b v' =>
      have hc : Compactando e u libre (b :: v') e :=
        ⟨hj.compactando.particiones, hj.compactando.vacia, rfl, rfl⟩
      obtain ⟨dst, f, hok, -, -, -, hnext, hnext'⟩ := hc.intercambiar
      refine Or.inr ⟨w, b, v', e, f, hv, hj, higual, (huso b (by simp)).2, hok, ?_⟩
      simp only [compactar_turno, List.head?_cons, hloop, hok, hnext, hnext']

theorem Corrida.intercambiar (h : Corrida B u libre (b :: v) d)
    (hb : enUso (d.node b) = true) (hok : LaLiga.Rc.intercambiar d libre b = .ok e) :
    Corrida B (u ++ [libre]) b v e := by
  obtain ⟨dst, e', hok', he, hc, hsame, -⟩ := h.compactando.intercambiar
  obtain rfl := Except.ok.inj (hok'.symm.trans hok)
  obtain ⟨ps, hp⟩ := h.compactando.particiones
  have hv : ∀ q ∈ v, (e'.node q).contenido = (d.node q).contenido := by
    intro q hq
    rw [hsame q (List.mem_append_right u hq)]
  have hu : ∀ q ∈ u, e'.node q = d.node q := fun q hq => hsame q (List.mem_append_left v hq)
  obtain ⟨hocupado, hhour, hhour'⟩ := intercambiar_fechas hp.places.1 hok'
  refine ⟨hc, ?_, hocupado, ?_, ?_, ?_, ?_⟩
  · intro q hq
    rcases List.mem_append.mp hq with hq | hq
    · rw [hu q hq, h.usadas q hq]
    · rw [List.mem_singleton.mp hq, enUso, he.ocupado_a, Bool.true_or]
  · have htotal := h.total
    rw [memoria_libre_cons_usada hb] at htotal
    rw [he.chunk_b, memoria_libre_congr hv, htotal]
  · rw [ultima_congr hv, ← h.final, ultima_usada hb]
  · have hcuenta := h.cuenta
    rw [List.countP_cons, if_pos hb] at hcuenta
    rw [countP_congr_contenido hv, List.length_append, List.length_singleton]
    omega
  · intro hB
    obtain ⟨hbefore, -, hahead⟩ := h.vigentes hB
    refine ⟨?_, hhour', ?_⟩
    · intro q hq
      rcases List.mem_append.mp hq with hq | hq
      · rw [hu q hq]
        exact hbefore q hq
      · rw [List.mem_singleton.mp hq]
        exact ⟨he.ocupado_a, hhour ▸ (hahead b (by simp) hb).2⟩
    · intro q hq hused
      rw [uso_de_contenido (hv q hq)] at hused
      exact vigente_de_contenido (hv q hq) (hahead q (by simp [hq]) hused)

/-- What a compaction leaves when there was a free partition. -/
structure Corridas (B : Balance) (u : List Ptr) (e : t_diccionario) : Prop where
  particiones : ∃ ps, Particiones e (u ++ [B.final]) ps
  usadas : ∀ q ∈ u, enUso (e.node q) = true
  vacante : (e.node B.final).ocupado = false
  total : (e.node B.final).chunk_size = B.total
  cuenta : u.length = B.cuenta
  vigentes : B.vigentes → (∀ q ∈ u, Vigente (e.node q)) ∧ (e.node B.final).hour = 0

theorem Corrida.fin (h : Corrida B u libre [] d) : Corridas B u d := by
  obtain ⟨⟨hp, -, -, -⟩, hu, hvacante, htotal, hfinal, hcuenta, hvigentes⟩ := h
  obtain rfl : libre = B.final := hfinal
  exact ⟨hp, hu, hvacante, by simpa [memoria_libre] using htotal, by simpa using hcuenta,
    fun hB => ⟨(hvigentes hB).1, (hvigentes hB).2.1⟩⟩

theorem Corrida.turno (h : Corrida B u libre v d) :
    (∀ e, compactar_turno (d, some libre, v.head?) = .ok (.inr e) → ∃ u', Corridas B u' e) ∧
      ∀ t, compactar_turno (d, some libre, v.head?) = .ok (.inl t) →
        ∃ u' b v', t.2 = (some b, v'.head?) ∧ Corrida B u' b v' t.1 := by
  rcases compactar_turno_inv h.compactando with
    ⟨e, hturn, hj, -⟩ | ⟨w, b, v', e, f, rfl, hj, -, huso, hok, hturn⟩
  · rw [hturn]
    refine ⟨fun e' h' => ?_, fun t h' => by simp at h'⟩
    obtain rfl := Sum.inr.inj (Except.ok.inj h')
    rw [← List.append_nil v] at h
    exact ⟨u, (h.juntado hj).fin⟩
  · rw [hturn]
    refine ⟨fun e' h' => by simp at h', fun t h' => ?_⟩
    obtain rfl := Sum.inl.inj (Except.ok.inj h')
    exact ⟨_, b, v', rfl, (h.juntado hj).intercambiar huso hok⟩

/-- Without a free partition nothing is done. -/
theorem compactar_llena (h : Particiones d l ps) (hl : ∀ q ∈ l, enUso (d.node q) = true) :
    diccionario_compactarMemoria d = .ok d := by
  have hlen := h.listas.length_lt_turns
  unfold diccionario_compactarMemoria
  rw [buscar_eq h.listas.dlist.next h.listas.head (Nat.lt_succ_iff.mp hlen),
    List.find?_eq_none.mpr fun q hq => by simp [hl q hq]]

/-- The loop starts at the first free partition. -/
theorem compactar_desde (h : Particiones d (u ++ libre :: v) ps)
    (hu : ∀ q ∈ u, enUso (d.node q) = true) (hlibre : enUso (d.node libre) = false) :
    diccionario_compactarMemoria d =
      loop .no_termina compactar_turno d.turns (d, some libre, v.head?) ∧
      Compactando d u libre v d := by
  have hlen := h.listas.length_lt_turns
  have hc : Compactando d u libre v d := ⟨⟨ps, h⟩, h.vacias libre (by simp) hlibre, rfl, rfl⟩
  have hfind : (u ++ libre :: v).find? (fun p => !enUso (d.node p)) = some libre := by
    rw [List.find?_append, List.find?_eq_none.mpr fun q hq => by simp [hu q hq]]
    simp [hlibre]
  refine ⟨?_, hc⟩
  unfold diccionario_compactarMemoria
  rw [buscar_eq h.listas.dlist.next h.listas.head (Nat.lt_succ_iff.mp hlen), hfind]
  simp only [hc.next]

/-- Free partitions at the end of the memory are joined. -/
theorem compactar_cola (h : Particiones d (u ++ libre :: v) ps)
    (hu : ∀ q ∈ u, enUso (d.node q) = true) (hlibre : enUso (d.node libre) = false)
    (hv : ∀ q ∈ v, enUso (d.node q) = false) :
    ∃ e, diccionario_compactarMemoria d = .ok e ∧ Juntado d u libre v [] e := by
  obtain ⟨hstart, hc⟩ := compactar_desde h hu hlibre
  obtain ⟨w, v', e, rfl, hloop, hj, huso⟩ := juntar_todas hc
  have hnil : v' = [] := by
    cases v' with
    | nil => rfl
    | cons b v' =>
      have hb := (huso b (by simp)).1
      rw [hv b (by simp)] at hb
      exact absurd hb (by simp)
  subst hnil
  rw [List.append_nil] at hstart hloop
  refine ⟨e, ?_, by simpa using hj⟩
  rw [hstart, turns]
  cases w with
  | nil =>
    obtain rfl : d = e := by simpa [turns, loop, juntar_libres] using hloop
    rfl
  | cons c w =>
    rw [List.head?_cons] at hloop
    simp only [loop, compactar_turno, List.head?_cons, hloop, List.head?_nil]

/-- The balance of a dictionary in front of a compaction. -/
def balance (d : t_diccionario) (u : List Ptr) (libre : Ptr) (v : List Ptr) : Balance where
  total := memoria_libre d (u ++ libre :: v)
  final := ultima d libre v
  cuenta := u.length + v.countP (fun q => enUso (d.node q))
  vigentes := (∀ q ∈ u, Vigente (d.node q)) ∧ (d.node libre).hour = 0 ∧
    ∀ q ∈ v, enUso (d.node q) = true → Vigente (d.node q)

/-- All the free memory ends up in the last partition, the one of the last that was in use. -/
theorem compactar_corridas (h : Particiones d (u ++ libre :: v) ps)
    (hu : ∀ q ∈ u, enUso (d.node q) = true) (hlibre : enUso (d.node libre) = false)
    (hok : diccionario_compactarMemoria d = .ok e) : ∃ u', Corridas (balance d u libre v) u' e := by
  obtain ⟨hstart, hc⟩ := compactar_desde h hu hlibre
  rw [hstart] at hok
  have htotal : memoria_libre d (u ++ libre :: v) =
      (d.node libre).chunk_size + memoria_libre d v := by
    rw [memoria_libre_append, memoria_libre_usadas hu]
    simp [memoria_libre, hlibre]
  have hcorrida : Corrida (balance d u libre v) u libre v d :=
    ⟨hc, hu, (enUso_eq_false.mp hlibre).1, htotal.symm, rfl, rfl, id⟩
  obtain ⟨⟨x, o⟩, -, ⟨u', b, v', rfl, hx⟩, hlast⟩ := loop_turns
    (I := fun s => ∃ u' b v', s.2 = (some b, v'.head?) ∧
      Corrida (balance d u libre v) u' b v' s.1)
    (fun s t _ hs hturn => by
      obtain ⟨x, o⟩ := s
      obtain ⟨u', b, v', rfl, hx⟩ := hs
      exact hx.turno.2 t hturn) ⟨u, libre, v, rfl, hcorrida⟩ _ hok
  exact hx.turno.1 e hlast

end Turnos

/-- What is stored has a key. -/
def ConClave (d : t_diccionario) (l : List Ptr) : Prop :=
  ∀ p ∈ l, (d.node p).ocupado = true → (d.node p).nkey ≠ 0

theorem ConClave.nkey (h : ConClave d l) (hp : p ∈ l) (hu : enUso (d.node p) = true) :
    (d.node p).nkey ≠ 0 := by
  cases ho : (d.node p).ocupado with
  | true => exact h p hp ho
  | false =>
    simp only [enUso, estaReservado, ho] at hu
    simpa using hu

/-- The contents of the cache, in the list `l`, are those of `e`, in the list `l'`. -/
structure Conservada (d : t_diccionario) (l : List Ptr) (e : t_diccionario) (l' : List Ptr) :
    Prop where
  guardada : ∀ key nkey p, diccionario_obtener d key nkey = .ok (some p) →
    (d.node p).ocupado = true → ∃ q, diccionario_obtener e key nkey = .ok (some q) ∧
      (e.node q).ocupado = true ∧ (e.node q).hour = (d.node p).hour ∧
      (e.node q).data_size = (d.node p).data_size ∧ leer e q = leer d p
  reservada : ∀ p ∈ l, estaReservado (d.node p) = true →
    ∃ q ∈ l', estaReservado (e.node q) = true ∧ MismaClave e q (d.node p).key (d.node p).nkey
  clave : ∀ q ∈ l', (e.node q).nkey ≠ 0 →
    ∃ p ∈ l, MismaClave d p (e.node q).key (e.node q).nkey
  libre : memoria_libre d l ≠ 0 → ∃ w q, l' = w ++ [q] ∧ (∀ p ∈ w, enUso (e.node p) = true) ∧
    enUso (e.node q) = false ∧ (e.node q).chunk_size = memoria_libre d l
  llena : memoria_libre d l = 0 → ∀ p ∈ l', enUso (e.node p) = true

/-- No partition in use lies behind a free one. -/
def SinHuecos (d : t_diccionario) (l : List Ptr) : Prop :=
  l.Pairwise (fun p q => enUso (d.node q) = true → enUso (d.node p) = true)

section Conservada

variable {d e : t_diccionario} {libre p q : Ptr} {l l' u v ps qs : List Ptr}

theorem Particiones.memoria_libre_pos (h : Particiones d l ps) (hp : p ∈ l)
    (hlibre : enUso (d.node p) = false) : memoria_libre d l ≠ 0 := by
  have hmem : (d.node p).chunk_size ∈
      (l.filter (fun p => !enUso (d.node p))).map (fun p => (d.node p).chunk_size) :=
    List.mem_map.mpr ⟨p, List.mem_filter.mpr ⟨hp, by simp [hlibre]⟩, rfl⟩
  have hle := List.le_sum_of_mem hmem
  have hpos := h.chunk_pos hp
  unfold memoria_libre
  omega

/-- The memory that is free lies in the last partitions. -/
theorem memoria_libre_cola (hu : ∀ q ∈ u, enUso (d.node q) = true)
    (hv : ∀ q ∈ v, enUso (d.node q) = false) :
    memoria_libre d (u ++ v) = (v.map (fun p => (d.node p).chunk_size)).sum := by
  rw [memoria_libre_append, memoria_libre_usadas hu, memoria_libre_libres hv, Nat.zero_add]

theorem Conservada.refl (hl : ∀ q ∈ l, enUso (d.node q) = true) : Conservada d l d l where
  guardada := fun key nkey p hobt ho => ⟨p, hobt, ho, rfl, rfl, rfl⟩
  reservada := fun p hp hr => ⟨p, hp, hr, rfl, fun _ _ => rfl⟩
  clave := fun q hq _ => ⟨q, hq, rfl, fun _ _ => rfl⟩
  libre := by
    intro hne
    exact absurd (memoria_libre_usadas hl) hne
  llena := fun _ => hl

/-- Where nothing in use has moved, a key leads to the element that it led to. -/
theorem obtener_cola (h : Particiones d (u ++ v) ps) (h' : Particiones e (u ++ [libre]) qs)
    (hu : ∀ q ∈ u, (e.node q).contenido = (d.node q).contenido)
    (hv : ∀ q ∈ v, enUso (d.node q) = false) (hlibre : enUso (e.node libre) = false)
    (key : Nat → UInt8) (nkey : Nat) :
    diccionario_obtener e key nkey = diccionario_obtener d key nkey := by
  unfold diccionario_obtener
  rw [buscar_eq h.listas.dlist.next h.listas.head (Nat.lt_succ_iff.mp h.listas.length_lt_turns),
    buscar_eq h'.listas.dlist.next h'.listas.head (Nat.lt_succ_iff.mp h'.listas.length_lt_turns),
    List.find?_append, List.find?_append]
  have hnone : v.find? (fun p => (d.node p).nkey != 0 && (d.node p).nkey == nkey &&
      (List.range nkey).all fun i => (d.node p).key i == key i) = none := by
    refine List.find?_eq_none.mpr fun q hq => ?_
    simp [(enUso_eq_false.mp (hv q hq)).2]
  have hlast : [libre].find? (fun p => (e.node p).nkey != 0 && (e.node p).nkey == nkey &&
      (List.range nkey).all fun i => (e.node p).key i == key i) = none := by
    simp [(enUso_eq_false.mp hlibre).2]
  have hsame : u.find? (fun p => (e.node p).nkey != 0 && (e.node p).nkey == nkey &&
      (List.range nkey).all fun i => (e.node p).key i == key i) =
      u.find? (fun p => (d.node p).nkey != 0 && (d.node p).nkey == nkey &&
      (List.range nkey).all fun i => (d.node p).key i == key i) := by
    refine List.find?_congr fun q hq => ?_
    have hn : (e.node q).nkey = (d.node q).nkey := (congrArg t_dict_element.nkey (hu q hq) :)
    have hk : (e.node q).key = (d.node q).key := (congrArg t_dict_element.key (hu q hq) :)
    rw [hn, hk]
  rw [hnone, hlast, hsame]

/-- Joining the free partitions at the end loses nothing. -/
theorem conservada_cola (h : Particiones d (u ++ libre :: v) ps)
    (hu : ∀ q ∈ u, enUso (d.node q) = true) (hv : ∀ q ∈ libre :: v, enUso (d.node q) = false)
    (hj : Juntado d u libre v [] e) (h' : Particiones e (u ++ [libre]) qs) :
    Conservada d (u ++ libre :: v) e (u ++ [libre]) := by
  have hsame : ∀ q ∈ u, (e.node q).contenido = (d.node q).contenido := by
    intro q hq
    have hdisj := (List.nodup_append'.mp h.listas.dlist.nodup).2.2 hq
    exact hj.contenido q (fun heq => hdisj (by simp [heq])) fun hw => hdisj (by simp [hw])
  have huso : enUso (e.node libre) = false := by
    have heq : enUso (e.node libre) = enUso (d.node libre) := (congrArg enUso hj.libre :)
    rw [heq, hv libre (by simp)]
  have hin : ∀ {p}, p ∈ u ++ libre :: v → enUso (d.node p) = true → p ∈ u := by
    intro p hp hused
    rcases List.mem_append.mp hp with hp | hp
    · exact hp
    · rw [hv p hp] at hused
      exact absurd hused (by simp)
  have hfree := memoria_libre_cola hu hv
  refine ⟨?_, ?_, ?_, ?_, ?_⟩
  · intro key nkey p hobt ho
    obtain ⟨hmem, -⟩ := diccionario_obtener_mem h hobt
    have hq : Quieta d p e :=
      .of_contenido (hsame p (hin hmem (by simp [enUso, ho]))) hj.mem
    refine ⟨p, (obtener_cola h h' hsame hv huso key nkey).trans hobt, hq.ocupado.trans ho,
      (congrArg t_dict_element.hour hq.contenido :), hq.intacta.igual t_dict_element.data_size
      fun _ => rfl, leer_intacta hq.intacta (h.cabe p hmem)⟩
  · intro p hp hr
    have hq : Quieta d p e := .of_contenido (hsame p (hin hp (by simp [enUso, hr]))) hj.mem
    refine ⟨p, by simp [hin hp (by simp [enUso, hr])], ?_, hq.intacta.nkey, ?_⟩
    · exact (congrArg estaReservado hq.contenido :).trans hr
    · intro i _
      rw [hq.intacta.igual t_dict_element.key fun _ => rfl]
  · intro q hq hkey
    rcases List.mem_append.mp hq with hq | hq
    · have hi := (Quieta.of_contenido (hsame q hq) hj.mem).intacta
      refine ⟨q, by simp [hq], hi.nkey.symm, fun i _ => ?_⟩
      rw [hi.igual t_dict_element.key fun _ => rfl]
    · rw [List.mem_singleton.mp hq] at hkey
      exact absurd (enUso_eq_false.mp huso).2 hkey
  · intro _
    refine ⟨u, libre, rfl, fun p hp => (uso_de_contenido (hsame p hp)).trans (hu p hp), huso, ?_⟩
    rw [hfree, List.map_cons, List.sum_cons]
    exact (congrArg t_dict_element.chunk_size hj.libre :)
  · intro hzero
    exact absurd hzero (h.memoria_libre_pos (p := libre) (by simp) (hv libre (by simp)))

/-- A list with a free partition, cut at the first one. -/
theorem exists_primera_libre (h : ¬ ∀ q ∈ l, enUso (d.node q) = true) :
    ∃ u libre v, l = u ++ libre :: v ∧ (∀ q ∈ u, enUso (d.node q) = true) ∧
      enUso (d.node libre) = false := by
  cases hfind : l.find? (fun p => !enUso (d.node p)) with
  | none =>
    refine absurd (fun q hq => ?_) h
    have := List.find?_eq_none.mp hfind q hq
    rwa [Bool.not_eq_true', Bool.not_eq_false] at this
  | some libre =>
    obtain ⟨huso, u, v, rfl, hu⟩ := List.find?_eq_some_iff_append.mp hfind
    exact ⟨u, libre, v, rfl, fun q hq => by simpa using hu q hq, by simpa using huso⟩

theorem sinHuecos_llena (hl : ∀ q ∈ l, enUso (d.node q) = true) : SinHuecos d l :=
  List.pairwise_of_forall_mem_list fun p hp _ _ _ => hl p hp

theorem sinHuecos_iff (hu : ∀ q ∈ u, enUso (d.node q) = true)
    (hlibre : enUso (d.node libre) = false) :
    SinHuecos d (u ++ libre :: v) ↔ ∀ q ∈ v, enUso (d.node q) = false := by
  constructor
  · intro h q hq
    have hcons := (List.pairwise_append.mp h).2.1
    have himp := (List.pairwise_cons.mp hcons).1 q hq
    rw [hlibre] at himp
    simpa only [Bool.false_eq_true, imp_false, Bool.not_eq_true] using himp
  · intro hv
    refine List.pairwise_append.mpr ⟨sinHuecos_llena hu, ?_, fun p hp q _ _ => hu p hp⟩
    refine List.pairwise_cons.mpr ⟨fun q hq hused => ?_, ?_⟩
    · rw [hv q hq] at hused
      exact absurd hused (by simp)
    · refine List.pairwise_of_forall_mem_list fun p _ q hq hused => ?_
      rw [hv q hq] at hused
      exact absurd hused (by simp)

/-- The compaction keeps what the cache holds if and only if no partition has to be moved. -/
theorem compactar_conserva_iff (h : Particiones d l ps) (hk : ConClave d l) :
    (∃ e l' qs, diccionario_compactarMemoria d = .ok e ∧ Particiones e l' qs ∧
      Conservada d l e l') ↔ SinHuecos d l := by
  by_cases hl : ∀ q ∈ l, enUso (d.node q) = true
  · exact ⟨fun _ => sinHuecos_llena hl, fun _ => ⟨d, l, ps, compactar_llena h hl, h, .refl hl⟩⟩
  obtain ⟨u, libre, v, rfl, hu, hlibre⟩ := exists_primera_libre hl
  rw [sinHuecos_iff hu hlibre]
  constructor
  · rintro ⟨e, l', qs, hok, hp', hc⟩
    by_contra hnot
    -- the last partition moved leaves the length of its key behind
    obtain ⟨z, hz, hmem, hused⟩ : ∃ z, z = ultima d libre v ∧ z ∈ v ∧ enUso (d.node z) = true := by
      refine ⟨_, rfl, ultima_mem ?_⟩
      push Not at hnot
      simpa only [Bool.not_eq_false] using hnot
    obtain ⟨u', ⟨qs', hp''⟩, -⟩ := compactar_corridas h hu hlibre hok
    obtain rfl := hp'.listas.unique hp''.listas
    obtain ⟨w, q, hlist, -, hq, -⟩ := hc.libre (h.memoria_libre_pos (p := libre) (by simp) hlibre)
    obtain ⟨-, hzq⟩ := List.append_inj' hlist rfl
    obtain rfl : z = q := by simpa [hz, balance] using hzq
    have hkey := hk.nkey (by simp [hmem]) hused
    rw [← nkey_compactar hok] at hkey
    exact hkey (enUso_eq_false.mp hq).2
  · intro hv
    obtain ⟨e, hok, hj⟩ := compactar_cola h hu hlibre hv
    obtain ⟨qs, hp'⟩ := hj.compactando.particiones
    have hv' : ∀ q ∈ libre :: v, enUso (d.node q) = false := List.forall_mem_cons.mpr ⟨hlibre, hv⟩
    exact ⟨e, _, qs, hok, hp', conservada_cola h hu hv' hj hp'⟩

/-- The keys `a` and `b` are set in a memory of two bytes, and `a` is removed. -/
def quitar_primera : List Operacion :=
  [.allocate (fun _ => 97) 1 1 0, .store .element 1, .allocate (fun _ => 98) 1 1 0,
    .store (.slot 0) 1, .remove (fun _ => 97) 1]

theorem quitar_primera_eq : ∃ d, correr ParticionesDinamicas 9 (diccionario_crear default 2 1)
    quitar_primera = .ok d ∧ Particiones d [.element, .slot 0] [] ∧
    ConClave d [.element, .slot 0] ∧ enUso (d.node .element) = false ∧
    (d.node (.slot 0)).ocupado = true ∧
    diccionario_obtener d (fun _ => 98) 1 = .ok (some (.slot 0)) ∧
    (diccionario_compactarMemoria d).map (fun e => decide (diccionario_obtener e (fun _ => 98) 1 =
      .ok none)) = .ok true := by
  refine ⟨_, rfl, ⟨⟨⟨by decide, ⟨rfl, rfl, trivial⟩, ⟨rfl, rfl, trivial⟩⟩, rfl, ⟨rfl, trivial⟩, rfl,
    List.Perm.refl _⟩, ⟨rfl, rfl, rfl⟩, ?_, ?_, ?_, by simp, rfl, by decide, by decide⟩, ?_, rfl,
    rfl, rfl, rfl⟩
  all_goals
    try unfold ConClave
    decide

/-- In that state the partition of `b` has to be moved. -/
theorem compactar_conserva_primera : ∃ d, correr ParticionesDinamicas 9
    (diccionario_crear default 2 1) quitar_primera = .ok d ∧
    ¬ ∃ e l' qs, diccionario_compactarMemoria d = .ok e ∧ Particiones e l' qs ∧
      Conservada d [.element, .slot 0] e l' := by
  obtain ⟨d, hd, hp, hk, hlibre, hocupado, -⟩ := quitar_primera_eq
  refine ⟨d, hd, fun h => ?_⟩
  have hpair := List.pairwise_cons.mp ((compactar_conserva_iff hp hk).mp h)
  have himp := hpair.1 (.slot 0) (by simp) (by simp [enUso, hocupado])
  rw [hlibre] at himp
  exact absurd himp (by simp)

/-- The key `b` is lost. -/
theorem clave_perdida_al_compactar : ∃ d l ps, Reachable (Creada 2 1)
    (Ejecuta ParticionesDinamicas) d ∧ Particiones d l ps ∧ ConClave d l ∧
    ¬ ∃ e l' qs, diccionario_compactarMemoria d = .ok e ∧ Particiones e l' qs ∧
      Conservada d l e l' := by
  obtain ⟨d, hd, hp, hk, -, hocupado, hobt, hlost⟩ := quitar_primera_eq
  refine ⟨d, _, _, ⟨_, _, ⟨by decide, by decide, by decide, default, rfl⟩, correr_trace hd⟩,
    hp, hk, ?_⟩
  rintro ⟨e, l', qs, hok, -, hc⟩
  obtain ⟨q, hq, -⟩ := hc.guardada _ _ _ hobt hocupado
  rw [hok] at hlost
  simp only [Except.map, Except.ok.injEq, decide_eq_true_eq] at hlost
  rw [hq] at hlost
  simp at hlost

end Conservada

end LaLiga.Rc
