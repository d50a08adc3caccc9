import LaLiga.Rc.Ajustes
import LaLiga.Rc.Buddy

/-! Which partition an allocation takes when one is large enough, and what it leaves of it. -/
namespace LaLiga.Rc

open LaLiga.Lib t_diccionario

/-- A well formed element list `l` over a pool `ps` of cleared nodes. -/
structure Repartida (d : t_diccionario) (l ps : List Ptr) : Prop where
  listas : Listas d l ps
  tiles : Tiles (fun p => (d.node p).data) (fun p => (d.node p).chunk_size) 0 l d.table_max_size
  slab : ∀ p ∈ l, d.slab_min_size ≤ (d.node p).chunk_size
  libres : ∀ p ∈ ps, (d.node p).chunk_size = 0 ∧ enUso (d.node p) = false
  slab_pos : 1 ≤ d.slab_min_size
  max_lt : d.table_max_size < 2 ^ 31

/-- The partitions around `item` and the bytes are as they were: nothing has been evicted or
compacted. -/
structure Marco (d : t_diccionario) (u v : List Ptr) (item : Ptr) (e : t_diccionario) : Prop where
  otras : ∀ q ∈ u ++ v, (e.node q).contenido = (d.node q).contenido
  data : (e.node item).data = (d.node item).data
  mem : e.mem = d.mem
  ajustes : e.ajustes = d.ajustes

/-- The choice of the policies: the first partition that is free and large enough, or the first
of the smallest of these. -/
structure Elegida (d : t_diccionario) (l u : List Ptr) (n : Nat) (item : Ptr) : Prop where
  apta : Apto d l n item
  primera : d.bestfit = false → ∀ q ∈ u, ¬ Apto d l n q
  menor : d.bestfit = true → ∀ q, Apto d l n q →
    (d.node item).chunk_size ≤ (d.node q).chunk_size ∧
      (q ∈ u → (d.node item).chunk_size < (d.node q).chunk_size)

section Eleccion

variable {d e : t_diccionario} {l ps u v : List Ptr} {p item : Ptr} {n aux slab : Nat}

theorem aux_data_size_eq (hn : n < 2 ^ 31) : aux_data_size n slab = max n slab := by
  have hint : int n = n := int_eq (by omega) (by omega)
  unfold aux_data_size
  rw [hint]
  omega

/-- Both scans of a search, when some partition is large enough. -/
theorem Listas.elegir (hl : Listas d l ps) (hp : Apto d l aux p) :
    ∃ primera item, primer_ajuste d aux = .ok (some primera) ∧
      (if d.bestfit = true then mejor_ajuste d aux primera else .ok primera) = .ok item ∧
      ajuste d l aux = some item := by
  obtain ⟨hmem, hapto⟩ := apto_iff.mpr hp
  cases hfind : l.find? (apto d aux) with
  | none => exact absurd hapto (List.find?_eq_none.mp hfind p hmem)
  | some primera =>
    obtain ⟨item, hitem, hajuste⟩ := ajuste_eq hl hfind
    exact ⟨primera, item, by rw [primer_ajuste_find aux hl, hfind], hitem, hajuste⟩

/-- No partition is smaller than a slab, so that a slab more or less asks for the same. -/
theorem Repartida.apto_max (h : Repartida d l ps) (hp : p ∈ l) :
    apto d (max n d.slab_min_size) p = apto d n p := by
  have := h.slab p hp
  unfold apto
  congr 2
  rw [eq_iff_iff, max_le_iff]
  tauto

theorem Repartida.ajuste_max (h : Repartida d l ps) :
    ajuste d l (max n d.slab_min_size) = ajuste d l n := by
  unfold ajuste
  have hfilter := List.filter_congr fun p hp => h.apto_max (n := n) (p := p) hp
  rw [hfilter, ← List.head?_filter, ← List.head?_filter, hfilter]

theorem elegida_of_ajuste (hnodup : (u ++ item :: v).Nodup)
    (h : ajuste d (u ++ item :: v) n = some item) : Elegida d (u ++ item :: v) u n item := by
  have hnot : item ∉ u := by
    have := (List.nodup_cons.mp (List.nodup_middle.mp hnodup)).1
    exact fun hu => this (by simp [hu])
  refine ⟨apto_of_ajuste h, ?_, ?_⟩
  · intro hfirst q hq hapto
    simp only [ajuste, hfirst, Bool.false_eq_true, if_false] at h
    rw [List.find?_append] at h
    cases hu : u.find? (apto d n) with
    | none => exact List.find?_eq_none.mp hu q hq (apto_iff.mpr hapto).2
    | some x =>
      rw [hu] at h
      obtain rfl : x = item := by simpa using h
      exact hnot (List.mem_of_find?_eq_some hu)
  · intro hbest q hapto
    simp only [ajuste, hbest, if_true] at h
    obtain ⟨hmem, htest⟩ := apto_iff.mpr hapto
    have hq := List.mem_filter.mpr ⟨hmem, htest⟩
    have hleast := List.le_of_mem_argmin (f := fun p => (d.node p).chunk_size) hq h
    refine ⟨hleast, ?_⟩
    -- an equal one before it would have been found before it
    intro hu
    by_contra hle
    have hindex := List.index_of_argmin h hq (not_lt.mp hle)
    rw [List.filter_append, List.filter_cons_of_pos (apto_iff.mpr (apto_of_ajuste (by
        simp only [ajuste, hbest, if_true]; exact h))).2,
      List.idxOf_append_of_mem (List.mem_filter.mpr ⟨hu, htest⟩),
      List.idxOf_append_of_notMem (fun hin => hnot (List.mem_filter.mp hin).1)] at hindex
    have := List.idxOf_lt_length_iff.mpr (List.mem_filter.mpr ⟨hu, htest⟩)
    omega

theorem Marco.refl : Marco d u v item d := ⟨fun _ _ => rfl, rfl, rfl, rfl⟩

theorem Marco.trans {f : t_diccionario} (h : Marco d u v item e) (k : Marco e u v item f) :
    Marco d u v item f where
  otras := fun q hq => (k.otras q hq).trans (h.otras q hq)
  data := k.data.trans h.data
  mem := k.mem.trans h.mem
  ajustes := k.ajustes.trans h.ajustes

/-- The size of the value is noted in `item` only. -/
theorem Marco.reservar (h : Marco d u v item e) (hnot : item ∉ u ++ v) :
    Marco d u v item (reservar e item n) where
  otras := by
    intro q hq
    have hne : q ≠ item := by
      rintro rfl
      exact hnot hq
    simpa [LaLiga.Rc.reservar, hne] using h.otras q hq
  data := by simpa [LaLiga.Rc.reservar] using h.data
  mem := h.mem
  ajustes := h.ajustes

theorem listas_reservar (h : Listas d l ps) : Listas (reservar d item n) l ps :=
  h.congr (fun q => by simp only [reservar, node_modificar]; split_ifs <;> rfl)
    (fun q _ => by simp only [reservar, node_modificar]; split_ifs <;> rfl) rfl rfl rfl

end Eleccion

section Dinamicas

variable {d : t_diccionario} {l ps u v : List Ptr} {p item : Ptr} {n aux : Nat}

/-- What a placement with dynamic partitions leaves of the partition taken: the size asked for,
but not less than a slab, when the rest is a slab or more. -/
structure Recortada (d : t_diccionario) (u v ps : List Ptr) (item : Ptr) (aux : Nat)
    (e : t_diccionario) : Prop where
  marco : Marco d u v item e
  parte : d.slab_min_size ≤ (d.node item).chunk_size - aux → ps ≠ [] →
    ∃ nuevo ps', ps = nuevo :: ps' ∧ Listas e (u ++ item :: nuevo :: v) ps' ∧
      (e.node item).chunk_size = aux ∧
      (e.node nuevo).chunk_size = (d.node item).chunk_size - aux ∧
      (e.node nuevo).data = (d.node item).data.map (· + aux) ∧ enUso (e.node nuevo) = false
  entera : ¬ (d.slab_min_size ≤ (d.node item).chunk_size - aux ∧ ps ≠ []) →
    Listas e (u ++ item :: v) ps ∧ (e.node item).chunk_size = (d.node item).chunk_size

theorem Repartida.partir (h : Repartida d (u ++ item :: v) ps) (haux : d.slab_min_size ≤ aux) :
    ∃ e, partir d item aux = .ok e ∧ Recortada d u v ps item aux e := by
  by_cases hsize : d.slab_min_size ≤ (d.node item).chunk_size - aux
  · obtain ⟨nuevo, ps', e, rfl, hne, hok, he⟩ :=
      h.listas.partir_ok h.tiles h.slab h.slab_pos haux hsize
    obtain ⟨-, hmem⟩ := partir_contenido hok
    obtain ⟨hlibre, huso⟩ := h.libres nuevo (by simp)
    obtain ⟨hnot, -⟩ := List.nodup_cons.mp (List.nodup_middle.mp h.listas.dlist.nodup)
    have hpool := (List.nodup_append'.mp h.listas.nodup).2.2
    have hnuevo := he.de_nuevo hne
    have hchunk : (e.node nuevo).chunk_size =
        (d.node nuevo).chunk_size + ((d.node item).chunk_size - aux) :=
      (congrArg t_dict_element.chunk_size hnuevo :)
    refine ⟨e, hok, ⟨?_, (congrArg t_dict_element.data he.de_item :), hmem, ajustes_partir hok⟩,
      ?_, fun hno => absurd ⟨hsize, by simp⟩ hno⟩
    · intro q hq
      have hqi : q ≠ item := by
        rintro rfl
        exact hnot hq
      have hqn : q ≠ nuevo := by
        rintro rfl
        refine hpool (a := q) ?_ (by simp)
        rcases List.mem_append.mp hq with hq | hq <;> simp [hq]
      rw [he.contenido, if_neg hqi, if_neg hqn]
    · intro _ _
      refine ⟨nuevo, ps', rfl, h.listas.repartir he,
        (congrArg t_dict_element.chunk_size he.de_item :), ?_,
        (congrArg t_dict_element.data hnuevo :), (congrArg enUso hnuevo :).trans huso⟩
      rw [hchunk, hlibre, Nat.zero_add]
  · exact ⟨d, partir_entera hsize, .refl, fun hyes => absurd hyes hsize, fun _ => ⟨h.listas, rfl⟩⟩

theorem Recortada.reservar {e : t_diccionario} (h : Recortada d u v ps item aux e)
    (hnodup : (u ++ item :: v).Nodup) (hpool : item ∉ ps) :
    Recortada d u v ps item aux (reservar e item n) where
  marco := h.marco.reservar (List.nodup_cons.mp (List.nodup_middle.mp hnodup)).1
  parte := by
    intro hsize hps
    obtain ⟨nuevo, ps', rfl, hl, hchunk, hrest, hdata, huso⟩ := h.parte hsize hps
    have hne : nuevo ≠ item := by
      rintro rfl
      exact hpool (by simp)
    refine ⟨nuevo, ps', rfl, listas_reservar hl, ?_, ?_, ?_, ?_⟩
    · simpa [LaLiga.Rc.reservar] using hchunk
    · simpa [LaLiga.Rc.reservar, hne] using hrest
    · simpa [LaLiga.Rc.reservar, hne] using hdata
    · simpa [LaLiga.Rc.reservar, hne] using huso
  entera := by
    intro hno
    obtain ⟨hl, hchunk⟩ := h.entera hno
    exact ⟨listas_reservar hl, by simpa [LaLiga.Rc.reservar] using hchunk⟩

/-- The search ends in its first turn. -/
theorem Repartida.obtenerDireccion (h : Repartida d l ps) (hn : n < 2 ^ 31)
    (hp : Apto d l n p) : ∃ u item v e, l = u ++ item :: v ∧ ajuste d l n = some item ∧
      (∀ turnos, diccionario_obtenerDireccion (turnos + 1) d n = .ok (e, some item)) ∧
      Recortada d u v ps item (max n d.slab_min_size) e ∧ (e.node item).data_size = n := by
  have hmax : Apto d l (max n d.slab_min_size) p :=
    ⟨hp.1, hp.2.1, max_le hp.2.2 (h.slab p hp.1)⟩
  obtain ⟨primera, item, hprimera, hitem, hajuste⟩ := h.listas.elegir hmax
  obtain ⟨u, v, rfl⟩ := List.append_of_mem (apto_of_ajuste hajuste).1
  obtain ⟨e, hok, he⟩ := h.partir (le_max_right n d.slab_min_size)
  have hfits : max n d.slab_min_size ≤ d.table_max_size := by
    obtain ⟨a, b, hab⟩ := List.append_of_mem hp.1
    have htiles := h.tiles
    rw [hab] at htiles
    obtain ⟨m, -, -, hb⟩ := htiles.piece
    have hle := hb.le
    have := hmax.2.2
    omega
  have hpool : item ∉ ps := by
    have := (List.nodup_append'.mp h.listas.nodup).2.2
    exact fun hin => this (a := item) (by simp) hin
  refine ⟨u, item, v, reservar e item n, rfl, ?_, ?_, ?_, by simp [reservar]⟩
  · rw [← h.ajuste_max, hajuste]
  · intro turnos
    refine loop_exit turnos ?_
    simp only [buscar_lugar, aux_data_size_eq hn, if_pos hfits, hprimera, hitem, hok]
  · exact he.reservar h.listas.dlist.nodup hpool

end Dinamicas

section Buddy

variable {d e : t_diccionario} {l ps u v : List Ptr} {p item hno : Ptr} {n aux : Nat}

theorem ajustes_agregarHijosDePadre (h : agregarHijosDePadre d item = .ok e) :
    e.ajustes = d.ajustes := by
  unfold agregarHijosDePadre at h
  cases hn : d.nodes with
  | none => simp [hn] at h
  | some n =>
    simp only [hn] at h
    split_ifs at h
    obtain rfl := Except.ok.inj h
    rw [ajustes_modificar, ajustes_modificar, ajustes_modificar?]
    exact ajustes_modificar?

/-- Where the halving of `item` is: the second halves have come out of the pool and lie
behind it. -/
structure Mitad (d : t_diccionario) (u v ps : List Ptr) (item : Ptr) (aux : Nat)
    (e : t_diccionario) : Prop where
  marco : Marco d u v item e
  lista : ∃ w ps', ps = w.reverse ++ ps' ∧ Listas e (u ++ item :: (w ++ v)) ps' ∧
    Tiles (fun p => (e.node p).data) (fun p => (e.node p).chunk_size) 0 (u ++ item :: (w ++ v))
      e.table_max_size ∧
    ∀ p ∈ u ++ item :: (w ++ v), e.slab_min_size ≤ (e.node p).chunk_size
  power : ∃ k, (e.node item).chunk_size = 2 ^ k
  fits : aux ≤ (e.node item).chunk_size

theorem Mitad.slab (h : Mitad d u v ps item aux e) : e.slab_min_size = d.slab_min_size :=
  ajustes_igual h.marco.ajustes t_diccionario.slab_min_size fun _ => rfl

/-- One halving. -/
theorem Mitad.dividir (h : Mitad d u v ps item aux e) (haux : d.slab_min_size ≤ aux)
    (hpos : 1 ≤ d.slab_min_size) (hsize : aux ≤ (e.node item).chunk_size / 2) :
    ∃ f, dividir aux item e = .ok (.inl f) ∧ Mitad d u v ps item aux f ∧
      (f.node item).chunk_size < (e.node item).chunk_size := by
  obtain ⟨w, ps', rfl, hl, ht, hslab⟩ := h.lista
  obtain ⟨k, hk⟩ := h.power
  have hsame := h.slab
  obtain ⟨n, ps', rfl⟩ := hl.pool_ne ht hslab (by omega) (by omega)
  have hnodes : e.nodes = some n := by rw [hl.top]; rfl
  have hall : e.allocated n = true := mem_all_nodes.mp (hl.perm.mem_iff.mp (by simp))
  have hpool := (List.nodup_append'.mp hl.nodup).2.2
  obtain ⟨hnot, -⟩ := List.nodup_cons.mp (List.nodup_middle.mp hl.dlist.nodup)
  have hne : n ≠ item := by
    rintro rfl
    exact hpool (a := n) (by simp) (by simp)
  obtain ⟨f, hok, hf⟩ := agregarHijosDePadre_eq hnodes hall hne
  -- the chunk is even, so that its halves fill it
  obtain ⟨j, rfl⟩ : ∃ j, k = j + 1 := by
    cases k with
    | zero =>
      rw [hk] at hsize
      simp at hsize
      omega
    | succ j => exact ⟨j, rfl⟩
  have hhalf : (e.node item).chunk_size / 2 + (e.node item).chunk_size / 2 =
      (e.node item).chunk_size := by
    rw [hk, pow_succ]
    omega
  have hci := hf.contenido item
  have hcn := hf.contenido n
  rw [if_pos rfl] at hci
  rw [if_neg hne, if_pos rfl] at hcn
  have hsi : (f.node item).chunk_size = (e.node item).chunk_size / 2 :=
    (congrArg t_dict_element.chunk_size hci :)
  have hsn : (f.node n).chunk_size = (e.node item).chunk_size / 2 :=
    (congrArg t_dict_element.chunk_size hcn :)
  have hdi : (f.node item).data = (e.node item).data := (congrArg t_dict_element.data hci :)
  have hdn : (f.node n).data = (e.node item).data.map (· + (e.node item).chunk_size / 2) :=
    (congrArg t_dict_element.data hcn :)
  have hothers : ∀ q ∈ u ++ (w ++ v), (f.node q).contenido = (e.node q).contenido := by
    intro q hq
    have hqi : q ≠ item := by
      rintro rfl
      exact hnot hq
    have hqn : q ≠ n := by
      rintro rfl
      refine hpool (a := q) ?_ (by simp)
      simp only [List.mem_append, List.mem_cons] at hq ⊢
      tauto
    rw [hf.contenido, if_neg hqi, if_neg hqn]
  refine ⟨f, ?_, ⟨⟨?_, hdi.trans h.marco.data, ?_, ?_⟩, ?_, ⟨j, ?_⟩, by omega⟩, by omega⟩
  · simp only [LaLiga.Rc.dividir, if_pos (And.intro hsize (by simp [hnodes] : e.nodes ≠ none)), hok]
  · intro q hq
    rw [hothers q (by simp only [List.mem_append] at hq ⊢; tauto), h.marco.otras q hq]
  · rw [mem_agregarHijosDePadre hok, h.marco.mem]
  · rw [ajustes_agregarHijosDePadre hok, h.marco.ajustes]
  · refine ⟨n :: w, ps', by simp, hf.listas hl, ?_, ?_⟩
    · rw [hf.max]
      refine ht.divide (fun q hq => (contenido_congr (hothers q hq)).1)
        (fun q hq => (contenido_congr (hothers q hq)).2.1) hdi ?_ ?_
      · rw [hdn, hsi]
      · rw [hsi, hsn, hhalf]
    · intro q hq
      rw [hf.slab, hsame]
      have hcase : q = item ∨ q = n ∨ q ∈ u ++ (w ++ v) := by
        simp only [List.mem_append, List.mem_cons] at hq ⊢
        tauto
      rcases hcase with rfl | rfl | hq
      · omega
      · omega
      · rw [(contenido_congr (hothers q hq)).2.1, ← hsame]
        refine hslab q ?_
        simp only [List.mem_append, List.mem_cons] at hq ⊢
        tauto
  · rw [hsi, hk, pow_succ]
    omega

/-- Halving until the request would not fit any more. -/
theorem Mitad.loop (h : Mitad d u v ps item aux d) (haux : d.slab_min_size ≤ aux)
    (hpos : 1 ≤ d.slab_min_size) :
    ∃ e, LaLiga.Lib.loop .no_termina (LaLiga.Rc.dividir aux item) d.turns d = .ok e ∧
      Mitad d u v ps item aux e := by
  refine loop_rule (I := Mitad d u v ps item aux)
    (R := fun r => ∃ e, r = .ok e ∧ Mitad d u v ps item aux e)
    (fun s => (s.node item).chunk_size) ?_ ?_ ?_ _ _ h ?_
  · intro s f hs herror
    by_cases hsize : aux ≤ (s.node item).chunk_size / 2
    · obtain ⟨t, hnext, -⟩ := hs.dividir haux hpos hsize
      rw [herror] at hnext
      simp at hnext
    · simp [LaLiga.Rc.dividir, hsize] at herror
  · intro s t hs hturn
    by_cases hsize : aux ≤ (s.node item).chunk_size / 2
    · obtain ⟨t', hnext, ht, hlt⟩ := hs.dividir haux hpos hsize
      rw [hturn] at hnext
      obtain rfl := Sum.inl.inj (Except.ok.inj hnext)
      exact ⟨ht, hlt⟩
    · simp [LaLiga.Rc.dividir, hsize] at hturn
  · intro s e hs hturn
    unfold LaLiga.Rc.dividir at hturn
    split_ifs at hturn
    · cases hagrega : agregarHijosDePadre s item <;> simp [hagrega] at hturn
    · obtain rfl := Sum.inr.inj (Except.ok.inj hturn)
      exact ⟨s, rfl, hs⟩
  · obtain ⟨w, ps', -, -, ht, -⟩ := h.lista
    obtain ⟨m, -, -, hv⟩ := ht.piece
    have hle := hv.le
    unfold turns
    omega

theorem Repartida.obtenerDireccion_buddy (h : Repartida d l ps) (hn : n < 2 ^ 31)
    (hpow : ∀ p ∈ l, ∃ k, (d.node p).chunk_size = 2 ^ k) (hp : Apto d l n p) :
    ∃ u item v e w ps', l = u ++ item :: v ∧ ajuste d l n = some item ∧
      diccionario_obtenerDireccion_buddy d n = .ok (e, some item) ∧ Marco d u v item e ∧
      ps = w.reverse ++ ps' ∧ Listas e (u ++ item :: (w ++ v)) ps' ∧
      n ≤ (e.node item).chunk_size ∧ (e.node item).data_size = n := by
  have hmax : Apto d l (max n d.slab_min_size) p :=
    ⟨hp.1, hp.2.1, max_le hp.2.2 (h.slab p hp.1)⟩
  obtain ⟨primera, item, hprimera, hitem, hajuste⟩ := h.listas.elegir hmax
  obtain ⟨hmem, -, hitem_fits⟩ := apto_of_ajuste hajuste
  obtain ⟨u, v, rfl⟩ := List.append_of_mem hmem
  have hfits : max n d.slab_min_size ≤ d.table_max_size := by
    obtain ⟨m, -, -, hv⟩ := h.tiles.piece
    have hle := hv.le
    omega
  have hstart : Mitad d u v ps item (max n d.slab_min_size) d :=
    ⟨.refl, ⟨[], ps, rfl, h.listas, h.tiles, h.slab⟩, hpow item hmem, hitem_fits⟩
  obtain ⟨e, hloop, he⟩ := hstart.loop (le_max_right _ _) h.slab_pos
  obtain ⟨w, ps', hps, hl, -, -⟩ := he.lista
  have hnot := (List.nodup_cons.mp (List.nodup_middle.mp h.listas.dlist.nodup)).1
  refine ⟨u, item, v, reservar e item n, w, ps', rfl, ?_, ?_, he.marco.reservar hnot, hps,
    listas_reservar hl, ?_, by simp [reservar]⟩
  · rw [← h.ajuste_max, hajuste]
  · exact loop_exit d.table_max_size
      (buscar_lugar_buddy_encontrado (aux_data_size_eq hn) hfits hprimera hitem hloop)
  · have := he.fits
    simp only [reservar, node_modificar, if_true]
    omega

end Buddy

/-- An allocation for which some partition is large enough takes the one that the policy says,
whatever the scheme, and leaves the others alone. -/
theorem colocacion {d : t_diccionario} {l ps : List Ptr} {n : Nat} (h : Repartida d l ps)
    (hn : n < 2 ^ 31) (hfit : ∃ p, Apto d l n p) :
    (∃ u item v e, l = u ++ item :: v ∧ Elegida d l u n item ∧
      (∀ turnos, diccionario_obtenerDireccion (turnos + 1) d n = .ok (e, some item)) ∧
      Recortada d u v ps item (max n d.slab_min_size) e ∧ (e.node item).data_size = n) ∧
    ((∀ p ∈ l, ∃ k, (d.node p).chunk_size = 2 ^ k) →
      ∃ u item v e w ps', l = u ++ item :: v ∧ Elegida d l u n item ∧
        diccionario_obtenerDireccion_buddy d n = .ok (e, some item) ∧ Marco d u v item e ∧
        ps = w.reverse ++ ps' ∧ Listas e (u ++ item :: (w ++ v)) ps' ∧
        n ≤ (e.node item).chunk_size ∧ (e.node item).data_size = n) := by
  obtain ⟨p, hp⟩ := hfit
  refine ⟨?_, ?_⟩
  · obtain ⟨u, item, v, e, rfl, hajuste, hrest⟩ := h.obtenerDireccion hn hp
    exact ⟨u, item, v, e, rfl, elegida_of_ajuste h.listas.dlist.nodup hajuste, hrest⟩
  · intro hpow
    obtain ⟨u, item, v, e, w, ps', rfl, hajuste, hrest⟩ := h.obtenerDireccion_buddy hn hpow hp
    exact ⟨u, item, v, e, w, ps', rfl, elegida_of_ajuste h.listas.dlist.nodup hajuste, hrest⟩

/-- A dictionary just initialised is well formed in both schemes. -/
theorem repartida_inicial {self : t_diccionario} (hpos : 1 ≤ self.slab_min_size)
    (hle : self.slab_min_size ≤ self.table_max_size) (hlt : self.table_max_size < 2 ^ 31) :
    Repartida (inicializarElementos self) [.element]
      ((List.range (self.cant_max - 1)).map .slot) where
  listas := Listas.inicial (Nat.div_pos hle hpos)
  tiles := ⟨rfl, Nat.zero_add _⟩
  slab := by
    simp only [List.mem_singleton, forall_eq]
    exact hle
  libres := by
    intro p hp
    obtain ⟨i, hi, rfl⟩ := List.mem_map.mp hp
    have hin : i + 1 < self.cant_max := by
      have := List.mem_range.mp hi
      omega
    simp [inicializarElementos, hin]
  slab_pos := hpos
  max_lt := hlt

/-- The first request of ten bytes out of sixty-four. -/
theorem colocacion_primera : ∃ d : t_diccionario,
    (∃ u item v e, [Ptr.element] = u ++ item :: v ∧ Elegida d [.element] u 10 item ∧
      (∀ turnos, diccionario_obtenerDireccion (turnos + 1) d 10 = .ok (e, some item)) ∧
      Recortada d u v ((List.range 15).map .slot) item (max 10 d.slab_min_size) e ∧
      (e.node item).data_size = 10) ∧
    ∃ u item v e w ps', [Ptr.element] = u ++ item :: v ∧ Elegida d [.element] u 10 item ∧
      diccionario_obtenerDireccion_buddy d 10 = .ok (e, some item) ∧ Marco d u v item e ∧
      (List.range 15).map .slot = w.reverse ++ ps' ∧ Listas e (u ++ item :: (w ++ v)) ps' ∧
      10 ≤ (e.node item).chunk_size ∧ (e.node item).data_size = 10 := by
  have h := colocacion (d := diccionario_crear default 64 4) (n := 10)
    (repartida_inicial (by decide) (by decide) (by decide)) (by decide)
    ⟨.element, by simp, rfl, by decide⟩
  refine ⟨_, h.1, h.2 ?_⟩
  simp only [List.mem_singleton, forall_eq]
  exact ⟨6, rfl⟩

end LaLiga.Rc
