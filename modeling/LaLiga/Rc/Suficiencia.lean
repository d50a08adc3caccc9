import LaLiga.Rc.Frecuencia
import LaLiga.Rc.Tenencia

/-! The size of the partition that an allocation hands out. -/
namespace LaLiga.Rc

open LaLiga.Lib t_diccionario

/-- What a request is promised: one that does not fit the memory is refused, and what is handed
out has room for it. -/
structure Suficiente (E : Esquema) (d : t_diccionario) (key : Nat → UInt8) (nkey nbytes : Nat)
    (flags : Int) : Prop where
  grande : d.table_max_size < nbytes →
    ∃ turnos e, justice_engine_allocate E turnos d key nkey nbytes flags = .ok (e, none)
  cabe : ∀ turnos e it, justice_engine_allocate E turnos d key nkey nbytes flags =
    .ok (e, some it) → (e.node it).data_size = nbytes ∧ nbytes ≤ (e.node it).chunk_size

/-- What the search of a scheme promises about the size that it searches for. -/
structure Busca (E : Esquema) (d : t_diccionario) (n : Nat) : Prop where
  cabe : ∀ turnos e it, E.f_obtenerDireccion turnos d n = .ok (e, some it) →
    (e.node it).data_size = n ∧ aux_data_size n d.slab_min_size ≤ (e.node it).chunk_size
  ninguna : ∀ turnos e, E.f_obtenerDireccion turnos d n = .ok (e, none) →
    d.table_max_size < aux_data_size n d.slab_min_size
  grande : d.table_max_size < aux_data_size n d.slab_min_size →
    ∃ turnos, E.f_obtenerDireccion turnos d n = .ok (d, none)

section Busquedas

variable {d e : t_diccionario} {it item : Ptr} {l u v w ps : List Ptr} {o : Option Ptr}
  {aux n k nkey max slab : Nat} {p : t_dict_element → Bool} {key : Nat → UInt8} {flags : Int}

/-- What a scan finds passes its test, whatever the list. -/
theorem buscar_sound (h : d.buscar p k o = .ok (some it)) : p (d.node it) = true := by
  induction k generalizing o with
  | zero => cases o <;> simp [buscar] at h
  | succ k ih =>
    cases o with
    | none => simp [buscar] at h
    | some q =>
      simp only [buscar] at h
      split_ifs at h with hq
      · obtain rfl := Option.some.inj (Except.ok.inj h)
        exact hq
      · exact ih h

theorem recorrer_induction {β : Type} {f : β → Ptr → β} {I : β → Prop} {b c : β}
    (hstep : ∀ b q, I b → I (f b q)) (hb : I b) (h : d.recorrer f none k o b = .ok c) : I c := by
  induction k generalizing o b with
  | zero =>
    cases o with
    | none =>
      obtain rfl := Except.ok.inj h
      exact hb
    | some q => simp [recorrer] at h
  | succ k ih =>
    cases o with
    | none =>
      obtain rfl := Except.ok.inj h
      exact hb
    | some q =>
      simp only [recorrer, reduceCtorEq, if_false] at h
      exact ih (hstep b q hb) h

theorem primer_ajuste_cabe (h : primer_ajuste d aux = .ok (some item)) :
    aux ≤ (d.node item).chunk_size := by
  have := buscar_sound h
  simp only [Bool.not_eq_true', Bool.or_eq_false_iff, decide_eq_false_iff_not] at this
  omega

theorem mejor_ajuste_cabe (hitem : aux ≤ (d.node item).chunk_size)
    (h : mejor_ajuste d aux item = .ok it) : aux ≤ (d.node it).chunk_size := by
  refine recorrer_induction (I := fun it => aux ≤ (d.node it).chunk_size) ?_ hitem h
  intro b q hb
  split_ifs with hc
  · simp only [Bool.and_eq_true, decide_eq_true_eq] at hc
    exact hc.2
  · exact hb

/-- Splitting leaves what was asked for. -/
theorem partir_cabe (hitem : aux ≤ (d.node item).chunk_size) (h : partir d item aux = .ok e) :
    aux ≤ (e.node item).chunk_size := by
  unfold partir at h
  cases hn : d.nodes with
  | none =>
    simp only [hn] at h
    obtain rfl := Except.ok.inj h
    exact hitem
  | some nuevo =>
    simp only [hn] at h
    split_ifs at h
    · obtain rfl := Except.ok.inj h
      simp only [node_modificar, if_true]
      split_ifs <;> exact le_rfl
    · obtain rfl := Except.ok.inj h
      exact hitem

/-- The last turn of a search. -/
theorem buscar_lugar_fin {r : t_diccionario × Option Ptr} (h : buscar_lugar n d = .ok (.inr r)) :
    (r.2 = none → d.table_max_size < aux_data_size n d.slab_min_size) ∧
      ∀ it, r.2 = some it → (r.1.node it).data_size = n ∧
        aux_data_size n d.slab_min_size ≤ (r.1.node it).chunk_size := by
  unfold buscar_lugar at h
  by_cases hbig : aux_data_size n d.slab_min_size ≤ d.table_max_size
  swap
  · simp only [if_neg hbig] at h
    obtain rfl := Sum.inr.inj (Except.ok.inj h)
    exact ⟨fun _ => by omega, fun it hit => by simp at hit⟩
  simp only [if_pos hbig] at h
  cases hfirst : primer_ajuste d (aux_data_size n d.slab_min_size) with
  | error g => simp [hfirst] at h
  | ok o =>
    cases o with
    | none =>
      simp only [hfirst] at h
      cases hmake : hacer_lugar d (aux_data_size n d.slab_min_size) <;> simp [hmake] at h
    | some item =>
      simp only [hfirst] at h
      cases hbest : (if d.bestfit = true then
          mejor_ajuste d (aux_data_size n d.slab_min_size) item else .ok item) with
      | error g => simp [hbest] at h
      | ok item' =>
        have hfits : aux_data_size n d.slab_min_size ≤ (d.node item').chunk_size := by
          have hitem := primer_ajuste_cabe hfirst
          split_ifs at hbest
          · exact mejor_ajuste_cabe hitem hbest
          · obtain rfl := Except.ok.inj hbest
            exact hitem
        cases hsplit : partir d item' (aux_data_size n d.slab_min_size) with
        | error g => simp [hbest, hsplit] at h
        | ok e =>
          simp only [hbest, hsplit] at h
          obtain rfl := Sum.inr.inj (Except.ok.inj h)
          refine ⟨by simp, fun it hit => ?_⟩
          obtain rfl := Option.some.inj hit
          have hle := partir_cabe hfits hsplit
          simpa [reservar] using hle

/-- The sizes are the same in each turn of a search. -/
theorem buscar_lugar_fijo (h : buscar_lugar n d = .ok (.inl e)) : e.fijo = d.fijo := by
  obtain ⟨-, hmake⟩ := buscar_lugar_turno.1 e h
  exact (hacer_lugar_contador hmake).1

theorem f_obtenerDireccion_dinamicas : ParticionesDinamicas.f_obtenerDireccion =
    diccionario_obtenerDireccion := rfl

theorem busca_dinamicas (d : t_diccionario) (n : Nat) : Busca ParticionesDinamicas d n := by
  have hlast : ∀ turnos r, diccionario_obtenerDireccion turnos d n = .ok r →
      ∃ f, f.fijo = d.fijo ∧ buscar_lugar n f = .ok (.inr r) := by
    intro turnos r hr
    obtain ⟨f, -, hf, hlast⟩ := loop_turns (I := fun f => f.fijo = d.fijo)
      (fun s t _ hs hturn => (buscar_lugar_fijo hturn).trans hs) rfl turnos hr
    exact ⟨f, hf, hlast⟩
  refine ⟨fun turnos e it h => ?_, fun turnos e h => ?_, fun hbig => ⟨1, ?_⟩⟩
  · obtain ⟨f, hf, hfin⟩ := hlast turnos _ h
    rw [← fijo_slab hf]
    exact (buscar_lugar_fin hfin).2 it rfl
  · obtain ⟨f, hf, hfin⟩ := hlast turnos _ h
    rw [← fijo_slab hf, ← fijo_max hf]
    exact (buscar_lugar_fin hfin).1 rfl
  · have hturn : buscar_lugar n d = .ok (.inr (d, none)) := by
      unfold buscar_lugar
      simp only [if_neg (by omega : ¬ aux_data_size n d.slab_min_size ≤ d.table_max_size)]
    rw [f_obtenerDireccion_dinamicas, diccionario_obtenerDireccion]
    exact loop_exit 0 hturn

/-- A removal ends whatever the state of the neighbours: the links forward stay in order. -/
theorem unir_anteriores_ok (hl : Listas d (w ++ it :: v) ps) :
    unir_anteriores (d, it) = .ok (.inr (d, it)) ∨
    ∃ e a w' ps', unir_anteriores (d, it) = .ok (.inl (e, a)) ∧ w'.length < w.length ∧
      Listas e (w' ++ a :: v) ps' ∧ e.turns = d.turns := by
  unfold unir_anteriores
  cases hprev : (d.node it).prev with
  | none => exact Or.inl rfl
  | some a =>
    dsimp only
    split_ifs
    · exact Or.inl rfl
    · right
      rw [hl.dlist.prev_eq] at hprev
      obtain ⟨w', rfl⟩ := List.getLast?_eq_some_iff.mp hprev
      rw [List.append_assoc, List.singleton_append] at hl
      have he := unir_anterior_eq (d := d) hl.places.1
      exact ⟨_, a, w', _, rfl, by simp, hl.absorber he, by simp [turns, he.max]⟩

theorem unir_posteriores_ok {s : List Ptr} (hs : Seg (fun p => (d.node p).next) (it :: s) none)
    (hn : (it :: s).Nodup) :
    unir_posteriores it d = .ok (.inr d) ∨
    ∃ e s', unir_posteriores it d = .ok (.inl e) ∧ s'.length < s.length ∧
      Seg (fun p => (e.node p).next) (it :: s') none ∧ (it :: s').Nodup := by
  unfold unir_posteriores
  cases s with
  | nil =>
    have hnext : (d.node it).next = none := by simpa using hs.1
    exact Or.inl (by simp [hnext])
  | cons b s =>
    have hnext : (d.node it).next = some b := by simpa using hs.1
    have hb : (d.node b).next = s.head? := by simpa using hs.2.1
    simp only [hnext]
    split_ifs
    · exact Or.inl rfl
    · right
      simp only [List.nodup_cons, List.mem_cons, not_or] at hn
      obtain ⟨⟨hne, hns⟩, hbs, hn⟩ := hn
      have hothers : ∀ q, q ≠ b → ((unir_posterior d it b).node q).next =
          if q = it then (d.node b).next else (d.node q).next := by
        intro q hq
        simp only [unir_posterior, devolver, node_modificar, node_modificar?, nodes_modificar, hq,
          if_false, Ne.symm hne]
        split_ifs <;> simp_all
      refine ⟨_, s, rfl, by simp, ⟨?_, ?_⟩, List.nodup_cons.mpr ⟨hns, hn⟩⟩
      · dsimp only
        rw [hothers it hne, if_pos rfl, hb, Option.or_none]
      · refine hs.2.2.congr fun q hq => ?_
        have hqb : q ≠ b := fun heq => hbs (heq ▸ hq)
        have hqi : q ≠ it := fun heq => hns (heq ▸ hq)
        rw [hothers q hqb, if_neg hqi]

/-- A removal ends whatever the state of the neighbours: the links forward stay in order. -/
theorem diccionario_eliminar_ok (hl : Listas d l ps) (hit : it ∈ l) :
    ∃ x, diccionario_eliminar d it = .ok x := by
  obtain ⟨w, v, rfl⟩ := List.append_of_mem hit
  have hstart : Listas (d.limpiar it) (w ++ it :: v) ps := by
    refine hl.congr (fun p => ?_) (fun p _ => ?_) rfl rfl rfl
    · simp only [t_diccionario.limpiar, node_modificar]
      split_ifs <;> rfl
    · simp only [t_diccionario.limpiar, node_modificar]
      split_ifs <;> rfl
  have hlen := hl.length_lt_turns
  obtain ⟨e, i, hfirst, w', v', ps', hl', hturns⟩ : ∃ e i,
      loop .no_termina unir_anteriores d.turns (d.limpiar it, it) = .ok (e, i) ∧
      ∃ w v ps, Listas e (w ++ i :: v) ps ∧ e.turns = d.turns := by
    refine loop_bound
      (I := fun k (s : t_diccionario × Ptr) => ∃ w v ps, w.length = k ∧
        Listas s.1 (w ++ s.2 :: v) ps ∧ s.1.turns = d.turns)
      (R := fun r => ∃ e i, r = .ok (e, i) ∧ ∃ w v ps, Listas e (w ++ i :: v) ps ∧
        e.turns = d.turns) ?_ ?_ ?_ _ w.length _ ⟨w, v, ps, rfl, hstart, rfl⟩ ?_
    · rintro k ⟨e, i⟩ f ⟨w, v, ps, -, hs, -⟩ herror
      rcases unir_anteriores_ok hs with hok | ⟨e', a, w', ps', hok, -⟩
      · simp [hok] at herror
      · simp [hok] at herror
    · rintro k ⟨e, i⟩ y ⟨w, v, ps, rfl, hs, hturns⟩ hturn
      rcases unir_anteriores_ok hs with hok | ⟨e', a, w', ps', hok, hlt, hs', hturns'⟩
      · simp [hok] at hturn
      · rw [hok] at hturn
        obtain rfl := Sum.inl.inj (Except.ok.inj hturn)
        exact ⟨w'.length, hlt, w', v, ps', rfl, hs', hturns'.trans hturns⟩
    · rintro k ⟨e, i⟩ y ⟨w, v, ps, -, hs, hturns⟩ hturn
      obtain rfl := unir_anteriores_inr hturn
      exact ⟨e, i, rfl, w, v, ps, hs, hturns⟩
    · simp only [List.length_append, List.length_cons] at hlen
      omega
  have hlen' := hl'.length_lt_turns
  obtain ⟨f, hsecond⟩ : ∃ f, loop .no_termina (unir_posteriores i) e.turns e = .ok f := by
    have hseg : Seg (fun p => (e.node p).next) (i :: v') none := (seg_append.mp hl'.dlist.next).2
    have hnodup : (i :: v').Nodup := (List.nodup_append.mp hl'.dlist.nodup).2.1
    refine loop_bound
      (I := fun k (s : t_diccionario) => ∃ v, v.length = k ∧
        Seg (fun p => (s.node p).next) (i :: v) none ∧ (i :: v).Nodup)
      (R := fun r => ∃ f, r = .ok f) ?_ ?_ ?_ _ v'.length _ ⟨v', rfl, hseg, hnodup⟩ ?_
    · rintro k s f ⟨v, -, hs, hn⟩ herror
      rcases unir_posteriores_ok hs hn with hok | ⟨e', v'', hok, -⟩
      · simp [hok] at herror
      · simp [hok] at herror
    · rintro k s y ⟨v, rfl, hs, hn⟩ hturn
      rcases unir_posteriores_ok hs hn with hok | ⟨e', v'', hok, hlt, hs', hn'⟩
      · simp [hok] at hturn
      · rw [hok] at hturn
        obtain rfl := Sum.inl.inj (Except.ok.inj hturn)
        exact ⟨v''.length, hlt, v'', rfl, hs', hn'⟩
    · exact fun k s y _ _ => ⟨y, rfl⟩
    · simp only [List.length_append, List.length_cons] at hlen'
      omega
  refine ⟨(f, i), ?_⟩
  unfold diccionario_eliminar
  simp only [hfirst, hsecond]

theorem Ordenada.busca_buddy (h : Ordenada max slab d) (n : Nat) : Busca BuddySystem d n := by
  obtain ⟨l, ps, hv, -, -, hslab⟩ := h
  have hend := diccionario_obtenerDireccion_buddy_eq hv (rfl : aux_data_size n d.slab_min_size = _)
  refine ⟨fun turnos e it hok => ?_, fun turnos e hok => ?_, fun hbig => ⟨0, ?_⟩⟩
  · rw [f_obtenerDireccion_buddy] at hok
    rw [hok] at hend
    cases hend with
    | lugar hp _ => simpa [reservar] using hp.fits
  · rw [f_obtenerDireccion_buddy] at hok
    rw [hok] at hend
    cases hend with
    | grande hbig => exact hbig
  · have hturn : buscar_lugar_buddy n d = .ok (.inr (d, none)) := by
      unfold buscar_lugar_buddy
      simp only [if_neg (by omega : ¬ aux_data_size n d.slab_min_size ≤ d.table_max_size)]
    rw [f_obtenerDireccion_buddy, diccionario_obtenerDireccion_buddy, turns]
    exact loop_exit _ hturn

end Busquedas

section Pedidos

variable {E : Esquema} {d e : t_diccionario} {key : Nat → UInt8} {nkey n max slab : Nat}
  {flags : Int}

theorem aux_data_size_grande (hle : 2 ^ 31 ≤ n) (hlt : n < 2 ^ 32) :
    aux_data_size n slab = slab := by
  have hint : int n = n - 2 ^ 32 := by
    unfold int
    rw [Int.bmod_def]
    omega
  unfold aux_data_size
  rw [hint]
  omega

/-- A size that is an `int` is what decides; another one is taken for the size of a slab. -/
theorem suficiente_iff_of (hmax : d.table_max_size < 2 ^ 31)
    (hslab : d.slab_min_size ≤ d.table_max_size) (hn : n < 2 ^ 32)
    (hree : ∃ e, reemplazar E d key nkey = .ok e)
    (hbusca : ∀ e, reemplazar E d key nkey = .ok e → Busca E e n ∧
      e.table_max_size = d.table_max_size ∧ e.slab_min_size = d.slab_min_size) :
    Suficiente E d key nkey n flags ↔ n < 2 ^ 31 := by
  constructor
  · intro h
    by_contra hbig
    obtain ⟨turnos, e, hok⟩ := h.grande (by omega)
    obtain ⟨d₁, d₂, hree', hsearch, -⟩ := allocate_inv hok
    obtain ⟨hb, hmax', hslab'⟩ := hbusca d₁ hree'
    have hnone := hb.ninguna turnos d₂ hsearch
    rw [aux_data_size_grande (by omega) hn] at hnone
    omega
  · intro hsmall
    have hle : ∀ slab, n ≤ aux_data_size n slab := fun slab => le_of_aux hsmall
    refine ⟨fun hbig => ?_, fun turnos e it hok => ?_⟩
    · obtain ⟨d₁, hd₁⟩ := hree
      obtain ⟨hb, hmax', -⟩ := hbusca d₁ hd₁
      obtain ⟨turnos, hnone⟩ := hb.grande (by have := hle d₁.slab_min_size; omega)
      exact ⟨turnos, d₁, allocate_none hd₁ hnone⟩
    · obtain ⟨d₁, d₂, hree', hsearch, hcase⟩ := allocate_inv hok
      obtain ⟨hb, -, -⟩ := hbusca d₁ hree'
      rcases hcase with ⟨hnone, -⟩ | ⟨it', hit', -, rfl⟩
      · exact absurd hnone (by simp)
      · obtain rfl := Option.some.inj hit'
        obtain ⟨hsize, hfits⟩ := hb.cabe turnos d₂ it hsearch
        have := hle d₁.slab_min_size
        simp only [nombrar, node_modificar, if_true]
        exact ⟨hsize, by omega⟩

/-- An old value of the key can be removed, whatever lies around it. -/
theorem Modo.Bien.reemplazar_ok {m : Modo} (h : m.Bien max slab d) :
    ∃ e, reemplazar m.esquema d key nkey = .ok e := by
  cases m with
  | ParticionesDinamicas =>
    obtain ⟨⟨l, ps, hp⟩, -, -⟩ := h
    refine LaLiga.Rc.reemplazar_ok (buscar_eq hp.listas.dlist.next hp.listas.head
      (Nat.lt_succ_iff.mp hp.listas.length_lt_turns)) ?_
    intro it hit
    exact diccionario_eliminar_ok hp.listas (List.mem_of_find?_eq_some hit)
  | BuddySystem =>
    obtain ⟨l, ps, hv, -⟩ := id h
    refine LaLiga.Rc.reemplazar_ok (buscar_eq hv.listas.dlist.next hv.listas.head
      (Nat.lt_succ_iff.mp hv.listas.length_lt_turns)) ?_
    intro it hit
    obtain ⟨e, he, -⟩ := Ordenada.eliminar h ⟨l, ps, hv.listas, List.mem_of_find?_eq_some hit⟩
    exact ⟨(e, it), by simp only [Modo.esquema, f_eliminar_buddy, he, Except.map]⟩

/-- In either scheme the requests that get what they need are those whose size is an `int`. -/
theorem suficiente_iff {m : Modo} (h : m.Bien max slab d) (hslab : slab ≤ max)
    (hmax : max < 2 ^ 31) (hn : n < 2 ^ 32) :
    Suficiente m.esquema d key nkey n flags ↔ n < 2 ^ 31 := by
  have hree : ∃ e, reemplazar m.esquema d key nkey = .ok e := h.reemplazar_ok
  cases m with
  | ParticionesDinamicas =>
    obtain ⟨-, rfl, rfl⟩ := h
    refine suficiente_iff_of hmax hslab hn hree fun e he => ?_
    have haj := ajustes_fijo (ajustes_reemplazar he)
    exact ⟨busca_dinamicas e n, fijo_max haj, fijo_slab haj⟩
  | BuddySystem =>
    obtain ⟨-, -, -, -, rfl, rfl⟩ := id h
    refine suficiente_iff_of hmax hslab hn hree fun e he => ?_
    have hord : Ordenada d.table_max_size d.slab_min_size e := by
      rcases reemplazar_cases he with ⟨rfl, -⟩ | ⟨it, it', hobt, -, hel⟩
      · exact h
      · exact (Ordenada.f_eliminar h (Ordenada.obtener h hobt).1 hel).1
    obtain ⟨l', ps', -, -, hmax', hslab'⟩ := id hord
    exact ⟨hord.busca_buddy n, hmax', hslab'⟩

theorem suficiente_cinco : Suficiente ParticionesDinamicas (diccionario_crear default 40 4)
    (fun _ => 97) 1 5 0 :=
  (suficiente_iff (m := .ParticionesDinamicas) (formada_creada creada_cuarenta) (by decide)
    (by decide) (by decide)).mpr (by decide)

/-- Four bytes are handed out for a value of `2 ^ 31`. -/
theorem insuficiente_int : ¬ Suficiente ParticionesDinamicas (diccionario_crear default 40 4)
    (fun _ => 97) 1 2147483648 0 := by
  obtain ⟨e, hok, hchunk⟩ : ∃ e, justice_engine_allocate ParticionesDinamicas 1
      (diccionario_crear default 40 4) (fun _ => 97) 1 2147483648 0 = .ok (e, some .element) ∧
      (e.node .element).chunk_size = 4 := ⟨_, rfl, rfl⟩
  intro h
  have := (h.cabe 1 e .element hok).2
  omega

end Pedidos

end LaLiga.Rc
