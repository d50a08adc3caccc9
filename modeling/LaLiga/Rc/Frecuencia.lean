import LaLiga.Lib.Countdown
import LaLiga.Rc.Ajustes

/-! How often the memory is compacted. -/
namespace LaLiga.Rc

open LaLiga.Lib t_diccionario

/-- The search of a turn finds no partition. -/
def falla (data_size : Nat) (self : t_diccionario) : Bool :=
  let aux := aux_data_size data_size self.slab_min_size
  decide (aux ≤ self.table_max_size) &&
    match primer_ajuste self aux with
    | .ok none => true
    | _ => false

/-- The stored data leave as many bytes as are searched for. -/
def alcanza (b : Nat × t_diccionario) : Bool :=
  decide ((aux_data_size b.1 b.2.slab_min_size : Int) ≤ b.2.table_max_size - b.2.table_current_size)

/-- The memory is compacted after the search. -/
def compacta (b : Nat × t_diccionario) : Bool :=
  conviene_compactar (contar_intento b.2) (aux_data_size b.1 b.2.slab_min_size)

section Frecuencia

variable {d e : t_diccionario} {n turnos aux max slab : Nat} {frecuencia : Int}
  {c : Operacion} {cs : List Operacion}

theorem contar_intento_fijo : (contar_intento d).fijo = d.fijo := by
  unfold contar_intento
  split_ifs <;> rfl

theorem contar_intento_current :
    (contar_intento d).table_current_size = d.table_current_size := by
  unfold contar_intento
  split_ifs <;> rfl

theorem contar_intento_contador : (contar_intento d).compactarMemoria =
    if 0 < d.compactarMemoria then d.compactarMemoria - 1 else d.compactarMemoria := by
  unfold contar_intento
  split_ifs <;> rfl

/-- A search in vain counts down, and compacts where the countdown is used. -/
theorem compacta_eq (b : Nat × t_diccionario) : compacta b =
    (tick b.2.frecuenciaCompactacion b.2.compactarMemoria (alcanza b)).2 := by
  obtain ⟨n, d⟩ := b
  simp only [compacta, conviene_compactar, contar_intento_contador, contar_intento_current,
    max_intento, tick, alcanza]
  split_ifs with hpos hfire hfire
  · exact hfire
  · exact Bool.eq_false_iff.mpr hfire
  · exact hfire
  · exact Bool.eq_false_iff.mpr hfire

theorem hacer_lugar_contador
    (h : hacer_lugar d (aux_data_size n d.slab_min_size) = .ok e) :
    e.fijo = d.fijo ∧ e.compactarMemoria =
      (tick d.frecuenciaCompactacion d.compactarMemoria (alcanza (n, d))).1 := by
  have hcompacta := compacta_eq (n, d)
  unfold compacta at hcompacta
  unfold hacer_lugar at h
  simp only [hcompacta] at h
  split_ifs at h with hfire
  · cases hcomp : diccionario_compactarMemoria (contar_intento d) with
    | error f => simp [hcomp] at h
    | ok d' =>
      simp only [hcomp] at h
      obtain rfl := Except.ok.inj h
      have hfijo := (ajustes_fijo (ajustes_compactar hcomp)).trans contar_intento_fijo
      exact ⟨hfijo, (fijo_frecuencia hfijo).trans (tick_used hfire).2.symm⟩
  · cases hv : diccionario_elegirVictima (contar_intento d) with
    | error f => simp [hv] at h
    | ok victima =>
      cases hel : diccionario_eliminar (contar_intento d) victima with
      | error f => simp [hv, hel] at h
      | ok x =>
        simp only [hv, hel] at h
        obtain rfl := Except.ok.inj h
        have haj := ajustes_eliminar hel
        refine ⟨(ajustes_fijo haj).trans contar_intento_fijo, ?_⟩
        rw [ajustes_contador haj, contar_intento_contador]
        exact (tick_unused hfire).symm

/-- What a turn of the search does to the settings. -/
theorem buscar_lugar_turno : (∀ e, buscar_lugar n d = .ok (.inl e) →
      falla n d = true ∧ hacer_lugar d (aux_data_size n d.slab_min_size) = .ok e) ∧
    ∀ r, buscar_lugar n d = .ok (.inr r) → falla n d = false ∧ r.1.ajustes = d.ajustes := by
  unfold buscar_lugar falla
  by_cases hbig : aux_data_size n d.slab_min_size ≤ d.table_max_size
  swap
  · simp only [if_neg hbig]
    refine ⟨by simp, fun r h => ?_⟩
    obtain rfl := Sum.inr.inj (Except.ok.inj h)
    simp [hbig]
  simp only [hbig, if_true, decide_true, Bool.true_and]
  cases hfirst : primer_ajuste d (aux_data_size n d.slab_min_size) with
  | error f => simp
  | ok o =>
    cases o with
    | none =>
      cases hmake : hacer_lugar d (aux_data_size n d.slab_min_size) with
      | error f => simp
      | ok e => simp
    | some item =>
      cases hbest : (if d.bestfit = true then
          mejor_ajuste d (aux_data_size n d.slab_min_size) item else .ok item) with
      | error f =>
        simp only [hbest]
        exact ⟨by simp, by simp⟩
      | ok item' =>
        simp only [hbest]
        cases hsplit : partir d item' (aux_data_size n d.slab_min_size) with
        | error f => exact ⟨by simp, by simp⟩
        | ok e =>
          refine ⟨by simp, fun r h => ?_⟩
          obtain rfl := Sum.inr.inj (Except.ok.inj h)
          exact ⟨trivial, (ajustes_partir hsplit :)⟩

/-- The countdown behind the searches of a run, from the state in front of them. -/
def Cuenta (d : t_diccionario) (l : List (Nat × t_diccionario)) (e : t_diccionario) : Prop :=
  e.fijo = d.fijo ∧ e.compactarMemoria =
    countdown d.frecuenciaCompactacion d.compactarMemoria (l.map alcanza)

/-- The searches compact where the countdown is used. -/
def Siguen (d : t_diccionario) (l : List (Nat × t_diccionario)) : Prop :=
  l.map compacta = uses d.frecuenciaCompactacion d.compactarMemoria (l.map alcanza)

theorem Cuenta.refl (h : e.ajustes = d.ajustes) : Cuenta d [] e :=
  ⟨ajustes_fijo h, ajustes_contador h⟩

variable {l l' : List (Nat × t_diccionario)} {f : t_diccionario}

theorem Cuenta.append (h : Cuenta d l e) (h' : Cuenta e l' f) : Cuenta d (l ++ l') f := by
  obtain ⟨hfijo, hcount⟩ := h
  obtain ⟨hfijo', hcount'⟩ := h'
  refine ⟨hfijo'.trans hfijo, ?_⟩
  rw [hcount', fijo_frecuencia hfijo, hcount, List.map_append, countdown_append]

theorem Siguen.append (h : Siguen d l) (hc : Cuenta d l e) (h' : Siguen e l') :
    Siguen d (l ++ l') := by
  obtain ⟨hfijo, hcount⟩ := hc
  unfold Siguen at h h' ⊢
  rw [List.map_append, List.map_append, uses_append, h, h', fijo_frecuencia hfijo, hcount]

theorem Siguen.nil : Siguen d [] := rfl

/-- One search in vain. -/
theorem Siguen.single : Siguen d [(n, d)] := by
  rw [Siguen, List.map_singleton, List.map_singleton, compacta_eq]
  rfl

theorem Cuenta.single (h : hacer_lugar d (aux_data_size n d.slab_min_size) = .ok e) :
    Cuenta d [(n, d)] e := by
  obtain ⟨hfijo, hcount⟩ := hacer_lugar_contador h
  exact ⟨hfijo, by simpa [countdown] using hcount⟩

/-- A free partition on either side of a stored one, and a request for both together. -/
def peticiones : List Operacion :=
  [.allocate (fun _ => 97) 1 2 0, .store .element 5, .allocate (fun _ => 98) 1 1 0,
    .store (.slot 0) 6, .remove (fun _ => 97) 1, .allocate (fun _ => 99) 1 3 0]

end Frecuencia

end LaLiga.Rc
