import LaLiga.Rc.Intactas

/-! What no call changes, whatever the state of the nodes. -/
namespace LaLiga.Rc

open LaLiga.Lib t_diccionario

/-- The sizes, the policies and the countdown of a dictionary. -/
def t_diccionario.ajustes (d : t_diccionario) : t_diccionario :=
  { d with nodes := none, elements := none, table_current_size := 0, node := fun _ => default
           mem := fun _ => 0 }

/-- A dictionary but for its countdown. -/
def t_diccionario.fijo (d : t_diccionario) : t_diccionario :=
  { d.ajustes with compactarMemoria := 0 }

section Ajustes

variable {d e : t_diccionario} {a b it p : Ptr} {o : Option Ptr} {n aux : Nat}
  {f : t_dict_element → t_dict_element} {key : Nat → UInt8} {nkey nbytes : Nat} {flags : Int}

@[simp] theorem ajustes_modificar : (d.modificar p f).ajustes = d.ajustes := rfl
@[simp] theorem ajustes_modificar? : (d.modificar? o f).ajustes = d.ajustes := by
  cases o <;> rfl
@[simp] theorem ajustes_nodes : ({ d with nodes := o } : t_diccionario).ajustes = d.ajustes := rfl
@[simp] theorem ajustes_mem {m : Nat → UInt8} :
    ({ d with mem := m } : t_diccionario).ajustes = d.ajustes := rfl
@[simp] theorem ajustes_limpiar : (d.limpiar p).ajustes = d.ajustes := rfl
@[simp] theorem ajustes_reservar : (reservar d p n).ajustes = d.ajustes := rfl
@[simp] theorem ajustes_nombrar : (nombrar d p key nkey flags).ajustes = d.ajustes := rfl
@[simp] theorem ajustes_devolver : (d.devolver p).ajustes = d.ajustes := by
  rw [devolver, ajustes_nodes, ajustes_modificar?, ajustes_modificar]

/-- What the settings have is as they are. -/
theorem ajustes_igual {β : Type} (h : e.ajustes = d.ajustes) (g : t_diccionario → β)
    (hg : ∀ d, g d.ajustes = g d) : g e = g d := by
  rw [← hg, h, hg]

theorem ajustes_allocated (h : e.ajustes = d.ajustes) (q : Ptr) :
    e.allocated q = d.allocated q := by
  have hmax := ajustes_igual h t_diccionario.table_max_size fun _ => rfl
  have hslab := ajustes_igual h t_diccionario.slab_min_size fun _ => rfl
  have hcant : e.cant_max = d.cant_max := by simp only [cant_max, hmax, hslab]
  cases q with
  | element => rfl
  | slot i => simp only [allocated, hcant]

theorem ajustes_nodos (h : e.ajustes = d.ajustes) : e.all_nodes = d.all_nodes := by
  have hmax := ajustes_igual h t_diccionario.table_max_size fun _ => rfl
  have hslab := ajustes_igual h t_diccionario.slab_min_size fun _ => rfl
  simp only [all_nodes, cant_max, hmax, hslab]

theorem ajustes_fijo (h : e.ajustes = d.ajustes) : e.fijo = d.fijo := by
  rw [fijo, h, fijo]

theorem ajustes_contador (h : e.ajustes = d.ajustes) : e.compactarMemoria = d.compactarMemoria :=
  ajustes_igual h t_diccionario.compactarMemoria fun _ => rfl

theorem fijo_igual {β : Type} (h : e.fijo = d.fijo) (g : t_diccionario → β)
    (hg : ∀ d, g d.fijo = g d) : g e = g d := by
  rw [← hg, h, hg]

theorem fijo_max (h : e.fijo = d.fijo) : e.table_max_size = d.table_max_size :=
  fijo_igual h t_diccionario.table_max_size fun _ => rfl

theorem fijo_slab (h : e.fijo = d.fijo) : e.slab_min_size = d.slab_min_size :=
  fijo_igual h t_diccionario.slab_min_size fun _ => rfl

theorem fijo_frecuencia (h : e.fijo = d.fijo) :
    e.frecuenciaCompactacion = d.frecuenciaCompactacion :=
  fijo_igual h t_diccionario.frecuenciaCompactacion fun _ => rfl

theorem ajustes_eliminar {it' : Ptr} (h : diccionario_eliminar d it = .ok (e, it')) :
    e.ajustes = d.ajustes := by
  refine diccionario_eliminar_turns h (I := fun x => x.1.ajustes = d.ajustes)
    (J := fun _ x => x.ajustes = d.ajustes) rfl ?_ ?_ ?_
  · intro x y hx hturn
    obtain ⟨a, -, rfl⟩ := unir_anteriores_inl hturn
    simpa [unir_anterior] using hx
  · intro x y hx hturn
    obtain rfl := unir_anteriores_inr hturn
    exact hx
  · intro i x y hx hturn
    obtain ⟨b, -, rfl⟩ := unir_posteriores_inl hturn
    simpa [unir_posterior] using hx

theorem ajustes_juntar : (juntar d a b).ajustes = d.ajustes := by simp [juntar]

theorem ajustes_intercambiar (h : intercambiar d a b = .ok e) : e.ajustes = d.ajustes := by
  unfold intercambiar at h
  simp only [node_modificar, if_true] at h
  split at h
  · obtain rfl := Except.ok.inj h
    rfl
  · simp at h

theorem ajustes_compactar (h : diccionario_compactarMemoria d = .ok e) :
    e.ajustes = d.ajustes :=
  compactar_igual (fun _ _ _ => ajustes_juntar) (fun _ _ _ _ => ajustes_intercambiar) h

theorem ajustes_partir (h : partir d a aux = .ok e) : e.ajustes = d.ajustes := by
  unfold partir at h
  split at h
  · obtain rfl := Except.ok.inj h
    rfl
  · split_ifs at h
    · obtain rfl := Except.ok.inj h
      simp
    · obtain rfl := Except.ok.inj h
      rfl

/-- Removing what is stored under the key of a request. -/
theorem ajustes_reemplazar (h : reemplazar ParticionesDinamicas d key nkey = .ok e) :
    e.ajustes = d.ajustes := by
  rcases reemplazar_cases h with ⟨rfl, -⟩ | ⟨it, it', -, -, hel⟩
  · rfl
  · exact ajustes_eliminar hel

end Ajustes

end LaLiga.Rc
