import LaLiga.Rc.Aborto
import LaLiga.Rc.Compactacion

/-! The dates by which victims are chosen. -/
namespace LaLiga.Rc

open LaLiga.Lib t_diccionario

/-- What is stored has a date, and nothing else has. -/
def Fechado (d : t_diccionario) : Prop :=
  ∀ q, d.allocated q = true → ((d.node q).ocupado = true ↔ (d.node q).hour ≠ 0)

/-- The time is not zero. -/
def ConHora : Operacion → Prop
  | .store _ hora => hora ≠ 0
  | .get _ _ hora => hora ≠ 0
  | _ => True

section Fechas

variable {d e f g : t_diccionario} {l ps u v vs : List Ptr} {it it' item libre b p q : Ptr}
  {max slab n nkey aux turnos : Nat} {key : Nat → UInt8} {flags hora : Int} {c : Operacion}

theorem sin_lugar_de_tamano {a b : t_dict_element} (h : b.sin_tamano = a.sin_tamano) :
    b.sin_lugar = a.sin_lugar := congrArg (fun i : t_dict_element => { i with data := none }) h

theorem sin_lugar_de_contenido {a b : t_dict_element} (h : b.contenido = a.contenido) :
    b.sin_lugar = a.sin_lugar :=
  congrArg (fun i : t_dict_element => { i with data := none, chunk_size := 0 }) h

namespace Fechado

/-- The dates of all but `it` are as they were. -/
theorem of_node (h : Fechado d) (hall : ∀ q, e.allocated q = d.allocated q)
    (hn : ∀ q, q ≠ it → (e.node q).sin_lugar = (d.node q).sin_lugar)
    (hit : (e.node it).ocupado = true ↔ (e.node it).hour ≠ 0) : Fechado e := by
  intro q hq
  by_cases hqi : q = it
  · rw [hqi]
    exact hit
  · have hocupado : (e.node q).ocupado = (d.node q).ocupado :=
      (congrArg t_dict_element.ocupado (hn q hqi) :)
    have hhour : (e.node q).hour = (d.node q).hour := (congrArg t_dict_element.hour (hn q hqi) :)
    rw [hocupado, hhour]
    exact h q (hall q ▸ hq)

theorem congr (h : Fechado d) (hall : ∀ q, e.allocated q = d.allocated q)
    (hn : ∀ q, (e.node q).sin_lugar = (d.node q).sin_lugar) : Fechado e := by
  intro q hq
  have hocupado : (e.node q).ocupado = (d.node q).ocupado :=
    (congrArg t_dict_element.ocupado (hn q) :)
  have hhour : (e.node q).hour = (d.node q).hour := (congrArg t_dict_element.hour (hn q) :)
  rw [hocupado, hhour]
  exact h q (hall q ▸ hq)

theorem limpiar (h : Fechado d) : Fechado (d.limpiar it) := by
  refine h.of_node (ajustes_allocated ajustes_limpiar) (fun q (hq : q ≠ it) => ?_) ?_
  · rw [node_limpiar_ne hq]
  · simp [limpio_limpiar.ocupado, limpio_limpiar.hour]

/-- Marking an element as stored, with a date. -/
theorem marcar (h : Fechado d) {f : t_dict_element → t_dict_element}
    (hocupado : (f (d.node it)).ocupado = true) (hhour : (f (d.node it)).hour ≠ 0) :
    Fechado (d.modificar it f) := by
  refine h.of_node (ajustes_allocated ajustes_modificar) (fun q (hq : q ≠ it) => ?_) ?_
  · simp [hq]
  · simp [hocupado, hhour]

theorem store {r : Bool} (h : Fechado d) (hh : hora ≠ 0)
    (hok : justice_engine_store d item hora = .ok (e, r)) : Fechado e := by
  rcases store_cases hok with ⟨rfl, -⟩ | ⟨it, -, -, rfl⟩
  · exact h
  · exact h.marcar rfl hh

theorem get {r : Option Ptr} (h : Fechado d) (hh : hora ≠ 0)
    (hok : justice_engine_get d key nkey hora = .ok (e, r)) : Fechado e := by
  rcases get_cases hok with ⟨rfl, -⟩ | ⟨it, -, hocupado, -, rfl | rfl⟩
  · exact h
  · exact h
  · exact h.marcar hocupado hh

/-- A release of the dynamic partitions, whichever it joins. -/
theorem eliminar (h : Fechado d) (hok : diccionario_eliminar d it = .ok (e, it')) :
    Fechado e := by
  have hlimpio : Fechado (d.limpiar it) := h.limpiar
  refine hlimpio.congr ?_ fun q => sin_lugar_de_tamano ((diccionario_eliminar_sin_tamano hok).1 q)
  exact ajustes_allocated ((ajustes_eliminar hok).trans ajustes_limpiar.symm)

/-- A release of the buddy system. -/
theorem eliminar_buddy (h : Fechado d) (hin : EnLista d it)
    (hok : diccionario_eliminar_buddy d it = .ok e) : Fechado e := by
  have hr := (eliminar_buddy_reubica hin hok).1
  have hlimpio : Fechado (d.limpiar it) := h.limpiar
  exact hlimpio.congr hr.allocated hr.sin_lugar

theorem release (h : Fechado d) (hok : justice_engine_item_release d it = .ok e) : Fechado e := by
  unfold justice_engine_item_release at hok
  split_ifs at hok
  · obtain rfl := Except.ok.inj hok
    exact h
  · cases hel : diccionario_eliminar d it with
    | error f => simp [hel] at hok
    | ok x =>
      simp only [hel] at hok
      obtain rfl := Except.ok.inj hok
      exact h.eliminar hel

/-- The element that is handed out has no date yet. -/
theorem nombrar (h : Fechado d) :
    Fechado (LaLiga.Rc.nombrar (reservar d item n) item key nkey flags) := by
  intro q hq
  have hsame : ∀ q, ((LaLiga.Rc.nombrar (reservar d item n) item key nkey flags).node q).ocupado =
        (d.node q).ocupado ∧
      ((LaLiga.Rc.nombrar (reservar d item n) item key nkey flags).node q).hour =
        (d.node q).hour := by
    intro q
    simp only [LaLiga.Rc.nombrar, reservar, node_modificar]
    split_ifs with hqi
    · rw [hqi]
      exact ⟨rfl, rfl⟩
    · exact ⟨rfl, rfl⟩
  rw [(hsame q).1, (hsame q).2]
  exact h q (ajustes_allocated (ajustes_nombrar.trans ajustes_reservar) q ▸ hq)

end Fechado

/-- An eviction takes something out of the list. -/
theorem Desaloja.en_lista (hl : Listas d l ps) (hd : Desaloja n d it e) : EnLista d it := by
  rcases diccionario_elegirVictima_eq hl with ⟨herror, -⟩ | ⟨victima, hmem, hok, -⟩
  · rw [hd.2.1] at herror
    exact absurd herror (by simp)
  · rw [hd.2.1] at hok
    obtain rfl := Except.ok.inj hok
    exact ⟨l, ps, hl, hmem⟩

theorem Ordenada.listas (h : Ordenada max slab d) : ∃ l ps, Listas d l ps := by
  obtain ⟨l, ps, hv, -⟩ := h
  exact ⟨l, ps, hv.listas⟩

/-- Nothing in use but `it` is touched, and what is free has no date. -/
theorem Ajeno.fechado (ha : Ajeno d it e) (h : Fechado d) (he : Ordenada max slab e)
    (hit : (e.node it).ocupado = true ↔ (e.node it).hour ≠ 0) : Fechado e := by
  intro q hq
  by_cases hqi : q = it
  · rw [hqi]
    exact hit
  by_cases huse : enUso (e.node q) = true
  · have hc := sin_lugar_de_contenido (ha.contenido q hqi ((ha.uso q hqi).symm.trans huse))
    have hocupado : (e.node q).ocupado = (d.node q).ocupado :=
      (congrArg t_dict_element.ocupado hc :)
    have hhour : (e.node q).hour = (d.node q).hour := (congrArg t_dict_element.hour hc :)
    rw [hocupado, hhour]
    exact h q (ha.allocated.symm.trans hq)
  · obtain ⟨l, ps, hv, -⟩ := he
    have hlimpio : Limpio (e.node q) := by
      rcases List.mem_append.mp (hv.listas.perm.mem_iff.mpr (mem_all_nodes.mpr hq)) with hin | hin
      · exact hv.libre hin (by simpa using huse)
      · exact hv.libres q hin
    simp [hlimpio.ocupado, hlimpio.hour]

end Fechas

end LaLiga.Rc
