import LaLiga.Rc.Huecos
import LaLiga.Rc.Desalojable
import LaLiga.Rc.Suficiencia

/-! Whether an allocation that has to evict something finds something stored. -/
namespace LaLiga.Rc

open LaLiga.Lib t_diccionario

namespace Modo

/-- A turn of the search of the scheme. -/
def buscar : Modo → Nat → t_diccionario →
    Except Falla (t_diccionario ⊕ (t_diccionario × Option Ptr))
  | .ParticionesDinamicas => buscar_lugar
  | .BuddySystem => buscar_lugar_buddy

/-- The turn of a search for `n` bytes in `f` finds nothing and chooses a victim in `g`. -/
def Elige : Modo → Nat → t_diccionario → t_diccionario → Prop
  | .ParticionesDinamicas, n, f, g =>
    let aux := aux_data_size n f.slab_min_size
    aux ≤ f.table_max_size ∧ primer_ajuste f aux = .ok none ∧
      conviene_compactar (contar_intento f) aux = false ∧ g = contar_intento f
  | .BuddySystem, n, f, g =>
    let aux := aux_data_size n f.slab_min_size
    aux ≤ f.table_max_size ∧ primer_ajuste f aux = .ok none ∧ g = f

/-- The calls of a run. -/
def PermiteVictima : Modo → t_diccionario → Operacion → Prop
  | .ParticionesDinamicas, d, c => LaLiga.Rc.PermiteVictima d c
  | .BuddySystem, d, c => PermiteAborto d c ∧ ConHora c

/-- The request is refused at once, or the eviction of what is stored makes room for it. -/
def HayLugar : Modo → t_diccionario → (Nat → UInt8) → Nat → Nat → Prop
  | .ParticionesDinamicas, d, key, nkey, n =>
    let aux := aux_data_size n d.slab_min_size
    d.table_max_size < aux ∨ ∀ e, reemplazar LaLiga.Rc.ParticionesDinamicas d key nkey = .ok e →
      (∃ item, primer_ajuste e aux = .ok (some item)) ∨ Desalojable e
  | .BuddySystem, d, _, _, n =>
    let aux := aux_data_size n d.slab_min_size
    d.table_max_size < aux ∨ HayHueco d aux

end Modo

/-- Whenever the allocation needs a victim something is stored and a victim is chosen, and the
allocation does not crash. -/
structure HayVictima (m : Modo) (d : t_diccionario) (key : Nat → UInt8) (nkey n : Nat)
    (flags : Int) : Prop where
  guardada : ∀ e f g, reemplazar m.esquema d key nkey = .ok e → Turns (m.buscar n) e f →
    m.Elige n f g → ∃ p, EnLista g p ∧ (g.node p).ocupado = true
  victima : ∀ e f g, reemplazar m.esquema d key nkey = .ok e → Turns (m.buscar n) e f →
    m.Elige n f g → ∃ it, diccionario_elegirVictima g = .ok it
  -- the loop of the dynamic partitions is only stopped by the number of its turns
  sin_caida : ∀ turnos x, justice_engine_allocate m.esquema turnos d key nkey n flags = .error x →
    x = .no_termina

section Victima

variable {d e f g : t_diccionario} {l ps : List Ptr} {it : Ptr} {K max slab n nkey aux turnos : Nat}
  {key : Nat → UInt8} {flags : Int} {c : Operacion} {x : Falla} {E : Esquema} {m : Modo}

/-- An allocation whose key fits fails when its search does. -/
theorem allocate_error (hree : reemplazar E d key nkey = .ok e) (hkey : nkey < KEY_SIZE_MAX)
    (herror : justice_engine_allocate E turnos d key nkey n flags = .error x) :
    E.f_obtenerDireccion turnos e n = .error x := by
  unfold justice_engine_allocate at herror
  simp only [hree] at herror
  cases hsearch : E.f_obtenerDireccion turnos e n with
  | error y =>
    simp only [hsearch] at herror
    rw [Except.error.inj herror]
  | ok r =>
    obtain ⟨f, o⟩ := r
    cases o with
    | none => simp [hsearch] at herror
    | some it =>
      simp only [hsearch] at herror
      rw [if_neg (by omega)] at herror
      exact absurd herror (by simp)

/-- A turn that finds nothing fails when it cannot make room. -/
theorem buscar_lugar_error (hnone : primer_ajuste d (aux_data_size n d.slab_min_size) = .ok none)
    (herror : buscar_lugar n d = .error x) :
    aux_data_size n d.slab_min_size ≤ d.table_max_size ∧
      hacer_lugar d (aux_data_size n d.slab_min_size) = .error x := by
  unfold buscar_lugar at herror
  by_cases hfits : aux_data_size n d.slab_min_size ≤ d.table_max_size
  · refine ⟨hfits, ?_⟩
    simp only [if_pos hfits, hnone] at herror
    cases hroom : hacer_lugar d (aux_data_size n d.slab_min_size) with
    | error y =>
      simp only [hroom] at herror
      rw [Except.error.inj herror]
    | ok e => simp [hroom] at herror
  · simp [if_neg hfits] at herror

/-- A search that finds nothing makes room, if something is stored. -/
theorem Fechado.hacer_lugar_ok (hf : Fechado d) (hp : Particiones d l ps)
    (hs : ∀ it, conviene_compactar (contar_intento d) aux = false →
      diccionario_elegirVictima (contar_intento d) = .ok it → Segura (contar_intento d) it)
    (hsome : ∃ p ∈ l, (d.node p).ocupado = true) : ∃ e, LaLiga.Rc.hacer_lugar d aux = .ok e := by
  unfold LaLiga.Rc.hacer_lugar
  cases hconv : conviene_compactar (contar_intento d) aux with
  | true =>
    obtain ⟨e, -, -, hok, -⟩ := diccionario_compactarMemoria_eq hp.intento
    simp only [hconv, hok, if_true]
    exact ⟨_, rfl⟩
  | false =>
    obtain ⟨it, hit⟩ := hf.intento.hay_victima hp.intento.listas (by rwa [node_intento])
    obtain ⟨e, it', -, -, hok, -⟩ := diccionario_eliminar_eq hp.intento (hs it hconv hit)
    simp only [hconv, hit, hok, Bool.false_eq_true, if_false]
    exact ⟨e, rfl⟩

/-- In the dynamic scheme. -/
theorem Formada.hay_victima (h : Formada max slab d) (hf : Fechado d)
    (hc : PermiteVictima d (.allocate key nkey n flags))
    (hlugar : Modo.ParticionesDinamicas.HayLugar d key nkey n) :
    HayVictima .ParticionesDinamicas d key nkey n flags := by
  obtain ⟨-, hmax, hslab⟩ := id h
  -- where a search finds nothing, something is stored
  have hguardada : ∀ {e f}, LaLiga.Rc.reemplazar ParticionesDinamicas d key nkey = .ok e →
      Turns (buscar_lugar n) e f → aux_data_size n f.slab_min_size ≤ f.table_max_size →
      primer_ajuste f (aux_data_size n f.slab_min_size) = .ok none →
      ∀ l ps, Particiones f l ps → ∃ p ∈ l, (f.node p).ocupado = true := by
    intro e f hree hturns hfits hnone l ps hp
    obtain ⟨-, hmax', hslab'⟩ := h.turnos hc.1 hree hturns
    obtain ⟨-, hkeep⟩ := h.turnos_fechados hf hc hree hturns
    rw [hmax', hslab'] at hfits
    rw [hslab'] at hnone
    dsimp only [Modo.HayLugar] at hlugar
    rw [hmax, hslab] at hlugar
    have hstart := (hlugar.resolve_left (by omega)) e hree
    rcases hkeep hfits hstart with ⟨item, hitem⟩ | hdes
    · rw [hnone] at hitem
      exact absurd hitem (by simp)
    · exact ((desalojable_iff hp.listas).mp hdes).2
  refine ⟨?_, ?_, ?_⟩
  · rintro e f g hree hturns ⟨hfits, hnone, -, rfl⟩
    obtain ⟨⟨l, ps, hp⟩, -, -⟩ := h.turnos hc.1 hree hturns
    obtain ⟨p, hp', ho⟩ := hguardada hree hturns hfits hnone l ps hp
    exact ⟨p, ⟨l, ps, hp.intento.listas, hp'⟩, by rwa [node_intento]⟩
  · rintro e f g hree hturns ⟨hfits, hnone, -, rfl⟩
    obtain ⟨⟨l, ps, hp⟩, -, -⟩ := h.turnos hc.1 hree hturns
    obtain ⟨hff, -⟩ := h.turnos_fechados hf hc hree hturns
    refine hff.intento.hay_victima hp.intento.listas ?_
    rw [node_intento]
    exact hguardada hree hturns hfits hnone l ps hp
  · intro turnos x herror
    have hbien : Modo.ParticionesDinamicas.Bien max slab d := h
    obtain ⟨e, hree⟩ : ∃ e, LaLiga.Rc.reemplazar ParticionesDinamicas d key nkey = .ok e :=
      hbien.reemplazar_ok
    have hsearch : diccionario_obtenerDireccion turnos e n = .error x :=
      allocate_error hree hc.1.1.2.1 herror
    rcases loop_error hsearch with hstuck | ⟨f, hturns, hfail⟩
    · exact hstuck
    obtain ⟨⟨l, ps, hp⟩, -, -⟩ := h.turnos hc.1 hree hturns
    obtain ⟨hff, -⟩ := h.turnos_fechados hf hc hree hturns
    rcases buscar_lugar_cases hp n with hno | ⟨hnone, -, -⟩ | ⟨f', item', -, -, hyes, -⟩
    · rw [hfail] at hno
      exact absurd hno (by simp)
    · obtain ⟨hfits, hroom⟩ := buscar_lugar_error hnone hfail
      obtain ⟨e', he'⟩ := hff.hacer_lugar_ok hp
        (fun it hconv hvictima => hc.1.2 _ it (.victima hree hturns hnone hconv hvictima))
        (hguardada hree hturns hfits hnone l ps hp)
      rw [he'] at hroom
      exact absurd hroom (by simp)
    · rw [hfail] at hyes
      exact absurd hyes (by simp)

end Victima

end LaLiga.Rc
