import LaLiga.Rc.Tenencia

/-! The keys of the elements, and whose value is published under them. -/
namespace LaLiga.Rc

open LaLiga.Lib t_diccionario

/-- Only elements of the list have keys. -/
def Enlistadas (d : t_diccionario) : Prop :=
  ∀ q, d.allocated q = true → (d.node q).nkey ≠ 0 → EnLista d q

/-- No two elements have the same key. -/
def Unicas (d : t_diccionario) : Prop :=
  ∀ p q, d.allocated p = true → d.allocated q = true → (d.node p).nkey ≠ 0 →
    MismaClave d q (d.node p).key (d.node p).nkey → p = q

/-- What has a key in `e`, but for the element handed out, has it from `d` and was left alone. -/
structure Persiste (o : Option Ptr) (d e : t_diccionario) : Prop where
  allocated : ∀ q, e.allocated q = d.allocated q
  quieta : ∀ q, d.allocated q = true → o ≠ some q → (e.node q).nkey ≠ 0 → Quieta d q e

namespace Persiste

variable {d e f : t_diccionario} {o : Option Ptr} {q : Ptr} {key : Nat → UInt8} {nkey : Nat}

theorem refl : Persiste none d d := ⟨fun _ => rfl, fun _ _ _ _ => .refl⟩

theorem trans (h : Persiste none d e) (k : Persiste o e f) : Persiste o d f where
  allocated := fun q => (k.allocated q).trans (h.allocated q)
  quieta := by
    intro q hq ho hkey
    have hquiet := k.quieta q ((h.allocated q).trans hq) ho hkey
    exact (h.quieta q hq (by simp) (hquiet.intacta.nkey ▸ hkey)).trans hquiet

/-- An element that still has its key has it from before. -/
theorem misma (h : Persiste o d e) (hq : d.allocated q = true) (ho : o ≠ some q) (hpos : nkey ≠ 0)
    (hc : MismaClave e q key nkey) : MismaClave d q key nkey := by
  have hi := (h.quieta q hq ho (by rw [hc.1]; exact hpos)).intacta
  refine ⟨hi.nkey.symm.trans hc.1, ?_⟩
  rw [← hi.igual t_dict_element.key fun _ => rfl]
  exact hc.2

end Persiste

section Dinamicas

variable {d e f g : t_diccionario} {l ps : List Ptr} {it it' item p q : Ptr}
  {max slab n nkey aux turnos : Nat} {key : Nat → UInt8} {flags : Int} {c : Operacion}

/-- No release of the call joins a partition in use, and no compaction moves one. -/
def NoJunta (d : t_diccionario) (c : Operacion) : Prop :=
  (∀ e it, Elimina d c e it → ∀ q, Alcanza e it q → q ≠ it → enUso (e.node q) = false) ∧
    ∀ e, Compacta d c e → ∀ q, EnLista e q → enUso (e.node q) = true → Delante e q

/-- A well formed dictionary whose keys are in the list. -/
structure Rotulada (max slab : Nat) (d : t_diccionario) : Prop where
  formada : Formada max slab d
  enlistadas : Enlistadas d

theorem Formada.allocated (h : Formada max slab d) (h' : Formada max slab e) :
    e.allocated q = d.allocated q :=
  (show Modo.ParticionesDinamicas.Bien max slab d from h).allocated h'

theorem Rotulada.usada (h : Rotulada max slab d) (hq : d.allocated q = true)
    (hkey : (d.node q).nkey ≠ 0) : Usada max slab d q := by
  obtain ⟨l', ps', hl', hmem⟩ := h.enlistadas q hq hkey
  obtain ⟨⟨l, ps, hp⟩, -, -⟩ := id h.formada
  obtain rfl := hp.listas.unique hl'
  exact .of_mem h.formada hp hmem (enUso_of_nkey hkey)

theorem Usada.en_lista (h : Usada max slab d q) : EnLista d q := by
  obtain ⟨⟨l, ps, hp⟩, -, -⟩ := id h.formada
  exact ⟨l, ps, hp.listas, h.mem hp⟩

/-- Keys that stay where they were stay in the list. -/
theorem Rotulada.of_quieta (h : Rotulada max slab d) (hf : Formada max slab e)
    (hq : ∀ q, d.allocated q = true → (e.node q).nkey ≠ 0 → Quieta d q e) :
    Rotulada max slab e ∧ Persiste none d e := by
  have hall : ∀ q, e.allocated q = d.allocated q := fun q => h.formada.allocated hf
  refine ⟨⟨hf, ?_⟩, hall, fun q hqd _ hkey => hq q hqd hkey⟩
  intro q hqe hkey
  have hqd := (hall q).symm.trans hqe
  have hi := (hq q hqd hkey).intacta
  exact ((h.usada hqd (hi.nkey ▸ hkey)).intacta hf hi).en_lista

/-- A release that joins nothing in use takes one key away. -/
theorem Rotulada.eliminar (h : Rotulada max slab d) (hs : Segura d it)
    (hg : ∀ q, Alcanza d it q → q ≠ it → enUso (d.node q) = false)
    (hok : diccionario_eliminar d it = .ok (e, it')) :
    Rotulada max slab e ∧ Persiste none d e ∧ (e.node it).nkey = 0 := by
  obtain ⟨e', i, he', hf⟩ := h.formada.eliminar hs
  rw [hok] at he'
  obtain ⟨rfl, -⟩ := Prod.mk.inj (Except.ok.inj he')
  have hsin := (diccionario_eliminar_sin_tamano hok).1
  have hcero : (e.node it).nkey = 0 := by
    have hnkey : (e.node it).nkey = ((d.limpiar it).node it).nkey :=
      (congrArg t_dict_element.nkey (hsin it) :)
    simpa [t_diccionario.limpiar] using hnkey
  obtain ⟨hrot, hper⟩ := h.of_quieta hf (by
    intro q hq hkey
    have hne : q ≠ it := by
      rintro rfl
      exact hkey hcero
    have hnkey : (e.node q).nkey = (d.node q).nkey := by
      have hsame : (e.node q).nkey = ((d.limpiar it).node q).nkey :=
        (congrArg t_dict_element.nkey (hsin q) :)
      simpa [t_diccionario.limpiar, hne] using hsame
    have hu := h.usada hq (hnkey ▸ hkey)
    refine (eliminar_quieta hu hs ?_ hok).2
    intro ha
    have hlibre := hg q ha hne
    rw [hu.uso] at hlibre
    exact absurd hlibre (by simp))
  exact ⟨hrot, hper, hcero⟩

theorem nkey_juntar {a b : Ptr} : ((juntar d a b).node q).nkey = (d.node q).nkey := by
  simp only [juntar, devolver, node_modificar, node_modificar?]
  split_ifs <;> rfl

theorem nkey_intercambiar {a b : Ptr} (h : intercambiar d a b = .ok e) :
    (e.node q).nkey = (d.node q).nkey := by
  unfold intercambiar at h
  simp only [node_modificar, if_true] at h
  split at h
  · obtain rfl := Except.ok.inj h
    simp only [node_modificar]
    split_ifs <;> simp_all [modificar]
  · simp at h

/-- Compaction moves keys without their lengths. -/
theorem nkey_compactar (h : diccionario_compactarMemoria d = .ok e) :
    (e.node q).nkey = (d.node q).nkey :=
  compactar_igual (g := fun d => (d.node q).nkey) (fun _ _ _ => nkey_juntar)
    (fun _ _ _ _ => nkey_intercambiar) h

theorem nkey_partir (h : partir d item aux = .ok e) : (e.node q).nkey = (d.node q).nkey := by
  unfold partir at h
  cases hn : d.nodes with
  | none =>
    simp only [hn] at h
    obtain rfl := Except.ok.inj h
    rfl
  | some n =>
    simp only [hn] at h
    split_ifs at h
    · obtain rfl := Except.ok.inj h
      simp only [node_modificar, node_modificar?, apply_ite t_dict_element.nkey, ite_self]
    · obtain rfl := Except.ok.inj h
      rfl

/-- Compaction with nothing in use behind a free partition. -/
theorem Rotulada.compactar (h : Rotulada max slab d)
    (hg : ∀ q, EnLista d q → enUso (d.node q) = true → Delante d q)
    (hok : diccionario_compactarMemoria d = .ok e) :
    Rotulada max slab e ∧ Persiste none d e := by
  obtain ⟨⟨l, ps, hp⟩, hmax, hslab⟩ := id h.formada
  obtain ⟨e', l', ps', he', hp', hmax', hslab'⟩ := diccionario_compactarMemoria_eq hp
  rw [hok] at he'
  obtain rfl := Except.ok.inj he'
  refine h.of_quieta ⟨⟨l', ps', hp'⟩, hmax'.trans hmax, hslab'.trans hslab⟩ ?_
  intro q hq hkey
  have hu := h.usada hq (nkey_compactar hok ▸ hkey)
  exact diccionario_compactarMemoria_quieta hp (hg q hu.en_lista hu.uso) hok

theorem Rotulada.intento (h : Rotulada max slab d) :
    Rotulada max slab (contar_intento d) ∧ Persiste none d (contar_intento d) :=
  h.of_quieta h.formada.intento fun _ _ _ => intento_quieta

theorem Rotulada.hacer_lugar (h : Rotulada max slab d)
    (hc : conviene_compactar (contar_intento d) aux = true →
      ∀ q, EnLista (contar_intento d) q → enUso ((contar_intento d).node q) = true →
        Delante (contar_intento d) q)
    (hs : ∀ it, conviene_compactar (contar_intento d) aux = false →
      diccionario_elegirVictima (contar_intento d) = .ok it →
      Segura (contar_intento d) it ∧ ∀ q, Alcanza (contar_intento d) it q → q ≠ it →
        enUso ((contar_intento d).node q) = false)
    (hok : LaLiga.Rc.hacer_lugar d aux = .ok e) :
    Rotulada max slab e ∧ Persiste none d e := by
  obtain ⟨hi, hpi⟩ := h.intento
  unfold LaLiga.Rc.hacer_lugar at hok
  simp only at hok
  split_ifs at hok with hconv
  · cases hcompact : diccionario_compactarMemoria (contar_intento d) with
    | error g => simp [hcompact] at hok
    | ok e' =>
      simp only [hcompact] at hok
      obtain rfl := Except.ok.inj hok
      obtain ⟨he, hpe⟩ := hi.compactar (hc hconv) hcompact
      -- only the counter is set anew
      have hlast := he.of_quieta (e := { e' with compactarMemoria := e'.frecuenciaCompactacion })
        ⟨by obtain ⟨⟨l, ps, hp⟩, -, -⟩ := he.formada; exact ⟨l, ps, hp.contador _⟩,
          he.formada.2.1, he.formada.2.2⟩ fun _ _ _ => ⟨rfl, fun _ _ _ _ _ => rfl⟩
      exact ⟨hlast.1, (hpi.trans hpe).trans hlast.2⟩
  · cases hv : diccionario_elegirVictima (contar_intento d) with
    | error g => simp [hv] at hok
    | ok victima =>
      simp only [hv] at hok
      obtain ⟨hsegura, hno⟩ := hs victima (by simpa using hconv) hv
      cases hel : diccionario_eliminar (contar_intento d) victima with
      | error g => simp [hel] at hok
      | ok x =>
        obtain ⟨e', i⟩ := x
        simp only [hel] at hok
        obtain rfl := Except.ok.inj hok
        obtain ⟨he, hpe, -⟩ := hi.eliminar hsegura hno hel
        exact ⟨he, hpi.trans hpe⟩

theorem Rotulada.reemplazar (h : Rotulada max slab d)
    (hs : ∀ it, diccionario_obtener d key nkey = .ok (some it) → (d.node it).ocupado = true →
      Segura d it ∧ ∀ q, Alcanza d it q → q ≠ it → enUso (d.node q) = false)
    (hok : reemplazar ParticionesDinamicas d key nkey = .ok e) :
    Rotulada max slab e ∧ Persiste none d e ∧ ∀ it, diccionario_obtener d key nkey = .ok (some it) →
      (d.node it).ocupado = true → (e.node it).nkey = 0 := by
  rcases reemplazar_cases hok with ⟨rfl, hno⟩ | ⟨it, it', hobt, hocupado, hel⟩
  · refine ⟨h, .refl, ?_⟩
    intro it hobt hocupado
    rw [hno it hobt] at hocupado
    exact absurd hocupado (by simp)
  · obtain ⟨hsegura, hno⟩ := hs it hobt hocupado
    obtain ⟨he, hp, hcero⟩ := h.eliminar hsegura hno hel
    refine ⟨he, hp, ?_⟩
    intro it₂ hobt₂ _
    rw [hobt] at hobt₂
    obtain rfl := Option.some.inj (Except.ok.inj hobt₂)
    exact hcero

/-- An allocation keeps the keys that it does not remove, and removes the stored one that it
is about to set. -/
theorem Rotulada.allocate {r : Option Ptr} (h : Rotulada max slab d)
    (hc : Permitida d (.allocate key nkey n flags)) (hg : NoJunta d (.allocate key nkey n flags))
    (hok : justice_engine_allocate ParticionesDinamicas turnos d key nkey n flags = .ok (e, r)) :
    Rotulada max slab e ∧ ∃ d₁, Persiste none d d₁ ∧ Persiste r d₁ e ∧
      ∀ it, diccionario_obtener d key nkey = .ok (some it) → (d.node it).ocupado = true →
        (d₁.node it).nkey = 0 := by
  have hsafe : ∀ f it, Elimina d (.allocate key nkey n flags) f it →
      Segura f it ∧ ∀ q, Alcanza f it q → q ≠ it → enUso (f.node q) = false :=
    fun f it he => ⟨hc.2 f it he, hg.1 f it he⟩
  have hfe := h.formada.allocate hc hok
  obtain ⟨d₁, d₂, hree, hsearch, hcase⟩ := allocate_inv hok
  obtain ⟨h₁, hp₁, hcero⟩ :=
    h.reemplazar (fun it hobt hocupado => hsafe d it (.reemplazo hobt hocupado)) hree
  have hstep : ∀ f g, Turns (buscar_lugar n) d₁ f →
      (Rotulada max slab f ∧ Persiste none d₁ f) → buscar_lugar n f = .ok (.inl g) →
      Rotulada max slab g ∧ Persiste none d₁ g := by
    rintro f g hturns ⟨hf, hp⟩ hturn
    obtain ⟨⟨l, ps, hpart⟩, -, -⟩ := id hf.formada
    rcases buscar_lugar_cases hpart n with hno | ⟨hnone, -, hmake⟩ | ⟨e', item', -, -, hyes, -⟩
    · rw [hturn] at hno
      exact absurd hno (by simp)
    · obtain ⟨hr, hpr⟩ := hf.hacer_lugar
        (fun hconv => hg.2 _ (.allocate hree hturns hnone hconv))
        (fun it hconv hv => hsafe _ it (.victima hree hturns hnone hconv hv)) (hmake g hturn)
      exact ⟨hr, hp.trans hpr⟩
    · rw [hturn] at hyes
      exact absurd hyes (by simp)
  obtain ⟨f, -, ⟨hf, hp⟩, hlast⟩ := loop_turns hstep ⟨h₁, .refl⟩ turnos hsearch
  obtain ⟨⟨l, ps, hpart⟩, -, -⟩ := id hf.formada
  rcases buscar_lugar_inr hpart hlast with hno | ⟨g, item, aux, hsplit, hlibre, hyes⟩
  · obtain ⟨rfl, rfl⟩ := Prod.mk.inj hno
    rcases hcase with ⟨-, rfl⟩ | ⟨it, hit, -⟩
    · exact ⟨hf, d₁, hp₁, hp, hcero⟩
    · exact absurd hit (by simp)
  · obtain ⟨rfl, rfl⟩ := Prod.mk.inj hyes
    rcases hcase with ⟨hnone, -⟩ | ⟨it, hit, -, rfl⟩
    · exact absurd hnone (by simp)
    obtain rfl := Option.some.inj hit
    have hquiet : ∀ q, f.allocated q = true → q ≠ item →
        ((nombrar (reservar g item n) item key nkey flags).node q).nkey ≠ 0 →
        Usada max slab f q ∧ Quieta f q (nombrar (reservar g item n) item key nkey flags) := by
      intro q hq hne hkey
      have hu := hf.usada hq (by simpa [nombrar, reservar, hne, nkey_partir hsplit] using hkey)
      exact ⟨hu, (partir_quieta hu hne hsplit).trans (nombrar_quieta hne)⟩
    have hall : ∀ q, (nombrar (reservar g item n) item key nkey flags).allocated q =
        f.allocated q := fun q => hf.formada.allocated hfe
    refine ⟨⟨hfe, ?_⟩, d₁, hp₁, hp.trans ⟨hall, ?_⟩, hcero⟩
    · intro q hq hkey
      by_cases hne : q = item
      · subst hne
        exact (allocate_entregada h.formada hc hok).1.en_lista
      · obtain ⟨hu, hqq⟩ := hquiet q ((hall q).symm.trans hq) hne hkey
        exact (hu.intacta hfe hqq.intacta).en_lista
    · intro q hq hne hkey
      exact (hquiet q hq (fun heq => hne (by rw [heq])) hkey).2

/-- The calls that only remove. -/
theorem Rotulada.quitar (h : Rotulada max slab d) (hc : Permitida d c) (hg : NoJunta d c)
    (hkind : (∃ key nkey, c = .remove key nkey) ∨ c = .flush ∨ ∃ item, c = .release item)
    (hok : Ejecuta ParticionesDinamicas d c e) : Rotulada max slab e ∧ Persiste none d e := by
  obtain ⟨turnos, hok⟩ := hok
  rcases hkind with ⟨key, nkey, rfl⟩ | rfl | ⟨item, rfl⟩
  · obtain ⟨r, hok⟩ := exists_of_map_fst hok
    rcases item_delete_cases hok with ⟨rfl, -⟩ | ⟨it, it', hobt, -, hel⟩
    · exact ⟨h, .refl⟩
    · obtain ⟨he, hp, -⟩ :=
        h.eliminar (hc.2 d it (.remove hobt)) (hg.1 d it (.remove hobt)) hel
      exact ⟨he, hp⟩
  · have hstep : ∀ x y : t_diccionario × Option Ptr,
        Turns (limpiar_turno ParticionesDinamicas) (d, d.elements) x →
        (Rotulada max slab x.1 ∧ Persiste none d x.1) →
        limpiar_turno ParticionesDinamicas x = .ok (.inl y) →
        Rotulada max slab y.1 ∧ Persiste none d y.1 := by
      rintro ⟨f, o⟩ ⟨g, o'⟩ hturns ⟨hf, hp⟩ hturn
      cases o with
      | none => simp [limpiar_turno] at hturn
      | some item =>
        rcases limpiar_turno_inl hturn with ⟨-, rfl, -⟩ | ⟨it', hnkey, hel, -⟩
        · exact ⟨hf, hp⟩
        · have he : Elimina d .flush f item := .flush hturns hnkey
          obtain ⟨hr, hpr, -⟩ := hf.eliminar (hc.2 f item he) (hg.1 f item he) hel
          exact ⟨hr, hp.trans hpr⟩
    obtain ⟨s, -, hs, hlast⟩ := loop_turns hstep ⟨h, .refl⟩ turnos hok
    obtain rfl := limpiar_turno_inr hlast
    exact hs
  · simp only [ejecutar, justice_engine_item_release] at hok
    split_ifs at hok with hocupado
    · obtain rfl := Except.ok.inj hok
      exact ⟨h, .refl⟩
    · have he : Elimina d (.release item) d item := .release (by simpa using hocupado)
      cases hel : diccionario_eliminar d item with
      | error g => simp [hel] at hok
      | ok x =>
        obtain ⟨e', i⟩ := x
        simp only [hel] at hok
        obtain rfl := Except.ok.inj hok
        obtain ⟨hr, hp, -⟩ := h.eliminar (hc.2 d item he) (hg.1 d item he) hel
        exact ⟨hr, hp⟩

end Dinamicas

section Buddy

variable {d e f g : t_diccionario} {it item p q : Ptr} {vs : List Ptr}
  {max slab n nkey turnos : Nat} {key : Nat → UInt8} {flags : Int} {c : Operacion}

theorem Ordenada.enlistadas (h : Ordenada max slab d) : Enlistadas d :=
  fun _ hq hkey => h.en_lista hq (enUso_of_nkey hkey)

/-- Releasing an element takes its key away. -/
theorem Ajeno.persiste (ha : Ajeno d it e) (hm : e.mem = d.mem) (hl : Limpio (e.node it)) :
    Persiste none d e := by
  refine ⟨fun q => ha.allocated, ?_⟩
  intro q _ _ hkey
  have hne : q ≠ it := by
    rintro rfl
    exact hkey hl.nkey
  exact ha.quieta hm hne ((ha.uso q hne).symm.trans (enUso_of_nkey hkey))

theorem desalojos_persiste (h : Ordenada max slab d) (hx : Trace (Desaloja n) d vs e) :
    Persiste none d e := by
  induction hx with
  | refl => exact .refl
  | stepL hstep _ ih =>
    obtain ⟨hf, hl, ha, hm⟩ := h.desaloja hstep
    exact (ha.persiste hm hl).trans (ih hf)

theorem allocate_buddy_persiste {r : Option Ptr} (h : Ordenada max slab d)
    (hc : Pedido (.allocate key nkey n flags))
    (hok : justice_engine_allocate BuddySystem turnos d key nkey n flags = .ok (e, r)) :
    ∃ d₁, Persiste none d d₁ ∧ Persiste r d₁ e ∧
      ∀ it, diccionario_obtener d key nkey = .ok (some it) → (d.node it).ocupado = true →
        (d₁.node it).nkey = 0 := by
  obtain ⟨d₁, vs, f, hree, h₁, hx, hf, hcase⟩ := allocate_buddy_cases h hc hok
  have hree : Persiste none d d₁ ∧ ∀ it, diccionario_obtener d key nkey = .ok (some it) →
      (d.node it).ocupado = true → (d₁.node it).nkey = 0 := by
    rcases reemplazar_cases hree with ⟨rfl, hno⟩ | ⟨it, it', hobt, hocupado, hel⟩
    · refine ⟨.refl, ?_⟩
      intro it hobt hocupado
      rw [hno it hobt] at hocupado
      exact absurd hocupado (by simp)
    · obtain ⟨-, hl, ha, hm⟩ := h.f_eliminar (h.obtener hobt).1 hel
      refine ⟨ha.persiste hm hl, ?_⟩
      intro it₂ hobt₂ _
      rw [hobt] at hobt₂
      obtain rfl := Option.some.inj (Except.ok.inj hobt₂)
      exact hl.nkey
  refine ⟨d₁, hree.1, ?_, hree.2⟩
  have hp := desalojos_persiste h₁ hx
  rcases hcase with ⟨rfl, rfl, -⟩ | ⟨g, item, rfl, -, -, ha, hm, -, rfl, -⟩
  · exact hp
  · refine hp.trans ⟨fun q => ha.allocated, ?_⟩
    intro q _ hne hkey
    have hne : q ≠ item := fun heq => hne (by rw [heq])
    have hkey : (g.node q).nkey ≠ 0 := by simpa [nombrar, reservar, hne] using hkey
    exact (ha.quieta hm hne ((ha.uso q hne).symm.trans (enUso_of_nkey hkey))).trans
      (nombrar_quieta hne)

theorem quitar_buddy_persiste (h : Ordenada max slab d) (hc : PermitidaBuddy d c)
    (hkind : (∃ key nkey, c = .remove key nkey) ∨ c = .flush ∨ ∃ item, c = .release item)
    (hok : Ejecuta BuddySystem d c e) : Persiste none d e := by
  obtain ⟨turnos, hok⟩ := hok
  rcases hkind with ⟨key, nkey, rfl⟩ | rfl | ⟨item, rfl⟩
  · obtain ⟨r, hok⟩ := exists_of_map_fst hok
    rcases item_delete_cases hok with ⟨rfl, -⟩ | ⟨it, it', hobt, -, hel⟩
    · exact .refl
    · obtain ⟨-, hl, ha, hm⟩ := h.f_eliminar (h.obtener hobt).1 hel
      exact ha.persiste hm hl
  · have hstep : ∀ x y : t_diccionario × Option Ptr,
        (Ordenada max slab x.1 ∧ (∀ it, x.2 = some it → EnLista x.1 it) ∧ Persiste none d x.1) →
        limpiar_turno BuddySystem x = .ok (.inl y) →
        Ordenada max slab y.1 ∧ (∀ it, y.2 = some it → EnLista y.1 it) ∧
          Persiste none d y.1 := by
      rintro ⟨f, o⟩ ⟨g, o'⟩ ⟨hf, hin, hp⟩ hturn
      obtain ⟨it, rfl, -, hg, hin', ⟨-, rfl⟩ | ⟨-, hl, ha, hm, -⟩⟩ :=
        limpiar_buddy_turno hf hin hturn
      · exact ⟨hg, hin', hp⟩
      · exact ⟨hg, hin', hp.trans (ha.persiste hm hl)⟩
    obtain ⟨s, -, ⟨-, -, hp⟩, hlast⟩ := loop_turns (fun x y _ => hstep x y)
      ⟨h, fun it hit => h.en_cabeza hit, .refl⟩ turnos hok
    obtain rfl := limpiar_turno_inr hlast
    exact hp
  · simp only [ejecutar, justice_engine_item_release, hc.2 item rfl, if_true] at hok
    obtain rfl := Except.ok.inj hok
    exact .refl

end Buddy

end LaLiga.Rc
