import LaLiga.Rc.BuddyLista
import LaLiga.Rc.Colocacion

/-! The lists of the buddy system, whatever the sizes of its chunks. -/
namespace LaLiga.Rc

open LaLiga.Lib t_diccionario

/-- An element without its links and its place. -/
def t_dict_element.sin_lugar (e : t_dict_element) : t_dict_element :=
  { e.contenido with data := none, chunk_size := 0 }

/-- Chunks may have been split and merged, free ones only; what they hold is as it was. -/
structure Reubica (d e : t_diccionario) : Prop where
  ajustes : e.ajustes = d.ajustes
  sin_lugar : ∀ q, (e.node q).sin_lugar = (d.node q).sin_lugar
  listas : ∃ l ps, Listas e l ps
  en_lista : ∀ q, EnLista d q → enUso (d.node q) = true → EnLista e q

/-- Where a merging loop is. -/
structure Juntando (d : t_diccionario) (it : Ptr)
    (s : t_diccionario × Option Ptr × Option Nat) : Prop where
  reubica : Reubica d s.1
  en_lista : EnLista s.1 it
  vecina : ∀ hno, s.2.1 = some hno → EnLista s.1 hno ∧ it ≠ hno

section Enlaces

variable {d e f : t_diccionario} {l ps u v : List Ptr} {it hno item q : Ptr} {data : Option Nat}
  {r : Option Ptr × Option Nat} {s t : t_diccionario × Option Ptr × Option Nat} {n aux : Nat}

namespace Reubica

/-- What does not depend on links and place. -/
theorem igual {β : Type} (h : Reubica d e) (g : t_dict_element → β)
    (hg : ∀ i, g i.sin_lugar = g i) (q : Ptr) : g (e.node q) = g (d.node q) := by
  rw [← hg, h.sin_lugar, hg]

theorem enUso (h : Reubica d e) (q : Ptr) : enUso (e.node q) = enUso (d.node q) :=
  h.igual LaLiga.Rc.enUso (fun _ => rfl) q

theorem trans (h : Reubica d e) (k : Reubica e f) : Reubica d f where
  ajustes := k.ajustes.trans h.ajustes
  sin_lugar q := (k.sin_lugar q).trans (h.sin_lugar q)
  listas := k.listas
  en_lista q hq hu := k.en_lista q (h.en_lista q hq hu) ((h.enUso q).trans hu)

theorem refl (h : ∃ l ps, Listas d l ps) : Reubica d d := ⟨rfl, fun _ => rfl, h, fun _ hq _ => hq⟩

theorem allocated (h : Reubica d e) (q : Ptr) : e.allocated q = d.allocated q :=
  ajustes_allocated h.ajustes q

end Reubica

/-- The sibling is a neighbour in the list. -/
theorem elegir_hermano_vecina (hin : EnLista d it) (hok : elegir_hermano d it data = .ok r)
    (hr : r.1 = some hno) : EnLista d hno ∧ it ≠ hno := by
  obtain ⟨l, ps, hl, hmem⟩ := hin
  obtain ⟨u, v, rfl⟩ := List.append_of_mem hmem
  have hnot := (List.nodup_cons.mp (List.nodup_middle.mp hl.dlist.nodup)).1
  have hside : hno ∈ u ++ v → EnLista d hno ∧ it ≠ hno := by
    intro hside
    refine ⟨⟨_, ps, hl, ?_⟩, fun heq => hnot (heq ▸ hside)⟩
    simp only [List.mem_append, List.mem_cons] at hside ⊢
    tauto
  unfold elegir_hermano at hok
  split at hok
  · simp at hok
  · obtain rfl := Except.ok.inj hok
    rw [hl.dlist.next_eq] at hr
    exact hside (List.mem_append_right u (List.mem_of_head? hr))
  · rw [hl.dlist.prev_eq] at hok
    cases hlast : u.getLast? with
    | none => simp [hlast] at hok
    | some x =>
      simp only [hlast] at hok
      obtain rfl := Except.ok.inj hok
      obtain rfl := Option.some.inj hr
      exact hside (List.mem_append_left v (List.mem_of_getLast? hlast))

theorem ajustes_unir : (unir d it hno data).ajustes = d.ajustes := by
  have hlink : ∀ (x : t_diccionario) (o : Option Ptr),
      ({ x with elements := o } : t_diccionario).ajustes = x.ajustes := fun _ _ => rfl
  rw [unir, ajustes_modificar, ajustes_devolver, ajustes_modificar?, hlink, ajustes_modificar?,
    ajustes_modificar]

/-- Merging a free chunk away. -/
theorem unir_reubica (hin : EnLista d hno) (hlibre : enUso (d.node hno) = false) (hne : it ≠ hno)
    (hit : EnLista d it) :
    Reubica d (unir d it hno data) ∧ EnLista (unir d it hno data) it := by
  obtain ⟨l, ps, hl, hmem⟩ := hin
  obtain ⟨u, v, rfl⟩ := List.append_of_mem hmem
  have hu : Unido d it hno data (unir d it hno data) := unir_eq hne
  have hlist := Unido.listas hl hu
  have hkeep : ∀ q, EnLista d q → q ≠ hno → EnLista (unir d it hno data) q := by
    rintro q ⟨l', ps', hl', hq⟩ hqne
    obtain rfl := hl.unique hl'
    refine ⟨_, _, hlist, ?_⟩
    simp only [List.mem_append, List.mem_cons] at hq ⊢
    tauto
  refine ⟨⟨ajustes_unir, ?_, ⟨_, _, hlist⟩, ?_⟩, hkeep it hit hne⟩
  · intro q
    have hc := hu.contenido q
    unfold t_dict_element.sin_lugar
    rw [hc]
    split_ifs with hqi hqh
    · rw [hqi]
    · rw [hqh]
    · rfl
  · intro q hq huse
    refine hkeep q hq ?_
    rintro rfl
    rw [hlibre] at huse
    exact absurd huse (by simp)

theorem Juntando.turno (h : Juntando d it s) (hturn : unir_hermanos it s = .ok (.inl t)) :
    Juntando d it t := by
  obtain ⟨hno, hhno, hlibre, hunir, hnext⟩ := unir_hermanos_inl hturn
  obtain ⟨hin, hne⟩ := h.vecina hno hhno
  obtain ⟨hr, hit⟩ : Reubica s.1 (unir s.1 it hno s.2.2) ∧ _ :=
    unir_reubica hin hlibre hne h.en_lista
  rw [← hunir] at hr hit
  exact ⟨h.reubica.trans hr, hit, fun q hq => elegir_hermano_vecina hit hnext hq⟩

theorem listas_limpiar (h : Listas d l ps) : Listas (d.limpiar it) l ps :=
  h.congr (fun q => by simp only [limpiar, node_modificar]; split_ifs <;> rfl)
    (fun q _ => by simp only [limpiar, node_modificar]; split_ifs <;> rfl) rfl rfl rfl

theorem EnLista.limpiar (h : EnLista d q) : EnLista (d.limpiar it) q := by
  obtain ⟨l, ps, hl, hmem⟩ := h
  exact ⟨l, ps, listas_limpiar hl, hmem⟩

/-- A release clears its element, and then only merges. -/
theorem eliminar_buddy_reubica (hin : EnLista d it)
    (hok : diccionario_eliminar_buddy d it = .ok e) :
    Reubica (d.limpiar it) e ∧ EnLista e it := by
  unfold diccionario_eliminar_buddy at hok
  cases hr : elegir_hermano d it (d.node it).data with
  | error f => simp [hr] at hok
  | ok r =>
    simp only [hr] at hok
    have hclear : ∃ l ps, Listas (d.limpiar it) l ps := by
      obtain ⟨l, ps, hl, -⟩ := hin
      exact ⟨l, ps, listas_limpiar hl⟩
    have hstart : Juntando (d.limpiar it) it (d.limpiar it, r) := by
      refine ⟨.refl hclear, hin.limpiar, fun hno hhno => ?_⟩
      obtain ⟨hin', hne⟩ := elegir_hermano_vecina hin hr hhno
      exact ⟨hin'.limpiar, hne⟩
    obtain ⟨s, -, hs, hlast⟩ := loop_turns (fun s t _ hs => hs.turno) hstart _ hok
    rw [unir_hermanos_inr hlast]
    exact ⟨hs.reubica, hs.en_lista⟩

/-- Splitting a chunk. -/
theorem dividir_reubica (hin : EnLista d item) (hok : dividir aux item d = .ok (.inl e)) :
    Reubica d e ∧ EnLista e item := by
  unfold dividir at hok
  split_ifs at hok
  swap
  · simp at hok
  cases hagrega : agregarHijosDePadre d item with
  | error f => simp [hagrega] at hok
  | ok e' =>
    simp only [hagrega] at hok
    obtain rfl := Sum.inl.inj (Except.ok.inj hok)
    obtain ⟨l, ps, hl, hmem⟩ := hin
    obtain ⟨u, v, rfl⟩ := List.append_of_mem hmem
    -- the node comes out of the pool
    obtain ⟨n, hn, hall⟩ : ∃ n, d.nodes = some n ∧ d.allocated n = true := by
      unfold agregarHijosDePadre at hagrega
      cases hn : d.nodes with
      | none => simp [hn] at hagrega
      | some n =>
        simp only [hn] at hagrega
        split_ifs at hagrega with hall
        exact ⟨n, rfl, by simpa using hall⟩
    obtain ⟨ps', rfl⟩ : ∃ ps', ps = n :: ps' := by
      have htop := hl.top
      rw [hn] at htop
      cases ps with
      | nil =>
        obtain rfl : n = d.last_slot := by simpa using htop
        exact absurd (mem_all_nodes.mpr hall) last_slot_not_mem
      | cons x ps' =>
        obtain rfl : n = x := by simpa using htop
        exact ⟨ps', rfl⟩
    have hpool := (List.nodup_append'.mp hl.nodup).2.2
    have hne : n ≠ item := by
      rintro rfl
      exact hpool (a := n) (by simp) (by simp)
    obtain ⟨f, hf, hdiv⟩ := agregarHijosDePadre_eq hn hall hne
    rw [hagrega] at hf
    obtain rfl := Except.ok.inj hf
    have hlist := hdiv.listas hl
    refine ⟨⟨ajustes_agregarHijosDePadre hagrega, ?_, ⟨_, _, hlist⟩, ?_⟩, ⟨_, _, hlist, by simp⟩⟩
    · intro q
      have hc := hdiv.contenido q
      unfold t_dict_element.sin_lugar
      rw [hc]
      split_ifs with hqi hqn
      · rw [hqi]
      · rw [hqn]
      · rfl
    · rintro q ⟨l', ps'', hl', hq⟩ -
      obtain rfl := hl.unique hl'
      refine ⟨_, _, hlist, ?_⟩
      simp only [List.mem_append, List.mem_cons] at hq ⊢
      tauto

theorem dividir_loop_reubica {turnos : Nat} (hin : EnLista d item)
    (hok : loop .no_termina (dividir aux item) turnos d = .ok e) :
    Reubica d e ∧ EnLista e item := by
  have hstart : Reubica d d ∧ EnLista d item := by
    obtain ⟨l, ps, hl, -⟩ := id hin
    exact ⟨.refl ⟨l, ps, hl⟩, hin⟩
  have hnext : ∀ x y, Turns (dividir aux item) d x → Reubica d x ∧ EnLista x item →
      dividir aux item x = .ok (.inl y) → Reubica d y ∧ EnLista y item := by
    rintro x y - ⟨hx, hinx⟩ hturn
    obtain ⟨hy, hiny⟩ := dividir_reubica hinx hturn
    exact ⟨hx.trans hy, hiny⟩
  obtain ⟨x, -, hx, hlast⟩ := loop_turns hnext hstart turnos hok
  unfold dividir at hlast
  split_ifs at hlast
  · cases hagrega : agregarHijosDePadre x item <;> simp [hagrega] at hlast
  · obtain rfl := Sum.inr.inj (Except.ok.inj hlast)
    exact hx

/-- A turn of the search that goes on has evicted its victim. -/
theorem buscar_lugar_buddy_inl (hok : buscar_lugar_buddy n d = .ok (.inl e)) :
    ∃ victima, diccionario_elegirVictima d = .ok victima ∧
      diccionario_eliminar_buddy d victima = .ok e := by
  obtain ⟨aux, haux⟩ : ∃ aux, aux_data_size n d.slab_min_size = aux := ⟨_, rfl⟩
  unfold buscar_lugar_buddy at hok
  simp only [haux] at hok
  by_cases hfits : aux ≤ d.table_max_size
  swap
  · rw [if_neg hfits] at hok
    simp at hok
  rw [if_pos hfits] at hok
  cases hprimera : primer_ajuste d aux with
  | error f => simp [hprimera] at hok
  | ok o =>
    rw [hprimera] at hok
    cases o with
    | none =>
      dsimp only at hok
      cases hvictima : diccionario_elegirVictima d with
      | error f => simp [hvictima] at hok
      | ok victima =>
        simp only [hvictima] at hok
        cases hel : diccionario_eliminar_buddy d victima with
        | error f => simp [hel] at hok
        | ok e' =>
          simp only [hel] at hok
          obtain rfl := Sum.inl.inj (Except.ok.inj hok)
          exact ⟨victima, rfl, hel⟩
    | some primera =>
      dsimp only at hok
      split at hok
      · simp at hok
      · split at hok <;> simp at hok

/-- A turn of the search that ends it has refused the request, or found a free chunk for it. -/
theorem buscar_lugar_buddy_inr (hl : Listas d l ps) {o : Option Ptr}
    (hok : buscar_lugar_buddy n d = .ok (.inr (e, o))) :
    o = none ∧ e = d ∨ ∃ item g aux, o = some item ∧ item ∈ l ∧ enUso (d.node item) = false ∧
      loop .no_termina (dividir aux item) d.turns d = .ok g ∧ e = reservar g item n := by
  obtain ⟨aux, haux⟩ : ∃ aux, aux_data_size n d.slab_min_size = aux := ⟨_, rfl⟩
  unfold buscar_lugar_buddy at hok
  simp only [haux] at hok
  by_cases hfits : aux ≤ d.table_max_size
  swap
  · rw [if_neg hfits] at hok
    obtain ⟨rfl, rfl⟩ := Prod.mk.inj (Sum.inr.inj (Except.ok.inj hok))
    exact Or.inl ⟨rfl, rfl⟩
  rw [if_pos hfits, primer_ajuste_find aux hl] at hok
  cases hprimera : l.find? (apto d aux) with
  | none =>
    rw [hprimera] at hok
    dsimp only at hok
    split at hok
    · simp at hok
    · split at hok <;> simp at hok
  | some primera =>
    rw [hprimera] at hok
    dsimp only at hok
    obtain ⟨item, hitem, hajuste⟩ := ajuste_eq hl hprimera
    obtain ⟨hmem, hlibre, -⟩ := apto_of_ajuste hajuste
    rw [hitem] at hok
    dsimp only at hok
    cases hloop : loop .no_termina (dividir aux item) d.turns d with
    | error f => simp [hloop] at hok
    | ok g =>
      simp only [hloop] at hok
      obtain ⟨rfl, rfl⟩ := Prod.mk.inj (Sum.inr.inj (Except.ok.inj hok))
      exact Or.inr ⟨item, g, aux, rfl, hmem, hlibre, hloop, rfl⟩

end Enlaces

end LaLiga.Rc
