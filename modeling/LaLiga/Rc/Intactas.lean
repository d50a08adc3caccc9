import LaLiga.Rc.DinamicasSystem

/-! What the calls leave of the partitions that they do not give up. -/
namespace LaLiga.Rc

open LaLiga.Lib t_diccionario

/-- An element without its links, its age and whether it is stored. -/
def t_dict_element.ficha (e : t_dict_element) : t_dict_element :=
  { e with prev := none, next := none, hour := 0, ocupado := false }

/-- A partition that is where it was, with its key and its bytes. -/
structure Intacta (d : t_diccionario) (p : Ptr) (e : t_diccionario) : Prop where
  ficha : (e.node p).ficha = (d.node p).ficha
  ocupado : (d.node p).ocupado = true → (e.node p).ocupado = true
  bytes : ∀ o, (d.node p).data = some o → ∀ a, o ≤ a → a < o + (d.node p).chunk_size →
    e.mem a = d.mem a

namespace Intacta

variable {d e f : t_diccionario} {p : Ptr}

theorem refl : Intacta d p d := ⟨rfl, id, fun _ _ _ _ _ => rfl⟩

/-- What the ficha has is unchanged. -/
theorem igual {β : Type} (h : Intacta d p e) (g : t_dict_element → β)
    (hg : ∀ e, g e.ficha = g e) : g (e.node p) = g (d.node p) := by
  rw [← hg, h.ficha, hg]

theorem data (h : Intacta d p e) : (e.node p).data = (d.node p).data :=
  h.igual t_dict_element.data fun _ => rfl

theorem chunk_size (h : Intacta d p e) : (e.node p).chunk_size = (d.node p).chunk_size :=
  h.igual t_dict_element.chunk_size fun _ => rfl

theorem nkey (h : Intacta d p e) : (e.node p).nkey = (d.node p).nkey :=
  h.igual t_dict_element.nkey fun _ => rfl

theorem enUso (h : Intacta d p e) (hu : enUso (d.node p) = true) : enUso (e.node p) = true := by
  have hocupado := h.ocupado
  have hnkey := h.nkey
  cases hd : (d.node p).ocupado with
  | true => simp [LaLiga.Rc.enUso, hocupado hd]
  | false =>
    simp only [LaLiga.Rc.enUso, estaReservado, hd] at hu
    cases he : (e.node p).ocupado with
    | true => simp [LaLiga.Rc.enUso, he]
    | false => simpa [LaLiga.Rc.enUso, estaReservado, he, hnkey] using hu

theorem trans (h : Intacta d p e) (k : Intacta e p f) : Intacta d p f where
  ficha := k.ficha.trans h.ficha
  ocupado := fun hd => k.ocupado (h.ocupado hd)
  bytes := by
    intro o ho a hle hlt
    rw [k.bytes o (h.data.trans ho) a hle (by rwa [h.chunk_size]), h.bytes o ho a hle hlt]

end Intacta

/-- A partition of which nothing has changed but perhaps its place in the list. -/
structure Quieta (d : t_diccionario) (p : Ptr) (e : t_diccionario) : Prop where
  contenido : (e.node p).contenido = (d.node p).contenido
  bytes : ∀ o, (d.node p).data = some o → ∀ a, o ≤ a → a < o + (d.node p).chunk_size →
    e.mem a = d.mem a

namespace Quieta

variable {d e f : t_diccionario} {p : Ptr}

theorem refl : Quieta d p d := ⟨rfl, fun _ _ _ _ _ => rfl⟩

theorem ocupado (h : Quieta d p e) : (e.node p).ocupado = (d.node p).ocupado :=
  (congrArg t_dict_element.ocupado h.contenido :)

theorem intacta (h : Quieta d p e) : Intacta d p e :=
  ⟨(congrArg t_dict_element.ficha h.contenido :), fun hd => h.ocupado.trans hd, h.bytes⟩

theorem enUso (h : Quieta d p e) : enUso (e.node p) = enUso (d.node p) :=
  (congrArg LaLiga.Rc.enUso h.contenido :)

theorem trans (h : Quieta d p e) (k : Quieta e p f) : Quieta d p f where
  contenido := k.contenido.trans h.contenido
  bytes := by
    intro o ho a hle hlt
    rw [k.bytes o (h.intacta.data.trans ho) a hle (by rwa [h.intacta.chunk_size]),
      h.bytes o ho a hle hlt]

theorem of_contenido (h : (e.node p).contenido = (d.node p).contenido) (hm : e.mem = d.mem) :
    Quieta d p e := ⟨h, fun _ _ _ _ _ => by rw [hm]⟩

end Quieta

/-- An element without its links and the size of its chunk. -/
def t_dict_element.sin_tamano (e : t_dict_element) : t_dict_element :=
  { e.contenido with chunk_size := 0 }

section Eliminar

variable {d d' e : t_diccionario} {a b it it' p q : Ptr} {l w r s t ps : List Ptr}

theorem mem_unir_anterior : (unir_anterior d it a).mem = d.mem := by simp [unir_anterior]
theorem mem_unir_posterior : (unir_posterior d it a).mem = d.mem := by simp [unir_posterior]

theorem contenido_unir_anterior (ha : q ≠ a) (hi : q ≠ it) :
    ((unir_anterior d it a).node q).contenido = (d.node q).contenido := by
  simp only [unir_anterior, devolver, node_modificar, node_modificar?, ha, hi, if_false,
    t_dict_element.contenido]
  split_ifs <;> rfl

theorem contenido_unir_posterior (ha : q ≠ a) (hi : q ≠ it) :
    ((unir_posterior d it a).node q).contenido = (d.node q).contenido := by
  simp only [unir_posterior, devolver, node_modificar, node_modificar?, ha, hi, if_false,
    t_dict_element.contenido]
  split_ifs <;> rfl

theorem sin_tamano_unir_anterior :
    ((unir_anterior d it a).node q).sin_tamano = (d.node q).sin_tamano := by
  simp only [unir_anterior, devolver, node_modificar, node_modificar?,
    t_dict_element.sin_tamano, t_dict_element.contenido]
  split_ifs <;> rfl

theorem sin_tamano_unir_posterior :
    ((unir_posterior d it a).node q).sin_tamano = (d.node q).sin_tamano := by
  simp only [unir_posterior, devolver, node_modificar, node_modificar?,
    t_dict_element.sin_tamano, t_dict_element.contenido]
  split_ifs <;> rfl

theorem unir_anteriores_inl {x y : t_diccionario × Ptr} (h : unir_anteriores x = .ok (.inl y)) :
    ∃ a, (x.1.node x.2).prev = some a ∧ y = (unir_anterior x.1 x.2 a, a) := by
  unfold unir_anteriores at h
  cases hprev : (x.1.node x.2).prev with
  | none => simp [hprev] at h
  | some a =>
    simp only [hprev] at h
    split_ifs at h
    · simp at h
    · exact ⟨a, rfl, (Sum.inl.inj (Except.ok.inj h)).symm⟩

theorem unir_anteriores_inr {x y : t_diccionario × Ptr} (h : unir_anteriores x = .ok (.inr y)) :
    y = x := by
  unfold unir_anteriores at h
  cases hprev : (x.1.node x.2).prev with
  | none =>
    simp only [hprev] at h
    exact (Sum.inr.inj (Except.ok.inj h)).symm
  | some a =>
    simp only [hprev] at h
    split_ifs at h
    · exact (Sum.inr.inj (Except.ok.inj h)).symm
    · simp at h

theorem unir_posteriores_inl (h : unir_posteriores it d = .ok (.inl e)) :
    ∃ b, (d.node it).next = some b ∧ e = unir_posterior d it b := by
  unfold unir_posteriores at h
  cases hnext : (d.node it).next with
  | none => simp [hnext] at h
  | some b =>
    simp only [hnext] at h
    split_ifs at h
    · simp at h
    · exact ⟨b, rfl, (Sum.inl.inj (Except.ok.inj h)).symm⟩

theorem unir_posteriores_inr (h : unir_posteriores it d = .ok (.inr e)) : e = d := by
  unfold unir_posteriores at h
  cases hnext : (d.node it).next with
  | none =>
    simp only [hnext] at h
    exact (Sum.inr.inj (Except.ok.inj h)).symm
  | some b =>
    simp only [hnext] at h
    split_ifs at h
    · exact (Sum.inr.inj (Except.ok.inj h)).symm
    · simp at h

/-- The loops of a release, with what each of their turns preserves. -/
theorem diccionario_eliminar_turns (h : diccionario_eliminar d it = .ok (e, it'))
    {I : t_diccionario × Ptr → Prop} {J : Ptr → t_diccionario → Prop} (hI : I (d.limpiar it, it))
    (hback : ∀ x y, I x → unir_anteriores x = .ok (.inl y) → I y)
    (hturn : ∀ x y, I x → unir_anteriores x = .ok (.inr y) → J y.2 y.1)
    (hforward : ∀ i x y, J i x → unir_posteriores i x = .ok (.inl y) → J i y) : J it' e := by
  unfold diccionario_eliminar at h
  cases hfirst : loop Falla.no_termina unir_anteriores d.turns (d.limpiar it, it) with
  | error f => simp [hfirst] at h
  | ok x =>
    obtain ⟨d₁, it₁⟩ := x
    simp only [hfirst] at h
    obtain ⟨y, -, hy, hlast⟩ := loop_turns (I := I) (fun x y _ => hback x y) hI _ hfirst
    have hJ := hturn _ _ hy hlast
    cases hsecond : loop Falla.no_termina (unir_posteriores it₁) d₁.turns d₁ with
    | error f => simp [hsecond] at h
    | ok d₂ =>
      simp only [hsecond] at h
      obtain ⟨rfl, rfl⟩ : d₂ = e ∧ it₁ = it' := by simpa using h
      obtain ⟨z, -, hz, hend⟩ :=
        loop_turns (I := J it₁) (fun x y _ => hforward it₁ x y) hJ _ hsecond
      obtain rfl := unir_posteriores_inr hend
      exact hz

/-- Apart from the released one, only sizes and links change. -/
theorem diccionario_eliminar_sin_tamano (h : diccionario_eliminar d it = .ok (e, it')) :
    (∀ q, (e.node q).sin_tamano = ((d.limpiar it).node q).sin_tamano) ∧ e.mem = d.mem := by
  refine diccionario_eliminar_turns h
    (I := fun x => (∀ q, (x.1.node q).sin_tamano = ((d.limpiar it).node q).sin_tamano) ∧
      x.1.mem = d.mem)
    (J := fun _ x => (∀ q, (x.node q).sin_tamano = ((d.limpiar it).node q).sin_tamano) ∧
      x.mem = d.mem) ⟨fun _ => rfl, rfl⟩ ?_ ?_ ?_
  · rintro x y ⟨hx, hm⟩ hturn
    obtain ⟨a, -, rfl⟩ := unir_anteriores_inl hturn
    exact ⟨fun q => sin_tamano_unir_anterior.trans (hx q), mem_unir_anterior.trans hm⟩
  · rintro x y hx hturn
    obtain rfl := unir_anteriores_inr hturn
    exact hx
  · rintro i x y ⟨hx, hm⟩ hturn
    obtain ⟨b, -, rfl⟩ := unir_posteriores_inl hturn
    exact ⟨fun q => sin_tamano_unir_posterior.trans (hx q), mem_unir_posterior.trans hm⟩

/-- A release that is safe leaves everything but the partitions that it joins, one of which
keeps them all. -/
theorem diccionario_eliminar_marco {qs : List Ptr} (h : Particiones d l qs)
    (hv : Vecinas d w r it s t ps) (hr : ∀ p ∈ r.tail, (d.node p).data_size = 0)
    (hs : ∀ p ∈ s, (d.node p).data_size = 0) (hst : s = [] ∨ t = [])
    (hok : diccionario_eliminar d it = .ok (e, it')) :
    it' ∈ r ++ [it] ∧ ∀ q, q ∉ r ++ it :: s → (e.node q).contenido = (d.node q).contenido := by
  obtain rfl := h.listas.unique hv.listas
  refine (fun hend => ⟨hend.1.2, hend.2⟩) (diccionario_eliminar_turns hok
    (I := fun x => (∃ r', Retroceso (d.limpiar it) w r' x.2 (s ++ t) x.1 ∧
      ∀ y ∈ r' ++ [x.2], y ∈ r ++ [it]) ∧
      ∀ q, q ∉ r ++ it :: s → (x.1.node q).contenido = (d.node q).contenido)
    (J := fun i x => ((∃ s', Avance d w i s' t x ∧ ∀ y ∈ s', y ∈ s) ∧ i ∈ r ++ [it]) ∧
      ∀ q, q ∉ r ++ it :: s → (x.node q).contenido = (d.node q).contenido) ?_ ?_ ?_ ?_)
  · refine ⟨⟨r, hv.retroceso h hr, fun y hy => hy⟩, ?_⟩
    intro q hq
    have hne : q ≠ it := by
      rintro rfl
      exact hq (by simp)
    simp [t_diccionario.limpiar, hne]
  · rintro ⟨x, i⟩ y ⟨⟨r', hback, hsub⟩, hx⟩ hturn
    rcases unir_anteriores_cases hback with ⟨-, hexit⟩ | ⟨r'', a, d', rfl, hnext, hback'⟩
    · rw [hturn] at hexit
      simp at hexit
    · rw [hturn] at hnext
      obtain rfl := Sum.inl.inj (Except.ok.inj hnext)
      obtain ⟨a', -, ha'⟩ := unir_anteriores_inl hturn
      obtain ⟨rfl, rfl⟩ := Prod.mk.inj ha'
      refine ⟨⟨r'', hback', fun y hy => hsub y (by simp at hy ⊢; tauto)⟩, ?_⟩
      intro q hq
      have ha : q ≠ a := by
        rintro rfl
        have := hsub q (by simp)
        exact hq (by simp at this ⊢; tauto)
      have hi : q ≠ i := by
        rintro rfl
        have := hsub q (by simp)
        exact hq (by simp at this ⊢; tauto)
      rw [contenido_unir_anterior ha hi, hx q hq]
  · rintro ⟨x, i⟩ y ⟨⟨r', hback, hsub⟩, hx⟩ hturn
    obtain rfl := unir_anteriores_inr hturn
    rcases unir_anteriores_cases hback with ⟨rfl, -⟩ | ⟨r'', a, d', rfl, hnext, -⟩
    · exact ⟨⟨⟨s, hback.avance hv hs hst, fun y hy => hy⟩, hsub i (by simp)⟩, hx⟩
    · rw [hturn] at hnext
      simp at hnext
  · rintro i x y ⟨⟨⟨s', hforward, hsub⟩, hi⟩, hx⟩ hturn
    rcases unir_posteriores_cases hforward with ⟨-, hexit⟩ | ⟨b, s'', d', rfl, hnext, hforward'⟩
    · rw [hturn] at hexit
      simp at hexit
    · rw [hturn] at hnext
      obtain rfl := Sum.inl.inj (Except.ok.inj hnext)
      obtain ⟨b', hb', hy⟩ := unir_posteriores_inl hturn
      have hbb : b' = b := by
        have := hforward.next
        rw [hb'] at this
        simpa using this
      subst hbb
      refine ⟨⟨⟨s'', hforward', fun y hy => hsub y (by simp [hy])⟩, hi⟩, ?_⟩
      intro q hq
      have hqb : q ≠ b' := by
        rintro rfl
        have := hsub q (by simp)
        exact hq (by simp [this])
      have hqi : q ≠ i := by
        rintro rfl
        exact hq (by simp at hi ⊢; tauto)
      rw [hy, contenido_unir_posterior hqb hqi, hx q hq]

theorem diccionario_eliminar_contenido {qs : List Ptr} (h : Particiones d l qs)
    (hv : Vecinas d w r it s t ps) (hr : ∀ p ∈ r.tail, (d.node p).data_size = 0)
    (hs : ∀ p ∈ s, (d.node p).data_size = 0) (hst : s = [] ∨ t = [])
    (hok : diccionario_eliminar d it = .ok (e, it')) :
    ∀ q, q ∉ r ++ it :: s → (e.node q).contenido = (d.node q).contenido :=
  (diccionario_eliminar_marco h hv hr hs hst hok).2

end Eliminar

section Compactar

variable {d d₀ e : t_diccionario} {a b libre item p q : Ptr} {u v l ps : List Ptr} {m : Nat}

/-- No free partition lies before `p`, nor is it one. -/
def Delante (d : t_diccionario) (p : Ptr) : Prop :=
  ∃ u v ps, Listas d (u ++ p :: v) ps ∧ ∀ q ∈ u ++ [p], enUso (d.node q) = true

/-- What lies before the free partitions lies before each of them. -/
theorem Delante.mem (hp : Delante d p) (h : Listas d (u ++ libre :: v) ps)
    (hlibre : enUso (d.node libre) = false) : p ∈ u := by
  obtain ⟨u', v', qs, hl, hall⟩ := hp
  have hlist := h.unique hl
  by_contra hnot
  -- the free partition would have to be in front of `p`
  have hin : libre ∈ u' ++ [p] := by
    by_contra hfar
    have hfront : u' ++ [p] <+: u ++ libre :: v := ⟨v', by simp [hlist]⟩
    have hpos : u' ++ [p] <+: u ++ [libre] ∨ u ++ [libre] <+: u' ++ [p] :=
      List.prefix_or_prefix_of_prefix hfront ⟨v, by simp⟩
    rcases hpos with hpre | hpre
    · have hin := hpre.subset (by simp : p ∈ u' ++ [p])
      rcases List.mem_append.mp hin with hin | hin
      · exact hnot hin
      · rw [List.mem_singleton] at hin
        exact hfar (by simp [hin])
    · exact hfar (hpre.subset (by simp))
  rw [hall libre hin] at hlibre
  exact absurd hlibre (by simp)

theorem mem_juntar : (juntar d libre item).mem = d.mem := by simp [juntar]

theorem contenido_juntar (hl : q ≠ libre) (hi : q ≠ item) :
    ((juntar d libre item).node q).contenido = (d.node q).contenido := by
  simp only [juntar, devolver, node_modificar, node_modificar?, hl, hi, if_false,
    t_dict_element.contenido]
  split_ifs <;> rfl

theorem juntar_libres_inl {x y : t_diccionario × Option Ptr}
    (h : juntar_libres libre x = .ok (.inl y)) :
    ∃ item, x.2 = some item ∧ y.1 = juntar x.1 libre item := by
  obtain ⟨x, o⟩ := x
  unfold juntar_libres at h
  cases o with
  | none => simp at h
  | some item =>
    simp only at h
    split_ifs at h
    · simp at h
    · rw [← Sum.inl.inj (Except.ok.inj h)]
      exact ⟨item, rfl, rfl⟩

theorem juntar_libres_inr {x y : t_diccionario × Option Ptr}
    (h : juntar_libres libre x = .ok (.inr y)) : y = x := by
  obtain ⟨x, o⟩ := x
  unfold juntar_libres at h
  cases o with
  | none => exact (Sum.inr.inj (Except.ok.inj h)).symm
  | some item =>
    simp only at h
    split_ifs at h
    · exact (Sum.inr.inj (Except.ok.inj h)).symm
    · simp at h

/-- What joining two partitions keeps, joining all of them keeps. -/
theorem juntar_libres_igual {β : Type} {g : t_diccionario → β}
    (hjuntar : ∀ d a b, g (juntar d a b) = g d) {n : Nat} {x y : t_diccionario × Option Ptr}
    (h : loop .no_termina (juntar_libres libre) n x = .ok y) : g y.1 = g x.1 := by
  obtain ⟨z, -, hz, hlast⟩ := loop_turns (I := fun y => g y.1 = g x.1)
    (fun s t _ hs hturn => by
      obtain ⟨item, -, ht⟩ := juntar_libres_inl hturn
      rw [ht, hjuntar]
      exact hs) rfl n h
  rw [juntar_libres_inr hlast]
  exact hz

/-- What joining two partitions and moving one keep, a compaction keeps. -/
theorem compactar_igual {β : Type} {g : t_diccionario → β}
    (hjuntar : ∀ d a b, g (juntar d a b) = g d)
    (hmover : ∀ d a b e, intercambiar d a b = .ok e → g e = g d)
    (h : diccionario_compactarMemoria d = .ok e) : g e = g d := by
  have hturno : ∀ (s : t_diccionario × Option Ptr × Option Ptr) r, compactar_turno s = .ok r →
      g (Sum.elim (fun t => t.1) (fun t => t) r) = g s.1 := by
    rintro ⟨x, a, b⟩ r hr
    unfold compactar_turno at hr
    cases b with
    | none =>
      obtain rfl := Except.ok.inj hr
      rfl
    | some b =>
      cases a with
      | none => simp at hr
      | some a =>
        simp only at hr
        cases hloop : loop Falla.no_termina (juntar_libres a) x.turns (x, some b) with
        | error f => simp [hloop] at hr
        | ok y =>
          obtain ⟨y, o⟩ := y
          have hy : g y = g x := juntar_libres_igual hjuntar hloop
          cases o with
          | none =>
            simp only [hloop] at hr
            obtain rfl := Except.ok.inj hr
            exact hy
          | some c =>
            simp only [hloop] at hr
            cases hswap : intercambiar y a c with
            | error f => simp [hswap] at hr
            | ok z =>
              simp only [hswap] at hr
              obtain rfl := Except.ok.inj hr
              exact (hmover y a c z hswap).trans hy
  unfold diccionario_compactarMemoria at h
  split at h
  · simp at h
  · obtain rfl := Except.ok.inj h
    rfl
  · obtain ⟨s, -, hs, hlast⟩ := loop_turns (I := fun s => g s.1 = g d)
      (fun s t _ hs hturn => (hturno s _ hturn).trans hs) rfl _ h
    exact (hturno s _ hlast).trans hs

/-- The bytes copied lie behind the start of the free partition. -/
theorem intercambiar_marco (h : intercambiar d a b = .ok e) :
    (∀ q, q ≠ a → q ≠ b → e.node q = d.node q) ∧
      ∀ dst, (d.node a).data = some dst → ∀ x < dst, e.mem x = d.mem x := by
  unfold intercambiar at h
  simp only [node_modificar, if_true] at h
  split at h
  · rename_i dst src hdst hsrc
    obtain rfl := Except.ok.inj h
    refine ⟨?_, ?_⟩
    · intro q hqa hqb
      simp [modificar, hqa, hqb]
    · intro dst' hdst' x hx
      have hdata : (d.node a).data = some dst := hdst
      rw [hdata] at hdst'
      obtain rfl := Option.some.inj hdst'
      simp only [mem_modificar, copiar]
      rw [if_neg (by omega)]
  · simp at h

/-- What a turn of the compaction does to the partitions outside of what is ahead of it. -/
def Ajenas (d : t_diccionario) (libre : Ptr) (v : List Ptr) (e : t_diccionario) : Prop :=
  (∀ q, q ≠ libre → q ∉ v → (e.node q).contenido = (d.node q).contenido) ∧
    ∀ m, (d.node libre).data = some m → ∀ x < m, e.mem x = d.mem x

theorem juntar_libres_ajenas {x : t_diccionario × Option Ptr} {n : Nat}
    (hc : Compactando d₀ u libre v d)
    (h : loop .no_termina (juntar_libres libre) n (d, v.head?) = .ok x) :
    (∃ v', x.2 = v'.head? ∧ Compactando d₀ u libre v' x.1 ∧ ∀ y ∈ v', y ∈ v) ∧
      (∀ q, q ≠ libre → q ∉ v → (x.1.node q).contenido = (d.node q).contenido) ∧
      (x.1.node libre).data = (d.node libre).data ∧ x.1.mem = d.mem := by
  have hstep : ∀ x y : t_diccionario × Option Ptr,
      ((∃ v', x.2 = v'.head? ∧ Compactando d₀ u libre v' x.1 ∧ ∀ y ∈ v', y ∈ v) ∧
        (∀ q, q ≠ libre → q ∉ v → (x.1.node q).contenido = (d.node q).contenido) ∧
        (x.1.node libre).data = (d.node libre).data ∧ x.1.mem = d.mem) →
      juntar_libres libre x = .ok (.inl y) →
      (∃ v', y.2 = v'.head? ∧ Compactando d₀ u libre v' y.1 ∧ ∀ y ∈ v', y ∈ v) ∧
        (∀ q, q ≠ libre → q ∉ v → (y.1.node q).contenido = (d.node q).contenido) ∧
        (y.1.node libre).data = (d.node libre).data ∧ y.1.mem = d.mem := by
    rintro ⟨x, o⟩ ⟨y, o'⟩ ⟨⟨v', rfl, hc', hsub⟩, hx, hdata, hmem⟩ hturn
    obtain ⟨item, hitem, hjuntar⟩ := juntar_libres_inl hturn
    dsimp only at hitem hjuntar hdata hx hmem hturn ⊢
    subst hjuntar
    have hin : item ∈ v' := List.mem_of_head? hitem
    obtain ⟨ps, hp⟩ := hc'.particiones
    have hne : libre ≠ item := by
      rintro rfl
      exact (List.nodup_cons.mp (List.nodup_middle.mp hp.listas.dlist.nodup)).1 (by simp [hin])
    refine ⟨?_, ?_, ?_, mem_juntar.trans hmem⟩
    · rcases juntar_libres_cases hc' with ⟨-, hexit⟩ | ⟨b, w, rfl, hexit | ⟨e, hnext, hc''⟩⟩
      · rw [hturn] at hexit
        simp at hexit
      · rw [hturn] at hexit
        simp at hexit
      · rw [hturn] at hnext
        obtain ⟨hjuntar, hhead⟩ := Prod.mk.inj (Sum.inl.inj (Except.ok.inj hnext))
        exact ⟨w, hhead, hjuntar ▸ hc'', fun y hy => hsub y (by simp [hy])⟩
    · intro q hql hqv
      have hqi : q ≠ item := by
        rintro rfl
        exact hqv (hsub q hin)
      rw [contenido_juntar hql hqi, hx q hql hqv]
    · rw [(juntar_eq hne).data_absorbente, hdata]
  obtain ⟨y, -, hy, hlast⟩ := loop_turns (fun x y _ => hstep x y)
    ⟨⟨v, rfl, hc, fun y hy => hy⟩, fun _ _ _ => rfl, rfl, rfl⟩ n h
  rw [juntar_libres_inr hlast]
  exact hy

/-- One turn of the outer loop. -/
theorem compactar_turno_ajenas (hc : Compactando d₀ u libre v d) :
    (∀ e, compactar_turno (d, some libre, v.head?) = .ok (.inr e) → Ajenas d libre v e) ∧
      ∀ e o o', compactar_turno (d, some libre, v.head?) = .ok (.inl (e, o, o')) →
        Ajenas d libre v e := by
  cases hv : v with
  | nil =>
    refine ⟨?_, ?_⟩
    · intro e h
      obtain rfl := Sum.inr.inj (Except.ok.inj h)
      exact ⟨fun _ _ _ => rfl, fun _ _ _ _ => rfl⟩
    · intro e o o' h
      simp [compactar_turno] at h
  | cons c w =>
    simp only [compactar_turno, List.head?_cons]
    cases hloop : loop Falla.no_termina (juntar_libres libre) d.turns (d, some c) with
    | error f => simp
    | ok x =>
      obtain ⟨d', o⟩ := x
      obtain ⟨⟨v', hhead, hc', hsub⟩, hx, hdata, hmem⟩ :=
        juntar_libres_ajenas hc (by rw [hv]; exact hloop)
      dsimp only at hhead hc' hx hdata hmem
      rw [← hv]
      cases v' with
      | nil =>
        subst hhead
        refine ⟨?_, ?_⟩
        · intro e h
          obtain rfl := Sum.inr.inj (Except.ok.inj h)
          exact ⟨hx, fun m _ a _ => by rw [hmem]⟩
        · intro e o o' h
          simp at h
      | cons b v'' =>
        subst hhead
        simp only [List.head?_cons]
        cases hswap : intercambiar d' libre b with
        | error f => simp
        | ok e' =>
          obtain ⟨hnode, hbytes⟩ := intercambiar_marco hswap
          refine ⟨by simp, ?_⟩
          intro e o o' h
          obtain ⟨rfl, -⟩ := Prod.mk.inj (Sum.inl.inj (Except.ok.inj h))
          refine ⟨?_, ?_⟩
          · intro q hql hqv
            have hqb : q ≠ b := by
              rintro rfl
              exact hqv (hsub q (by simp))
            rw [hnode q hql hqb, hx q hql hqv]
          · intro m hm a ha
            rw [hbytes m (hdata.trans hm) a ha, hmem]

/-- Where a partition starts. -/
theorem Particiones.data_eq {p : Ptr} (h : Particiones d (u ++ p :: v) ps) :
    (d.node p).data = some (u.map (fun q => (d.node q).chunk_size)).sum := by
  obtain ⟨m, hu, hm, -⟩ := h.tiles.piece
  have hend := hu.end_eq
  rw [hm, hend]
  simp

/-- The state of the outer loop: what was in front of the first free partition is untouched. -/
structure Compactada (d : t_diccionario) (u w : List Ptr) (libre : Ptr) (v : List Ptr)
    (e : t_diccionario) : Prop where
  compactando : Compactando d (u ++ w) libre v e
  contenido : ∀ q ∈ u, (e.node q).contenido = (d.node q).contenido
  bytes : ∀ a < (u.map (fun q => (d.node q).chunk_size)).sum, e.mem a = d.mem a

theorem Compactada.ajenas {w : List Ptr} (h : Compactada d u w libre v d₀)
    (ha : Ajenas d₀ libre v e) : (∀ q ∈ u, (e.node q).contenido = (d.node q).contenido) ∧
      ∀ a < (u.map (fun q => (d.node q).chunk_size)).sum, e.mem a = d.mem a := by
  obtain ⟨ps, hp⟩ := h.compactando.particiones
  have hnodup := hp.listas.dlist.nodup
  have hdata := hp.data_eq
  have hsum : (u.map (fun q => (d.node q).chunk_size)).sum ≤
      ((u ++ w).map (fun q => (d₀.node q).chunk_size)).sum := by
    have hsame : u.map (fun q => (d₀.node q).chunk_size) = u.map (fun q => (d.node q).chunk_size) :=
      List.map_congr_left fun q hq => (congrArg t_dict_element.chunk_size (h.contenido q hq) :)
    rw [List.map_append, List.sum_append, hsame]
    omega
  refine ⟨?_, ?_⟩
  · intro q hq
    have hout : q ≠ libre ∧ q ∉ v := by
      have hdisj := (List.nodup_append'.mp hnodup).2.2
      have hnot := hdisj (List.mem_append_left w hq)
      simpa using hnot
    rw [ha.1 q hout.1 hout.2, h.contenido q hq]
  · intro a hlt
    rw [ha.2 _ hdata a (by omega), h.bytes a hlt]

/-- Compaction leaves alone what lies in front of every free partition. -/
theorem diccionario_compactarMemoria_quieta (h : Particiones d l ps) (hp : Delante d p)
    (hok : diccionario_compactarMemoria d = .ok e) : Quieta d p e := by
  have hlen := h.listas.length_lt_turns
  unfold diccionario_compactarMemoria at hok
  rw [buscar_eq h.listas.dlist.next h.listas.head (Nat.lt_succ_iff.mp hlen)] at hok
  cases hfind : l.find? (fun p => !enUso (d.node p)) with
  | none =>
    simp only [hfind] at hok
    obtain rfl := Except.ok.inj hok
    exact .refl
  | some libre =>
    simp only [hfind] at hok
    obtain ⟨huso, u, v, rfl, hu⟩ := List.find?_eq_some_iff_append.mp hfind
    simp only [Bool.not_not, Bool.not_eq_eq_eq_not, Bool.not_true] at huso hu
    have hmem : p ∈ u := hp.mem h.listas huso
    have hstart : Compactando d (u ++ []) libre v d :=
      ⟨⟨ps, by simpa using h⟩, h.vacias libre (by simp) huso, rfl, rfl⟩
    rw [hstart.next] at hok
    have hstep : ∀ s t : t_diccionario × Option Ptr × Option Ptr,
        (∃ w b y, s.2 = (some b, y.head?) ∧ Compactada d u w b y s.1) →
        compactar_turno s = .ok (.inl t) →
        ∃ w b y, t.2 = (some b, y.head?) ∧ Compactada d u w b y t.1 := by
      rintro ⟨x, o⟩ ⟨y, o₁, o₂⟩ ⟨w, b, z, rfl, hc⟩ hturn
      obtain ⟨hcont, hbytes⟩ :=
        hc.ajenas ((compactar_turno_ajenas hc.compactando).2 y o₁ o₂ hturn)
      rcases compactar_turno_cases hc.compactando with ⟨e', hexit, -⟩ | ⟨e', b', z', hnext, hc', -⟩
      · rw [hturn] at hexit
        simp at hexit
      · rw [hturn] at hnext
        obtain ⟨rfl, ho⟩ := Prod.mk.inj (Sum.inl.inj (Except.ok.inj hnext))
        exact ⟨w ++ [b], b', z', ho, by simpa using hc', hcont, hbytes⟩
    obtain ⟨⟨x, o⟩, -, ⟨w, b, y, rfl, hc⟩, hlast⟩ := loop_turns (fun s t _ => hstep s t)
      ⟨[], libre, v, rfl, hstart, fun _ _ => rfl, fun _ _ => rfl⟩ _ hok
    obtain ⟨hcont, hbytes⟩ := hc.ajenas ((compactar_turno_ajenas hc.compactando).1 e hlast)
    refine ⟨hcont p hmem, ?_⟩
    intro o ho a hle hlt
    obtain ⟨u₁, u₂, rfl⟩ := List.append_of_mem hmem
    have hdata := Particiones.data_eq (u := u₁) (p := p) (v := u₂ ++ libre :: v)
      (by simpa using h)
    rw [ho] at hdata
    have ho := Option.some.inj hdata
    refine hbytes a ?_
    simp only [List.map_append, List.map_cons, List.sum_append, List.sum_cons]
    omega

end Compactar

section Partir

variable {d e : t_diccionario} {item p q : Ptr} {l ps : List Ptr} {aux n : Nat}

theorem partir_contenido (h : partir d item aux = .ok e) :
    (∀ q, q ≠ item → d.nodes ≠ some q → (e.node q).contenido = (d.node q).contenido) ∧
      e.mem = d.mem := by
  unfold partir at h
  cases hn : d.nodes with
  | none =>
    simp only [hn] at h
    obtain rfl := Except.ok.inj h
    exact ⟨fun _ _ _ => rfl, rfl⟩
  | some n =>
    simp only [hn] at h
    split_ifs at h
    · obtain rfl := Except.ok.inj h
      refine ⟨?_, by simp⟩
      intro q hqi hqn
      have hqn' : q ≠ n := fun heq => hqn (heq ▸ rfl)
      simp only [node_modificar, node_modificar?, hqi, hqn', if_false, t_dict_element.contenido]
      split_ifs <;> rfl
    · obtain rfl := Except.ok.inj h
      exact ⟨fun _ _ _ => rfl, rfl⟩

/-- The nodes with a chunk are those of the element list. -/
theorem Particiones.mem_of_chunk (h : Particiones d l ps) (ha : d.allocated p = true)
    (hpos : 0 < (d.node p).chunk_size) : p ∈ l := by
  by_contra hnot
  have hpool := (h.listas.mem_pool).mpr ⟨mem_all_nodes.mpr ha, hnot⟩
  have := (h.libres p hpool).1
  omega

theorem Particiones.allocated (h : Particiones d l ps) (hp : p ∈ l) : d.allocated p = true :=
  h.listas.allocated hp

theorem Particiones.chunk_pos (h : Particiones d l ps) (hp : p ∈ l) :
    0 < (d.node p).chunk_size := Nat.lt_of_lt_of_le h.slab_pos (h.slab p hp)

end Partir

end LaLiga.Rc
