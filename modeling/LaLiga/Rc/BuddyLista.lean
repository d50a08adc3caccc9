import LaLiga.Rc.BuddyEngine

/-! The element list of the buddy system: what releases do to it, and when it is one chunk. -/
namespace LaLiga.Rc

open LaLiga.Lib t_diccionario

section Releases

variable {d e : t_diccionario} {l u v u' v' ps : List Ptr} {it hno p : Ptr} {data : Option Nat}
  {s t : t_diccionario × Option Ptr × Option Nat} {max slab : Nat}

theorem Elegido.vecino (h : Elegido d it u v (some hno, data)) :
    (∃ w, v = hno :: w) ∨ ∃ w, u = w ++ [hno] := by
  obtain ⟨m, -, ⟨-, hr⟩ | ⟨-, w, x, rfl, hr⟩⟩ := h
  · obtain ⟨hhead, -⟩ := Prod.mk.inj hr
    cases v with
    | nil => simp at hhead
    | cons y w =>
      obtain rfl : hno = y := by simpa using hhead
      exact Or.inl ⟨w, rfl⟩
  · obtain ⟨hx, -⟩ := Prod.mk.inj hr
    obtain rfl := Option.some.inj hx
    exact Or.inr ⟨w, rfl⟩

/-- A turn of the merging loop takes one chunk out of the list. -/
theorem Uniendo.quita (h : Uniendo d it s) (hl : Listas s.1 l ps)
    (hturn : unir_hermanos it s = .ok (.inl t)) :
    ∃ l' ps', Listas t.1 l' ps' ∧ l'.Sublist l ∧ it ∈ l' := by
  obtain ⟨hno, hhno, -, hunir, -⟩ := unir_hermanos_inl hturn
  obtain ⟨⟨u, v, ps', hv, helegido⟩, -, -⟩ := h
  obtain ⟨self, o, data⟩ := s
  obtain rfl : o = some hno := hhno
  obtain rfl := hl.unique hv.listas
  have hnot := (List.nodup_cons.mp (List.nodup_middle.mp hv.listas.dlist.nodup)).1
  have hnew : ∀ a b, u ++ it :: v = a ++ hno :: b → hno ≠ it → it ∈ a ++ b →
      ∃ l' ps', Listas t.1 l' ps' ∧ l'.Sublist (u ++ it :: v) ∧ it ∈ l' := by
    intro a b hab hne hin
    have hlist := hv.listas
    rw [hab] at hlist
    rw [hunir, hab]
    exact ⟨a ++ b, _, Unido.listas hlist (unir_eq hne.symm), by simp, hin⟩
  rcases helegido.vecino with ⟨w, rfl⟩ | ⟨w, rfl⟩
  · refine hnew (u ++ [it]) w (by simp) ?_ (by simp)
    rintro rfl
    exact hnot (by simp)
  · refine hnew w (it :: v) (by simp) ?_ (by simp)
    rintro rfl
    exact hnot (by simp)

/-- In a sublist that keeps `it`, what is before it was before it. -/
theorem sublist_around (h : (u' ++ it :: v').Sublist (u ++ it :: v))
    (hnodup : (u ++ it :: v).Nodup) : u'.Sublist u ∧ v'.Sublist v := by
  induction u generalizing u' with
  | nil =>
    have hnot := (List.nodup_cons.mp hnodup).1
    rcases List.sublist_cons_iff.mp h with hskip | ⟨r, heq, hr⟩
    · exact absurd (hskip.subset (by simp)) hnot
    · cases u' with
      | nil =>
        obtain ⟨-, rfl⟩ := List.cons.inj heq
        exact ⟨.refl _, hr⟩
      | cons x w =>
        obtain ⟨-, rfl⟩ := List.cons.inj heq
        exact absurd (hr.subset (by simp)) hnot
  | cons x u ih =>
    obtain ⟨hnot, hrest⟩ := List.nodup_cons.mp hnodup
    rcases List.sublist_cons_iff.mp h with hskip | ⟨r, heq, hr⟩
    · obtain ⟨hu, hv⟩ := ih hskip hrest
      exact ⟨hu.trans (List.sublist_cons_self x u), hv⟩
    · cases u' with
      | nil =>
        obtain ⟨rfl, -⟩ := List.cons.inj heq
        exact absurd (by simp) hnot
      | cons y w =>
        obtain ⟨rfl, rfl⟩ := List.cons.inj heq
        obtain ⟨hu, hv⟩ := ih hr hrest
        exact ⟨hu.cons_cons y, hv⟩

/-- A release takes chunks out of the list and leaves the others in their order. -/
theorem Valido.eliminar_sublist (hv : Valido d (u ++ it :: v) ps none)
    (hok : diccionario_eliminar_buddy d it = .ok e) :
    ∃ u' v' ps', Listas e (u' ++ it :: v') ps' ∧ u'.Sublist u ∧ v'.Sublist v := by
  obtain ⟨r, hr, hstart⟩ := Uniendo.inicio hv
  simp only [diccionario_eliminar_buddy, hr] at hok
  have hstep : ∀ s t, (Uniendo d it s ∧
      ∃ l' ps', Listas s.1 l' ps' ∧ l'.Sublist (u ++ it :: v) ∧ it ∈ l') →
      unir_hermanos it s = .ok (.inl t) → Uniendo d it t ∧
        ∃ l' ps', Listas t.1 l' ps' ∧ l'.Sublist (u ++ it :: v) ∧ it ∈ l' := by
    rintro s t ⟨hs, l', ps', hl', hsub, -⟩ hturn
    obtain ⟨l₂, ps₂, hl₂, hsub₂, hin⟩ := hs.quita hl' hturn
    rcases unir_hermanos_cases hs with ⟨hstop, -⟩ | ⟨t', hnext, ht, -⟩
    · rw [hturn] at hstop
      exact absurd hstop (by simp)
    · rw [hturn] at hnext
      obtain rfl := Sum.inl.inj (Except.ok.inj hnext)
      exact ⟨ht, l₂, ps₂, hl₂, hsub₂.trans hsub, hin⟩
  obtain ⟨s, -, ⟨-, l', ps', hl', hsub, hin⟩, hlast⟩ := loop_turns (fun s t _ => hstep s t)
    ⟨hstart, _, _, hv.limpiar.listas, .refl _, by simp⟩ _ hok
  rw [unir_hermanos_inr hlast]
  obtain ⟨u', v', rfl⟩ := List.append_of_mem hin
  exact ⟨u', v', ps', hl', sublist_around hsub hv.listas.dlist.nodup⟩

end Releases

section Free

variable {d : t_diccionario} {p : Ptr} {v l ps : List Ptr} {o K : Nat}

theorem not_dvd_add_self {s x : Nat} (hpos : 0 < s) (h : 2 * s ∣ x) : ¬ 2 * s ∣ x + s := by
  intro hsum
  have := Nat.le_of_dvd hpos ((Nat.dvd_add_right h).mp hsum)
  omega

theorem two_mul_dvd_of_lt {j k : Nat} (h : 2 ^ j < 2 ^ k) : 2 * 2 ^ j ∣ 2 ^ k := by
  have hlt := (Nat.pow_lt_pow_iff_right (by decide : 1 < 2)).mp h
  rw [← pow_succ']
  exact pow_dvd_pow 2 hlt

/-- Free chunks, the first of which is a first sibling, do not end at a multiple of a larger size:
they leave a pair to merge. -/
theorem libres_sin_fin {e : Nat}
    (ht : Tiles (fun p => (d.node p).data) (fun p => (d.node p).chunk_size) o (p :: v) e)
    (hpow : ∀ q ∈ p :: v, ∃ k, (d.node q).chunk_size = 2 ^ k)
    (hal : ∀ q ∈ p :: v, ∀ a, (d.node q).data = some a → (d.node q).chunk_size ∣ a)
    (hfree : ∀ q ∈ p :: v, enUso (d.node q) = false)
    (hchain : (p :: v).IsChain (fun p q => ¬ Hermanos d p q))
    (hfirst : 2 * (d.node p).chunk_size ∣ o) (hlt : (d.node p).chunk_size < 2 ^ K) :
    ¬ 2 ^ K ∣ e := by
  intro hend
  induction v generalizing p o with
  | nil =>
    obtain ⟨k, hk⟩ := hpow p (by simp)
    obtain ⟨-, rfl⟩ := ht
    dsimp only at hend
    rw [hk] at hfirst hlt hend
    exact not_dvd_add_self (Nat.two_pow_pos k) hfirst ((two_mul_dvd_of_lt hlt).trans hend)
  | cons q w ih =>
    obtain ⟨k, hk⟩ := hpow p (by simp)
    obtain ⟨j, hj⟩ := hpow q (by simp)
    obtain ⟨hp, hq, hw⟩ := ht
    simp only at hp hq hw
    have halq := hal q (by simp) _ hq
    rw [hj, hk] at halq
    rw [hk] at hfirst hlt
    have hno := not_dvd_add_self (Nat.two_pow_pos k) hfirst
    -- the second chunk is smaller, or it would have been merged with the first
    have hsmall : 2 ^ j < 2 ^ k := by
      rcases lt_trichotomy (2 ^ j) (2 ^ k) with hlt | heq | hgt
      · exact hlt
      · refine absurd ⟨hfree p (by simp), hfree q (by simp), ?_, ?_⟩
          ((List.isChain_cons.mp hchain).1 q rfl)
        · rw [hk, hj, heq]
        · intro a ha
          obtain rfl := Option.some.inj (hp.symm.trans ha)
          rwa [hk]
      · exact absurd ((two_mul_dvd_of_lt hgt).trans halq) hno
    have hsecond : 2 * (d.node q).chunk_size ∣ o + (d.node p).chunk_size := by
      rw [hj, hk]
      have hdvd := two_mul_dvd_of_lt hsmall
      exact Nat.dvd_add ((hdvd.trans (Nat.dvd_mul_left _ 2)).trans hfirst) hdvd
    exact ih ⟨hq, hw⟩ (fun x hx => hpow x (by simp [hx])) (fun x hx => hal x (by simp [hx]))
      (fun x hx => hfree x (by simp [hx])) (List.isChain_cons.mp hchain).2 hsecond
      (by rw [hj]; exact hsmall.trans hlt)

/-- A memory in which nothing is in use has been merged to one chunk. -/
theorem Valido.libre_total (h : Valido d l ps none) (hmax : d.table_max_size = 2 ^ K)
    (hfree : ∀ p ∈ l, enUso (d.node p) = false) :
    ∃ p ∈ l, (d.node p).chunk_size = 2 ^ K := by
  have hb := h.bloques
  cases l with
  | nil =>
    have := Nat.two_pow_pos K
    have hend : 0 = d.table_max_size := hb.tiles
    omega
  | cons p v =>
    refine ⟨p, by simp, ?_⟩
    have htiles := hb.tiles
    rw [hmax] at htiles
    have hle : (d.node p).chunk_size ≤ 2 ^ K := by simpa using htiles.2.le
    by_contra hne
    have hlt : (d.node p).chunk_size < 2 ^ K := by omega
    exact libres_sin_fin htiles hb.power hb.aligned hfree
      (hb.merged.imp fun _ _ hpq => hpq (by simp) (by simp)) (dvd_zero _) hlt dvd_rfl

end Free

/-- What is in use is stored, with a key and a time stamp, so that it can be a victim. -/
def Guardadas (d : t_diccionario) : Prop :=
  ∀ q, d.allocated q = true → enUso (d.node q) = true →
    (d.node q).nkey ≠ 0 ∧ (d.node q).ocupado = true ∧ (d.node q).hour ≠ 0

section Calls

variable {d e : t_diccionario} {u v ps : List Ptr} {it : Ptr} {o : Option Ptr}
  {max slab K n k : Nat} {s t : t_diccionario × Option Ptr}

theorem Quieta.guardada (h : Quieta d it e) (hd : (d.node it).nkey ≠ 0 ∧
    (d.node it).ocupado = true ∧ (d.node it).hour ≠ 0) :
    (e.node it).nkey ≠ 0 ∧ (e.node it).ocupado = true ∧ (e.node it).hour ≠ 0 := by
  have hhour : (e.node it).hour = (d.node it).hour :=
    (congrArg t_dict_element.hour h.contenido :)
  rwa [h.intacta.nkey, h.ocupado, hhour]

theorem Ajeno.guardadas (ha : Ajeno d it e) (hm : e.mem = d.mem) (hl : Limpio (e.node it))
    (h : Guardadas d) : Guardadas e := by
  intro q hq hu
  have hne : q ≠ it := by
    rintro rfl
    rw [hl.libre] at hu
    exact absurd hu (by simp)
  have hud := (ha.uso q hne).symm.trans hu
  exact (ha.quieta hm hne hud).guardada (h q (ha.allocated.symm.trans hq) hud)

/-- A search always finds a victim. -/
theorem Ordenada.turno_ok (h : Ordenada (2 ^ K) slab d) (hf : Guardadas d) {f : Falla} :
    buscar_lugar_buddy n d ≠ .error f := by
  intro herror
  have hturno := h.turno (n := n)
  rw [herror] at hturno
  obtain ⟨l, ps, hv, -, hmax, hslab⟩ := h
  cases hturno with
  | sin_victima hnone hhour =>
    have hfits : aux_data_size n slab ≤ 2 ^ K := by
      by_contra hbig
      simp [buscar_lugar_buddy, hmax, hslab, hbig] at herror
    have hfree : ∀ p ∈ l, enUso (d.node p) = false := by
      intro p hp
      cases hu : enUso (d.node p) with
      | false => rfl
      | true => exact absurd (hhour p ⟨l, ps, hv.listas, hp⟩) (hf p (hv.allocated hp) hu).2.2
    obtain ⟨p, hp, hsize⟩ := hv.libre_total hmax hfree
    -- the chunk that is all of the memory would have been found
    unfold primer_ajuste at hnone
    rw [buscar_eq hv.listas.dlist.next hv.listas.head
      (Nat.lt_succ_iff.mp hv.listas.length_lt_turns)] at hnone
    have hno := List.find?_eq_none.mp (Except.ok.inj hnone) p hp
    simp only [hfree p hp, hsize, Bool.false_or, Bool.not_eq_true', decide_eq_false_iff_not] at hno
    omega

theorem Ordenada.busca (h : Ordenada (2 ^ K) slab d) (hf : Guardadas d) :
    ∃ r, diccionario_obtenerDireccion_buddy d n = .ok r := by
  unfold diccionario_obtenerDireccion_buddy
  refine loop_rule (I := fun d => Ordenada (2 ^ K) slab d ∧ Guardadas d)
    (R := fun r => ∃ x, r = .ok x) en_uso ?_ ?_ ?_ d.turns d ⟨h, hf⟩ ?_
  · rintro d f ⟨hd, hfd⟩ herror
    exact absurd herror (hd.turno_ok hfd)
  · rintro d e ⟨hd, hfd⟩ hturn
    have hturno := hd.turno (n := n)
    rw [hturn] at hturno
    obtain ⟨l, ps, hv, -⟩ := id hd
    cases hturno with
    | desaloja _ _ hin hu hel =>
      obtain ⟨e', he', ho, hl, ha, hm⟩ := hd.eliminar hin
      rw [hel] at he'
      obtain rfl := Except.ok.inj he'
      obtain ⟨l', ps', hl', hmem⟩ := hin
      obtain rfl := hv.listas.unique hl'
      exact ⟨⟨ho, ha.guardadas hm hl hfd⟩, en_uso_lt hv hmem hu hl ha⟩
  · intro d r _ _
    exact ⟨r, rfl⟩
  · obtain ⟨l, ps, hv, -⟩ := h
    exact Nat.lt_succ_of_le (en_uso_le hv)

/-- What a flush needs of its states, and its releases keep. -/
structure Conserva (J : t_diccionario → Prop) : Prop where
  valido : ∀ {d}, J d → ∃ l ps, Valido d l ps none
  clave : ∀ {d q}, J d → d.allocated q = true → enUso (d.node q) = true → (d.node q).nkey ≠ 0
  eliminar : ∀ {d it e}, J d → EnLista d it → diccionario_eliminar_buddy d it = .ok e → J e

/-- Where a flush is: what it has passed is free, and `k` elements are left. -/
structure Barrido (J : t_diccionario → Prop) (k : Nat) (s : t_diccionario × Option Ptr) : Prop where
  bien : J s.1
  listas : ∃ u v ps, Listas s.1 (u ++ v) ps ∧ s.2 = v.head? ∧ v.length = k ∧
    ∀ p ∈ u, enUso (s.1.node p) = false

section Flush

variable {J : t_diccionario → Prop}

theorem Barrido.en_lista (h : Barrido J k s) (hit : s.2 = some it) : EnLista s.1 it := by
  obtain ⟨u, v, ps, hl, ho, -⟩ := h.listas
  rw [ho] at hit
  exact ⟨_, ps, hl, by simp [List.mem_of_head? hit]⟩

/-- A turn clears the element at hand, if it is in use, and goes on behind it. -/
theorem Barrido.turno (hJ : Conserva J) (h : Barrido J k s)
    (hturn : limpiar_turno BuddySystem s = .ok (.inl t)) : ∃ j < k, Barrido J j t := by
  obtain ⟨d, o⟩ := s
  obtain ⟨e, o'⟩ := t
  obtain ⟨u, v, ps, hl, ho, rfl, hu⟩ := h.listas
  obtain ⟨l, qs, hv⟩ := hJ.valido h.bien
  obtain rfl := hl.unique hv.listas
  cases o with
  | none => simp [limpiar_turno] at hturn
  | some it =>
    cases v with
    | nil => simp at ho
    | cons x v =>
      obtain rfl : it = x := by simpa using ho
      have hin : EnLista d it := h.en_lista rfl
      rcases limpiar_turno_inl hturn with ⟨hzero, rfl, ho'⟩ | ⟨it', -, hel, ho'⟩
      · refine ⟨v.length, by simp, h.bien, u ++ [it], v, ps, by simpa using hl, ?_, rfl, ?_⟩
        · rw [ho', hl.dlist.next_eq]
        · intro p hp
          rcases List.mem_append.mp hp with hp | hp
          · exact hu p hp
          · rw [List.mem_singleton.mp hp]
            cases huse : enUso (e.node it) with
            | false => rfl
            | true => exact absurd hzero (hJ.clave h.bien hin.allocated huse)
      · obtain ⟨hok, rfl⟩ := f_eliminar_buddy_ok hel
        obtain ⟨e', u₁, v₁, ps₁, he', hv₁, hclean, ha⟩ := diccionario_eliminar_buddy_eq hv
        rw [hok] at he'
        obtain rfl := Except.ok.inj he'
        obtain ⟨u', v', ps', hl', hsub, hsub'⟩ := hv.eliminar_sublist hok
        refine ⟨v'.length, by simpa using Nat.lt_succ_of_le hsub'.length_le,
          hJ.eliminar h.bien hin hok, u' ++ [it'], v', ps', by simpa using hl', ?_, rfl, ?_⟩
        · rw [ho', hl'.dlist.next_eq]
        · intro p hp
          rcases List.mem_append.mp hp with hpu | hp
          · have hne : p ≠ it' := by
              rintro rfl
              have hnot := (List.nodup_cons.mp (List.nodup_middle.mp hl'.dlist.nodup)).1
              exact hnot (List.mem_append_left v' hpu)
            exact (ha.uso p hne).trans (hu p (hsub.subset hpu))
          · rw [List.mem_singleton.mp hp]
            exact hclean.libre

theorem Conserva.barrido (hJ : Conserva J) (h : J d) :
    ∃ k < d.turns, Barrido J k (d, d.elements) := by
  obtain ⟨l, ps, hv⟩ := hJ.valido h
  have hcount := hv.bloques.tiles.length_mul_le (k := 1) (fun p hp => hv.bloques.pos hp)
  refine ⟨l.length, ?_, h, [], l, ps, hv.listas, hv.listas.head, rfl, by simp⟩
  unfold turns
  omega

theorem Barrido.fin (hJ : Conserva J) (h : Barrido J k s)
    (hturn : limpiar_turno BuddySystem s = .ok (.inr e)) :
    J e ∧ ∀ q, e.allocated q = true → enUso (e.node q) = false := by
  obtain rfl := limpiar_turno_inr hturn
  obtain ⟨u, v, ps, hl, ho, -, hu⟩ := h.listas
  refine ⟨h.bien, ?_⟩
  intro q hq
  cases huse : enUso (e.node q) with
  | false => rfl
  | true =>
    obtain ⟨l, qs, hv⟩ := hJ.valido h.bien
    have hmem := hv.mem_of_uso hq huse
    obtain rfl := hv.listas.unique hl
    cases v with
    | nil => exact huse.symm.trans (hu q (by simpa using hmem))
    | cons x v => simp at ho

/-- A flush returns, with nothing in use. -/
theorem Conserva.flush (hJ : Conserva J) (h : J d) {turnos : Nat} (hn : d.turns ≤ turnos) :
    ∃ e, diccionario_limpiar BuddySystem turnos d = .ok e ∧ J e ∧
      ∀ q, e.allocated q = true → enUso (e.node q) = false := by
  obtain ⟨k, hlt, hk⟩ := hJ.barrido h
  refine loop_bound (I := Barrido J)
    (R := fun r => ∃ e, r = .ok e ∧ J e ∧ ∀ q, e.allocated q = true → enUso (e.node q) = false)
    ?_ ?_ ?_ turnos k _ hk (by omega)
  · intro k s f hs herror
    obtain ⟨it, hit, hel⟩ := limpiar_turno_error herror
    obtain ⟨l, ps, hv⟩ := hJ.valido hs.bien
    obtain ⟨l', ps', hl', hmem⟩ := hs.en_lista hit
    obtain rfl := hv.listas.unique hl'
    obtain ⟨u, v, rfl⟩ := List.append_of_mem hmem
    obtain ⟨e, -, -, -, he, -⟩ := diccionario_eliminar_buddy_eq hv
    rw [f_eliminar_buddy] at hel
    simp [he, Except.map] at hel
  · exact fun k s t hs hturn => hs.turno hJ hturn
  · exact fun k s e hs hturn => ⟨e, rfl, hs.fin hJ hturn⟩

end Flush

/-- Where a flush is when everything in use is stored. -/
structure Vaciando (max slab k : Nat) (s : t_diccionario × Option Ptr) : Prop where
  ordenada : Ordenada max slab s.1
  guardadas : Guardadas s.1
  listas : ∃ u v ps, Listas s.1 (u ++ v) ps ∧ s.2 = v.head? ∧ v.length = k ∧
    ∀ p ∈ u, enUso (s.1.node p) = false

theorem conserva_guardadas : Conserva (fun d => Ordenada max slab d ∧ Guardadas d) where
  valido := fun h => by
    obtain ⟨l, ps, hv, -⟩ := h.1
    exact ⟨l, ps, hv⟩
  clave := fun h hq hu => (h.2 _ hq hu).1
  eliminar := fun h hit hok => by
    obtain ⟨e, he, ho, hl, ha, hm⟩ := h.1.eliminar hit
    rw [hok] at he
    obtain rfl := Except.ok.inj he
    exact ⟨ho, ha.guardadas hm hl h.2⟩

theorem Vaciando.barrido (h : Vaciando max slab k s) :
    Barrido (fun d => Ordenada max slab d ∧ Guardadas d) k s :=
  ⟨⟨h.ordenada, h.guardadas⟩, h.listas⟩

theorem Vaciando.turno (h : Vaciando max slab k s)
    (hturn : limpiar_turno BuddySystem s = .ok (.inl t)) : ∃ j < k, Vaciando max slab j t := by
  obtain ⟨j, hlt, ht⟩ := h.barrido.turno conserva_guardadas hturn
  exact ⟨j, hlt, ht.bien.1, ht.bien.2, ht.listas⟩

theorem Ordenada.vaciando (h : Ordenada max slab d) (hg : Guardadas d) :
    ∃ k, Vaciando max slab k (d, d.elements) := by
  obtain ⟨k, -, hk⟩ := conserva_guardadas.barrido ⟨h, hg⟩
  exact ⟨k, h, hg, hk.listas⟩

/-- A flush leaves nothing in use. -/
theorem Ordenada.flush {turnos : Nat} (h : Ordenada max slab d) (hg : Guardadas d)
    (hok : justice_engine_flush BuddySystem turnos d = .ok e) :
    Ordenada max slab e ∧ ∀ q, e.allocated q = true → enUso (e.node q) = false := by
  obtain ⟨s, -, ⟨k, hs⟩, hlast⟩ := loop_turns (I := fun s => ∃ k, Vaciando max slab k s)
    (fun s t _ ⟨k, hs⟩ hturn => (hs.turno hturn).imp fun _ h => h.2) (h.vaciando hg) turnos hok
  obtain ⟨⟨he, -⟩, hfree⟩ := hs.barrido.fin conserva_guardadas hlast
  exact ⟨he, hfree⟩

theorem Ordenada.flush_ok (h : Ordenada max slab d) (hg : Guardadas d) :
    ∃ turnos e, justice_engine_flush BuddySystem turnos d = .ok e := by
  obtain ⟨e, he, -⟩ := conserva_guardadas.flush ⟨h, hg⟩ (le_refl d.turns)
  exact ⟨d.turns, e, he⟩

end Calls

end LaLiga.Rc
