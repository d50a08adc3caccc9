import LaLiga.Rc.Fechas

/-! Where the buddy system still finds a chunk when everything that is stored has been evicted. -/
namespace LaLiga.Rc

open LaLiga.Lib t_diccionario

/-- A block of the buddy system in which no byte is reserved. -/
structure Hueco (d : t_diccionario) (k o : Nat) : Prop where
  alineado : 2 ^ k ∣ o
  dentro : o + 2 ^ k ≤ d.table_max_size
  sin_reservas : ∀ p, EnLista d p → estaReservado (d.node p) = true →
    ∀ a, (d.node p).data = some a → a + (d.node p).chunk_size ≤ o ∨ o + 2 ^ k ≤ a

def HayHueco (d : t_diccionario) (aux : Nat) : Prop := ∃ k o, aux ≤ 2 ^ k ∧ Hueco d k o

section Huecos

variable {d e f g : t_diccionario} {l ps u v w vs : List Ptr} {it item p q : Ptr}
  {k o max slab n nkey aux : Nat} {key : Nat → UInt8} {flags : Int}

/-- A chunk that is not longer than a block and reaches over its start begins with it. -/
theorem start_of_dvd {a s j : Nat} (hs : s = 2 ^ j) (hle : s ≤ 2 ^ k) (hk : 2 ^ k ∣ o) (ha : s ∣ a)
    (hao : a ≤ o) (hlt : o < a + s) : a = o := by
  subst hs
  have ho : 2 ^ j ∣ o := (dvd_of_le_pow hle).trans hk
  have hsub : 2 ^ j ∣ o - a := Nat.dvd_sub ho ha
  have hzero := Nat.eq_zero_of_dvd_of_lt hsub (by omega)
  omega

/-- The free chunks of a block have been merged to one, or belong to a larger one. -/
theorem Valido.libre_en (h : Valido d l ps none) (hk : 2 ^ k ∣ o)
    (hmax : o + 2 ^ k ≤ d.table_max_size)
    (hfree : ∀ p ∈ l, ∀ a, (d.node p).data = some a → a < o + 2 ^ k →
      o < a + (d.node p).chunk_size → enUso (d.node p) = false) :
    ∃ p ∈ l, enUso (d.node p) = false ∧ 2 ^ k ≤ (d.node p).chunk_size := by
  have hb := h.bloques
  have hpos := Nat.two_pow_pos k
  obtain ⟨u, p, v, a, rfl, -, ha, hv, hle, hlt⟩ := hb.tiles.cover (Nat.zero_le o) (by omega)
  have hp := hfree p (by simp) a ha (by omega) hlt
  by_contra hno
  have hsmall : ∀ q ∈ u ++ p :: v, enUso (d.node q) = false → (d.node q).chunk_size < 2 ^ k := by
    intro q hq hlibre
    by_contra hbig
    exact hno ⟨q, hq, hlibre, by omega⟩
  have hsize := hsmall p (by simp) hp
  obtain ⟨j, hj⟩ := hb.power p (by simp)
  obtain rfl := start_of_dvd hj (by omega) hk (hb.aligned p (by simp) a ha) hle hlt
  -- the last byte of the block lies in a chunk that ends with it
  have htiles : Tiles (fun p => (d.node p).data) (fun p => (d.node p).chunk_size) a (p :: v)
      d.table_max_size := ⟨ha, hv⟩
  obtain ⟨x, q, y, b, hsplit, hx, hbq, -, hle', hlt'⟩ :=
    htiles.cover (a := a + 2 ^ k - 1) (by omega) (by omega)
  have hsub : ∀ r ∈ x ++ [q], r ∈ p :: v := by
    intro r hr
    rw [hsplit]
    simp only [List.mem_append, List.mem_cons, List.not_mem_nil, or_false] at hr ⊢
    tauto
  have hin : ∀ r ∈ x ++ [q], r ∈ u ++ p :: v := fun r hr => List.mem_append_right u (hsub r hr)
  have hqin := hin q (by simp)
  have hqpos : 0 < (d.node q).chunk_size := hb.pos hqin
  have hab := hx.le
  have hq := hfree q hqin b hbq (by omega) (by omega)
  obtain ⟨i, hi⟩ := hb.power q hqin
  have hqsmall := hsmall q hqin hq
  have hend : a + 2 ^ k = b + (d.node q).chunk_size := by
    have hdvd : (d.node q).chunk_size ∣ 2 ^ k := by
      rw [hi]
      exact dvd_of_le_pow (by omega)
    have hle := Nat.le_of_dvd (by omega) (Nat.dvd_sub ((hdvd.trans hk).add hdvd)
      (hb.aligned q hqin b hbq))
    omega
  have hblock : Tiles (fun p => (d.node p).data) (fun p => (d.node p).chunk_size) a (x ++ [q])
      (a + 2 ^ k) := tiles_append.mpr ⟨b, hx, hbq, hend.symm⟩
  obtain ⟨w, hw⟩ : ∃ w, x ++ [q] = p :: w := by
    cases x with
    | nil =>
      obtain ⟨rfl, -⟩ := List.cons.inj hsplit
      exact ⟨[], rfl⟩
    | cons z x =>
      obtain ⟨rfl, -⟩ := List.cons.inj hsplit
      exact ⟨x ++ [q], rfl⟩
  rw [hw] at hblock hin
  have hlibres : ∀ r ∈ p :: w, enUso (d.node r) = false := by
    intro r hr
    obtain ⟨u', v', hl⟩ := List.append_of_mem (hin r hr)
    obtain ⟨c, -, hc, -⟩ := (hl ▸ hb.tiles : Tiles _ _ 0 (u' ++ r :: v') _).piece
    obtain ⟨hle, hle'⟩ := hblock.bounds hr hc
    have := hb.pos (hin r hr)
    exact hfree r (hin r hr) c hc (by omega) (by omega)
  have hchain : (p :: w).IsChain (fun p q => ¬ Hermanos d p q) := by
    have hmerged := (List.isChain_append.mp hb.merged).2.1
    rw [hsplit, show x ++ q :: y = (x ++ [q]) ++ y by simp, hw] at hmerged
    exact (List.isChain_append.mp hmerged).1.imp fun _ _ hpq => hpq (by simp) (by simp)
  refine libres_sin_fin hblock (fun r hr => hb.power r (hin r hr))
    (fun r hr => hb.aligned r (hin r hr)) hlibres hchain ?_ hsize (Nat.dvd_add hk dvd_rfl)
  rw [hj] at hsize ⊢
  exact (two_mul_dvd_of_lt hsize).trans hk

/-- A hole stays one while nothing is reserved that was not so, in the same place. -/
theorem Hueco.congr (h : Hueco d k o) (hmax : e.table_max_size = d.table_max_size)
    (hr : ∀ p, EnLista e p → estaReservado (e.node p) = true → EnLista d p ∧
      (e.node p).contenido = (d.node p).contenido) : Hueco e k o := by
  refine ⟨h.alineado, hmax ▸ h.dentro, ?_⟩
  intro p hin hres a ha
  obtain ⟨hin', hc⟩ := hr p hin hres
  have hres' : estaReservado (d.node p) = estaReservado (e.node p) :=
    (congrArg estaReservado hc :).symm
  obtain ⟨hdata, hsize, -⟩ := contenido_congr hc
  rw [hsize]
  exact h.sin_reservas p hin' (hres'.trans hres) a (hdata ▸ ha)

theorem uso_de_reserva {i : t_dict_element} (h : estaReservado i = true) : enUso i = true := by
  simp [enUso, h]

/-- The release of a stored element neither adds nor moves what is reserved. -/
theorem Ordenada.hueco_iff (h : Ordenada max slab d) (he : Ordenada max slab e)
    (ha : Ajeno d it e) (hl : Limpio (e.node it)) (ho : (d.node it).ocupado = true) :
    HayHueco e aux ↔ HayHueco d aux := by
  have hsame : ∀ p, p ≠ it → enUso (d.node p) = true →
      (e.node p).contenido = (d.node p).contenido := ha.contenido
  constructor
  · rintro ⟨k, o, hle, hh⟩
    refine ⟨k, o, hle, hh.congr ha.max.symm ?_⟩
    intro p hin hres
    have huse := uso_de_reserva hres
    have hne : p ≠ it := by
      rintro rfl
      simp [estaReservado, ho] at hres
    exact ⟨he.en_lista (ha.allocated.trans hin.allocated) ((ha.uso p hne).trans huse),
      (hsame p hne huse).symm⟩
  · rintro ⟨k, o, hle, hh⟩
    refine ⟨k, o, hle, hh.congr ha.max ?_⟩
    intro p hin hres
    have huse := uso_de_reserva hres
    have hne : p ≠ it := by
      rintro rfl
      rw [hl.libre] at huse
      exact absurd huse (by simp)
    have huse' := (ha.uso p hne).symm.trans huse
    exact ⟨h.en_lista (ha.allocated.symm.trans hin.allocated) huse', hsame p hne huse'⟩

/-- The victim is stored. -/
theorem Desaloja.ocupado (hd : Desaloja n d it e) (hl : Listas d l ps) (hf : Fechado d) :
    (d.node it).ocupado = true := by
  rcases diccionario_elegirVictima_eq hl with ⟨herror, -⟩ | ⟨victima, hmem, hok, hhour⟩
  · rw [hd.2.1] at herror
    exact absurd herror (by simp)
  · rw [hd.2.1] at hok
    obtain rfl := Except.ok.inj hok
    exact (hf it (hl.allocated hmem)).mpr hhour

/-- What the turns of a search keep. -/
structure Buscando (max slab aux : Nat) (d e : t_diccionario) : Prop where
  ordenada : Ordenada max slab e
  fechado : Fechado e
  huecos : HayHueco e aux ↔ HayHueco d aux

theorem Buscando.desaloja (h : Buscando max slab aux d e) (hd : Desaloja n e it f) :
    Buscando max slab aux d f := by
  obtain ⟨l, ps, hl⟩ := h.ordenada.listas
  obtain ⟨hf, hlimpio, ha, -⟩ := h.ordenada.desaloja hd
  exact ⟨hf, h.fechado.eliminar_buddy (hd.en_lista hl) hd.2.2,
    (h.ordenada.hueco_iff hf ha hlimpio (hd.ocupado hl h.fechado)).trans h.huecos⟩

theorem Buscando.desalojos (h : Buscando max slab aux d e) (hx : Trace (Desaloja n) e vs f) :
    Buscando max slab aux d f := hx.invariant (fun _ _ _ hx hd => hx.desaloja hd) h

theorem Buscando.turnos (h : Buscando max slab aux d e)
    (ht : Turns (buscar_lugar_buddy n) e f) : Buscando max slab aux d f := by
  induction ht with
  | refl => exact h
  | next _ hturn ih =>
    obtain ⟨it, hd⟩ := ih.ordenada.turno_desaloja hturn
    exact ih.desaloja hd

/-- In a hole a chunk is free, unless something is stored. -/
theorem HayHueco.guardada (hh : HayHueco d aux) (h : Ordenada max slab d)
    (hnone : primer_ajuste d aux = .ok none) : ∃ p, EnLista d p ∧ (d.node p).ocupado = true := by
  obtain ⟨k, o, hle, hk, hmax, hres⟩ := hh
  obtain ⟨l, ps, hv, -⟩ := h
  by_contra hno
  have hlibre : ∀ p ∈ l, ∀ a, (d.node p).data = some a → a < o + 2 ^ k →
      o < a + (d.node p).chunk_size → enUso (d.node p) = false := by
    intro p hp a ha hend hstart
    have hin : EnLista d p := ⟨l, ps, hv.listas, hp⟩
    have hocupado : (d.node p).ocupado = false := by
      by_contra hyes
      exact hno ⟨p, hin, by simpa using hyes⟩
    have hreserva : estaReservado (d.node p) = false := by
      by_contra hyes
      rcases hres p hin (by simpa using hyes) a ha with hbefore | hbehind
      · omega
      · omega
    simp [enUso, hocupado, hreserva]
  obtain ⟨p, hp, huse, hsize⟩ := hv.libre_en hk hmax hlibre
  rw [primer_ajuste_find aux hv.listas] at hnone
  exact List.find?_eq_none.mp (Except.ok.inj hnone) p hp
    (apto_iff.mpr ⟨hp, huse, hle.trans hsize⟩).2

/-- With a hole no turn crashes. -/
theorem Buscando.turno_ok (h : Buscando max slab (aux_data_size n slab) d e)
    (hcond : max < aux_data_size n slab ∨ HayHueco d (aux_data_size n slab)) {x : Falla} :
    buscar_lugar_buddy n e ≠ .error x := by
  intro herror
  have hturno := h.ordenada.turno (n := n)
  rw [herror] at hturno
  obtain ⟨l, ps, hv, -, hmax, hslab⟩ := id h.ordenada
  cases hturno with
  | sin_victima hnone hhour =>
    rcases hcond with hbig | hhueco
    · simp [buscar_lugar_buddy, hmax, hslab, Nat.not_le.mpr hbig] at herror
    · obtain ⟨p, hin, hocupado⟩ := (h.huecos.mpr hhueco).guardada h.ordenada hnone
      exact (h.fechado p hin.allocated).mp hocupado (hhour p hin)

end Huecos

end LaLiga.Rc
