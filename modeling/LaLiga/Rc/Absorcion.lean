import LaLiga.Rc.Ajustes

/-! What `diccionario_eliminar` joins, in any list and whatever it holds. -/
namespace LaLiga.Rc

open LaLiga.Lib t_diccionario

/-- In `x` the element `i` stands for the elements `m` of `d`, and nothing else has changed. -/
structure Junta (d : t_diccionario) (m : List Ptr) (i : Ptr) (x : t_diccionario) : Prop where
  cabeza : m.head? = some i
  tamano : (x.node i).chunk_size = (m.map fun q => (d.node q).chunk_size).sum
  otras : ∀ q, q ∉ m → (x.node q).contenido = (d.node q).contenido
  sin_tamano : ∀ q, (x.node q).sin_tamano = (d.node q).sin_tamano

/-- The first loop, with `r` still ahead. -/
structure Atras (d : t_diccionario) (w r v l : List Ptr) (s : t_diccionario × Ptr) : Prop where
  listas : ∃ ps, Listas s.1 (w ++ (r ++ s.2 :: v)) ps
  junta : ∃ m, w ++ (r ++ (m ++ v)) = l ∧ Junta d m s.2 s.1

/-- The second loop, with `s` of `s₀` still ahead. -/
structure Adelante (d : t_diccionario) (w : List Ptr) (i : Ptr) (s₀ s t l : List Ptr)
    (x : t_diccionario) : Prop where
  listas : ∃ ps, Listas (reparar x i) (w ++ i :: (s ++ t)) ps
  junta : ∃ m, w ++ (m ++ (s ++ t)) = l ∧ Junta d m i x
  entera : s = s₀ → reparar x i = x

section Absorcion

variable {d x y e : t_diccionario} {a b i it p q : Ptr} {l m r s s₀ t u v w ps : List Ptr}

namespace Junta

theorem inicial : Junta d [it] it d := ⟨rfl, by simp, fun _ _ => rfl, fun _ => rfl⟩

theorem mem (h : Junta d m i x) : i ∈ m := List.mem_of_head? h.cabeza

theorem ocupado (h : Junta d m i x) (q : Ptr) : (x.node q).ocupado = (d.node q).ocupado :=
  (congrArg t_dict_element.ocupado (h.sin_tamano q) :)

/-- The element before it absorbs it. -/
theorem antes (h : Junta d m i x) (ha : a ∉ m) : Junta d (a :: m) a (unir_anterior x i a) := by
  have hne : a ≠ i := by
    rintro rfl
    exact ha h.mem
  refine ⟨rfl, ?_, ?_, fun q => sin_tamano_unir_anterior.trans (h.sin_tamano q)⟩
  · rw [(unir_anterior_eq hne).chunk_absorbente, h.tamano, List.map_cons, List.sum_cons]
    rw [(contenido_congr (h.otras a ha)).2.1]
  · intro q hq
    obtain ⟨hqa, hqm⟩ : q ≠ a ∧ q ∉ m := by simpa using hq
    have hqi : q ≠ i := by
      rintro rfl
      exact hqm h.mem
    rw [contenido_unir_anterior hqa hqi, h.otras q hqm]

/-- It absorbs the element behind it. -/
theorem despues (h : Junta d m i x) (hb : b ∉ m) (hnext : (x.node i).next = some b) :
    Junta d (m ++ [b]) i (unir_posterior x i b) := by
  have hne : i ≠ b := by
    rintro rfl
    exact hb h.mem
  have hsame : ∀ (z : t_diccionario) q, ((reparar z i).node q).chunk_size =
      (z.node q).chunk_size := fun z q => (contenido_congr contenido_reparar).2.1
  refine ⟨?_, ?_, ?_, fun q => sin_tamano_unir_posterior.trans (h.sin_tamano q)⟩
  · rw [List.head?_append, h.cabeza, Option.some_or]
  · have hsize := (unir_posterior_eq hne hnext).chunk_absorbente
    rw [hsame, hsame, hsame] at hsize
    rw [hsize, h.tamano, (contenido_congr (h.otras b hb)).2.1]
    simp
  · intro q hq
    have hqb : q ≠ b := by
      rintro rfl
      exact hq (by simp)
    have hqm : q ∉ m := fun hin => hq (List.mem_append_left _ hin)
    have hqi : q ≠ i := by
      rintro rfl
      exact hqm h.mem
    rw [contenido_unir_posterior hqb hqi, h.otras q hqm]

end Junta

/-- A turn of the first loop ends it, or joins the element before. -/
theorem Atras.turno (h : Atras d w r v l (x, i)) (hl : l.Nodup)
    (hw : ∀ p ∈ w.getLast?, (d.node p).ocupado = true)
    (hr : ∀ p ∈ r, (d.node p).ocupado = false) :
    (r = [] ∧ unir_anteriores (x, i) = .ok (.inr (x, i))) ∨
    ∃ r' a, r = r' ++ [a] ∧ unir_anteriores (x, i) = .ok (.inl (unir_anterior x i a, a)) ∧
      Atras d w r' v l (unir_anterior x i a, a) := by
  obtain ⟨⟨ps, hlist⟩, m, hall, hj⟩ := h
  unfold unir_anteriores
  dsimp only at hlist hj ⊢
  rcases List.eq_nil_or_concat r with rfl | ⟨r', a, rfl⟩
  · refine Or.inl ⟨rfl, ?_⟩
    rw [List.nil_append] at hlist
    rw [hlist.dlist.prev_eq]
    cases hlast : w.getLast? with
    | none => rfl
    | some p => simp [hj.ocupado, hw p hlast]
  · right
    rw [List.concat_eq_append] at *
    have hlist' : Listas x ((w ++ r') ++ a :: i :: v) ps := by simpa using hlist
    have ha : a ∉ m := by
      have hnodup := hl
      rw [← hall] at hnodup
      have hdisj := (List.nodup_append'.mp (List.nodup_append'.mp hnodup).2.1).2.2
      intro hin
      exact hdisj (a := a) (by simp) (by simp [hin])
    have hne : a ≠ i := by
      rintro rfl
      exact ha hj.mem
    refine ⟨r', a, rfl, ?_, ⟨_, by simpa using hlist'.absorber (unir_anterior_eq hne)⟩, a :: m, ?_,
      hj.antes ha⟩
    · obtain ⟨-, -, -, -, -, -, -, hprev, -⟩ := hlist'.places
      simp [hprev, hj.ocupado, hr a (by simp)]
    · rw [← hall]
      simp

theorem Atras.loop (h : Atras d w r v l (x, i)) (hl : l.Nodup)
    (hw : ∀ p ∈ w.getLast?, (d.node p).ocupado = true)
    (hr : ∀ p ∈ r, (d.node p).ocupado = false) :
    ∃ s, LaLiga.Lib.loop .no_termina unir_anteriores x.turns (x, i) = .ok s ∧
      Atras d w [] v l s := by
  obtain ⟨ps, hlist⟩ := h.listas
  have hlen := hlist.length_lt_turns
  refine loop_bound
    (I := fun k s => ∃ r, r.length = k ∧ (∀ p ∈ r, (d.node p).ocupado = false) ∧ Atras d w r v l s)
    (R := fun o => ∃ s, o = .ok s ∧ Atras d w [] v l s) ?_ ?_ ?_ _ r.length _ ⟨r, rfl, hr, h⟩ ?_
  · rintro k ⟨x, i⟩ f ⟨r, -, hfree, hs⟩ herror
    rcases hs.turno hl hw hfree with ⟨-, hok⟩ | ⟨r', a, -, hok, -⟩
    · rw [herror] at hok
      exact absurd hok (by simp)
    · rw [herror] at hok
      exact absurd hok (by simp)
  · rintro k ⟨x, i⟩ y ⟨r, rfl, hfree, hs⟩ hturn
    rcases hs.turno hl hw hfree with ⟨-, hok⟩ | ⟨r', a, rfl, hok, hs'⟩
    · rw [hturn] at hok
      exact absurd hok (by simp)
    · rw [hturn] at hok
      obtain rfl := Sum.inl.inj (Except.ok.inj hok)
      exact ⟨r'.length, by simp, r', rfl, fun p hp => hfree p (by simp [hp]), hs'⟩
  · rintro k ⟨x, i⟩ y ⟨r, -, hfree, hs⟩ hturn
    rcases hs.turno hl hw hfree with ⟨rfl, hok⟩ | ⟨r', a, -, hok, -⟩
    · rw [hturn] at hok
      obtain rfl := Sum.inr.inj (Except.ok.inj hok)
      exact ⟨_, rfl, hs⟩
    · rw [hturn] at hok
      exact absurd hok (by simp)
  · dsimp only at hlen
    simp only [List.length_append, List.length_cons] at hlen
    omega

theorem Adelante.next (h : Adelante d w i s₀ s t l x) : (x.node i).next = (s ++ t).head? := by
  obtain ⟨ps, hlist⟩ := h.listas
  rw [← next_reparar]
  exact hlist.dlist.next_eq

/-- A turn of the second loop ends it, or joins the element behind. -/
theorem Adelante.turno (h : Adelante d w i s₀ s t l x) (hl : l.Nodup) (hs₀ : s.length ≤ s₀.length)
    (hs : ∀ p ∈ s, (d.node p).ocupado = false)
    (ht : ∀ p ∈ t.head?, (d.node p).ocupado = true) :
    (s = [] ∧ unir_posteriores i x = .ok (.inr x)) ∨
    ∃ b s', s = b :: s' ∧ unir_posteriores i x = .ok (.inl (unir_posterior x i b)) ∧
      Adelante d w i s₀ s' t l (unir_posterior x i b) := by
  have hnext := h.next
  obtain ⟨⟨ps, hlist⟩, ⟨m, hall, hj⟩, -⟩ := h
  unfold unir_posteriores
  cases s with
  | nil =>
    refine Or.inl ⟨rfl, ?_⟩
    rw [hnext, List.nil_append]
    cases hhead : t.head? with
    | none => rfl
    | some p => simp [hj.ocupado, ht p hhead]
  | cons b s' =>
    right
    have hnext' : (x.node i).next = some b := by simpa using hnext
    have hb : b ∉ m := by
      have hnodup := hl
      rw [← hall] at hnodup
      have hdisj := (List.nodup_append'.mp (List.nodup_append'.mp hnodup).2.1).2.2
      exact fun hin => hdisj hin (by simp)
    have hne : i ≠ b := by
      rintro rfl
      exact hb hj.mem
    refine ⟨b, s', rfl, ?_, ⟨_, hlist.absorber (unir_posterior_eq hne hnext')⟩, ⟨m ++ [b], ?_,
      hj.despues hb hnext'⟩, ?_⟩
    · simp [hnext', hj.ocupado, hs b (by simp)]
    · rw [← hall]
      simp
    · intro heq
      rw [← heq] at hs₀
      simp at hs₀

theorem Adelante.loop (h : Adelante d w i s₀ s t l x) (hl : l.Nodup)
    (hs₀ : s.length ≤ s₀.length) (hs : ∀ p ∈ s, (d.node p).ocupado = false)
    (ht : ∀ p ∈ t.head?, (d.node p).ocupado = true) :
    ∃ y, LaLiga.Lib.loop .no_termina (unir_posteriores i) x.turns x = .ok y ∧
      Adelante d w i s₀ [] t l y := by
  obtain ⟨ps, hlist⟩ := h.listas
  have hlen := hlist.length_lt_turns
  have hturns : (reparar x i).turns = x.turns := by simp [turns, reparar]
  refine loop_bound
    (I := fun k y => ∃ s, s.length = k ∧ s.length ≤ s₀.length ∧
      (∀ p ∈ s, (d.node p).ocupado = false) ∧ Adelante d w i s₀ s t l y)
    (R := fun o => ∃ y, o = .ok y ∧ Adelante d w i s₀ [] t l y) ?_ ?_ ?_ _ s.length _
    ⟨s, rfl, hs₀, hs, h⟩ ?_
  · rintro k x f ⟨s, -, hle, hfree, hx⟩ herror
    rcases hx.turno hl hle hfree ht with ⟨-, hok⟩ | ⟨b, s', -, hok, -⟩
    · rw [herror] at hok
      exact absurd hok (by simp)
    · rw [herror] at hok
      exact absurd hok (by simp)
  · rintro k x y ⟨s, rfl, hle, hfree, hx⟩ hturn
    rcases hx.turno hl hle hfree ht with ⟨-, hok⟩ | ⟨b, s', rfl, hok, hx'⟩
    · rw [hturn] at hok
      exact absurd hok (by simp)
    · rw [hturn] at hok
      obtain rfl := Sum.inl.inj (Except.ok.inj hok)
      simp only [List.length_cons] at hle
      exact ⟨s'.length, by simp, s', rfl, by omega, fun p hp => hfree p (by simp [hp]), hx'⟩
  · rintro k x y ⟨s, -, hle, hfree, hx⟩ hturn
    rcases hx.turno hl hle hfree ht with ⟨rfl, hok⟩ | ⟨b, s', -, hok, -⟩
    · rw [hturn] at hok
      obtain rfl := Sum.inr.inj (Except.ok.inj hok)
      exact ⟨_, rfl, hx⟩
    · rw [hturn] at hok
      exact absurd hok (by simp)
  · simp only [List.length_append, List.length_cons] at hlen
    omega

/-- A release puts one element in the place of the unoccupied ones around it. The list is one in
both directions only when nothing behind it was joined, or nothing is left there. -/
theorem diccionario_eliminar_junta (hv : Vecinas d w r it s t ps) :
    ∃ e i qs, diccionario_eliminar d it = .ok (e, i) ∧ Listas (reparar e i) (w ++ i :: t) qs ∧
      Junta (d.limpiar it) (r ++ it :: s) i e ∧ (s = [] ∨ t = [] → reparar e i = e) := by
  have hnodup := hv.listas.dlist.nodup
  have hsame : ∀ p ∈ (w ++ r) ++ (s ++ t), ((d.limpiar it).node p).ocupado = (d.node p).ocupado :=
    fun p hp => by rw [hv.otros p hp]
  have hstart : Atras (d.limpiar it) w r (s ++ t) (w ++ (r ++ it :: (s ++ t)))
      (d.limpiar it, it) := by
    refine ⟨⟨ps, ?_⟩, [it], rfl, .inicial⟩
    exact hv.listas.congr (fun q => by simp only [limpiar, node_modificar]; split_ifs <;> rfl)
      (fun q _ => by simp only [limpiar, node_modificar]; split_ifs <;> rfl) rfl rfl rfl
  obtain ⟨⟨x, i⟩, hloop, hback⟩ := hstart.loop hnodup
    (fun p hp => by rw [hsame p (by simp [List.mem_of_getLast? hp]), hv.antes p hp])
    (fun p hp => by rw [hsame p (by simp [hp]), hv.anteriores p hp])
  obtain ⟨⟨ps₁, hlist⟩, m, hall, hj⟩ := hback
  rw [List.nil_append] at hlist hall
  have hwhole : reparar x i = x := by
    refine reparar_eq fun q hq => ?_
    have hmem : q ∈ w ++ i :: (s ++ t) := by
      rw [hlist.dlist.next_eq] at hq
      simp [List.mem_of_head? hq]
    exact (hlist.dlist.inverse (by simp) hmem).mp hq
  have hforward : Adelante (d.limpiar it) w i s s t (w ++ (r ++ it :: (s ++ t))) x :=
    ⟨⟨ps₁, by rwa [hwhole]⟩, ⟨m, hall, hj⟩, fun _ => hwhole⟩
  obtain ⟨e, hloop', hend⟩ := hforward.loop hnodup le_rfl
    (fun p hp => by rw [hsame p (by simp [hp]), hv.posteriores p hp])
    (fun p hp => by rw [hsame p (by simp [List.mem_of_head? hp]), hv.despues p hp])
  have hnext := hend.next
  obtain ⟨⟨qs, hlist'⟩, ⟨m', hall', hj'⟩, hentera⟩ := hend
  rw [List.nil_append] at hlist' hall' hnext
  obtain rfl : m' = r ++ it :: s := by
    have hcut : (w ++ m') ++ t = (w ++ (r ++ it :: s)) ++ t := by
      rw [List.append_assoc, hall']
      simp
    exact List.append_cancel_left (List.append_cancel_right hcut)
  refine ⟨e, i, qs, ?_, hlist', hj', ?_⟩
  · have hturns : (d.limpiar it).turns = d.turns := rfl
    rw [hturns] at hloop
    simp only [diccionario_eliminar, hloop, hloop']
  · rintro (rfl | rfl)
    · exact hentera rfl
    · refine reparar_eq fun q hq => ?_
      rw [hnext] at hq
      simp at hq

/-- Every element of a list has unoccupied neighbours, if any, up to the next occupied ones. -/
theorem Vecinas.de_lista (hl : Listas d l ps) (hin : it ∈ l) : ∃ w r s t, Vecinas d w r it s t ps ∧
    l = w ++ (r ++ it :: (s ++ t)) := by
  obtain ⟨u, v, rfl⟩ := List.append_of_mem hin
  have hsplit : ∀ v : List Ptr, ∃ s t, v = s ++ t ∧ (∀ p ∈ s, (d.node p).ocupado = false) ∧
      ∀ p ∈ t.head?, (d.node p).ocupado = true := by
    intro v
    refine ⟨v.takeWhile (fun p => !(d.node p).ocupado), v.dropWhile (fun p => !(d.node p).ocupado),
      List.takeWhile_append_dropWhile.symm, ?_, ?_⟩
    · intro p hp
      have := List.all_eq_true.mp List.all_takeWhile p hp
      simpa using this
    · intro p hp
      have := List.head?_dropWhile_not (fun p => !(d.node p).ocupado) v
      rw [Option.mem_def.mp hp] at this
      simpa using this
  obtain ⟨s, t, rfl, hs, ht⟩ := hsplit v
  obtain ⟨r, w, hu, hr, hw⟩ := hsplit u.reverse
  have hu' : u = w.reverse ++ r.reverse := by
    rw [← List.reverse_append, ← hu, List.reverse_reverse]
  subst hu'
  refine ⟨w.reverse, r.reverse, s, t, ⟨by simpa using hl, ?_, ?_, hs, ht⟩, by simp⟩
  · intro p hp
    rw [List.getLast?_reverse] at hp
    exact hw p hp
  · intro p hp
    exact hr p (List.mem_reverse.mp hp)

end Absorcion

end LaLiga.Rc
