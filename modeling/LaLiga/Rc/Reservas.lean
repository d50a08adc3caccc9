import LaLiga.Rc.Intactas

/-! What a client has reserved while other clients make their calls. -/
namespace LaLiga.Rc

open LaLiga.Lib t_diccionario

/-- The partitions that a release of `it` joins. -/
def Alcanza (d : t_diccionario) (it p : Ptr) : Prop :=
  ∃ w r s t ps, Vecinas d w r it s t ps ∧ p ∈ r ++ it :: s

/-- The states in which a call compacts the memory. -/
inductive Compacta : t_diccionario → Operacion → t_diccionario → Prop
  | allocate {d e f : t_diccionario} {key : Nat → UInt8} {nkey nbytes : Nat} {flags : Int} :
      reemplazar ParticionesDinamicas d key nkey = .ok e → Turns (buscar_lugar nbytes) e f →
      primer_ajuste f (aux_data_size nbytes f.slab_min_size) = .ok none →
      conviene_compactar (contar_intento f) (aux_data_size nbytes f.slab_min_size) = true →
      Compacta d (.allocate key nkey nbytes flags) (contar_intento f)

/-- A call gives up the partitions that it releases, joins to these or moves. -/
def Suelta (d : t_diccionario) (c : Operacion) (p : Ptr) : Prop :=
  (∃ e it, Elimina d c e it ∧ Alcanza e it p) ∨ ∃ e, Compacta d c e ∧ ¬ Delante e p

/-- A call marks the element as stored. -/
def Publica (d : t_diccionario) (c : Operacion) (p : Ptr) : Prop :=
  ∃ item hora, c = .store item hora ∧
    diccionario_obtener d (d.node item).key (d.node item).nkey = .ok (some p)

section Calls

variable {d e f : t_diccionario} {l ps : List Ptr} {p it it' item : Ptr} {max slab n nkey aux : Nat}
  {key : Nat → UInt8} {flags : Int} {c : Operacion}

/-- A partition in use of a well formed dictionary. -/
structure Usada (max slab : Nat) (d : t_diccionario) (p : Ptr) : Prop where
  formada : Formada max slab d
  allocated : d.allocated p = true
  chunk : 0 < (d.node p).chunk_size
  uso : enUso (d.node p) = true

theorem Usada.mem (h : Usada max slab d p) (hp : Particiones d l ps) : p ∈ l :=
  hp.mem_of_chunk h.allocated h.chunk

theorem Usada.of_mem (h : Formada max slab d) (hp : Particiones d l ps) (hmem : p ∈ l)
    (hu : enUso (d.node p) = true) : Usada max slab d p :=
  ⟨h, hp.allocated hmem, hp.chunk_pos hmem, hu⟩

theorem Usada.intacta (h : Usada max slab d p) (hf : Formada max slab e) (hi : Intacta d p e) :
    Usada max slab e p := by
  refine ⟨hf, ?_, hi.chunk_size ▸ h.chunk, hi.enUso h.uso⟩
  have hsame : e.cant_max = d.cant_max :=
    Particiones.cant_max_congr (hf.2.1.trans h.formada.2.1.symm) (hf.2.2.trans h.formada.2.2.symm)
  have hall := h.allocated
  cases p with
  | element => rfl
  | slot i => simpa [t_diccionario.allocated, hsame] using hall

theorem eliminar_quieta (h : Usada max slab d p) (hs : Segura d it) (ha : ¬ Alcanza d it p)
    (hok : diccionario_eliminar d it = .ok (e, it')) :
    Formada max slab e ∧ Quieta d p e := by
  obtain ⟨e', i, he', hf⟩ := h.formada.eliminar hs
  rw [hok] at he'
  obtain ⟨rfl, -⟩ := Prod.mk.inj (Except.ok.inj he')
  obtain ⟨⟨l, ps, hp⟩, -, -⟩ := h.formada
  obtain ⟨w, r, s, t, qs, hv, hr, hs, hst⟩ := hs
  refine ⟨hf, .of_contenido ?_ (diccionario_eliminar_sin_tamano hok).2⟩
  exact diccionario_eliminar_contenido hp hv hr hs hst hok p
    fun hmem => ha ⟨w, r, s, t, qs, hv, hmem⟩

theorem intento_quieta : Quieta d p (contar_intento d) := by
  unfold contar_intento
  split_ifs
  · exact ⟨rfl, fun _ _ _ _ _ => rfl⟩
  · exact .refl

theorem Usada.intento (h : Usada max slab d p) : Usada max slab (contar_intento d) p :=
  h.intacta h.formada.intento intento_quieta.intacta

/-- Room is made without giving up `p`. -/
theorem hacer_lugar_quieta (h : Usada max slab d p)
    (hc : conviene_compactar (contar_intento d) aux = true → Delante (contar_intento d) p)
    (hs : ∀ it, conviene_compactar (contar_intento d) aux = false →
      diccionario_elegirVictima (contar_intento d) = .ok it →
      Segura (contar_intento d) it ∧ ¬ Alcanza (contar_intento d) it p)
    (hok : hacer_lugar d aux = .ok e) : Quieta d p e := by
  have hi := h.intento
  unfold hacer_lugar at hok
  simp only at hok
  split_ifs at hok with hconv
  · cases hcompact : diccionario_compactarMemoria (contar_intento d) with
    | error g => simp [hcompact] at hok
    | ok e' =>
      simp only [hcompact] at hok
      obtain rfl := Except.ok.inj hok
      obtain ⟨⟨l, ps, hp⟩, -, -⟩ := hi.formada
      have hq := diccionario_compactarMemoria_quieta hp (hc hconv) hcompact
      exact intento_quieta.trans ⟨hq.contenido, hq.bytes⟩
  · cases hv : diccionario_elegirVictima (contar_intento d) with
    | error g => simp [hv] at hok
    | ok victima =>
      simp only [hv] at hok
      obtain ⟨hsegura, hno⟩ := hs victima (by simpa using hconv) hv
      cases hel : diccionario_eliminar (contar_intento d) victima with
      | error g => simp [hel] at hok
      | ok x =>
        obtain ⟨e', i⟩ := x
        simp only [hel] at hok
        obtain rfl := Except.ok.inj hok
        exact intento_quieta.trans (eliminar_quieta hi hsegura hno hel).2

/-- The last turn of a search refuses the request or takes a partition that is free. -/
theorem buscar_lugar_inr (hp : Particiones d l ps) {r : t_diccionario × Option Ptr}
    (hok : buscar_lugar n d = .ok (.inr r)) : r = (d, none) ∨ ∃ e item aux,
      partir d item aux = .ok e ∧ enUso (d.node item) = false ∧
      r = (reservar e item n, some item) := by
  unfold buscar_lugar at hok
  by_cases hbig : aux_data_size n d.slab_min_size ≤ d.table_max_size
  swap
  · simp only [if_neg hbig] at hok
    exact Or.inl (Sum.inr.inj (Except.ok.inj hok)).symm
  right
  simp only [if_pos hbig] at hok
  obtain ⟨o, ho, hapto⟩ := primer_ajuste_eq (aux_data_size n d.slab_min_size) hp.listas
  rw [ho] at hok
  cases o with
  | none =>
    cases hroom : hacer_lugar d (aux_data_size n d.slab_min_size) <;> simp [hroom] at hok
  | some first =>
    have hbest : ∃ item, (if d.bestfit = true then
        mejor_ajuste d (aux_data_size n d.slab_min_size) first else .ok first) = .ok item ∧
        Apto d l (aux_data_size n d.slab_min_size) item := by
      split_ifs
      · exact mejor_ajuste_eq hp.listas (hapto first rfl)
      · exact ⟨first, rfl, hapto first rfl⟩
    obtain ⟨item, hbest, -, hlibre, -⟩ := hbest
    simp only [hbest] at hok
    cases hsplit : partir d item (aux_data_size n d.slab_min_size) with
    | error g => simp [hsplit] at hok
    | ok e =>
      simp only [hsplit] at hok
      exact ⟨e, item, _, hsplit, hlibre, (Sum.inr.inj (Except.ok.inj hok)).symm⟩

/-- What a partition in use has to do with the split of a free one. -/
theorem Usada.ne_libre (h : Usada max slab d p) (hlibre : enUso (d.node item) = false) :
    p ≠ item := by
  rintro rfl
  rw [h.uso] at hlibre
  exact absurd hlibre (by simp)

theorem partir_quieta (h : Usada max slab d p) (hne : p ≠ item)
    (hok : partir d item aux = .ok e) : Quieta d p e := by
  obtain ⟨⟨l, ps, hp⟩, -, -⟩ := id h.formada
  obtain ⟨hcont, hmem⟩ := partir_contenido hok
  refine .of_contenido (hcont p hne ?_) hmem
  rw [hp.listas.top]
  exact Listas.unused_ne (v := []) hp.listas (by simpa using h.mem hp)

/-- Naming the partition that is handed out. -/
theorem nombrar_quieta (hne : p ≠ item) :
    Quieta d p (nombrar (reservar d item n) item key nkey flags) :=
  .of_contenido (by simp [nombrar, reservar, hne]) rfl

theorem reemplazar_quieta (h : Usada max slab d p)
    (hs : ∀ it, diccionario_obtener d key nkey = .ok (some it) → (d.node it).ocupado = true →
      Segura d it ∧ ¬ Alcanza d it p)
    (hok : reemplazar ParticionesDinamicas d key nkey = .ok e) :
    Formada max slab e ∧ Quieta d p e := by
  rcases reemplazar_cases hok with ⟨rfl, -⟩ | ⟨it, it', hobt, hocupado, hel⟩
  · exact ⟨h.formada, .refl⟩
  · obtain ⟨hsegura, hno⟩ := hs it hobt hocupado
    exact eliminar_quieta h hsegura hno hel

/-- An allocation that does not give up `p` does not hand it out either. -/
theorem allocate_quieta {r : Option Ptr} {turnos : Nat} (h : Usada max slab d p)
    (hc : Permitida d (.allocate key nkey n flags)) (hs : ¬ Suelta d (.allocate key nkey n flags) p)
    (hok : justice_engine_allocate ParticionesDinamicas turnos d key nkey n flags = .ok (e, r)) :
    Quieta d p e ∧ r ≠ some p := by
  have hel : ∀ f it, Elimina d (.allocate key nkey n flags) f it →
      Segura f it ∧ ¬ Alcanza f it p :=
    fun f it he => ⟨hc.2 f it he, fun ha => hs (Or.inl ⟨f, it, he, ha⟩)⟩
  have hcompact : ∀ f, Compacta d (.allocate key nkey n flags) f → Delante f p := by
    intro f hf
    by_contra hno
    exact hs (Or.inr ⟨f, hf, hno⟩)
  obtain ⟨d₁, d₂, hree, hsearch, hcase⟩ := allocate_inv hok
  obtain ⟨hf₁, hq₁⟩ :=
    reemplazar_quieta h (fun it hobt hocupado => hel d it (.reemplazo hobt hocupado)) hree
  have hstep : ∀ f g, Turns (buscar_lugar n) d₁ f → (Formada max slab f ∧ Quieta d p f) →
      buscar_lugar n f = .ok (.inl g) → Formada max slab g ∧ Quieta d p g := by
    rintro f g hturns ⟨hf, hq⟩ hturn
    have hu := h.intacta hf hq.intacta
    obtain ⟨⟨l, ps, hp⟩, -, -⟩ := id hf
    rcases buscar_lugar_cases hp n with hno | ⟨hnone, -, hmake⟩ | ⟨e', item', -, -, hyes, -⟩
    · rw [hturn] at hno
      exact absurd hno (by simp)
    · have hroom := hmake g hturn
      refine ⟨hf.hacer_lugar ?_ hroom, hq.trans (hacer_lugar_quieta hu ?_ ?_ hroom)⟩
      · exact fun it hconv hv => (hel _ it (.victima hree hturns hnone hconv hv)).1
      · exact fun hconv => hcompact _ (.allocate hree hturns hnone hconv)
      · exact fun it hconv hv => hel _ it (.victima hree hturns hnone hconv hv)
    · rw [hturn] at hyes
      exact absurd hyes (by simp)
  obtain ⟨f, -, ⟨hf, hq⟩, hlast⟩ := loop_turns hstep ⟨hf₁, hq₁⟩ turnos hsearch
  have hu := h.intacta hf hq.intacta
  obtain ⟨⟨l, ps, hp⟩, -, -⟩ := id hf
  rcases buscar_lugar_inr hp hlast with hno | ⟨g, item, aux, hsplit, hlibre, hyes⟩
  · obtain ⟨rfl, rfl⟩ := Prod.mk.inj hno
    rcases hcase with ⟨-, rfl⟩ | ⟨it, hit, -⟩
    · exact ⟨hq, by simp⟩
    · exact absurd hit (by simp)
  · obtain ⟨rfl, rfl⟩ := Prod.mk.inj hyes
    rcases hcase with ⟨hnone, -⟩ | ⟨it, hit, -, rfl⟩
    · exact absurd hnone (by simp)
    · obtain rfl := Option.some.inj hit
      have hne := hu.ne_libre hlibre
      exact ⟨(hq.trans (partir_quieta hu hne hsplit)).trans (nombrar_quieta hne),
        by simpa using hne.symm⟩

theorem flush_quieta {turnos : Nat} (h : Usada max slab d p) (hc : Permitida d .flush)
    (hs : ¬ Suelta d .flush p)
    (hok : justice_engine_flush ParticionesDinamicas turnos d = .ok e) : Quieta d p e := by
  have hstep : ∀ x y : t_diccionario × Option Ptr,
      Turns (limpiar_turno ParticionesDinamicas) (d, d.elements) x →
      (Formada max slab x.1 ∧ Quieta d p x.1) →
      limpiar_turno ParticionesDinamicas x = .ok (.inl y) →
      Formada max slab y.1 ∧ Quieta d p y.1 := by
    rintro ⟨f, o⟩ ⟨g, o'⟩ hturns ⟨hf, hq⟩ hturn
    cases o with
    | none => simp [limpiar_turno] at hturn
    | some item =>
      rcases limpiar_turno_inl hturn with ⟨-, rfl, -⟩ | ⟨it', hnkey, hel, -⟩
      · exact ⟨hf, hq⟩
      · have he : Elimina d .flush f item := .flush hturns hnkey
        obtain ⟨hf', hq'⟩ := eliminar_quieta (h.intacta hf hq.intacta) (hc.2 f item he)
          (fun ha => hs (Or.inl ⟨f, item, he, ha⟩)) hel
        exact ⟨hf', hq.trans hq'⟩
  obtain ⟨s, -, ⟨hf, hq⟩, hlast⟩ := loop_turns hstep ⟨h.formada, .refl⟩ turnos hok
  obtain rfl := limpiar_turno_inr hlast
  exact hq

/-- Fields of an element that a call other than `store` and `get` leaves alone. -/
theorem Quieta.efecto (h : Quieta d p e) :
    Intacta d p e ∧ (¬ Publica d c p → (e.node p).ocupado = (d.node p).ocupado) :=
  ⟨h.intacta, fun _ => h.ocupado⟩

/-- `store` marks an element and dates it. -/
theorem store_intacta {hora : Int} {r : Bool}
    (hok : justice_engine_store d item hora = .ok (e, r)) :
    Intacta d p e ∧ (¬ Publica d (.store item hora) p →
      (e.node p).ocupado = (d.node p).ocupado) := by
  rcases store_cases hok with ⟨rfl, -⟩ | ⟨it, hobt, -, rfl⟩
  · exact Quieta.refl.efecto
  · by_cases hit : p = it
    · subst hit
      refine ⟨⟨by simp [t_dict_element.ficha], by simp, fun _ _ _ _ _ => rfl⟩, ?_⟩
      exact fun hno => absurd ⟨item, hora, rfl, hobt⟩ hno
    · exact Quieta.efecto (.of_contenido (by simp [hit]) rfl)

/-- `get` dates an element at most. -/
theorem get_intacta {hora : Int} {r : Option Ptr}
    (hok : justice_engine_get d key nkey hora = .ok (e, r)) :
    Intacta d p e ∧ (¬ Publica d (.get key nkey hora) p →
      (e.node p).ocupado = (d.node p).ocupado) := by
  rcases get_cases hok with ⟨rfl, -⟩ | ⟨it, -, -, -, rfl | rfl⟩
  · exact Quieta.refl.efecto
  · exact Quieta.refl.efecto
  · by_cases hit : p = it
    · subst hit
      exact ⟨⟨by simp [t_dict_element.ficha], by simp, fun _ _ _ _ _ => rfl⟩, by simp⟩
    · exact Quieta.efecto (.of_contenido (by simp [hit]) rfl)

/-- A call leaves alone what it does not give up, and only `store` may mark it. -/
theorem ejecuta_intacta (h : Usada max slab d p) (hc : Permitida d c) (hs : ¬ Suelta d c p)
    (hok : Ejecuta ParticionesDinamicas d c e) :
    Intacta d p e ∧ (¬ Publica d c p → (e.node p).ocupado = (d.node p).ocupado) := by
  obtain ⟨turnos, hok⟩ := hok
  cases c with
  | allocate key nkey nbytes flags =>
    obtain ⟨r, hok⟩ := exists_of_map_fst hok
    exact (allocate_quieta h hc hs hok).1.efecto
  | store item hora =>
    obtain ⟨r, hok⟩ := exists_of_map_fst hok
    exact store_intacta hok
  | release item =>
    simp only [ejecutar, justice_engine_item_release] at hok
    split_ifs at hok with hocupado
    · obtain rfl := Except.ok.inj hok
      exact Quieta.refl.efecto
    · have he : Elimina d (.release item) d item := .release (by simpa using hocupado)
      cases hel : diccionario_eliminar d item with
      | error g => simp [hel] at hok
      | ok x =>
        obtain ⟨e', i⟩ := x
        simp only [hel] at hok
        obtain rfl := Except.ok.inj hok
        exact (eliminar_quieta h (hc.2 d item he)
          (fun ha => hs (Or.inl ⟨d, item, he, ha⟩)) hel).2.efecto
  | get key nkey hora =>
    obtain ⟨r, hok⟩ := exists_of_map_fst hok
    exact get_intacta hok
  | remove key nkey =>
    obtain ⟨r, hok⟩ := exists_of_map_fst hok
    rcases item_delete_cases hok with ⟨rfl, -⟩ | ⟨it, it', hobt, -, hel⟩
    · exact Quieta.refl.efecto
    · exact (eliminar_quieta h (hc.2 d it (.remove hobt))
        (fun ha => hs (Or.inl ⟨d, it, .remove hobt, ha⟩)) hel).2.efecto
  | flush => exact (flush_quieta h hc hs hok).efecto

end Calls

/-- The key of the element, as `diccionario_obtener` compares it. -/
def MismaClave (d : t_diccionario) (p : Ptr) (key : Nat → UInt8) (nkey : Nat) : Prop :=
  (d.node p).nkey = nkey ∧ ∀ i < nkey, (d.node p).key i = key i

/-- A call by the key of the element, or by the element itself. -/
def Usa (d : t_diccionario) (p : Ptr) : Operacion → Prop
  | .allocate key nkey _ _ | .get key nkey _ | .remove key nkey => MismaClave d p key nkey
  | .store item _ => MismaClave d p (d.node item).key (d.node item).nkey
  | .release item => item = p
  | .flush => True

/-- A call of another client that gives up nothing of `p`. -/
def Respeta (p : Ptr) (d : t_diccionario) (c : Operacion) : Prop :=
  ¬ Usa d p c ∧ Permitida d c ∧ ¬ Suelta d c p

/-- What is handed out is a partition with the key and the size asked for, reserved. -/
structure Entregada (d : t_diccionario) (p : Ptr) (key : Nat → UInt8) (nkey nbytes : Nat)
    (flags : Int) : Prop where
  clave : MismaClave d p key nkey
  data_size : (d.node p).data_size = nbytes
  flags : (d.node p).flags = flags
  reservado : (d.node p).ocupado = false

/-- What was handed out at `d` still is as it was, and its bytes are in no other partition. -/
structure Protegida (d e : t_diccionario) (p : Ptr) (key : Nat → UInt8) (nkey nbytes : Nat)
    (flags : Int) : Prop where
  entregada : Entregada e p key nkey nbytes flags
  data : (e.node p).data = (d.node p).data
  chunk_size : (e.node p).chunk_size = (d.node p).chunk_size
  cabe : nbytes ≤ (e.node p).chunk_size
  ajena : ∃ l ps, Representacion e l ps ∧ p ∈ l ∧ ∀ q ∈ l, q ≠ p → ∀ a b,
    (e.node p).data = some a → (e.node q).data = some b →
    a + (e.node p).chunk_size ≤ b ∨ b + (e.node q).chunk_size ≤ a

section Reserva

variable {d₀ d e : t_diccionario} {l ps : List Ptr} {p : Ptr} {max slab nkey nbytes turnos : Nat}
  {key : Nat → UInt8} {flags : Int} {c : Operacion} {cs : List Operacion}

theorem diccionario_obtener_clave (hp : Particiones d l ps)
    (hok : diccionario_obtener d key nkey = .ok (some p)) : MismaClave d p key nkey := by
  unfold diccionario_obtener at hok
  rw [buscar_eq hp.listas.dlist.next hp.listas.head
    (Nat.lt_succ_iff.mp hp.listas.length_lt_turns)] at hok
  have := List.find?_some (Except.ok.inj hok)
  simp only [Bool.and_eq_true, beq_iff_eq, List.all_eq_true, List.mem_range] at this
  exact ⟨this.1.2, this.2⟩

theorem Entregada.uso (h : Entregada d p key nkey nbytes flags) (hpos : nkey ≠ 0) :
    enUso (d.node p) = true := by
  simp [enUso, estaReservado, h.reservado, h.clave.1, hpos]

theorem entregada_nombrar {n : Nat} (hlibre : enUso (d.node p) = false) :
    Entregada (nombrar (reservar d p n) p key nkey flags) p key nkey n flags := by
  obtain ⟨hocupado, -⟩ := enUso_eq_false.mp hlibre
  refine ⟨⟨by simp [nombrar], ?_⟩, by simp [nombrar, reservar], by simp [nombrar], ?_⟩
  · intro i hi
    simp only [nombrar, node_modificar, if_true]
    exact if_pos (by omega)
  · simpa [nombrar, reservar] using hocupado

theorem allocate_entregada (h : Formada max slab d₀)
    (hc : Permitida d₀ (.allocate key nkey nbytes flags))
    (hok : justice_engine_allocate ParticionesDinamicas turnos d₀ key nkey nbytes flags =
      .ok (d, some p)) : Usada max slab d p ∧ Entregada d p key nkey nbytes flags := by
  have hf := h.allocate hc hok
  rcases allocate_cases h hc hok with
    ⟨hno, -⟩ | ⟨g, item, l, ps, heq, hp, hmem, hempty, hlibre, hfits, -, -, rfl⟩
  · cases hno
  obtain rfl := Option.some.inj heq
  have hpos := hc.1.1
  have hp' : Particiones (nombrar (reservar g p nbytes) p key nkey flags) l ps :=
    hp.asignar hmem hempty hfits hpos
  have he : Entregada (nombrar (reservar g p nbytes) p key nkey flags) p key nkey nbytes flags :=
    entregada_nombrar hlibre
  exact ⟨.of_mem hf hp' hmem (he.uso (by omega)), he⟩

theorem Entregada.intacta (h : Entregada d p key nkey nbytes flags) (hi : Intacta d p e)
    (ho : (e.node p).ocupado = (d.node p).ocupado) : Entregada e p key nkey nbytes flags := by
  refine ⟨⟨hi.nkey.trans h.clave.1, ?_⟩, ?_, ?_, ho.trans h.reservado⟩
  · rw [hi.igual t_dict_element.key fun _ => rfl]
    exact h.clave.2
  · exact (hi.igual t_dict_element.data_size fun _ => rfl).trans h.data_size
  · exact (hi.igual t_dict_element.flags fun _ => rfl).trans h.flags

/-- A call of another client leaves the reservation as it was. -/
theorem respeta_step (h : Usada max slab d p)
    (hs : Guarded (Respeta p) (Ejecuta ParticionesDinamicas) d c e) :
    Usada max slab e p ∧ Intacta d p e ∧ (e.node p).ocupado = (d.node p).ocupado := by
  obtain ⟨⟨husa, hc, hno⟩, hok⟩ := hs
  obtain ⟨hi, hocupado⟩ := ejecuta_intacta h hc hno hok
  refine ⟨h.intacta (formada_step h.formada ⟨hc, hok⟩) hi, hi, hocupado ?_⟩
  rintro ⟨item, hora, rfl, hobt⟩
  obtain ⟨⟨l, ps, hp⟩, -, -⟩ := h.formada
  exact husa (diccionario_obtener_clave hp hobt)

theorem respeta_trace (h : Usada max slab d p)
    (hx : Trace (Guarded (Respeta p) (Ejecuta ParticionesDinamicas)) d cs e) :
    Usada max slab e p ∧ Intacta d p e ∧ (e.node p).ocupado = (d.node p).ocupado := by
  induction hx with
  | refl => exact ⟨h, .refl, rfl⟩
  | stepL hs _ ih =>
    obtain ⟨hu, hi, ho⟩ := respeta_step h hs
    obtain ⟨hu', hi', ho'⟩ := ih hu
    exact ⟨hu', hi.trans hi', ho'.trans ho⟩

end Reserva

/-- While the calls of the others give up nothing of it, what was handed out stays reserved,
where it was, and apart from every other partition. -/
theorem reserva_intacta {d₀ d e : t_diccionario} {p : Ptr} {max slab nkey nbytes turnos : Nat}
    {key : Nat → UInt8} {flags : Int} {cs : List Operacion}
    (h : Reachable (Creada max slab) (Guarded Permitida (Ejecuta ParticionesDinamicas)) d₀)
    (hc : Permitida d₀ (.allocate key nkey nbytes flags))
    (hok : justice_engine_allocate ParticionesDinamicas turnos d₀ key nkey nbytes flags =
      .ok (d, some p))
    (hx : Trace (Guarded (Respeta p) (Ejecuta ParticionesDinamicas)) d cs e) :
    Protegida d e p key nkey nbytes flags := by
  have hf := h.invariant (fun _ => formada_creada) fun _ _ _ hd hstep => formada_step hd hstep
  obtain ⟨hu, hentregada⟩ := allocate_entregada hf hc hok
  obtain ⟨hu', hi, hocupado⟩ := respeta_trace hu hx
  obtain ⟨⟨l, ps, hp⟩, -, -⟩ := id hu'.formada
  have hmem := hu'.mem hp
  have he := hentregada.intacta hi hocupado
  refine ⟨he, hi.data, hi.chunk_size, he.data_size ▸ hp.cabe p hmem, l, _, hp.representacion,
    hmem, ?_⟩
  intro q hq hne a b ha hb
  exact hp.tiles.disjoint hmem hq hne.symm ha hb

/-- Another client asks for a key that is not there. -/
theorem reserva_intacta_consulta : ∃ d e,
    justice_engine_allocate ParticionesDinamicas 1 (diccionario_crear default 40 4) (fun _ => 97)
      1 4 0 = .ok (d, some .element) ∧
    Ejecuta ParticionesDinamicas d (.get (fun _ => 98) 1 5) e ∧
      Protegida d e .element (fun _ => 97) 1 4 0 := by
  obtain ⟨d, hd, hget, hkey⟩ : ∃ d,
      justice_engine_allocate ParticionesDinamicas 1 (diccionario_crear default 40 4) (fun _ => 97)
        1 4 0 = .ok (d, some .element) ∧
      ejecutar ParticionesDinamicas 0 d (.get (fun _ => 98) 1 5) = .ok d ∧
      (d.node .element).key 0 = 97 := ⟨_, rfl, rfl, rfl⟩
  have hrespeta : Respeta .element d (.get (fun _ => 98) 1 5) := by
    refine ⟨fun hclave => ?_, ⟨trivial, fun f it he => by cases he⟩, ?_⟩
    · have h98 := hclave.2 0 (by decide)
      rw [hkey] at h98
      exact absurd h98 (by decide)
    · rintro (⟨f, it, he, -⟩ | ⟨f, hf, -⟩)
      · cases he
      · cases hf
  exact ⟨d, d, hd, ⟨0, hget⟩, reserva_intacta (reachable_init creada_cuarenta) permitida_primera hd
    (.single ⟨hrespeta, 0, hget⟩)⟩

/-- The first client releases its own item, and with it the one of the second. -/
theorem reserva_perdida : ∃ d₀ d e p turnos,
    Reachable (Creada 40 4) (Ejecuta ParticionesDinamicas) d₀ ∧
    justice_engine_allocate ParticionesDinamicas turnos d₀ (fun _ => 97) 1 4 0 = .ok (d, some p) ∧
    ¬ Usa d p (.release .element) ∧ Ejecuta ParticionesDinamicas d (.release .element) e ∧
    ¬ Protegida d e p (fun _ => 97) 1 4 0 := by
  obtain ⟨d₀, d, e, hfirst, hsecond, hrelease, hzero, hfour⟩ : ∃ d₀ d e,
      correr ParticionesDinamicas 1 (diccionario_crear default 40 4)
        [.allocate (fun _ => 98) 1 4 0] = .ok d₀ ∧
      justice_engine_allocate ParticionesDinamicas 1 d₀ (fun _ => 97) 1 4 0 =
        .ok (d, some (.slot 0)) ∧
      ejecutar ParticionesDinamicas 0 d (.release .element) = .ok e ∧
      (e.node (.slot 0)).chunk_size = 0 ∧ (d.node (.slot 0)).chunk_size = 4 :=
    ⟨_, _, _, rfl, rfl, rfl, rfl, rfl⟩
  refine ⟨d₀, d, e, .slot 0, 1, ⟨_, _, creada_cuarenta, correr_trace hfirst⟩, hsecond, ?_,
    ⟨0, hrelease⟩, ?_⟩
  · simp [Usa]
  · intro h
    have := h.chunk_size
    omega

end LaLiga.Rc
