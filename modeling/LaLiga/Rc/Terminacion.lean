import LaLiga.Rc.Conveniencia
import LaLiga.Rc.Suficiencia

/-! When the search for a partition ends. -/
namespace LaLiga.Rc

open LaLiga.Lib t_diccionario

/-- What is left of it in the course of a search: a compaction may leave a key in the free
partition behind the stored ones. -/
structure Sana (d : t_diccionario) (l : List Ptr) : Prop where
  fechas : ∀ p ∈ l, (d.node p).ocupado = true ↔ (d.node p).hour ≠ 0
  separadas : l.IsChain (fun p q => (d.node p).ocupado = true ∨ (d.node q).ocupado = true)
  fantasma : ∀ p ∈ l, (d.node p).ocupado = false → (d.node p).nkey ≠ 0 →
    ∃ u, l = u ++ [p] ∧ u ≠ []

/-- The compaction that follows a failed search makes room for it. -/
def Encuentra (d : t_diccionario) (l : List Ptr) (aux : Nat) : Prop :=
  aux ≤ memoria_libre d l ∧ UltimaSinClave d l

/-- A turn that releases its victim safely, and whose compaction, if the search goes on from it,
moves no partition that is taken for a reserved one into the stored ones. -/
def Ordenado (n : Nat) (f : t_diccionario) : Prop :=
  let aux := aux_data_size n f.slab_min_size
  primer_ajuste f aux = .ok none →
    (conviene_compactar (contar_intento f) aux = true → ∀ l ps, Particiones f l ps →
      Encuentra f l aux ∨ f.frecuenciaCompactacion = 0 ∨ f.frecuenciaCompactacion = 1 ∨
        ∀ p ∈ l, estaReservado (f.node p) = false) ∧
    (conviene_compactar (contar_intento f) aux = false → ∀ it,
      diccionario_elegirVictima (contar_intento f) = .ok it → Segura (contar_intento f) it)

/-- A compaction makes no room, and is due again after the next search. -/
def Atascada (n : Nat) (f : t_diccionario) : Prop :=
  let aux := aux_data_size n f.slab_min_size
  primer_ajuste f aux = .ok none ∧ conviene_compactar (contar_intento f) aux = true ∧
    (f.frecuenciaCompactacion = 0 ∨ f.frecuenciaCompactacion = 1) ∧
    ∃ l ps, Particiones f l ps ∧ ¬ Encuentra f l aux

/-- A failed search is followed by a compaction if the stored bytes allow for it. -/
def espera (d : t_diccionario) : Nat :=
  if d.compactarMemoria = 0 ∨ d.compactarMemoria = 1 then 1 else 0

/-- What a turn that finds nothing makes smaller. -/
def medida (d : t_diccionario) (l : List Ptr) : Nat :=
  2 * l.countP (fun p => (d.node p).ocupado) + espera d

/-- A state of the search for `n` bytes that has at most `k` turns left. -/
def EnCurso (d : t_diccionario) (n k : Nat) (f : t_diccionario) : Prop :=
  Turns (buscar_lugar n) d f ∧ ∃ l ps, Particiones f l ps ∧
    ((∃ item, primer_ajuste f (aux_data_size n f.slab_min_size) = .ok (some item)) ∨
      Sana f l ∧ medida f l < k)

section Turnos

variable {d e f : t_diccionario} {it it' libre p : Ptr} {l l' u v w r s t ps : List Ptr}
  {aux n : Nat} {k : Int}

theorem Sana.congr (h : Sana d l) (hn : e.node = d.node) : Sana e l := by
  refine ⟨?_, ?_, ?_⟩
  · rw [hn]
    exact h.fechas
  · rw [hn]
    exact h.separadas
  · rw [hn]
    exact h.fantasma

/-- If nothing is stored, the whole memory is one free partition. -/
theorem Sana.ocupada (h : Sana d l) (hp : Particiones d l ps) (haux : aux ≤ d.table_max_size)
    (hpos : 0 < aux) (hnone : primer_ajuste d aux = .ok none) :
    ∃ p ∈ l, (d.node p).ocupado = true := by
  by_contra hno
  have hlibres : ∀ p ∈ l, (d.node p).ocupado = false := by
    intro p hmem
    by_contra ho
    exact hno ⟨p, hmem, by simpa using ho⟩
  have hend := hp.tiles.end_eq
  have huna : ∃ p, l = [p] := by
    rcases l with _ | ⟨p, _ | ⟨q, l⟩⟩
    · simp at hend
      omega
    · exact ⟨p, rfl⟩
    · rcases (List.isChain_cons_cons.mp h.separadas).1 with ho | ho
      · rw [hlibres p (by simp)] at ho
        exact absurd ho (by simp)
      · rw [hlibres q (by simp)] at ho
        exact absurd ho (by simp)
  obtain ⟨p, rfl⟩ := huna
  have hkey : (d.node p).nkey = 0 := by
    by_contra hkey
    obtain ⟨u, hu, hne⟩ := h.fantasma p (by simp) (hlibres p (by simp)) hkey
    cases u with
    | nil => exact hne rfl
    | cons q u => simp at hu
  have hapto : Apto d [p] aux p :=
    ⟨by simp, enUso_eq_false.mpr ⟨hlibres p (by simp), hkey⟩, by simp at hend; omega⟩
  obtain ⟨item, hitem⟩ := (primer_ajuste_iff hp.listas).mpr ⟨p, hapto⟩
  rw [hnone] at hitem
  simp at hitem

/-- A victim is chosen among the stored partitions. -/
theorem Sana.victima (h : Sana d l) (hp : Particiones d l ps)
    (hsome : ∃ p ∈ l, (d.node p).ocupado = true) :
    ∃ it ∈ l, diccionario_elegirVictima d = .ok it ∧ (d.node it).ocupado = true := by
  rcases diccionario_elegirVictima_eq hp.listas with ⟨-, hcero⟩ | ⟨it, hit, hok, hhour⟩
  · obtain ⟨p, hmem, ho⟩ := hsome
    exact absurd (hcero p hmem) ((h.fechas p hmem).mp ho)
  · exact ⟨it, hit, hok, (h.fechas it hit).mpr hhour⟩

/-- Only the last partition can keep a key that it does not store. -/
theorem Sana.sin_clave (h : Sana d (u ++ p :: v)) (hn : (u ++ p :: v).Nodup) (hv : v ≠ [])
    (ho : (d.node p).ocupado = false) : (d.node p).nkey = 0 := by
  by_contra hkey
  obtain ⟨u', hu', -⟩ := h.fantasma p (by simp) ho hkey
  have hlast := congrArg List.getLast? hu'
  rw [← List.singleton_append, ← List.append_assoc, List.getLast?_append_of_ne_nil _ hv,
    List.getLast?_concat] at hlast
  have hmem := List.mem_of_getLast? hlast
  exact (List.nodup_cons.mp (List.nodup_append.mp hn).2.1).1 hmem

/-- What a release leaves in the place of its partition and of those around it. -/
theorem Vecinas.vacia (hv : Vecinas d w r it s t ps) (h : Sana d (w ++ (r ++ it :: (s ++ t))))
    (hit' : it' ∈ r ++ [it]) (hok : diccionario_eliminar d it = .ok (e, it')) :
    (e.node it').ocupado = false ∧ (e.node it').hour = 0 ∧ (e.node it').nkey = 0 := by
  have hsin := (diccionario_eliminar_sin_tamano hok).1 it'
  have hocupado : (e.node it').ocupado = ((d.limpiar it).node it').ocupado :=
    (congrArg t_dict_element.ocupado hsin :)
  have hhour : (e.node it').hour = ((d.limpiar it).node it').hour :=
    (congrArg t_dict_element.hour hsin :)
  have hnkey : (e.node it').nkey = ((d.limpiar it).node it').nkey :=
    (congrArg t_dict_element.nkey hsin :)
  rw [hocupado, hhour, hnkey]
  by_cases hne : it' = it
  · subst hne
    simp [t_diccionario.limpiar]
  have hr : it' ∈ r := by
    rcases List.mem_append.mp hit' with hr | hlast
    · exact hr
    · exact absurd (List.mem_singleton.mp hlast) hne
  have hlibre := hv.anteriores it' hr
  simp only [t_diccionario.limpiar, node_modificar, if_neg hne]
  refine ⟨hlibre, ?_, ?_⟩
  · by_contra hhour
    rw [(h.fechas it' (by simp [hr])).mpr hhour] at hlibre
    exact absurd hlibre (by simp)
  · obtain ⟨a, b, rfl⟩ := List.append_of_mem hr
    have hnodup := hv.listas.dlist.nodup
    have hl : w ++ ((a ++ it' :: b) ++ it :: (s ++ t)) =
        (w ++ a) ++ it' :: (b ++ it :: (s ++ t)) := by simp
    rw [hl] at h hnodup
    exact h.sin_clave hnodup (by simp) hlibre

/-- A safe release of a stored partition leaves one partition less that is stored. -/
theorem Sana.eliminar (h : Sana d l) (hp : Particiones d l ps) (hs : Segura d it)
    (ho : (d.node it).ocupado = true) : ∃ e it' l' ps', diccionario_eliminar d it = .ok (e, it') ∧
      Particiones e l' ps' ∧ Sana e l' ∧ l'.countP (fun p => (e.node p).ocupado) <
        l.countP (fun p => (d.node p).ocupado) := by
  obtain ⟨w, r, s, t, qs, hv, hr, hs, hst⟩ := hs
  obtain rfl := hp.listas.unique hv.listas
  obtain ⟨e, it', ps', hok, hp', -, -⟩ := diccionario_eliminar_lista hp hv hr hs hst
  obtain ⟨hit', hmarco⟩ := diccionario_eliminar_marco hp hv hr hs hst hok
  obtain ⟨hlibre, hhour, hkey⟩ := hv.vacia h hit' hok
  have hnodup := hp.listas.dlist.nodup
  obtain ⟨-, hmedio, hwm⟩ := List.nodup_append'.mp hnodup
  have hsame : ∀ q ∈ w ++ t, (e.node q).contenido = (d.node q).contenido := by
    intro q hq
    apply hmarco
    intro hin
    rcases List.mem_append.mp hq with hq | hq
    · exact hwm hq (by simp at hin ⊢; tauto)
    · rw [show r ++ it :: (s ++ t) = (r ++ it :: s) ++ t by simp] at hmedio
      exact (List.nodup_append'.mp hmedio).2.2 hin hq
  have hocupado : ∀ q ∈ w ++ t, (e.node q).ocupado = (d.node q).ocupado :=
    fun q hq => (congrArg t_dict_element.ocupado (hsame q hq) :)
  have hcases : ∀ q ∈ w ++ it' :: t, q = it' ∨ q ∈ w ++ t := by
    intro q hq
    simp only [List.mem_append, List.mem_cons] at hq ⊢
    tauto
  have hinw : ∀ q ∈ w, q ∈ w ++ t := fun q hq => List.mem_append_left t hq
  have hint : ∀ q ∈ t, q ∈ w ++ t := fun q hq => List.mem_append_right w hq
  refine ⟨e, it', _, ps', hok, hp', ⟨?_, ?_, ?_⟩, ?_⟩
  · intro q hq
    rcases hcases q hq with rfl | hq
    · simp [hlibre, hhour]
    · have hh : (e.node q).hour = (d.node q).hour := (congrArg t_dict_element.hour (hsame q hq) :)
      rw [hocupado q hq, hh]
      apply h.fechas
      simp only [List.mem_append, List.mem_cons] at hq ⊢
      tauto
  · have hchain : ∀ v : List Ptr, (∀ q ∈ v, q ∈ w ++ t) →
        v.IsChain (fun p q => (d.node p).ocupado = true ∨ (d.node q).ocupado = true) →
        v.IsChain (fun p q => (e.node p).ocupado = true ∨ (e.node q).ocupado = true) := by
      intro v hv hd
      refine hd.imp_of_mem_imp fun p q hp hq hpq => ?_
      rwa [hocupado p (hv p hp), hocupado q (hv q hq)]
    have hder := h.separadas.right_of_append
    rw [show r ++ it :: (s ++ t) = (r ++ it :: s) ++ t by simp] at hder
    refine List.isChain_append.mpr
      ⟨hchain w hinw h.separadas.left_of_append, List.isChain_cons.mpr
        ⟨?_, hchain t hint hder.right_of_append⟩, ?_⟩
    · intro q hq
      right
      rw [hocupado q (List.mem_append_right _ (List.mem_of_head? hq))]
      exact hv.despues q hq
    · intro q hq _ _
      left
      rw [hocupado q (List.mem_append_left _ (List.mem_of_getLast? hq))]
      exact hv.antes q hq
  · intro q hq hlibre' hkey'
    rcases hcases q hq with rfl | hin
    · exact absurd hkey hkey'
    have hk : (e.node q).nkey = (d.node q).nkey := (congrArg t_dict_element.nkey (hsame q hin) :)
    rw [hocupado q hin] at hlibre'
    rw [hk] at hkey'
    rcases List.mem_append.mp hin with hw | ht
    · obtain ⟨a, b, rfl⟩ := List.append_of_mem hw
      rw [List.append_assoc, List.cons_append] at h hnodup
      exact absurd (h.sin_clave hnodup (by simp) hlibre') hkey'
    · obtain ⟨a, b, rfl⟩ := List.append_of_mem ht
      cases b with
      | nil => exact ⟨w ++ it' :: a, by simp, by simp⟩
      | cons c b =>
        have hl : w ++ (r ++ it :: (s ++ (a ++ q :: c :: b))) =
            (w ++ (r ++ it :: (s ++ a))) ++ q :: c :: b := by simp
        rw [hl] at h hnodup
        exact absurd (h.sin_clave hnodup (by simp) hlibre') hkey'
  · have hcount : ∀ v : List Ptr, (∀ q ∈ v, q ∈ w ++ t) →
        v.countP (fun p => (e.node p).ocupado) = v.countP (fun p => (d.node p).ocupado) :=
      fun v hv => List.countP_congr fun q hq => by rw [hocupado q (hv q hq)]
    have hcero : ∀ v : List Ptr, (∀ q ∈ v, (d.node q).ocupado = false) →
        v.countP (fun p => (d.node p).ocupado) = 0 :=
      fun v hv => List.countP_eq_zero.mpr fun q hq => by simp [hv q hq]
    simp only [List.countP_append, List.countP_cons, hcount w hinw, hcount t hint,
      hcero r hv.anteriores, hcero s hv.posteriores, hlibre, ho]
    simp

theorem uso_sin_reservas (h : ∀ p ∈ l, estaReservado (d.node p) = false) :
    ∀ p ∈ l, enUso (d.node p) = (d.node p).ocupado := by
  intro p hp
  simp [enUso, h p hp]

/-- A compaction without reserved partitions leaves what is stored in front of the rest. -/
theorem Sana.compactar (h : Sana d l) (hp : Particiones d l ps)
    (hres : ∀ p ∈ l, estaReservado (d.node p) = false) :
    ∃ e l' ps', diccionario_compactarMemoria d = .ok e ∧ Particiones e l' ps' ∧ Sana e l' ∧
      l'.countP (fun p => (e.node p).ocupado) = l.countP (fun p => (d.node p).ocupado) := by
  have huso := uso_sin_reservas hres
  by_cases hl : ∀ q ∈ l, enUso (d.node q) = true
  · exact ⟨d, l, ps, compactar_llena hp hl, hp, h, rfl⟩
  obtain ⟨u, libre, v, rfl, hu, hlibre⟩ := exists_primera_libre hl
  obtain ⟨e, -, -, hok, -⟩ := diccionario_compactarMemoria_eq hp
  obtain ⟨u', ⟨ps', hp'⟩, -, hvacante, -, hcuenta, hvigentes⟩ := compactar_corridas hp hu hlibre hok
  dsimp only [balance] at hp' hvacante hcuenta hvigentes
  have hvigente : ∀ q ∈ u ++ libre :: v, enUso (d.node q) = true → Vigente (d.node q) := by
    intro q hq hq'
    rw [huso q hq] at hq'
    exact ⟨hq', (h.fechas q hq).mp hq'⟩
  have hlibre' := enUso_eq_false.mp hlibre
  obtain ⟨hfirst, hhour⟩ := hvigentes ⟨fun q hq => hvigente q (by simp [hq]) (hu q hq), by
    by_contra hne
    rw [(h.fechas libre (by simp)).mpr hne] at hlibre'
    exact absurd hlibre'.1 (by simp), fun q hq => hvigente q (by simp [hq])⟩
  refine ⟨e, _, ps', hok, hp', ⟨?_, ?_, ?_⟩, ?_⟩
  · intro q hq
    rcases List.mem_append.mp hq with hq | hq
    · exact ⟨fun _ => (hfirst q hq).2, fun _ => (hfirst q hq).1⟩
    · obtain rfl := List.mem_singleton.mp hq
      simp [hvacante, hhour]
  · refine List.isChain_append.mpr ⟨?_, List.isChain_singleton _, ?_⟩
    · exact (List.pairwise_of_forall_mem_list fun p hp q _ => Or.inl (hfirst p hp).1).isChain
    · exact fun q hq _ _ => Or.inl (hfirst q (List.mem_of_getLast? hq)).1
  · intro q hq ho hkey
    rcases List.mem_append.mp hq with hq | hq
    · rw [(hfirst q hq).1] at ho
      exact absurd ho (by simp)
    · obtain rfl := List.mem_singleton.mp hq
      refine ⟨u', rfl, ?_⟩
      -- with nothing in use the free partition is the one that was found
      rintro rfl
      rw [nkey_compactar hok] at hkey
      have hcero : v.filter (fun q => enUso (d.node q)) = [] := by
        apply List.eq_nil_of_length_eq_zero
        rw [← List.countP_eq_length_filter]
        simp at hcuenta
        omega
      apply hkey
      simp only [ultima, hcero, List.getLast?_nil, Option.getD_none]
      exact hlibre'.2
  · have hdespues : u'.countP (fun p => (e.node p).ocupado) = u'.length :=
      List.countP_eq_length.mpr fun q hq => (hfirst q hq).1
    have hantes : u.countP (fun q => enUso (d.node q)) = u.length := List.countP_eq_length.mpr hu
    have hsame : (u ++ libre :: v).countP (fun p => (d.node p).ocupado) =
        (u ++ libre :: v).countP (fun p => enUso (d.node p)) :=
      List.countP_congr fun q hq => by rw [huso q hq]
    rw [hsame]
    simp only [List.countP_append, List.countP_cons, List.countP_nil, hdespues, hantes, hcuenta,
      hvacante, hlibre]
    simp

theorem encuentra_intento : Encuentra (contar_intento d) l aux ↔ Encuentra d l aux := by
  unfold Encuentra UltimaSinClave memoria_libre
  rw [node_intento]

theorem espera_de_conviene (h : conviene_compactar (contar_intento d) aux = true) :
    espera d = 1 := by
  simp only [conviene_compactar, Bool.and_eq_true, beq_iff_eq, contar_intento_contador] at h
  obtain ⟨hcero, -⟩ := h
  apply if_pos
  split_ifs at hcero with hpos
  · right
    omega
  · exact Or.inl hcero

/-- A turn of the search for `n` bytes that is in order and not stuck. -/
theorem Sana.turno (h : Sana d l) (hp : Particiones d l ps)
    (hmax : aux_data_size n d.slab_min_size ≤ d.table_max_size) (hord : Ordenado n d)
    (hlibre : ¬ Atascada n d) :
    (∃ r, buscar_lugar n d = .ok (.inr r)) ∨
    ∃ e l' ps', buscar_lugar n d = .ok (.inl e) ∧ Particiones e l' ps' ∧
      ((∃ item, primer_ajuste e (aux_data_size n d.slab_min_size) = .ok (some item)) ∨
        Sana e l' ∧ medida e l' < medida d l) := by
  have hpos : 0 < aux_data_size n d.slab_min_size :=
    lt_of_lt_of_le hp.slab_pos (le_aux_data_size _ _)
  rcases buscar_lugar_cases hp n with hno | ⟨hnone, -, -⟩ | ⟨e, item, -, -, hok, -⟩
  · exact Or.inl ⟨_, hno⟩
  swap
  · exact Or.inl ⟨_, hok⟩
  right
  have hturn : ∀ e, hacer_lugar d (aux_data_size n d.slab_min_size) = .ok e →
      buscar_lugar n d = .ok (.inl e) := by
    intro e he
    unfold buscar_lugar
    simp only [if_pos hmax, hnone, he]
  have hi : Sana (contar_intento d) l := h.congr node_intento
  have hpi := hp.intento
  cases hconv : conviene_compactar (contar_intento d) (aux_data_size n d.slab_min_size) with
  | true =>
    have hmake : ∀ e, diccionario_compactarMemoria (contar_intento d) = .ok e →
        hacer_lugar d (aux_data_size n d.slab_min_size) =
          .ok { e with compactarMemoria := e.frecuenciaCompactacion } := by
      intro e he
      unfold hacer_lugar
      simp only [hconv, if_true, he]
    by_cases hfind : Encuentra d l (aux_data_size n d.slab_min_size)
    · obtain ⟨e, l', ps', hok, hp', -⟩ := diccionario_compactarMemoria_eq hpi
      rw [← encuentra_intento] at hfind
      exact ⟨_, l', ps', hturn _ (hmake e hok), hp'.contador _,
        Or.inl ((compactar_encuentra_iff hpi hpos hok _).mpr hfind)⟩
    have hfrec : ¬ (d.frecuenciaCompactacion = 0 ∨ d.frecuenciaCompactacion = 1) :=
      fun hdue => hlibre ⟨hnone, hconv, hdue, l, ps, hp, hfind⟩
    have hres : ∀ p ∈ l, estaReservado (d.node p) = false := by
      rcases (hord hnone).1 hconv l ps hp with hyes | hcero | huno | hres
      · exact absurd hyes hfind
      · exact absurd (Or.inl hcero) hfrec
      · exact absurd (Or.inr huno) hfrec
      · exact hres
    obtain ⟨e, l', ps', hok, hp', hs', hcount⟩ := hi.compactar hpi (by rwa [node_intento])
    refine ⟨_, l', ps', hturn _ (hmake e hok), hp'.contador _, Or.inr ⟨hs'.congr rfl, ?_⟩⟩
    have hantes : espera d = 1 := espera_de_conviene hconv
    have hdespues : espera { e with compactarMemoria := e.frecuenciaCompactacion } = 0 := by
      have hsame : e.frecuenciaCompactacion = d.frecuenciaCompactacion :=
        fijo_frecuencia ((ajustes_fijo (ajustes_compactar hok)).trans contar_intento_fijo)
      apply if_neg
      dsimp only
      rwa [hsame]
    rw [node_intento] at hcount
    unfold medida
    dsimp only at hcount ⊢
    omega
  | false =>
    obtain ⟨it, -, hvictima, ho⟩ := hi.victima hpi (by
      obtain ⟨p, hp, ho⟩ := h.ocupada hp hmax hpos hnone
      exact ⟨p, hp, by rwa [node_intento]⟩)
    obtain ⟨e, it', l', ps', hok, hp', hs', hlt⟩ :=
      hi.eliminar hpi ((hord hnone).2 hconv it hvictima) ho
    refine ⟨e, l', ps', hturn _ ?_, hp', Or.inr ⟨hs', ?_⟩⟩
    · unfold hacer_lugar
      simp only [hconv, hvictima, hok]
      rfl
    · rw [node_intento] at hlt
      have : espera e ≤ 1 := by
        unfold espera
        split_ifs <;> omega
      unfold medida
      omega

theorem current_compactar (h : diccionario_compactarMemoria d = .ok e) :
    e.table_current_size = d.table_current_size := by
  refine compactar_igual (g := fun d => d.table_current_size) ?_ ?_ h
  · intro d a b
    simp [juntar, devolver, modificar, current_modificar?]
  · intro d a b e he
    unfold intercambiar at he
    simp only [node_modificar, if_true] at he
    split at he
    · obtain rfl := Except.ok.inj he
      rfl
    · simp at he

/-- A compaction that finds nothing leaves too little that is free. -/
theorem no_encuentra (hp : Particiones e (u ++ [p]) ps) (hu : ∀ q ∈ u, enUso (e.node q) = true)
    (hpos : 0 < aux) (hnone : primer_ajuste e aux = .ok none) : ¬ Encuentra e (u ++ [p]) aux := by
  rintro ⟨hle, -⟩
  rw [memoria_libre_append, memoria_libre_usadas hu, Nat.zero_add] at hle
  cases huso : enUso (e.node p) with
  | true =>
    rw [memoria_libre_usadas (by simpa using huso)] at hle
    omega
  | false =>
    rw [memoria_libre_libres (by simpa using huso)] at hle
    have hapto : Apto e (u ++ [p]) aux p := ⟨by simp, huso, by simpa using hle⟩
    obtain ⟨item, hitem⟩ := (primer_ajuste_iff hp.listas).mpr ⟨p, hapto⟩
    rw [hnone] at hitem
    simp at hitem

theorem conviene_otra (h : conviene_compactar (contar_intento d) aux = true)
    (hfrec : k = 0 ∨ k = 1) (hmax : e.table_max_size = d.table_max_size)
    (hcurrent : e.table_current_size = d.table_current_size) :
    conviene_compactar (contar_intento { e with compactarMemoria := k }) aux = true := by
  simp only [conviene_compactar, Bool.and_eq_true, beq_iff_eq, contar_intento_contador,
    contar_intento_current, max_intento, hmax, hcurrent] at h ⊢
  refine ⟨?_, h.2⟩
  rcases hfrec with rfl | rfl <;> rfl

/-- A search that is stuck stays so. -/
theorem Atascada.turno (h : Atascada n d)
    (hmax : aux_data_size n d.slab_min_size ≤ d.table_max_size) :
    ∃ e, buscar_lugar n d = .ok (.inl e) ∧ Atascada n e ∧ e.fijo = d.fijo := by
  obtain ⟨hnone, hconv, hfrec, l, ps, hp, hfind⟩ := h
  have hpi := hp.intento
  have hpos : 0 < aux_data_size n d.slab_min_size :=
    lt_of_lt_of_le hp.slab_pos (le_aux_data_size _ _)
  obtain ⟨e, -, -, hok, -⟩ := diccionario_compactarMemoria_eq hpi
  have hturn : buscar_lugar n d =
      .ok (.inl { e with compactarMemoria := e.frecuenciaCompactacion }) := by
    unfold buscar_lugar hacer_lugar
    simp only [if_pos hmax, hnone, hconv, if_true, hok]
  have hfijo := buscar_lugar_fijo hturn
  have hfrec' : e.frecuenciaCompactacion = d.frecuenciaCompactacion := fijo_frecuencia hfijo
  have hslab : e.slab_min_size = d.slab_min_size := fijo_slab hfijo
  have hnone' : primer_ajuste { e with compactarMemoria := e.frecuenciaCompactacion }
      (aux_data_size n d.slab_min_size) = .ok none := by
    obtain ⟨e', l', ps', hok', hp', -⟩ := diccionario_compactarMemoria_eq hpi
    obtain rfl := Except.ok.inj (hok.symm.trans hok')
    obtain ⟨r, hr, -⟩ := primer_ajuste_eq (aux_data_size n d.slab_min_size)
      (hp'.contador e.frecuenciaCompactacion).listas
    cases r with
    | none => exact hr
    | some item =>
      have hyes := (compactar_encuentra_iff hpi hpos hok _).mp ⟨item, hr⟩
      exact absurd (encuentra_intento.mp hyes) hfind
  have hleft : ∃ l' ps',
      Particiones { e with compactarMemoria := e.frecuenciaCompactacion } l' ps' ∧
      ¬ Encuentra { e with compactarMemoria := e.frecuenciaCompactacion } l'
        (aux_data_size n d.slab_min_size) := by
    by_cases hl : ∀ q ∈ l, enUso ((contar_intento d).node q) = true
    · obtain rfl := Except.ok.inj ((compactar_llena hpi hl).symm.trans hok)
      refine ⟨l, ps, hpi.contador _, fun hyes => ?_⟩
      have hle : aux_data_size n d.slab_min_size ≤ memoria_libre (contar_intento d) l := hyes.1
      rw [memoria_libre_usadas hl] at hle
      omega
    · obtain ⟨u, libre, v, rfl, hu, hlibre⟩ := exists_primera_libre hl
      obtain ⟨u', ⟨qs, hp'⟩, hused, -⟩ := compactar_corridas hpi hu hlibre hok
      exact ⟨_, qs, hp'.contador _, no_encuentra (hp'.contador _) hused hpos hnone'⟩
  have hconv' : conviene_compactar (contar_intento
      { e with compactarMemoria := e.frecuenciaCompactacion })
      (aux_data_size n d.slab_min_size) = true := by
    refine conviene_otra (k := e.frecuenciaCompactacion) hconv ?_ (fijo_max hfijo) ?_
    · rwa [hfrec']
    · rw [current_compactar hok, contar_intento_current]
  have haux : aux_data_size n e.slab_min_size = aux_data_size n d.slab_min_size := by rw [hslab]
  rw [← haux] at hnone' hconv' hleft
  rw [← hfrec'] at hfrec
  exact ⟨_, hturn, ⟨hnone', hconv', hfrec, hleft⟩, hfijo⟩

end Turnos

section Busquedas

variable {d f : t_diccionario} {p : Ptr} {l ps : List Ptr} {n slab : Nat}

/-- A search that finds a partition ends. -/
theorem buscar_lugar_encuentra {item : Ptr} (h : Particiones d l ps)
    (hitem : primer_ajuste d (aux_data_size n d.slab_min_size) = .ok (some item)) :
    ∃ r, buscar_lugar n d = .ok (.inr r) := by
  rcases buscar_lugar_cases h n with hno | ⟨hnone, -, -⟩ | ⟨e, item, -, -, hok, -⟩
  · exact ⟨_, hno⟩
  · rw [hitem] at hnone
    simp at hnone
  · exact ⟨_, hok⟩

theorem EnCurso.turno {k : Nat} (h : EnCurso d n k f)
    (hmax : aux_data_size n f.slab_min_size ≤ f.table_max_size) (hord : Ordenado n f)
    (hfree : ¬ Atascada n f) :
    (∃ r, buscar_lugar n f = .ok (.inr r)) ∨
      ∃ e, buscar_lugar n f = .ok (.inl e) ∧ ∃ j < k, EnCurso d n j e := by
  obtain ⟨hturns, l, ps, hp, ⟨item, hitem⟩ | ⟨hsana, hlt⟩⟩ := h
  · exact Or.inl (buscar_lugar_encuentra hp hitem)
  rcases hsana.turno hp hmax hord hfree with hend | ⟨e, l', ps', hturn, hp', hleft⟩
  · exact Or.inl hend
  right
  rw [← fijo_slab (buscar_lugar_fijo hturn)] at hleft
  refine ⟨e, hturn, medida f l, hlt, hturns.next hturn, l', ps', hp', hleft⟩

end Busquedas

end LaLiga.Rc
