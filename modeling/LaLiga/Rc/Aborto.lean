import LaLiga.Rc.Absorcion
import LaLiga.Rc.BuddyEnlaces
import LaLiga.Rc.Mapa

/-! A release in the buddy system of an element that was not stored, which runs the routine of the
other scheme. -/
namespace LaLiga.Rc

open LaLiga.Lib t_diccionario

/-- What a chunk of the element list shows: its place, its status and its key. -/
structure Trozo where
  data : Option Nat
  chunk_size : Nat
  ocupado : Bool
  clave : Clave
  deriving DecidableEq

def trozo (d : t_diccionario) (p : Ptr) : Trozo where
  data := (d.node p).data
  chunk_size := (d.node p).chunk_size
  ocupado := (d.node p).ocupado
  clave := clave (d.node p).key (d.node p).nkey

/-- `while (it != NULL) it = it->next;` -/
def elementos (d : t_diccionario) : Nat → Option Ptr → List Ptr
  | _, none => []
  | 0, some _ => []
  | turnos + 1, some it => it :: elementos d turnos (d.node it).next

def trozos (d : t_diccionario) : List Trozo := (elementos d d.turns d.elements).map (trozo d)

/-- What lies on either side is stored. -/
def Aislado (d : t_diccionario) (p : Ptr) : Prop :=
  (∀ q, (d.node p).prev = some q → (d.node q).ocupado = true) ∧
    ∀ q, (d.node p).next = some q → (d.node q).ocupado = true

/-- Nothing is stored under the key, and the chunk that the policy takes for `n` bytes has a
stored element or an end of the memory on either side. -/
structure Restaurable (d : t_diccionario) (key : Nat → UInt8) (nkey n : Nat) : Prop where
  sin_valor : ∀ q, diccionario_obtener d key nkey = .ok (some q) → (d.node q).ocupado = false
  aislado : ∃ l ps c, Listas d l ps ∧ ajuste d l (aux_data_size n d.slab_min_size) = some c ∧
    Aislado d c

/-- The element and the chunks around it up to the next stored ones are a block of the buddy
system; the others of it are free, and none lies behind the element unless they are the last. -/
def Cerrada (d : t_diccionario) (it : Ptr) : Prop :=
  ∃ w r s t ps k o, Vecinas d w r it s t ps ∧ (∀ p ∈ r ++ s, (d.node p).nkey = 0) ∧
    (s = [] ∨ t = []) ∧ 2 ^ k ∣ o ∧
    Tiles (fun p => (d.node p).data) (fun p => (d.node p).chunk_size) o (r ++ it :: s) (o + 2 ^ k)

/-- The calls of clients that only abort a set when this leaves a block. -/
def PermiteAborto (d : t_diccionario) (c : Operacion) : Prop :=
  Pedido c ∧ ∀ item, c = .release item → (d.node item).ocupado = true ∨ Cerrada d item

section Aborto

variable {d e f g x : t_diccionario} {l m ps qs r s t u v w : List Ptr} {i it item p q : Ptr}
  {K max slab n nkey aux turnos : Nat} {key : Nat → UInt8} {flags : Int} {c : Operacion}

theorem elementos_eq {o : Option Ptr} (h : Seg (fun p => (d.node p).next) l none)
    (ho : o = l.head?) (hlen : l.length ≤ turnos) : elementos d turnos o = l := by
  subst ho
  induction l generalizing turnos with
  | nil => cases turnos <;> rfl
  | cons p l ih =>
    cases turnos with
    | zero => simp at hlen
    | succ turnos =>
      have hnext : (d.node p).next = l.head? := by simpa using h.1
      simp only [List.head?_cons, elementos, hnext]
      rw [ih h.2 (by simpa using hlen)]

theorem Listas.trozos (h : Listas d l ps) : trozos d = l.map (trozo d) := by
  rw [LaLiga.Rc.trozos, elementos_eq h.dlist.next h.head (Nat.lt_succ_iff.mp h.length_lt_turns)]

/-- The links back are no part of it. -/
theorem trozos_reparar (h : Listas (reparar d i) l ps) : LaLiga.Rc.trozos d = l.map (trozo d) := by
  have hturns : (reparar d i).turns = d.turns := by simp [turns, reparar]
  have hlen := h.length_lt_turns
  rw [hturns] at hlen
  have hhead : d.elements = l.head? := by
    have hhead := h.head
    rwa [show (reparar d i).elements = d.elements by simp [reparar]] at hhead
  rw [LaLiga.Rc.trozos, elementos_eq (h.dlist.next.congr fun q _ => next_reparar.symm) hhead
    (Nat.lt_succ_iff.mp hlen)]

theorem trozo_congr (h : (e.node p).contenido = (d.node p).contenido) : trozo e p = trozo d p := by
  have hkey : (e.node p).key = (d.node p).key := (congrArg t_dict_element.key h :)
  have hnkey : (e.node p).nkey = (d.node p).nkey := (congrArg t_dict_element.nkey h :)
  obtain ⟨hdata, hsize, -⟩ := contenido_congr h
  have hocupado : (e.node p).ocupado = (d.node p).ocupado :=
    (congrArg t_dict_element.ocupado h :)
  simp only [trozo, hdata, hsize, hocupado, hkey, hnkey]

theorem aborto_eq (hv : Vecinas d w r it s t ps) (ho : (d.node it).ocupado = false) :
    ∃ f i qs, justice_engine_item_release d it = .ok f ∧ f.ajustes = d.ajustes ∧
      Listas (reparar f i) (w ++ i :: t) qs ∧ Junta (d.limpiar it) (r ++ it :: s) i f ∧
      (s = [] ∨ t = [] → reparar f i = f) := by
  obtain ⟨f, i, qs, hok, hlist, hj, hentera⟩ := diccionario_eliminar_junta hv
  refine ⟨f, i, qs, ?_, ajustes_eliminar hok, hlist, hj, hentera⟩
  simp [justice_engine_item_release, ho, hok]

/-- The elements that a release does not join are as they were. -/
theorem Vecinas.ajenos (hv : Vecinas d w r it s t ps)
    (hj : Junta (d.limpiar it) (r ++ it :: s) i f) :
    ∀ q ∈ w ++ t, (f.node q).contenido = (d.node q).contenido := by
  intro q hq
  have hnodup := hv.listas.dlist.nodup
  have hnot : q ∉ r ++ it :: s := by
    have hmid : (w ++ ((r ++ it :: s) ++ t)).Nodup := by simpa using hnodup
    have hw := (List.nodup_append'.mp hmid).2.2
    have ht := (List.nodup_append'.mp (List.nodup_append'.mp hmid).2.1).2.2
    rcases List.mem_append.mp hq with hq | hq
    · exact fun hin => hw hq (List.mem_append_left _ hin)
    · exact fun hin => ht hin hq
  rw [hj.otras q hnot, hv.otros q]
  simp only [List.mem_append] at hq ⊢
  tauto

theorem Vecinas.trozos_aborto (hv : Vecinas d w r it s t ps)
    (hj : Junta (d.limpiar it) (r ++ it :: s) i f) (hlist : Listas (reparar f i) (w ++ i :: t) qs) :
    LaLiga.Rc.trozos f = w.map (trozo d) ++ trozo f i :: t.map (trozo d) := by
  have hsame := hv.ajenos hj
  rw [trozos_reparar hlist, List.map_append, List.map_cons]
  congr 1
  · exact List.map_congr_left fun q hq => trozo_congr (hsame q (by simp [hq]))
  · congr 1
    exact List.map_congr_left fun q hq => trozo_congr (hsame q (by simp [hq]))

theorem Limpio.of_sin_tamano {a b : t_dict_element} (h : Limpio a)
    (hs : b.sin_tamano = a.sin_tamano) : Limpio b :=
  h.congr (congrArg t_dict_element.ocupado hs :) (congrArg t_dict_element.nkey hs :)
    (congrArg t_dict_element.hour hs :) (congrArg t_dict_element.data_size hs :)

/-- Whatever a release joins is free afterwards, if it was free or the element released. -/
theorem Valido.limpio_aborto (h : Valido d l ps none) (hv : Vecinas d w r it s t qs)
    (hclave : ∀ p ∈ r ++ s, (d.node p).nkey = 0)
    (hj : Junta (d.limpiar it) (r ++ it :: s) i f) (hp : d.allocated p = true)
    (hno : p ∉ w ++ t) : Limpio (f.node p) := by
  refine Limpio.of_sin_tamano ?_ (hj.sin_tamano p)
  by_cases hit : p = it
  · rw [hit]
    exact limpio_limpiar
  rw [node_limpiar_ne hit]
  obtain rfl := h.listas.unique hv.listas
  rcases List.mem_append.mp (h.listas.perm.mem_iff.mpr (mem_all_nodes.mpr hp)) with hin | hpool
  · have hrs : p ∈ r ++ s := by
      simp only [List.mem_append, List.mem_cons] at hin hno ⊢
      tauto
    have hlibre : (d.node p).ocupado = false := by
      rcases List.mem_append.mp hrs with hpr | hps
      · exact hv.anteriores p hpr
      · exact hv.posteriores p hps
    exact h.libre hin (enUso_eq_false.mpr ⟨hlibre, hclave p hrs⟩)
  · exact h.libres p hpool

theorem limpiar_lugar : ((d.limpiar it).node q).data = (d.node q).data ∧
    ((d.limpiar it).node q).chunk_size = (d.node q).chunk_size := by
  simp only [limpiar, node_modificar]
  split_ifs <;> exact ⟨rfl, rfl⟩

/-- The chunks after a release of an element that is closed in. -/
theorem Bloques.abortar {k o : Nat} (h : Bloques d (w ++ (r ++ it :: (s ++ t))) none)
    (hv : Vecinas d w r it s t ps) (hdvd : 2 ^ k ∣ o)
    (hblock : Tiles (fun p => (d.node p).data) (fun p => (d.node p).chunk_size) o (r ++ it :: s)
      (o + 2 ^ k))
    (hj : Junta (d.limpiar it) (r ++ it :: s) i f) (hajustes : f.ajustes = d.ajustes)
    (hnodup : (w ++ i :: t).Nodup) :
    Bloques f (w ++ i :: t) none := by
  have hajenos := hv.ajenos hj
  have htiles := h.tiles
  rw [show w ++ (r ++ it :: (s ++ t)) = w ++ ((r ++ it :: s) ++ t) by simp] at htiles
  obtain ⟨m, hw, hrest⟩ := tiles_append.mp htiles
  obtain ⟨m', hmid, ht⟩ := tiles_append.mp hrest
  have hstart := hmid.start_eq hj.cabeza
  obtain rfl : m = o := by
    have hfirst := hblock.start_eq hj.cabeza
    rw [hstart] at hfirst
    exact Option.some.inj hfirst
  obtain rfl : m' = m + 2 ^ k := hmid.end_eq.trans hblock.end_eq.symm
  have hsum : ((r ++ it :: s).map fun q => (d.node q).chunk_size).sum = 2 ^ k := by
    have := hblock.end_eq
    omega
  have hdata : (f.node i).data = some m := by
    have hsame : (f.node i).data = ((d.limpiar it).node i).data :=
      (congrArg t_dict_element.data (hj.sin_tamano i) :)
    rw [hsame, limpiar_lugar.1, hstart]
  have hsize : (f.node i).chunk_size = 2 ^ k := by
    rw [hj.tamano, List.map_congr_left fun q _ => limpiar_lugar.2, hsum]
  have hmin : d.slab_min_size ≤ 2 ^ k := by
    have hle := h.slab it (by simp)
    have hmem : (d.node it).chunk_size ∈ (r ++ it :: s).map fun q => (d.node q).chunk_size :=
      List.mem_map.mpr ⟨it, by simp, rfl⟩
    have := List.single_le_sum (fun _ _ => Nat.zero_le _) _ hmem
    omega
  obtain ⟨hcw, hcrest, -⟩ := List.isChain_append.mp h.merged
  rw [show r ++ it :: (s ++ t) = (r ++ it :: s) ++ t by simp] at hcrest
  have hct := (List.isChain_append.mp hcrest).2.1
  have hsub : ∀ p ∈ w ++ t, p ∈ w ++ (r ++ it :: (s ++ t)) := by
    intro p hp
    simp only [List.mem_append, List.mem_cons] at hp ⊢
    tauto
  have hbloques := h.around hsub
    (ajustes_igual hajustes t_diccionario.table_max_size fun _ => rfl)
    (ajustes_igual hajustes t_diccionario.slab_min_size fun _ => rfl) hajenos hw ht hdata hsize
    rfl hmin hdvd (hcw.imp fun _ _ hpq _ _ => hpq (by simp) (by simp))
    (hct.imp fun _ _ hpq _ _ => hpq (by simp) (by simp))
  -- its neighbours are stored, so that it has no sibling among them
  have hstored : ∀ q ∈ w ++ t, (d.node q).ocupado = true → enUso (f.node q) = true := by
    intro q hq ho
    rw [(contenido_congr (hajenos q hq)).2.2.1]
    simp [enUso, ho]
  refine hbloques.cerrar hnodup ?_ ?_
  · intro p hp hh
    have huse := hstored p (by simp [List.mem_of_getLast? hp]) (hv.antes p hp)
    rw [hh.1] at huse
    exact absurd huse (by simp)
  · intro p hp hh
    have huse := hstored p (by simp [List.mem_of_head? hp]) (hv.despues p hp)
    rw [hh.2.1] at huse
    exact absurd huse (by simp)

/-- An abort that leaves a block leaves a well formed dictionary. -/
theorem Ordenada.abortar (h : Ordenada max slab d) (hc : Cerrada d it)
    (ho : (d.node it).ocupado = false) (hok : justice_engine_item_release d it = .ok e) :
    Ordenada max slab e := by
  obtain ⟨l, ps, hv, hcabe, hmax, hslab⟩ := h
  obtain ⟨w, r, s, t, qs, k, o, hvec, hclave, hlado, hdvd, hblock⟩ := hc
  obtain ⟨f, i, qs', hf, hajustes, hlist, hj, hentera⟩ := aborto_eq hvec ho
  rw [hf] at hok
  obtain rfl := Except.ok.inj hok
  obtain rfl := hv.listas.unique hvec.listas
  rw [hentera hlado] at hlist
  have hmax' : f.table_max_size = d.table_max_size :=
    ajustes_igual hajustes t_diccionario.table_max_size fun _ => rfl
  have hslab' : f.slab_min_size = d.slab_min_size :=
    ajustes_igual hajustes t_diccionario.slab_min_size fun _ => rfl
  have hajenos := hvec.ajenos hj
  have hsub : ∀ p ∈ w ++ t, p ∈ w ++ (r ++ it :: (s ++ t)) := by
    intro p hp
    simp only [List.mem_append, List.mem_cons] at hp ⊢
    tauto
  have hlimpio : ∀ p ∈ (w ++ i :: t) ++ qs', p ∉ w ++ t → Limpio (f.node p) := by
    intro p hp hno
    refine hv.limpio_aborto hvec hclave hj ?_ hno
    rw [← mem_all_nodes, ← ajustes_nodos hajustes]
    exact hlist.perm.mem_iff.mp hp
  have hnodup := hlist.dlist.nodup
  have hbloques := hv.bloques.abortar hvec hdvd hblock hj hajustes hnodup
  refine ⟨w ++ i :: t, qs', ⟨hlist, hbloques, ?_, ?_, ?_⟩, ?_, hmax'.trans hmax,
    hslab'.trans hslab⟩
  · intro p hp
    have hpool := (List.nodup_append'.mp hlist.nodup).2.2
    refine hlimpio p (List.mem_append_right _ hp) fun hin => hpool (a := p) ?_ hp
    simp only [List.mem_append, List.mem_cons] at hin ⊢
    tauto
  · intro p hp
    by_cases hin : p ∈ w ++ t
    · obtain ⟨-, -, huse, hl⟩ := contenido_congr (hajenos p hin)
      rw [huse]
      exact (hv.limpios p (hsub p hin)).imp id hl
    · exact Or.inr (hlimpio p (List.mem_append_left _ hp) hin)
  · rw [hslab']
    exact hv.slab_pos
  · intro p hp
    by_cases hin : p ∈ w ++ t
    · have hds : (f.node p).data_size = (d.node p).data_size :=
        (congrArg t_dict_element.data_size (hajenos p hin) :)
      rw [hds, (contenido_congr (hajenos p hin)).2.1]
      exact hcabe p (hsub p hin)
    · rw [(hlimpio p (List.mem_append_left _ hp) hin).data_size]
      exact Nat.zero_le _

/-- Each call leaves the dictionary well formed, aborts included. -/
theorem ordenada_aborto_step (h : Ordenada max slab d)
    (hp : Guarded PermiteAborto (Ejecuta BuddySystem) d c e) : Ordenada max slab e := by
  obtain ⟨⟨hpedido, haborto⟩, hejecuta⟩ := hp
  by_cases hrelease : ∀ item, c = .release item → (d.node item).ocupado = true
  · exact ordenada_step h ⟨⟨hpedido, hrelease⟩, hejecuta⟩
  · push Not at hrelease
    obtain ⟨item, rfl, ho⟩ := hrelease
    obtain ⟨turnos, hok⟩ := hejecuta
    rcases haborto item rfl with ho' | hc
    · exact absurd ho' ho
    · exact h.abortar hc (by simpa using ho) hok

/-- A search that finds a chunk splits it and does nothing else. -/
theorem Valido.mitad {primera : Ptr} (h : Valido d l ps none)
    (haux : aux_data_size n d.slab_min_size = aux)
    (hprimera : primer_ajuste d aux = .ok (some primera)) :
    ∃ u item v g, l = u ++ item :: v ∧ ajuste d l aux = some item ∧ Mitad d u v ps item aux g ∧
      Reubica d g ∧
      diccionario_obtenerDireccion_buddy d n = .ok (reservar g item n, some item) := by
  have hfind := primer_ajuste_find aux h.listas
  rw [hprimera] at hfind
  obtain ⟨item, hitem, hajuste⟩ := ajuste_eq h.listas (Except.ok.inj hfind).symm
  obtain ⟨hmem, hlibre, hfits⟩ := apto_of_ajuste hajuste
  obtain ⟨u, v, rfl⟩ := List.append_of_mem hmem
  have hstart : Mitad d u v ps item aux d :=
    ⟨.refl, ⟨[], ps, rfl, h.listas, h.bloques.tiles, h.bloques.slab⟩, h.bloques.power item hmem,
      hfits⟩
  have hslab : d.slab_min_size ≤ aux := by
    rw [← haux]
    exact le_aux_data_size _ _
  obtain ⟨g, hloop, hg⟩ := hstart.loop hslab h.slab_pos
  have hsize := h.size_le
  have hgrande : aux ≤ d.table_max_size := by omega
  refine ⟨u, item, v, g, rfl, hajuste, hg,
    (dividir_loop_reubica ⟨_, ps, h.listas, hmem⟩ hloop).1, ?_⟩
  exact loop_exit d.table_max_size
    (buscar_lugar_buddy_encontrado haux hgrande hprimera hitem hloop)

/-- After an allocation in `e`: the chunk `item` of `d` has been split into it and `w`. -/
structure Reservado (d : t_diccionario) (u : List Ptr) (item : Ptr) (w v : List Ptr)
    (e : t_diccionario) : Prop where
  listas : ∃ ps, Listas e (u ++ item :: (w ++ v)) ps
  otras : ∀ q ∈ u ++ v, (e.node q).contenido = (d.node q).contenido
  data : (e.node item).data = (d.node item).data
  tamano : ((item :: w).map fun q => (e.node q).chunk_size).sum = (d.node item).chunk_size
  ocupado : ∀ q, (e.node q).ocupado = (d.node q).ocupado
  libres : ∀ q ∈ item :: w, (d.node q).ocupado = false
  ajustes : e.ajustes = d.ajustes

/-- The halves fill the chunk that was split. -/
theorem Mitad.tamano (h : Mitad d u v ps item aux g) (hl : Listas d (u ++ item :: v) ps)
    (ht : Tiles (fun p => (d.node p).data) (fun p => (d.node p).chunk_size) 0 (u ++ item :: v)
      d.table_max_size) :
    ∃ w ps', ps = w.reverse ++ ps' ∧ Listas g (u ++ item :: (w ++ v)) ps' ∧
      ((item :: w).map fun q => (g.node q).chunk_size).sum = (d.node item).chunk_size := by
  obtain ⟨w, ps', rfl, hlist, htiles, -⟩ := h.lista
  refine ⟨w, ps', rfl, hlist, ?_⟩
  have hmax : g.table_max_size = d.table_max_size :=
    ajustes_igual h.marco.ajustes t_diccionario.table_max_size fun _ => rfl
  have hsame : ∀ q ∈ u ++ v, (g.node q).chunk_size = (d.node q).chunk_size :=
    fun q hq => (contenido_congr (h.marco.otras q hq)).2.1
  have hold := ht.end_eq
  have hnew := htiles.end_eq
  rw [hmax, hold] at hnew
  simp only [List.map_append, List.map_cons, List.sum_append, List.sum_cons] at hnew ⊢
  rw [List.map_congr_left fun q hq => hsame q (by simp [hq]),
    List.map_congr_left (l := v) fun q hq => hsame q (by simp [hq])] at hnew
  omega

theorem reservado_nombrar (h : Valido d (u ++ item :: v) ps none) (hm : Mitad d u v ps item aux g)
    (hr : Reubica d g) (hlibre : enUso (d.node item) = false) :
    ∃ w, Reservado d u item w v (nombrar (reservar g item n) item key nkey flags) := by
  obtain ⟨w, ps', rfl, hlist, hsum⟩ := hm.tamano h.listas h.bloques.tiles
  have hnot := (List.nodup_cons.mp (List.nodup_middle.mp h.listas.dlist.nodup)).1
  have hnode : ∀ q, ((nombrar (reservar g item n) item key nkey flags).node q).next =
        (g.node q).next ∧
      ((nombrar (reservar g item n) item key nkey flags).node q).prev = (g.node q).prev ∧
      ((nombrar (reservar g item n) item key nkey flags).node q).data = (g.node q).data ∧
      ((nombrar (reservar g item n) item key nkey flags).node q).chunk_size =
        (g.node q).chunk_size ∧
      ((nombrar (reservar g item n) item key nkey flags).node q).ocupado =
        (g.node q).ocupado := by
    intro q
    simp only [nombrar, reservar, node_modificar]
    split_ifs with hq
    · subst hq
      exact ⟨rfl, rfl, rfl, rfl, rfl⟩
    · exact ⟨rfl, rfl, rfl, rfl, rfl⟩
  refine ⟨w, ⟨ps', hlist.congr (fun q => (hnode q).1) (fun q _ => (hnode q).2.1) rfl rfl rfl⟩,
    ?_, ?_, ?_, ?_, ?_, ?_⟩
  · intro q hq
    have hne : q ≠ item := by
      rintro rfl
      exact hnot hq
    rw [← hm.marco.otras q hq]
    simp [nombrar, reservar, hne]
  · rw [(hnode item).2.2.1, hm.marco.data]
  · rw [List.map_congr_left fun q _ => (hnode q).2.2.2.1, hsum]
  · intro q
    rw [(hnode q).2.2.2.2, hr.igual t_dict_element.ocupado fun _ => rfl]
  · intro q hq
    rcases List.mem_cons.mp hq with rfl | hq
    · exact (enUso_eq_false.mp hlibre).1
    · exact (h.libres q (by simp [hq])).ocupado
  · exact hm.marco.ajustes

/-- The unoccupied chunks around the element are the halves of its chunk and the unoccupied ones
that were around this. -/
theorem Reservado.vecinas (h : Reservado d u item w v e) :
    ∃ u' r s t ps, u = u' ++ r ∧ v = s ++ t ∧ Vecinas e u' r item (w ++ s) t ps := by
  obtain ⟨ps, hlist⟩ := h.listas
  obtain ⟨u', r, s, t, hv, hsplit⟩ := Vecinas.de_lista hlist (show item ∈ _ by simp)
  have hnot := (List.nodup_cons.mp (List.nodup_middle.mp hlist.dlist.nodup)).1
  rw [← List.append_assoc] at hsplit
  obtain ⟨rfl, -, hrest⟩ := (List.append_cons_inj_of_notMem
    (fun hin => hnot (List.mem_append_left _ hin))
    (fun hin => hnot (List.mem_append_right _ hin))).mp hsplit
  refine ⟨u', r, ?_⟩
  rcases List.append_eq_append_iff.mp hrest with ⟨a, rfl, rfl⟩ | ⟨a, rfl, rfl⟩
  · exact ⟨a, t, ps, rfl, rfl, hv⟩
  · -- a half is not stored
    cases a with
    | nil => exact ⟨[], v, ps, rfl, rfl, by simpa using hv⟩
    | cons b a =>
      have hocupado := hv.despues b (by simp)
      rw [h.ocupado, h.libres b (by simp)] at hocupado
      exact absurd hocupado (by simp)

theorem Reservado.aborto (h : Reservado d u item w v e) (hl : Listas d (u ++ item :: v) ps)
    (hnkey : (d.node item).nkey = 0) :
    ∃ f, justice_engine_item_release e item = .ok f ∧ (trozos f = trozos d ↔ Aislado d item) ∧
      f.ajustes = d.ajustes ∧
      (∀ q, (f.node q).ocupado = true → (d.node q).ocupado = true) ∧
      ∃ i l qs, Listas (reparar f i) l qs := by
  obtain ⟨u, r, s, t, qs, rfl, rfl, hv⟩ := h.vecinas
  have hitem : (d.node item).ocupado = false := h.libres item (by simp)
  have hitem' : (e.node item).ocupado = false := by rw [h.ocupado, hitem]
  obtain ⟨f, i, qs', hok, hajustes, hlist, hj, -⟩ := aborto_eq hv hitem'
  refine ⟨f, hok, ?_, hajustes.trans h.ajustes, ?_, i, _, qs', hlist⟩
  swap
  · intro q hq
    rw [hj.ocupado] at hq
    by_cases hqi : q = item
    · subst hqi
      rw [limpio_limpiar.ocupado] at hq
      exact absurd hq (by simp)
    · rwa [node_limpiar_ne hqi, h.ocupado] at hq
  have hsame : ∀ q ∈ u ++ t, trozo e q = trozo d q := by
    intro q hq
    refine trozo_congr (h.otras q ?_)
    simp only [List.mem_append] at hq ⊢
    tauto
  rw [hv.trozos_aborto hj hlist, hl.trozos, List.map_congr_left fun q hq => hsame q (by simp [hq]),
    List.map_congr_left (l := t) fun q hq => hsame q (by simp [hq])]
  have hprev := hl.dlist.prev_eq
  have hnext := hl.dlist.next_eq
  constructor
  · intro htrozos
    -- as many chunks as before, so that none but the halves were joined
    have hlen := congrArg List.length htrozos
    simp only [List.length_append, List.length_cons, List.length_map] at hlen
    obtain rfl : r = [] := List.length_eq_zero_iff.mp (by omega)
    obtain rfl : s = [] := List.length_eq_zero_iff.mp (by omega)
    refine ⟨fun q hq => ?_, fun q hq => ?_⟩
    · rw [hprev, List.append_nil] at hq
      rw [← h.ocupado]
      exact hv.antes q hq
    · rw [hnext, List.nil_append] at hq
      rw [← h.ocupado]
      exact hv.despues q hq
  · rintro ⟨hantes, hdespues⟩
    obtain rfl : r = [] := by
      rcases List.eq_nil_or_concat r with rfl | ⟨r', p, rfl⟩
      · rfl
      · have hocupado := hantes p (by rw [hprev]; simp)
        rw [← h.ocupado, hv.anteriores p (by simp)] at hocupado
        exact absurd hocupado (by simp)
    obtain rfl : s = [] := by
      cases s with
      | nil => rfl
      | cons p s =>
        have hocupado := hdespues p (by rw [hnext]; simp)
        rw [← h.ocupado, hv.posteriores p (by simp)] at hocupado
        exact absurd hocupado (by simp)
    obtain rfl : item = i := by simpa using hj.cabeza
    have htamano := hj.tamano
    rw [List.map_congr_left fun q _ => limpiar_lugar.2, List.nil_append, List.append_nil,
      h.tamano] at htamano
    have hdata : (f.node item).data = (d.node item).data := by
      have hdata : (f.node item).data = ((e.limpiar item).node item).data :=
        (congrArg t_dict_element.data (hj.sin_tamano item) :)
      rw [hdata, limpiar_lugar.1, h.data]
    have hlimpio := limpio_limpiar.of_sin_tamano (hj.sin_tamano item)
    have hone : trozo f item = trozo d item := by
      simp only [trozo, hdata, htamano, hlimpio.ocupado, hitem, hlimpio.nkey, hnkey]
      rfl
    rw [hone]
    simp

/-- The nodes that hold a stored value. -/
def guardados (d : t_diccionario) : Nat := d.all_nodes.countP (fun p => (d.node p).ocupado)

theorem trozos_guardados_le (hl : Listas (reparar f i) l ps) :
    (trozos f).countP Trozo.ocupado ≤ guardados f := by
  have hall : (reparar f i).all_nodes = f.all_nodes := by simp [all_nodes, cant_max, reparar]
  rw [trozos_reparar hl, List.countP_map, guardados, ← hall, ← hl.perm.countP_eq,
    List.countP_append]
  exact Nat.le_add_right _ _

theorem Valido.trozos_guardados (h : Valido d l ps none) :
    (trozos d).countP Trozo.ocupado = guardados d := by
  have hpool : ps.countP (fun p => (d.node p).ocupado) = 0 :=
    List.countP_eq_zero.mpr fun p hp => by simp [(h.libres p hp).ocupado]
  rw [h.listas.trozos, List.countP_map, guardados, ← h.listas.perm.countP_eq, List.countP_append,
    hpool]
  rfl

theorem guardados_le (hajustes : e.ajustes = d.ajustes)
    (h : ∀ q, (e.node q).ocupado = true → (d.node q).ocupado = true) :
    guardados e ≤ guardados d := by
  rw [guardados, guardados, ajustes_nodos hajustes]
  exact List.countP_mono_left fun q _ => h q

/-- Removing a stored value leaves one less. -/
theorem Ajeno.guardados_lt (ha : Ajeno d it e) (hl : Limpio (e.node it))
    (hit : d.allocated it = true) (ho : (d.node it).ocupado = true) :
    guardados e < guardados d := by
  rw [guardados, guardados, ha.all_nodes]
  refine countP_lt ?_ (mem_all_nodes.mpr hit) ho hl.ocupado
  intro p _ hp
  by_cases hpi : p = it
  · rw [hpi]
    exact ho
  · have huse : enUso (d.node p) = true := by
      rw [← ha.uso p hpi]
      simp [enUso, hp]
    have hsame : (e.node p).ocupado = (d.node p).ocupado :=
      (congrArg t_dict_element.ocupado (ha.contenido p hpi huse) :)
    rwa [← hsame]

/-- An allocation without evictions, and its abort. -/
theorem Valido.abortada {primera : Ptr} (h : Valido d l ps none)
    (hprimera : primer_ajuste d (aux_data_size n d.slab_min_size) = .ok (some primera)) :
    ∃ g c f, diccionario_obtenerDireccion_buddy d n = .ok (g, some c) ∧
      justice_engine_item_release (nombrar g c key nkey flags) c = .ok f ∧
      ajuste d l (aux_data_size n d.slab_min_size) = some c ∧
      (trozos f = trozos d ↔ Aislado d c) ∧ f.ajustes = d.ajustes ∧
      (∀ q, (f.node q).ocupado = true → (d.node q).ocupado = true) ∧
      ∃ i l qs, Listas (reparar f i) l qs := by
  obtain ⟨u, c, v, g, rfl, hajuste, hmitad, hreubica, hok⟩ := h.mitad rfl hprimera
  have hlibre := (apto_of_ajuste hajuste).2.1
  obtain ⟨w, hw⟩ := reservado_nombrar h hmitad hreubica hlibre
  obtain ⟨f, hf, hiff, hrest⟩ := hw.aborto h.listas (h.libre (by simp) hlibre).nkey
  exact ⟨_, c, f, hok, hf, hajuste, hiff, hrest⟩

theorem ordenada_aborto
    (h : Reachable (Creado K slab) (Guarded PermiteAborto (Ejecuta BuddySystem)) d) :
    Ordenada (2 ^ K) slab d :=
  h.invariant (fun _ => ordenada_creado) (fun _ _ _ => ordenada_aborto_step)

/-- While every abort leaves a block, the chunks are those of a buddy system, and the abort of a
set that needs no eviction restores them if and only if it removes no other value and has stored
neighbours only. -/
theorem aborto_restaura_iff
    (h : Reachable (Creado K slab) (Guarded PermiteAborto (Ejecuta BuddySystem)) d) :
    (∀ x ∈ trozos d, ∃ k o, x.chunk_size = 2 ^ k ∧ x.data = some o ∧ 2 ^ k ∣ o) ∧
    ∀ d₁ key nkey n flags turnos primera, Pedido (.allocate key nkey n flags) →
      reemplazar BuddySystem d key nkey = .ok d₁ →
      primer_ajuste d₁ (aux_data_size n d₁.slab_min_size) = .ok (some primera) →
      ∃ e item f, justice_engine_allocate BuddySystem turnos d key nkey n flags =
          .ok (e, some item) ∧
        justice_engine_item_release e item = .ok f ∧
        (trozos f = trozos d ↔ Restaurable d key nkey n) := by
  obtain ⟨l, ps, hv, -, hmax, hslab⟩ := id (ordenada_aborto h)
  refine ⟨?_, ?_⟩
  · intro x hx
    rw [hv.listas.trozos] at hx
    obtain ⟨p, hp, rfl⟩ := List.mem_map.mp hx
    obtain ⟨k, hk⟩ := hv.bloques.power p hp
    obtain ⟨u, v, rfl⟩ := List.append_of_mem hp
    obtain ⟨o, -, ho, -⟩ := hv.bloques.tiles.piece
    refine ⟨k, o, hk, ho, ?_⟩
    rw [← hk]
    exact hv.bloques.aligned p hp o ho
  · intro d₁ key nkey n flags turnos primera hpedido hree hprimera
    have hobtener : ∀ q, diccionario_obtener d key nkey = .ok (some q) → EnLista d q :=
      fun q hq => ((ordenada_aborto h).obtener hq).1
    rcases reemplazar_cases hree with ⟨rfl, hsin⟩ | ⟨it, it', hobt, hocupado, hel⟩
    · obtain ⟨g, c, f, hok, hf, hajuste, hiff, -⟩ :=
        @Valido.abortada _ _ _ n nkey key flags primera hv hprimera
      have hok' := (@f_obtenerDireccion_buddy turnos _ _).trans hok
      refine ⟨_, c, f, allocate_some hree hok' hpedido.2.1 flags, hf, hiff.trans ⟨?_, ?_⟩⟩
      · exact fun hais => ⟨hsin, l, ps, c, hv.listas, hajuste, hais⟩
      · rintro ⟨-, l', ps', c', hl', hajuste', hais⟩
        obtain rfl := hv.listas.unique hl'
        obtain rfl : c = c' := Option.some.inj (hajuste.symm.trans hajuste')
        exact hais
    · -- the value removed does not come back
      obtain ⟨⟨l₁, ps₁, hv₁, -⟩, hlimpio, hajeno, -⟩ :=
        (ordenada_aborto h).f_eliminar (hobtener it hobt) hel
      obtain ⟨g, c, f, hok, hf, -, -, hajustes, hmono, i, l', qs, hl'⟩ :=
        @Valido.abortada _ _ _ n nkey key flags primera hv₁ hprimera
      have hok' := (@f_obtenerDireccion_buddy turnos _ _).trans hok
      refine ⟨_, c, f, allocate_some hree hok' hpedido.2.1 flags, hf, fun heq => ?_, fun hr => ?_⟩
      · have hle := trozos_guardados_le hl'
        rw [heq, hv.trozos_guardados] at hle
        have hf_le := guardados_le hajustes hmono
        have hlt := hajeno.guardados_lt hlimpio (hobtener it hobt).allocated hocupado
        omega
      · have hno := hr.sin_valor it hobt
        rw [hocupado] at hno
        exact absurd hno (by simp)

/-- A first value of one byte, not stored: the memory is one free chunk again. -/
theorem aborto_restaura_primera : ∃ d e item f, d = diccionario_crear_buddy default 4 1 ∧
    justice_engine_allocate BuddySystem 9 d (fun _ => 97) 1 1 0 = .ok (e, some item) ∧
    justice_engine_item_release e item = .ok f ∧
    (trozos f = trozos d ↔ Restaurable d (fun _ => 97) 1 1) := by
  have hcreado : Creado 2 1 (diccionario_crear_buddy default 4 1) :=
    ⟨by decide, by decide, default, rfl⟩
  obtain ⟨e, item, f, h⟩ := (aborto_restaura_iff (reachable_init hcreado)).2 _ (fun _ => 97) 1 1 0
    9 .element ⟨by decide, by decide, by decide⟩ rfl rfl
  exact ⟨_, e, item, f, rfl, h⟩

/-- One byte is stored out of four. -/
def guardar_uno : List Operacion := [.allocate (fun _ => 97) 1 1 0, .store .element 1]

/-- With one byte stored, the abort of a value of two joins three free bytes. -/
theorem aborto_de_tres : ∃ d primera e item f,
    correr BuddySystem 9 (diccionario_crear_buddy default 4 1) guardar_uno = .ok d ∧
    Reachable (Creado 2 1) (Ejecuta BuddySystem) d ∧
    reemplazar BuddySystem d (fun _ => 98) 1 = .ok d ∧
    primer_ajuste d (aux_data_size 2 d.slab_min_size) = .ok (some primera) ∧
    justice_engine_allocate BuddySystem 9 d (fun _ => 98) 1 2 0 = .ok (e, some item) ∧
    justice_engine_item_release e item = .ok f ∧ trozos f ≠ trozos d ∧
    (trozos f).map Trozo.chunk_size = [1, 3] := by
  obtain ⟨d, primera, e, item, f, hd, hree, hprimera, hasigna, hrelease, hd', hf⟩ :
      ∃ d primera e item f,
        correr BuddySystem 9 (diccionario_crear_buddy default 4 1) guardar_uno = .ok d ∧
        reemplazar BuddySystem d (fun _ => 98) 1 = .ok d ∧
        primer_ajuste d (aux_data_size 2 d.slab_min_size) = .ok (some primera) ∧
        justice_engine_allocate BuddySystem 9 d (fun _ => 98) 1 2 0 = .ok (e, some item) ∧
        justice_engine_item_release e item = .ok f ∧
        (trozos d).map Trozo.chunk_size = [1, 1, 2] ∧ (trozos f).map Trozo.chunk_size = [1, 3] :=
    ⟨_, _, _, _, _, rfl, rfl, rfl, rfl, rfl, rfl, rfl⟩
  refine ⟨d, primera, e, item, f, hd, ?_, hree, hprimera, hasigna, hrelease, ?_, hf⟩
  · exact reachable_trace (reachable_init ⟨by decide, by decide, default, rfl⟩) (correr_trace hd)
  · intro heq
    rw [heq, hd'] at hf
    exact absurd hf (by decide)

end Aborto

end LaLiga.Rc
