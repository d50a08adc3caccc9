import LaLiga.Rc.BuddyEnlaces
import LaLiga.Rc.BuddyMemoria
import LaLiga.Rc.Mapa

/-! Whom a search evicts: the dates of the elements, whatever the sizes of the chunks. -/
namespace LaLiga.Rc

open LaLiga.Lib t_diccionario

/-- A store of a key, or a get that hits. -/
structure Marca where
  clave : Clave
  hora : Int
  lectura : Bool

/-- What dates the element of a key: under FIFO its stores only. -/
def Marca.fecha (lru : Bool) (k : Clave) (m : Marca) : Bool :=
  decide (m.clave = k) && (lru || !m.lectura)

/-- The time of the last thing that dates the element of the key. -/
def sello (lru : Bool) (hist : List Marca) (k : Clave) : Option Int :=
  ((hist.filter (Marca.fecha lru k)).getLast?).map Marca.hora

/-- What an operation adds to the history. -/
def marcas (d : t_diccionario) : Accion → List Marca
  | .set key nkey valor hora =>
    match poner d key nkey valor hora with
    | .ok (_, true) => [⟨clave key nkey, hora, false⟩]
    | _ => []
  | .get key nkey hora =>
    match justice_engine_get d key nkey hora with
    | .ok (_, some _) => [⟨clave key nkey, hora, true⟩]
    | _ => []
  | _ => []

/-- Keys are not empty, and the time is positive. -/
def Fechada : Accion → Prop
  | .set _ nkey _ hora => nkey ≠ 0 ∧ 0 < hora
  | .get _ _ hora => 0 < hora
  | _ => True

/-- The states that operations made one after another lead to, with their history. -/
inductive Servidas (max slab : Nat) : t_diccionario → List Marca → Prop
  | inicio {d : t_diccionario} : 1 ≤ slab → slab ≤ max → CreadaBuddy max slab d →
      Servidas max slab d []
  | sigue {d e : t_diccionario} {hist : List Marca} {a : Accion} {turnos : Nat} :
      Servidas max slab d hist → Fechada a → atender turnos d a = .ok e →
      Servidas max slab e (hist ++ marcas d a)

/-- The operation, begun in `d`, looks for a victim in `f` and chooses one. -/
inductive Elige (d : t_diccionario) : Accion → t_diccionario → Ptr → Prop
  | set {e f : t_diccionario} {victima : Ptr} {key : Nat → UInt8} {nkey : Nat} {valor : Valor}
      {hora : Int} : reemplazar BuddySystem d key nkey = .ok e →
      Turns (buscar_lugar_buddy valor.bytes.length) e f →
      diccionario_elegirVictima f = .ok victima → Elige d (.set key nkey valor hora) f victima

def clave_de (d : t_diccionario) (q : Ptr) : Clave := clave (d.node q).key (d.node q).nkey

/-- The elements with keys are those that are stored, each dated as its key says; no other has
a date. -/
structure Sellada (lru : Bool) (s : Clave → Option Int) (d : t_diccionario) : Prop where
  lru : d.lru = lru
  listas : ∃ l ps, Listas d l ps
  enlistadas : Enlistadas d
  unicas : Unicas d
  libre : ∀ q, d.allocated q = true → (d.node q).nkey = 0 →
    (d.node q).ocupado = false ∧ (d.node q).hour = 0
  fechada : ∀ q, d.allocated q = true → (d.node q).nkey ≠ 0 →
    (d.node q).ocupado = true ∧ (d.node q).hour ≠ 0 ∧ s (clave_de d q) = some (d.node q).hour

/-- No element has the key. -/
def SinClave (key : Nat → UInt8) (nkey : Nat) (d : t_diccionario) : Prop :=
  ∀ q, d.allocated q = true → (d.node q).nkey ≠ 0 → ¬ MismaClave d q key nkey

section Sellos

variable {d e f g : t_diccionario} {it item p q : Ptr} {lru : Bool} {s : Clave → Option Int}
  {hist : List Marca} {m : Marca} {k : Clave} {key : Nat → UInt8} {n nkey : Nat}
  {flags hora : Int} {valor : Valor} {a : Accion} {r : Option Ptr} {max slab : Nat}

theorem sello_snoc : sello lru (hist ++ [m]) k =
    if m.fecha lru k = true then some m.hora else sello lru hist k := by
  unfold sello
  rw [List.filter_append, List.filter_singleton]
  cases m.fecha lru k with
  | true => simp
  | false => simp

/-- A store dates the element of its key. -/
theorem sello_guardar : sello lru (hist ++ [⟨k, hora, false⟩]) =
    Function.update (sello lru hist) k (some hora) := by
  funext l
  rw [sello_snoc, Function.update_apply]
  by_cases hl : l = k
  · subst hl
    simp [Marca.fecha]
  · have hne : ¬ k = l := fun h => hl h.symm
    simp [Marca.fecha, hl, hne]

/-- A get does so under LRU. -/
theorem sello_leer : sello lru (hist ++ [⟨k, hora, true⟩]) =
    if lru = true then Function.update (sello lru hist) k (some hora) else sello lru hist := by
  funext l
  rw [sello_snoc]
  cases lru with
  | false => simp [Marca.fecha]
  | true =>
    rw [if_pos rfl, Function.update_apply]
    by_cases hl : l = k
    · subst hl
      simp [Marca.fecha]
    · have hne : ¬ k = l := fun h => hl h.symm
      simp [Marca.fecha, hl, hne]

/-- The list only depends on the links. -/
theorem EnLista.congr (h : EnLista d q) (hnext : ∀ p, (e.node p).next = (d.node p).next)
    (hprev : ∀ p, (e.node p).prev = (d.node p).prev) (hnodes : e.nodes = d.nodes)
    (helements : e.elements = d.elements) (hcant : e.cant_max = d.cant_max) : EnLista e q := by
  obtain ⟨l, ps, hl, hmem⟩ := h
  exact ⟨l, ps, hl.congr hnext (fun p _ => hprev p) hnodes helements hcant, hmem⟩

theorem SinClave.reubica (hr : Reubica d e) (h : SinClave key nkey d) : SinClave key nkey e := by
  have hnkey := hr.igual t_dict_element.nkey fun _ => rfl
  have hkey := hr.igual t_dict_element.key fun _ => rfl
  intro q hq hne hc
  rw [hnkey] at hne
  rw [MismaClave, hnkey, hkey] at hc
  exact h q (hr.allocated q ▸ hq) hne hc

theorem SinClave.eliminar (h : SinClave key nkey d) (hin : EnLista d it)
    (hok : diccionario_eliminar_buddy d it = .ok e) : SinClave key nkey e := by
  refine SinClave.reubica (eliminar_buddy_reubica hin hok).1 ?_
  intro q hq hkey hc
  have hne : q ≠ it := by
    rintro rfl
    exact hkey limpio_limpiar.nkey
  rw [node_limpiar_ne hne] at hkey
  rw [MismaClave, node_limpiar_ne hne] at hc
  exact h q hq hkey hc

namespace Sellada

/-- A victim is stored, and none of what is stored is older. -/
theorem victima {victima : Ptr} (h : Sellada lru s d)
    (hok : diccionario_elegirVictima d = .ok victima) :
    EnLista d victima ∧ (d.node victima).ocupado = true ∧
      s (clave_de d victima) = some (d.node victima).hour ∧
      ∀ q, EnLista d q → (d.node q).ocupado = true →
        s (clave_de d q) = some (d.node q).hour ∧ (d.node victima).hour ≤ (d.node q).hour := by
  obtain ⟨l, ps, hl⟩ := h.listas
  have hdated : ∀ q, d.allocated q = true → (d.node q).ocupado = true → (d.node q).nkey ≠ 0 := by
    intro q hq hocupado hzero
    rw [(h.libre q hq hzero).1] at hocupado
    exact absurd hocupado (by simp)
  rw [diccionario_elegirVictima_argmin hl] at hok
  cases hmin : (l.filter (fun p => (d.node p).hour != 0)).argmin (fun p => (d.node p).hour) with
  | none => simp [hmin] at hok
  | some p =>
    simp only [hmin] at hok
    obtain rfl := Except.ok.inj hok
    obtain ⟨hmem, hhour⟩ := List.mem_filter.mp (List.argmin_mem hmin)
    have hall := hl.allocated hmem
    have hkey : (d.node p).nkey ≠ 0 := by
      intro hzero
      rw [(h.libre p hall hzero).2] at hhour
      exact absurd hhour (by simp)
    obtain ⟨hocupado, -, hsello⟩ := h.fechada p hall hkey
    refine ⟨⟨l, ps, hl, hmem⟩, hocupado, hsello, ?_⟩
    rintro q ⟨l', ps', hl', hq⟩ hocupadoq
    obtain rfl := hl.unique hl'
    have hallq := hl.allocated hq
    obtain ⟨-, hhourq, hselloq⟩ := h.fechada q hallq (hdated q hallq hocupadoq)
    have hcandidate : q ∈ l.filter (fun p => (d.node p).hour != 0) :=
      List.mem_filter.mpr ⟨hq, by simpa using hhourq⟩
    exact ⟨hselloq, List.le_of_mem_argmin (f := fun p => (d.node p).hour) hcandidate hmin⟩

/-- Splitting and merging date nothing. -/
theorem reubica (h : Sellada lru s d) (hr : Reubica d e) : Sellada lru s e := by
  have hnkey := hr.igual t_dict_element.nkey fun _ => rfl
  have hkey := hr.igual t_dict_element.key fun _ => rfl
  have hocupado := hr.igual t_dict_element.ocupado fun _ => rfl
  have hhour := hr.igual t_dict_element.hour fun _ => rfl
  refine ⟨?_, hr.listas, ?_, ?_, ?_, ?_⟩
  · rw [← h.lru]
    exact ajustes_igual hr.ajustes t_diccionario.lru fun _ => rfl
  · intro q hq hne
    rw [hnkey] at hne
    exact hr.en_lista q (h.enlistadas q (hr.allocated q ▸ hq) hne) (enUso_of_nkey hne)
  · intro p q hp hq hne hc
    rw [hnkey] at hne
    refine h.unicas p q (hr.allocated p ▸ hp) (hr.allocated q ▸ hq) hne ?_
    rwa [MismaClave, hnkey, hkey, hnkey, hkey] at hc
  · intro q hq hzero
    rw [hnkey] at hzero
    rw [hocupado, hhour]
    exact h.libre q (hr.allocated q ▸ hq) hzero
  · intro q hq hne
    rw [hnkey] at hne
    rw [clave_de, hnkey, hkey, hocupado, hhour]
    exact h.fechada q (hr.allocated q ▸ hq) hne

/-- Clearing an element. -/
theorem limpiar (h : Sellada lru s d) : Sellada lru s (d.limpiar it) := by
  have hlimpio : Limpio ((d.limpiar it).node it) := limpio_limpiar
  have hne : ∀ q, ((d.limpiar it).node q).nkey ≠ 0 → q ≠ it := by
    rintro q hq rfl
    exact hq hlimpio.nkey
  refine ⟨h.lru, ?_, ?_, ?_, ?_, ?_⟩
  · obtain ⟨l, ps, hl⟩ := h.listas
    exact ⟨l, ps, listas_limpiar hl⟩
  · intro q hq hkey
    rw [node_limpiar_ne (hne q hkey)] at hkey
    exact (h.enlistadas q hq hkey).limpiar
  · intro p q hp hq hkey hc
    have hp' := hne p hkey
    have hq' : q ≠ it := hne q (by rw [hc.1]; exact hkey)
    rw [node_limpiar_ne hp'] at hkey hc
    rw [MismaClave, node_limpiar_ne hq'] at hc
    exact h.unicas p q hp hq hkey hc
  · intro q hq hzero
    by_cases hqi : q = it
    · rw [hqi]
      exact ⟨hlimpio.ocupado, hlimpio.hour⟩
    · rw [node_limpiar_ne hqi] at hzero ⊢
      exact h.libre q hq hzero
  · intro q hq hkey
    have hqi := hne q hkey
    rw [node_limpiar_ne hqi] at hkey
    rw [clave_de, node_limpiar_ne hqi]
    exact h.fechada q hq hkey

theorem eliminar (h : Sellada lru s d) (hin : EnLista d it)
    (hok : diccionario_eliminar_buddy d it = .ok e) : Sellada lru s e :=
  h.limpiar.reubica (eliminar_buddy_reubica hin hok).1

/-- Each turn of a search evicts. -/
theorem busca (h : Sellada lru s d) (hf : Turns (buscar_lugar_buddy n) d f) : Sellada lru s f := by
  induction hf with
  | refl => exact h
  | next _ hturn ih =>
    obtain ⟨victima, hvictima, hel⟩ := buscar_lugar_buddy_inl hturn
    exact ih.eliminar (ih.victima hvictima).1 hel

theorem obtener (h : Sellada lru s d)
    (hobt : diccionario_obtener d key nkey = .ok (some it)) :
    EnLista d it ∧ (d.node it).nkey ≠ 0 ∧ MismaClave d it key nkey := by
  obtain ⟨l, ps, hl⟩ := h.listas
  obtain ⟨hmem, hkey, hc⟩ := obtener_en_lista hl hobt
  exact ⟨⟨l, ps, hl, hmem⟩, hkey, hc⟩

/-- What the search by key finds is all that there is of the key. -/
theorem sin_clave (h : Sellada lru s d)
    (hno : ∀ it, diccionario_obtener d key nkey = .ok (some it) → (d.node it).ocupado = false)
    (hpos : nkey ≠ 0) :
    SinClave key nkey d := by
  intro q hq hkey hc
  obtain ⟨l, ps, hl, hmem⟩ := h.enlistadas q hq hkey
  have hocupado := (h.fechada q hq hkey).1
  rw [hno q (obtener_unica hl h.unicas hmem hpos hc)] at hocupado
  exact absurd hocupado (by simp)

/-- An allocation first removes what is stored under the key. -/
theorem reemplaza (h : Sellada lru s d) (hpos : nkey ≠ 0)
    (hok : reemplazar BuddySystem d key nkey = .ok e) :
    Sellada lru s e ∧ SinClave key nkey e := by
  rcases reemplazar_cases hok with ⟨rfl, hno⟩ | ⟨it, it', hobt, -, hel⟩
  · exact ⟨h, h.sin_clave hno hpos⟩
  · obtain ⟨hin, hkey, hc⟩ := h.obtener hobt
    obtain ⟨hel, -⟩ := f_eliminar_buddy_ok hel
    refine ⟨h.eliminar hin hel, SinClave.reubica (eliminar_buddy_reubica hin hel).1 ?_⟩
    -- of the key there was no other element
    intro q hq hkeyq hcq
    have hne : q ≠ it := by
      rintro rfl
      exact hkeyq limpio_limpiar.nkey
    rw [MismaClave, node_limpiar_ne hne] at hcq
    rw [node_limpiar_ne hne] at hkeyq
    exact hne (h.unicas q it hq hin.allocated hkeyq (MismaClave.of_both hcq hc))

/-- A free chunk, or one of the key, gets the key and the date. -/
theorem data (h : Sellada lru s f) (hpos : nkey ≠ 0) (hhora : hora ≠ 0) (hin : EnLista f item)
    (hno : ∀ q, q ≠ item → f.allocated q = true → (f.node q).nkey ≠ 0 → ¬ MismaClave f q key nkey)
    (hajustes : e.ajustes = f.ajustes) (helements : e.elements = f.elements)
    (hnodes : e.nodes = f.nodes) (hother : ∀ q, q ≠ item → e.node q = f.node q)
    (hlinks : (e.node item).next = (f.node item).next ∧ (e.node item).prev = (f.node item).prev)
    (hc : MismaClave e item key nkey)
    (hitem : (e.node item).ocupado = true ∧ (e.node item).hour = hora) :
    Sellada lru (Function.update s (clave key nkey) (some hora)) e := by
  have hmax : e.table_max_size = f.table_max_size :=
    ajustes_igual hajustes t_diccionario.table_max_size fun _ => rfl
  have hslab : e.slab_min_size = f.slab_min_size :=
    ajustes_igual hajustes t_diccionario.slab_min_size fun _ => rfl
  have hcant : e.cant_max = f.cant_max := by simp only [cant_max, hmax, hslab]
  have hall : ∀ q, e.allocated q = f.allocated q := by
    intro q
    cases q with
    | element => rfl
    | slot i => simp only [t_diccionario.allocated, hcant]
  have hlink : ∀ q, (e.node q).next = (f.node q).next ∧ (e.node q).prev = (f.node q).prev := by
    intro q
    by_cases hq : q = item
    · rw [hq]
      exact hlinks
    · rw [hother q hq]
      exact ⟨rfl, rfl⟩
  have hlista : ∀ q, EnLista f q → EnLista e q := fun q hq =>
    hq.congr (fun p => (hlink p).1) (fun p => (hlink p).2) hnodes helements hcant
  have hkey : (e.node item).nkey ≠ 0 := by rwa [hc.1]
  refine ⟨?_, ?_, ?_, ?_, ?_, ?_⟩
  · rw [← h.lru]
    exact ajustes_igual hajustes t_diccionario.lru fun _ => rfl
  · obtain ⟨l, ps, hl, -⟩ := hlista item hin
    exact ⟨l, ps, hl⟩
  · intro q hq hne
    by_cases hqi : q = item
    · rw [hqi]
      exact hlista item hin
    · rw [hother q hqi] at hne
      exact hlista q (h.enlistadas q (hall q ▸ hq) hne)
  · intro p q hp hq hne hpq
    by_cases hpi : p = item
    · by_contra hdif
      have hqi : q ≠ item := fun hqi => hdif (hpi.trans hqi.symm)
      rw [hpi] at hpq
      have hcq : MismaClave e q key nkey :=
        ⟨hpq.1.trans hc.1, fun i hi => (hpq.2 i (hc.1 ▸ hi)).trans (hc.2 i hi)⟩
      rw [MismaClave, hother q hqi] at hcq
      exact hno q hqi (hall q ▸ hq) (hcq.1 ▸ hpos) hcq
    · by_cases hqi : q = item
      · rw [hqi] at hpq
        rw [hother p hpi] at hne hpq
        have hcp : MismaClave f p key nkey :=
          ⟨hpq.1.symm.trans hc.1, fun i hi =>
            (hpq.2 i (by rw [← hpq.1, hc.1]; exact hi)).symm.trans (hc.2 i hi)⟩
        exact absurd hcp (hno p hpi (hall p ▸ hp) hne)
      · rw [hother p hpi] at hne
        rw [MismaClave, hother p hpi, hother q hqi] at hpq
        exact h.unicas p q (hall p ▸ hp) (hall q ▸ hq) hne hpq
  · intro q hq hzero
    by_cases hqi : q = item
    · rw [hqi] at hzero
      exact absurd hzero hkey
    · rw [hother q hqi] at hzero ⊢
      exact h.libre q (hall q ▸ hq) hzero
  · intro q hq hne
    by_cases hqi : q = item
    · have heq : clave_de e item = clave key nkey := misma_iff.mp hc
      rw [hqi, heq, Function.update_self, hitem.2]
      exact ⟨hitem.1, hhora, rfl⟩
    · rw [hother q hqi] at hne
      have hqk : clave_de f q ≠ clave key nkey :=
        fun heq => hno q hqi (hall q ▸ hq) hne (misma_iff.mpr heq)
      rw [clave_de, hother q hqi]
      rw [← clave_de, Function.update_of_ne hqk]
      exact h.fechada q (hall q ▸ hq) hne

/-- What a client does with the chunk that it was given dates it. -/
theorem guarda {mem : Nat → UInt8} (h : Sellada lru s g) (hno : SinClave key nkey g)
    (hin : EnLista g item) (hpos : nkey ≠ 0) (hhora : hora ≠ 0)
    (hd : d = { nombrar (reservar g item n) item key nkey flags with mem := mem }) :
    ∃ e, justice_engine_store d item hora = .ok (e, true) ∧
      justice_engine_item_release e item = .ok e ∧
      Sellada lru (Function.update s (clave key nkey) (some hora)) e := by
  obtain ⟨e, he⟩ : ∃ e, e = d.modificar item (fun i => { i with ocupado := true, hour := hora }) :=
    ⟨_, rfl⟩
  have hajustes : e.ajustes = g.ajustes := by
    rw [he, ajustes_modificar, hd, ajustes_mem, ajustes_nombrar, ajustes_reservar]
  have hnew : Sellada lru (Function.update s (clave key nkey) (some hora)) e := by
    refine h.data hpos hhora hin (fun q _ => hno q) hajustes ?_ ?_ ?_ ?_ ?_ ?_
    · rw [he, hd]; rfl
    · rw [he, hd]; rfl
    · intro q hq
      simp [he, hd, hq, nombrar, reservar]
    · simp [he, hd, nombrar, reservar]
    · refine ⟨by simp [he, hd, nombrar], fun i hi => ?_⟩
      have hle : i ≤ nkey := hi.le
      simp [he, hd, nombrar, hle]
    · simp [he]
  -- storing changes neither keys nor links, so that the search by key finds the element
  have hkeys : ∀ q, (d.node q).key = (e.node q).key ∧ (d.node q).nkey = (e.node q).nkey := by
    intro q
    rw [he, node_modificar]
    split_ifs <;> exact ⟨rfl, rfl⟩
  have hunicas : Unicas d := by
    intro p q hp hq hkey hc
    rw [MismaClave, (hkeys p).1, (hkeys p).2, (hkeys q).1, (hkeys q).2] at hc
    rw [(hkeys p).2] at hkey
    rw [he] at hnew hkey hc
    exact hnew.unicas p q hp hq hkey hc
  obtain ⟨l, ps, hl, hmem⟩ : EnLista d item := by
    refine hin.congr ?_ ?_ (by rw [hd]; rfl) (by rw [hd]; rfl) (by rw [hd]; rfl)
    · intro p
      simp only [hd, nombrar, reservar, node_modificar]
      split_ifs <;> rfl
    · intro p
      simp only [hd, nombrar, reservar, node_modificar]
      split_ifs <;> rfl
  have hkey : (d.node item).nkey ≠ 0 := by simpa [hd, nombrar] using hpos
  have hobt := obtener_unica hl hunicas hmem hkey .propia
  refine ⟨e, ?_, ?_, hnew⟩
  · simp only [justice_engine_store, hobt, ← he]
  · simp [justice_engine_item_release, he]

/-- A complete set. Refused, it has dated nothing. -/
theorem pone {guardado : Bool} (h : Sellada lru (sello lru hist) d) (hpos : nkey ≠ 0)
    (hhora : hora ≠ 0) (hok : poner d key nkey valor hora = .ok (e, guardado)) :
    Sellada lru (sello lru (hist ++ marcas d (.set key nkey valor hora))) e := by
  have hmarcas : marcas d (.set key nkey valor hora) =
      if guardado = true then [⟨clave key nkey, hora, false⟩] else [] := by
    simp only [marcas, hok]
    cases guardado <;> rfl
  rw [hmarcas]
  unfold poner at hok
  cases halloc : justice_engine_allocate BuddySystem 0 d key nkey valor.bytes.length
      valor.flags with
  | error f => simp [halloc] at hok
  | ok x =>
    obtain ⟨d₃, o⟩ := x
    rw [halloc] at hok
    obtain ⟨d₁, d₂, hree, hobt, hcase⟩ := allocate_inv halloc
    obtain ⟨h₁, hno₁⟩ := h.reemplaza hpos hree
    rw [f_obtenerDireccion_buddy] at hobt
    have hstep : ∀ x y, Turns (buscar_lugar_buddy valor.bytes.length) d₁ x →
        Sellada lru (sello lru hist) x ∧ SinClave key nkey x →
        buscar_lugar_buddy valor.bytes.length x = .ok (.inl y) →
        Sellada lru (sello lru hist) y ∧ SinClave key nkey y := by
      rintro x y - ⟨hx, hnox⟩ hturn
      obtain ⟨victima, hvictima, hel⟩ := buscar_lugar_buddy_inl hturn
      have hin := (hx.victima hvictima).1
      exact ⟨hx.eliminar hin hel, hnox.eliminar hin hel⟩
    obtain ⟨f, -, ⟨hf, hnof⟩, hlast⟩ := loop_turns hstep ⟨h₁, hno₁⟩ _ hobt
    obtain ⟨l, ps, hl⟩ := hf.listas
    rcases buscar_lugar_buddy_inr hl hlast with ⟨rfl, rfl⟩ |
      ⟨item, g, aux, rfl, hmem, hlibre, hg, rfl⟩
    · rcases hcase with ⟨-, rfl⟩ | ⟨it, hit, -⟩
      · obtain ⟨rfl, rfl⟩ := Prod.mk.inj (Except.ok.inj hok)
        simpa using hf
      · simp at hit
    · obtain ⟨hr, hin⟩ := dividir_loop_reubica ⟨l, ps, hl, hmem⟩ hg
      have hgs := hf.reubica hr
      have hnog := hnof.reubica hr
      obtain ⟨it, hit, -, rfl⟩ : ∃ it, some item = some it ∧ nkey < KEY_SIZE_MAX ∧
          d₃ = nombrar (reservar g item valor.bytes.length) it key nkey valor.flags := by
        rcases hcase with ⟨hnone, -⟩ | hsome
        · simp at hnone
        · exact hsome
      obtain rfl := Option.some.inj hit
      dsimp only at hok
      cases hwrite : escribir (nombrar (reservar g item valor.bytes.length) item key nkey
          valor.flags) item valor.bytes with
      | error f => simp [hwrite] at hok
      | ok d₄ =>
        obtain ⟨mem, hd₄⟩ := node_escribir hwrite
        obtain ⟨e', hstore, hrelease, hnew⟩ := hgs.guarda hnog hin hpos hhora hd₄
        simp only [hwrite, hstore, hrelease] at hok
        obtain ⟨rfl, rfl⟩ := Prod.mk.inj (Except.ok.inj hok)
        rw [if_pos rfl, sello_guardar]
        exact hnew

/-- A get dates what it hits under LRU, and nothing under FIFO. -/
theorem consulta (h : Sellada lru (sello lru hist) d) (hhora : hora ≠ 0)
    (hok : justice_engine_get d key nkey hora = .ok (e, r)) :
    Sellada lru (sello lru (hist ++ marcas d (.get key nkey hora))) e := by
  have hmarcas : marcas d (.get key nkey hora) =
      if r.isSome = true then [⟨clave key nkey, hora, true⟩] else [] := by
    simp only [marcas, hok]
    cases r <;> rfl
  rw [hmarcas]
  unfold justice_engine_get at hok
  cases hobt : diccionario_obtener d key nkey with
  | error f => simp [hobt] at hok
  | ok o =>
    rw [hobt] at hok
    cases o with
    | none =>
      obtain ⟨rfl, rfl⟩ := Prod.mk.inj (Except.ok.inj hok)
      simpa using h
    | some it =>
      obtain ⟨hin, hkey, hc⟩ := h.obtener hobt
      have hocupado := (h.fechada it hin.allocated hkey).1
      simp only [hocupado, if_true, h.lru] at hok
      obtain ⟨rfl, rfl⟩ := Prod.mk.inj (Except.ok.inj hok)
      rw [Option.isSome_some, if_pos rfl, sello_leer]
      cases lru with
      | false => simpa using h
      | true =>
        rw [if_pos rfl, if_pos rfl]
        refine h.data (hc.1 ▸ hkey) hhora hin ?_ rfl rfl rfl ?_ (by simp) ?_ (by simp [hocupado])
        · intro q hq hall hkeyq hcq
          exact hq (h.unicas q it hall hin.allocated hkeyq (MismaClave.of_both hcq hc))
        · intro q hq
          simp [hq]
        · simpa [MismaClave] using hc

theorem quita {b : Bool} (h : Sellada lru s d)
    (hok : justice_engine_item_delete BuddySystem d key nkey = .ok (e, b)) : Sellada lru s e := by
  rcases item_delete_cases hok with ⟨rfl, -⟩ | ⟨it, it', hobt, -, hel⟩
  · exact h
  · exact h.eliminar (h.obtener hobt).1 (f_eliminar_buddy_ok hel).1

/-- A flush releases elements of the list, one after another. -/
theorem vacia {turnos : Nat} (h : Sellada lru s d)
    (hok : justice_engine_flush BuddySystem turnos d = .ok e) : Sellada lru s e := by
  have hstep : ∀ x y : t_diccionario × Option Ptr, Turns (limpiar_turno BuddySystem)
      (d, d.elements) x → (Sellada lru s x.1 ∧ ∀ it, x.2 = some it → EnLista x.1 it) →
      limpiar_turno BuddySystem x = .ok (.inl y) →
      Sellada lru s y.1 ∧ ∀ it, y.2 = some it → EnLista y.1 it := by
    rintro ⟨x, o⟩ ⟨y, o'⟩ - ⟨hx, hin⟩ hturn
    cases o with
    | none => simp [limpiar_turno] at hturn
    | some it =>
      rcases limpiar_turno_inl hturn with ⟨-, rfl, ho⟩ | ⟨it', -, hel, ho⟩
      · exact ⟨hx, fun q hq => (hin it rfl).next (ho.symm.trans hq)⟩
      · obtain ⟨hok, rfl⟩ := f_eliminar_buddy_ok hel
        have hin' := (eliminar_buddy_reubica (hin it' rfl) hok).2
        exact ⟨hx.eliminar (hin it' rfl) hok, fun q hq => hin'.next (ho.symm.trans hq)⟩
  have hhead : ∀ it, d.elements = some it → EnLista d it := by
    intro it hit
    obtain ⟨l, ps, hl⟩ := h.listas
    exact ⟨l, ps, hl, List.mem_of_head? (hl.head.symm.trans hit)⟩
  obtain ⟨x, -, ⟨hx, -⟩, hlast⟩ := loop_turns hstep ⟨h, hhead⟩ _ hok
  obtain rfl := limpiar_turno_inr hlast
  exact hx

/-- Every operation dates what its marks say. -/
theorem atiende {turnos : Nat} (h : Sellada lru (sello lru hist) d) (ha : Fechada a)
    (hok : atender turnos d a = .ok e) : Sellada lru (sello lru (hist ++ marcas d a)) e := by
  cases a with
  | set key nkey valor hora =>
    obtain ⟨guardado, hok⟩ := exists_of_map_fst hok
    exact h.pone ha.1 ha.2.ne' hok
  | get key nkey hora =>
    obtain ⟨v, hok⟩ := exists_of_map_fst hok
    unfold consultar at hok
    cases hget : justice_engine_get d key nkey hora with
    | error f => simp [hget] at hok
    | ok x =>
      obtain ⟨e', r⟩ := x
      rw [hget] at hok
      obtain ⟨rfl, -⟩ := Prod.mk.inj (Except.ok.inj hok)
      exact h.consulta (ne_of_gt ha) hget
  | remove key nkey =>
    obtain ⟨b, hok⟩ := exists_of_map_fst hok
    simpa [marcas] using h.quita hok
  | flush => simpa [marcas] using h.vacia hok

end Sellada

theorem sellada_creada (hslab : 1 ≤ slab) (hle : slab ≤ max) (h : CreadaBuddy max slab d) :
    Sellada d.lru (sello d.lru []) d := by
  obtain ⟨basura, rfl⟩ := h
  have hclean : ∀ q, (diccionario_crear_buddy basura max slab).allocated q = true →
      Limpio ((diccionario_crear_buddy basura max slab).node q) := by
    intro q hq
    cases q with
    | element => exact ⟨rfl, rfl, rfl, rfl⟩
    | slot i =>
      have hi : i + 1 < max / slab := of_decide_eq_true hq
      constructor <;> simp [diccionario_crear_buddy, inicializarElementos, cant_max, hi]
  refine ⟨rfl, ⟨[.element], _, Listas.inicial (Nat.div_pos hle hslab)⟩, ?_, ?_, ?_, ?_⟩
  · exact fun q hq hkey => absurd (hclean q hq).nkey hkey
  · exact fun p q hp _ hkey _ => absurd (hclean p hp).nkey hkey
  · exact fun q hq _ => ⟨(hclean q hq).ocupado, (hclean q hq).hour⟩
  · exact fun q hq hkey => absurd (hclean q hq).nkey hkey

theorem sellada_servidas (h : Servidas max slab d hist) :
    Sellada d.lru (sello d.lru hist) d := by
  induction h with
  | inicio hslab hle hd => exact sellada_creada hslab hle hd
  | sigue _ ha hok ih =>
    have he := ih.atiende ha hok
    rw [he.lru]
    exact he

end Sellos

/-- Every victim is stored, hence neither free nor reserved, and no stored element has an older
date than it has. -/
theorem victima_mas_vieja {max slab : Nat} {d f : t_diccionario} {hist : List Marca} {a : Accion}
    {victima : Ptr} (h : Servidas max slab d hist) (ha : Fechada a) (hv : Elige d a f victima) :
    EnLista f victima ∧ (f.node victima).ocupado = true ∧ estaReservado (f.node victima) = false ∧
      ∃ t, sello d.lru hist (clave_de f victima) = some t ∧
        ∀ q, EnLista f q → (f.node q).ocupado = true →
          ∃ t', sello d.lru hist (clave_de f q) = some t' ∧ t ≤ t' := by
  cases hv with
  | set hree hturns hok =>
    obtain ⟨he, -⟩ := (sellada_servidas h).reemplaza ha.1 hree
    obtain ⟨hin, hocupado, hsello, hmin⟩ := (he.busca hturns).victima hok
    refine ⟨hin, hocupado, by simp [estaReservado, hocupado], _, hsello, ?_⟩
    intro q hq hstored
    obtain ⟨hselloq, hle⟩ := hmin q hq hstored
    exact ⟨_, hselloq, hle⟩

/-- Of two elements in a memory of three bytes the one stored first has to go. -/
theorem victima_primera : ∃ d hist, Servidas 3 1 d hist ∧
    Elige d (.set (fun _ => 99) 1 ⟨[9], 0⟩ 3) d .element ∧
    EnLista d .element ∧ (d.node .element).ocupado = true ∧
      estaReservado (d.node .element) = false ∧
      ∃ t, sello d.lru hist (clave_de d .element) = some t ∧
        ∀ q, EnLista d q → (d.node q).ocupado = true →
          ∃ t', sello d.lru hist (clave_de d q) = some t' ∧ t ≤ t' := by
  obtain ⟨d₁, d, hset, hset', hree, hvictima⟩ : ∃ d₁ d,
      atender 0 (diccionario_crear_buddy default 3 1) (.set (fun _ => 97) 1 ⟨[7], 0⟩ 1) = .ok d₁ ∧
      atender 0 d₁ (.set (fun _ => 98) 1 ⟨[8], 0⟩ 2) = .ok d ∧
      reemplazar BuddySystem d (fun _ => 99) 1 = .ok d ∧
      diccionario_elegirVictima d = .ok .element := ⟨_, _, rfl, rfl, rfl, rfl⟩
  have hd := Servidas.sigue (.sigue (.inicio (by decide) (by decide) ⟨default, rfl⟩)
    (by simp [Fechada]) hset) (by simp [Fechada]) hset'
  have helige : Elige d (.set (fun _ => 99) 1 ⟨[9], 0⟩ 3) d .element := .set hree .refl hvictima
  exact ⟨d, _, hd, helige, victima_mas_vieja hd (by simp [Fechada]) helige⟩

end LaLiga.Rc
