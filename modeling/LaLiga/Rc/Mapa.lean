import LaLiga.Lib.Cache
import LaLiga.Rc.BuddyLista
import LaLiga.Rc.Publicacion

/-! The buddy system as a map, for clients that make complete operations one after another. -/
namespace LaLiga.Rc

open LaLiga.Lib t_diccionario

abbrev Clave := List UInt8

structure Valor where
  bytes : List UInt8
  flags : Int
  deriving DecidableEq

def clave (key : Nat → UInt8) (nkey : Nat) : Clave := (List.range nkey).map key

/-- What a client reads of an item that it has. -/
def leer (d : t_diccionario) (it : Ptr) : Option Valor :=
  let info := justice_engine_get_item_info d it
  info.iov_base.map fun base =>
    { bytes := (List.range info.iov_len).map fun i => d.mem (base + i), flags := info.flags }

/-- A client copies its value to where the item says, all of it. -/
def escribir (d : t_diccionario) (it : Ptr) (bytes : List UInt8) : Except Falla t_diccionario :=
  match (justice_engine_get_item_info d it).iov_base with
  | none => .error .puntero_nulo
  | some base =>
    .ok { d with mem := fun a =>
      if base ≤ a ∧ a < base + bytes.length then bytes.getD (a - base) 0 else d.mem a }

/-- A complete set; the flag tells whether it was accepted. -/
def poner (d : t_diccionario) (key : Nat → UInt8) (nkey : Nat) (valor : Valor) (hora : Int) :
    Except Falla (t_diccionario × Bool) :=
  match justice_engine_allocate BuddySystem 0 d key nkey valor.bytes.length valor.flags with
  | .error e => .error e
  | .ok (d, none) => .ok (d, false)
  | .ok (d, some it) =>
    match escribir d it valor.bytes with
    | .error e => .error e
    | .ok d =>
      match justice_engine_store d it hora with
      | .error e => .error e
      | .ok (d, guardado) =>
        match justice_engine_item_release d it with
        | .error e => .error e
        | .ok d => .ok (d, guardado)

def consultar (d : t_diccionario) (key : Nat → UInt8) (nkey : Nat) (hora : Int) :
    Except Falla (t_diccionario × Option Valor) :=
  match justice_engine_get d key nkey hora with
  | .error e => .error e
  | .ok (d, r) => .ok (d, r.bind (leer d))

/-- The complete operations of the clients. -/
inductive Accion
  | set (key : Nat → UInt8) (nkey : Nat) (valor : Valor) (hora : Int)
  | get (key : Nat → UInt8) (nkey : Nat) (hora : Int)
  | remove (key : Nat → UInt8) (nkey : Nat)
  | flush

def atender (turnos : Nat) (d : t_diccionario) : Accion → Except Falla t_diccionario
  | .set key nkey valor hora => (poner d key nkey valor hora).map Prod.fst
  | .get key nkey hora => (consultar d key nkey hora).map Prod.fst
  | .remove key nkey => (justice_engine_item_delete BuddySystem d key nkey).map Prod.fst
  | .flush => justice_engine_flush BuddySystem turnos d

/-- The key of the victim that a search would choose. -/
def elegida (d : t_diccionario) : Option Clave :=
  match diccionario_elegirVictima d with
  | .error _ => none
  | .ok victima => some (clave (d.node victima).key (d.node victima).nkey)

/-- The keys of the victims of a search that is given a number of turns. -/
def desalojadas (data_size turnos : Nat) (d : t_diccionario) : List Clave :=
  (passed (buscar_lugar_buddy data_size) turnos d).filterMap elegida

/-- What an operation does to the keys. A set that is refused has removed the old value. -/
def sucesos (d : t_diccionario) : Accion → List (Cache.Event Clave Valor)
  | .set key nkey valor hora =>
    let victimas := match reemplazar BuddySystem d key nkey with
      | .ok e => desalojadas valor.bytes.length e.turns e
      | .error _ => []
    victimas.map .drop ++ match poner d key nkey valor hora with
      | .ok (_, true) => [.set (clave key nkey) valor]
      | _ => [.delete (clave key nkey)]
  | .get _ _ _ => []
  | .remove key nkey => [.delete (clave key nkey)]
  | .flush => [.clear]

/-- Keys of the length that an element has room for, and sizes that the conversion to `int`
keeps; the time is never 0. -/
def Valida : Accion → Prop
  | .set _ nkey valor hora =>
    (0 < nkey ∧ nkey < KEY_SIZE_MAX) ∧ valor.bytes.length < 2 ^ 31 ∧ hora ≠ 0
  | .get _ _ hora => hora ≠ 0
  | _ => True

/-- The states that complete operations lead to, with what has happened to the keys. -/
inductive Atendidas (K slab : Nat) : t_diccionario → List (Cache.Event Clave Valor) → Prop
  | inicio {d : t_diccionario} : Creado K slab d → Atendidas K slab d []
  | sigue {d e : t_diccionario} {hist : List (Cache.Event Clave Valor)} {a : Accion}
      {turnos : Nat} : Atendidas K slab d hist → Valida a → atender turnos d a = .ok e →
      Atendidas K slab e (hist ++ sucesos d a)

/-- The map that a dictionary stands for when no operation is under way. -/
structure Refleja (K slab : Nat) (d : t_diccionario) (m : Cache Clave Valor) : Prop where
  ordenada : Ordenada (2 ^ K) slab d
  guardadas : Guardadas d
  unicas : Unicas d
  valor : ∀ k v, m k = some v ↔ ∃ q, d.allocated q = true ∧ (d.node q).nkey ≠ 0 ∧
    clave (d.node q).key (d.node q).nkey = k ∧ leer d q = some v

section Steps

variable {d e f g : t_diccionario} {m m' : Cache Clave Valor} {it item p q : Ptr}
  {K slab n nkey k turnos : Nat} {key : Nat → UInt8} {flags hora : Int} {valor v : Valor}

theorem misma_iff : MismaClave d q key nkey ↔
    clave (d.node q).key (d.node q).nkey = clave key nkey := by
  unfold MismaClave clave
  constructor
  · rintro ⟨hn, hk⟩
    rw [hn]
    exact List.map_congr_left fun i hi => hk i (List.mem_range.mp hi)
  · intro h
    have hn : (d.node q).nkey = nkey := by simpa using congrArg List.length h
    rw [hn] at h
    exact ⟨hn, fun i hi => List.map_inj_left.mp h i (List.mem_range.mpr hi)⟩

/-- The value of an element that is left alone. -/
theorem leer_intacta (hi : Intacta d q e) (hcabe : (d.node q).data_size ≤ (d.node q).chunk_size) :
    leer e q = leer d q := by
  have hsize : (e.node q).data_size = (d.node q).data_size :=
    hi.igual t_dict_element.data_size fun _ => rfl
  have hflags : (e.node q).flags = (d.node q).flags := hi.igual t_dict_element.flags fun _ => rfl
  simp only [leer, justice_engine_get_item_info, hi.data, hsize, hflags]
  cases ho : (d.node q).data with
  | none => rfl
  | some o =>
    simp only [Option.map_some, Option.some.injEq, Valor.mk.injEq, and_true]
    refine List.map_congr_left ?_
    intro i hlt
    have := List.mem_range.mp hlt
    exact hi.bytes o ho _ (by omega) (by omega)

theorem Ordenada.tiene_lugar {max : Nat} (h : Ordenada max slab d) (hit : EnLista d it) :
    ∃ o, (d.node it).data = some o := by
  obtain ⟨l, ps, hv, -⟩ := h
  obtain ⟨l', ps', hl', hmem⟩ := hit
  obtain rfl := hv.listas.unique hl'
  obtain ⟨u, w, rfl⟩ := List.append_of_mem hmem
  obtain ⟨o, -, ho, -⟩ := hv.bloques.tiles.piece
  exact ⟨o, ho⟩


namespace Refleja

theorem sano (h : Refleja K slab d m) : Sano .BuddySystem (2 ^ K) slab d :=
  ⟨h.ordenada, h.ordenada.enlistadas, h.unicas⟩

theorem congr (h : Refleja K slab d m) (hm : ∀ k, m' k = m k) : Refleja K slab d m' :=
  ⟨h.ordenada, h.guardadas, h.unicas, fun k v => by rw [hm, h.valor]⟩

theorem cabe (h : Refleja K slab d m) (hq : d.allocated q = true) (hkey : (d.node q).nkey ≠ 0) :
    (d.node q).data_size ≤ (d.node q).chunk_size := by
  obtain ⟨l, ps, hv, hcabe, -⟩ := h.ordenada
  exact hcabe q (hv.mem_of_uso hq (enUso_of_nkey hkey))

/-- Every element with a key has a value. -/
theorem tiene_valor (h : Refleja K slab d m) (hq : d.allocated q = true)
    (hkey : (d.node q).nkey ≠ 0) :
    ∃ v, leer d q = some v ∧ m (clave (d.node q).key (d.node q).nkey) = some v := by
  obtain ⟨o, ho⟩ := h.ordenada.tiene_lugar (h.ordenada.enlistadas q hq hkey)
  obtain ⟨v, hleer⟩ : ∃ v, leer d q = some v := by
    simp only [leer, justice_engine_get_item_info, ho, Option.map_some]
    exact ⟨_, rfl⟩
  exact ⟨v, hleer, (h.valor _ _).mpr ⟨q, hq, hkey, rfl, hleer⟩⟩

theorem sin_valor (h : Refleja K slab d m)
    (hno : ∀ q, d.allocated q = true → (d.node q).nkey ≠ 0 → ¬ MismaClave d q key nkey) :
    m (clave key nkey) = none := by
  cases hm : m (clave key nkey) with
  | none => rfl
  | some v =>
    obtain ⟨q, hq, hkey, hclave, -⟩ := (h.valor _ _).mp hm
    exact absurd (misma_iff.mpr hclave) (hno q hq hkey)

/-- A release takes the value of its element away, and no other. -/
theorem eliminar (h : Refleja K slab d m) (hin : EnLista d it)
    (hok : diccionario_eliminar_buddy d it = .ok e) :
    Refleja K slab e (m.delete (clave (d.node it).key (d.node it).nkey)) := by
  obtain ⟨e', he', ho, hl, ha, hm⟩ := h.ordenada.eliminar hin
  rw [hok] at he'
  obtain rfl := Except.ok.inj he'
  have hp := ha.persiste hm hl
  have hne : ∀ q, (e.node q).nkey ≠ 0 → q ≠ it := by
    rintro q hkey rfl
    exact hkey hl.nkey
  refine ⟨ho, ha.guardadas hm hl h.guardadas, hp.unicas h.unicas, ?_⟩
  · intro k v
    constructor
    · intro hk
      have hkit : k ≠ clave (d.node it).key (d.node it).nkey := by
        rintro rfl
        rw [Cache.delete_self] at hk
        exact absurd hk (by simp)
      rw [Cache.delete_of_ne hkit] at hk
      obtain ⟨q, hq, hkey, rfl, hv⟩ := (h.valor k v).mp hk
      have hqit : q ≠ it := by
        rintro rfl
        exact hkit rfl
      have hi := (ha.quieta hm hqit (enUso_of_nkey hkey)).intacta
      refine ⟨q, (hp.allocated q).trans hq, hi.nkey ▸ hkey, ?_, ?_⟩
      · rw [hi.nkey, hi.igual t_dict_element.key fun _ => rfl]
      · rw [leer_intacta hi (h.cabe hq hkey), hv]
    · rintro ⟨q, hq, hkey, rfl, hv⟩
      have hqd := (hp.allocated q).symm.trans hq
      have hi := (hp.quieta q hqd (by simp) hkey).intacta
      have hkeyd : (d.node q).nkey ≠ 0 := hi.nkey ▸ hkey
      rw [hi.nkey, hi.igual t_dict_element.key fun _ => rfl]
      rw [leer_intacta hi (h.cabe hqd hkeyd)] at hv
      rw [Cache.delete_of_ne]
      · exact (h.valor _ _).mpr ⟨q, hqd, hkeyd, rfl, hv⟩
      · intro heq
        exact hne q hkey (h.unicas q it hqd hin.allocated hkeyd (misma_iff.mpr heq.symm))

/-- What only touches ages leaves the map as it is. -/
theorem intacta (h : Refleja K slab d m) (ho : Ordenada (2 ^ K) slab e)
    (hi : ∀ q, Intacta d q e) (hocupado : ∀ q, (e.node q).ocupado = (d.node q).ocupado)
    (hhour : ∀ q, (d.node q).hour ≠ 0 → (e.node q).hour ≠ 0) : Refleja K slab e m := by
  have hall : ∀ q, e.allocated q = d.allocated q := fun q =>
    (show Modo.BuddySystem.Bien (2 ^ K) slab d from h.ordenada).allocated ho
  have hsano := h.sano.of_intacta ho hi
  have hclave : ∀ q, clave (e.node q).key (e.node q).nkey = clave (d.node q).key (d.node q).nkey :=
    fun q => by rw [(hi q).nkey, (hi q).igual t_dict_element.key fun _ => rfl]
  refine ⟨ho, ?_, hsano.unicas, ?_⟩
  · intro q hq hu
    have hud : enUso (d.node q) = true := by
      simpa [enUso, estaReservado, hocupado q, (hi q).nkey] using hu
    obtain ⟨hkey, hstored, hdate⟩ := h.guardadas q ((hall q).symm.trans hq) hud
    exact ⟨(hi q).nkey ▸ hkey, (hocupado q).trans hstored, hhour q hdate⟩
  · intro k v
    rw [h.valor]
    refine exists_congr fun q => ?_
    rw [hall, hclave, (hi q).nkey]
    refine and_congr_right fun hq => and_congr_right fun hkey => and_congr_right fun _ => ?_
    rw [leer_intacta (hi q) (h.cabe hq hkey)]

/-- A search drops the values of its victims. -/
theorem busca (h : Refleja K slab d m) {r : t_diccionario × Option Ptr}
    (hok : loop .no_termina (buscar_lugar_buddy n) k d = .ok r) :
    ∃ f, Refleja K slab f (((desalojadas n k d).map .drop).foldl Cache.apply m) ∧
      Turno f n (aux_data_size n slab) (.ok (.inr r)) := by
  induction k generalizing d m with
  | zero => simp [loop] at hok
  | succ k ih =>
    have hturno := h.ordenada.turno (n := n)
    rcases loop_succ hok with hturn | ⟨e, hturn, hrest⟩
    · rw [hturn] at hturno
      rw [desalojadas, passed_inr hturn]
      exact ⟨d, h, hturno⟩
    · rw [hturn] at hturno
      cases hturno with
      | @desaloja victima _ _ hvictima hin _ hel =>
        have hkey : elegida d = some (clave (d.node victima).key (d.node victima).nkey) := by
          rw [elegida, hvictima]
        rw [desalojadas, passed_inl hturn, List.filterMap_cons, hkey]
        exact ih (h.eliminar hin hel) hrest

/-- An allocation first removes the value that the key has. -/
theorem reemplaza (h : Refleja K slab d m) (hok : reemplazar BuddySystem d key nkey = .ok e) :
    Refleja K slab e (m.delete (clave key nkey)) := by
  rcases reemplazar_cases hok with ⟨rfl, hno⟩ | ⟨it, it', hobt, -, hel⟩
  · rw [Cache.delete_eq_self]
    · exact h
    · refine h.sin_valor ?_
      intro q hq hkey hc
      have hobt := h.sano.obtener (h.sano.enlistadas q hq hkey) (hc.1 ▸ hkey) hc
      have hocupado := (h.guardadas q hq (enUso_of_nkey hkey)).2.1
      rw [hno q hobt] at hocupado
      exact absurd hocupado (by simp)
  · obtain ⟨l, ps, hv, -⟩ := id h.ordenada
    obtain ⟨hmem, -, hc⟩ := obtener_en_lista hv.listas hobt
    rw [← misma_iff.mp hc]
    exact h.eliminar ⟨l, ps, hv.listas, hmem⟩ (f_eliminar_buddy_ok hel).1

/-- A free chunk becomes the stored value of a key that has none. -/
theorem asigna (h : Refleja K slab f m) (hno : m (clave key nkey) = none)
    (ho : Ordenada (2 ^ K) slab e) (hall : e.allocated item = true)
    (hc : MismaClave e item key nkey)
    (hitem : (e.node item).nkey ≠ 0 ∧ (e.node item).ocupado = true ∧ (e.node item).hour ≠ 0)
    (hleer : leer e item = some v) (hlibre : enUso (f.node item) = false)
    (huso : ∀ q, q ≠ item → enUso (e.node q) = enUso (f.node q))
    (hother : ∀ q, q ≠ item → f.allocated q = true → enUso (f.node q) = true → Quieta f q e) :
    Refleja K slab e (m.set (clave key nkey) v) := by
  have hsame : ∀ q, e.allocated q = f.allocated q := fun q =>
    (show Modo.BuddySystem.Bien (2 ^ K) slab f from h.ordenada).allocated ho
  have hquiet : ∀ q, q ≠ item → e.allocated q = true → enUso (e.node q) = true →
      f.allocated q = true ∧ Quieta f q e := fun q hne hq hu =>
    ⟨hsame q ▸ hq, hother q hne (hsame q ▸ hq) (huso q hne ▸ hu)⟩
  have hclave : ∀ q, Quieta f q e →
      clave (e.node q).key (e.node q).nkey = clave (f.node q).key (f.node q).nkey :=
    fun q hq => by rw [hq.intacta.nkey, hq.intacta.igual t_dict_element.key fun _ => rfl]
  -- the key is that of no other element
  have hnew : ∀ q, q ≠ item → e.allocated q = true → (e.node q).nkey ≠ 0 →
      clave (e.node q).key (e.node q).nkey ≠ clave key nkey := by
    intro q hne hq hkey heq
    obtain ⟨hqf, hqq⟩ := hquiet q hne hq (enUso_of_nkey hkey)
    obtain ⟨w, -, hw⟩ := h.tiene_valor hqf (hqq.intacta.nkey ▸ hkey)
    rw [← hclave q hqq, heq, hno] at hw
    exact absurd hw (by simp)
  refine ⟨ho, ?_, ?_, ?_⟩
  · intro q hq hu
    by_cases hne : q = item
    · exact hne ▸ hitem
    · obtain ⟨hqf, hqq⟩ := hquiet q hne hq hu
      exact hqq.guardada (h.guardadas q hqf (hqq.enUso.symm.trans hu))
  · intro p q hp hq hkey hpq
    have hkeyq : (e.node q).nkey ≠ 0 := hpq.1 ▸ hkey
    have heq := misma_iff.mp hpq
    by_cases hpi : p = item
    · by_contra hne
      have hqi : q ≠ item := fun hqi => hne (hpi.trans hqi.symm)
      refine hnew q hqi hq hkeyq (heq.trans ?_)
      rw [hpi]
      exact misma_iff.mp hc
    · by_cases hqi : q = item
      · refine absurd (heq.symm.trans ?_) (hnew p hpi hp hkey)
        rw [hqi]
        exact misma_iff.mp hc
      · obtain ⟨hpf, hpp⟩ := hquiet p hpi hp (enUso_of_nkey hkey)
        obtain ⟨hqf, hqq⟩ := hquiet q hqi hq (enUso_of_nkey hkeyq)
        rw [hclave p hpp, hclave q hqq] at heq
        exact h.unicas p q hpf hqf (hpp.intacta.nkey ▸ hkey) (misma_iff.mpr heq)
  · intro k w
    by_cases hk : k = clave key nkey
    · subst hk
      rw [Cache.set_self]
      constructor
      · intro hw
        exact ⟨item, hall, hitem.1, misma_iff.mp hc, hleer.trans hw⟩
      · rintro ⟨q, hq, hkey, heq, hw⟩
        by_cases hqi : q = item
        · rw [← hw, hqi, hleer]
        · exact absurd heq (hnew q hqi hq hkey)
    · rw [Cache.set_of_ne hk, h.valor]
      constructor
      · rintro ⟨q, hq, hkey, rfl, hw⟩
        have hqi : q ≠ item := by
          rintro rfl
          rw [enUso_of_nkey hkey] at hlibre
          exact absurd hlibre (by simp)
        have hqq := hother q hqi hq (enUso_of_nkey hkey)
        exact ⟨q, (hsame q).trans hq, hqq.intacta.nkey ▸ hkey, hclave q hqq,
          (leer_intacta hqq.intacta (h.cabe hq hkey)).trans hw⟩
      · rintro ⟨q, hq, hkey, rfl, hw⟩
        have hqi : q ≠ item := by
          rintro rfl
          exact hk (misma_iff.mp hc)
        obtain ⟨hqf, hqq⟩ := hquiet q hqi hq (enUso_of_nkey hkey)
        have hkeyf : (f.node q).nkey ≠ 0 := hqq.intacta.nkey ▸ hkey
        rw [leer_intacta hqq.intacta (h.cabe hqf hkeyf)] at hw
        exact ⟨q, hqf, hkeyf, (hclave q hqq).symm, hw⟩

end Refleja

theorem leer_escribir {bytes : List UInt8} (hok : escribir d it bytes = .ok e)
    (hsize : (d.node it).data_size = bytes.length) :
    leer e it = some ⟨bytes, (d.node it).flags⟩ := by
  unfold escribir at hok
  simp only [justice_engine_get_item_info] at hok
  cases ho : (d.node it).data with
  | none => simp [ho] at hok
  | some o =>
    simp only [ho] at hok
    obtain rfl := Except.ok.inj hok
    simp only [leer, justice_engine_get_item_info, ho, hsize, Option.map_some, Option.some.injEq,
      Valor.mk.injEq, and_true]
    refine List.ext_getElem (by simp) ?_
    intro i _ hi
    simp [hi]

theorem node_escribir {bytes : List UInt8} (hok : escribir d it bytes = .ok e) :
    ∃ mem, e = { d with mem := mem } := by
  unfold escribir at hok
  split at hok
  · simp at hok
  · exact ⟨_, (Except.ok.inj hok).symm⟩

/-- What is copied stays in its chunk. -/
theorem Ordenada.escribir {bytes : List UInt8} {max : Nat} (h : Ordenada max slab d)
    (hit : EnLista d it) (hq : EnLista d q) (hne : q ≠ it)
    (hsize : (d.node it).data_size = bytes.length) (hok : escribir d it bytes = .ok e) :
    Quieta d q e := by
  obtain ⟨l, ps, hv, hcabe, -⟩ := h
  obtain ⟨l', ps', hl', hmem⟩ := hit
  obtain rfl := hv.listas.unique hl'
  obtain ⟨l', ps', hl', hmemq⟩ := hq
  obtain rfl := hv.listas.unique hl'
  have hfits := hcabe it hmem
  unfold LaLiga.Rc.escribir at hok
  simp only [justice_engine_get_item_info] at hok
  cases ho : (d.node it).data with
  | none => simp [ho] at hok
  | some o =>
    simp only [ho] at hok
    obtain rfl := Except.ok.inj hok
    refine ⟨rfl, ?_⟩
    intro a ha i hle hlt
    have hdisj := hv.bloques.tiles.disjoint hmemq hmem hne ha ho
    exact if_neg (by omega)

/-- The client writes its value into the chunk that it was given, stores it and releases it. -/
theorem Refleja.guarda (h : Refleja K slab f m) (hno : m (clave key nkey) = none)
    (hlibre : enUso (f.node item) = false) (ha : Ajeno f item g) (hm : g.mem = f.mem)
    (he : e = nombrar (reservar g item valor.bytes.length) item key nkey valor.flags)
    (hs : Sano .BuddySystem (2 ^ K) slab e) (ht : Tiene .BuddySystem (2 ^ K) slab e item)
    (hent : Entregada e item key nkey valor.bytes.length valor.flags) (hpos : nkey ≠ 0)
    (hhora : hora ≠ 0) :
    ∃ e₂ e₃, escribir e item valor.bytes = .ok e₂ ∧
      justice_engine_store e₂ item hora = .ok (e₃, true) ∧
      justice_engine_item_release e₃ item = .ok e₃ ∧
      Refleja K slab e₃ (m.set (clave key nkey) valor) := by
  have ho : Ordenada (2 ^ K) slab e := hs.bien
  have hkey : (e.node item).nkey ≠ 0 := by rwa [hent.clave.1]
  obtain ⟨o, hdata⟩ := ho.tiene_lugar ht.en_lista
  obtain ⟨e₂, hwrite⟩ : ∃ e₂, escribir e item valor.bytes = .ok e₂ := by
    unfold escribir
    simp only [justice_engine_get_item_info, hdata]
    exact ⟨_, rfl⟩
  obtain ⟨datos, rfl⟩ := node_escribir hwrite
  have hs₂ : Sano .BuddySystem (2 ^ K) slab { e with mem := datos } := hs.con_mem
  have hobt := hs₂.obtener (q := item) (hs₂.enlistadas item ht.allocated hkey) hkey .propia
  have hstore : justice_engine_store { e with mem := datos } item hora =
      .ok ({ e with mem := datos }.modificar item
        (fun i => { i with ocupado := true, hour := hora }), true) := by
    simp only [justice_engine_store, hobt]
  have hleer := leer_escribir hwrite hent.data_size
  refine ⟨_, _, hwrite, hstore, by simp [justice_engine_item_release], ?_⟩
  have hord := Ordenada.store hs₂.bien hstore
  refine h.asigna hno hord ht.allocated ?_ ?_ ?_ hlibre ?_ ?_
  · simpa [MismaClave] using hent.clave
  · simpa using ⟨hkey, hhora⟩
  · rw [hent.flags] at hleer
    rw [← show some valor = some ⟨valor.bytes, valor.flags⟩ from rfl] at hleer
    rw [← hleer]
    simp [leer, justice_engine_get_item_info]
  · intro q hne
    rw [← ha.uso q hne]
    simp [hne, he, nombrar, reservar]
  · intro q hne hq hu
    have hquiet : Quieta f q e := by
      rw [he]
      exact (ha.quieta hm hne hu).trans (nombrar_quieta hne)
    have hqe : EnLista e q := by
      refine ho.en_lista ?_ (hquiet.enUso.trans hu)
      rwa [(show Modo.BuddySystem.Bien (2 ^ K) slab f from h.ordenada).allocated ho]
    have hwritten := ho.escribir ht.en_lista hqe hne hent.data_size hwrite
    exact (hquiet.trans hwritten).trans (.of_contenido (by simp [hne]) rfl)

namespace Refleja

theorem obtener_ok (h : Refleja K slab d m) (key : Nat → UInt8) (nkey : Nat) :
    ∃ r, diccionario_obtener d key nkey = .ok r := by
  obtain ⟨l, ps, hv, -⟩ := h.ordenada
  exact ⟨_, buscar_eq hv.listas.dlist.next hv.listas.head
    (Nat.lt_succ_iff.mp hv.listas.length_lt_turns)⟩

theorem f_eliminar_ok (h : Refleja K slab d m)
    (hobt : diccionario_obtener d key nkey = .ok (some it)) :
    ∃ x, BuddySystem.f_eliminar d it = .ok x := by
  obtain ⟨e, he, -⟩ := h.ordenada.eliminar (h.ordenada.obtener hobt).1
  refine ⟨(e, it), ?_⟩
  simp only [f_eliminar_buddy, he, Except.map]

/-- A complete set: what it drops, and then the value of its key. It is refused only if the
value does not fit the memory. -/
theorem pone (h : Refleja K slab d m) (hv : Valida (.set key nkey valor hora)) :
    ∃ e r, poner d key nkey valor hora = .ok (e, r) ∧
      (r = true ↔ aux_data_size valor.bytes.length slab ≤ 2 ^ K) ∧
      Refleja K slab e ((sucesos d (.set key nkey valor hora)).foldl Cache.apply m) := by
  obtain ⟨⟨hpos, hlt⟩, hsize, hhora⟩ := hv
  obtain ⟨o, hobt⟩ := h.obtener_ok key nkey
  obtain ⟨d₁, hree⟩ := reemplazar_ok (E := BuddySystem) hobt
    (fun it hit => h.f_eliminar_ok (hit ▸ hobt))
  have h₁ := h.reemplaza hree
  obtain ⟨⟨d₂, r⟩, hsearch⟩ := h₁.ordenada.busca (n := valor.bytes.length) h₁.guardadas
  obtain ⟨f, hf, hturno⟩ := h₁.busca hsearch
  have hsearch' : BuddySystem.f_obtenerDireccion 0 d₁ valor.bytes.length = .ok (d₂, r) := by
    rw [f_obtenerDireccion_buddy, hsearch]
  obtain ⟨vs, hvs⟩ : ∃ vs, desalojadas valor.bytes.length d₁.turns d₁ = vs := ⟨_, rfl⟩
  rw [hvs] at hf
  -- the old value of the key is gone, and the victims are others
  have hnone : ((vs.map .drop).foldl Cache.apply (m.delete (clave key nkey))) (clave key nkey) =
      none := Cache.foldl_drop Cache.delete_self
  have hkeep : ∀ k, k ≠ clave key nkey →
      ((vs.map .drop).foldl Cache.apply (m.delete (clave key nkey))) k =
        ((vs.map .drop).foldl Cache.apply m) k :=
    fun k hk => Cache.foldl_apply_congr (Cache.delete_of_ne hk)
  cases hturno with
  | grande hbig =>
    have hponer : poner d key nkey valor hora = .ok (d₂, false) := by
      simp only [poner, allocate_none hree hsearch']
    have hmax : d₂.table_max_size = 2 ^ K := by
      obtain ⟨-, -, -, -, hmax, -⟩ := hf.ordenada
      exact hmax
    rw [hmax] at hbig
    refine ⟨_, _, hponer, by simp [hbig], ?_⟩
    simp only [sucesos, hree, hponer, hvs, List.foldl_append, List.foldl_cons, List.foldl_nil]
    refine hf.congr fun k => ?_
    by_cases hk : k = clave key nkey
    · rw [hk, hnone]
      exact Cache.delete_self
    · rw [hkeep k hk]
      exact Cache.delete_of_ne hk
  | @lugar item g hin hlibre hp hsmall ha hm =>
    have halloc := allocate_some hree hsearch' hlt valor.flags
    have hc : PermitidaBuddy d (.allocate key nkey valor.bytes.length valor.flags) :=
      ⟨⟨hpos, hlt, hsize⟩, fun it hit => by cases hit⟩
    have hpos : nkey ≠ 0 := Nat.pos_iff_ne_zero.mp hpos
    have hsuc : Sucesivos d (.allocate key nkey valor.bytes.length valor.flags) := by
      intro p hinp hcp
      exact (h.guardadas p hinp.allocated (enUso_of_nkey (hcp.1 ▸ hpos))).2.1
    obtain ⟨ht, hent⟩ := allocate_tiene (m := .BuddySystem) h.ordenada hc halloc
    obtain ⟨hs, -⟩ := h.sano.allocate hc trivial hsuc halloc
    obtain ⟨e₂, e₃, hwrite, hstore, hrelease, href⟩ :=
      hf.guarda hnone hlibre ha hm rfl hs ht hent hpos hhora
    have hponer : poner d key nkey valor hora = .ok (e₃, true) := by
      simp only [poner, halloc, hwrite, hstore, hrelease]
    have hfits : aux_data_size valor.bytes.length slab ≤ 2 ^ K := by
      obtain ⟨-, -, -, -, hmax, -⟩ := hf.ordenada
      obtain ⟨u, w, ps, hv⟩ := hp.valido
      have hle := hv.size_le
      have := hp.fits
      rw [hp.max, hmax] at hle
      omega
    refine ⟨_, _, hponer, by simp [hfits], ?_⟩
    simp only [sucesos, hree, hponer, hvs, List.foldl_append, List.foldl_cons, List.foldl_nil]
    refine href.congr fun k => ?_
    by_cases hk : k = clave key nkey
    · rw [hk]
      exact Cache.set_self.trans Cache.set_self.symm
    · rw [Cache.set_of_ne hk, hkeep k hk]
      exact Cache.set_of_ne hk

/-- A complete get answers what the map has, and changes nothing but an age. -/
theorem consulta (h : Refleja K slab d m) (key : Nat → UInt8) (nkey : Nat) (hora : Int) :
    ∃ e, consultar d key nkey hora = .ok (e, m (clave key nkey)) ∧
      (hora ≠ 0 → Refleja K slab e m) := by
  obtain ⟨o, hobt⟩ := h.obtener_ok key nkey
  cases o with
  | none =>
    have hget : justice_engine_get d key nkey hora = .ok (d, none) := by
      simp only [justice_engine_get, hobt]
    have hno : m (clave key nkey) = none := by
      refine h.sin_valor ?_
      intro q hq hkey hc
      rw [h.sano.obtener (h.sano.enlistadas q hq hkey) (hc.1 ▸ hkey) hc] at hobt
      exact absurd hobt (by simp)
    refine ⟨d, ?_, fun _ => h⟩
    simp only [consultar, hget, hno, Option.bind_none]
  | some it =>
    obtain ⟨l, ps, hv, -⟩ := id h.ordenada
    obtain ⟨hmem, hkey, hc⟩ := obtener_en_lista hv.listas hobt
    have hall := hv.allocated hmem
    have hocupado := (h.guardadas it hall (enUso_of_nkey hkey)).2.1
    obtain ⟨v, hleer, hm⟩ := h.tiene_valor hall hkey
    rw [misma_iff.mp hc] at hm
    obtain ⟨e, hget⟩ : ∃ e, justice_engine_get d key nkey hora = .ok (e, some it) := by
      simp only [justice_engine_get, hobt, hocupado, if_true]
      exact ⟨_, rfl⟩
    have hi : ∀ q, Intacta d q e := fun q => (get_intacta hget).1
    refine ⟨e, ?_, fun hhora => h.intacta (h.ordenada.get hget) hi ?_ ?_⟩
    · simp only [consultar, hget, Option.bind_some, hm, leer_intacta (hi it) (h.cabe hall hkey),
        hleer]
    · intro q
      refine (get_intacta hget).2 ?_
      rintro ⟨item, hora', heq, -⟩
      cases heq
    · intro q hq
      rcases get_cases hget with ⟨rfl, -⟩ | ⟨it', -, -, -, rfl | rfl⟩
      · exact hq
      · exact hq
      · rw [node_modificar]
        split_ifs
        · exact hhora
        · exact hq

theorem quita (h : Refleja K slab d m) {r : Bool}
    (hok : justice_engine_item_delete BuddySystem d key nkey = .ok (e, r)) :
    Refleja K slab e (m.delete (clave key nkey)) := by
  rcases item_delete_cases hok with ⟨rfl, -, hobt⟩ | ⟨it, it', hobt, -, hel⟩
  · rw [Cache.delete_eq_self]
    · exact h
    · refine h.sin_valor ?_
      intro q hq hkey hc
      rw [h.sano.obtener (h.sano.enlistadas q hq hkey) (hc.1 ▸ hkey) hc] at hobt
      exact absurd hobt (by simp)
  · obtain ⟨l, ps, hv, -⟩ := id h.ordenada
    obtain ⟨hmem, -, hc⟩ := obtener_en_lista hv.listas hobt
    rw [← misma_iff.mp hc]
    exact h.eliminar ⟨l, ps, hv.listas, hmem⟩ (f_eliminar_buddy_ok hel).1

theorem vacia (h : Refleja K slab d m) (hok : justice_engine_flush BuddySystem turnos d = .ok e) :
    Refleja K slab e Cache.empty := by
  obtain ⟨ho, hfree⟩ := h.ordenada.flush h.guardadas hok
  have hzero : ∀ q, e.allocated q = true → (e.node q).nkey = 0 :=
    fun q hq => (enUso_eq_false.mp (hfree q hq)).2
  refine ⟨ho, ?_, ?_, ?_⟩
  · intro q hq hu
    rw [hfree q hq] at hu
    exact absurd hu (by simp)
  · intro p q hp _ hkey
    exact absurd (hzero p hp) hkey
  · intro k v
    constructor
    · intro hk
      exact absurd hk (by simp)
    · rintro ⟨q, hq, hkey, -⟩
      exact absurd (hzero q hq) hkey

/-- Every operation returns, and does to the map what its events say. -/
theorem atiende (h : Refleja K slab d m) {a : Accion} (hv : Valida a)
    (hok : atender turnos d a = .ok e) : Refleja K slab e ((sucesos d a).foldl Cache.apply m) := by
  cases a with
  | set key nkey valor hora =>
    obtain ⟨e', r, hponer, -, href⟩ := h.pone hv
    simp only [atender, hponer, Except.map] at hok
    obtain rfl := Except.ok.inj hok
    exact href
  | get key nkey hora =>
    obtain ⟨e', hget, href⟩ := h.consulta key nkey hora
    simp only [atender, hget, Except.map] at hok
    obtain rfl := Except.ok.inj hok
    exact href hv
  | remove key nkey =>
    obtain ⟨r, hok⟩ := exists_of_map_fst hok
    exact h.quita hok
  | flush => exact h.vacia hok

theorem atender_ok (h : Refleja K slab d m) {a : Accion} (hv : Valida a) :
    ∃ turnos e, atender turnos d a = .ok e := by
  cases a with
  | set key nkey valor hora =>
    obtain ⟨e, r, hponer, -⟩ := h.pone hv
    exact ⟨0, e, by simp only [atender, hponer, Except.map]⟩
  | get key nkey hora =>
    obtain ⟨e, hget, -⟩ := h.consulta key nkey hora
    exact ⟨0, e, by simp only [atender, hget, Except.map]⟩
  | remove key nkey =>
    obtain ⟨o, hobt⟩ := h.obtener_ok key nkey
    obtain ⟨x, hx⟩ := item_delete_ok (E := BuddySystem) hobt
      (fun it hit => h.f_eliminar_ok (hit ▸ hobt))
    exact ⟨0, x.1, by simp only [atender, hx, Except.map]⟩
  | flush => exact h.ordenada.flush_ok h.guardadas

end Refleja

theorem refleja_creado (h : Creado K slab d) : Refleja K slab d Cache.empty := by
  have hcreada : Modo.BuddySystem.Creada (2 ^ K) slab d := ⟨K, rfl, h⟩
  obtain ⟨hs, hzero⟩ := sano_creada hcreada
  refine ⟨hs.bien, ?_, hs.unicas, ?_⟩
  · intro q hq hu
    rw [(creado_limpio h hq).libre] at hu
    exact absurd hu (by simp)
  · intro k v
    constructor
    · intro hk
      exact absurd hk (by simp)
    · rintro ⟨q, hq, hkey, -⟩
      exact absurd (hzero q hq) hkey

theorem refleja_atendidas {hist : List (Cache.Event Clave Valor)} (h : Atendidas K slab d hist) :
    Refleja K slab d (Cache.replay hist) := by
  induction h with
  | inicio hc => exact refleja_creado hc
  | sigue _ hv hok ih =>
    rw [Cache.replay_append]
    exact ih.atiende hv hok

end Steps

/-- A get hits if and only if the last thing that has happened to its key is a set, and answers
its bytes and flags; what does not concern a key does not change its value. -/
theorem mapa_correcto {K slab : Nat} {d : t_diccionario} {hist : List (Cache.Event Clave Valor)}
    (h : Atendidas K slab d hist) (key : Nat → UInt8) (nkey : Nat) (hora : Int) :
    (∃ e r, consultar d key nkey hora = .ok (e, r) ∧
      ∀ v, r = some v ↔ (hist.filter (Cache.Event.concerns (clave key nkey))).getLast? =
        some (.set (clave key nkey) v)) ∧
    ∀ a, Valida a → (∃ turnos e, atender turnos d a = .ok e) ∧
      ∀ turnos e, atender turnos d a = .ok e →
        (∀ s ∈ sucesos d a, s.concerns (clave key nkey) = false) →
        (consultar e key nkey hora).map Prod.snd = (consultar d key nkey hora).map Prod.snd := by
  have hr := refleja_atendidas h
  obtain ⟨d', hget, -⟩ := hr.consulta key nkey hora
  refine ⟨⟨d', _, hget, fun v => Cache.replay_eq_some⟩, ?_⟩
  intro a hv
  refine ⟨hr.atender_ok hv, ?_⟩
  intro turnos e hok hno
  obtain ⟨e', hget', -⟩ := (hr.atiende hv hok).consulta key nkey hora
  rw [hget, hget', Cache.foldl_apply_of_not_concerns hno]
  rfl

/-- A key is set and its value read. -/
theorem mapa_correcto_una : ∃ d e, Atendidas 2 1 d [.set [97] ⟨[7], 0⟩] ∧
    consultar d (fun _ => 97) 1 2 = .ok (e, some ⟨[7], 0⟩) := by
  obtain ⟨d, hset⟩ : ∃ d, atender 0 (diccionario_crear_buddy default 4 1)
      (.set (fun _ => 97) 1 ⟨[7], 0⟩ 1) = .ok d := ⟨_, rfl⟩
  have hcreado : Creado 2 1 (diccionario_crear_buddy default 4 1) :=
    ⟨by decide, by decide, default, rfl⟩
  have hvalida : Valida (.set (fun _ => 97) 1 ⟨[7], 0⟩ 1) := ⟨by decide, by decide, by decide⟩
  have hd : Atendidas 2 1 d [.set [97] ⟨[7], 0⟩] := .sigue (.inicio hcreado) hvalida hset
  obtain ⟨⟨e, r, hget, hr⟩, -⟩ := mapa_correcto hd (fun _ => 97) 1 2
  refine ⟨d, e, hd, ?_⟩
  rw [hget, (hr ⟨[7], 0⟩).mpr rfl]

/-- A size that the conversion to `int` makes negative gets a chunk of the size of a slab: the
value that is copied there goes over that of another key. -/
theorem valor_pisado : ∃ d e hist bytes, Atendidas 2 1 d hist ∧ bytes.length = 2 ^ 31 ∧
    atender 0 d (.set (fun _ => 97) 1 ⟨bytes, 0⟩ 1) = .ok e ∧
    (∀ s ∈ sucesos d (.set (fun _ => 97) 1 ⟨bytes, 0⟩ 1), s.concerns (clave (fun _ => 98) 1) =
      false) ∧
    (consultar d (fun _ => 98) 1 2).map Prod.snd = .ok (some ⟨[8], 0⟩) ∧
    (consultar e (fun _ => 98) 1 2).map Prod.snd = .ok (some ⟨[9], 0⟩) := by
  have hcreado : Creado 2 1 (diccionario_crear_buddy default 4 1) :=
    ⟨by decide, by decide, default, rfl⟩
  obtain ⟨d₁, d, d₂, e, hset, hset', hree, hvictimas, halloc, hdata, hcons, hrest⟩ :
      ∃ d₁ d d₂ e, atender 0 (diccionario_crear_buddy default 4 1)
        (.set (fun _ => 97) 1 ⟨[7], 0⟩ 1) = .ok d₁ ∧
      atender 0 d₁ (.set (fun _ => 98) 1 ⟨[8], 0⟩ 1) = .ok d ∧
      reemplazar BuddySystem d (fun _ => 97) 1 = .ok d₂ ∧
      desalojadas 2147483648 d₂.turns d₂ = [] ∧
      justice_engine_allocate BuddySystem 0 d (fun _ => 97) 1 2147483648 0 =
        .ok (e, some .element) ∧ (e.node .element).data = some 0 ∧
      (consultar d (fun _ => 98) 1 2).map Prod.snd = .ok (some ⟨[8], 0⟩) ∧
      ∀ mem, ∃ f, justice_engine_store { e with mem := mem } .element 1 = .ok (f, true) ∧
        justice_engine_item_release f .element = .ok f ∧
        (consultar f (fun _ => 98) 1 2).map Prod.snd = .ok (some ⟨[mem 1], 0⟩) :=
    ⟨_, _, _, _, rfl, rfl, rfl, rfl, rfl, rfl, rfl, fun _ => ⟨_, rfl, rfl, rfl⟩⟩
  have hbytes : ∀ n, 1 < n → ∃ bytes : List UInt8, bytes.length = n ∧ bytes.getD 1 0 = 9 :=
    fun n hn => ⟨List.replicate n 9, List.length_replicate, by simp [hn]⟩
  obtain ⟨bytes, hlen, hnine⟩ := hbytes 2147483648 (by decide)
  obtain ⟨datos, hdatos, hbyte⟩ : ∃ mem, escribir e .element bytes = .ok { e with mem := mem } ∧
      mem 1 = 9 := by
    simp only [escribir, justice_engine_get_item_info, hdata]
    refine ⟨_, rfl, ?_⟩
    rw [if_pos (by omega)]
    exact hnine
  obtain ⟨f, hstore, hrelease, hcons'⟩ := hrest datos
  have hponer : poner d (fun _ => 97) 1 ⟨bytes, 0⟩ 1 = .ok (f, true) := by
    simp only [poner, hlen, halloc, hdatos, hstore, hrelease]
  have hvalida : ∀ key b, Valida (.set key 1 ⟨[b], 0⟩ 1) := by
    intro key b
    simp [Valida, KEY_SIZE_MAX]
  refine ⟨d, f, _, bytes, .sigue (.sigue (.inicio hcreado) (hvalida _ 7) hset) (hvalida _ 8) hset',
    hlen, ?_, ?_, hcons, ?_⟩
  · simp only [atender, hponer, Except.map]
  · simp only [sucesos, hree, hlen, hvictimas, hponer, List.map_nil, List.nil_append,
      List.mem_singleton, forall_eq, Cache.Event.concerns]
    decide
  · rw [hcons', hbyte]

end LaLiga.Rc
