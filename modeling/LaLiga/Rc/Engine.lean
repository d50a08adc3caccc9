import LaLiga.Lib.Transition
import LaLiga.Rc.Dinamicas

/-! The calls of the engine. -/
namespace LaLiga.Rc

open LaLiga.Lib t_diccionario

def KEY_SIZE_MAX : Nat := 45

/-- The routines that the configured scheme installs. -/
structure Esquema where
  f_eliminar : t_diccionario → Ptr → Except Falla (t_diccionario × Ptr)
  f_obtenerDireccion : Nat → t_diccionario → Nat → Except Falla (t_diccionario × Option Ptr)

def ParticionesDinamicas : Esquema where
  f_eliminar := diccionario_eliminar
  f_obtenerDireccion := diccionario_obtenerDireccion

def limpiar_turno (E : Esquema) (s : t_diccionario × Option Ptr) :
    Except Falla ((t_diccionario × Option Ptr) ⊕ t_diccionario) :=
  match s.2 with
  | none => .ok (.inr s.1)
  | some item =>
    if (s.1.node item).nkey ≠ 0 then
      match E.f_eliminar s.1 item with
      | .error e => .error e
      | .ok (self, item) => .ok (.inl (self, (self.node item).next))
    else .ok (.inl (s.1, (s.1.node item).next))

def diccionario_limpiar (E : Esquema) (turnos : Nat) (self : t_diccionario) :
    Except Falla t_diccionario :=
  loop .no_termina (limpiar_turno E) turnos (self, self.elements)

/-- What `justice_engine_allocate` does first: a stored element of that key is removed. -/
def reemplazar (E : Esquema) (cache : t_diccionario) (key : Nat → UInt8) (nkey : Nat) :
    Except Falla t_diccionario :=
  match diccionario_obtener cache key nkey with
  | .error e => .error e
  | .ok none => .ok cache
  | .ok (some it) =>
    if (cache.node it).ocupado then
      match E.f_eliminar cache it with
      | .error e => .error e
      | .ok (cache, _) => .ok cache
    else .ok cache

/-- The request is refused with `NULL`, which stands for `ENGINE_E2BIG`. -/
def justice_engine_allocate (E : Esquema) (turnos : Nat) (cache : t_diccionario)
    (key : Nat → UInt8) (nkey nbytes : Nat) (flags : Int) :
    Except Falla (t_diccionario × Option Ptr) :=
  match reemplazar E cache key nkey with
  | .error e => .error e
  | .ok cache =>
    match E.f_obtenerDireccion turnos cache nbytes with
    | .error e => .error e
    | .ok (cache, none) => .ok (cache, none)
    | .ok (cache, some it) =>
      if KEY_SIZE_MAX < nkey + 1 then .error .fuera_de_clave
      else
        .ok (cache.modificar it (fun e => { e with
          nkey := nkey, flags := flags
          key := fun i => if i < nkey + 1 then key i else e.key i }), some it)

/-- What an allocation writes into the element that it hands out. -/
def nombrar (cache : t_diccionario) (it : Ptr) (key : Nat → UInt8) (nkey : Nat) (flags : Int) :
    t_diccionario :=
  cache.modificar it (fun e => { e with
    nkey := nkey, flags := flags
    key := fun i => if i < nkey + 1 then key i else e.key i })

/-- The flag tells `ENGINE_SUCCESS`; `hora` is the time. -/
def justice_engine_store (cache : t_diccionario) (item : Ptr) (hora : Int) :
    Except Falla (t_diccionario × Bool) :=
  match diccionario_obtener cache (cache.node item).key (cache.node item).nkey with
  | .error e => .error e
  | .ok none => .ok (cache, false)
  | .ok (some it) =>
    .ok (cache.modificar it (fun e => { e with ocupado := true, hour := hora }), true)

/-- Whatever the scheme, it is `diccionario_eliminar` that is called. -/
def justice_engine_item_release (cache : t_diccionario) (it : Ptr) : Except Falla t_diccionario :=
  if (cache.node it).ocupado then .ok cache
  else
    match diccionario_eliminar cache it with
    | .error e => .error e
    | .ok (cache, _) => .ok cache

def justice_engine_get (cache : t_diccionario) (key : Nat → UInt8) (nkey : Nat) (hora : Int) :
    Except Falla (t_diccionario × Option Ptr) :=
  match diccionario_obtener cache key nkey with
  | .error e => .error e
  | .ok none => .ok (cache, none)
  | .ok (some it) =>
    if (cache.node it).ocupado then
      .ok (if cache.lru then cache.modificar it (fun e => { e with hour := hora }) else cache,
        some it)
    else .ok (cache, none)

def justice_engine_item_delete (E : Esquema) (cache : t_diccionario) (key : Nat → UInt8)
    (nkey : Nat) : Except Falla (t_diccionario × Bool) :=
  match diccionario_obtener cache key nkey with
  | .error e => .error e
  | .ok none => .ok (cache, false)
  | .ok (some dict_element) =>
    match E.f_eliminar cache dict_element with
    | .error e => .error e
    | .ok (cache, _) => .ok (cache, true)

def justice_engine_flush (E : Esquema) (turnos : Nat) (cache : t_diccionario) :
    Except Falla t_diccionario :=
  diccionario_limpiar E turnos cache

inductive Operacion
  | allocate (key : Nat → UInt8) (nkey nbytes : Nat) (flags : Int)
  | store (item : Ptr) (hora : Int)
  | release (item : Ptr)
  | get (key : Nat → UInt8) (nkey : Nat) (hora : Int)
  | remove (key : Nat → UInt8) (nkey : Nat)
  | flush

/-- The cache after a call whose loops are given a number of turns. -/
def ejecutar (E : Esquema) (turnos : Nat) (d : t_diccionario) :
    Operacion → Except Falla t_diccionario
  | .allocate key nkey nbytes flags =>
    (justice_engine_allocate E turnos d key nkey nbytes flags).map Prod.fst
  | .store item hora => (justice_engine_store d item hora).map Prod.fst
  | .release item => justice_engine_item_release d item
  | .get key nkey hora => (justice_engine_get d key nkey hora).map Prod.fst
  | .remove key nkey => (justice_engine_item_delete E d key nkey).map Prod.fst
  | .flush => justice_engine_flush E turnos d

def correr (E : Esquema) (turnos : Nat) (d : t_diccionario) :
    List Operacion → Except Falla t_diccionario
  | [] => .ok d
  | c :: cs =>
    match ejecutar E turnos d c with
    | .error e => .error e
    | .ok d => correr E turnos d cs

/-- A call that returns. -/
def Ejecuta (E : Esquema) (d : t_diccionario) (c : Operacion) (e : t_diccionario) : Prop :=
  ∃ turnos, ejecutar E turnos d c = .ok e

theorem correr_trace {E : Esquema} {turnos : Nat} {d e : t_diccionario} {cs : List Operacion}
    (h : correr E turnos d cs = .ok e) : Trace (Ejecuta E) d cs e := by
  induction cs generalizing d with
  | nil =>
    obtain rfl := Except.ok.inj h
    exact .refl
  | cons c cs ih =>
    unfold correr at h
    cases hc : ejecutar E turnos d c with
    | error f => simp [hc] at h
    | ok d' =>
      simp only [hc] at h
      exact .stepL ⟨turnos, hc⟩ (ih h)

section Inversion

variable {E : Esquema} {d e : t_diccionario} {key : Nat → UInt8} {nkey n turnos : Nat} {flags : Int}

/-- Either nothing with that key is stored, or its element is removed. -/
theorem reemplazar_cases (hok : reemplazar E d key nkey = .ok e) :
    e = d ∧ (∀ it, diccionario_obtener d key nkey = .ok (some it) →
      (d.node it).ocupado = false) ∨
    ∃ it it', diccionario_obtener d key nkey = .ok (some it) ∧ (d.node it).ocupado = true ∧
      E.f_eliminar d it = .ok (e, it') := by
  unfold reemplazar at hok
  cases hobt : diccionario_obtener d key nkey with
  | error f => simp [hobt] at hok
  | ok o =>
    cases o with
    | none =>
      simp only [hobt] at hok
      exact Or.inl ⟨(Except.ok.inj hok).symm, fun it hit => by simp at hit⟩
    | some it =>
      simp only [hobt] at hok
      split_ifs at hok with hocupado
      · cases hel : E.f_eliminar d it with
        | error f => simp [hel] at hok
        | ok x =>
          obtain ⟨e', it'⟩ := x
          simp only [hel] at hok
          obtain rfl := Except.ok.inj hok
          exact Or.inr ⟨it, it', rfl, hocupado, hel⟩
      · obtain rfl := Except.ok.inj hok
        refine Or.inl ⟨rfl, ?_⟩
        intro it' hit'
        obtain rfl := Option.some.inj (Except.ok.inj hit')
        simpa using hocupado

/-- What an allocation that returns has done. -/
theorem allocate_inv {r : Option Ptr}
    (hok : justice_engine_allocate E turnos d key nkey n flags = .ok (e, r)) :
    ∃ d₁ d₂, reemplazar E d key nkey = .ok d₁ ∧ E.f_obtenerDireccion turnos d₁ n = .ok (d₂, r) ∧
      (r = none ∧ e = d₂ ∨
        ∃ it, r = some it ∧ nkey < KEY_SIZE_MAX ∧ e = nombrar d₂ it key nkey flags) := by
  unfold justice_engine_allocate at hok
  cases hree : reemplazar E d key nkey with
  | error f => simp [hree] at hok
  | ok d₁ =>
    simp only [hree] at hok
    cases hsearch : E.f_obtenerDireccion turnos d₁ n with
    | error f => simp [hsearch] at hok
    | ok x =>
      obtain ⟨d₂, o⟩ := x
      simp only [hsearch] at hok
      cases o with
      | none =>
        obtain ⟨rfl, rfl⟩ := Prod.mk.inj (Except.ok.inj hok)
        exact ⟨d₁, d₂, rfl, hsearch, Or.inl ⟨rfl, rfl⟩⟩
      | some it =>
        simp only at hok
        split_ifs at hok with hlong
        obtain ⟨rfl, rfl⟩ := Prod.mk.inj (Except.ok.inj hok)
        exact ⟨d₁, d₂, rfl, hsearch, Or.inr ⟨it, rfl, by omega, rfl⟩⟩

theorem allocate_none {d₁ d₂ : t_diccionario} (h : reemplazar E d key nkey = .ok d₁)
    (h' : E.f_obtenerDireccion turnos d₁ n = .ok (d₂, none)) :
    justice_engine_allocate E turnos d key nkey n flags = .ok (d₂, none) := by
  simp only [justice_engine_allocate, h, h']

theorem allocate_some {d₁ d₂ : t_diccionario} {it : Ptr} (h : reemplazar E d key nkey = .ok d₁)
    (h' : E.f_obtenerDireccion turnos d₁ n = .ok (d₂, some it)) (hkey : nkey < KEY_SIZE_MAX)
    (flags : Int) :
    justice_engine_allocate E turnos d key nkey n flags =
      .ok (nombrar d₂ it key nkey flags, some it) := by
  simp only [justice_engine_allocate, h, h', if_neg (by omega : ¬ KEY_SIZE_MAX < nkey + 1)]
  rfl

/-- Nothing with that key is there, or its element is removed. -/
theorem item_delete_cases {r : Bool}
    (hok : justice_engine_item_delete E d key nkey = .ok (e, r)) :
    e = d ∧ r = false ∧ diccionario_obtener d key nkey = .ok none ∨
    ∃ it it', diccionario_obtener d key nkey = .ok (some it) ∧ r = true ∧
      E.f_eliminar d it = .ok (e, it') := by
  unfold justice_engine_item_delete at hok
  cases hobt : diccionario_obtener d key nkey with
  | error f => simp [hobt] at hok
  | ok o =>
    cases o with
    | none =>
      simp only [hobt] at hok
      obtain ⟨rfl, rfl⟩ := Prod.mk.inj (Except.ok.inj hok)
      exact Or.inl ⟨rfl, rfl, rfl⟩
    | some it =>
      simp only [hobt] at hok
      cases hel : E.f_eliminar d it with
      | error f => simp [hel] at hok
      | ok x =>
        obtain ⟨e', it'⟩ := x
        simp only [hel] at hok
        obtain ⟨rfl, rfl⟩ := Prod.mk.inj (Except.ok.inj hok)
        exact Or.inr ⟨it, it', rfl, rfl, hel⟩

/-- A store that returns found nothing, or has marked and dated what it found. -/
theorem store_cases {item : Ptr} {hora : Int} {r : Bool}
    (hok : justice_engine_store d item hora = .ok (e, r)) :
    e = d ∧ r = false ∨
    ∃ it, diccionario_obtener d (d.node item).key (d.node item).nkey = .ok (some it) ∧ r = true ∧
      e = d.modificar it (fun i => { i with ocupado := true, hour := hora }) := by
  unfold justice_engine_store at hok
  cases hobt : diccionario_obtener d (d.node item).key (d.node item).nkey with
  | error f => simp [hobt] at hok
  | ok o =>
    cases o with
    | none =>
      simp only [hobt] at hok
      obtain ⟨rfl, rfl⟩ := Prod.mk.inj (Except.ok.inj hok)
      exact Or.inl ⟨rfl, rfl⟩
    | some it =>
      simp only [hobt] at hok
      obtain ⟨rfl, rfl⟩ := Prod.mk.inj (Except.ok.inj hok)
      exact Or.inr ⟨it, rfl, rfl, rfl⟩

/-- A get that returns found nothing stored, or has at most dated what it found. -/
theorem get_cases {hora : Int} {r : Option Ptr}
    (hok : justice_engine_get d key nkey hora = .ok (e, r)) :
    e = d ∧ r = none ∨
    ∃ it, diccionario_obtener d key nkey = .ok (some it) ∧ (d.node it).ocupado = true ∧
      r = some it ∧ (e = d ∨ e = d.modificar it (fun i => { i with hour := hora })) := by
  unfold justice_engine_get at hok
  cases hobt : diccionario_obtener d key nkey with
  | error f => simp [hobt] at hok
  | ok o =>
    cases o with
    | none =>
      simp only [hobt] at hok
      obtain ⟨rfl, rfl⟩ := Prod.mk.inj (Except.ok.inj hok)
      exact Or.inl ⟨rfl, rfl⟩
    | some it =>
      simp only [hobt] at hok
      split_ifs at hok with hocupado
      · obtain ⟨rfl, rfl⟩ := Prod.mk.inj (Except.ok.inj hok)
        exact Or.inr ⟨it, rfl, hocupado, rfl, Or.inr rfl⟩
      · obtain ⟨rfl, rfl⟩ := Prod.mk.inj (Except.ok.inj hok)
        exact Or.inr ⟨it, rfl, hocupado, rfl, Or.inl rfl⟩
      · obtain ⟨rfl, rfl⟩ := Prod.mk.inj (Except.ok.inj hok)
        exact Or.inl ⟨rfl, rfl⟩

/-- The calls by key return if the search and the release do. -/
theorem reemplazar_ok {o : Option Ptr} (h : diccionario_obtener d key nkey = .ok o)
    (hel : ∀ it, o = some it → ∃ x, E.f_eliminar d it = .ok x) :
    ∃ e, reemplazar E d key nkey = .ok e := by
  unfold reemplazar
  cases o with
  | none =>
    simp only [h]
    exact ⟨d, rfl⟩
  | some it =>
    obtain ⟨x, hx⟩ := hel it rfl
    simp only [h, hx]
    split_ifs
    · exact ⟨x.1, rfl⟩
    · exact ⟨d, rfl⟩

theorem item_delete_ok {o : Option Ptr} (h : diccionario_obtener d key nkey = .ok o)
    (hel : ∀ it, o = some it → ∃ x, E.f_eliminar d it = .ok x) :
    ∃ x, justice_engine_item_delete E d key nkey = .ok x := by
  unfold justice_engine_item_delete
  cases o with
  | none =>
    simp only [h]
    exact ⟨_, rfl⟩
  | some it =>
    obtain ⟨x, hx⟩ := hel it rfl
    simp only [h, hx]
    exact ⟨_, rfl⟩

/-- A turn of the flush clears the element, if it has a key, and goes on behind it. -/
theorem limpiar_turno_inl {it : Ptr} {o : Option Ptr}
    (h : limpiar_turno E (d, some it) = .ok (.inl (e, o))) :
    (d.node it).nkey = 0 ∧ e = d ∧ o = (d.node it).next ∨
    ∃ it', (d.node it).nkey ≠ 0 ∧ E.f_eliminar d it = .ok (e, it') ∧ o = (e.node it').next := by
  unfold limpiar_turno at h
  simp only at h
  split_ifs at h with hnkey
  · cases hel : E.f_eliminar d it with
    | error f => simp [hel] at h
    | ok x =>
      obtain ⟨e', it'⟩ := x
      simp only [hel] at h
      obtain ⟨rfl, rfl⟩ := Prod.mk.inj (Sum.inl.inj (Except.ok.inj h))
      exact Or.inr ⟨it', hnkey, rfl, rfl⟩
  · obtain ⟨rfl, rfl⟩ := Prod.mk.inj (Sum.inl.inj (Except.ok.inj h))
    exact Or.inl ⟨by simpa using hnkey, rfl, rfl⟩

theorem limpiar_turno_error {s : t_diccionario × Option Ptr} {f : Falla}
    (h : limpiar_turno E s = .error f) : ∃ it, s.2 = some it ∧ E.f_eliminar s.1 it = .error f := by
  obtain ⟨d, o⟩ := s
  unfold limpiar_turno at h
  cases o with
  | none => simp at h
  | some it =>
    simp only at h
    split_ifs at h
    · cases hel : E.f_eliminar d it with
      | error g =>
        simp only [hel] at h
        obtain rfl := Except.error.inj h
        exact ⟨it, rfl, hel⟩
      | ok x => simp [hel] at h

theorem limpiar_turno_inr {s : t_diccionario × Option Ptr}
    (h : limpiar_turno E s = .ok (.inr e)) : s = (e, none) := by
  obtain ⟨d, o⟩ := s
  unfold limpiar_turno at h
  cases o with
  | none =>
    obtain rfl := Sum.inr.inj (Except.ok.inj h)
    rfl
  | some item =>
    simp only at h
    split_ifs at h
    · cases hel : E.f_eliminar d item <;> simp [hel] at h
    · simp at h

end Inversion

theorem exists_of_map_fst {β : Type} {x : Except Falla (t_diccionario × β)} {e : t_diccionario}
    (h : x.map Prod.fst = .ok e) : ∃ r, x = .ok (e, r) := by
  cases x with
  | error f => simp [Except.map] at h
  | ok y => exact ⟨y.2, by rw [← Except.ok.inj h]⟩

end LaLiga.Rc
