import LaLiga.Fsc.Operaciones
import LaLiga.Rc.Colocacion
import LaLiga.Rc.Engine

/-! The room for a key in the client, and in the elements of the cache. -/
namespace LaLiga.Fsc

open LaLiga.Lib LaLiga.Serializadores LaLiga.Rc

/-- The key of the server for a block: the path, without its 0, and the four bytes of the number. -/
def generate_key (path : Path) (block_number : UInt32) : Clave :=
  path ++ le 4 block_number.toNat

/-- The path is at most as long as a worker lets through. -/
def Aceptada (path : Path) : Prop := path.length ≤ 40

/-- The key as `memcached` hands it over: behind its bytes there is something. -/
def Contiene (key : Nat → UInt8) (clave : Clave) : Prop :=
  ∀ i, (h : i < clave.length) → key i = clave.get ⟨i, h⟩

/-- Whatever partition the engine finds for it, `justice_engine_allocate` writes the key, and the
byte behind it, inside the buffer of the element. -/
def Alojable (clave : Clave) : Prop :=
  ∀ E turnos d d₁ d₂ it key nbytes flags, Contiene key clave →
    reemplazar E d key clave.length = .ok d₁ →
    E.f_obtenerDireccion turnos d₁ nbytes = .ok (d₂, some it) →
    ∃ e, justice_engine_allocate E turnos d key clave.length nbytes flags = .ok (e, some it)

/-- The call has put a value in memcached under the key. -/
def Puesta {σ : Type} (c c' : Cliente σ) (clave : Clave) : Prop :=
  c.memcached clave = none ∧ ∃ valor, c'.memcached = c.memcached.set clave valor

/-- What makes the key of a cache: two callbacks of the client, and the blocks of a file that the
server reads and writes. -/
inductive Uso
  | leer_directorio (path : Path)
  | obtener_atributos (path : Path)
  | archivo (path : Path) (block_number : UInt32)

section Uses

variable {σ : Type} (srv : Servidor σ) (c : Cliente σ)

/-- Every copy of a key that the call makes stays inside its buffer. -/
def Uso.Cabe : Uso → Prop
  | .leer_directorio path => ∃ res c', Fsc.leer_directorio srv path c = .ok (res, c') ∧
      ∀ clave, Puesta c c' clave → Alojable clave
  | .obtener_atributos path =>
    ∀ clave, Puesta c (Fsc.obtener_atributos srv path c).2 clave → Alojable clave
  | .archivo path block_number => Aceptada path → Alojable (generate_key path block_number)

/-- The server is asked for the attributes, and gives them. -/
def Concedida (path : Path) : Prop :=
  c.memcached (memcached_library_key OBTENER_ATRIBUTOS path) = none ∧
    ¬((srv.atender (.obtener_atributos path) c.servidor).1.tipo = -ENOENT ∨
      (srv.atender (.obtener_atributos path) c.servidor).1.tipo = -ENAMETOOLONG)

/-- A directory has a path of less than 40 bytes, and so has a file whose attributes are given. -/
def Uso.Corto : Uso → Prop
  | .leer_directorio path => path.length < 40
  | .obtener_atributos path => Concedida srv c path → path.length < 40
  | .archivo _ _ => True

end Uses

section Keys

variable {σ : Type} {srv : Servidor σ} {c c' : Cliente σ} {path : Path} {clave k : Clave}
  {valor : List UInt8} {n : UInt32}

/-- In a memory of one byte, not used yet, a request of one byte finds a partition. -/
theorem primera_peticion (clave : Clave) : ∃ d₂,
    reemplazar ParticionesDinamicas (diccionario_crear default 1 1) (fun i => clave.getD i 0)
      clave.length = .ok (diccionario_crear default 1 1) ∧
    ParticionesDinamicas.f_obtenerDireccion 1 (diccionario_crear default 1 1) 1 =
      .ok (d₂, some .element) :=
  ⟨_, rfl, rfl⟩

theorem alojable_iff : Alojable clave ↔ clave.length < KEY_SIZE_MAX := by
  constructor
  · intro h
    by_contra hlong
    obtain ⟨d₂, hree, hobt⟩ := primera_peticion clave
    have hcontiene : Contiene (fun i => clave.getD i 0) clave := by
      intro i hi
      simp [hi]
    obtain ⟨e, he⟩ := h _ _ _ _ _ _ _ _ 0 hcontiene hree hobt
    unfold justice_engine_allocate at he
    simp only [hree, hobt, if_pos (by omega : KEY_SIZE_MAX < clave.length + 1)] at he
    cases he
  · intro hlt E turnos d d₁ d₂ it key nbytes flags _ hree hobt
    exact ⟨_, allocate_some hree hobt hlt flags⟩

/-- A value is set under one key. -/
theorem puesta_set (hc : c'.memcached = c.memcached.set k valor) (hnone : c.memcached k = none) :
    Puesta c c' clave ↔ clave = k := by
  constructor
  · rintro ⟨hfree, w, hw⟩
    by_contra hne
    have hself : c'.memcached clave = some w := by rw [hw, Cache.set_self]
    rw [hc, Cache.set_of_ne hne, hfree] at hself
    cases hself
  · rintro rfl
    exact ⟨hnone, valor, hc⟩

theorem not_puesta (hc : c'.memcached = c.memcached) : ¬ Puesta c c' clave := by
  rintro ⟨hfree, w, hw⟩
  have hself : c'.memcached clave = some w := by rw [hw, Cache.set_self]
  rw [hc, hfree] at hself
  cases hself

theorem clave_directorio_length (path : Path) : (dir ++ path).length = path.length + 4 := by
  rw [List.length_append, dir, Nat.add_comm]
  rfl

theorem clave_atributos_length (path : Path) :
    (memcached_library_key OBTENER_ATRIBUTOS path).length = path.length + 5 := by
  have hne : OBTENER_ATRIBUTOS ≠ LEER_DIRECTORIO := by decide
  rw [memcached_library_key, if_neg hne, List.length_append, attr, Nat.add_comm]
  rfl

theorem generate_key_length : (generate_key path n).length = path.length + 4 := by
  rw [generate_key, List.length_append, le_length]

theorem leer_directorio_cabe_iff :
    Uso.Cabe srv c (.leer_directorio path) ↔ path.length < 40 := by
  have hlength := clave_directorio_length path
  constructor
  · rintro ⟨res, c', hok, -⟩
    by_contra hlong
    unfold leer_directorio at hok
    simp only [MAX_KEY_SIZE, hlength, if_pos (by omega : 44 < path.length + 4 + 1)] at hok
    cases hok
  · intro hshort
    have hkey : Alojable (dir ++ path) := by
      rw [alojable_iff, hlength, KEY_SIZE_MAX]
      omega
    simp only [Uso.Cabe, leer_directorio, MAX_KEY_SIZE, hlength,
      if_neg (by omega : ¬ 44 < path.length + 4 + 1)]
    cases hv : c.memcached (dir ++ path) with
    | some valor => exact ⟨_, _, rfl, fun clave hp => absurd hp (not_puesta rfl)⟩
    | none =>
      dsimp only
      split_ifs with he
      · exact ⟨_, _, rfl, fun clave hp => absurd hp (not_puesta rfl)⟩
      · refine ⟨_, _, rfl, fun clave hp => ?_⟩
        rw [(puesta_set rfl hv).mp hp]
        exact hkey

theorem obtener_atributos_cabe_iff :
    Uso.Cabe srv c (.obtener_atributos path) ↔ (Concedida srv c path → path.length < 40) := by
  have hkey : Alojable (memcached_library_key OBTENER_ATRIBUTOS path) ↔ path.length < 40 := by
    rw [alojable_iff, clave_atributos_length, KEY_SIZE_MAX]
    omega
  simp only [Uso.Cabe, obtener_atributos, Concedida]
  cases hv : c.memcached (memcached_library_key OBTENER_ATRIBUTOS path) with
  | some value =>
    refine ⟨fun _ hgiven => absurd hgiven.1 (by simp), fun _ clave hp => ?_⟩
    exact absurd hp (not_puesta rfl)
  | none =>
    dsimp only
    split_ifs with he
    · refine ⟨fun _ hgiven => absurd he hgiven.2, fun _ clave hp => ?_⟩
      exact absurd hp (not_puesta rfl)
    · constructor
      · intro h _
        exact hkey.mp (h _ ((puesta_set rfl hv).mpr rfl))
      · intro h clave hp
        rw [(puesta_set rfl hv).mp hp]
        exact hkey.mpr (h ⟨rfl, he⟩)

theorem archivo_cabe : Uso.Cabe srv c (.archivo path n) := by
  intro hshort
  rw [alojable_iff, generate_key_length, KEY_SIZE_MAX]
  unfold Aceptada at hshort
  omega

end Keys

/-- The keys of the server fit, those of the client when their paths have less than 40 bytes. -/
theorem claves_caben_iff {σ : Type} (srv : Servidor σ) (c : Cliente σ) (u : Uso) :
    u.Cabe srv c ↔ u.Corto srv c := by
  cases u with
  | leer_directorio path => exact leer_directorio_cabe_iff
  | obtener_atributos path => exact obtener_atributos_cabe_iff
  | archivo path block_number => exact iff_of_true archivo_cabe trivial

/-- A server in which every path exists that it accepts. -/
def servidor_lleno : Servidor Unit where
  atender p _ := (⟨if p.path.length ≤ 40 then RESPUESTA_OK else -ENAMETOOLONG, []⟩, ())
  consulta _ _ _ := rfl
  rechazo _ _ _ := rfl

/-- `"/aaa…"`, of 40 bytes. -/
def ruta_larga : Path := barra :: List.replicate 39 97

/-- A path of 40 bytes is accepted by the server, and too long for both callbacks. -/
theorem ruta_larga_no_cabe : Aceptada ruta_larga ∧
    ¬ Uso.Cabe servidor_lleno ⟨(), Cache.empty⟩ (.leer_directorio ruta_larga) ∧
    ¬ Uso.Cabe servidor_lleno ⟨(), Cache.empty⟩ (.obtener_atributos ruta_larga) := by
  have hlong : ¬ ruta_larga.length < 40 := by decide
  have hgiven : Concedida servidor_lleno ⟨(), Cache.empty⟩ ruta_larga := ⟨rfl, by decide⟩
  exact ⟨le_of_eq rfl, fun h => hlong (leer_directorio_cabe_iff.mp h),
    fun h => hlong (obtener_atributos_cabe_iff.mp h hgiven)⟩

end LaLiga.Fsc
