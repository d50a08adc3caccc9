import LaLiga.Commons.Pedidos
import LaLiga.Lib.Cache

/-! The callbacks of the client of the file system, and what they keep in memcached. -/
namespace LaLiga.Fsc

open LaLiga.Lib LaLiga.Serializadores

abbrev Path := List UInt8

abbrev Clave := List UInt8

/-- Names come in with `'/'` between them, and out with `'#'`. -/
def barra : UInt8 := 47

def numeral : UInt8 := 35

def ENOENT : Int8 := 2
def EEXIST : Int8 := 17
def ENAMETOOLONG : Int8 := 36
def EXIT_SUCCESS : Int8 := 0
def MAX_KEY_SIZE : Nat := 44

/-- `"dir-"` -/
def dir : List UInt8 := [100, 105, 114, 45]

/-- `"attr-"` -/
def attr : List UInt8 := [97, 116, 116, 114, 45]

def memcached_library_key (type : Int8) (path : Path) : Clave :=
  if type = LEER_DIRECTORIO then dir ++ path else attr ++ path

/-- The path up to its last `'/'`; without one `strlen` is given a null pointer. -/
def get_previus_path (path : Path) : Option Path :=
  if barra ∈ path then
    let splitted_path := (path.reverse.dropWhile (· ≠ barra)).tail.reverse
    some (if splitted_path = [] then [barra] else splitted_path)
  else none

example : get_previus_path [47, 97, 47, 98] = some [47, 97] ∧
    get_previus_path [47, 97] = some [47] := by decide

/-- What `strtok_r` cuts a C string into: no name is empty. -/
def string_split (text : List UInt8) (separator : UInt8) : List (List UInt8) :=
  ((text.takeWhile (· ≠ 0)).splitOn separator).filter (· ≠ [])

/-- The fields of `struct stat` that are filled. -/
structure stat where
  st_ino : Nat
  st_mode : Nat
  st_nlink : Nat
  st_size : Nat
  st_blocks : Nat
  deriving DecidableEq

def S_IFDIR : Nat := 0x4000
def S_IFREG : Nat := 0x8000

/-- As `memset` leaves it. -/
def stat.cero : stat := ⟨0, 0, 0, 0, 0⟩

def deserializar_respuesta_obtener_atributos (stream : List UInt8) :
    t_respuesta_obtener_atributos where
  numero_de_inodo := ofLe (stream.take 8)
  modo := ofLe ((stream.drop 8).take 4)
  numero_de_hard_links := ofLe ((stream.drop 12).take 8)
  size := ofLe ((stream.drop 20).take 8)
  tamano_de_bloque_por_fs := ofLe ((stream.drop 28).take 8)
  cantidad_de_bloques_de_512b := ofLe ((stream.drop 36).take 8)

def stat.de_atributos (attrib : t_respuesta_obtener_atributos) : stat where
  st_ino := attrib.numero_de_inodo
  st_mode := if attrib.modo &&& 0x4000 ≠ 0 then S_IFDIR ||| 0o755 else S_IFREG ||| 0o444
  st_nlink := if attrib.modo &&& 0x4000 ≠ 0 then 2 else 1
  st_size := attrib.size
  st_blocks := attrib.cantidad_de_bloques_de_512b

/-- The header of a reply, and the payload behind it. -/
structure Respuesta where
  tipo : Int8
  payload : List UInt8

/-- The server as its clients see it: the reply to a request and what the request makes of the
file system. What only asks changes nothing there, and neither does a request refused. -/
structure Servidor (σ : Type) where
  atender : Pedido → σ → Respuesta × σ
  consulta : ∀ p s, p.tipo = OBTENER_ATRIBUTOS ∨ p.tipo = LEER_DIRECTORIO → (atender p s).2 = s
  rechazo : ∀ p s, (atender p s).1.tipo ∈ [-ENOENT, -EEXIST, -ENAMETOOLONG] → (atender p s).2 = s

/-- The file system, and what memcached keeps for the client. -/
structure Cliente (σ : Type) where
  servidor : σ
  memcached : Cache Clave (List UInt8)

section Callbacks

variable {σ : Type} (srv : Servidor σ)

/-- The callbacks that change the file system and delete a key, unless the reply is one of
`rechazos`. -/
def modificar (p : Pedido) (rechazos : List Int8) (clave : Option Clave) (c : Cliente σ) :
    Except Fallo (Int8 × Cliente σ) :=
  let (respuesta, servidor) := srv.atender p c.servidor
  if respuesta.tipo ∈ rechazos then .ok (respuesta.tipo, { c with servidor })
  else
    match clave with
    | none => .error .caida
    | some key => .ok (EXIT_SUCCESS, { servidor, memcached := c.memcached.delete key })

/-- The key of the directory that holds the path. -/
def clave_previa (path : Path) : Option Clave :=
  (get_previus_path path).map (memcached_library_key LEER_DIRECTORIO)

def crear_archivo (path : Path) (mode : UInt32) : Cliente σ → Except Fallo (Int8 × Cliente σ) :=
  modificar srv (.crear_archivo path mode) [-EEXIST, -ENAMETOOLONG] (clave_previa path)

def crear_directorio (path : Path) (mode : UInt32) : Cliente σ → Except Fallo (Int8 × Cliente σ) :=
  modificar srv (.crear_directorio path mode) [-EEXIST, -ENAMETOOLONG] (clave_previa path)

def eliminar_archivo (path : Path) : Cliente σ → Except Fallo (Int8 × Cliente σ) :=
  modificar srv (.eliminar_archivo path) [-ENOENT, -ENAMETOOLONG] (clave_previa path)

def eliminar_directorio (path : Path) : Cliente σ → Except Fallo (Int8 × Cliente σ) :=
  modificar srv (.eliminar_directorio path) [-ENOENT, -ENAMETOOLONG] (clave_previa path)

def truncar_archivo (path : Path) (size : UInt64) : Cliente σ → Except Fallo (Int8 × Cliente σ) :=
  modificar srv (.truncar_archivo path size) [-ENOENT, -ENAMETOOLONG]
    (some (memcached_library_key OBTENER_ATRIBUTOS path))

/-- The bytes written, or the error. -/
def escribir_archivo (path buffer : List UInt8) (offset : Int64) (c : Cliente σ) :
    Int × Cliente σ :=
  let (respuesta, servidor) := srv.atender (.escribir_archivo path buffer offset) c.servidor
  if respuesta.tipo = -ENOENT ∨ respuesta.tipo = -ENAMETOOLONG then
    (respuesta.tipo.toInt, { c with servidor })
  else (ofLe respuesta.payload, { c with servidor })

/-- `clave` has room for `MAX_KEY_SIZE` bytes, and `strcat` ends it with a 0. -/
def leer_directorio (path : Path) (c : Cliente σ) :
    Except Fallo ((Int8 × List (List UInt8)) × Cliente σ) :=
  let clave := dir ++ path
  if MAX_KEY_SIZE < clave.length + 1 then .error .indefinido
  else
    match c.memcached clave with
    | some valor_obtenido => .ok ((EXIT_SUCCESS, string_split valor_obtenido numeral), c)
    | none =>
      let (respuesta, servidor) := srv.atender (.leer_directorio path) c.servidor
      if respuesta.tipo = -ENOENT ∨ respuesta.tipo = -ENAMETOOLONG then
        .ok ((respuesta.tipo, []), { c with servidor })
      else
        .ok ((EXIT_SUCCESS, string_split respuesta.payload numeral),
          { servidor, memcached := c.memcached.set clave respuesta.payload })

def obtener_atributos (path : Path) (c : Cliente σ) : (Int8 × stat) × Cliente σ :=
  let key := memcached_library_key OBTENER_ATRIBUTOS path
  match c.memcached key with
  | some value =>
    ((EXIT_SUCCESS, .de_atributos (deserializar_respuesta_obtener_atributos value)), c)
  | none =>
    let (respuesta, servidor) := srv.atender (.obtener_atributos path) c.servidor
    if respuesta.tipo = -ENOENT ∨ respuesta.tipo = -ENAMETOOLONG then
      ((respuesta.tipo, .cero), { c with servidor })
    else
      ((EXIT_SUCCESS, .de_atributos (deserializar_respuesta_obtener_atributos respuesta.payload)),
        { servidor, memcached := c.memcached.set key respuesta.payload })

end Callbacks

/-! A file system that has nothing in it but, when it exists, the file `"/a"`. -/

def raiz : Path := [47]

def ruta_a : Path := [47, 97]

def atributos_a (size : Nat) : t_respuesta_obtener_atributos where
  numero_de_inodo := 12
  modo := 0x81a4
  numero_de_hard_links := 1
  size := size
  tamano_de_bloque_por_fs := 1024
  cantidad_de_bloques_de_512b := (size + 1023) / 1024

/-- `"."`, `".."` and perhaps `"a"`. -/
def entradas (s : Option Nat) : List (List UInt8) :=
  [[46], [46, 46]] ++ if s.isSome then [[97]] else []

/-- The state is the size of the file. -/
def atender_a : Pedido → Option Nat → Respuesta × Option Nat
  | .crear_archivo path _, s =>
    if path = ruta_a then (⟨RESPUESTA_OK, []⟩, some (s.getD 0)) else (⟨-ENAMETOOLONG, []⟩, s)
  | .eliminar_archivo path, s =>
    if path = ruta_a then (⟨RESPUESTA_OK, []⟩, none) else (⟨-ENAMETOOLONG, []⟩, s)
  | .escribir_archivo path buffer offset, s =>
    match s with
    | some size =>
      if path = ruta_a then
        (⟨RESPUESTA_OK, le 8 buffer.length⟩, some (max size (offset.toInt.toNat + buffer.length)))
      else (⟨-ENOENT, []⟩, s)
    | none => (⟨-ENOENT, []⟩, s)
  | .obtener_atributos path, s =>
    match s with
    | some size =>
      if path = ruta_a then
        (⟨RESPUESTA_OK,
          (serializar_respuesta_obtener_atributos RESPUESTA_OK (atributos_a size)).drop 3⟩, s)
      else (⟨-ENOENT, []⟩, s)
    | none => (⟨-ENOENT, []⟩, s)
  | .leer_directorio path, s =>
    if path = raiz then
      (⟨RESPUESTA_OK, listado (entradas s) ++ List.replicate (entradas s).length 0⟩, s)
    else (⟨-ENOENT, []⟩, s)
  | _, s => (⟨-ENAMETOOLONG, []⟩, s)

theorem atender_a_consulta (p : Pedido) (s : Option Nat)
    (h : p.tipo = OBTENER_ATRIBUTOS ∨ p.tipo = LEER_DIRECTORIO) : (atender_a p s).2 = s := by
  cases p with
  | crear_archivo => exact absurd h (by simp only [Pedido.tipo]; decide)
  | eliminar_archivo => exact absurd h (by simp only [Pedido.tipo]; decide)
  | escribir_archivo => exact absurd h (by simp only [Pedido.tipo]; decide)
  | obtener_atributos path =>
    cases s with
    | none => rfl
    | some size =>
      dsimp only [atender_a]
      split_ifs <;> rfl
  | leer_directorio path =>
    dsimp only [atender_a]
    split_ifs <;> rfl
  | _ => rfl

theorem atender_a_rechazo (p : Pedido) (s : Option Nat)
    (h : (atender_a p s).1.tipo ∈ [-ENOENT, -EEXIST, -ENAMETOOLONG]) : (atender_a p s).2 = s := by
  have hok : RESPUESTA_OK ∉ [-ENOENT, -EEXIST, -ENAMETOOLONG] := by decide
  cases p with
  | crear_archivo path mode =>
    dsimp only [atender_a] at h ⊢
    split_ifs at h ⊢
    · exact absurd h hok
    · rfl
  | eliminar_archivo path =>
    dsimp only [atender_a] at h ⊢
    split_ifs at h ⊢
    · exact absurd h hok
    · rfl
  | escribir_archivo path buffer offset =>
    cases s with
    | none => rfl
    | some size =>
      dsimp only [atender_a] at h ⊢
      split_ifs at h ⊢
      · exact absurd h hok
      · rfl
  | obtener_atributos path => exact atender_a_consulta _ s (Or.inl rfl)
  | leer_directorio path => exact atender_a_consulta _ s (Or.inr rfl)
  | _ => rfl

def servidor_a : Servidor (Option Nat) := ⟨atender_a, atender_a_consulta, atender_a_rechazo⟩

end LaLiga.Fsc
