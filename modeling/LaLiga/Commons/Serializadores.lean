import LaLiga.Lib.LittleEndian

/-! The frames that the server sends back. -/
namespace LaLiga.Serializadores

open LaLiga.Lib

/-- Why a call has no result: it certainly dies, or what it does is undefined. -/
inductive Fallo
  | caida
  | indefinido
  deriving DecidableEq

/-- The bytes from `data` on, as many as `longitud` says. -/
abbrev t_stream := List UInt8

def RESPUESTA_OK : Int8 := 14

/-- The header: `tipo` and the length of the payload. -/
def header (tipo : Int8) (payload_lenght : Nat) : List UInt8 :=
  tipo.toUInt8 :: le 2 payload_lenght

/-- A header followed by as many bytes as it announces. -/
def Trama (f : List UInt8) : Prop :=
  ∃ tipo payload, f = header tipo payload.length ++ payload ∧ payload.length < 2 ^ 16

def serializar_respuesta_finalizacion (tipo : Int8) : t_stream := header tipo 0

def serializar_respuesta_escribir_archivo (tipo : Int8) (bytes_escritos : Nat) : t_stream :=
  header tipo 8 ++ le 8 bytes_escritos

/-- The length is computed in 16 bits; when it wraps, `memcpy` writes behind the stream. -/
def serializar_respuesta_leer_archivo (tipo : Int8) (bytes_leidos : Nat) (buffer : List UInt8) :
    Except Fallo t_stream :=
  let payload_lenght := (8 + bytes_leidos) % 2 ^ 16
  if 8 + bytes_leidos ≤ payload_lenght then
    .ok (header tipo payload_lenght ++ (le 8 bytes_leidos ++ buffer.take bytes_leidos))
  else .error .indefinido

structure t_respuesta_obtener_atributos where
  numero_de_inodo : Nat
  modo : Nat
  numero_de_hard_links : Nat
  size : Nat
  tamano_de_bloque_por_fs : Nat
  cantidad_de_bloques_de_512b : Nat

def serializar_respuesta_obtener_atributos (tipo : Int8)
    (atributos : t_respuesta_obtener_atributos) : t_stream :=
  header tipo 44 ++ (le 8 atributos.numero_de_inodo ++ le 4 atributos.modo ++
    le 8 atributos.numero_de_hard_links ++ le 8 atributos.size ++
    le 8 atributos.tamano_de_bloque_por_fs ++ le 8 atributos.cantidad_de_bloques_de_512b)

/-- The length that is announced for a listing; it counts one byte too many for each name. -/
def longitud_listado (entries : List (List UInt8)) : Nat :=
  ((entries.map (fun file_name => file_name.length + 1)).sum + (entries.length - 1)) % 2 ^ 16

/-- The names, with `'#'` between them. -/
def listado (entries : List (List UInt8)) : List UInt8 := List.intercalate [35] entries

def serializar_respuesta_leer_directorio (tipo : Int8) (entries : List (List UInt8)) :
    Except Fallo t_stream :=
  if entries = [] then .error .caida
  else if (listado entries).length ≤ longitud_listado entries then
    .ok (header tipo (longitud_listado entries) ++ (listado entries ++
      List.replicate (longitud_listado entries - (listado entries).length) 0))
  else .error .indefinido

structure t_header where
  tipo : Int8
  longitud : Nat

/-- What `recibir_header` and `deserializar_header` make of the bytes to come, and the rest. -/
def recibir_header : List UInt8 → Option (t_header × List UInt8)
  | t :: a :: b :: rest => some (⟨t.toInt8, ofLe [a, b]⟩, rest)
  | _ => none

/-- `recibir_paquete` waits for all the bytes announced. -/
def recibir_paquete (longitud : Nat) (bytes : List UInt8) : Option (List UInt8) :=
  if longitud ≤ bytes.length then some (bytes.take longitud) else none

section Frames

variable {tipo : Int8} {payload : List UInt8} {entries : List (List UInt8)} {n : Nat}

theorem trama_header (h : payload.length = n) (hn : n < 2 ^ 16) :
    Trama (header tipo n ++ payload) := by
  subst h
  exact ⟨tipo, payload, rfl, hn⟩

theorem trama_finalizacion : Trama (serializar_respuesta_finalizacion tipo) := by
  have : Trama (header tipo 0 ++ []) := trama_header rfl (by simp)
  simpa [serializar_respuesta_finalizacion] using this

theorem trama_escribir : Trama (serializar_respuesta_escribir_archivo tipo n) :=
  trama_header (by simp) (by simp)

theorem trama_atributos {a : t_respuesta_obtener_atributos} :
    Trama (serializar_respuesta_obtener_atributos tipo a) :=
  trama_header (by simp) (by simp)

/-- What was read can be sent if its length fits. -/
theorem leer_archivo_eq (h : 8 + payload.length < 2 ^ 16) :
    serializar_respuesta_leer_archivo tipo payload.length payload =
      .ok (header tipo (8 + payload.length) ++ (le 8 payload.length ++ payload)) := by
  simp only [serializar_respuesta_leer_archivo, Nat.mod_eq_of_lt h, le_refl, if_true,
    List.take_length]

theorem leer_archivo_wraps (h : 2 ^ 16 ≤ 8 + n) :
    serializar_respuesta_leer_archivo tipo n payload = .error .indefinido := by
  have hlt := Nat.mod_lt (8 + n) (by decide : 0 < 2 ^ 16)
  simp only [serializar_respuesta_leer_archivo]
  rw [if_neg (by omega)]

theorem trama_leer (h : 8 + payload.length < 2 ^ 16) :
    Trama (header tipo (8 + payload.length) ++ (le 8 payload.length ++ payload)) :=
  trama_header (by simp) h

theorem trama_listado (h : (listado entries).length ≤ longitud_listado entries) :
    Trama (header tipo (longitud_listado entries) ++ (listado entries ++
      List.replicate (longitud_listado entries - (listado entries).length) 0)) := by
  refine trama_header ?_ (Nat.mod_lt _ (by decide))
  simp only [List.length_append, List.length_replicate]
  omega

/-- The header is read back, and the payload that follows it. -/
theorem recibir_header_append (h : n < 2 ^ 16) :
    recibir_header (header tipo n ++ payload) = some (⟨tipo, n⟩, payload) := by
  have hlong : ofLe [UInt8.ofNat n, UInt8.ofNat (n / 256)] = n := ofLe_le_of_lt (w := 2) (by omega)
  simp only [header, le, List.cons_append, List.nil_append, recibir_header, hlong]
  simp

theorem recibir_paquete_self : recibir_paquete payload.length payload = some payload := by
  simp [recibir_paquete]

end Frames

end LaLiga.Serializadores
