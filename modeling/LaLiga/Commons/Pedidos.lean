import LaLiga.Commons.Serializadores
import LaLiga.Lib.Fallible

/-! The requests of the client, as it writes them and as the server reads them. -/
namespace LaLiga.Serializadores

open LaLiga.Lib

def CREAR_ARCHIVO : Int8 := 0
def ABRIR_ARCHIVO : Int8 := 1
def LEER_ARCHIVO : Int8 := 2
def ESCRIBIR_ARCHIVO : Int8 := 3
def ELIMINAR_ARCHIVO : Int8 := 4
def TRUNCAR_ARCHIVO : Int8 := 5
def CREAR_DIRECTORIO : Int8 := 7
def LEER_DIRECTORIO : Int8 := 8
def ELIMINAR_DIRECTORIO : Int8 := 9
def OBTENER_ATRIBUTOS : Int8 := 10

/-! The encodings. Names come without their final 0; `mode_t` has four bytes, `size_t` and
`off_t` eight. -/

def serializar_pedido_modo_nombre (tipo : Int8) (nombre_de_archivo : List UInt8) (modo : UInt32) :
    t_stream :=
  let payload_lenght := 4 + nombre_de_archivo.length + 1
  header tipo payload_lenght ++ (le 4 modo.toNat ++ (nombre_de_archivo ++ [0]))

def serializar_pedido_nombre (tipo : Int8) (nombre_de_archivo : List UInt8) : t_stream :=
  let payload_lenght := nombre_de_archivo.length + 1
  header tipo payload_lenght ++ (nombre_de_archivo ++ [0])

def serializar_pedido_leer_archivo (nombre_de_archivo : List UInt8) (size : UInt64)
    (offset : Int64) : t_stream :=
  let payload_lenght := 8 + 8 + nombre_de_archivo.length + 1
  header LEER_ARCHIVO payload_lenght ++
    (le 8 size.toNat ++ (le 8 offset.toUInt64.toNat ++ (nombre_de_archivo ++ [0])))

/-- `size` bytes are copied from `buffer`. -/
def serializar_pedido_escribir_archivo (nombre_de_archivo buffer : List UInt8) (size : UInt64)
    (desplazamiento : Int64) : t_stream :=
  let payload_lenght := 8 + 8 + size.toNat + nombre_de_archivo.length + 1
  header ESCRIBIR_ARCHIVO payload_lenght ++
    (le 8 size.toNat ++ (le 8 desplazamiento.toUInt64.toNat ++
      (buffer.take size.toNat ++ (nombre_de_archivo ++ [0]))))

def serializar_pedido_truncar_archivo (nombre_de_archivo : List UInt8) (size : UInt64) :
    t_stream :=
  let payload_lenght := 8 + nombre_de_archivo.length + 1
  header TRUNCAR_ARCHIVO payload_lenght ++ (le 8 size.toNat ++ (nombre_de_archivo ++ [0]))

/-- What the decoders must not do: a length that is negative or wraps, or a read behind the
end of what was received. A decoder is followed up to the first of them. -/
inductive Desvio
  | longitud
  | lectura
  deriving DecidableEq

/-- `cantidad` bytes from `desde` on, as `memcpy` takes them. -/
def copiar (stream : List UInt8) (desde cantidad : Nat) : Except Desvio (List UInt8) :=
  if desde + cantidad ≤ stream.length then .ok ((stream.drop desde).take cantidad)
  else .error .lectura

/-- `longitud - usados`, on `size_t`. -/
def restar (longitud usados : Nat) : Except Desvio Nat :=
  if usados ≤ longitud then .ok (longitud - usados) else .error .longitud

/-- A number kept as `int32_t`. -/
def int32_t (n : Nat) : Except Desvio Nat :=
  if n < 2 ^ 31 then .ok n else .error .longitud

/-- The C string that starts at the bytes. -/
def cadena (bytes : List UInt8) : Except Desvio (List UInt8) :=
  if 0 ∈ bytes then .ok (bytes.takeWhile (· ≠ 0)) else .error .lectura

structure t_pedido_modo_nombre where
  nombre_de_archivo : List UInt8
  modo : UInt32

abbrev t_pedido_nombre := List UInt8

structure t_pedido_leer_archivo where
  nombre_de_archivo : List UInt8
  size : UInt64
  offset : Int64

structure t_pedido_escribir_archivo where
  nombre_de_archivo : List UInt8
  buffer : List UInt8
  size : UInt64
  offset : Int64

structure t_pedido_truncar_archivo where
  nombre_de_archivo : List UInt8
  size : UInt64

def deserializar_pedido_modo_nombre (stream : List UInt8) (longitud : Nat) :
    Except Desvio t_pedido_modo_nombre := do
  let resto ← restar longitud 4
  let modo ← copiar stream 0 4
  let nombre_de_archivo ← copiar stream 4 resto
  return { nombre_de_archivo, modo := .ofNat (ofLe modo) }

def deserializar_pedido_nombre (stream : List UInt8) (longitud : Nat) :
    Except Desvio t_pedido_nombre :=
  copiar stream 0 longitud

def deserializar_pedido_leer_archivo (stream : List UInt8) (longitud : Nat) :
    Except Desvio t_pedido_leer_archivo := do
  let resto ← restar longitud (8 + 8)
  let size ← copiar stream 0 8
  let offset ← copiar stream 8 8
  let nombre_de_archivo ← copiar stream (8 + 8) resto
  return { nombre_de_archivo, size := .ofNat (ofLe size)
           offset := (UInt64.ofNat (ofLe offset)).toInt64 }

/-- The size read from the stream becomes the `int32_t` that counts the bytes copied. -/
def deserializar_pedido_escribir_archivo (stream : List UInt8) (longitud : Nat) :
    Except Desvio t_pedido_escribir_archivo := do
  let size ← copiar stream 0 8
  let offset ← copiar stream 8 8
  let tmp ← int32_t (ofLe size)
  let buffer ← copiar stream (8 + 8) tmp
  let resto ← restar longitud (8 + 8 + tmp)
  let nombre_de_archivo ← copiar stream (8 + 8 + tmp) resto
  return { nombre_de_archivo, buffer, size := .ofNat (ofLe size)
           offset := (UInt64.ofNat (ofLe offset)).toInt64 }

def deserializar_pedido_truncar_archivo (stream : List UInt8) (longitud : Nat) :
    Except Desvio t_pedido_truncar_archivo := do
  let resto ← restar longitud 8
  let size ← copiar stream 0 8
  let nombre_de_archivo ← copiar stream 8 resto
  return { nombre_de_archivo, size := .ofNat (ofLe size) }

/-- The requests, with their paths as C strings. A write has as many bytes as its buffer. -/
inductive Pedido
  | crear_archivo (path : List UInt8) (mode : UInt32)
  | crear_directorio (path : List UInt8) (mode : UInt32)
  | abrir_archivo (path : List UInt8)
  | eliminar_archivo (path : List UInt8)
  | eliminar_directorio (path : List UInt8)
  | obtener_atributos (path : List UInt8)
  | leer_directorio (path : List UInt8)
  | leer_archivo (path : List UInt8) (size : UInt64) (offset : Int64)
  | escribir_archivo (path buffer : List UInt8) (offset : Int64)
  | truncar_archivo (path : List UInt8) (size : UInt64)
  deriving DecidableEq

namespace Pedido

def tipo : Pedido → Int8
  | crear_archivo _ _ => CREAR_ARCHIVO
  | crear_directorio _ _ => CREAR_DIRECTORIO
  | abrir_archivo _ => ABRIR_ARCHIVO
  | eliminar_archivo _ => ELIMINAR_ARCHIVO
  | eliminar_directorio _ => ELIMINAR_DIRECTORIO
  | obtener_atributos _ => OBTENER_ATRIBUTOS
  | leer_directorio _ => LEER_DIRECTORIO
  | leer_archivo _ _ _ => LEER_ARCHIVO
  | escribir_archivo _ _ _ => ESCRIBIR_ARCHIVO
  | truncar_archivo _ _ => TRUNCAR_ARCHIVO

def path : Pedido → List UInt8
  | crear_archivo path _ | crear_directorio path _ | abrir_archivo path | eliminar_archivo path
  | eliminar_directorio path | obtener_atributos path | leer_directorio path
  | leer_archivo path _ _ | escribir_archivo path _ _ | truncar_archivo path _ => path

/-- The frame that the callback of the client sends. -/
def serializar : Pedido → t_stream
  | crear_archivo path mode => serializar_pedido_modo_nombre CREAR_ARCHIVO path mode
  | crear_directorio path mode => serializar_pedido_modo_nombre CREAR_DIRECTORIO path mode
  | abrir_archivo path => serializar_pedido_nombre ABRIR_ARCHIVO path
  | eliminar_archivo path => serializar_pedido_nombre ELIMINAR_ARCHIVO path
  | eliminar_directorio path => serializar_pedido_nombre ELIMINAR_DIRECTORIO path
  | obtener_atributos path => serializar_pedido_nombre OBTENER_ATRIBUTOS path
  | leer_directorio path => serializar_pedido_nombre LEER_DIRECTORIO path
  | leer_archivo path size offset => serializar_pedido_leer_archivo path size offset
  | escribir_archivo path buffer offset =>
    serializar_pedido_escribir_archivo path buffer (.ofNat buffer.length) offset
  | truncar_archivo path size => serializar_pedido_truncar_archivo path size

/-- What stands before the name in the payload. -/
def campos : Pedido → List UInt8
  | crear_archivo _ mode | crear_directorio _ mode => le 4 mode.toNat
  | leer_archivo _ size offset => le 8 size.toNat ++ le 8 offset.toUInt64.toNat
  | escribir_archivo _ buffer offset =>
    le 8 buffer.length ++ (le 8 offset.toUInt64.toNat ++ buffer)
  | truncar_archivo _ size => le 8 size.toNat
  | _ => []

def payload (p : Pedido) : List UInt8 := p.campos ++ (p.path ++ [0])

/-- A path holds no 0, and a buffer is one that a process can have. -/
def Valido (p : Pedido) : Prop :=
  0 ∉ p.path ∧ ∀ path buffer offset, p = escribir_archivo path buffer offset →
    buffer.length < 2 ^ 31

end Pedido

/-- The request in a payload, read by the decoder for its type; `none` if there is none. -/
def deserializar (tipo : Int8) (stream : List UInt8) (longitud : Nat) :
    Except Desvio (Option Pedido) := do
  if tipo = CREAR_ARCHIVO then
    let pedido ← deserializar_pedido_modo_nombre stream longitud
    return some (.crear_archivo (← cadena pedido.nombre_de_archivo) pedido.modo)
  else if tipo = CREAR_DIRECTORIO then
    let pedido ← deserializar_pedido_modo_nombre stream longitud
    return some (.crear_directorio (← cadena pedido.nombre_de_archivo) pedido.modo)
  else if tipo = ABRIR_ARCHIVO then
    return some (.abrir_archivo (← cadena (← deserializar_pedido_nombre stream longitud)))
  else if tipo = LEER_ARCHIVO then
    let pedido ← deserializar_pedido_leer_archivo stream longitud
    return some (.leer_archivo (← cadena pedido.nombre_de_archivo) pedido.size pedido.offset)
  else if tipo = ESCRIBIR_ARCHIVO then
    let pedido ← deserializar_pedido_escribir_archivo stream longitud
    return some (.escribir_archivo (← cadena pedido.nombre_de_archivo) pedido.buffer pedido.offset)
  else if tipo = ELIMINAR_ARCHIVO then
    return some (.eliminar_archivo (← cadena (← deserializar_pedido_nombre stream longitud)))
  else if tipo = ELIMINAR_DIRECTORIO then
    return some (.eliminar_directorio (← cadena (← deserializar_pedido_nombre stream longitud)))
  else if tipo = TRUNCAR_ARCHIVO then
    let pedido ← deserializar_pedido_truncar_archivo stream longitud
    return some (.truncar_archivo (← cadena pedido.nombre_de_archivo) pedido.size)
  else if tipo = OBTENER_ATRIBUTOS then
    return some (.obtener_atributos (← cadena (← deserializar_pedido_nombre stream longitud)))
  else if tipo = LEER_DIRECTORIO then
    return some (.leer_directorio (← cadena (← deserializar_pedido_nombre stream longitud)))
  else return none

/-- One round of the loop that serves a client: a request and the bytes behind its frame. -/
def recibir_pedido (bytes : List UInt8) : Except Desvio (Option (Pedido × List UInt8)) :=
  match recibir_header bytes with
  | none => .ok none
  | some (header, resto) =>
    match recibir_paquete header.longitud resto with
    | none => .ok none
    | some payload => do
      match ← deserializar header.tipo payload header.longitud with
      | none => return none
      | some pedido => return some (pedido, resto.drop header.longitud)

/-- Its rounds, as long as there are bytes; with each a header is used up. -/
def recibir_pedidos : Nat → List UInt8 → Except Desvio (List Pedido × List UInt8)
  | 0, bytes => .ok ([], bytes)
  | n + 1, bytes => do
    match ← recibir_pedido bytes with
    | none => return ([], bytes)
    | some (pedido, resto) =>
      let (pedidos, resto) ← recibir_pedidos n resto
      return (pedido :: pedidos, resto)

section Decoders

variable {u v w path : List UInt8} {longitud k : Nat} {p : Pedido}

theorem copiar_append (hu : u.length = k) (hv : v.length = longitud) :
    copiar (u ++ (v ++ w)) k longitud = .ok v := by
  subst hu hv
  simp [copiar]

theorem copiar_campo (hv : v.length = k) : copiar (v ++ w) 0 k = .ok v :=
  copiar_append (u := []) rfl hv

/-- The bytes behind the fields are the name. -/
theorem copiar_resto (hu : u.length = k) (h : k + v.length = longitud) :
    copiar (u ++ v) k (longitud - k) = .ok v := by
  have := copiar_append (v := v) (w := []) hu (show v.length = longitud - k by omega)
  simpa using this

theorem restar_eq {usados : Nat} (h : usados ≤ longitud) :
    restar longitud usados = .ok (longitud - usados) := if_pos h

/-- A name is read back up to its 0. -/
theorem cadena_append (h : 0 ∉ path) : cadena (path ++ [0]) = .ok path := by
  have hall : ∀ b ∈ path, decide (b ≠ 0) = true := by
    intro b hb
    exact decide_eq_true (fun he => h (he ▸ hb))
  unfold cadena
  rw [if_pos (by simp), List.takeWhile_append_of_pos hall]
  simp

theorem ofNat_le_mode (m : UInt32) : UInt32.ofNat (ofLe (le 4 m.toNat)) = m := by
  rw [ofLe_le_of_lt m.toNat_lt]
  simp

theorem ofNat_le_size (n : UInt64) : UInt64.ofNat (ofLe (le 8 n.toNat)) = n := by
  rw [ofLe_le_of_lt n.toNat_lt]
  simp

theorem deserializar_modo_nombre_eq {m : UInt32} :
    deserializar_pedido_modo_nombre (le 4 m.toNat ++ v) (le 4 m.toNat ++ v).length =
      .ok ⟨v, m⟩ := by
  have hlen : (le 4 m.toNat ++ v).length = 4 + v.length := by simp
  simp only [deserializar_pedido_modo_nombre, hlen, restar_eq (Nat.le_add_right 4 _),
    copiar_campo le_length, copiar_resto le_length rfl, ok_bind, ofNat_le_mode]
  rfl

theorem deserializar_nombre_eq : deserializar_pedido_nombre v v.length = .ok v := by
  have := copiar_campo (v := v) (w := []) rfl
  rwa [List.append_nil] at this

theorem deserializar_truncar_eq {n : UInt64} :
    deserializar_pedido_truncar_archivo (le 8 n.toNat ++ v) (le 8 n.toNat ++ v).length =
      .ok ⟨v, n⟩ := by
  have hlen : (le 8 n.toNat ++ v).length = 8 + v.length := by simp
  simp only [deserializar_pedido_truncar_archivo, hlen, restar_eq (Nat.le_add_right 8 _),
    copiar_campo le_length, copiar_resto le_length rfl, ok_bind, ofNat_le_size]
  rfl

theorem deserializar_leer_eq {n : UInt64} {o : Int64} :
    deserializar_pedido_leer_archivo (le 8 n.toNat ++ le 8 o.toUInt64.toNat ++ v)
      (le 8 n.toNat ++ le 8 o.toUInt64.toNat ++ v).length = .ok ⟨v, n, o⟩ := by
  have hlen : (le 8 n.toNat ++ le 8 o.toUInt64.toNat ++ v).length = 8 + 8 + v.length := by
    simp only [List.length_append, le_length]
  have hsize : copiar (le 8 n.toNat ++ le 8 o.toUInt64.toNat ++ v) 0 8 = .ok (le 8 n.toNat) := by
    rw [List.append_assoc]
    exact copiar_campo le_length
  have hoffset : copiar (le 8 n.toNat ++ le 8 o.toUInt64.toNat ++ v) 8 8 =
      .ok (le 8 o.toUInt64.toNat) := by
    rw [List.append_assoc]
    exact copiar_append le_length le_length
  have hnombre := copiar_resto (u := le 8 n.toNat ++ le 8 o.toUInt64.toNat) (v := v)
    (k := 8 + 8) (by simp) rfl
  simp only [deserializar_pedido_leer_archivo, hlen, restar_eq (Nat.le_add_right (8 + 8) _), hsize,
    hoffset, hnombre, ok_bind, ofNat_le_size, Int64.toInt64_toUInt64]
  rfl

theorem deserializar_escribir_eq {buffer : List UInt8} {o : Int64} (hb : buffer.length < 2 ^ 31) :
    deserializar_pedido_escribir_archivo
        (le 8 buffer.length ++ (le 8 o.toUInt64.toNat ++ buffer) ++ v)
        (le 8 buffer.length ++ (le 8 o.toUInt64.toNat ++ buffer) ++ v).length =
      .ok ⟨v, buffer, .ofNat buffer.length, o⟩ := by
  have hlen : (le 8 buffer.length ++ (le 8 o.toUInt64.toNat ++ buffer) ++ v).length =
      8 + 8 + buffer.length + v.length := by
    simp only [List.length_append, le_length]
    omega
  have hof : ofLe (le 8 buffer.length) = buffer.length := ofLe_le_of_lt (by omega)
  have htmp : int32_t buffer.length = .ok buffer.length := if_pos hb
  have hsize : copiar (le 8 buffer.length ++ (le 8 o.toUInt64.toNat ++ buffer) ++ v) 0 8 =
      .ok (le 8 buffer.length) := by
    rw [List.append_assoc]
    exact copiar_campo le_length
  have hoffset : copiar (le 8 buffer.length ++ (le 8 o.toUInt64.toNat ++ buffer) ++ v) 8 8 =
      .ok (le 8 o.toUInt64.toNat) := by
    rw [List.append_assoc, List.append_assoc]
    exact copiar_append le_length le_length
  have hbuffer : copiar (le 8 buffer.length ++ (le 8 o.toUInt64.toNat ++ buffer) ++ v) (8 + 8)
      buffer.length = .ok buffer := by
    have := copiar_append (u := le 8 buffer.length ++ le 8 o.toUInt64.toNat) (v := buffer)
      (w := v) (k := 8 + 8) (by simp) rfl
    simpa only [List.append_assoc] using this
  have hnombre : copiar (le 8 buffer.length ++ (le 8 o.toUInt64.toNat ++ buffer) ++ v)
      (8 + 8 + buffer.length) (8 + 8 + buffer.length + v.length - (8 + 8 + buffer.length)) =
      .ok v := by
    refine copiar_resto ?_ rfl
    simp only [List.length_append, le_length]
    omega
  simp only [deserializar_pedido_escribir_archivo, hlen, hsize, hoffset, hof, htmp, hbuffer,
    restar_eq (Nat.le_add_right (8 + 8 + buffer.length) _), hnombre, ok_bind,
    Int64.toInt64_toUInt64, ofNat_le_size]
  rfl

/-- A request is read back from its payload. -/
theorem deserializar_payload (h : p.Valido) :
    deserializar p.tipo p.payload p.payload.length = .ok (some p) := by
  obtain ⟨hpath, hbuffer⟩ := h
  cases p with
  | crear_archivo path mode =>
    have hname : cadena (path ++ [0]) = .ok path := cadena_append hpath
    simp +decide only [deserializar, Pedido.tipo, Pedido.payload, Pedido.campos, Pedido.path,
      if_true, if_false, deserializar_modo_nombre_eq, hname, ok_bind]
    rfl
  | crear_directorio path mode =>
    have hname : cadena (path ++ [0]) = .ok path := cadena_append hpath
    simp +decide only [deserializar, Pedido.tipo, Pedido.payload, Pedido.campos, Pedido.path,
      if_true, if_false, deserializar_modo_nombre_eq, hname, ok_bind]
    rfl
  | abrir_archivo path =>
    have hname : cadena (path ++ [0]) = .ok path := cadena_append hpath
    simp +decide only [deserializar, Pedido.tipo, Pedido.payload, Pedido.campos, Pedido.path,
      List.nil_append, if_true, if_false, deserializar_nombre_eq, hname, ok_bind]
    rfl
  | eliminar_archivo path =>
    have hname : cadena (path ++ [0]) = .ok path := cadena_append hpath
    simp +decide only [deserializar, Pedido.tipo, Pedido.payload, Pedido.campos, Pedido.path,
      List.nil_append, if_true, if_false, deserializar_nombre_eq, hname, ok_bind]
    rfl
  | eliminar_directorio path =>
    have hname : cadena (path ++ [0]) = .ok path := cadena_append hpath
    simp +decide only [deserializar, Pedido.tipo, Pedido.payload, Pedido.campos, Pedido.path,
      List.nil_append, if_true, if_false, deserializar_nombre_eq, hname, ok_bind]
    rfl
  | obtener_atributos path =>
    have hname : cadena (path ++ [0]) = .ok path := cadena_append hpath
    simp +decide only [deserializar, Pedido.tipo, Pedido.payload, Pedido.campos, Pedido.path,
      List.nil_append, if_true, if_false, deserializar_nombre_eq, hname, ok_bind]
    rfl
  | leer_directorio path =>
    have hname : cadena (path ++ [0]) = .ok path := cadena_append hpath
    simp +decide only [deserializar, Pedido.tipo, Pedido.payload, Pedido.campos, Pedido.path,
      List.nil_append, if_true, if_false, deserializar_nombre_eq, hname, ok_bind]
    rfl
  | leer_archivo path size offset =>
    have hname : cadena (path ++ [0]) = .ok path := cadena_append hpath
    simp +decide only [deserializar, Pedido.tipo, Pedido.payload, Pedido.campos, Pedido.path,
      if_true, if_false, deserializar_leer_eq, hname, ok_bind]
    rfl
  | escribir_archivo path buffer offset =>
    have hname : cadena (path ++ [0]) = .ok path := cadena_append hpath
    simp +decide only [deserializar, Pedido.tipo, Pedido.payload, Pedido.campos, Pedido.path,
      if_true, if_false, deserializar_escribir_eq (hbuffer _ _ _ rfl), hname, ok_bind]
    rfl
  | truncar_archivo path size =>
    have hname : cadena (path ++ [0]) = .ok path := cadena_append hpath
    simp +decide only [deserializar, Pedido.tipo, Pedido.payload, Pedido.campos, Pedido.path,
      if_true, if_false, deserializar_truncar_eq, hname, ok_bind]
    rfl

/-- The client announces the length of what it sends. -/
theorem serializar_eq (h : p.Valido) :
    p.serializar = header p.tipo p.payload.length ++ p.payload := by
  obtain ⟨-, hbuffer⟩ := h
  cases p with
  | escribir_archivo path buffer offset =>
    have hb := hbuffer _ _ _ rfl
    have hsize : (UInt64.ofNat buffer.length).toNat = buffer.length := by
      rw [UInt64.toNat_ofNat']
      exact Nat.mod_eq_of_lt (by omega)
    simp only [Pedido.serializar, serializar_pedido_escribir_archivo, Pedido.tipo, Pedido.payload,
      Pedido.campos, Pedido.path, hsize, List.take_length, List.append_assoc, List.length_append,
      le_length, List.length_singleton, Nat.add_assoc]
  | _ =>
    simp only [Pedido.serializar, serializar_pedido_modo_nombre, serializar_pedido_nombre,
      serializar_pedido_leer_archivo, serializar_pedido_truncar_archivo, Pedido.tipo,
      Pedido.payload, Pedido.campos, Pedido.path, List.append_assoc, List.length_append, le_length,
      List.length_singleton, Nat.add_assoc, List.nil_append]

/-- One round reads the first request and stops at the end of its frame. -/
theorem recibir_pedido_serializar (h : p.Valido) (hfits : p.payload.length < 2 ^ 16) :
    recibir_pedido (p.serializar ++ u) = .ok (some (p, u)) := by
  rw [serializar_eq h, List.append_assoc]
  simp only [recibir_pedido, recibir_header_append hfits]
  have hpaquete : recibir_paquete p.payload.length (p.payload ++ u) = some p.payload := by
    simp [recibir_paquete]
  simp only [hpaquete, deserializar_payload h, ok_bind, List.drop_left']
  rfl

/-- Whatever requests the client sends, the server reads the same ones from the stream, and
nothing is left of it. -/
theorem recibir_pedidos_serializar {pedidos : List Pedido} {n : Nat} (hn : pedidos.length ≤ n)
    (h : ∀ p ∈ pedidos, 0 ∉ p.path ∧ p.payload.length < 2 ^ 16) :
    recibir_pedidos n (pedidos.flatMap Pedido.serializar) = .ok (pedidos, []) := by
  induction pedidos generalizing n with
  | nil => cases n <;> rfl
  | cons p pedidos ih =>
    cases n with
    | zero => simp at hn
    | succ n =>
      obtain ⟨hpath, hfits⟩ := h p (by simp)
      have hvalid : p.Valido := by
        refine ⟨hpath, ?_⟩
        rintro path buffer offset rfl
        simp only [Pedido.payload, Pedido.campos, List.length_append] at hfits
        omega
      have hrest := ih (Nat.le_of_succ_le_succ hn) (fun q hq => h q (by simp [hq]))
      simp only [List.flatMap_cons, recibir_pedidos, recibir_pedido_serializar hvalid hfits,
        ok_bind, hrest]
      rfl

/-- A file is created and two bytes are written to it. -/
theorem recibir_pedidos_dos :
    recibir_pedidos 2 ([Pedido.crear_archivo [47, 97] 420,
      .escribir_archivo [47, 97] [1, 2] 0].flatMap Pedido.serializar) =
      .ok ([.crear_archivo [47, 97] 420, .escribir_archivo [47, 97] [1, 2] 0], []) := by
  refine recibir_pedidos_serializar (by decide) ?_
  simp [Pedido.path, Pedido.payload, Pedido.campos]

end Decoders

end LaLiga.Serializadores
