import LaLiga.Rfs.NamedFiles
import LaLiga.Rfs.Recepcion

/-! What a `worker` does with a task about a file: the request is served and its result sent. -/
namespace LaLiga.Rfs

open LaLiga.Lib LaLiga.Serializadores

/-- The numbers of `errno`. -/
def Errno.number : Errno → Nat
  | .EPERM => 1
  | .ENOENT => 2
  | .EEXIST => 17
  | .ENOTDIR => 20
  | .ENOSPC => 28
  | .ENOTEMPTY => 39
  | .ECANCELED => 125

def ENAMETOOLONG : Nat := 36

/-- What `data` points to: 32 bits, or the bytes that were read. -/
inductive Data
  | null
  | number (n : Nat)
  | bytes (read_data : List UInt8)

structure operation_result_t where
  data : Data
  read_bytes : Nat
  error : Nat

def error_number (error : Option Errno) : Nat := (error.map Errno.number).getD 0

/-- The result with `errno`, which was 0 before the operation. -/
def Path_reply.result : Path_reply → operation_result_t
  | .name_too_long => ⟨.null, 0, ENAMETOOLONG⟩
  | .create data error => ⟨.number data, 0, error_number error⟩
  | .open_file data error => ⟨.number data, 0, error_number error⟩
  | .delete data error => ⟨.number data, 0, error_number error⟩
  | .file .name_too_long => ⟨.null, 0, ENAMETOOLONG⟩
  | .file (.write data error) => ⟨data.elim .null .number, 0, error_number error⟩
  | .file (.truncate data error) => ⟨.number data, 0, error_number error⟩
  | .file (.read read_bytes data error) =>
    ⟨data.elim .null .bytes, read_bytes, error_number error⟩
  | .file .nothing => ⟨.null, 0, 0⟩

/-- The type of a reply that reports the error. -/
def refusal (error : Nat) : Int8 := -Int8.ofNat error

/-- The errors that a function looks for, each with the one that it reports. -/
abbrev Branches := List (Nat × Nat)

/-- Without a branch for the error `respuesta` is not set, and is used all the same. -/
def finish (branches : Branches) (error : Nat) : Except Fallo t_stream :=
  match branches.lookup error with
  | none => .error .indefinido
  | some e => .ok (serializar_respuesta_finalizacion (refusal e))

/-- The functions that only look for an error when there is no `data`. -/
def response_by_data (branches : Branches) (result : operation_result_t) :
    Except Fallo (List t_stream) :=
  match result.data with
  | .null => (finish branches result.error).map fun respuesta => [respuesta]
  | _ => .ok [serializar_respuesta_finalizacion RESPUESTA_OK]

/-- The functions that do not look at `data`. -/
def response_by_error (branches : Branches) (result : operation_result_t) :
    Except Fallo (List t_stream) :=
  match branches.lookup result.error with
  | none => .ok [serializar_respuesta_finalizacion RESPUESTA_OK]
  | some e => .ok [serializar_respuesta_finalizacion (refusal e)]

def crear_archivo_response : operation_result_t → Except Fallo (List t_stream) :=
  response_by_data [(Errno.ENOENT.number, Errno.ENOENT.number), (ENAMETOOLONG, ENAMETOOLONG)]

def eliminar_archivo_response : operation_result_t → Except Fallo (List t_stream) :=
  response_by_data [(Errno.ENOENT.number, Errno.EEXIST.number), (ENAMETOOLONG, ENAMETOOLONG)]

def truncar_archivo_response : operation_result_t → Except Fallo (List t_stream) :=
  response_by_error [(Errno.ENOENT.number, Errno.ENOENT.number), (ENAMETOOLONG, ENAMETOOLONG)]

def abrir_archivo_response : operation_result_t → Except Fallo (List t_stream) :=
  response_by_error [(Errno.ENOENT.number, Errno.ENOENT.number), (ENAMETOOLONG, ENAMETOOLONG)]

/-- Eight bytes are sent of the four that `data` points to: `behind` is what comes after them. -/
def escribir_archivo_response (behind : UInt32) (result : operation_result_t) :
    Except Fallo (List t_stream) :=
  match result.data with
  | .number bytes_written =>
    .ok [serializar_respuesta_escribir_archivo RESPUESTA_OK
      (bytes_written + behind.toNat * 2 ^ 32)]
  | _ =>
    (finish [(Errno.ENOENT.number, Errno.ENOENT.number), (Errno.ENOSPC.number, Errno.ENOSPC.number),
      (ENAMETOOLONG, ENAMETOOLONG)] result.error).map fun respuesta => [respuesta]

/-- The reply that reports an error is made but not sent. -/
def leer_archivo_response (result : operation_result_t) : Except Fallo (List t_stream) :=
  match result.data with
  | .bytes read_data =>
    (serializar_respuesta_leer_archivo RESPUESTA_OK result.read_bytes read_data).map
      fun respuesta => [respuesta]
  | _ =>
    if result.error = Errno.ENOENT.number ∨ result.error = ENAMETOOLONG then .ok []
    else .error .indefinido

/-- The streams sent to the socket of the task, for the tasks about files. -/
def deliver_response (behind : UInt32) :
    Response → operation_result_t → Option (Except Fallo (List t_stream))
  | .crear_archivo, result => some (crear_archivo_response result)
  | .abrir_archivo, result => some (abrir_archivo_response result)
  | .leer_archivo, result => some (leer_archivo_response result)
  | .escribir_archivo, result => some (escribir_archivo_response behind result)
  | .eliminar_archivo, result => some (eliminar_archivo_response result)
  | .truncar_archivo, result => some (truncar_archivo_response result)
  | _, _ => none

/-- What the operation of a task about a file is asked to do. -/
def task_t.request (task : task_t) : Option Path_request :=
  let params := task.params
  match task.run with
  | .create_file_dir => if params.file then some (.create params.path params.mode.toNat) else none
  | .open_file => some (.open_file params.path)
  | .delete_file => some (.delete params.path)
  | .read_file => some (.file (.read ⟨params.path, params.offset, params.bytes_to_read⟩))
  | .write_file =>
    if whole : params.write_buffer.length = params.bytes_to_write.toNat then
      some (.file (.write ⟨params.path, params.offset, params.bytes_to_write, params.write_buffer,
        whole⟩))
    else none
  | .truncate_file => some (.file (.truncate ⟨params.path, params.size⟩))
  | _ => none

/-- Why a request gets no further. -/
inductive Failure
  | operation (e : Crash)
  | response (e : Fallo)
  | decoder (e : Desvio)
  /-- a task about a directory, which is not followed here -/
  | directory
  /-- a type without a task, for which the last one is pushed again -/
  | unknown
  /-- what does not come is waited for -/
  | waiting

/-- A task served by a `worker`, and what it has sent. -/
def work (c : Superblock_constants) (behind : UInt32) (s : Server) (task : task_t) :
    Except Failure (Server × List t_stream) :=
  match task.request with
  | none => .error .directory
  | some req =>
    match serve_path c s req with
    | .error e => .error (.operation e)
    | .ok (s, reply) =>
      match deliver_response behind task.deliver_response reply.result with
      | none => .error .directory
      | some (.error e) => .error (.response e)
      | some (.ok sent) => .ok (s, sent)

end LaLiga.Rfs
