import LaLiga.Commons.Pedidos

/-! The loop of the server that turns what clients send into tasks. -/
namespace LaLiga.Rfs

open LaLiga.Lib LaLiga.Serializadores

/-- The operations that a task can run. -/
inductive Run
  | create_file_dir
  | open_file
  | read_file
  | write_file
  | delete_file
  | delete_dir
  | truncate_file
  | getattr
  | list_directory
  deriving DecidableEq

/-- The functions that send their results. -/
inductive Response
  | crear_archivo
  | crear_directorio
  | abrir_archivo
  | leer_archivo
  | escribir_archivo
  | eliminar_archivo
  | eliminar_directorio
  | truncar_archivo
  | obtener_atributos
  | listar_directorio
  deriving DecidableEq

/-- As `calloc` clears it; offsets and lengths are kept in 32 bits. -/
structure task_params where
  path : List UInt8
  mode : UInt32 := 0
  write_buffer : List UInt8 := []
  file : Bool := false
  offset : UInt32 := 0
  bytes_to_read : UInt32 := 0
  bytes_to_write : UInt32 := 0
  size : UInt64 := 0
  socket : Int32
  deriving DecidableEq

structure task_t where
  run : Run
  params : task_params
  deliver_response : Response
  deriving DecidableEq

/-- The tasks for requests that carry a name and a mode. -/
def generar_task_modo_nombre (file : Bool) (deliver_response : Response) (cliente : Int32)
    (payload : List UInt8) (longitud : Nat) : Except Desvio task_t := do
  let pedido ← deserializar_pedido_modo_nombre payload longitud
  let path ← cadena pedido.nombre_de_archivo
  return { run := .create_file_dir, deliver_response
           params := { path, mode := pedido.modo, file, socket := cliente } }

/-- The tasks for requests that carry a name, which is copied with `strdup`. -/
def generar_task_nombre (run : Run) (deliver_response : Response) (cliente : Int32)
    (payload : List UInt8) (longitud : Nat) : Except Desvio task_t := do
  let pedido ← deserializar_pedido_nombre payload longitud
  let path ← cadena pedido
  return { run, deliver_response, params := { path, socket := cliente } }

def generar_task_crear_archivo := generar_task_modo_nombre true .crear_archivo

def generar_task_crear_directorio := generar_task_modo_nombre false .crear_directorio

def generar_task_abrir_archivo := generar_task_nombre .open_file .abrir_archivo

def generar_task_eliminar_archivo := generar_task_nombre .delete_file .eliminar_archivo

def generar_task_eliminar_directorio := generar_task_nombre .delete_dir .eliminar_directorio

def generar_task_obtener_atributos := generar_task_nombre .getattr .obtener_atributos

def generar_task_listar_directorio := generar_task_nombre .list_directory .listar_directorio

def generar_task_leer_archivo (cliente : Int32) (payload : List UInt8) (longitud : Nat) :
    Except Desvio task_t := do
  let pedido ← deserializar_pedido_leer_archivo payload longitud
  let path ← cadena pedido.nombre_de_archivo
  return { run := .read_file, deliver_response := .leer_archivo
           params := { path, bytes_to_read := pedido.size.toUInt32
                       offset := pedido.offset.toUInt64.toUInt32, socket := cliente } }

def generar_task_escribir_archivo (cliente : Int32) (payload : List UInt8) (longitud : Nat) :
    Except Desvio task_t := do
  let pedido ← deserializar_pedido_escribir_archivo payload longitud
  let path ← cadena pedido.nombre_de_archivo
  return { run := .write_file, deliver_response := .escribir_archivo
           params := { path, offset := pedido.offset.toUInt64.toUInt32
                       bytes_to_write := pedido.size.toUInt32, write_buffer := pedido.buffer
                       socket := cliente } }

def generar_task_truncar_archivo (cliente : Int32) (payload : List UInt8) (longitud : Nat) :
    Except Desvio task_t := do
  let pedido ← deserializar_pedido_truncar_archivo payload longitud
  let path ← cadena pedido.nombre_de_archivo
  return { run := .truncate_file, deliver_response := .truncar_archivo
           params := { path, size := pedido.size, socket := cliente } }

/-- The switch on `header->tipo`; its default branch generates nothing. -/
def generar_task (tipo : Int8) : Option (Int32 → List UInt8 → Nat → Except Desvio task_t) :=
  if tipo = CREAR_ARCHIVO then some generar_task_crear_archivo
  else if tipo = CREAR_DIRECTORIO then some generar_task_crear_directorio
  else if tipo = ABRIR_ARCHIVO then some generar_task_abrir_archivo
  else if tipo = LEER_ARCHIVO then some generar_task_leer_archivo
  else if tipo = ESCRIBIR_ARCHIVO then some generar_task_escribir_archivo
  else if tipo = ELIMINAR_ARCHIVO then some generar_task_eliminar_archivo
  else if tipo = ELIMINAR_DIRECTORIO then some generar_task_eliminar_directorio
  else if tipo = TRUNCAR_ARCHIVO then some generar_task_truncar_archivo
  else if tipo = OBTENER_ATRIBUTOS then some generar_task_obtener_atributos
  else if tipo = LEER_DIRECTORIO then some generar_task_listar_directorio
  else none

/-- The variables of the loop: the tasks allocated so far, which `task_t*` points into; the
pointer `tarea`, indeterminate at first; and the queue. -/
structure Main where
  tareas : List task_t
  tarea : Option Nat
  task_queue : List (Option Nat)

def s_queue_push (s : Main) (tarea : Option Nat) : Main :=
  { s with task_queue := s.task_queue ++ [tarea] }

/-- What arrives in one round: a header and as many bytes as it announces. -/
structure Paquete where
  tipo : Int8
  payload : List UInt8
  cabe : payload.length < 2 ^ 16

/-- The round for a client that has sent a frame. -/
def atender (s : Main) (fd : Int32) (f : Paquete) : Except Desvio Main :=
  match generar_task f.tipo with
  | none => .ok (s_queue_push s s.tarea)
  | some generar => do
    let t ← generar fd f.payload f.payload.length
    let s := { s with tareas := s.tareas ++ [t], tarea := some s.tareas.length }
    return s_queue_push s s.tarea

section Rounds

variable {s : Main} {fd : Int32} {f : Paquete} {p : Pedido} {v : List UInt8}

end Rounds

end LaLiga.Rfs
