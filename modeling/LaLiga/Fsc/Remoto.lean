import LaLiga.Fsc.Respuestas
import LaLiga.Rfs.Responses

/-! The callbacks of FSC for files, from the request to what they return, over the frames of both
sides and the file system of the server. -/
namespace LaLiga.Fsc.Remoto

open LaLiga.Lib LaLiga.Serializadores
open LaLiga.Rfs (Server Superblock_constants Folders Failure Path_request task_t)

inductive Llamada
  | crear_archivo (path : Path) (mode : UInt32)
  | abrir_archivo (path : Path)
  | leer_archivo (path : Path) (size : UInt64) (offset : Int64)
  | escribir_archivo (path : Path) (buffer : List UInt8) (offset : Int64)
  | truncar_archivo (path : Path) (size : UInt64)
  | eliminar_archivo (path : Path)

/-- The request that the callback sends. -/
def Llamada.pedido : Llamada → Pedido
  | .crear_archivo path mode => .crear_archivo path mode
  | .abrir_archivo path => .abrir_archivo path
  | .leer_archivo path size offset => .leer_archivo path size offset
  | .escribir_archivo path buffer offset => .escribir_archivo path buffer offset
  | .truncar_archivo path size => .truncar_archivo path size
  | .eliminar_archivo path => .eliminar_archivo path

/-- What the callback returns and has put in the buffer of the kernel, and what stays in the
connection. -/
structure Devuelto where
  valor : Int32
  buffer : List UInt8
  resto : List UInt8

/-- The callbacks that only look at the type of the reply. -/
def sin_payload (rechazos : List Int8) (bytes : List UInt8) : Except Failure Devuelto :=
  match recibir_header bytes with
  | none => .error .waiting
  | some (header_respuesta, resto) =>
    if header_respuesta.tipo ∈ rechazos then .ok ⟨header_respuesta.tipo.toInt32, [], resto⟩
    else .ok ⟨0, [], resto⟩

/-- The callbacks that take a payload from a reply that is no error. -/
def con_payload (deserializar : List UInt8 → Except Fallo (Nat × List UInt8))
    (bytes : List UInt8) : Except Failure Devuelto :=
  match recibir_header bytes with
  | none => .error .waiting
  | some (header_respuesta, resto) =>
    if header_respuesta.tipo = -ENOENT ∨ header_respuesta.tipo = -ENAMETOOLONG then
      .ok ⟨header_respuesta.tipo.toInt32, [], resto⟩
    else
      match recibir_paquete header_respuesta.longitud resto with
      | none => .error .waiting
      | some payload =>
        match deserializar payload with
        | .error e => .error (.response e)
        | .ok (bytes, buffer) => .ok ⟨.ofNat bytes, buffer, resto.drop header_respuesta.longitud⟩

/-- The payload is copied to a `size_t`. -/
def deserializar_respuesta_escribir_archivo (stream : List UInt8) : Except Fallo Nat :=
  if stream.length ≤ 8 then .ok (ofLe stream) else .error .indefinido

/-- What the callback makes of the reply. -/
def Llamada.recibir : Llamada → List UInt8 → Except Failure Devuelto
  | .crear_archivo _ _ => sin_payload [-EEXIST, -ENAMETOOLONG]
  | .abrir_archivo _ => sin_payload [-ENOENT, -ENAMETOOLONG]
  | .truncar_archivo _ _ => sin_payload [-ENOENT, -ENAMETOOLONG]
  | .eliminar_archivo _ => sin_payload [-ENOENT, -ENAMETOOLONG]
  | .leer_archivo _ _ _ => con_payload fun payload =>
    (deserializar_respuesta_leer_archivo payload).map fun respuesta =>
      (respuesta.bytes_leidos, respuesta.buffer.take respuesta.bytes_leidos)
  | .escribir_archivo _ _ _ => con_payload fun payload =>
    (deserializar_respuesta_escribir_archivo payload).map fun bytes => (bytes, [])

/-- The same on the map from paths to bytes. To create what is there and to delete what is not is
a success. -/
def esperado (c : Superblock_constants) (files : Path → Option (List UInt8)) :
    Llamada → (Path → Option (List UInt8)) × Devuelto
  | .crear_archivo path _ =>
    if path.length ≤ 40 then
      (Function.update files path (some ((files path).getD [])), ⟨0, [], []⟩)
    else (files, ⟨(-ENAMETOOLONG).toInt32, [], []⟩)
  | .abrir_archivo path =>
    if path.length ≤ 40 then
      (files, ⟨if (files path).isSome then 0 else (-ENOENT).toInt32, [], []⟩)
    else (files, ⟨(-ENAMETOOLONG).toInt32, [], []⟩)
  | .leer_archivo path size offset =>
    let bytes := (files path).getD []
    let n := size.toUInt32.toNat
    let offset := offset.toUInt64.toUInt32.toNat
    let leidos := min n (bytes.length - offset)
    (files, ⟨.ofNat leidos, (Rfs.fetched c bytes offset n).take leidos, []⟩)
  | .escribir_archivo path buffer offset =>
    if path.length ≤ 40 then
      match files path with
      | none => (files, ⟨(-ENOENT).toInt32, [], []⟩)
      | some bytes =>
        let offset := offset.toUInt64.toUInt32.toNat
        let escritos := Rfs.written c offset buffer.length
        (Function.update files path (some (overwrite 0 bytes offset (buffer.take escritos))),
          ⟨.ofNat escritos, [], []⟩)
    else (files, ⟨(-ENAMETOOLONG).toInt32, [], []⟩)
  | .truncar_archivo path size =>
    if path.length ≤ 40 then
      match files path with
      | none => (files, ⟨(-ENOENT).toInt32, [], []⟩)
      | some bytes =>
        (Function.update files path (some (resize 0 bytes (size.toNat % 2 ^ 32))), ⟨0, [], []⟩)
    else (files, ⟨(-ENAMETOOLONG).toInt32, [], []⟩)
  | .eliminar_archivo path =>
    if path.length ≤ 40 then (Function.update files path none, ⟨0, [], []⟩)
    else (files, ⟨(-ENAMETOOLONG).toInt32, [], []⟩)

/-- The task that the server makes of the request. -/
def Llamada.tarea (fd : Int32) : Llamada → task_t
  | .crear_archivo path mode =>
    { run := .create_file_dir, deliver_response := .crear_archivo
      params := { path, mode, file := true, socket := fd } }
  | .abrir_archivo path =>
    { run := .open_file, deliver_response := .abrir_archivo, params := { path, socket := fd } }
  | .leer_archivo path size offset =>
    { run := .read_file, deliver_response := .leer_archivo
      params := { path, bytes_to_read := size.toUInt32, offset := offset.toUInt64.toUInt32
                  socket := fd } }
  | .escribir_archivo path buffer offset =>
    { run := .write_file, deliver_response := .escribir_archivo
      params := { path, offset := offset.toUInt64.toUInt32
                  bytes_to_write := (UInt64.ofNat buffer.length).toUInt32, write_buffer := buffer
                  socket := fd } }
  | .truncar_archivo path size =>
    { run := .truncate_file, deliver_response := .truncar_archivo
      params := { path, size, socket := fd } }
  | .eliminar_archivo path =>
    { run := .delete_file, deliver_response := .eliminar_archivo, params := { path, socket := fd } }

/-- What a call needs: a path that is a C string, frames of lengths that 16 bits hold, and what the
request needs. What is read must be there, since no error of a read is reported. -/
structure Admisible (c : Superblock_constants) (F : Folders) (s : Server) (l : Llamada) : Prop where
  path : 0 ∉ l.pedido.path
  corta : l.pedido.payload.length < 2 ^ 16
  fitting : ∀ fd req, (l.tarea fd).request = some req → Rfs.Fitting c F s req
  lectura : ∀ path size offset, l = .leer_archivo path size offset → path.length ≤ 40 ∧
    ∃ i, Rfs.Found c s.file path i ∧
      8 + min size.toUInt32.toNat ((s.file.inode i).size.toNat - offset.toUInt64.toUInt32.toNat) <
        2 ^ 16

variable {c : Superblock_constants} {F : Folders} {s s' : Server} {l : Llamada} {fd : Int32}
  {behind : UInt32} {files : Path → Option (List UInt8)}

theorem Admisible.valido (h : Admisible c F s l) : l.pedido.Valido := by
  refine ⟨h.path, ?_⟩
  intro path buffer offset heq
  have hlong := h.corta
  rw [heq] at hlong
  simp only [Pedido.payload, Pedido.campos, List.length_append] at hlong
  omega

/-- The frame of a request gives its task. -/
theorem generar_tarea (fd : Int32) (h : l.pedido.Valido) : ∃ generar,
    Rfs.generar_task l.pedido.tipo = some generar ∧
      generar fd l.pedido.payload l.pedido.payload.length = .ok (l.tarea fd) := by
  obtain ⟨hpath, hbuffer⟩ := h
  have hname : cadena (l.pedido.path ++ [0]) = .ok l.pedido.path := cadena_append hpath
  cases l with
  | crear_archivo path mode =>
    refine ⟨_, rfl, ?_⟩
    simp only [Llamada.pedido, Pedido.path] at hname
    simp only [Rfs.generar_task_crear_archivo, Rfs.generar_task_modo_nombre, Llamada.pedido,
      Pedido.payload, Pedido.campos, deserializar_modo_nombre_eq, Pedido.path, hname, ok_bind]
    rfl
  | abrir_archivo path =>
    refine ⟨_, rfl, ?_⟩
    simp only [Llamada.pedido, Pedido.path] at hname
    simp only [Rfs.generar_task_abrir_archivo, Rfs.generar_task_nombre, Llamada.pedido,
      Pedido.payload, Pedido.campos, Pedido.path, List.nil_append, deserializar_nombre_eq, hname,
      ok_bind]
    rfl
  | leer_archivo path size offset =>
    refine ⟨_, rfl, ?_⟩
    simp only [Llamada.pedido, Pedido.path] at hname
    simp only [Rfs.generar_task_leer_archivo, Llamada.pedido, Pedido.payload, Pedido.campos,
      deserializar_leer_eq, Pedido.path, hname, ok_bind]
    rfl
  | escribir_archivo path buffer offset =>
    refine ⟨_, rfl, ?_⟩
    simp only [Llamada.pedido, Pedido.path] at hname
    simp only [Rfs.generar_task_escribir_archivo, Llamada.pedido, Pedido.payload, Pedido.campos,
      deserializar_escribir_eq (hbuffer _ _ _ rfl), Pedido.path, hname, ok_bind]
    rfl
  | truncar_archivo path size =>
    refine ⟨_, rfl, ?_⟩
    simp only [Llamada.pedido, Pedido.path] at hname
    simp only [Rfs.generar_task_truncar_archivo, Llamada.pedido, Pedido.payload, Pedido.campos,
      deserializar_truncar_eq, Pedido.path, hname, ok_bind]
    rfl
  | eliminar_archivo path =>
    refine ⟨_, rfl, ?_⟩
    simp only [Llamada.pedido, Pedido.path] at hname
    simp only [Rfs.generar_task_eliminar_archivo, Rfs.generar_task_nombre, Llamada.pedido,
      Pedido.payload, Pedido.campos, Pedido.path, List.nil_append, deserializar_nombre_eq, hname,
      ok_bind]
    rfl

section Respuestas

variable {tipo : Int8} {rechazos : List Int8} {payload : List UInt8} {req : Path_request}
  {deserializar : List UInt8 → Except Fallo (Nat × List UInt8)}

theorem recibir_finalizacion :
    recibir_header ([serializar_respuesta_finalizacion tipo].flatten) = some (⟨tipo, 0⟩, []) := by
  have hself : recibir_header (header tipo 0 ++ []) = some (⟨tipo, 0⟩, []) :=
    recibir_header_append (by decide)
  simpa only [List.flatten_singleton, serializar_respuesta_finalizacion, List.append_nil]
    using hself

theorem sin_payload_ok (h : RESPUESTA_OK ∉ rechazos) :
    sin_payload rechazos ([serializar_respuesta_finalizacion RESPUESTA_OK].flatten) =
      .ok ⟨0, [], []⟩ := by
  simp only [sin_payload, recibir_finalizacion, if_neg h]

theorem sin_payload_rechazo (h : tipo ∈ rechazos) :
    sin_payload rechazos ([serializar_respuesta_finalizacion tipo].flatten) =
      .ok ⟨tipo.toInt32, [], []⟩ := by
  simp only [sin_payload, recibir_finalizacion, if_pos h]

theorem con_payload_finalizacion (h : tipo = -ENOENT ∨ tipo = -ENAMETOOLONG) :
    con_payload deserializar ([serializar_respuesta_finalizacion tipo].flatten) =
      .ok ⟨tipo.toInt32, [], []⟩ := by
  simp only [con_payload, recibir_finalizacion, if_pos h]

theorem con_payload_trama {bytes : Nat} {buffer : List UInt8} (hlong : payload.length < 2 ^ 16)
    (h : deserializar payload = .ok (bytes, buffer)) :
    con_payload deserializar ([header RESPUESTA_OK payload.length ++ payload].flatten) =
      .ok ⟨.ofNat bytes, buffer, []⟩ := by
  have hok : ¬ (RESPUESTA_OK = -ENOENT ∨ RESPUESTA_OK = -ENAMETOOLONG) := by decide
  simp only [con_payload, List.flatten_singleton, recibir_header_append hlong, if_neg hok,
    recibir_paquete_self, h, List.drop_length]

/-- A count of 32 bits comes through whatever is behind it. -/
theorem ofNat_behind (n : Nat) (k : UInt32) :
    Int32.ofNat (n + k.toNat * 2 ^ 32) = Int32.ofNat n := by
  have hmod : (n + k.toNat * 2 ^ 32) % 2 ^ 32 = n % 2 ^ 32 := Nat.add_mul_mod_self_right ..
  have hbits : BitVec.ofNat 32 (n + k.toNat * 2 ^ 32) = BitVec.ofNat 32 n := by
    apply BitVec.eq_of_toNat_eq
    rw [BitVec.toNat_ofNat, BitVec.toNat_ofNat, hmod]
  exact congrArg (fun b => (⟨⟨b⟩⟩ : Int32)) hbits

theorem recibir_escritura (path buffer : List UInt8) (offset : Int64) {n : Nat}
    (hn : n < 2 ^ 32) : (Llamada.escribir_archivo path buffer offset).recibir
      ([serializar_respuesta_escribir_archivo RESPUESTA_OK (n + behind.toNat * 2 ^ 32)].flatten) =
        .ok ⟨.ofNat n, [], []⟩ := by
  have hbehind := behind.toNat_lt
  obtain ⟨x, hx⟩ : ∃ x, x = n + behind.toNat * 2 ^ 32 := ⟨_, rfl⟩
  have hdecode : deserializar_respuesta_escribir_archivo (le 8 x) = .ok x := by
    rw [deserializar_respuesta_escribir_archivo, if_pos (by rw [le_length]), ofLe_le_of_lt
      (by omega)]
  have hframe : (Llamada.escribir_archivo path buffer offset).recibir
      ([header RESPUESTA_OK (le 8 x).length ++ le 8 x].flatten) = .ok ⟨.ofNat x, [], []⟩ :=
    con_payload_trama (by rw [le_length]; decide) (by simp only [hdecode]; rfl)
  rw [le_length] at hframe
  rw [← hx, serializar_respuesta_escribir_archivo, hframe, hx, ofNat_behind]

theorem recibir_lectura {path data : List UInt8} {size : UInt64} {offset : Int64} {n : Nat}
    (hn : n ≤ data.length) (hlong : 8 + n < 2 ^ 16) : ∃ stream,
      serializar_respuesta_leer_archivo RESPUESTA_OK n data = .ok stream ∧
      (Llamada.leer_archivo path size offset).recibir ([stream].flatten) =
        .ok ⟨.ofNat n, data.take n, []⟩ := by
  have htake : (data.take n).length = n := by
    rw [List.length_take]
    omega
  have hpayload : (le 8 n ++ data.take n).length = 8 + n := by
    rw [List.length_append, le_length, htake]
  have hdecode : deserializar_respuesta_leer_archivo (le 8 n ++ data.take n) =
      .ok ⟨n, data.take n⟩ := by
    have hself : deserializar_respuesta_leer_archivo (le 8 (data.take n).length ++ data.take n) =
        .ok ⟨(data.take n).length, data.take n⟩ := deserializar_leer_archivo_eq (by omega)
    rwa [htake] at hself
  have hframe : (Llamada.leer_archivo path size offset).recibir
      ([header RESPUESTA_OK (le 8 n ++ data.take n).length ++ (le 8 n ++ data.take n)].flatten) =
        .ok ⟨.ofNat n, data.take n, []⟩ :=
    con_payload_trama (by omega) (by simp only [hdecode, Except.map, List.take_take, min_self])
  rw [hpayload] at hframe
  refine ⟨header RESPUESTA_OK (8 + n) ++ (le 8 n ++ data.take n), ?_, hframe⟩
  simp only [serializar_respuesta_leer_archivo, Nat.mod_eq_of_lt hlong, le_refl, if_true]

/-- What the reply of the server comes to, in the callback and on the map. -/
theorem recibir_reply (c : Superblock_constants) (behind : UInt32)
    (hreq : (l.tarea fd).request = some req)
    (hread : ∀ path size offset, l = .leer_archivo path size offset → path.length ≤ 40 ∧
      ∃ bytes, files path = some bytes ∧
        8 + min size.toUInt32.toNat (bytes.length - offset.toUInt64.toUInt32.toNat) < 2 ^ 16) :
    (Rfs.reply_path c files req).1 = (esperado c files l).1 ∧ ∃ sent,
      Rfs.deliver_response behind (l.tarea fd).deliver_response
        (Rfs.reply_path c files req).2.result = some (.ok sent) ∧
      l.recibir sent.flatten = .ok (esperado c files l).2 := by
  cases l with
  | crear_archivo path mode =>
    obtain rfl : req = .create path mode.toNat := (Option.some.inj hreq).symm
    by_cases hshort : path.length ≤ 40
    · cases hfile : files path with
      | none =>
        simp only [Rfs.reply_path, esperado, Llamada.recibir, if_pos hshort, hfile]
        exact ⟨rfl, _, rfl, sin_payload_ok (by decide)⟩
      | some bytes =>
        simp only [Rfs.reply_path, esperado, Llamada.recibir, if_pos hshort, hfile,
          Option.getD_some]
        rw [← hfile, Function.update_eq_self]
        exact ⟨rfl, _, rfl, sin_payload_ok (by decide)⟩
    · simp only [Rfs.reply_path, esperado, Llamada.recibir, if_neg hshort]
      exact ⟨trivial, [serializar_respuesta_finalizacion (-ENAMETOOLONG)], rfl,
        sin_payload_rechazo (by decide)⟩
  | abrir_archivo path =>
    obtain rfl : req = .open_file path := (Option.some.inj hreq).symm
    by_cases hshort : path.length ≤ 40
    · cases hfile : files path with
      | none =>
        simp only [Rfs.reply_path, esperado, Llamada.recibir, if_pos hshort, hfile]
        exact ⟨trivial, [serializar_respuesta_finalizacion (-ENOENT)], rfl,
          sin_payload_rechazo (by decide)⟩
      | some bytes =>
        simp only [Rfs.reply_path, esperado, Llamada.recibir, if_pos hshort, hfile]
        exact ⟨trivial, _, rfl, sin_payload_ok (by decide)⟩
    · simp only [Rfs.reply_path, esperado, Llamada.recibir, if_neg hshort]
      exact ⟨trivial, [serializar_respuesta_finalizacion (-ENAMETOOLONG)], rfl,
        sin_payload_rechazo (by decide)⟩
  | eliminar_archivo path =>
    obtain rfl : req = .delete path := (Option.some.inj hreq).symm
    by_cases hshort : path.length ≤ 40
    · cases hfile : files path with
      | none =>
        simp only [Rfs.reply_path, esperado, Llamada.recibir, if_pos hshort, hfile]
        rw [← hfile, Function.update_eq_self]
        exact ⟨rfl, _, rfl, sin_payload_ok (by decide)⟩
      | some bytes =>
        simp only [Rfs.reply_path, esperado, Llamada.recibir, if_pos hshort, hfile]
        exact ⟨trivial, _, rfl, sin_payload_ok (by decide)⟩
    · simp only [Rfs.reply_path, esperado, Llamada.recibir, if_neg hshort]
      exact ⟨trivial, [serializar_respuesta_finalizacion (-ENAMETOOLONG)], rfl,
        sin_payload_rechazo (by decide)⟩
  | truncar_archivo path size =>
    obtain rfl : req = .file (.truncate ⟨path, size⟩) := (Option.some.inj hreq).symm
    by_cases hshort : path.length ≤ 40
    · cases hfile : files path with
      | none =>
        simp only [Rfs.reply_path, esperado, Llamada.recibir, if_pos hshort, hfile]
        exact ⟨trivial, [serializar_respuesta_finalizacion (-ENOENT)], rfl,
          sin_payload_rechazo (by decide)⟩
      | some bytes =>
        simp only [Rfs.reply_path, esperado, Llamada.recibir, if_pos hshort, hfile]
        exact ⟨trivial, _, rfl, sin_payload_ok (by decide)⟩
    · simp only [Rfs.reply_path, esperado, Llamada.recibir, if_neg hshort]
      exact ⟨trivial, [serializar_respuesta_finalizacion (-ENAMETOOLONG)], rfl,
        sin_payload_rechazo (by decide)⟩
  | escribir_archivo path buffer offset =>
    by_cases whole : buffer.length = (UInt64.ofNat buffer.length).toUInt32.toNat
    swap
    · rw [Llamada.tarea, task_t.request, dif_neg whole] at hreq
      cases hreq
    rw [Llamada.tarea, task_t.request, dif_pos whole] at hreq
    obtain rfl := Option.some.inj hreq
    have hwritten : Rfs.written c offset.toUInt64.toUInt32.toNat buffer.length ≤ buffer.length :=
      Rfs.written_le
    have hword := UInt32.toNat_lt (UInt64.ofNat buffer.length).toUInt32
    by_cases hshort : path.length ≤ 40
    · cases hfile : files path with
      | none =>
        simp only [Rfs.reply_path, esperado, Llamada.recibir, if_pos hshort, hfile]
        exact ⟨trivial, [serializar_respuesta_finalizacion (-ENOENT)], rfl,
          con_payload_finalizacion (Or.inl rfl)⟩
      | some bytes =>
        simp only [Rfs.reply_path, esperado, Llamada.recibir, if_pos hshort, hfile, ← whole]
        exact ⟨trivial, _, rfl, recibir_escritura path buffer offset (by omega)⟩
    · simp only [Rfs.reply_path, esperado, Llamada.recibir, if_neg hshort]
      exact ⟨trivial, [serializar_respuesta_finalizacion (-ENAMETOOLONG)], rfl,
        con_payload_finalizacion (Or.inr rfl)⟩
  | leer_archivo path size offset =>
    obtain rfl := Option.some.inj hreq
    obtain ⟨hshort, bytes, hfile, hlong⟩ := hread path size offset rfl
    obtain ⟨n, hn⟩ : ∃ n, n = min size.toUInt32.toNat
      (bytes.length - offset.toUInt64.toUInt32.toNat) := ⟨_, rfl⟩
    have hwritten : Rfs.written c offset.toUInt64.toUInt32.toNat n ≤ n := Rfs.written_le
    have hdata : n ≤ (Rfs.fetched c bytes offset.toUInt64.toUInt32.toNat
        size.toUInt32.toNat).length := by
      rw [Rfs.fetched, ← hn, List.length_append, List.length_replicate, length_window]
      omega
    obtain ⟨stream, hstream, hrecibir⟩ := recibir_lectura hdata (hn ▸ hlong)
    simp only [Llamada.tarea, Rfs.reply_path, esperado, if_pos hshort, hfile, Option.getD_some,
      ← hn]
    refine ⟨trivial, [stream], ?_, hrecibir⟩
    simp only [Rfs.deliver_response, Rfs.leer_archivo_response, Rfs.Path_reply.result, hstream,
      Option.elim_some]
    rfl

end Respuestas

/-- A request that fits in its frame is a task of the worker. -/
theorem request_tarea (fd : Int32) (h : l.pedido.payload.length < 2 ^ 16) :
    ∃ req, (l.tarea fd).request = some req := by
  cases l with
  | escribir_archivo path buffer offset =>
    simp only [Llamada.pedido, Pedido.payload, Pedido.campos, List.length_append] at h
    have whole : buffer.length = (UInt64.ofNat buffer.length).toUInt32.toNat := by
      rw [UInt64.toNat_toUInt32, UInt64.toNat_ofNat']
      omega
    exact ⟨_, dif_pos whole⟩
  | _ => exact ⟨_, rfl⟩

/-- A task that is admissible is served, and its reply comes to what the map has for the call. -/
theorem work_esperado (behind : UInt32) (fd : Int32) (hsize : Rfs.Ext2_size c)
    (h : Rfs.Holding c F s files) (hadm : Admisible c F s l) : ∃ s' sent,
      Rfs.work c behind s (l.tarea fd) = .ok (s', sent) ∧
        l.recibir sent.flatten = .ok (esperado c files l).2 ∧
        Rfs.Holding c F s' (esperado c files l).1 := by
  obtain ⟨L, stored, h⟩ := h
  obtain ⟨req, hreq⟩ := request_tarea fd hadm.corta
  have hfit := hadm.fitting fd req hreq
  obtain ⟨L', stored', s', hserve, hrooted⟩ := h.serve_reply hsize hfit
  have hread : ∀ path size offset, l = .leer_archivo path size offset → path.length ≤ 40 ∧
      ∃ bytes, files path = some bytes ∧
        8 + min size.toUInt32.toNat (bytes.length - offset.toUInt64.toUInt32.toNat) < 2 ^ 16 := by
    rintro path size offset rfl
    obtain ⟨hshort, i, hfound, hlong⟩ := hadm.lectura path size offset rfl
    obtain rfl := Option.some.inj hreq
    obtain ⟨⟨names, p, name, hb, rfl⟩, -⟩ := hfit hshort
    have hhome := (h.found_iff hb hsize).mp hfound
    obtain ⟨bytes, hbytes⟩ : ∃ bytes, stored i = some bytes := by
      rw [← Option.isSome_iff_exists, h.serving.mounted.home, hhome]
      rfl
    obtain ⟨N, hstored⟩ := h.serving.mounted.file i bytes hbytes
    rw [hstored.size, Int.toNat_natCast] at hlong
    exact ⟨hshort, bytes, (h.bytes i _ hhome).trans hbytes, hlong⟩
  obtain ⟨hsame, sent, hsent, hrecibir⟩ := recibir_reply c behind hreq hread
  refine ⟨s', sent, ?_, hrecibir, L', stored', hsame ▸ hrooted⟩
  simp only [Rfs.work, hreq, hserve, hsent]

/-- Nothing of a reply stays in the connection. -/
theorem esperado_resto (c : Superblock_constants) (files : Path → Option (List UInt8))
    (l : Llamada) : (esperado c files l).2.resto = [] := by
  cases l with
  | leer_archivo path size offset => rfl
  | escribir_archivo path buffer offset | truncar_archivo path size =>
    rw [esperado]
    split
    · split <;> rfl
    · rfl
  | _ =>
    rw [esperado]
    split <;> rfl

/-- The file `/b` is created. -/
def crear_b : Llamada := .crear_archivo (Rfs.canonical [[98]]) 0x81a4

theorem crear_b_admisible : Admisible (Rfs.one_group 0 Rfs.smallest_block_pos) Rfs.only_root
    ⟨Rfs.root_and_file, Cache.empty⟩ crear_b := by
  refine ⟨by decide, by decide, ?_, ?_⟩
  · intro fd req hreq
    obtain rfl := Option.some.inj hreq
    exact Rfs.new_b_fitting
  · intro path size offset heq
    cases heq

end LaLiga.Fsc.Remoto
