import LaLiga.Fsc.Remoto

/-! The threads of the clients, the main thread of the server and its workers, over the
connections. -/
namespace LaLiga.Fsc.Conexiones

open LaLiga.Lib LaLiga.Serializadores LaLiga.Fsc.Remoto
open LaLiga.Rfs (Failure task_t generar_task)

/-- Where a thread of a client is. Inside a callback it has the lock of the connection. -/
inductive Fase
  | fuera
  | envia (l : Llamada)
  | recibe (l : Llamada)
  | sale (l : Llamada) (d : Devuelto)

/-- What a worker of the server has. -/
inductive Puesto
  | libre
  | resuelve (task : task_t)
  | responde (socket : Int32) (bytes : List UInt8)

/-- Connections are known by the socket that the server has for them. What the main thread has
accepted and not pushed yet is `tarea`, and `cola` is `task_queue`. -/
structure Sistema (σ ι ω : Type) where
  servidor : σ
  lock : Int32 → Option ι
  fase : ι → Fase
  pedidos : Int32 → List UInt8
  respuestas : Int32 → List UInt8
  tarea : Option task_t
  cola : List task_t
  worker : ω → Puesto

inductive Suceso (ι : Type)
  | llama (t : ι) (l : Llamada)
  | atiende (task : task_t) (bytes : List UInt8)
  | vuelve (t : ι) (l : Llamada) (d : Devuelto)
  | sigue

/-- The round of the main thread for what has come from a client. -/
def recibir_tarea (fd : Int32) (bytes : List UInt8) : Option (task_t × List UInt8) :=
  match recibir_header bytes with
  | none => none
  | some (header, bytes) =>
    match recibir_paquete header.longitud bytes with
    | none => none
    | some payload =>
      match generar_task header.tipo with
      | none => none
      | some generar =>
        match generar fd payload header.longitud with
        | .error _ => none
        | .ok task => some (task, bytes.drop header.longitud)

section Pasos

variable {σ ι ω : Type} [DecidableEq ι] [DecidableEq ω]

namespace Sistema

variable (s : Sistema σ ι ω)

def con_fase (t : ι) (f : Fase) : Sistema σ ι ω :=
  { s with fase := Function.update s.fase t f }

def con_lock (k : Int32) (t : Option ι) : Sistema σ ι ω :=
  { s with lock := Function.update s.lock k t }

def con_pedidos (k : Int32) (bytes : List UInt8) : Sistema σ ι ω :=
  { s with pedidos := Function.update s.pedidos k bytes }

def con_respuestas (k : Int32) (bytes : List UInt8) : Sistema σ ι ω :=
  { s with respuestas := Function.update s.respuestas k bytes }

def con_worker (w : ω) (p : Puesto) : Sistema σ ι ω :=
  { s with worker := Function.update s.worker w p }

end Sistema

variable (conexion : ι → Llamada → Int32) (sirve : σ → task_t → List UInt8 → σ → Prop)
  (entorno : σ → σ → Prop)

/-- One step of a thread: `conexion` is the connection that a callback of the thread uses, `sirve`
what a worker does for a task and sends, and `entorno` what happens to the server besides. -/
inductive Paso : Sistema σ ι ω → Suceso ι → Sistema σ ι ω → Prop
  | llama {s : Sistema σ ι ω} {t : ι} {l : Llamada} (hf : s.fase t = .fuera)
      (hl : s.lock (conexion t l) = none) :
      Paso s (.llama t l) ((s.con_lock (conexion t l) (some t)).con_fase t (.envia l))
  | envia {s : Sistema σ ι ω} {t : ι} {l : Llamada} (hf : s.fase t = .envia l) :
      Paso s .sigue ((s.con_pedidos (conexion t l)
        (s.pedidos (conexion t l) ++ l.pedido.serializar)).con_fase t (.recibe l))
  | acepta {s : Sistema σ ι ω} {k : Int32} {task : task_t} {resto : List UInt8}
      (ht : s.tarea = none) (hr : recibir_tarea k (s.pedidos k) = some (task, resto)) :
      Paso s .sigue { s.con_pedidos k resto with tarea := some task }
  | encola {s : Sistema σ ι ω} {task : task_t} (ht : s.tarea = some task) :
      Paso s .sigue { s with tarea := none, cola := s.cola ++ [task] }
  | toma {s : Sistema σ ι ω} {w : ω} {task : task_t} {cola : List task_t}
      (hw : s.worker w = .libre) (hc : s.cola = task :: cola) :
      Paso s .sigue { s.con_worker w (.resuelve task) with cola }
  | atiende {s : Sistema σ ι ω} {w : ω} {task : task_t} {bytes : List UInt8} {servidor : σ}
      (hw : s.worker w = .resuelve task) (hs : sirve s.servidor task bytes servidor) :
      Paso s (.atiende task bytes)
        { s.con_worker w (.responde task.params.socket bytes) with servidor }
  | responde {s : Sistema σ ι ω} {w : ω} {k : Int32} {bytes : List UInt8}
      (hw : s.worker w = .responde k bytes) :
      Paso s .sigue ((s.con_respuestas k (s.respuestas k ++ bytes)).con_worker w .libre)
  | recibe {s : Sistema σ ι ω} {t : ι} {l : Llamada} {d : Devuelto} (hf : s.fase t = .recibe l)
      (hd : l.recibir (s.respuestas (conexion t l)) = .ok d) :
      Paso s .sigue ((s.con_respuestas (conexion t l) d.resto).con_fase t (.sale l d))
  | vuelve {s : Sistema σ ι ω} {t : ι} {l : Llamada} {d : Devuelto} (hf : s.fase t = .sale l d) :
      Paso s (.vuelve t l d) ((s.con_lock (conexion t l) none).con_fase t .fuera)
  | cambia {s : Sistema σ ι ω} {servidor : σ} (hs : entorno s.servidor servidor) :
      Paso s .sigue { s with servidor }

def Sistema.inicial (servidor : σ) : Sistema σ ι ω where
  servidor
  lock := fun _ => none
  fase := fun _ => .fuera
  pedidos := fun _ => []
  respuestas := fun _ => []
  tarea := none
  cola := []
  worker := fun _ => .libre

/-- A request that its frame holds. -/
def Cabe (l : Llamada) : Prop := l.pedido.Valido ∧ l.pedido.payload.length < 2 ^ 16

/-- A reply that the callback of the request takes whole. -/
def Entera (l : Llamada) (bytes : List UInt8) : Prop := ∃ d, l.recibir bytes = .ok d ∧ d.resto = []

/-- Requests fit in their frames, and what a worker sends is one reply or nothing. -/
def Cabida (_ : Sistema σ ι ω) (e : Suceso ι) : Prop :=
  match e with
  | .llama _ l => Cabe l
  | .atiende task bytes => ∀ l k, task = l.tarea k → bytes = [] ∨ Entera l bytes
  | _ => True

/-- A call as if it were made on the server: it is asked for, served and returned. -/
inductive Estado
  | libre
  | pedida (l : Llamada)
  | atendida (l : Llamada) (bytes : List UInt8)

def Estado.llamada : Estado → Option Llamada
  | .libre => none
  | .pedida l | .atendida l _ => some l

structure Remota (σ ι : Type) where
  servidor : σ
  estado : ι → Estado

def Remota.con_estado (a : Remota σ ι) (t : ι) (e : Estado) : Remota σ ι :=
  { a with estado := Function.update a.estado t e }

/-- No two calls at a time on one connection; each is served once, for its own request, and returns
what was answered to it. -/
inductive Paso_remoto : Remota σ ι → Suceso ι → Remota σ ι → Prop
  | llama {a : Remota σ ι} {t : ι} {l : Llamada} (ht : a.estado t = .libre)
      (hk : ∀ u l', (a.estado u).llamada = some l' → conexion u l' ≠ conexion t l) :
      Paso_remoto a (.llama t l) (a.con_estado t (.pedida l))
  | atiende {a : Remota σ ι} {t : ι} {l : Llamada} {bytes : List UInt8} {servidor : σ}
      (ht : a.estado t = .pedida l)
      (hs : sirve a.servidor (l.tarea (conexion t l)) bytes servidor) :
      Paso_remoto a (.atiende (l.tarea (conexion t l)) bytes)
        { a.con_estado t (.atendida l bytes) with servidor }
  | vuelve {a : Remota σ ι} {t : ι} {l : Llamada} {bytes : List UInt8} {d : Devuelto}
      (ht : a.estado t = .atendida l bytes) (hd : l.recibir bytes = .ok d) :
      Paso_remoto a (.vuelve t l d) (a.con_estado t .libre)
  | cambia {a : Remota σ ι} {servidor : σ} (hs : entorno a.servidor servidor) :
      Paso_remoto a .sigue { a with servidor }
  | sigue {a : Remota σ ι} : Paso_remoto a .sigue a

end Pasos

/-- Where the one message of a connection is, on its way to a worker and back. -/
inductive Lugar (ω : Type)
  | nada
  | pedido (l : Llamada)
  | tarea (l : Llamada)
  | cola (l : Llamada)
  | worker (w : ω) (l : Llamada)
  | respuesta (w : ω) (l : Llamada) (bytes : List UInt8)
  | llegada (l : Llamada) (bytes : List UInt8)

/-- The call that the message is for, and what has been answered to it. -/
def Lugar.espera {ω : Type} : Lugar ω → Option (Llamada × Option (List UInt8))
  | .nada => none
  | .pedido l | .tarea l | .cola l | .worker _ l => some (l, none)
  | .respuesta _ l bytes | .llegada l bytes => some (l, some bytes)

/-- What there is of one connection everywhere. -/
structure Vista (ω : Type) where
  pedido : List UInt8
  tarea : Option task_t
  cola : List task_t
  worker : ω → Puesto
  respuesta : List UInt8

def de (k : Int32) (task : task_t) : Bool := task.params.socket = k

def Puesto.de (k : Int32) : Puesto → Puesto
  | .libre => .libre
  | .resuelve task => if task.params.socket = k then .resuelve task else .libre
  | .responde socket bytes => if socket = k then .responde socket bytes else .libre

def Sistema.vista {σ ι ω : Type} (s : Sistema σ ι ω) (k : Int32) : Vista ω where
  pedido := s.pedidos k
  tarea := s.tarea.filter (de k)
  cola := s.cola.filter (de k)
  worker := fun w => (s.worker w).de k
  respuesta := s.respuestas k

/-- Nothing of the connection. -/
def vacia (ω : Type) : Vista ω := ⟨[], none, [], fun _ => .libre, []⟩

def Lugar.vista {ω : Type} [DecidableEq ω] (k : Int32) : Lugar ω → Vista ω
  | .nada => vacia ω
  | .pedido l => { vacia ω with pedido := l.pedido.serializar }
  | .tarea l => { vacia ω with tarea := some (l.tarea k) }
  | .cola l => { vacia ω with cola := [l.tarea k] }
  | .worker w l =>
    { vacia ω with worker := Function.update (fun _ => .libre) w (.resuelve (l.tarea k)) }
  | .respuesta w _ bytes =>
    { vacia ω with worker := Function.update (fun _ => .libre) w (.responde k bytes) }
  | .llegada _ bytes => { vacia ω with respuesta := bytes }

/-- The thread on the connections, the call on the server, and what there is between them. -/
def Corresponde : Fase → Estado → Option (Llamada × Option (List UInt8)) → Prop
  | .fuera, .libre, _ => True
  | .envia l, .pedida l', x => l' = l ∧ x = none
  | .recibe l, .pedida l', x => l' = l ∧ x = some (l, none)
  | .recibe l, .atendida l' bytes, x => l' = l ∧ x = some (l, some bytes)
  | .sale l d, .atendida l' bytes, x => l' = l ∧ x = none ∧ l.recibir bytes = .ok d
  | _, _, _ => False

def Fase.llamada : Fase → Option Llamada
  | .fuera => none
  | .envia l | .recibe l | .sale l _ => some l

section Relacion

variable {σ ι ω : Type} (conexion : ι → Llamada → Int32)

/-- What is between the thread and the server. -/
def medio (lugar : Int32 → Lugar ω) (t : ι) (f : Fase) : Option (Llamada × Option (List UInt8)) :=
  f.llamada.bind fun l => (lugar (conexion t l)).espera

structure Refiere [DecidableEq ω] (lugar : Int32 → Lugar ω) (s : Sistema σ ι ω) (a : Remota σ ι) :
  Prop where
  servidor : a.servidor = s.servidor
  vista : ∀ k, s.vista k = (lugar k).vista k
  lock : ∀ k t, s.lock k = some t ↔ ∃ l, (s.fase t).llamada = some l ∧ conexion t l = k
  corresponde : ∀ t, Corresponde (s.fase t) (a.estado t) (medio conexion lugar t (s.fase t))
  ocupada : ∀ k, (lugar k).espera ≠ none → s.lock k ≠ none
  cabe : ∀ t l, (s.fase t).llamada = some l → Cabe l
  entera : ∀ k l bytes, (lugar k).espera = some (l, some bytes) → bytes = [] ∨ Entera l bytes

variable {conexion} {lugar : Int32 → Lugar ω} {s s' : Sistema σ ι ω} {a : Remota σ ι} {t u : ι}
  {l l' : Llamada} {k : Int32} {x : Lugar ω} {bytes : List UInt8} {task : task_t}

theorem tarea_socket (l : Llamada) (k : Int32) : (l.tarea k).params.socket = k := by
  cases l <;> rfl

@[simp] theorem de_tarea (l : Llamada) (k : Int32) : de k (l.tarea k) = true := by
  rw [de, tarea_socket, decide_eq_true rfl]

theorem de_tarea_ne {j : Int32} (h : j ≠ k) (l : Llamada) : de j (l.tarea k) = false := by
  rw [de, tarea_socket, decide_eq_false h.symm]

theorem Puesto.de_resuelve (l : Llamada) (k : Int32) :
    (Puesto.resuelve (l.tarea k)).de k = .resuelve (l.tarea k) := if_pos (tarea_socket l k)

theorem Puesto.de_resuelve_ne {j : Int32} (h : j ≠ k) (l : Llamada) :
    (Puesto.resuelve (l.tarea k)).de j = .libre := by
  rw [Puesto.de, tarea_socket, if_neg h.symm]

theorem Puesto.de_responde (k : Int32) (bytes : List UInt8) :
    (Puesto.responde k bytes).de k = .responde k bytes := if_pos rfl

theorem Puesto.de_responde_ne {j : Int32} (h : j ≠ k) (bytes : List UInt8) :
    (Puesto.responde k bytes).de j = .libre := if_neg h.symm

/-- A worker that has something has it for one connection. -/
theorem Puesto.de_update {w : ω} {worker : ω → Puesto} [DecidableEq ω] {j : Int32} {p q : Puesto}
    (hq : p.de j = q) :
    (fun v => (Function.update worker w p v).de j) =
      Function.update (fun v => (worker v).de j) w q := by
  funext v
  by_cases hv : v = w
  · subst hv
    rw [Function.update_self, Function.update_self, hq]
  · rw [Function.update_of_ne hv, Function.update_of_ne hv]

theorem recibir_tarea_serializar (h : Cabe l) (k : Int32) :
    recibir_tarea k l.pedido.serializar = some (l.tarea k, []) := by
  obtain ⟨generar, hgenerar, htarea⟩ := generar_tarea k h.1
  rw [serializar_eq h.1]
  simp only [recibir_tarea, recibir_header_append h.2, recibir_paquete_self, hgenerar, htarea,
    List.drop_length]

theorem recibir_tarea_nil (k : Int32) : recibir_tarea k [] = none := rfl

theorem recibir_nil (l : Llamada) : l.recibir [] = .error .waiting := by
  cases l <;> rfl

theorem Corresponde.llamada {f : Fase} {e : Estado} {m : Option (Llamada × Option (List UInt8))}
    (h : Corresponde f e m) : e.llamada = f.llamada := by
  cases f <;> cases e <;> simp_all [Corresponde, Estado.llamada, Fase.llamada]

theorem medio_eq (ht : (s.fase t).llamada = some l) :
    medio conexion lugar t (s.fase t) = (lugar (conexion t l)).espera := by
  rw [medio, ht, Option.bind_some]

variable [DecidableEq ω]

namespace Refiere

theorem unico (h : Refiere conexion lugar s a) (ht : (s.fase t).llamada = some l)
    (hu : (s.fase u).llamada = some l') (hk : conexion u l' = conexion t l) : u = t := by
  have htl := (h.lock _ t).mpr ⟨l, ht, rfl⟩
  have hul := (h.lock _ u).mpr ⟨l', hu, hk⟩
  exact Option.some.inj (hul.symm.trans htl)

/-- The thread whose message is on the connection waits for its reply. -/
theorem dueno (h : Refiere conexion lugar s a) {y : Option (List UInt8)}
    (hx : (lugar k).espera = some (l, y)) : ∃ t, s.fase t = .recibe l ∧ conexion t l = k ∧
      a.estado t = y.elim (.pedida l) (.atendida l) := by
  obtain ⟨t, ht⟩ := Option.ne_none_iff_exists'.mp (h.ocupada k
    (by rw [hx]; exact Option.some_ne_none _))
  obtain ⟨l', hl', rfl⟩ := (h.lock k t).mp ht
  have hc := h.corresponde t
  rw [medio_eq hl', hx] at hc
  cases hf : s.fase t with
  | fuera =>
    rw [hf] at hl'
    cases hl'
  | envia l₁ =>
    rw [hf] at hc
    cases he : a.estado t <;> simp [he, Corresponde] at hc
  | recibe l₁ =>
    rw [hf] at hc hl'
    cases hl'
    cases he : a.estado t with
    | libre => simp [he, Corresponde] at hc
    | pedida l₂ =>
      simp only [he, Corresponde, Option.some.injEq, Prod.mk.injEq] at hc
      obtain ⟨rfl, rfl, rfl⟩ := hc
      exact ⟨t, hf, rfl, he⟩
    | atendida l₂ bytes =>
      simp only [he, Corresponde, Option.some.injEq, Prod.mk.injEq] at hc
      obtain ⟨rfl, rfl, rfl⟩ := hc
      exact ⟨t, hf, rfl, he⟩
  | sale l₁ d =>
    rw [hf] at hc
    cases he : a.estado t <;> simp [he, Corresponde] at hc

/-- The message goes from one place to the next one. -/
theorem traslado (h : Refiere conexion lugar s a) (k : Int32)
    (hx : x.espera = (lugar k).espera) (hservidor : s'.servidor = s.servidor)
    (hfase : s'.fase = s.fase) (hlock : s'.lock = s.lock) (hk : s'.vista k = x.vista k)
    (hvista : ∀ j, j ≠ k → s'.vista j = s.vista j) :
    Refiere conexion (Function.update lugar k x) s' a := by
  have hespera : ∀ j, (Function.update lugar k x j).espera = (lugar j).espera := by
    intro j
    by_cases hj : j = k
    · subst hj
      rw [Function.update_self, hx]
    · rw [Function.update_of_ne hj]
  have hmedio : ∀ t f, medio conexion (Function.update lugar k x) t f = medio conexion lugar t f :=
    by
    intro t f
    rw [medio, medio]
    exact congrArg f.llamada.bind (funext fun l => hespera (conexion t l))
  refine ⟨h.servidor.trans hservidor.symm, ?_, ?_, ?_, ?_, ?_, ?_⟩
  · intro j
    by_cases hj : j = k
    · subst hj
      rw [Function.update_self, hk]
    · rw [Function.update_of_ne hj, hvista j hj, h.vista j]
  · rw [hfase, hlock]
    exact h.lock
  · intro t
    rw [hmedio, hfase]
    exact h.corresponde t
  · intro j hj
    rw [hespera] at hj
    rw [hlock]
    exact h.ocupada j hj
  · rw [hfase]
    exact h.cabe
  · intro j l bytes hj
    rw [hespera] at hj
    exact h.entera j l bytes hj

theorem acepta (h : Refiere conexion lugar s a) (ht : s.tarea = none) {resto : List UInt8}
    (hr : recibir_tarea k (s.pedidos k) = some (task, resto)) : ∃ lugar',
      Refiere conexion lugar' { s.con_pedidos k resto with tarea := some task } a := by
  have hv := h.vista k
  cases hl : lugar k with
  | pedido l =>
    simp only [hl, Sistema.vista, Lugar.vista, vacia, Vista.mk.injEq] at hv
    obtain ⟨hpedido, -, hcola, hworker, hrespuesta⟩ := hv
    obtain ⟨t, hf, -, -⟩ := h.dueno (k := k) (l := l) (y := none) (by rw [hl]; rfl)
    have hframe := recibir_tarea_serializar (h.cabe t l (by rw [hf]; rfl)) k
    rw [hpedido] at hr
    obtain ⟨rfl, rfl⟩ := Prod.mk.inj (Option.some.inj (hframe.symm.trans hr))
    refine ⟨_, h.traslado k (x := .tarea l) (by rw [hl]; rfl) rfl rfl rfl ?_ ?_⟩
    · simp only [Sistema.vista, Sistema.con_pedidos, Lugar.vista, vacia, Vista.mk.injEq]
      exact ⟨Function.update_self .., Option.filter_some_pos (de_tarea l k), hcola, hworker,
        hrespuesta⟩
    · intro j hj
      simp only [Sistema.vista, Sistema.con_pedidos, ht, Vista.mk.injEq]
      exact ⟨Function.update_of_ne hj .., Option.filter_some_neg
        (de_tarea_ne hj l), trivial, trivial,
        trivial⟩
  | _ =>
    have hpedido : s.pedidos k = [] := by
      rw [hl] at hv
      exact congrArg Vista.pedido hv
    rw [hpedido, recibir_tarea_nil] at hr
    cases hr

theorem encola (h : Refiere conexion lugar s a) (ht : s.tarea = some task) : ∃ lugar',
    Refiere conexion lugar' { s with tarea := none, cola := s.cola ++ [task] } a := by
  obtain ⟨k, hk⟩ : ∃ k, k = task.params.socket := ⟨_, rfl⟩
  have hv := h.vista k
  have hfilter : s.tarea.filter (de k) = some task := by
    rw [ht]
    exact Option.filter_some_pos (decide_eq_true hk.symm)
  cases hl : lugar k with
  | tarea l =>
    simp only [hl, Sistema.vista, Lugar.vista, vacia, Vista.mk.injEq] at hv
    obtain ⟨hpedido, htarea, hcola, hworker, hrespuesta⟩ := hv
    obtain rfl : task = l.tarea k := Option.some.inj (hfilter.symm.trans htarea)
    refine ⟨_, h.traslado k (x := .cola l) (by rw [hl]; rfl) rfl rfl rfl ?_ ?_⟩
    · simp only [Sistema.vista, Lugar.vista, vacia, Vista.mk.injEq]
      refine ⟨hpedido, rfl, ?_, hworker, hrespuesta⟩
      rw [List.filter_append, hcola, List.filter_singleton, de_tarea]
      rfl
    · intro j hj
      simp only [Sistema.vista, Vista.mk.injEq]
      refine ⟨trivial, ?_, ?_, trivial, trivial⟩
      · rw [ht, Option.filter_some_neg (de_tarea_ne hj l)]
        rfl
      · rw [List.filter_append, List.filter_singleton, de_tarea_ne hj, cond_false, List.append_nil]
  | _ =>
    rw [hl] at hv
    have hnone : s.tarea.filter (de k) = none := congrArg Vista.tarea hv
    rw [hfilter] at hnone
    cases hnone

theorem toma (h : Refiere conexion lugar s a) {w : ω} {cola : List task_t}
    (hw : s.worker w = .libre) (hc : s.cola = task :: cola) : ∃ lugar',
    Refiere conexion lugar' { s.con_worker w (.resuelve task) with cola } a := by
  obtain ⟨k, hk⟩ : ∃ k, k = task.params.socket := ⟨_, rfl⟩
  have hv := h.vista k
  have hfilter : s.cola.filter (de k) = task :: cola.filter (de k) := by
    rw [hc]
    exact List.filter_cons_of_pos (decide_eq_true hk.symm)
  cases hl : lugar k with
  | cola l =>
    simp only [hl, Sistema.vista, Lugar.vista, vacia, Vista.mk.injEq] at hv
    obtain ⟨hpedido, htarea, hcola, hworker, hrespuesta⟩ := hv
    obtain ⟨rfl, hrest⟩ := List.cons.inj (hfilter.symm.trans hcola)
    refine ⟨_, h.traslado k (x := .worker w l) (by rw [hl]; rfl) rfl rfl rfl ?_ ?_⟩
    · simp only [Sistema.vista, Sistema.con_worker, Lugar.vista, vacia, Vista.mk.injEq]
      refine ⟨hpedido, htarea, hrest, ?_, hrespuesta⟩
      rw [Puesto.de_update (Puesto.de_resuelve l k), hworker]
    · intro j hj
      simp only [Sistema.vista, Sistema.con_worker, Vista.mk.injEq]
      refine ⟨trivial, trivial, ?_, ?_, trivial⟩
      · rw [hc, List.filter_cons_of_neg (by rw [de_tarea_ne hj]; exact Bool.false_ne_true)]
      · rw [Puesto.de_update (Puesto.de_resuelve_ne hj l)]
        refine Function.update_eq_self_iff.mpr ?_
        rw [hw]
        rfl
  | _ =>
    rw [hl] at hv
    have hnil : s.cola.filter (de k) = [] := congrArg Vista.cola hv
    rw [hfilter] at hnil
    cases hnil

end Refiere

theorem Lugar.worker_resuelve {w : ω} (h : (x.vista k).worker w = .resuelve task) :
    ∃ l, x = .worker w l ∧ task = l.tarea k := by
  cases x with
  | worker v l =>
    simp only [Lugar.vista] at h
    by_cases hv : w = v
    · subst hv
      rw [Function.update_self] at h
      exact ⟨l, rfl, (Puesto.resuelve.inj h).symm⟩
    · rw [Function.update_of_ne hv] at h
      cases h
  | respuesta v l bytes =>
    simp only [Lugar.vista] at h
    by_cases hv : w = v
    · subst hv
      rw [Function.update_self] at h
      cases h
    · rw [Function.update_of_ne hv] at h
      cases h
  | _ => cases h

theorem Lugar.worker_responde {w : ω} {k' : Int32} (h : (x.vista k).worker w = .responde k' bytes) :
    ∃ l, x = .respuesta w l bytes := by
  cases x with
  | worker v l =>
    simp only [Lugar.vista] at h
    by_cases hv : w = v
    · subst hv
      rw [Function.update_self] at h
      cases h
    · rw [Function.update_of_ne hv] at h
      cases h
  | respuesta v l bytes' =>
    simp only [Lugar.vista] at h
    by_cases hv : w = v
    · subst hv
      rw [Function.update_self] at h
      obtain ⟨-, rfl⟩ := Puesto.responde.inj h
      exact ⟨l, rfl⟩
    · rw [Function.update_of_ne hv] at h
      cases h
  | _ => cases h

namespace Refiere

theorem responde (h : Refiere conexion lugar s a) {w : ω} (hw : s.worker w = .responde k bytes) :
    ∃ lugar', Refiere conexion lugar'
      ((s.con_respuestas k (s.respuestas k ++ bytes)).con_worker w .libre) a := by
  have hv := h.vista k
  have hworker : ((lugar k).vista k).worker w = .responde k bytes := by
    rw [← hv, Sistema.vista]
    dsimp only
    rw [hw, Puesto.de_responde]
  obtain ⟨l, hl⟩ := Lugar.worker_responde hworker
  simp only [hl, Sistema.vista, Lugar.vista, vacia, Vista.mk.injEq] at hv
  obtain ⟨hpedido, htarea, hcola, hworkers, hrespuesta⟩ := hv
  refine ⟨_, h.traslado k (x := .llegada l bytes) (by rw [hl]; rfl) rfl rfl rfl ?_ ?_⟩
  · simp only [Sistema.vista, Sistema.con_worker, Sistema.con_respuestas, Lugar.vista, vacia,
      Vista.mk.injEq]
    refine ⟨hpedido, htarea, hcola, ?_, ?_⟩
    · rw [Puesto.de_update (q := .libre) rfl, hworkers, Function.update_idem,
        Function.update_eq_self_iff]
    · rw [Function.update_self, hrespuesta, List.nil_append]
  · intro j hj
    simp only [Sistema.vista, Sistema.con_worker, Sistema.con_respuestas, Vista.mk.injEq]
    refine ⟨trivial, trivial, trivial, ?_, Function.update_of_ne hj ..⟩
    rw [Puesto.de_update (q := .libre) rfl, Function.update_eq_self_iff, hw,
      Puesto.de_responde_ne hj]

/-- What a thread does, or is done for it, on its connection. -/
theorem turno {a' : Remota σ ι} (h : Refiere conexion lugar s a) (k : Int32) (t : ι) (x : Lugar ω)
    (hservidor : a'.servidor = s'.servidor) (hfase : ∀ u, u ≠ t → s'.fase u = s.fase u)
    (hestado : ∀ u, u ≠ t → a'.estado u = a.estado u) (hlock : ∀ j, j ≠ k → s'.lock j = s.lock j)
    (hpropio : s'.lock k = (s'.fase t).llamada.map fun _ => t)
    (hsolo : ∀ u l, u ≠ t → (s.fase u).llamada = some l → conexion u l ≠ k)
    (hantes : ∀ l, (s.fase t).llamada = some l → conexion t l = k)
    (hahora : ∀ l, (s'.fase t).llamada = some l → conexion t l = k ∧ Cabe l)
    (hcorresponde : Corresponde (s'.fase t) (a'.estado t)
      ((s'.fase t).llamada.bind fun _ => x.espera))
    (hocupada : x.espera ≠ none → (s'.fase t).llamada ≠ none)
    (hentera : ∀ l bytes, x.espera = some (l, some bytes) → bytes = [] ∨ Entera l bytes)
    (hk : s'.vista k = x.vista k) (hvista : ∀ j, j ≠ k → s'.vista j = s.vista j) :
    Refiere conexion (Function.update lugar k x) s' a' := by
  refine ⟨hservidor, ?_, ?_, ?_, ?_, ?_, ?_⟩
  · intro j
    by_cases hj : j = k
    · subst hj
      rw [Function.update_self, hk]
    · rw [Function.update_of_ne hj, hvista j hj, h.vista j]
  · intro j u
    by_cases hj : j = k
    · subst hj
      rw [hpropio, Option.map_eq_some_iff]
      constructor
      · rintro ⟨l, hl, rfl⟩
        exact ⟨l, hl, (hahora l hl).1⟩
      · rintro ⟨l, hl, hconexion⟩
        by_cases hu : u = t
        · subst hu
          exact ⟨l, hl, rfl⟩
        · rw [hfase u hu] at hl
          exact absurd hconexion (hsolo u l hu hl)
    · rw [hlock j hj, h.lock j u]
      by_cases hu : u = t
      · subst hu
        constructor
        · rintro ⟨l, hl, rfl⟩
          exact absurd (hantes l hl) hj
        · rintro ⟨l, hl, rfl⟩
          exact absurd (hahora l hl).1 hj
      · rw [hfase u hu]
  · intro u
    by_cases hu : u = t
    · subst hu
      have hmedio : medio conexion (Function.update lugar k x) u (s'.fase u) =
          (s'.fase u).llamada.bind fun _ => x.espera := by
        rw [medio]
        cases hl : (s'.fase u).llamada with
        | none => rfl
        | some l => rw [Option.bind_some, Option.bind_some, (hahora l hl).1, Function.update_self]
      rw [hmedio]
      exact hcorresponde
    · have hmedio : medio conexion (Function.update lugar k x) u (s.fase u) =
          medio conexion lugar u (s.fase u) := by
        rw [medio, medio]
        cases hl : (s.fase u).llamada with
        | none => rfl
        | some l => rw [Option.bind_some, Option.bind_some, Function.update_of_ne (hsolo u l hu hl)]
      rw [hfase u hu, hestado u hu, hmedio]
      exact h.corresponde u
  · intro j hj
    by_cases hjk : j = k
    · subst hjk
      rw [Function.update_self] at hj
      rw [hpropio]
      exact fun hnone => hocupada hj (Option.map_eq_none_iff.mp hnone)
    · rw [Function.update_of_ne hjk] at hj
      rw [hlock j hjk]
      exact h.ocupada j hj
  · intro u l hl
    by_cases hu : u = t
    · subst hu
      exact (hahora l hl).2
    · rw [hfase u hu] at hl
      exact h.cabe u l hl
  · intro j l bytes hj
    by_cases hjk : j = k
    · subst hjk
      rw [Function.update_self] at hj
      exact hentera l bytes hj
    · rw [Function.update_of_ne hjk] at hj
      exact h.entera j l bytes hj

theorem nada (h : Refiere conexion lugar s a) (hk : (lugar k).espera = none) :
    s.vista k = vacia ω := by
  rw [h.vista]
  cases hl : lugar k with
  | nada => rfl
  | _ =>
    rw [hl] at hk
    cases hk

theorem fuera (h : Refiere conexion lugar s a) (hf : s.fase t = .fuera) : a.estado t = .libre := by
  have hc := h.corresponde t
  rw [hf] at hc
  cases he : a.estado t with
  | libre => rfl
  | _ =>
    rw [he] at hc
    cases hc

theorem propio (h : Refiere conexion lugar s a) (ht : (s.fase t).llamada = some l) :
    s.lock (conexion t l) = (s.fase t).llamada.map fun _ => t := by
  rw [ht]
  exact (h.lock _ t).mpr ⟨l, ht, rfl⟩

theorem solo (h : Refiere conexion lugar s a) (ht : (s.fase t).llamada = some l) (hu : u ≠ t)
    (hl : (s.fase u).llamada = some l') : conexion u l' ≠ conexion t l :=
  fun hk => hu (h.unico ht hl hk)

theorem llama [DecidableEq ι] (h : Refiere conexion lugar s a) (hf : s.fase t = .fuera)
    (hl : s.lock (conexion t l) = none) (hcabe : Cabe l) : ∃ lugar',
      Refiere conexion lugar' ((s.con_lock (conexion t l) (some t)).con_fase t (.envia l))
        (a.con_estado t (.pedida l)) := by
  have hlibre : (lugar (conexion t l)).espera = none := by
    by_contra hne
    exact h.ocupada _ hne hl
  refine ⟨_, h.turno (conexion t l) t .nada h.servidor ?_ ?_ ?_ ?_ ?_ ?_ ?_ ?_ ?_ ?_ ?_ ?_⟩
  · exact fun u hu => Function.update_of_ne hu ..
  · exact fun u hu => Function.update_of_ne hu ..
  · exact fun j hj => Function.update_of_ne hj ..
  · simp only [Sistema.con_fase, Sistema.con_lock, Function.update_self]
    rfl
  · intro u l' _ hu hk
    rw [(h.lock _ u).mpr ⟨l', hu, hk⟩] at hl
    cases hl
  · intro l' hl'
    rw [hf] at hl'
    cases hl'
  · intro l' hl'
    simp only [Sistema.con_fase, Function.update_self] at hl'
    cases hl'
    exact ⟨rfl, hcabe⟩
  · simp only [Sistema.con_fase, Remota.con_estado, Function.update_self]
    exact ⟨rfl, rfl⟩
  · exact fun hne => absurd rfl hne
  · intro l' bytes hl'
    cases hl'
  · exact h.nada hlibre
  · exact fun j _ => rfl

theorem envia [DecidableEq ι] (h : Refiere conexion lugar s a) (hf : s.fase t = .envia l) :
    ∃ lugar', Refiere conexion lugar' ((s.con_pedidos (conexion t l)
      (s.pedidos (conexion t l) ++ l.pedido.serializar)).con_fase t (.recibe l)) a := by
  have hl : (s.fase t).llamada = some l := by
    rw [hf]
    rfl
  have hc := h.corresponde t
  rw [medio_eq hl, hf] at hc
  cases he : a.estado t with
  | pedida l' =>
    rw [he] at hc
    obtain ⟨rfl, hlibre⟩ := hc
    have hv := h.nada hlibre
    simp only [Sistema.vista, vacia, Vista.mk.injEq] at hv
    obtain ⟨hpedido, hresto⟩ := hv
    refine ⟨_, h.turno (conexion t l') t
      (.pedido l') h.servidor ?_ ?_ ?_ ?_ ?_ ?_ ?_ ?_ ?_ ?_ ?_ ?_⟩
    · exact fun u hu => Function.update_of_ne hu ..
    · exact fun _ _ => rfl
    · exact fun _ _ => rfl
    · simp only [Sistema.con_fase, Sistema.con_pedidos, Function.update_self, Fase.llamada,
        Option.map_some]
      exact (h.lock _ t).mpr ⟨l', hl, rfl⟩
    · exact fun u l₁ hu hl₁ => h.solo hl hu hl₁
    · intro l₁ hl₁
      rw [hl] at hl₁
      cases hl₁
      rfl
    · intro l₁ hl₁
      simp only [Sistema.con_fase, Function.update_self] at hl₁
      cases hl₁
      exact ⟨rfl, h.cabe t l' hl⟩
    · simp only [Sistema.con_fase, Function.update_self, he]
      exact ⟨rfl, rfl⟩
    · simp only [Sistema.con_fase, Function.update_self]
      exact fun _ => Option.some_ne_none _
    · intro l₁ bytes hl₁
      cases hl₁
    · simp only [Sistema.vista, Sistema.con_fase, Sistema.con_pedidos, Function.update_self,
        Lugar.vista, vacia, Vista.mk.injEq]
      exact ⟨by rw [hpedido, List.nil_append], hresto⟩
    · intro j hj
      simp only [Sistema.vista, Sistema.con_fase, Sistema.con_pedidos, Function.update_of_ne hj]
  | libre =>
    rw [he] at hc
    cases hc
  | atendida l' bytes =>
    rw [he] at hc
    cases hc

/-- A thread that has taken something has taken the reply to its request. -/
theorem recibida (h : Refiere conexion lugar s a) (hf : s.fase t = .recibe l) {d : Devuelto}
    (hd : l.recibir (s.respuestas (conexion t l)) = .ok d) : ∃ bytes,
      lugar (conexion t l) = .llegada l bytes ∧ a.estado t = .atendida l bytes ∧
        l.recibir bytes = .ok d ∧ d.resto = [] := by
  have hl : (s.fase t).llamada = some l := by
    rw [hf]
    rfl
  have hrespuesta : s.respuestas (conexion t l) =
      ((lugar (conexion t l)).vista (conexion t l)).respuesta := by
    rw [← h.vista]
    rfl
  cases hk : lugar (conexion t l) with
  | llegada l' bytes =>
    rw [hk] at hrespuesta
    have hespera : (lugar (conexion t l)).espera = some (l', some bytes) := by
      rw [hk]
      rfl
    obtain ⟨u, hu, hconexion, hestado⟩ := h.dueno hespera
    obtain rfl : u = t := h.unico hl (by rw [hu]; rfl) hconexion
    obtain rfl : l = l' := Fase.recibe.inj (hf.symm.trans hu)
    have hbytes : l.recibir bytes = .ok d := by
      rw [hrespuesta] at hd
      exact hd
    refine ⟨bytes, rfl, hestado, hbytes, ?_⟩
    rcases h.entera _ _ _ hespera with rfl | ⟨d', hd', hresto⟩
    · rw [recibir_nil] at hbytes
      cases hbytes
    · cases hd'.symm.trans hbytes
      exact hresto
  | _ =>
    rw [hk] at hrespuesta
    have hnil : s.respuestas (conexion t l) = [] := hrespuesta
    rw [hnil, recibir_nil] at hd
    cases hd

theorem recibe [DecidableEq ι] (h : Refiere conexion lugar s a) (hf : s.fase t = .recibe l)
    {d : Devuelto} (hd : l.recibir (s.respuestas (conexion t l)) = .ok d) : ∃ lugar',
      Refiere conexion lugar'
        ((s.con_respuestas (conexion t l) d.resto).con_fase t (.sale l d)) a := by
  have hl : (s.fase t).llamada = some l := by
    rw [hf]
    rfl
  obtain ⟨bytes, hk, hestado, hbytes, hresto⟩ := h.recibida hf hd
  have hv := h.vista (conexion t l)
  simp only [hk, Sistema.vista, Lugar.vista, vacia, Vista.mk.injEq] at hv
  obtain ⟨hpedido, htarea, hcola, hworker, -⟩ := hv
  refine ⟨_, h.turno (conexion t l) t .nada h.servidor ?_ ?_ ?_ ?_ ?_ ?_ ?_ ?_ ?_ ?_ ?_ ?_⟩
  · exact fun u hu => Function.update_of_ne hu ..
  · exact fun _ _ => rfl
  · exact fun _ _ => rfl
  · simp only [Sistema.con_fase, Sistema.con_respuestas, Function.update_self, Fase.llamada,
      Option.map_some]
    exact (h.lock _ t).mpr ⟨l, hl, rfl⟩
  · exact fun u l₁ hu hl₁ => h.solo hl hu hl₁
  · intro l₁ hl₁
    rw [hl] at hl₁
    cases hl₁
    rfl
  · intro l₁ hl₁
    simp only [Sistema.con_fase, Function.update_self] at hl₁
    cases hl₁
    exact ⟨rfl, h.cabe t l hl⟩
  · simp only [Sistema.con_fase, Function.update_self, hestado]
    exact ⟨rfl, rfl, hbytes⟩
  · exact fun hne => absurd rfl hne
  · intro l₁ bytes hl₁
    cases hl₁
  · simp only [Sistema.vista, Sistema.con_fase, Sistema.con_respuestas, Function.update_self,
      Lugar.vista, vacia, Vista.mk.injEq]
    exact ⟨hpedido, htarea, hcola, hworker, hresto⟩
  · intro j hj
    simp only [Sistema.vista, Sistema.con_fase, Sistema.con_respuestas, Function.update_of_ne hj]

theorem salida (h : Refiere conexion lugar s a) {d : Devuelto} (hf : s.fase t = .sale l d) :
    (lugar (conexion t l)).espera = none ∧ ∃ bytes, a.estado t = .atendida l bytes ∧
      l.recibir bytes = .ok d := by
  have hc := h.corresponde t
  rw [medio_eq (l := l) (by rw [hf]; rfl), hf] at hc
  cases he : a.estado t with
  | atendida l' bytes =>
    rw [he] at hc
    obtain ⟨rfl, hlibre, hbytes⟩ := hc
    exact ⟨hlibre, bytes, rfl, hbytes⟩
  | _ =>
    rw [he] at hc
    cases hc

theorem vuelve [DecidableEq ι] (h : Refiere conexion lugar s a) {d : Devuelto}
    (hf : s.fase t = .sale l d) : ∃ lugar', Refiere conexion lugar'
      ((s.con_lock (conexion t l) none).con_fase t .fuera) (a.con_estado t .libre) := by
  have hl : (s.fase t).llamada = some l := by
    rw [hf]
    rfl
  obtain ⟨hlibre, -⟩ := h.salida hf
  refine ⟨_, h.turno (conexion t l) t .nada h.servidor ?_ ?_ ?_ ?_ ?_ ?_ ?_ ?_ ?_ ?_ ?_ ?_⟩
  · exact fun u hu => Function.update_of_ne hu ..
  · exact fun u hu => Function.update_of_ne hu ..
  · exact fun j hj => Function.update_of_ne hj ..
  · simp only [Sistema.con_fase, Sistema.con_lock, Function.update_self]
    rfl
  · exact fun u l₁ hu hl₁ => h.solo hl hu hl₁
  · intro l₁ hl₁
    rw [hl] at hl₁
    cases hl₁
    rfl
  · intro l₁ hl₁
    simp only [Sistema.con_fase, Function.update_self] at hl₁
    cases hl₁
  · simp only [Sistema.con_fase, Remota.con_estado, Function.update_self]
    trivial
  · exact fun hne => absurd rfl hne
  · intro l₁ bytes hl₁
    cases hl₁
  · exact h.nada hlibre
  · exact fun j _ => rfl

/-- The task of a worker is the request of one thread. -/
theorem encargo (h : Refiere conexion lugar s a) {w : ω} (hw : s.worker w = .resuelve task) :
    ∃ t l, task = l.tarea (conexion t l) ∧ lugar (conexion t l) = .worker w l ∧
      s.fase t = .recibe l ∧ a.estado t = .pedida l := by
  have hworker : ((lugar task.params.socket).vista task.params.socket).worker w =
      .resuelve task := by
    rw [← h.vista, Sistema.vista]
    dsimp only
    rw [hw, Puesto.de, if_pos rfl]
  obtain ⟨l, hk, htask⟩ := Lugar.worker_resuelve hworker
  have hespera : (lugar task.params.socket).espera = some (l, none) := by
    rw [hk]
    rfl
  obtain ⟨t, hf, hconexion, hestado⟩ := h.dueno hespera
  rw [← hconexion] at hk htask
  exact ⟨t, l, htask, hk, hf, hestado⟩

theorem atiende [DecidableEq ι] (h : Refiere conexion lugar s a) {w : ω} {servidor : σ}
    (hw : s.worker w = .resuelve (l.tarea (conexion t l)))
    (hk : lugar (conexion t l) = .worker w l) (hf : s.fase t = .recibe l)
    (hentera : bytes = [] ∨ Entera l bytes) : ∃ lugar', Refiere conexion lugar'
      { s.con_worker w (.responde (l.tarea (conexion t l)).params.socket bytes) with servidor }
      { a.con_estado t (.atendida l bytes) with servidor } := by
  have hl : (s.fase t).llamada = some l := by
    rw [hf]
    rfl
  have hv := h.vista (conexion t l)
  simp only [hk, Sistema.vista, Lugar.vista, vacia, Vista.mk.injEq] at hv
  obtain ⟨hpedido, htarea, hcola, hworker, hrespuesta⟩ := hv
  rw [tarea_socket]
  refine ⟨_, h.turno (conexion t l) t
    (.respuesta w l bytes) rfl ?_ ?_ ?_ ?_ ?_ ?_ ?_ ?_ ?_ ?_ ?_ ?_⟩
  · exact fun _ _ => rfl
  · exact fun u hu => Function.update_of_ne hu ..
  · exact fun _ _ => rfl
  · exact h.propio hl
  · exact fun u l₁ hu hl₁ => h.solo hl hu hl₁
  · intro l₁ hl₁
    rw [hl] at hl₁
    cases hl₁
    rfl
  · intro l₁ hl₁
    have hl₁ : (s.fase t).llamada = some l₁ := hl₁
    rw [hl] at hl₁
    cases hl₁
    exact ⟨rfl, h.cabe t l hl⟩
  · simp only [Sistema.con_worker, Remota.con_estado, Function.update_self, hf]
    exact ⟨rfl, rfl⟩
  · intro _ hnone
    have hnone : (s.fase t).llamada = none := hnone
    rw [hl] at hnone
    cases hnone
  · intro l₁ bytes₁ hl₁
    cases hl₁
    exact hentera
  · simp only [Sistema.vista, Sistema.con_worker, Lugar.vista, vacia, Vista.mk.injEq]
    refine ⟨hpedido, htarea, hcola, ?_, hrespuesta⟩
    rw [Puesto.de_update (Puesto.de_responde _ bytes), hworker, Function.update_idem]
  · intro j hj
    simp only [Sistema.vista, Sistema.con_worker, Vista.mk.injEq]
    refine ⟨trivial, trivial, trivial, ?_, trivial⟩
    rw [Puesto.de_update (Puesto.de_responde_ne hj bytes), Function.update_eq_self_iff, hw,
      Puesto.de_resuelve_ne hj]

theorem cambia (h : Refiere conexion lugar s a) (servidor : σ) :
    Refiere conexion lugar { s with servidor } { a with servidor } :=
  ⟨rfl, h.vista, h.lock, h.corresponde, h.ocupada, h.cabe, h.entera⟩

end Refiere

theorem Puesto.eq_of_de {p q : Puesto} (h : p.de k = q) (hq : q ≠ .libre) : p = q := by
  cases p with
  | libre => exact h
  | resuelve task =>
    rw [Puesto.de] at h
    split at h
    · exact h
    · exact absurd h.symm hq
  | responde socket bytes =>
    rw [Puesto.de] at h
    split at h
    · exact h
    · exact absurd h.symm hq

section Corridas

variable [DecidableEq ι] {sirve : σ → task_t → List UInt8 → σ → Prop} {entorno : σ → σ → Prop}
  {servidor : σ}

/-- Every step is a step of the calls as if they were made on the server. -/
theorem paso_simulado : Simulated (fun (s : Sistema σ ι ω) a => ∃ lugar, Refiere conexion lugar s a)
    (Guarded Cabida (Paso conexion sirve entorno)) (Paso_remoto conexion sirve entorno) := by
  rintro s e s' a ⟨lugar, h⟩ ⟨hcabida, hpaso⟩
  have hestado : ∀ u, (a.estado u).llamada = (s.fase u).llamada := fun u =>
    (h.corresponde u).llamada
  cases hpaso with
  | @llama t l hf hl =>
    refine ⟨_, .llama ?_ ?_, h.llama hf hl hcabida⟩
    · exact h.fuera hf
    · intro u l' hu hk
      rw [hestado] at hu
      rw [(h.lock _ u).mpr ⟨l', hu, hk⟩] at hl
      cases hl
  | envia hf => exact ⟨a, .sigue, h.envia hf⟩
  | acepta ht hr => exact ⟨a, .sigue, h.acepta ht hr⟩
  | encola ht => exact ⟨a, .sigue, h.encola ht⟩
  | toma hw hc => exact ⟨a, .sigue, h.toma hw hc⟩
  | @atiende w task bytes servidor hw hs =>
    obtain ⟨t, l, rfl, hk, hf, hpedida⟩ := h.encargo hw
    refine ⟨_, .atiende hpedida ?_, h.atiende hw hk hf (hcabida l _ rfl)⟩
    rw [h.servidor]
    exact hs
  | responde hw => exact ⟨a, .sigue, h.responde hw⟩
  | recibe hf hd => exact ⟨a, .sigue, h.recibe hf hd⟩
  | vuelve hf =>
    obtain ⟨-, bytes, hatendida, hbytes⟩ := h.salida hf
    exact ⟨_, .vuelve hatendida hbytes, h.vuelve hf⟩
  | cambia hs => exact ⟨_, .cambia (h.servidor ▸ hs), _, h.cambia _⟩

omit [DecidableEq ι] in
theorem refiere_inicial : Refiere (ω := ω) conexion (fun _ => .nada) (Sistema.inicial servidor)
    ⟨servidor, fun _ => .libre⟩ where
  servidor := rfl
  vista := fun _ => rfl
  lock := by
    intro k t
    constructor
    · intro h
      cases h
    · rintro ⟨l, hl, -⟩
      cases hl
  corresponde := fun _ => trivial
  ocupada := fun _ h => absurd rfl h
  cabe := by
    intro t l h
    cases h
  entera := by
    intro k l bytes h
    cases h

/-- What goes on by itself: the steps other than new calls and changes from outside. -/
def Sigue (conexion : ι → Llamada → Int32) (sirve : σ → task_t → List UInt8 → σ → Prop)
    (s : Sistema σ ι ω) : Prop :=
  ∃ e s', Paso conexion sirve (fun _ _ => False) s e s' ∧ ∀ t l, e ≠ .llama t l

/-- A worker has a task that it does not get through. -/
def Trabado (sirve : σ → task_t → List UInt8 → σ → Prop) (s : Sistema σ ι ω) : Prop :=
  ∃ w task, s.worker w = .resuelve task ∧ ∀ bytes servidor, ¬ sirve s.servidor task bytes servidor

theorem Sigue.silencio (h : Paso conexion sirve (fun _ _ => False) s .sigue s') :
    Sigue conexion sirve s :=
  ⟨_, _, h, fun _ _ heq => by cases heq⟩

theorem sigue_resuelve {w : ω} (hw : s.worker w = .resuelve task) :
    Trabado sirve s ∨ Sigue conexion sirve s := by
  by_cases hs : ∃ bytes servidor, sirve s.servidor task bytes servidor
  · obtain ⟨bytes, servidor, hs⟩ := hs
    exact Or.inr ⟨_, _, .atiende hw hs, fun _ _ heq => by cases heq⟩
  · exact Or.inl ⟨w, task, hw, fun bytes servidor hs' => hs ⟨bytes, servidor, hs'⟩⟩

theorem sigue_tarea (ht : s.tarea = some task) : Sigue conexion sirve s := .silencio (.encola ht)

theorem sigue_cola [Nonempty ω] (hc : s.cola ≠ []) : Trabado sirve s ∨ Sigue conexion sirve s := by
  obtain ⟨task, cola, hcola⟩ := List.exists_cons_of_ne_nil hc
  obtain ⟨w⟩ := ‹Nonempty ω›
  cases hw : s.worker w with
  | libre => exact Or.inr (.silencio (.toma hw hcola))
  | resuelve task => exact sigue_resuelve hw
  | responde k bytes => exact Or.inr (.silencio (.responde hw))

/-- While a thread is in a callback, something goes on: its reply may be lost, but no lock, queue
or connection is waited for in a circle. -/
theorem Refiere.avanza [Nonempty ω] (h : Refiere conexion lugar s a) (ht : s.fase t ≠ .fuera) :
    (∃ l, a.estado t = .atendida l []) ∨ Trabado sirve s ∨ Sigue conexion sirve s := by
  cases hf : s.fase t with
  | fuera => exact absurd hf ht
  | envia l => exact Or.inr (Or.inr (.silencio (.envia hf)))
  | sale l d => exact Or.inr (Or.inr ⟨_, _, .vuelve hf, fun _ _ heq => by cases heq⟩)
  | recibe l =>
    have hl : (s.fase t).llamada = some l := by
      rw [hf]
      rfl
    obtain ⟨y, hespera⟩ : ∃ y, (lugar (conexion t l)).espera = some (l, y) := by
      have hc := h.corresponde t
      rw [medio_eq hl, hf] at hc
      cases he : a.estado t with
      | libre =>
        rw [he] at hc
        cases hc
      | pedida l' =>
        rw [he] at hc
        exact ⟨none, hc.2⟩
      | atendida l' bytes =>
        rw [he] at hc
        exact ⟨some bytes, hc.2⟩
    have hv := h.vista (conexion t l)
    cases hk : lugar (conexion t l) with
    | nada =>
      rw [hk] at hespera
      cases hespera
    | pedido l' =>
      rw [hk] at hespera hv
      cases hespera
      have hpedido : s.pedidos (conexion t l) = l.pedido.serializar := congrArg Vista.pedido hv
      cases htarea : s.tarea with
      | none =>
        have hr := recibir_tarea_serializar (h.cabe t l hl) (conexion t l)
        rw [← hpedido] at hr
        exact Or.inr (Or.inr (.silencio (.acepta htarea hr)))
      | some task => exact Or.inr (Or.inr (sigue_tarea htarea))
    | tarea l' =>
      rw [hk] at hv
      have htarea : s.tarea.filter (de (conexion t l)) = some (l'.tarea (conexion t l)) :=
        congrArg Vista.tarea hv
      exact Or.inr (Or.inr (sigue_tarea (Option.filter_eq_some_iff.mp htarea).1))
    | cola l' =>
      rw [hk] at hv
      have hcola : s.cola.filter (de (conexion t l)) = [l'.tarea (conexion t l)] :=
        congrArg Vista.cola hv
      refine Or.inr (sigue_cola ?_)
      intro hnil
      rw [hnil] at hcola
      cases hcola
    | worker w l' =>
      rw [hk] at hv
      have hworker := congrFun (congrArg Vista.worker hv) w
      simp only [Sistema.vista, Lugar.vista, Function.update_self] at hworker
      exact Or.inr (sigue_resuelve (Puesto.eq_of_de hworker fun heq => by cases heq))
    | respuesta w l' bytes =>
      rw [hk] at hv
      have hworker := congrFun (congrArg Vista.worker hv) w
      simp only [Sistema.vista, Lugar.vista, Function.update_self] at hworker
      exact Or.inr (Or.inr (.silencio (.responde
        (Puesto.eq_of_de hworker fun heq => by cases heq))))
    | llegada l' bytes =>
      rw [hk] at hv
      have hespera' := hespera
      rw [hk] at hespera
      cases hespera
      have hrespuesta : s.respuestas (conexion t l) = bytes := congrArg Vista.respuesta hv
      rcases h.entera _ _ _ hespera' with rfl | ⟨d, hd, -⟩
      · obtain ⟨u, hu, hconexion, hestado⟩ := h.dueno hespera'
        obtain rfl : u = t := h.unico hl (by rw [hu]; rfl) hconexion
        exact Or.inl ⟨l, hestado⟩
      · rw [← hrespuesta] at hd
        exact Or.inr (Or.inr (.silencio (.recibe hf hd)))

/-- Whatever the threads of the clients, the main thread and the workers do in between, the calls
are as if they were made on the server: one at a time on a connection, each served at most once and
for its own request, and with its own reply. A connection without a call has nothing in it, and no
call waits but for a reply that is lost or a worker that does not get through its task. -/
theorem llamadas_remotas [Nonempty ω] {es : List (Suceso ι)}
    (hrun : Trace (Guarded Cabida (Paso conexion sirve entorno))
      (Sistema.inicial (ω := ω) servidor) es s) :
    ∃ a, Trace (Paso_remoto conexion sirve entorno) ⟨servidor, fun _ => .libre⟩ es a ∧
      a.servidor = s.servidor ∧
      (∀ k, (∀ t l, (a.estado t).llamada = some l → conexion t l ≠ k) → s.vista k = vacia ω) ∧
      ∀ t, a.estado t ≠ .libre →
        (∃ l, a.estado t = .atendida l []) ∨ Trabado sirve s ∨ Sigue conexion sirve s := by
  obtain ⟨a, htrace, lugar, h⟩ := paso_simulado.trace hrun ⟨_, refiere_inicial⟩
  refine ⟨a, htrace, h.servidor, ?_, ?_⟩
  · intro k hk
    refine h.nada ?_
    by_contra hne
    obtain ⟨⟨l, y⟩, hespera⟩ := Option.ne_none_iff_exists'.mp hne
    obtain ⟨t, hf, hconexion, -⟩ := h.dueno hespera
    refine hk t l ?_ hconexion
    rw [(h.corresponde t).llamada, hf]
    rfl
  · intro t ht
    exact h.avanza fun hf => ht (h.fuera hf)

end Corridas

end Relacion

/-- A server for which every file is there. -/
def sirve_ok (_ : Unit) (_ : task_t) (bytes : List UInt8) (_ : Unit) : Prop :=
  bytes = serializar_respuesta_finalizacion RESPUESTA_OK

/-- Two clients. -/
def dos_conexiones (t : Bool) (_ : Llamada) : Int32 := if t then 5 else 6

def abrir_raiz : Llamada := .abrir_archivo [47]

theorem abrir_raiz_cabe : Cabe abrir_raiz := by
  refine ⟨⟨by decide, ?_⟩, by decide⟩
  intro path buffer offset heq
  cases heq

/-- A call, with one of another client in between. -/
def dos_llamadas : List (Suceso Bool) :=
  [.llama true abrir_raiz, .sigue, .llama false abrir_raiz, .sigue, .sigue, .sigue,
    .atiende (abrir_raiz.tarea 5) (serializar_respuesta_finalizacion RESPUESTA_OK), .sigue, .sigue,
    .vuelve true abrir_raiz ⟨0, [], []⟩]

theorem dos_llamadas_corrida : ∃ s : Sistema Unit Bool Unit, Trace (Guarded Cabida
    (Paso dos_conexiones sirve_ok fun _ _ => False)) (Sistema.inicial ()) dos_llamadas s := by
  have paso : ∀ {s e s'}, Paso dos_conexiones sirve_ok (fun _ _ => False) s e s' →
      Cabida (ω := Unit) s e →
      Guarded Cabida (Paso dos_conexiones sirve_ok fun _ _ => False) s e s' :=
    fun hpaso hcabida => ⟨hcabida, hpaso⟩
  have hr : recibir_tarea 5 abrir_raiz.pedido.serializar = some (abrir_raiz.tarea 5, []) :=
    recibir_tarea_serializar abrir_raiz_cabe 5
  have hs : sirve_ok () (abrir_raiz.tarea 5) (serializar_respuesta_finalizacion RESPUESTA_OK) () :=
    rfl
  have hd : abrir_raiz.recibir (serializar_respuesta_finalizacion RESPUESTA_OK) =
      .ok ⟨0, [], []⟩ := rfl
  have r₀ : Trace (Guarded Cabida (Paso dos_conexiones sirve_ok fun _ _ => False))
    (Sistema.inicial (ω := Unit) ()) [] (Sistema.inicial ()) := .refl
  have r₁ := r₀.snoc (paso (.llama (t := true) (l := abrir_raiz) rfl rfl) abrir_raiz_cabe)
  have r₂ := r₁.snoc (paso (.envia (t := true) rfl) trivial)
  have r₃ := r₂.snoc (paso (.llama (t := false) (l := abrir_raiz) rfl rfl) abrir_raiz_cabe)
  have r₄ := r₃.snoc (paso (.acepta (k := 5) rfl hr) trivial)
  have r₅ := r₄.snoc (paso (.encola rfl) trivial)
  have r₆ := r₅.snoc (paso (.toma (w := ()) rfl rfl) trivial)
  have r₇ := r₆.snoc (paso (.atiende (w := ()) rfl hs) (by
    intro l k heq
    cases l with
    | abrir_archivo path => exact Or.inr ⟨_, hd, rfl⟩
    | _ => cases heq))
  have r₈ := r₇.snoc (paso (.responde (w := ()) rfl) trivial)
  have r₉ := r₈.snoc (paso (.recibe (t := true) rfl hd) trivial)
  have r₁₀ := r₉.snoc (paso (.vuelve (t := true) rfl) trivial)
  exact ⟨_, r₁₀⟩
theorem dos_llamadas_remotas : ∃ (s : Sistema Unit Bool Unit) (a : Remota Unit Bool),
    Trace (Paso_remoto dos_conexiones sirve_ok fun _ _ => False) ⟨(), fun _ => .libre⟩
        dos_llamadas a ∧ a.servidor = s.servidor ∧
      (∀ k, (∀ t l, (a.estado t).llamada = some l → dos_conexiones t l ≠ k) →
        s.vista k = vacia Unit) ∧
      ∀ t, a.estado t ≠ .libre → (∃ l, a.estado t = .atendida l []) ∨ Trabado sirve_ok s ∨
        Sigue dos_conexiones sirve_ok s := by
  obtain ⟨s, hrun⟩ := dos_llamadas_corrida
  exact ⟨s, llamadas_remotas hrun⟩

end LaLiga.Fsc.Conexiones
