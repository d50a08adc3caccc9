import LaLiga.Fsc.Operaciones
import LaLiga.Lib.Transition

/-! What memcached answers for the server while one client works alone. -/
namespace LaLiga.Fsc

open LaLiga.Lib LaLiga.Serializadores

/-- What is asked for through memcached. -/
inductive Consulta
  | atributos (path : Path)
  | listado (path : Path)

inductive Resultado
  | atributos (res : Int8) (attrib : stat)
  | listado (res : Int8) (nombres : List (List UInt8))
  deriving DecidableEq

namespace Consulta

def clave : Consulta → Clave
  | atributos path => memcached_library_key OBTENER_ATRIBUTOS path
  | listado path => memcached_library_key LEER_DIRECTORIO path

def pedido : Consulta → Pedido
  | atributos path => .obtener_atributos path
  | listado path => .leer_directorio path

/-- What the callback makes of a value. -/
def interpretar : Consulta → List UInt8 → Resultado
  | atributos _, valor =>
    .atributos EXIT_SUCCESS (.de_atributos (deserializar_respuesta_obtener_atributos valor))
  | listado _, valor => .listado EXIT_SUCCESS (string_split valor numeral)

def rechazada : Consulta → Int8 → Resultado
  | atributos _, tipo => .atributos tipo .cero
  | listado _, tipo => .listado tipo []

/-- What the callback would answer now if it asked the server. -/
def directa {σ : Type} (q : Consulta) (srv : Servidor σ) (s : σ) : Resultado :=
  let respuesta := (srv.atender q.pedido s).1
  if respuesta.tipo = -ENOENT ∨ respuesta.tipo = -ENAMETOOLONG then q.rechazada respuesta.tipo
  else q.interpretar respuesta.payload

end Consulta

/-- The key that the callback for the request deletes. -/
def clave_borrada : Pedido → Option Clave
  | .crear_archivo path _ | .crear_directorio path _ | .eliminar_archivo path
  | .eliminar_directorio path => clave_previa path
  | .truncar_archivo path _ => some (memcached_library_key OBTENER_ATRIBUTOS path)
  | _ => none

/-- A callback, or memcached dropping an entry. -/
inductive Evento
  | llamada (p : Pedido)
  | descarte (clave : Clave)

section Runs

variable {σ : Type} (srv : Servidor σ)

inductive Paso : Cliente σ → Evento → Cliente σ → Prop
  | crear_archivo {c c' : Cliente σ} (path : Path) (mode : UInt32) {res : Int8} :
      crear_archivo srv path mode c = .ok (res, c') →
      Paso c (.llamada (.crear_archivo path mode)) c'
  | crear_directorio {c c' : Cliente σ} (path : Path) (mode : UInt32) {res : Int8} :
      crear_directorio srv path mode c = .ok (res, c') →
      Paso c (.llamada (.crear_directorio path mode)) c'
  | eliminar_archivo {c c' : Cliente σ} (path : Path) {res : Int8} :
      eliminar_archivo srv path c = .ok (res, c') → Paso c (.llamada (.eliminar_archivo path)) c'
  | eliminar_directorio {c c' : Cliente σ} (path : Path) {res : Int8} :
      eliminar_directorio srv path c = .ok (res, c') →
      Paso c (.llamada (.eliminar_directorio path)) c'
  | truncar_archivo {c c' : Cliente σ} (path : Path) (size : UInt64) {res : Int8} :
      truncar_archivo srv path size c = .ok (res, c') →
      Paso c (.llamada (.truncar_archivo path size)) c'
  | escribir_archivo {c : Cliente σ} (path buffer : List UInt8) (offset : Int64) :
      Paso c (.llamada (.escribir_archivo path buffer offset))
        (escribir_archivo srv path buffer offset c).2
  | leer_directorio {c c' : Cliente σ} (path : Path) {res : Int8 × List (List UInt8)} :
      leer_directorio srv path c = .ok (res, c') → Paso c (.llamada (.leer_directorio path)) c'
  | obtener_atributos {c : Cliente σ} (path : Path) :
      Paso c (.llamada (.obtener_atributos path)) (obtener_atributos srv path c).2
  | descarte {c : Cliente σ} (clave : Clave) :
      Paso c (.descarte clave) { c with memcached := c.memcached.delete clave }

/-- The client starts with nothing in memcached. -/
def Inicial (c : Cliente σ) : Prop := c.memcached = Cache.empty

/-- A value of a key is what the server would answer now. -/
def Vigente (s : σ) (k : Clave) (valor : List UInt8) : Prop :=
  ∀ q : Consulta, q.clave = k → q.interpretar valor = q.directa srv s

def Coherente (c : Cliente σ) : Prop := c.memcached.Coherent (Vigente srv c.servidor)

/-- The request changes no answer kept in memcached, but for the one its callback deletes. -/
def Cuidado (c : Cliente σ) : Evento → Prop
  | .llamada p => ∀ q : Consulta, c.memcached q.clave ≠ none → clave_borrada p ≠ some q.clave →
      q.directa srv (srv.atender p c.servidor).2 = q.directa srv c.servidor
  | .descarte _ => True

end Runs

section Answers

variable {σ : Type} {srv : Servidor σ} {c c' : Cliente σ} {s : σ} {path : Path} {k : Clave}
  {p : Pedido} {q : Consulta}

/-- `"dir-"` and `"attr-"` tell the families of keys apart. -/
theorem clave_inj {q r : Consulta} (h : q.clave = r.clave) : q = r := by
  have hne : LEER_DIRECTORIO ≠ OBTENER_ATRIBUTOS := by decide
  cases q with
  | atributos path =>
    cases r with
    | atributos path' => simpa [Consulta.clave, memcached_library_key, hne.symm] using h
    | listado path' => simp [Consulta.clave, memcached_library_key, hne.symm, attr, dir] at h
  | listado path =>
    cases r with
    | atributos path' => simp [Consulta.clave, memcached_library_key, hne.symm, attr, dir] at h
    | listado path' => simpa [Consulta.clave, memcached_library_key] using h

theorem vigente_clave {v : List UInt8} :
    Vigente srv s q.clave v ↔ q.interpretar v = q.directa srv s := by
  constructor
  · intro h
    exact h q rfl
  · intro h r hr
    rw [clave_inj hr]
    exact h

/-- What the server has just answered is what it would answer. -/
theorem vigente_payload
    (h : ¬((srv.atender q.pedido s).1.tipo = -ENOENT ∨
      (srv.atender q.pedido s).1.tipo = -ENAMETOOLONG)) :
    Vigente srv s q.clave (srv.atender q.pedido s).1.payload := by
  rw [vigente_clave, Consulta.directa, if_neg h]

/-- What a callback does: the request, and with memcached nothing, the deletion of its key or
the insertion of an answer. -/
def Efecto (srv : Servidor σ) (p : Pedido) (c c' : Cliente σ) : Prop :=
  c'.servidor = (srv.atender p c.servidor).2 ∧
    (c'.memcached = c.memcached ∧ (c'.servidor = c.servidor ∨ clave_borrada p = none) ∨
    (∃ k, clave_borrada p = some k ∧ c'.memcached = c.memcached.delete k) ∨
    ∃ q v, c'.servidor = c.servidor ∧ c.memcached (Consulta.clave q) = none ∧
      Vigente srv c.servidor q.clave v ∧ c'.memcached = c.memcached.set q.clave v)

theorem obtener_atributos_efecto :
    Efecto srv (.obtener_atributos path) c (obtener_atributos srv path c).2 := by
  have hkeep := srv.consulta (.obtener_atributos path) c.servidor (Or.inl rfl)
  dsimp only [obtener_atributos]
  cases hv : c.memcached (memcached_library_key OBTENER_ATRIBUTOS path) with
  | some value => exact ⟨hkeep.symm, Or.inl ⟨rfl, Or.inl rfl⟩⟩
  | none =>
    dsimp only
    split_ifs with he
    · exact ⟨rfl, Or.inl ⟨rfl, Or.inl hkeep⟩⟩
    · exact ⟨rfl, Or.inr (Or.inr
        ⟨.atributos path, _, hkeep, hv, vigente_payload (q := .atributos path) he, rfl⟩)⟩

theorem leer_directorio_efecto {res : Int8 × List (List UInt8)}
    (h : leer_directorio srv path c = .ok (res, c')) : Efecto srv (.leer_directorio path) c c' := by
  have hkeep := srv.consulta (.leer_directorio path) c.servidor (Or.inr rfl)
  dsimp only [leer_directorio] at h
  split at h
  · cases h
  cases hv : c.memcached (dir ++ path) with
  | some valor =>
    rw [hv] at h
    cases h
    exact ⟨hkeep.symm, Or.inl ⟨rfl, Or.inl rfl⟩⟩
  | none =>
    rw [hv] at h
    dsimp only at h
    split_ifs at h with he
    · cases h
      exact ⟨rfl, Or.inl ⟨rfl, Or.inl hkeep⟩⟩
    · cases h
      exact ⟨rfl, Or.inr (Or.inr
        ⟨.listado path, _, hkeep, hv, vigente_payload (q := .listado path) he, rfl⟩)⟩

/-- Refused, nothing has changed; carried out, the key is deleted. -/
theorem modificar_efecto {rechazos : List Int8} {res : Int8}
    (hr : rechazos ⊆ [-ENOENT, -EEXIST, -ENAMETOOLONG])
    (h : modificar srv p rechazos (clave_borrada p) c = .ok (res, c')) : Efecto srv p c c' := by
  dsimp only [modificar] at h
  split_ifs at h with he
  · cases h
    exact ⟨rfl, Or.inl ⟨rfl, Or.inl (srv.rechazo _ _ (hr he))⟩⟩
  · cases hk : clave_borrada p with
    | none =>
      rw [hk] at h
      cases h
    | some k =>
      rw [hk] at h
      cases h
      exact ⟨rfl, Or.inr (Or.inl ⟨k, hk, rfl⟩)⟩

theorem escribir_archivo_efecto {buffer : List UInt8} {offset : Int64} :
    Efecto srv (.escribir_archivo path buffer offset) c
      (escribir_archivo srv path buffer offset c).2 := by
  dsimp only [escribir_archivo]
  split_ifs
  · exact ⟨rfl, Or.inl ⟨rfl, Or.inr rfl⟩⟩
  · exact ⟨rfl, Or.inl ⟨rfl, Or.inr rfl⟩⟩

theorem paso_efecto (h : Paso srv c (.llamada p) c') : Efecto srv p c c' := by
  cases h with
  | crear_archivo path mode h => exact modificar_efecto (by decide) h
  | crear_directorio path mode h => exact modificar_efecto (by decide) h
  | eliminar_archivo path h => exact modificar_efecto (by decide) h
  | eliminar_directorio path h => exact modificar_efecto (by decide) h
  | truncar_archivo path size h => exact modificar_efecto (by decide) h
  | escribir_archivo => exact escribir_archivo_efecto
  | leer_directorio path h => exact leer_directorio_efecto h
  | obtener_atributos => exact obtener_atributos_efecto

/-- With nothing kept there is nothing to be careful about. -/
theorem cuidado_vacio (h : ∀ q : Consulta, c.memcached q.clave = none) :
    Cuidado srv c (.llamada p) := by
  intro q hq
  exact absurd (h q) hq

/-- Coherence survives a step that is careful. -/
theorem coherente_paso {e : Evento} (h : Paso srv c e c') (hg : Cuidado srv c e)
    (hc : Coherente srv c) : Coherente srv c' := by
  cases e with
  | descarte k =>
    cases h
    exact Cache.Coherent.drop hc _
  | llamada p =>
    obtain ⟨hs, ⟨hm, hsame⟩ | ⟨k, hk, hm⟩ | ⟨q, v, hsame, -, hv, hm⟩⟩ := paso_efecto h
    · rw [Coherente, hm]
      rcases hsame with hsame | hnone
      · rw [hsame]
        exact hc
      · refine Cache.Coherent.change hc ?_
        intro l v hl hval q hq
        subst hq
        rw [hs, hg q (by rw [hl]; exact Option.some_ne_none v) (by rw [hnone]; simp)]
        exact hval q rfl
    · rw [Coherente, hm, hs]
      refine Cache.Coherent.delete hc ?_
      intro l v hl hkept hval q hq
      subst hq
      rw [hg q (by rw [hkept]; exact Option.some_ne_none v) (by rw [hk]; simpa using hl.symm)]
      exact hval q rfl
    · rw [Coherente, hm, hsame]
      exact Cache.Coherent.set hc hv

/-- A step that is not careful leaves an answer in memcached that is none any more. -/
theorem cuidado_de_coherente (h : Paso srv c (.llamada p) c') (hc : Coherente srv c)
    (hc' : Coherente srv c') : Cuidado srv c (.llamada p) := by
  intro q hq hne
  obtain ⟨v, hv⟩ := Option.ne_none_iff_exists'.mp hq
  have hbefore := vigente_clave.mp (hc _ _ hv)
  obtain ⟨hs, hm⟩ := paso_efecto h
  have hkept : c'.memcached q.clave = some v := by
    rcases hm with ⟨hm, -⟩ | ⟨k, hk, hm⟩ | ⟨r, w, -, hr, -, hm⟩
    · rw [hm, hv]
    · rw [hm, Cache.delete_of_ne, hv]
      intro heq
      exact hne (heq ▸ hk)
    · rw [hm, Cache.set_of_ne, hv]
      intro heq
      rw [heq, hr] at hv
      cases hv
  have hafter := vigente_clave.mp (hc' _ _ hkept)
  rw [← hs, ← hafter, ← hbefore]

theorem coherente_inicial (h : Inicial c) : Coherente srv c := by
  rw [Coherente, h]
  exact Cache.coherent_empty

theorem coherente_alcanzable (h : Reachable Inicial (Guarded (Cuidado srv) (Paso srv)) c) :
    Coherente srv c :=
  h.invariant (fun _ => coherente_inicial) fun _ _ _ hc hp => coherente_paso hp.2 hp.1 hc

/-- Attributes come from memcached or from the server; coherent, they are the same. -/
theorem obtener_atributos_directa (hc : Coherente srv c) :
    Resultado.atributos (obtener_atributos srv path c).1.1 (obtener_atributos srv path c).1.2 =
      (Consulta.atributos path).directa srv c.servidor := by
  dsimp only [obtener_atributos]
  cases hv : c.memcached (memcached_library_key OBTENER_ATRIBUTOS path) with
  | some value => exact vigente_clave (q := .atributos path).mp (hc _ _ hv)
  | none =>
    dsimp only
    split_ifs with he
    · rw [Consulta.directa, Consulta.pedido, if_pos he]
      rfl
    · rw [Consulta.directa, Consulta.pedido, if_neg he]
      rfl

theorem leer_directorio_directa (hc : Coherente srv c) (hp : path.length < 40) :
    ∃ res c', leer_directorio srv path c = .ok (res, c') ∧
      Resultado.listado res.1 res.2 = (Consulta.listado path).directa srv c.servidor := by
  have hfit : ¬ MAX_KEY_SIZE < (dir ++ path).length + 1 := by
    simp only [MAX_KEY_SIZE, dir, List.length_append, List.length_cons, List.length_nil]
    omega
  simp only [leer_directorio, if_neg hfit]
  cases hv : c.memcached (dir ++ path) with
  | some valor => exact ⟨_, _, rfl, vigente_clave (q := .listado path).mp (hc _ _ hv)⟩
  | none =>
    dsimp only
    split_ifs with he
    · refine ⟨_, _, rfl, ?_⟩
      rw [Consulta.directa, Consulta.pedido, if_pos he]
      rfl
    · refine ⟨_, _, rfl, ?_⟩
      rw [Consulta.directa, Consulta.pedido, if_neg he]
      rfl

end Answers

/-- While every step is careful, the client is answered as the server would answer it. -/
theorem consultas_fieles {σ : Type} {srv : Servidor σ} {c : Cliente σ}
    (h : Reachable Inicial (Guarded (Cuidado srv) (Paso srv)) c) :
    (∀ path, Resultado.atributos (obtener_atributos srv path c).1.1
        (obtener_atributos srv path c).1.2 = (Consulta.atributos path).directa srv c.servidor) ∧
    ∀ path, path.length < 40 → ∃ res c', leer_directorio srv path c = .ok (res, c') ∧
      Resultado.listado res.1 res.2 = (Consulta.listado path).directa srv c.servidor := by
  have hc := coherente_alcanzable h
  exact ⟨fun _ => obtener_atributos_directa hc, fun _ hp => leer_directorio_directa hc hp⟩

theorem consultas_fieles_creado :
    ∃ c : Cliente (Option Nat),
      c.memcached (memcached_library_key OBTENER_ATRIBUTOS ruta_a) ≠ none ∧
      Resultado.atributos (obtener_atributos servidor_a ruta_a c).1.1
        (obtener_atributos servidor_a ruta_a c).1.2 =
        (Consulta.atributos ruta_a).directa servidor_a c.servidor := by
  have h0 : Reachable Inicial (Guarded (Cuidado servidor_a) (Paso servidor_a))
      ⟨none, Cache.empty⟩ := reachable_init rfl
  have h1 := reachable_step h0 ⟨cuidado_vacio fun _ => rfl, .crear_archivo ruta_a 0 rfl⟩
  have hvacia : ∀ q : Consulta,
      (Cache.empty.delete (memcached_library_key LEER_DIRECTORIO raiz) :
        Cache Clave (List UInt8)) q.clave = none := by
    intro q
    by_cases hk : q.clave = memcached_library_key LEER_DIRECTORIO raiz
    · rw [hk, Cache.delete_self]
    · rw [Cache.delete_of_ne hk, Cache.empty_apply]
  have h2 := reachable_step h1 ⟨cuidado_vacio hvacia, .obtener_atributos ruta_a⟩
  exact ⟨_, by decide, (consultas_fieles h2).1 ruta_a⟩

/-- `"/a"` is created, looked at and written, and its attributes still have the size from
before the write. -/
theorem atributos_rancios : ∃ c, Reachable Inicial (Paso servidor_a) c ∧
    Resultado.atributos (obtener_atributos servidor_a ruta_a c).1.1
      (obtener_atributos servidor_a ruta_a c).1.2 ≠
      (Consulta.atributos ruta_a).directa servidor_a c.servidor := by
  have h0 : Reachable Inicial (Paso servidor_a) ⟨none, Cache.empty⟩ := reachable_init rfl
  have h1 := reachable_step h0 (.crear_archivo ruta_a 0 rfl)
  have h2 := reachable_step h1 (.obtener_atributos ruta_a)
  have h3 := reachable_step h2 (.escribir_archivo ruta_a [120] 0)
  exact ⟨_, h3, by decide⟩

end LaLiga.Fsc
