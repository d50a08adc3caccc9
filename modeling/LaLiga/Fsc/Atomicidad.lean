import LaLiga.Fsc.Conexiones

/-! The calls of all threads of the clients to a server with one worker, as calls on the map from
paths to bytes. -/
namespace LaLiga.Fsc.Atomicidad

open LaLiga.Lib LaLiga.Serializadores LaLiga.Fsc.Remoto LaLiga.Fsc.Conexiones
open LaLiga.Rfs (Server Superblock_constants Folders task_t Holding)

/-- A call on the map: it is made, takes effect and returns. -/
inductive Hecha
  | libre
  | pedida (l : Llamada)
  | atendida (l : Llamada) (d : Devuelto)

structure Mapa (ι : Type) where
  files : Path → Option (List UInt8)
  estado : ι → Hecha

section Pasos

variable {ι ω : Type} [DecidableEq ι]

def Mapa.con_estado (m : Mapa ι) (t : ι) (e : Hecha) : Mapa ι :=
  { m with estado := Function.update m.estado t e }

/-- A call takes effect at once, between the moment it is made and the one it returns, and returns
what the map had for it then. -/
inductive Paso_mapa (conexion : ι → Llamada → Int32) (c : Superblock_constants) :
    Mapa ι → Suceso ι → Mapa ι → Prop
  | llama {m : Mapa ι} {t : ι} {l : Llamada} (ht : m.estado t = .libre) :
      Paso_mapa conexion c m (.llama t l) (m.con_estado t (.pedida l))
  | atiende {m : Mapa ι} {t : ι} {l : Llamada} {bytes : List UInt8} (ht : m.estado t = .pedida l) :
      Paso_mapa conexion c m (.atiende (l.tarea (conexion t l)) bytes)
        { m.con_estado t (.atendida l (esperado c m.files l).2) with
          files := (esperado c m.files l).1 }
  | vuelve {m : Mapa ι} {t : ι} {l : Llamada} {d : Devuelto} (ht : m.estado t = .atendida l d) :
      Paso_mapa conexion c m (.vuelve t l d) (m.con_estado t .libre)
  | sigue {m : Mapa ι} : Paso_mapa conexion c m .sigue m

/-- What a worker does for a task on the file system, and sends. -/
def Sirve (c : Superblock_constants) (s : Server) (task : task_t) (bytes : List UInt8)
    (s' : Server) : Prop :=
  ∃ behind sent, Rfs.work c behind s task = .ok (s', sent) ∧ bytes = sent.flatten

/-- Memcached forgets a key. -/
def Olvida (s s' : Server) : Prop := ∃ key, s' = ⟨s.file, s.memc.delete key⟩

/-- Requests fit in their frames, and the file system has what a task needs when it is served. -/
def Atendible (c : Superblock_constants) (F : Folders) (s : Sistema Server ι ω) (e : Suceso ι) :
    Prop :=
  match e with
  | .llama _ l => Cabe l
  | .atiende task _ => ∀ l k, task = l.tarea k → Admisible c F s.servidor l
  | _ => True

end Pasos

/-- A call on the server and the same one on the map. -/
def Igual : Estado → Hecha → Prop
  | .libre, .libre => True
  | .pedida l, .pedida l' => l = l'
  | .atendida l bytes, .atendida l' d => l = l' ∧ l.recibir bytes = .ok d
  | _, _ => False

section Simulacion

variable {ι ω : Type} {conexion : ι → Llamada → Int32} {c : Superblock_constants} {F : Folders}
  {files : Path → Option (List UInt8)} {servidor : Server} {s s' : Sistema Server ι ω}
  {a a' : Remota Server ι} {m : Mapa ι} {e : Suceso ι} {t : ι} {l : Llamada} {task : task_t}
  {bytes : List UInt8}

structure Concuerda (c : Superblock_constants) (F : Folders) (a : Remota Server ι)
    (m : Mapa ι) : Prop where
  holding : Holding c F a.servidor m.files
  estado : ∀ t, Igual (a.estado t) (m.estado t)

/-- A worker that gets through a task has sent the whole reply. -/
theorem sirve_esperado (hsize : Rfs.Ext2_size c) (h : Holding c F servidor files)
    (hadm : Admisible c F servidor l) {k : Int32} {s' : Server}
    (hs : Sirve c servidor (l.tarea k) bytes s') :
    l.recibir bytes = .ok (esperado c files l).2 ∧ Holding c F s' (esperado c files l).1 := by
  obtain ⟨behind, sent, hwork, rfl⟩ := hs
  obtain ⟨s₁, sent₁, hwork₁, hrecibir, hholding⟩ := work_esperado behind k hsize h hadm
  obtain ⟨rfl, rfl⟩ := Prod.mk.inj (Except.ok.inj (hwork₁.symm.trans hwork))
  exact ⟨hrecibir, hholding⟩

theorem olvida_holding (hsize : Rfs.Ext2_size c) (h : Holding c F servidor files) {s' : Server}
    (hs : Olvida servidor s') : Holding c F s' files := by
  obtain ⟨key, rfl⟩ := hs
  have hserved : Rfs.Path_served c servidor
    (.file (.drop key), .file .nothing) ⟨servidor.file, servidor.memc.delete key⟩ := rfl
  have hfit : Rfs.Fitting c F servidor (.file (.drop key)) := trivial
  obtain ⟨files', hreply, hholding⟩ := Rfs.path_served_simulated hsize _ _ _ _ h ⟨hfit, hserved⟩
  obtain ⟨rfl, -⟩ := Prod.mk.inj hreply
  exact hholding

namespace Concuerda

theorem con_estado [DecidableEq ι] (h : Concuerda c F a m) {x : Estado} {y : Hecha}
    (hxy : Igual x y) : Concuerda c F (a.con_estado t x) (m.con_estado t y) := by
  refine ⟨h.holding, ?_⟩
  intro u
  by_cases hu : u = t
  · subst hu
    simp only [Remota.con_estado, Mapa.con_estado, Function.update_self]
    exact hxy
  · simp only [Remota.con_estado, Mapa.con_estado, Function.update_of_ne hu]
    exact h.estado u

theorem libre (h : Concuerda c F a m) (ht : a.estado t = .libre) : m.estado t = .libre := by
  have hi := h.estado t
  rw [ht] at hi
  cases he : m.estado t with
  | libre => rfl
  | _ =>
    rw [he] at hi
    cases hi

theorem pedida (h : Concuerda c F a m) (ht : a.estado t = .pedida l) : m.estado t = .pedida l := by
  have hi := h.estado t
  rw [ht] at hi
  cases he : m.estado t with
  | pedida l' =>
    rw [he] at hi
    obtain rfl : l = l' := hi
    rfl
  | _ =>
    rw [he] at hi
    cases hi

theorem atendida (h : Concuerda c F a m) (ht : a.estado t = .atendida l bytes) :
    ∃ d, m.estado t = .atendida l d ∧ l.recibir bytes = .ok d := by
  have hi := h.estado t
  rw [ht] at hi
  cases he : m.estado t with
  | atendida l' d =>
    rw [he] at hi
    obtain ⟨rfl, hd⟩ := hi
    exact ⟨d, rfl, hd⟩
  | _ =>
    rw [he] at hi
    cases hi

/-- A step of the calls on the server is one of the calls on the map. -/
theorem paso [DecidableEq ι] (hsize : Rfs.Ext2_size c) (h : Concuerda c F a m)
    (hadm : ∀ task bytes, e = .atiende task bytes → ∀ l k, task = l.tarea k →
      Admisible c F a.servidor l)
    (hpaso : Paso_remoto conexion (Sirve c) Olvida a e a') :
    ∃ m', Paso_mapa conexion c m e m' ∧ Concuerda c F a' m' := by
  cases hpaso with
  | llama ht _ => exact ⟨_, .llama (h.libre ht), h.con_estado rfl⟩
  | @atiende t l bytes servidor ht hs =>
    obtain ⟨hrecibir, hholding⟩ := sirve_esperado hsize h.holding (hadm _ _ rfl _ _ rfl) hs
    have higual : Igual (.atendida l bytes) (.atendida l (esperado c m.files l).2) :=
      ⟨rfl, hrecibir⟩
    exact ⟨_, .atiende (h.pedida ht), hholding, (h.con_estado higual).estado⟩
  | @vuelve t l bytes d ht hd =>
    obtain ⟨d', hd', hrecibir⟩ := h.atendida ht
    obtain rfl : d' = d := Except.ok.inj (hrecibir.symm.trans hd)
    exact ⟨_, .vuelve hd', h.con_estado trivial⟩
  | cambia hs => exact ⟨m, .sigue, olvida_holding hsize h.holding hs, h.estado⟩
  | sigue => exact ⟨m, .sigue, h⟩

end Concuerda

variable [DecidableEq ι] [DecidableEq ω]

/-- What a worker sends for a task that is admissible is one reply. -/
theorem atendible_cabida (hsize : Rfs.Ext2_size c) (h : Holding c F s.servidor files)
    (hatendible : Atendible c F s e) (hpaso : Conexiones.Paso conexion (Sirve c) Olvida s e s') :
    Cabida s e := by
  cases hpaso with
  | llama hf hl => exact hatendible
  | @atiende w task bytes servidor hw hs =>
    intro l k htask
    subst htask
    have hrecibir := (sirve_esperado hsize h (hatendible l k rfl) hs).1
    exact Or.inr ⟨_, hrecibir, esperado_resto c files l⟩
  | _ => trivial

/-- Every step of the threads is one of the calls on the map. -/
theorem mapa_simulado (hsize : Rfs.Ext2_size c) : Simulated
    (fun (s : Sistema Server ι ω) m => ∃ a, (∃ lugar, Refiere conexion lugar s a) ∧
      Concuerda c F a m)
    (Guarded (Atendible c F) (Conexiones.Paso conexion (Sirve c) Olvida)) (Paso_mapa conexion c) := by
  rintro s e s' m ⟨a, hrefiere, hconcuerda⟩ ⟨hatendible, hpaso⟩
  have hservidor : a.servidor = s.servidor := by
    obtain ⟨lugar, h⟩ := hrefiere
    exact h.servidor
  have hcabida := atendible_cabida hsize (hservidor ▸ hconcuerda.holding) hatendible hpaso
  obtain ⟨a', hremoto, hrefiere'⟩ := paso_simulado s e s' a hrefiere ⟨hcabida, hpaso⟩
  obtain ⟨m', hmapa, hconcuerda'⟩ := hconcuerda.paso hsize (by
    rintro task bytes rfl
    rw [hservidor]
    exact hatendible) hremoto
  exact ⟨m', hmapa, a', hrefiere', hconcuerda'⟩

/-- A worker has a task for which the file system has not what it needs. -/
def Excedido (c : Superblock_constants) (F : Folders) (s : Sistema Server ι ω) : Prop :=
  ∃ w l k, s.worker w = .resuelve (l.tarea k) ∧ ¬ Admisible c F s.servidor l

/-- While a call has not returned, something goes on. -/
theorem Concuerda.avanza [Nonempty ω] (hsize : Rfs.Ext2_size c) (h : Concuerda c F a m)
    {lugar : Int32 → Lugar ω} (hrefiere : Refiere conexion lugar s a)
    (ht : m.estado t ≠ .libre) : Excedido c F s ∨ Sigue conexion (Sirve c) s := by
  have hfase : s.fase t ≠ .fuera := fun hf => ht (h.libre (hrefiere.fuera hf))
  have hcases : (∃ l, a.estado t = .atendida l []) ∨ Trabado (Sirve c) s ∨
      Sigue conexion (Sirve c) s := hrefiere.avanza hfase
  rcases hcases with ⟨l, hlost⟩ | ⟨w, task, hw, htrabado⟩ | hsigue
  · obtain ⟨d, -, hd⟩ := h.atendida hlost
    rw [recibir_nil] at hd
    cases hd
  · obtain ⟨u, l, rfl, -⟩ := hrefiere.encargo hw
    by_cases hadm : Admisible c F s.servidor l
    · obtain ⟨s₁, sent, hwork, -⟩ :=
        work_esperado 0 (conexion u l) hsize (hrefiere.servidor ▸ h.holding) hadm
      exact absurd ⟨0, sent, hwork, rfl⟩ (htrabado sent.flatten s₁)
    · exact Or.inl ⟨w, l, _, hw, hadm⟩
  · exact Or.inr hsigue

end Simulacion

section Corridas

variable {ι : Type} [DecidableEq ι] {conexion : ι → Llamada → Int32} {c : Superblock_constants}
  {F : Folders} {files : Path → Option (List UInt8)} {servidor : Server}
  {s : Sistema Server ι Unit}

omit [DecidableEq ι] in
theorem concuerda_inicial (h : Holding c F servidor files) :
    Concuerda (ι := ι) c F ⟨servidor, fun _ => .libre⟩ ⟨files, fun _ => .libre⟩ :=
  ⟨h, fun _ => trivial⟩

/-- With one worker, and whatever the threads of the clients do in between, the calls are atomic:
each takes effect at one moment between its request and its return, and returns what the map from
paths to bytes had for it at that moment. The image holds that map all along, and no call waits for
ever but behind a task for which the file system has not what it needs. -/
theorem llamadas_atomicas {es : List (Suceso ι)} (hsize : Rfs.Ext2_size c)
    (h : Holding c F servidor files)
    (hrun : Trace (Guarded (Atendible c F) (Conexiones.Paso conexion (Sirve c) Olvida))
      (Sistema.inicial servidor) es s) :
    ∃ m, Trace (Paso_mapa conexion c) ⟨files, fun _ => .libre⟩ es m ∧
      Holding c F s.servidor m.files ∧
      ∀ t, m.estado t ≠ .libre → Excedido c F s ∨ Sigue conexion (Sirve c) s := by
  obtain ⟨m, htrace, a, ⟨lugar, hrefiere⟩, hconcuerda⟩ :=
    (mapa_simulado hsize).trace hrun ⟨_, ⟨_, refiere_inicial⟩, concuerda_inicial h⟩
  exact ⟨m, htrace, hrefiere.servidor ▸ hconcuerda.holding, fun _ ht =>
    hconcuerda.avanza hsize hrefiere ht⟩

end Corridas

/-- One client. -/
def una_conexion (_ : Unit) (_ : Llamada) : Int32 := 5

abbrev un_grupo : Superblock_constants := Rfs.one_group 0 Rfs.smallest_block_pos

abbrev un_servidor : Server := ⟨Rfs.root_and_file, Cache.empty⟩

/-- The file `/b` is created. -/
def creacion (bytes : List UInt8) : List (Suceso Unit) :=
  [.llama () crear_b, .sigue, .sigue, .sigue, .sigue, .atiende (crear_b.tarea 5) bytes, .sigue,
    .sigue, .vuelve () crear_b (esperado un_grupo Rfs.one_named crear_b).2]

theorem crear_b_atendible {l : Llamada} {k : Int32} (h : crear_b.tarea 5 = l.tarea k) :
    l = crear_b := by
  cases l with
  | crear_archivo path mode =>
    have hpath : path = Rfs.canonical [[98]] := (congrArg (fun task => task.params.path) h).symm
    have hmode : mode = 0x81a4 := (congrArg (fun task => task.params.mode) h).symm
    rw [hpath, hmode]
    rfl
  | _ => cases h

theorem creacion_corrida : ∃ bytes s, Trace (Guarded (Atendible un_grupo Rfs.only_root)
    (Conexiones.Paso una_conexion (Sirve un_grupo) Olvida))
      (Sistema.inicial (ω := Unit) un_servidor) (creacion bytes) s := by
  have hholding : Holding un_grupo Rfs.only_root un_servidor Rfs.one_named :=
    ⟨_, _, Rfs.root_and_file_rooted⟩
  have hcabe : Cabe crear_b := ⟨crear_b_admisible.valido, crear_b_admisible.corta⟩
  have hr : recibir_tarea 5 crear_b.pedido.serializar = some (crear_b.tarea 5, []) :=
    recibir_tarea_serializar hcabe 5
  obtain ⟨s₁, sent, hwork, hd, -⟩ := work_esperado 0 5 (Or.inl rfl) hholding crear_b_admisible
  obtain ⟨bytes, hbytes⟩ : ∃ bytes, bytes = sent.flatten := ⟨_, rfl⟩
  rw [← hbytes] at hd
  have hs : Sirve un_grupo un_servidor (crear_b.tarea 5) bytes s₁ := ⟨0, sent, hwork, hbytes⟩
  have paso : ∀ {s : Sistema Server Unit Unit} {e s'},
      Conexiones.Paso una_conexion (Sirve un_grupo) Olvida s e s' →
      Atendible un_grupo Rfs.only_root s e →
      Guarded (Atendible un_grupo Rfs.only_root)
        (Conexiones.Paso una_conexion (Sirve un_grupo) Olvida) s e s' :=
    fun hpaso hatendible => ⟨hatendible, hpaso⟩
  have r₀ : Trace (Guarded (Atendible un_grupo Rfs.only_root)
      (Conexiones.Paso una_conexion (Sirve un_grupo) Olvida))
      (Sistema.inicial (ω := Unit) un_servidor) [] (Sistema.inicial un_servidor) := .refl
  have r₁ := r₀.snoc (paso (.llama (t := ()) (l := crear_b) rfl rfl) hcabe)
  have r₂ := r₁.snoc (paso (.envia (t := ()) rfl) trivial)
  have r₃ := r₂.snoc (paso (.acepta (k := 5) rfl hr) trivial)
  have r₄ := r₃.snoc (paso (.encola rfl) trivial)
  have r₅ := r₄.snoc (paso (.toma (w := ()) rfl rfl) trivial)
  have r₆ := r₅.snoc (paso (.atiende (w := ()) rfl hs) fun l k htask =>
    crear_b_atendible htask ▸ crear_b_admisible)
  have r₇ := r₆.snoc (paso (.responde (w := ()) rfl) trivial)
  have r₈ := r₇.snoc (paso (.recibe (t := ()) rfl hd) trivial)
  have r₉ := r₈.snoc (paso (.vuelve (t := ()) rfl) trivial)
  exact ⟨bytes, _, r₉⟩

/-- The call of the one client to an image with one file. -/
theorem creacion_atomica : ∃ bytes s m,
    Trace (Paso_mapa una_conexion un_grupo) ⟨Rfs.one_named, fun _ => .libre⟩ (creacion bytes) m ∧
      Holding un_grupo Rfs.only_root s.servidor m.files ∧
      ∀ t, m.estado t ≠ .libre → Excedido (ω := Unit) un_grupo Rfs.only_root s ∨
        Sigue una_conexion (Sirve un_grupo) s := by
  obtain ⟨bytes, s, hrun⟩ := creacion_corrida
  exact ⟨bytes, s, llamadas_atomicas (Or.inl rfl) ⟨_, _, Rfs.root_and_file_rooted⟩ hrun⟩

end LaLiga.Fsc.Atomicidad
