import LaLiga.Fsc.Coherencia

/-! The threads of one client at work in one directory. -/
namespace LaLiga.Fsc.Concurrencia

open LaLiga.Lib LaLiga.Serializadores

/-- The replies that make the callback return with nothing deleted. -/
def rechazos : Pedido → List Int8
  | .crear_archivo _ _ | .crear_directorio _ _ => [-EEXIST, -ENAMETOOLONG]
  | _ => [-ENOENT, -ENAMETOOLONG]

/-- A request to create or remove something in the directory. -/
def Cambio (d : Path) : Pedido → Prop
  | .crear_archivo path _ | .crear_directorio path _ | .eliminar_archivo path
  | .eliminar_directorio path => get_previus_path path = some d
  | _ => False

/-- What a thread does next; inside a callback it holds the lock for its type. -/
inductive Fase
  | fuera
  | lee_busca
  | lee_pide
  | lee_inserta (payload : List UInt8)
  | cambia_pide (p : Pedido)
  | cambia_borra (p : Pedido)
  | sale (tipo : Int8)
  deriving DecidableEq

/-- Between the entry of a callback and its exit. -/
def Fase.dentro : Fase → Bool
  | fuera | sale _ => false
  | _ => true

structure Sistema (σ ι : Type) where
  cliente : Cliente σ
  lock : Int8 → Option ι
  fase : ι → Fase

/-- A callback is entered, goes one step on, or memcached drops an entry. -/
inductive Suceso (ι : Type)
  | lee (t : ι)
  | cambia (t : ι) (p : Pedido)
  | sigue (t : ι)
  | descarte (clave : Clave)

section Threads

variable {σ ι : Type} [DecidableEq ι] (srv : Servidor σ) (d : Path)

/-- One step of a callback, between the entry and the exit. -/
def avanzar : Fase → Cliente σ → Fase × Cliente σ
  | .lee_busca, c =>
    match c.memcached (dir ++ d) with
    | some _ => (.sale LEER_DIRECTORIO, c)
    | none => (.lee_pide, c)
  | .lee_pide, c =>
    let (respuesta, servidor) := srv.atender (.leer_directorio d) c.servidor
    if respuesta.tipo = -ENOENT ∨ respuesta.tipo = -ENAMETOOLONG then
      (.sale LEER_DIRECTORIO, { c with servidor })
    else (.lee_inserta respuesta.payload, { c with servidor })
  | .lee_inserta payload, c =>
    (.sale LEER_DIRECTORIO, { c with memcached := c.memcached.set (dir ++ d) payload })
  | .cambia_pide p, c =>
    let (respuesta, servidor) := srv.atender p c.servidor
    if respuesta.tipo ∈ rechazos p then (.sale p.tipo, { c with servidor })
    else (.cambia_borra p, { c with servidor })
  | .cambia_borra p, c =>
    match clave_borrada p with
    | some key => (.sale p.tipo, { c with memcached := c.memcached.delete key })
    | none => (.sale p.tipo, c)
  | fase, c => (fase, c)

namespace Sistema

variable (s : Sistema σ ι) (t : ι)

def entrar (tipo : Int8) (fase : Fase) : Sistema σ ι :=
  { s with lock := Function.update s.lock tipo (some t), fase := Function.update s.fase t fase }

def avanzar : Sistema σ ι :=
  { s with
    cliente := (Concurrencia.avanzar srv d (s.fase t) s.cliente).2
    fase := Function.update s.fase t (Concurrencia.avanzar srv d (s.fase t) s.cliente).1 }

def salir (tipo : Int8) : Sistema σ ι :=
  { s with lock := Function.update s.lock tipo none, fase := Function.update s.fase t .fuera }

end Sistema

inductive Paso : Sistema σ ι → Suceso ι → Sistema σ ι → Prop
  | lee {s : Sistema σ ι} {t : ι} (hf : s.fase t = .fuera) (hl : s.lock LEER_DIRECTORIO = none) :
      Paso s (.lee t) (s.entrar t LEER_DIRECTORIO .lee_busca)
  | cambia {s : Sistema σ ι} {t : ι} {p : Pedido} (hp : Cambio d p) (hf : s.fase t = .fuera)
      (hl : s.lock p.tipo = none) : Paso s (.cambia t p) (s.entrar t p.tipo (.cambia_pide p))
  | avanza {s : Sistema σ ι} {t : ι} (hf : (s.fase t).dentro) :
      Paso s (.sigue t) (s.avanzar srv d t)
  | sale {s : Sistema σ ι} {t : ι} {tipo : Int8} (hs : s.fase t = .sale tipo) :
      Paso s (.sigue t) (s.salir t tipo)
  | descarte {s : Sistema σ ι} (clave : Clave) :
      Paso s (.descarte clave)
        { s with cliente := { s.cliente with memcached := s.cliente.memcached.delete clave } }

/-- No callback is in progress. -/
def Quieto (s : Sistema σ ι) : Prop := ∀ t, s.fase t = .fuera

/-- The listing kept for the directory, if any, is what the server would answer now. -/
def Actual (s : Sistema σ ι) : Prop :=
  ∀ v, s.cliente.memcached (dir ++ d) = some v → Vigente srv s.cliente.servidor (dir ++ d) v

def Inicial (s : Sistema σ ι) : Prop :=
  Quieto s ∧ (∀ tipo, s.lock tipo = none) ∧ s.cliente.memcached = Cache.empty

/-- Some thread has yet to delete the key of the directory. -/
def Pendiente (s : Sistema σ ι) : Prop := ∃ t p, s.fase t = .cambia_borra p

/-- The key fits, and a listing is inserted while it is the server's or its key is yet to be
deleted. -/
def Oportuno (s : Sistema σ ι) : Suceso ι → Prop
  | .lee _ => d.length < 40
  | .sigue t =>
    match s.fase t with
    | .lee_inserta payload => Vigente srv s.cliente.servidor (dir ++ d) payload ∨ Pendiente s
    | _ => True
  | _ => True

/-- An old listing is kept only while its key is yet to be deleted. -/
structure Invariante (s : Sistema σ ι) : Prop where
  vigente : ∀ v, s.cliente.memcached (dir ++ d) = some v →
    Vigente srv s.cliente.servidor (dir ++ d) v ∨ Pendiente s
  pide : ∀ t p, s.fase t = .cambia_pide p → Cambio d p
  borra : ∀ t p, s.fase t = .cambia_borra p → Cambio d p

end Threads

section Steps

variable {σ ι : Type} [DecidableEq ι] {srv : Servidor σ} {d : Path} {s s' : Sistema σ ι} {t u : ι}
  {p : Pedido} {e : Suceso ι}

/-- A request in the directory is one that its callback sends and whose key it deletes. -/
theorem Cambio.clave_borrada (h : Cambio d p) : clave_borrada p = some (dir ++ d) := by
  have hkey : get_previus_path p.path = some d := by
    cases p <;> first | exact h | exact absurd h id
  have hprev : clave_previa p.path = some (dir ++ d) := by
    rw [clave_previa, hkey]
    rfl
  cases p <;> first | exact hprev | exact absurd h id

theorem rechazos_subset : rechazos p ⊆ [-ENOENT, -EEXIST, -ENAMETOOLONG] := by
  cases p <;> simp [rechazos]

theorem entrar_fase {tipo : Int8} {fase : Fase} (hu : u ≠ t) :
    (s.entrar t tipo fase).fase u = s.fase u := Function.update_of_ne hu ..

theorem avanzar_fase (hu : u ≠ t) : (s.avanzar srv d t).fase u = s.fase u :=
  Function.update_of_ne hu ..

theorem salir_fase {tipo : Int8} (hu : u ≠ t) : (s.salir t tipo).fase u = s.fase u :=
  Function.update_of_ne hu ..

/-- Nothing changes for the threads that do not move. -/
theorem Invariante.mover (hi : Invariante srv d s) (hother : ∀ u, u ≠ t → s'.fase u = s.fase u)
    (hpide : ∀ p, s'.fase t = .cambia_pide p → Cambio d p)
    (hborra : ∀ p, s'.fase t = .cambia_borra p → Cambio d p)
    (hv : ∀ v, s'.cliente.memcached (dir ++ d) = some v →
      Vigente srv s'.cliente.servidor (dir ++ d) v ∨ Pendiente s') : Invariante srv d s' := by
  refine ⟨hv, ?_, ?_⟩
  · intro u p hu
    by_cases h : u = t
    · subst h
      exact hpide p hu
    · exact hi.pide u p (by rwa [hother u h] at hu)
  · intro u p hu
    by_cases h : u = t
    · subst h
      exact hborra p hu
    · exact hi.borra u p (by rwa [hother u h] at hu)

omit [DecidableEq ι] in
/-- A deletion still to come stays so while its thread does not move. -/
theorem Pendiente.mover (h : Pendiente s) (hother : ∀ u, u ≠ t → s'.fase u = s.fase u)
    (ht : ∀ p, s.fase t ≠ .cambia_borra p) : Pendiente s' := by
  obtain ⟨u, p, hu⟩ := h
  have hne : u ≠ t := by
    intro heq
    exact ht p (heq ▸ hu)
  exact ⟨u, p, by rw [hother u hne, hu]⟩

/-- A step that changes neither the file system nor what is kept of it. -/
theorem Invariante.quieto (hi : Invariante srv d s) (hother : ∀ u, u ≠ t → s'.fase u = s.fase u)
    (hpide : ∀ p, s'.fase t = .cambia_pide p → Cambio d p)
    (hborra : ∀ p, s'.fase t ≠ .cambia_borra p) (ht : ∀ p, s.fase t ≠ .cambia_borra p)
    (hs : s'.cliente.servidor = s.cliente.servidor)
    (hm : s'.cliente.memcached = s.cliente.memcached) : Invariante srv d s' := by
  refine hi.mover hother hpide (fun p hp => absurd hp (hborra p)) ?_
  intro v hv
  rw [hm] at hv
  rcases hi.vigente v hv with h | h
  · left
    rwa [hs]
  · exact Or.inr (h.mover hother ht)

theorem invariante_avanza (hi : Invariante srv d s) (hg : Oportuno srv d s (.sigue t))
    (hf : (s.fase t).dentro) : Invariante srv d (s.avanzar srv d t) := by
  have hother : ∀ u, u ≠ t → (s.avanzar srv d t).fase u = s.fase u := fun u => avanzar_fase
  have hself : (s.avanzar srv d t).fase t = (avanzar srv d (s.fase t) s.cliente).1 :=
    Function.update_self ..
  have hcli : (s.avanzar srv d t).cliente = (avanzar srv d (s.fase t) s.cliente).2 := rfl
  cases hfase : s.fase t with
  | fuera =>
    rw [hfase] at hf
    cases hf
  | sale tipo =>
    rw [hfase] at hf
    cases hf
  | lee_busca =>
    rw [hfase] at hself hcli
    cases hv : s.cliente.memcached (dir ++ d) with
    | some v =>
      simp only [avanzar, hv] at hself hcli
      exact hi.quieto hother (by simp [hself]) (by simp [hself]) (by simp [hfase]) (by rw [hcli])
        (by rw [hcli])
    | none =>
      simp only [avanzar, hv] at hself hcli
      exact hi.quieto hother (by simp [hself]) (by simp [hself]) (by simp [hfase]) (by rw [hcli])
        (by rw [hcli])
  | lee_pide =>
    have hkeep := srv.consulta (.leer_directorio d) s.cliente.servidor (Or.inr rfl)
    rw [hfase] at hself hcli
    dsimp only [avanzar] at hself hcli
    split_ifs at hself hcli with he
    · exact hi.quieto hother (by simp [hself]) (by simp [hself]) (by simp [hfase])
        (by rw [hcli, hkeep]) (by rw [hcli])
    · exact hi.quieto hother (by simp [hself]) (by simp [hself]) (by simp [hfase])
        (by rw [hcli, hkeep]) (by rw [hcli])
  | lee_inserta payload =>
    rw [hfase] at hself hcli
    simp only [avanzar] at hself hcli
    refine hi.mover hother (by simp [hself]) (by simp [hself]) ?_
    intro v hv
    simp only [hcli, Cache.set_self, Option.some.injEq] at hv
    subst hv
    simp only [Oportuno, hfase] at hg
    rcases hg with h | h
    · left
      rwa [hcli]
    · exact Or.inr (h.mover hother (by simp [hfase]))
  | cambia_pide p =>
    have hp := hi.pide t p hfase
    rw [hfase] at hself hcli
    dsimp only [avanzar] at hself hcli
    split_ifs at hself hcli with he
    · have hkeep := srv.rechazo p s.cliente.servidor (rechazos_subset he)
      exact hi.quieto hother (by simp [hself]) (by simp [hself]) (by simp [hfase])
        (by rw [hcli, hkeep]) (by rw [hcli])
    · -- whatever the request did to the listing, its key is now to be deleted
      refine hi.mover hother (by simp [hself]) ?_ (fun v _ => Or.inr ⟨t, p, hself⟩)
      intro q hq
      rw [hself, Fase.cambia_borra.injEq] at hq
      exact hq ▸ hp
  | cambia_borra p =>
    have hkey := (hi.borra t p hfase).clave_borrada
    rw [hfase] at hself hcli
    simp only [avanzar, hkey] at hself hcli
    refine hi.mover hother (by simp [hself]) (by simp [hself]) ?_
    intro v hv
    simp only [hcli, Cache.delete_self] at hv
    cases hv

theorem invariante_paso (h : Paso srv d s e s') (hg : Oportuno srv d s e)
    (hi : Invariante srv d s) : Invariante srv d s' := by
  cases h with
  | @lee t hf hl =>
    have hself : (s.entrar t LEER_DIRECTORIO .lee_busca).fase t = .lee_busca :=
      Function.update_self ..
    exact hi.quieto (fun u => entrar_fase) (by simp [hself]) (by simp [hself]) (by simp [hf]) rfl
      rfl
  | @cambia t p hp hf hl =>
    have hself : (s.entrar t p.tipo (.cambia_pide p)).fase t = .cambia_pide p :=
      Function.update_self ..
    refine hi.quieto (fun u => entrar_fase) ?_ (by simp [hself]) (by simp [hf]) rfl rfl
    intro q hq
    rw [hself, Fase.cambia_pide.injEq] at hq
    exact hq ▸ hp
  | avanza hf => exact invariante_avanza hi hg hf
  | @sale t tipo hs =>
    have hself : (s.salir t tipo).fase t = .fuera := Function.update_self ..
    exact hi.quieto (fun u => salir_fase) (by simp [hself]) (by simp [hself]) (by simp [hs]) rfl
      rfl
  | descarte clave =>
    refine ⟨?_, hi.pide, hi.borra⟩
    intro v hv
    dsimp only at hv
    by_cases hk : dir ++ d = clave
    · subst hk
      rw [Cache.delete_self] at hv
      cases hv
    · rw [Cache.delete_of_ne hk] at hv
      exact hi.vigente v hv

omit [DecidableEq ι] in
theorem invariante_inicial (h : Inicial s) : Invariante srv d s := by
  obtain ⟨hq, -, hm⟩ := h
  refine ⟨?_, ?_, ?_⟩
  · intro v hv
    rw [hm] at hv
    cases hv
  · intro t p hp
    rw [hq t] at hp
    cases hp
  · intro t p hp
    rw [hq t] at hp
    cases hp

theorem invariante_alcanzable (h : Reachable Inicial (Guarded (Oportuno srv d) (Paso srv d)) s) :
    Invariante srv d s :=
  h.invariant (fun _ => invariante_inicial) fun _ _ _ hi hp => invariante_paso hp.2 hp.1 hi

/-! A thread that is not interrupted does what its callback does. -/

/-- What is left to `sale` is done. -/
theorem trace_avanzar {n : Nat} {tipo : Int8} {c' : Cliente σ} (hf : s.fase t ≠ .fuera)
    (h : (fun x => avanzar srv d x.1 x.2)^[n] (s.fase t, s.cliente) = (.sale tipo, c')) :
    ∃ xs s', Trace (Paso srv d) s xs s' ∧ s'.fase = Function.update s.fase t (.sale tipo) ∧
      s'.cliente = c' ∧ s'.lock = s.lock := by
  induction n generalizing s with
  | zero =>
    obtain ⟨hsale, hc⟩ := Prod.mk.inj h
    exact ⟨[], s, .refl, by rw [← hsale, Function.update_eq_self], hc, rfl⟩
  | succ n ih =>
    rw [Function.iterate_succ_apply] at h
    by_cases hd : (s.fase t).dentro
    swap
    · have hstay : avanzar srv d (s.fase t) s.cliente = (s.fase t, s.cliente) := by
        cases hfase : s.fase t <;> first | rfl | (rw [hfase] at hd; exact absurd rfl hd)
      exact ih hf (by rwa [hstay] at h)
    · have hself : (s.avanzar srv d t).fase t = (avanzar srv d (s.fase t) s.cliente).1 :=
        Function.update_self ..
      have hin : (s.avanzar srv d t).fase t ≠ .fuera := by
        rw [hself]
        cases hfase : s.fase t with
        | fuera => exact absurd hfase hf
        | sale tipo' => exact Fase.noConfusion
        | lee_busca =>
          dsimp only [avanzar]
          split <;> exact Fase.noConfusion
        | lee_pide =>
          dsimp only [avanzar]
          split_ifs <;> exact Fase.noConfusion
        | lee_inserta payload => exact Fase.noConfusion
        | cambia_pide p =>
          dsimp only [avanzar]
          split_ifs <;> exact Fase.noConfusion
        | cambia_borra p =>
          dsimp only [avanzar]
          split <;> exact Fase.noConfusion
      obtain ⟨xs, s', hx, hfase, hc, hlock⟩ := ih hin (by rw [hself]; exact h)
      refine ⟨_, s', .stepL (.avanza hd) hx, ?_, hc, hlock⟩
      rw [hfase]
      exact Function.update_idem ..

/-- A callback from its entry to its exit. -/
theorem trace_callback {n : Nat} {tipo : Int8} {fase : Fase} {c' : Cliente σ}
    (hentra : Paso srv d s e (s.entrar t tipo fase)) (hf : s.fase t = .fuera)
    (hl : s.lock tipo = none) (hfase : fase ≠ .fuera)
    (h : (fun x => avanzar srv d x.1 x.2)^[n] (fase, s.cliente) = (.sale tipo, c')) :
    ∃ xs, Trace (Paso srv d) s xs { s with cliente := c' } := by
  have hself : (s.entrar t tipo fase).fase t = fase := Function.update_self ..
  obtain ⟨xs, s', hx, hs', hc, hlock⟩ :=
    trace_avanzar (s := s.entrar t tipo fase) (t := t) (by rwa [hself]) (by rw [hself]; exact h)
  have hout : s'.fase t = .sale tipo := by
    rw [hs', Function.update_self]
  refine ⟨e :: (xs ++ [.sigue t]), .stepL hentra (hx.snoc ?_)⟩
  have hend : s'.salir t tipo = { s with cliente := c' } := by
    have hfuera : Function.update s'.fase t .fuera = s.fase := by
      rw [hs', Sistema.entrar, Function.update_idem, Function.update_idem, ← hf,
        Function.update_eq_self]
    have hlibre : Function.update s'.lock tipo none = s.lock := by
      rw [hlock, Sistema.entrar, Function.update_idem, ← hl, Function.update_eq_self]
    rw [Sistema.salir, hfuera, hlibre, hc]
  exact hend ▸ .sale hout

theorem trace_leer_directorio {res : Int8 × List (List UInt8)} {c' : Cliente σ}
    (hf : s.fase t = .fuera) (hl : s.lock LEER_DIRECTORIO = none)
    (h : leer_directorio srv d s.cliente = .ok (res, c')) :
    ∃ xs, Trace (Paso srv d) s xs { s with cliente := c' } := by
  have hrun : (fun x => avanzar srv d x.1 x.2)^[3] (.lee_busca, s.cliente) =
      (.sale LEER_DIRECTORIO, c') := by
    dsimp only [leer_directorio] at h
    split at h
    · cases h
    simp only [Function.iterate_succ_apply, Function.iterate_zero_apply]
    cases hv : s.cliente.memcached (dir ++ d) with
    | some v =>
      rw [hv] at h
      cases h
      simp only [avanzar, hv]
    | none =>
      rw [hv] at h
      dsimp only at h
      simp only [avanzar, hv]
      split_ifs at h ⊢
      · cases h
        rfl
      · cases h
        rfl
  exact trace_callback (.lee hf hl) hf hl Fase.noConfusion hrun

theorem trace_modificar {res : Int8} {c' : Cliente σ} (hp : Cambio d p) (hf : s.fase t = .fuera)
    (hl : s.lock p.tipo = none)
    (h : modificar srv p (rechazos p) (clave_borrada p) s.cliente = .ok (res, c')) :
    ∃ xs, Trace (Paso srv d) s xs { s with cliente := c' } := by
  have hrun : (fun x => avanzar srv d x.1 x.2)^[2] (.cambia_pide p, s.cliente) =
      (.sale p.tipo, c') := by
    dsimp only [modificar] at h
    simp only [Function.iterate_succ_apply, Function.iterate_zero_apply, avanzar]
    split_ifs at h ⊢
    · cases h
      rfl
    · rw [hp.clave_borrada] at h
      cases h
      simp only [hp.clave_borrada]
  exact trace_callback (.cambia hp hf hl) hf hl Fase.noConfusion hrun

end Steps

/-- While every listing is inserted in time, what is kept when all is quiet is the listing. -/
theorem listado_actual {σ ι : Type} [DecidableEq ι] {srv : Servidor σ} {d : Path}
    {s : Sistema σ ι} (h : Reachable Inicial (Guarded (Oportuno srv d) (Paso srv d)) s)
    (hq : Quieto s) : Actual srv d s := by
  intro v hv
  rcases (invariante_alcanzable h).vigente v hv with hvig | ⟨t, p, ht⟩
  · exact hvig
  · rw [hq t] at ht
    cases ht

/-- Two threads that have done nothing yet. -/
def vacio : Sistema (Option Nat) Bool := ⟨⟨none, Cache.empty⟩, fun _ => none, fun _ => .fuera⟩

theorem inicial_vacio : Inicial vacio := ⟨fun _ => rfl, fun _ => rfl, rfl⟩

/-- The listing is read by one thread alone, and kept. -/
theorem listado_actual_leido : ∃ s : Sistema (Option Nat) Bool,
    s.cliente.memcached (dir ++ raiz) ≠ none ∧ Actual servidor_a raiz s := by
  have h0 : Reachable Inicial (Guarded (Oportuno servidor_a raiz) (Paso servidor_a raiz)) vacio :=
    reachable_init inicial_vacio
  have h1 := reachable_step (a := Suceso.lee true) h0
    ⟨show raiz.length < 40 by decide, .lee rfl rfl⟩
  have h2 := reachable_step (a := Suceso.sigue true) h1 ⟨trivial, .avanza rfl⟩
  have h3 := reachable_step (a := Suceso.sigue true) h2 ⟨trivial, .avanza rfl⟩
  have h4 := reachable_step (a := Suceso.sigue true) h3
    ⟨Or.inl (vigente_clave (q := .listado raiz).mpr rfl), .avanza rfl⟩
  have h5 := reachable_step (a := Suceso.sigue true) h4 ⟨trivial, .sale rfl⟩
  exact ⟨_, by decide, listado_actual h5 (by unfold Quieto; decide)⟩

/-- One thread asks for the listing, the other creates a file and deletes the key, and only
then is the old listing inserted. -/
theorem listado_rancio : ∃ s : Sistema (Option Nat) Bool,
    Reachable Inicial (Paso servidor_a raiz) s ∧ Quieto s ∧ ¬ Actual servidor_a raiz s := by
  have h0 : Reachable Inicial (Paso servidor_a raiz) vacio := reachable_init inicial_vacio
  have h1 := reachable_step (a := Suceso.lee true) h0 (.lee rfl rfl)
  have h2 := reachable_step (a := Suceso.sigue true) h1 (.avanza rfl)
  have h3 := reachable_step (a := Suceso.sigue true) h2 (.avanza rfl)
  have h4 := reachable_step (a := Suceso.cambia false (.crear_archivo ruta_a 0)) h3
    (.cambia (by unfold Cambio; decide) rfl rfl)
  have h5 := reachable_step (a := Suceso.sigue false) h4 (.avanza rfl)
  have h6 := reachable_step (a := Suceso.sigue false) h5 (.avanza rfl)
  have h7 := reachable_step (a := Suceso.sigue false) h6 (.sale rfl)
  have h8 := reachable_step (a := Suceso.sigue true) h7 (.avanza rfl)
  have h9 := reachable_step (a := Suceso.sigue true) h8 (.sale rfl)
  refine ⟨_, h9, by unfold Quieto; decide, ?_⟩
  intro h
  have hvig := vigente_clave (q := .listado raiz).mp (h _ rfl)
  revert hvig
  decide

end LaLiga.Fsc.Concurrencia
