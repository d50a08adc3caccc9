import LaLiga.Rc.Claves

/-! Clients that set keys: one element a key, and a value under it that its client has stored. -/
namespace LaLiga.Rc

open LaLiga.Lib t_diccionario

def Modo.NoJunta : Modo → t_diccionario → Operacion → Prop
  | .ParticionesDinamicas, d, c => LaLiga.Rc.NoJunta d c
  | .BuddySystem, _, _ => True

/-- No client sets a key that is reserved, and a client stores what it still has. -/
def Sucesivos (d : t_diccionario) : Operacion → Prop
  | .allocate key nkey _ _ => ∀ p, EnLista d p → MismaClave d p key nkey →
      (d.node p).ocupado = true
  | .store item _ => EnLista d item ∧ (d.node item).nkey ≠ 0
  | _ => True

/-- The calls and writes that keep the keys apart. -/
def Publicable (m : Modo) (d : t_diccionario) : Evento → Prop
  | .llama c => m.Permitida d c ∧ m.NoJunta d c ∧ Sucesivos d c
  | .escribe item _ _ => EnLista d item ∧ (d.node item).ocupado = false

/-- What holds between the calls. -/
structure Sano (m : Modo) (max slab : Nat) (d : t_diccionario) : Prop where
  bien : m.Bien max slab d
  enlistadas : Enlistadas d
  unicas : Unicas d

section Steps

variable {m : Modo} {d d₁ e : t_diccionario} {l ps : List Ptr} {p q item : Ptr} {r : Option Ptr}
  {max slab n nkey turnos : Nat} {key : Nat → UInt8} {flags hora : Int} {c : Operacion}
  {ev : Evento} {evs : List Evento}

theorem MismaClave.of_both (hp : MismaClave d p key nkey) (hq : MismaClave d q key nkey) :
    MismaClave d q (d.node p).key (d.node p).nkey := by
  obtain ⟨hnp, hkp⟩ := hp
  obtain ⟨hnq, hkq⟩ := hq
  refine ⟨hnq.trans hnp.symm, ?_⟩
  intro i hi
  rw [hnp] at hi
  rw [hkq i hi, hkp i hi]

/-- The search by key finds the one element that has it. -/
theorem obtener_unica (hl : Listas d l ps) (hu : Unicas d) (hin : q ∈ l) (hpos : nkey ≠ 0)
    (hc : MismaClave d q key nkey) : diccionario_obtener d key nkey = .ok (some q) := by
  have hall : ∀ p ∈ l, d.allocated p = true := fun _ => hl.allocated
  unfold diccionario_obtener
  rw [buscar_eq hl.dlist.next hl.head (Nat.lt_succ_iff.mp hl.length_lt_turns)]
  cases hfind : l.find? (fun p => (d.node p).nkey != 0 && (d.node p).nkey == nkey &&
      (List.range nkey).all (fun i => (d.node p).key i == key i)) with
  | none =>
    have hno := List.find?_eq_none.mp hfind q hin
    simp only [Bool.and_eq_true, bne_iff_ne, ne_eq, beq_iff_eq, List.all_eq_true,
      List.mem_range, not_and] at hno
    exact absurd hc.2 (hno ⟨by rw [hc.1]; exact hpos, hc.1⟩)
  | some p =>
    have hp := List.find?_some hfind
    simp only [Bool.and_eq_true, bne_iff_ne, ne_eq, beq_iff_eq, List.all_eq_true,
      List.mem_range] at hp
    have hpl := List.mem_of_find?_eq_some hfind
    have hpc : MismaClave d p key nkey := ⟨hp.1.2, hp.2⟩
    rw [hu p q (hall p hpl) (hall q hin) hp.1.1 (hpc.of_both hc)]

theorem Sano.obtener (h : Sano m max slab d) (hin : EnLista d q) (hpos : nkey ≠ 0)
    (hc : MismaClave d q key nkey) : diccionario_obtener d key nkey = .ok (some q) := by
  obtain ⟨l, ps, hl, hmem⟩ := hin
  exact obtener_unica hl h.unicas hmem hpos hc

theorem MismaClave.propia : MismaClave d q (d.node q).key (d.node q).nkey := ⟨rfl, fun _ _ => rfl⟩

/-- Keys that persist stay different. -/
theorem Persiste.unicas (h : Persiste none d e) (hu : Unicas d) : Unicas e := by
  intro p q hp hq hkey hc
  have hpd := (h.allocated p).symm.trans hp
  have hqd := (h.allocated q).symm.trans hq
  have hpc : MismaClave d p (e.node p).key (e.node p).nkey := h.misma hpd (by simp) hkey .propia
  have hqc : MismaClave d q (e.node p).key (e.node p).nkey := h.misma hqd (by simp) hkey hc
  exact hu p q hpd hqd (by rw [hpc.1]; exact hkey) (hpc.of_both hqc)

/-- The key that is set is one that no other element has. -/
theorem Sano.unicas_allocate (h : Sano m max slab d) (hp₁ : Persiste none d d₁)
    (hp : Persiste r d₁ e)
    (hcero : ∀ it, diccionario_obtener d key nkey = .ok (some it) → (d.node it).ocupado = true →
      (d₁.node it).nkey = 0)
    (hnew : ∀ it, r = some it → MismaClave e it key nkey) (hpos : nkey ≠ 0)
    (hno : ∀ p, EnLista d p → MismaClave d p key nkey → (d.node p).ocupado = true) :
    Unicas e := by
  have hall : ∀ q, e.allocated q = true → d.allocated q = true := fun q hq =>
    ((hp₁.allocated q).symm.trans (hp.allocated q).symm).trans hq
  -- nothing else has the key any more
  have hother : ∀ q, e.allocated q = true → r ≠ some q → ¬ MismaClave e q key nkey := by
    intro q hq hne hc
    have hqd := hall q hq
    have hq₁ := (hp₁.allocated q).trans hqd
    have hc₁ := hp.misma hq₁ hne hpos hc
    have hcd := hp₁.misma hqd (by simp) hpos hc₁
    have hin := h.enlistadas q hqd (by rw [hcd.1]; exact hpos)
    have hzero := hcero q (h.obtener hin hpos hcd) (hno q hin hcd)
    rw [hc₁.1] at hzero
    exact hpos hzero
  intro p q hpe hqe hkey hc
  by_cases hpr : r = some p
  · have hpk := hnew p hpr
    by_contra hne
    have hqr : r ≠ some q := by
      rw [hpr]
      exact fun heq => hne (Option.some.inj heq)
    refine hother q hqe hqr ⟨hc.1.trans hpk.1, ?_⟩
    intro i hi
    rw [hc.2 i (by rw [hpk.1]; exact hi), hpk.2 i hi]
  · by_cases hqr : r = some q
    · have hqk := hnew q hqr
      refine absurd ⟨hc.1.symm.trans hqk.1, ?_⟩ (hother p hpe hpr)
      intro i hi
      rw [← hc.2 i (by rw [← hc.1, hqk.1]; exact hi), hqk.2 i hi]
    · have hpd := hall p hpe
      have hqd := hall q hqe
      have hboth : ∀ x, d.allocated x = true → r ≠ some x →
          MismaClave e x (e.node p).key (e.node p).nkey →
          MismaClave d x (e.node p).key (e.node p).nkey := fun x hx hxr hxc =>
        hp₁.misma hx (by simp) hkey (hp.misma ((hp₁.allocated x).trans hx) hxr hkey hxc)
      have hpc := hboth p hpd hpr .propia
      exact h.unicas p q hpd hqd (by rw [hpc.1]; exact hkey) (hpc.of_both (hboth q hqd hqr hc))

theorem Sano.tiene (h : Sano m max slab d) (hq : d.allocated q = true)
    (hkey : (d.node q).nkey ≠ 0) : Tiene m max slab d q :=
  .of_lista h.bien (h.enlistadas q hq hkey) (enUso_of_nkey hkey)

theorem Sano.of_intacta (h : Sano m max slab d) (hb : m.Bien max slab e)
    (hi : ∀ q, Intacta d q e) : Sano m max slab e := by
  have hall : ∀ q, e.allocated q = d.allocated q := fun q => h.bien.allocated hb
  have hk : ∀ q, (e.node q).key = (d.node q).key := fun q =>
    (hi q).igual t_dict_element.key fun _ => rfl
  refine ⟨hb, ?_, ?_⟩
  · intro q hq hkey
    have ht := h.tiene ((hall q).symm.trans hq) ((hi q).nkey ▸ hkey)
    exact (ht.intacta hb (hi q) (hall q)).en_lista
  · intro p q hp hq hkey hc
    rw [(hi p).nkey, hk p] at hc
    refine h.unicas p q ((hall p).symm.trans hp) ((hall q).symm.trans hq) ((hi p).nkey ▸ hkey)
      ⟨(hi q).nkey.symm.trans hc.1, ?_⟩
    rw [← hk q]
    exact hc.2

theorem Sano.of_persiste (h : Sano m max slab d) (hb : m.Bien max slab e)
    (hp : Persiste none d e) : Sano m max slab e := by
  refine ⟨hb, ?_, hp.unicas h.unicas⟩
  intro q hq hkey
  have hqd := (hp.allocated q).symm.trans hq
  have hi := (hp.quieta q hqd (by simp) hkey).intacta
  exact ((h.tiene hqd (hi.nkey ▸ hkey)).intacta hb hi (hp.allocated q)).en_lista

theorem Sano.con_mem {datos : Nat → UInt8} (h : Sano m max slab d) :
    Sano m max slab { d with mem := datos } := by
  refine ⟨h.bien.con_mem, ?_, h.unicas⟩
  intro q hq hkey
  obtain ⟨l, ps, hl, hmem⟩ := h.enlistadas q hq hkey
  exact ⟨l, ps, hl.con_mem, hmem⟩

/-- What a call leaves stored was there and stored, but for what `store` marks. -/
def Guardan (d : t_diccionario) (c : Operacion) (e : t_diccionario) : Prop :=
  ∀ q, d.allocated q = true → (e.node q).nkey ≠ 0 → (e.node q).ocupado = true →
    Intacta d q e ∧ ((d.node q).ocupado = true ∨ ∃ hora, c = .store q hora)

theorem Persiste.guardan (h : Persiste none d e) : Guardan d c e := by
  intro q hq hkey hstored
  have hquiet := h.quieta q hq (by simp) hkey
  exact ⟨hquiet.intacta, Or.inl (hquiet.ocupado ▸ hstored)⟩

theorem Modo.allocate_persiste (h : m.Bien max slab d) (he : Enlistadas d)
    (hc : m.Permitida d (.allocate key nkey n flags))
    (hg : m.NoJunta d (.allocate key nkey n flags))
    (hok : justice_engine_allocate m.esquema turnos d key nkey n flags = .ok (e, r)) :
    ∃ d₁, Persiste none d d₁ ∧ Persiste r d₁ e ∧
      ∀ it, diccionario_obtener d key nkey = .ok (some it) → (d.node it).ocupado = true →
        (d₁.node it).nkey = 0 := by
  cases m with
  | ParticionesDinamicas =>
    have hr : Rotulada max slab d := ⟨h, he⟩
    exact (hr.allocate hc hg hok).2
  | BuddySystem => exact allocate_buddy_persiste h hc.1 hok

theorem Modo.quitar_persiste (h : m.Bien max slab d) (he : Enlistadas d) (hc : m.Permitida d c)
    (hg : m.NoJunta d c)
    (hkind : (∃ key nkey, c = .remove key nkey) ∨ c = .flush ∨ ∃ item, c = .release item)
    (hok : Ejecuta m.esquema d c e) : Persiste none d e := by
  cases m with
  | ParticionesDinamicas =>
    have hr : Rotulada max slab d := ⟨h, he⟩
    exact (hr.quitar hc hg hkind hok).2
  | BuddySystem => exact quitar_buddy_persiste h hc hkind hok

theorem Modo.Permitida.nkey_pos (h : m.Permitida d (.allocate key nkey n flags)) : nkey ≠ 0 := by
  cases m with
  | ParticionesDinamicas => exact Nat.pos_iff_ne_zero.mp h.1.1
  | BuddySystem => exact Nat.pos_iff_ne_zero.mp h.1.1

theorem Sano.allocate (h : Sano m max slab d) (hc : m.Permitida d (.allocate key nkey n flags))
    (hg : m.NoJunta d (.allocate key nkey n flags))
    (hs : Sucesivos d (.allocate key nkey n flags))
    (hok : justice_engine_allocate m.esquema turnos d key nkey n flags = .ok (e, r)) :
    Sano m max slab e ∧ Guardan d (.allocate key nkey n flags) e := by
  have hb : m.Bien max slab e :=
    h.bien.step ⟨hc, turnos, by simp [ejecutar, hok, Except.map]⟩
  obtain ⟨d₁, hp₁, hp, hcero⟩ := m.allocate_persiste h.bien h.enlistadas hc hg hok
  have hnew : ∀ it, r = some it → Tiene m max slab e it ∧ Entregada e it key nkey n flags := by
    rintro it rfl
    exact allocate_tiene h.bien hc hok
  have hpe := hp₁.trans hp
  refine ⟨⟨hb, ?_, h.unicas_allocate hp₁ hp hcero (fun it hit => (hnew it hit).2.clave)
    hc.nkey_pos hs⟩, ?_⟩
  · intro q hq hkey
    by_cases hqr : r = some q
    · exact (hnew q hqr).1.en_lista
    · have hqd := (hpe.allocated q).symm.trans hq
      have hi := (hpe.quieta q hqd hqr hkey).intacta
      exact ((h.tiene hqd (hi.nkey ▸ hkey)).intacta hb hi (hpe.allocated q)).en_lista
  · intro q hq hkey hstored
    have hqr : r ≠ some q := by
      intro hqr
      rw [(hnew q hqr).2.reservado] at hstored
      exact absurd hstored (by simp)
    have hquiet := hpe.quieta q hq hqr hkey
    exact ⟨hquiet.intacta, Or.inl (hquiet.ocupado ▸ hstored)⟩

/-- Each call that meets the conditions keeps the keys apart and what is stored. -/
theorem Sano.llama (h : Sano m max slab d) (hc : m.Permitida d c) (hg : m.NoJunta d c)
    (hs : Sucesivos d c) (hok : Ejecuta m.esquema d c e) :
    Sano m max slab e ∧ Guardan d c e := by
  have hb := h.bien.step ⟨hc, hok⟩
  have hremove : ((∃ key nkey, c = .remove key nkey) ∨ c = .flush ∨ ∃ item, c = .release item) →
      Sano m max slab e ∧ Guardan d c e := by
    intro hkind
    have hp := m.quitar_persiste h.bien h.enlistadas hc hg hkind hok
    exact ⟨h.of_persiste hb hp, hp.guardan⟩
  obtain ⟨turnos, hok⟩ := hok
  cases c with
  | allocate key nkey n flags =>
    obtain ⟨r, hok⟩ := exists_of_map_fst hok
    exact h.allocate hc hg hs hok
  | store item hora =>
    obtain ⟨r, hok⟩ := exists_of_map_fst hok
    refine ⟨h.of_intacta hb fun q => (store_intacta hok).1, ?_⟩
    intro q _ _ hstored
    obtain ⟨hi, hsame⟩ := store_intacta (p := q) hok
    refine ⟨hi, ?_⟩
    by_cases hpub : Publica d (.store item hora) q
    · obtain ⟨item', hora', heq, hobt⟩ := hpub
      obtain ⟨rfl, rfl⟩ := Operacion.store.inj heq
      rw [h.obtener hs.1 hs.2 .propia] at hobt
      obtain rfl := Option.some.inj (Except.ok.inj hobt)
      exact Or.inr ⟨hora, rfl⟩
    · exact Or.inl ((hsame hpub).symm.trans hstored)
  | get key nkey hora =>
    obtain ⟨r, hok⟩ := exists_of_map_fst hok
    refine ⟨h.of_intacta hb fun q => (get_intacta hok).1, ?_⟩
    intro q _ _ hstored
    obtain ⟨hi, hsame⟩ := get_intacta (p := q) hok
    refine ⟨hi, Or.inl ((hsame ?_).symm.trans hstored)⟩
    rintro ⟨item, hora', heq, -⟩
    cases heq
  | remove key nkey => exact hremove (Or.inl ⟨key, nkey, rfl⟩)
  | flush => exact hremove (Or.inr (Or.inl rfl))
  | release item => exact hremove (Or.inr (Or.inr ⟨item, rfl⟩))

theorem sano_creada (h : m.Creada max slab d) :
    Sano m max slab d ∧ ∀ q, d.allocated q = true → (d.node q).nkey = 0 := by
  have hzero : ∀ q, d.allocated q = true → (d.node q).nkey = 0 := by
    intro q hq
    cases m with
    | ParticionesDinamicas =>
      obtain ⟨-, -, -, basura, rfl⟩ := h
      cases q with
      | element => rfl
      | slot i =>
        have hi : i + 1 < max / slab := of_decide_eq_true hq
        simp [diccionario_crear, inicializarElementos, cant_max, hi]
    | BuddySystem =>
      obtain ⟨K, rfl, hc⟩ := h
      exact (creado_limpio hc hq).nkey
  refine ⟨⟨m.bien_creada h, ?_, ?_⟩, hzero⟩
  · intro q hq hkey
    exact absurd (hzero q hq) hkey
  · intro p q hp _ hkey
    exact absurd (hzero p hp) hkey

/-- `store` was called on the element itself, and nothing has changed it since. -/
def Publicado (m : Modo) (max slab : Nat) (d : t_diccionario) (q : Ptr) : Prop :=
  ∃ d₁ hora e₁ evs, Reachable (m.Creada max slab) (Guarded (Publicable m) (Ocurre m.esquema)) d₁ ∧
    EnLista d₁ q ∧ Ejecuta m.esquema d₁ (.store q hora) e₁ ∧
    Trace (Guarded (Publicable m) (Ocurre m.esquema)) e₁ evs d ∧ Intacta d₁ q d

theorem Publicado.snoc (h : Publicado m max slab d q)
    (hs : Guarded (Publicable m) (Ocurre m.esquema) d ev e) (hi : Intacta d q e) :
    Publicado m max slab e q := by
  obtain ⟨d₁, hora, e₁, evs, hr, hin, hok, hx, hi₁⟩ := h
  exact ⟨d₁, hora, e₁, _, hr, hin, hok, hx.snoc hs, hi₁.trans hi⟩

/-- What holds in every state that the clients can reach. -/
structure Publicados (m : Modo) (max slab : Nat) (d : t_diccionario) : Prop where
  alcanzable : Reachable (m.Creada max slab) (Guarded (Publicable m) (Ocurre m.esquema)) d
  sano : Sano m max slab d
  publicado : ∀ q, d.allocated q = true → (d.node q).nkey ≠ 0 → (d.node q).ocupado = true →
    Publicado m max slab d q

theorem publicados_step (h : Publicados m max slab d)
    (hs : Guarded (Publicable m) (Ocurre m.esquema) d ev e) : Publicados m max slab e := by
  have hr := reachable_step h.alcanzable hs
  obtain ⟨hguard, hok⟩ := id hs
  cases hok with
  | @llama _ c hok =>
    obtain ⟨hc, hg, hsuc⟩ := hguard
    obtain ⟨hsano, hstored⟩ := h.sano.llama hc hg hsuc hok
    refine ⟨hr, hsano, ?_⟩
    intro q hq hkey hocupado
    have hqd := (h.sano.bien.allocated hsano.bien).symm.trans hq
    obtain ⟨hi, hbefore | ⟨hora, rfl⟩⟩ := hstored q hqd hkey hocupado
    · exact (h.publicado q hqd (hi.nkey ▸ hkey) hbefore).snoc hs hi
    · exact ⟨d, hora, e, [], h.alcanzable, hsuc.1, hok, .refl, hi⟩
  | @escribe item i o b ho hlt =>
    obtain ⟨hin, hreserved⟩ := hguard
    refine ⟨hr, h.sano.con_mem, ?_⟩
    intro q hq hkey hocupado
    have hne : item ≠ q := by
      rintro rfl
      rw [hreserved] at hocupado
      exact absurd hocupado (by simp)
    have hi := ((h.sano.tiene hq hkey).escribe (b := b) hin hne ho hlt).intacta
    exact (h.publicado q hq hkey hocupado).snoc hs hi

theorem publicados_alcanzable
    (h : Reachable (m.Creada max slab) (Guarded (Publicable m) (Ocurre m.esquema)) d) :
    Publicados m max slab d := by
  refine h.invariant (fun d hd => ?_) fun _ _ _ hd hstep => publicados_step hd hstep
  obtain ⟨hs, hzero⟩ := sano_creada hd
  exact ⟨reachable_init hd, hs, fun q hq hkey _ => absurd (hzero q hq) hkey⟩

end Steps

/-- No two elements share a key, `store` marks the element that it is given, and what is found
under a key is what was there when its client stored it. -/
theorem valor_publicado {m : Modo} {d : t_diccionario} {max slab : Nat}
    (h : Reachable (m.Creada max slab) (Guarded (Publicable m) (Ocurre m.esquema)) d) :
    (∀ p q, EnLista d p → EnLista d q → (d.node p).nkey ≠ 0 →
      MismaClave d q (d.node p).key (d.node p).nkey → p = q) ∧
    (∀ item hora, EnLista d item → (d.node item).nkey ≠ 0 → justice_engine_store d item hora =
      .ok (d.modificar item (fun e => { e with ocupado := true, hour := hora }), true)) ∧
    ∀ key nkey hora e q, justice_engine_get d key nkey hora = .ok (e, some q) →
      MismaClave d q key nkey ∧ Publicado m max slab d q := by
  have hp := publicados_alcanzable h
  refine ⟨?_, ?_, ?_⟩
  · intro p q hin hin' hkey hc
    exact hp.sano.unicas p q hin.allocated hin'.allocated hkey hc
  · intro item hora hin hkey
    have hobt := hp.sano.obtener hin hkey .propia
    simp only [justice_engine_store, hobt]
  · intro key nkey hora e q hget
    obtain ⟨hobt, hocupado⟩ := get_some hget
    obtain ⟨l, ps, hc⟩ := hp.sano.bien.comun
    obtain ⟨hmem, hkey, hclave⟩ := obtener_en_lista hc.listas hobt
    exact ⟨hclave, hp.publicado q (hc.listas.allocated hmem) hkey hocupado⟩

/-- A key is set in the buddy system and found. -/
theorem valor_publicado_uno : ∃ d e,
    justice_engine_get d (fun _ => 97) 1 2 = .ok (e, some .element) ∧
    Publicado .BuddySystem 4 1 d .element := by
  obtain ⟨d₁, d, e, hallocate, hstore, hget⟩ : ∃ d₁ d e,
      justice_engine_allocate BuddySystem 1 (diccionario_crear_buddy default 4 1) (fun _ => 97)
        1 1 0 = .ok (d₁, some .element) ∧
      ejecutar BuddySystem 0 d₁ (.store .element 1) = .ok d ∧
      justice_engine_get d (fun _ => 97) 1 2 = .ok (e, some .element) :=
    ⟨_, _, _, rfl, rfl, rfl⟩
  have hcreada : Modo.BuddySystem.Creada 4 1 (diccionario_crear_buddy default 4 1) :=
    ⟨2, rfl, by decide, by decide, default, rfl⟩
  have hpermitida : PermitidaBuddy (diccionario_crear_buddy default 4 1)
      (.allocate (fun _ => 97) 1 1 0) :=
    ⟨by simp [Pedido, KEY_SIZE_MAX], fun item hitem => by cases hitem⟩
  have hfirst : Publicable .BuddySystem (diccionario_crear_buddy default 4 1)
      (.llama (.allocate (fun _ => 97) 1 1 0)) := by
    refine ⟨hpermitida, trivial, ?_⟩
    intro p hin hc
    have hzero := (sano_creada hcreada).2 p hin.allocated
    rw [hc.1] at hzero
    exact absurd hzero (by decide)
  obtain ⟨ht, he⟩ := allocate_tiene (m := .BuddySystem) (Modo.bien_creada hcreada) hpermitida
    hallocate
  have hsecond : Publicable .BuddySystem d₁ (.llama (.store .element 1)) :=
    ⟨⟨trivial, fun item hitem => by cases hitem⟩, trivial, ht.en_lista, by rw [he.clave.1]; decide⟩
  have hreach : Reachable (Modo.BuddySystem.Creada 4 1)
      (Guarded (Publicable .BuddySystem) (Ocurre Modo.BuddySystem.esquema)) d := by
    have hcall : Ejecuta BuddySystem (diccionario_crear_buddy default 4 1)
        (.allocate (fun _ => 97) 1 1 0) d₁ :=
      ⟨1, by simp only [ejecutar, hallocate, Except.map]⟩
    exact reachable_step (reachable_step (reachable_init hcreada) ⟨hfirst, .llama hcall⟩)
      ⟨hsecond, .llama ⟨0, hstore⟩⟩
  exact ⟨d, e, hget, ((valor_publicado hreach).2.2 _ _ _ e _ hget).2⟩

/-- Two clients set one key at a time: both have an element for it, and what the second one
stores marks the element of the first. -/
theorem claves_repetidas : ∃ d, Reachable (Creada 8 4) (Ejecuta ParticionesDinamicas) d ∧
    EnLista d .element ∧ EnLista d (.slot 0) ∧ (d.node .element).nkey ≠ 0 ∧
    MismaClave d (.slot 0) (d.node .element).key (d.node .element).nkey ∧
    ∃ e, justice_engine_store d (.slot 0) 1 = .ok (e, true) ∧
      (e.node .element).ocupado = true ∧ (e.node (.slot 0)).ocupado = false := by
  have hcreada : Creada 8 4 (diccionario_crear default 8 4) :=
    ⟨by decide, by decide, by decide, default, rfl⟩
  obtain ⟨d, e, hsets, hl, hkey, hkey', hstore, hfirst, hsecond⟩ : ∃ d e,
      correr ParticionesDinamicas 1 (diccionario_crear default 8 4)
        [.allocate (fun _ => 97) 1 4 0, .allocate (fun _ => 97) 1 4 0] = .ok d ∧
      Listas d [.element, .slot 0] [] ∧
      ((d.node .element).nkey = 1 ∧ (d.node .element).key 0 = 97) ∧
      ((d.node (.slot 0)).nkey = 1 ∧ (d.node (.slot 0)).key 0 = 97) ∧
      justice_engine_store d (.slot 0) 1 = .ok (e, true) ∧
      (e.node .element).ocupado = true ∧ (e.node (.slot 0)).ocupado = false :=
    ⟨_, _, rfl, ⟨⟨by simp, ⟨rfl, rfl, trivial⟩, ⟨rfl, rfl, trivial⟩⟩, rfl, ⟨rfl, trivial⟩, rfl,
      .refl _⟩, ⟨rfl, rfl⟩, ⟨rfl, rfl⟩, rfl, rfl, rfl⟩
  refine ⟨d, ⟨_, _, hcreada, correr_trace hsets⟩, ⟨_, _, hl, by simp⟩, ⟨_, _, hl, by simp⟩,
    by rw [hkey.1]; decide, ⟨hkey'.1.trans hkey.1.symm, ?_⟩, e, hstore, hfirst, hsecond⟩
  intro i hi
  rw [hkey.1] at hi
  obtain rfl : i = 0 := by omega
  rw [hkey.2, hkey'.2]

end LaLiga.Rc
