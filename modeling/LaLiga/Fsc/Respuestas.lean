import LaLiga.Commons.Sockete
import LaLiga.Fsc.Operaciones

/-! The replies with a payload, from the encoder of the server to the decoder of FSC. -/
namespace LaLiga.Fsc

open LaLiga.Lib LaLiga.Serializadores LaLiga.Sockete

/-- `recibir_header` on the connection, with a buffer of three bytes. -/
def Recibe_header (k : Nat → Nat) (flujo : List UInt8) (h : t_header) (resto : List UInt8) : Prop :=
  ∃ fin, sockete_recibir k 3 flujo fin ∧ fin.mensaje_recibido.length ≤ 3 ∧
    recibir_header fin.mensaje_recibido = some (h, []) ∧ fin.flujo = resto

/-- `recibir_paquete` on the connection, with a buffer of `longitud` zeros. -/
def Recibe_paquete (k : Nat → Nat) (longitud : Nat) (flujo payload resto : List UInt8) : Prop :=
  ∃ fin, sockete_recibir k (UInt32.ofNat longitud) flujo fin ∧
    fin.mensaje_recibido.length ≤ longitud ∧
    payload = fin.mensaje_recibido ++
      List.replicate (longitud - fin.mensaje_recibido.length) 0 ∧ fin.flujo = resto

structure t_respuesta_leer_archivo where
  bytes_leidos : Nat
  buffer : List UInt8

/-- As many bytes are copied as 32 bits of the count say. -/
def deserializar_respuesta_leer_archivo (stream : List UInt8) :
    Except Fallo t_respuesta_leer_archivo :=
  let bytes_leidos := ofLe (stream.take 8)
  let copiados := bytes_leidos % 2 ^ 32
  if 8 + copiados ≤ stream.length then .ok ⟨bytes_leidos, (stream.drop 8).take copiados⟩
  else .error .indefinido

/-- Some call of `recv` brings the last of `n` bytes and no more, with `m` in the connection. -/
def Completa (k : Nat → Nat) (n m : Nat) : Prop := ∃ i, recibidos k n m (i + 1) = n

variable {k k₁ k₂ : Nat → Nat} {tipo : Int8} {n : Nat} {h : t_header}
  {payload p resto r buffer : List UInt8} {entries : List (List UInt8)}

/-- The reader of the header takes it and nothing else. -/
theorem recibe_header_iff (hn : n < 2 ^ 16) : Recibe_header k (header tipo n ++ resto) h r ↔
    Completa k 3 (3 + resto.length) ∧ h = ⟨tipo, n⟩ ∧ r = resto := by
  have hthree : (header tipo n).length = 3 := rfl
  have hlen : (header tipo n ++ resto).length = 3 + resto.length := by
    rw [List.length_append, hthree]
  have htake : (header tipo n ++ resto).take 3 = header tipo n := List.take_left' hthree
  have hdrop : (header tipo n ++ resto).drop 3 = resto := List.drop_left' hthree
  have hparse : recibir_header (header tipo n) = some (⟨tipo, n⟩, []) := by
    have hself : recibir_header (header tipo n ++ []) = some (⟨tipo, n⟩, []) :=
      recibir_header_append hn
    rwa [List.append_nil] at hself
  have hle : (3 : UInt32).toNat ≤ (header tipo n ++ resto).length := by
    rw [hlen]
    exact Nat.le_add_right ..
  have hexact := recibeExacto_iff (k := k) hle
  rw [hlen] at hexact
  constructor
  · rintro ⟨fin, hfin, hfits, hheader, hrest⟩
    obtain ⟨hbuf, hflujo⟩ := recibeExacto_of_fits hfin (by decide) hle hfits
    have hcompleta := hexact.mp ⟨fin, hfin, hbuf, hflujo⟩
    have hbuf : fin.mensaje_recibido = header tipo n := hbuf.trans htake
    have hflujo : fin.flujo = resto := hflujo.trans hdrop
    rw [hbuf, hparse] at hheader
    have heq := Option.some.inj hheader
    exact ⟨hcompleta, (congrArg Prod.fst heq).symm, hrest.symm.trans hflujo⟩
  · rintro ⟨hcompleta, rfl, rfl⟩
    obtain ⟨fin, hfin, hbuf, hflujo⟩ := hexact.mpr hcompleta
    have hbuf : fin.mensaje_recibido = header tipo n := hbuf.trans htake
    refine ⟨fin, hfin, ?_, ?_, hflujo.trans hdrop⟩
    · rw [hbuf, hthree]
    · rw [hbuf]
      exact hparse

/-- The reader of the payload takes as many bytes as the header announces. -/
theorem recibe_paquete_iff (hpos : 0 < payload.length) (hlong : payload.length < 2 ^ 16) :
    Recibe_paquete k payload.length (payload ++ resto) p r ↔
      Completa k payload.length (payload.length + resto.length) ∧ p = payload ∧ r = resto := by
  have hnat : (UInt32.ofNat payload.length).toNat = payload.length := by
    rw [UInt32.toNat_ofNat']
    omega
  have hlen : (payload ++ resto).length = payload.length + resto.length := List.length_append
  have hle : (UInt32.ofNat payload.length).toNat ≤ (payload ++ resto).length := by omega
  have hexact := recibeExacto_iff (k := k) hle
  rw [hnat, hlen] at hexact
  constructor
  · rintro ⟨fin, hfin, hfits, rfl, hrest⟩
    obtain ⟨hbuf, hflujo⟩ := recibeExacto_of_fits hfin (by omega) hle (hfits.trans_eq hnat.symm)
    have hcompleta := hexact.mp ⟨fin, hfin, hbuf, hflujo⟩
    rw [hnat, List.take_left] at hbuf
    rw [hnat, List.drop_left] at hflujo
    refine ⟨hcompleta, ?_, hrest.symm.trans hflujo⟩
    rw [hbuf, Nat.sub_self, List.replicate_zero, List.append_nil]
  · rintro ⟨hcompleta, rfl, rfl⟩
    obtain ⟨fin, hfin, hbuf, hflujo⟩ := hexact.mpr hcompleta
    rw [hnat, List.take_left] at hbuf
    rw [hnat, List.drop_left] at hflujo
    refine ⟨fin, hfin, hbuf ▸ le_rfl, ?_, hflujo⟩
    rw [hbuf, Nat.sub_self, List.replicate_zero, List.append_nil]

/-- A frame is received as it was sent. -/
theorem recibe_trama (hn : payload.length = n) (hpos : 0 < n) (hlong : n < 2 ^ 16) :
    (∃ flujo, Recibe_header k₁ (header tipo n ++ payload ++ resto) h flujo ∧
      Recibe_paquete k₂ h.longitud flujo p r) ↔
    (Completa k₁ 3 (3 + (n + resto.length)) ∧ Completa k₂ n (n + resto.length)) ∧
      h = ⟨tipo, n⟩ ∧ p = payload ∧ r = resto := by
  subst hn
  have hlen : (payload ++ resto).length = payload.length + resto.length := List.length_append
  constructor
  · rintro ⟨flujo, hheader, hpaquete⟩
    rw [List.append_assoc] at hheader
    obtain ⟨hcompleta, rfl, rfl⟩ := (recibe_header_iff hlong).mp hheader
    obtain ⟨hcompleta', rfl, rfl⟩ := (recibe_paquete_iff hpos hlong).mp hpaquete
    rw [hlen] at hcompleta
    exact ⟨⟨hcompleta, hcompleta'⟩, rfl, rfl, rfl⟩
  · rintro ⟨⟨hcompleta, hcompleta'⟩, rfl, rfl, rfl⟩
    refine ⟨p ++ r, ?_, (recibe_paquete_iff hpos hlong).mpr ⟨hcompleta', rfl, rfl⟩⟩
    rw [List.append_assoc]
    refine (recibe_header_iff hlong).mpr ⟨?_, rfl, rfl⟩
    rwa [hlen]

/-- What was read reaches FSC: the encoder writes in its frame, the frame is taken from the
connection and nothing behind it, and the same bytes come out with their count. -/
def Lectura_sobrevive (k₁ k₂ : Nat → Nat) (tipo : Int8) (buffer resto : List UInt8) : Prop :=
  ∃ stream h payload,
    serializar_respuesta_leer_archivo tipo buffer.length buffer = .ok stream ∧
    (∃ flujo, Recibe_header k₁ (stream ++ resto) h flujo ∧
      Recibe_paquete k₂ h.longitud flujo payload resto) ∧
    deserializar_respuesta_leer_archivo payload = .ok ⟨buffer.length, buffer⟩

theorem deserializar_leer_archivo_eq (hlong : buffer.length < 2 ^ 32) :
    deserializar_respuesta_leer_archivo (le 8 buffer.length ++ buffer) =
      .ok ⟨buffer.length, buffer⟩ := by
  have hlen : (le 8 buffer.length ++ buffer).length = 8 + buffer.length := by simp
  have htake : (le 8 buffer.length ++ buffer).take 8 = le 8 buffer.length :=
    List.take_left' le_length
  have hdrop : (le 8 buffer.length ++ buffer).drop 8 = buffer := List.drop_left' le_length
  have hcount : ofLe (le 8 buffer.length) = buffer.length := ofLe_le_of_lt (by omega)
  simp only [deserializar_respuesta_leer_archivo, htake, hdrop, hcount, hlen,
    Nat.mod_eq_of_lt hlong, le_refl, if_true, List.take_length]

/-- The reply to a read survives when its length and the eight bytes of the count fit in 16 bits
and no call of `recv` reads on into what follows. -/
theorem lectura_sobrevive_iff (k₁ k₂ : Nat → Nat) (tipo : Int8) (buffer resto : List UInt8) :
    Lectura_sobrevive k₁ k₂ tipo buffer resto ↔ 8 + buffer.length < 2 ^ 16 ∧
      Completa k₁ 3 (3 + (8 + buffer.length + resto.length)) ∧
      Completa k₂ (8 + buffer.length) (8 + buffer.length + resto.length) := by
  have hlen : (le 8 buffer.length ++ buffer).length = 8 + buffer.length := by simp
  by_cases hlong : 8 + buffer.length < 2 ^ 16
  · have hencode : serializar_respuesta_leer_archivo tipo buffer.length buffer =
        .ok (header tipo (8 + buffer.length) ++ (le 8 buffer.length ++ buffer)) :=
      leer_archivo_eq hlong
    constructor
    · rintro ⟨stream, h, payload, hstream, hrecibe, -⟩
      obtain rfl := Except.ok.inj (hencode.symm.trans hstream)
      exact ⟨hlong, ((recibe_trama hlen (by omega) hlong).mp hrecibe).1⟩
    · rintro ⟨-, hcompleta⟩
      refine ⟨_, ⟨tipo, 8 + buffer.length⟩, le 8 buffer.length ++ buffer, hencode,
        (recibe_trama hlen (by omega) hlong).mpr ?_, ?_⟩
      · exact ⟨hcompleta, rfl, rfl, rfl⟩
      · exact deserializar_leer_archivo_eq (by omega)
  · constructor
    · rintro ⟨stream, h, payload, hstream, -⟩
      rw [leer_archivo_wraps (by omega)] at hstream
      cases hstream
    · rintro ⟨hshort, -⟩
      exact absurd hshort hlong

/-- A read of 64 KiB, with every call of `recv` complete. -/
theorem lectura_de_65536 : ¬ Lectura_sobrevive (fun _ => 2 ^ 20) (fun _ => 2 ^ 20) RESPUESTA_OK
    (List.replicate 65536 1) [] := by
  rintro ⟨stream, h, payload, hstream, -⟩
  rw [leer_archivo_wraps (by rw [List.length_replicate]; norm_num)] at hstream
  cases hstream

/-- The names reach FSC: the encoder writes in its frame, the frame is taken from the connection
and nothing behind it, and it is cut into the same names. -/
def Listado_sobrevive (k₁ k₂ : Nat → Nat) (tipo : Int8) (entries : List (List UInt8))
    (resto : List UInt8) : Prop :=
  ∃ stream h payload,
    serializar_respuesta_leer_directorio tipo entries = .ok stream ∧
    (∃ flujo, Recibe_header k₁ (stream ++ resto) h flujo ∧
      Recibe_paquete k₂ h.longitud flujo payload resto) ∧
    string_split payload numeral = entries

/-- The length of a listing as it is meant, with one byte too many for each name. -/
def longitud_entera (entries : List (List UInt8)) : Nat :=
  (entries.map (fun file_name => file_name.length + 1)).sum + (entries.length - 1)

theorem listado_length (hne : entries ≠ []) :
    (listado entries).length + entries.length = longitud_entera entries := by
  induction entries with
  | nil => exact absurd rfl hne
  | cons nombre entries ih =>
    cases entries with
    | nil => simp [listado, longitud_entera, List.intercalate]
    | cons otro entries =>
      have hrest := ih (by simp)
      simp only [listado, longitud_entera, List.intercalate, List.intersperse, List.flatten_cons,
        List.length_append, List.map_cons, List.sum_cons, List.length_cons, List.length_nil]
        at hrest ⊢
      omega

theorem nombres_le (hnombres : ∀ f ∈ entries, f ≠ []) :
    2 * entries.length + (entries.length - 1) ≤ longitud_entera entries := by
  have hsum : 2 * entries.length ≤ (entries.map (fun file_name => file_name.length + 1)).sum := by
    induction entries with
    | nil => simp
    | cons nombre entries ih =>
      have hpos := List.length_pos_iff.mpr (hnombres nombre (by simp))
      have hrest := ih fun f hf => hnombres f (by simp [hf])
      rw [List.map_cons, List.sum_cons, List.length_cons]
      omega
  rw [longitud_entera]
  omega

/-- The names fit in what is allocated for them when the length has not wrapped. -/
theorem listado_cabe_iff (hne : entries ≠ []) (hnombres : ∀ f ∈ entries, f ≠ []) :
    (listado entries).length ≤ longitud_listado entries ↔ longitud_entera entries < 2 ^ 16 := by
  have hwrapped : longitud_listado entries = longitud_entera entries % 2 ^ 16 := rfl
  have hlength := listado_length hne
  have hnames := nombres_le hnombres
  rw [hwrapped]
  constructor
  · intro hle
    omega
  · intro hlt
    rw [Nat.mod_eq_of_lt hlt]
    omega

/-- No piece has the separator in it. -/
theorem not_mem_of_mem_splitOn {x : UInt8} {l w : List UInt8} (hw : w ∈ l.splitOn x) : x ∉ w := by
  induction l generalizing w with
  | nil =>
    obtain rfl := List.mem_singleton.mp hw
    exact List.not_mem_nil
  | cons y l ih =>
    rw [List.splitOn_cons_eq_if_modifyHead] at hw
    split at hw
    · rcases List.mem_cons.mp hw with rfl | hw
      · exact List.not_mem_nil
      · exact ih hw
    · next hy =>
      cases hs : l.splitOn x with
      | nil =>
        rw [hs] at hw
        cases hw
      | cons v vs =>
        rw [hs] at hw ih
        rcases List.mem_cons.mp hw with rfl | hw
        · intro hmem
          rcases List.mem_cons.mp hmem with rfl | hmem
          · simp at hy
          · exact ih List.mem_cons_self hmem
        · exact ih (List.mem_cons_of_mem _ hw)

theorem not_mem_listado {x : UInt8} (hx : x ≠ numeral) (hnombres : ∀ f ∈ entries, x ∉ f) :
    x ∉ listado entries := by
  induction entries with
  | nil => exact List.not_mem_nil
  | cons nombre entries ih =>
    have hself := hnombres nombre (by simp)
    have hrest := ih fun f hf => hnombres f (by simp [hf])
    cases entries with
    | nil => simpa [listado, List.intercalate] using hself
    | cons otro entries =>
      simp only [listado, List.intercalate, List.intersperse, List.flatten_cons,
        List.mem_append] at hrest ⊢
      rintro (hmem | hmem | hmem)
      · exact hself hmem
      · exact hx (List.mem_singleton.mp hmem)
      · exact hrest hmem

/-- The names come out of the listing when none has the separator in it. -/
theorem string_split_listado (hne : entries ≠ []) (hnombres : ∀ f ∈ entries, f ≠ [] ∧ 0 ∉ f)
    {c : Nat} (hc : 0 < c) :
    string_split (listado entries ++ List.replicate c 0) numeral = entries ↔
      ∀ f ∈ entries, numeral ∉ f := by
  obtain ⟨c, rfl⟩ : ∃ j, c = j + 1 := ⟨c - 1, by omega⟩
  have hzero : 0 ∉ listado entries := not_mem_listado (by decide) fun f hf => (hnombres f hf).2
  have htake : (listado entries ++ List.replicate (c + 1) 0).takeWhile (· ≠ 0) =
      listado entries := by
    rw [List.takeWhile_append_of_pos]
    · simp [List.replicate_succ]
    · intro x hx
      exact decide_eq_true fun heq => hzero (heq ▸ hx)
  rw [string_split, htake]
  constructor
  · intro hsplit f hf
    rw [← hsplit] at hf
    exact not_mem_of_mem_splitOn (List.mem_filter.mp hf).1
  · intro hnone
    have hsplit : (listado entries).splitOn numeral = entries :=
      List.splitOn_intercalate numeral hnone hne
    rw [hsplit]
    exact List.filter_eq_self.mpr fun f hf => decide_eq_true (hnombres f hf).1

/-- A listing survives when no name has the separator in it, its length fits in 16 bits with a
byte more for each name, and no call of `recv` reads on into what follows. -/
theorem listado_sobrevive_iff (k₁ k₂ : Nat → Nat) (tipo : Int8) (resto : List UInt8)
    (hne : entries ≠ []) (hnombres : ∀ f ∈ entries, f ≠ [] ∧ 0 ∉ f ∧ barra ∉ f) :
    Listado_sobrevive k₁ k₂ tipo entries resto ↔ (∀ f ∈ entries, numeral ∉ f) ∧
      longitud_entera entries < 2 ^ 16 ∧
      Completa k₁ 3 (3 + (longitud_entera entries + resto.length)) ∧
      Completa k₂ (longitud_entera entries) (longitud_entera entries + resto.length) := by
  have hcabe := listado_cabe_iff hne fun f hf => (hnombres f hf).1
  have hlength := listado_length hne
  have hpos := List.length_pos_iff.mpr hne
  obtain ⟨t, ht⟩ : ∃ t, t = longitud_entera entries := ⟨_, rfl⟩
  have hwrapped : longitud_listado entries = longitud_entera entries % 2 ^ 16 := rfl
  rw [← ht] at hcabe hlength hwrapped ⊢
  by_cases hlong : t < 2 ^ 16
  · rw [Nat.mod_eq_of_lt hlong] at hwrapped
    obtain ⟨payload, hpayload⟩ : ∃ p, p = listado entries ++
        List.replicate (t - (listado entries).length) 0 := ⟨_, rfl⟩
    have hlen : payload.length = t := by
      rw [hpayload, List.length_append, List.length_replicate]
      omega
    have hencode : serializar_respuesta_leer_directorio tipo entries =
        .ok (header tipo t ++ payload) := by
      rw [serializar_respuesta_leer_directorio, if_neg hne, if_pos (hcabe.mpr hlong), hwrapped,
        hpayload]
    have hsplit := string_split_listado hne (fun f hf => ⟨(hnombres f hf).1, (hnombres f hf).2.1⟩)
      (c := t - (listado entries).length) (by omega)
    rw [← hpayload] at hsplit
    constructor
    · rintro ⟨stream, h, p, hstream, hrecibe, hnames⟩
      obtain rfl := Except.ok.inj (hencode.symm.trans hstream)
      obtain ⟨hcompleta, -, rfl, -⟩ := (recibe_trama hlen (by omega) hlong).mp hrecibe
      exact ⟨hsplit.mp hnames, hlong, hcompleta⟩
    · rintro ⟨hnone, -, hcompleta⟩
      refine ⟨_, ⟨tipo, t⟩, payload, hencode, (recibe_trama hlen (by omega) hlong).mpr ?_,
        hsplit.mpr hnone⟩
      exact ⟨hcompleta, rfl, rfl, rfl⟩
  · constructor
    · rintro ⟨stream, h, p, hstream, -⟩
      rw [serializar_respuesta_leer_directorio, if_neg hne,
        if_neg fun hle => hlong (hcabe.mp hle)] at hstream
      cases hstream
    · rintro ⟨-, hshort, -⟩
      exact absurd hshort hlong

theorem dos_nombres : Listado_sobrevive (fun _ => 2 ^ 20) (fun _ => 2 ^ 20) RESPUESTA_OK
    [[97], [98, 99]] [1] :=
  (listado_sobrevive_iff _ _ _ _ (by decide) (by decide)).mpr
    ⟨by decide, by decide, ⟨0, by decide⟩, ⟨0, by decide⟩⟩

/-- The name `a#b` comes out as `a` and `b`. -/
theorem nombre_con_numeral : ¬ Listado_sobrevive (fun _ => 2 ^ 20) (fun _ => 2 ^ 20) RESPUESTA_OK
    [[97, 35, 98]] [] := by
  rintro ⟨-, -, payload, -, -, hsplit⟩
  have hmem : [97, 35, 98] ∈ string_split payload numeral := by simp [hsplit]
  exact not_mem_of_mem_splitOn (List.mem_filter.mp hmem).1 (by decide)

end LaLiga.Fsc
