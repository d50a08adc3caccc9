import Mathlib.Tactic
import LaLiga.Lib.Loop

/-! `sockete_enviar` and `sockete_recibir` against a kernel that may split every call. -/
namespace LaLiga.Sockete

open LaLiga.Lib

/-- Bytes moved before the call number `i`, when call `j` moves `r j d` after `d` bytes. -/
def movidos (r : Nat → Nat → Nat) : Nat → Nat
  | 0 => 0
  | i + 1 => movidos r i + r i (movidos r i)

/-- What call `i` of `send` takes out of `len` bytes: at least one, at most all of
them. `k` is the kernel's choice and is arbitrary. -/
def aceptados (k : Nat → Nat) (i len : Nat) : Nat := min len (k i + 1)

/-- What call `i` of `recv` hands over when `disponibles` bytes are in the
connection; nothing once the peer has closed and all was read. -/
def entregados (k : Nat → Nat) (i len disponibles : Nat) : Nat :=
  min (min len disponibles) (k i + 1)

/-- Locals of `sockete_enviar`: the number of calls made, `aux`, and what went out. -/
structure Envio where
  llamada : Nat
  aux : UInt32
  cable : List UInt8

/-- `send(fd, mensaje + aux, longitud, 0)` and `aux += bytes_enviados`. The bytes
after the message are whatever the memory holds there. -/
def enviar_vuelta (k : Nat → Nat) (mensaje : Nat → UInt8) (longitud : UInt32)
    (e : Envio) : Envio :=
  let bytes_enviados := aceptados k e.llamada longitud.toNat
  { llamada := e.llamada + 1
    aux := e.aux + UInt32.ofNat bytes_enviados
    cable := e.cable ++ (List.range bytes_enviados).map (fun j => mensaje (e.aux.toNat + j)) }

/-- The states in which `sockete_enviar` returns. The comparison of the signed
`aux` with `longitud` is unsigned, as in C. -/
def sockete_enviar (k : Nat → Nat) (mensaje : Nat → UInt8) (longitud : UInt32) :
    Envio → Prop :=
  Halts (fun e => e.aux < longitud) (enviar_vuelta k mensaje longitud)
    (enviar_vuelta k mensaje longitud ⟨0, 0, []⟩)

/-- Locals of `sockete_recibir`: calls made, `aux`, the bytes stored from the start
of the buffer on, and what is left in the connection. -/
structure Recepcion where
  llamada : Nat
  aux : UInt32
  mensaje_recibido : List UInt8
  flujo : List UInt8

/-- `recv(fd, mensaje_recibido + aux, longitud_retorno, 0)` and `aux += bytes_recibidos`. -/
def recibir_vuelta (k : Nat → Nat) (longitud_retorno : UInt32) (e : Recepcion) : Recepcion :=
  let bytes_recibidos := entregados k e.llamada longitud_retorno.toNat e.flujo.length
  { llamada := e.llamada + 1
    aux := e.aux + UInt32.ofNat bytes_recibidos
    mensaje_recibido := e.mensaje_recibido ++ e.flujo.take bytes_recibidos
    flujo := e.flujo.drop bytes_recibidos }

/-- The states in which `sockete_recibir` returns. A first call that brings nothing
returns `SOCKETEERROR` at once; later calls are not tested. -/
def sockete_recibir (k : Nat → Nat) (longitud_retorno : UInt32) (flujo : List UInt8)
    (fin : Recepcion) : Prop :=
  let primera := recibir_vuelta k longitud_retorno ⟨0, 0, [], flujo⟩
  if entregados k 0 longitud_retorno.toNat flujo.length = 0 then fin = primera
  else Halts (fun e => e.aux < longitud_retorno) (recibir_vuelta k longitud_retorno) primera fin

/-- `sockete_enviar` returns having put the message on the wire, and nothing else. -/
def EnviaExacto (k : Nat → Nat) (mensaje : Nat → UInt8) (longitud : UInt32) : Prop :=
  ∃ fin, sockete_enviar k mensaje longitud fin ∧
    fin.cable = (List.range longitud.toNat).map mensaje

/-- `sockete_recibir` returns having stored the next `n` bytes in the caller's `n`
bytes, and the following frame is untouched. -/
def RecibeExacto (k : Nat → Nat) (n : UInt32) (flujo : List UInt8) : Prop :=
  ∃ fin, sockete_recibir k n flujo fin ∧
    fin.mensaje_recibido = flujo.take n.toNat ∧ fin.flujo = flujo.drop n.toNat

/-- Bytes on the wire after `i` calls of `send` for a message of `n` bytes. -/
def enviados (k : Nat → Nat) (n i : Nat) : Nat := movidos (fun j _ => aceptados k j n) i

/-- Bytes read after `i` calls of `recv` for a frame of `n` bytes, out of the `m`
bytes of the connection. -/
def recibidos (k : Nat → Nat) (n m i : Nat) : Nat :=
  movidos (fun j d => entregados k j n (m - d)) i

variable {r : Nat → Nat → Nat} {k : Nat → Nat} {mensaje : Nat → UInt8} {n : UInt32}
  {flujo : List UInt8} {i j : Nat}

theorem movidos_mono (h : i ≤ j) : movidos r i ≤ movidos r j := by
  induction j, h using Nat.le_induction with
  | base => exact Nat.le_refl _
  | succ j _ ih => exact Nat.le_trans ih (Nat.le_add_right _ _)

theorem recibidos_le (k : Nat → Nat) (n m i : Nat) : recibidos k n m i ≤ m := by
  induction i with
  | zero => exact Nat.zero_le _
  | succ i ih =>
    simp only [recibidos, movidos, entregados] at ih ⊢
    omega

theorem toNat_add_ofNat {a : UInt32} {b : Nat} (h : a.toNat + b < 2 ^ 32) :
    (a + UInt32.ofNat b).toNat = a.toNat + b := by
  rw [UInt32.toNat_add, UInt32.toNat_ofNat']
  omega

/-- What the send loop holds after `i` calls. -/
theorem enviar_iterate (k : Nat → Nat) (mensaje : Nat → UInt8) (n : UInt32) (i : Nat) :
    let e := (enviar_vuelta k mensaje n)^[i] ⟨0, 0, []⟩
    e.llamada = i ∧ e.cable.length = enviados k n.toNat i ∧
      (enviados k n.toNat i < 2 ^ 32 → e.aux.toNat = enviados k n.toNat i ∧
        e.cable = (List.range (enviados k n.toNat i)).map mensaje) := by
  induction i with
  | zero => simp [enviados, movidos]
  | succ i ih =>
    obtain ⟨hcall, hlen, hpre⟩ := ih
    have hnext : enviados k n.toNat (i + 1) =
        enviados k n.toNat i + aceptados k i n.toNat := rfl
    simp only [Function.iterate_succ_apply', enviar_vuelta, hcall, List.length_append, hlen,
      List.length_map, List.length_range, hnext, true_and]
    intro hlt
    obtain ⟨haux, hcable⟩ := hpre (by omega)
    refine ⟨by rw [toNat_add_ofNat (by omega), haux], ?_⟩
    rw [hcable, haux, List.range_add, List.map_append, List.map_map]
    rfl

/-- What the receive loop holds after `i` calls. -/
theorem recibir_iterate (k : Nat → Nat) (n : UInt32) (flujo : List UInt8) (i : Nat) :
    let e := (recibir_vuelta k n)^[i] ⟨0, 0, [], flujo⟩
    let d := recibidos k n.toNat flujo.length i
    e.llamada = i ∧ e.mensaje_recibido = flujo.take d ∧ e.flujo = flujo.drop d ∧
      (d < 2 ^ 32 → e.aux.toNat = d) := by
  induction i with
  | zero => simp [recibidos, movidos]
  | succ i ih =>
    obtain ⟨hcall, hbuf, hflujo, haux⟩ := ih
    have hnext : recibidos k n.toNat flujo.length (i + 1) =
        recibidos k n.toNat flujo.length i + entregados k i n.toNat
          (flujo.length - recibidos k n.toNat flujo.length i) := rfl
    simp only [Function.iterate_succ_apply', recibir_vuelta, hcall, hbuf, hflujo, hnext,
      List.length_drop, List.take_add, List.drop_drop, true_and]
    intro hlt
    rw [toNat_add_ofNat (by rw [haux (by omega)]; exact hlt), haux (by omega)]

theorem enviaExacto_iff :
    EnviaExacto k mensaje n ↔ ∃ i, enviados k n.toNat (i + 1) = n.toNat := by
  constructor
  · rintro ⟨fin, ⟨i, hfin, -, -⟩, hcable⟩
    have hlen := (enviar_iterate k mensaje n (i + 1)).2.1
    rw [Function.iterate_succ_apply, hfin, hcable] at hlen
    exact ⟨i, by simpa using hlen.symm⟩
  · intro h
    classical
    -- the loop leaves at the first call that completes the message
    let i := Nat.find h
    have hi : enviados k n.toNat (i + 1) = n.toNat := Nat.find_spec h
    have hn := n.toNat_lt
    obtain ⟨-, -, hpre⟩ := enviar_iterate k mensaje n (i + 1)
    obtain ⟨haux, hcable⟩ := hpre (by omega)
    refine ⟨_, ⟨i, rfl, ?_, ?_⟩, ?_⟩
    · rw [← Function.iterate_succ_apply]
      simp only [UInt32.lt_iff_toNat_lt, Nat.succ_eq_add_one, haux, hi, Nat.lt_irrefl,
        not_false_iff]
    · intro j hj
      have hle : enviados k n.toNat (j + 1) ≤ enviados k n.toNat (i + 1) :=
        movidos_mono (by omega)
      have hne : enviados k n.toNat (j + 1) ≠ n.toNat := Nat.find_min h hj
      have hauxj := ((enviar_iterate k mensaje n (j + 1)).2.2 (by omega)).1
      rw [← Function.iterate_succ_apply]
      simp only [UInt32.lt_iff_toNat_lt, Nat.succ_eq_add_one, hauxj]
      omega
    · rw [← Function.iterate_succ_apply, hcable, hi]

theorem recibeExacto_iff (hm : n.toNat ≤ flujo.length) :
    RecibeExacto k n flujo ↔ ∃ i, recibidos k n.toNat flujo.length (i + 1) = n.toNat := by
  have hn := n.toNat_lt
  by_cases h0 : entregados k 0 n.toNat flujo.length = 0
  · -- a frame of no bytes: the first call returns 0 and the function gives up at once
    have hz : n.toNat = 0 := by simp only [entregados] at h0; omega
    constructor
    · intro _
      exact ⟨0, by simpa [recibidos, movidos, hz] using h0⟩
    · intro _
      refine ⟨recibir_vuelta k n ⟨0, 0, [], flujo⟩, by simp [sockete_recibir, h0], ?_, ?_⟩
      · simp only [recibir_vuelta, h0]
        simp [hz]
      · simp only [recibir_vuelta, h0]
        simp [hz]
  · constructor
    · rintro ⟨fin, hfin, hbuf, -⟩
      simp only [sockete_recibir, h0, if_false] at hfin
      obtain ⟨i, rfl, -, -⟩ := hfin
      have hb := (recibir_iterate k n flujo (i + 1)).2.1
      rw [Function.iterate_succ_apply, hbuf] at hb
      have hlen := congrArg List.length hb
      have hle := recibidos_le k n.toNat flujo.length (i + 1)
      simp only [List.length_take] at hlen
      exact ⟨i, by omega⟩
    · intro h
      classical
      let i := Nat.find h
      have hi : recibidos k n.toNat flujo.length (i + 1) = n.toNat := Nat.find_spec h
      obtain ⟨-, hbuf, hflujo, haux⟩ := recibir_iterate k n flujo (i + 1)
      refine ⟨(recibir_vuelta k n)^[i] (recibir_vuelta k n ⟨0, 0, [], flujo⟩), ?_, ?_, ?_⟩
      · simp only [sockete_recibir, h0, if_false]
        refine ⟨i, rfl, ?_, ?_⟩
        · rw [← Function.iterate_succ_apply]
          simp only [UInt32.lt_iff_toNat_lt, Nat.succ_eq_add_one, haux (by omega), hi,
            Nat.lt_irrefl, not_false_iff]
        · intro j hj
          have hle : recibidos k n.toNat flujo.length (j + 1) ≤
              recibidos k n.toNat flujo.length (i + 1) := movidos_mono (by omega)
          have hne : recibidos k n.toNat flujo.length (j + 1) ≠ n.toNat := Nat.find_min h hj
          obtain ⟨-, -, -, hauxj⟩ := recibir_iterate k n flujo (j + 1)
          rw [← Function.iterate_succ_apply]
          simp only [UInt32.lt_iff_toNat_lt, Nat.succ_eq_add_one, hauxj (by omega)]
          omega
      · rw [← Function.iterate_succ_apply, hbuf, hi]
      · rw [← Function.iterate_succ_apply, hflujo, hi]

/-- What `sockete_recibir` has read when it returns is the length asked for at least. -/
theorem recibir_fin {fin : Recepcion} (h : sockete_recibir k n flujo fin) (hpos : 0 < n.toNat)
    (h0 : 0 < flujo.length) : ∃ d, n.toNat ≤ d ∧ d ≤ flujo.length ∧
      fin.mensaje_recibido = flujo.take d ∧ fin.flujo = flujo.drop d := by
  have hn := n.toNat_lt
  have hne : entregados k 0 n.toNat flujo.length ≠ 0 := by
    simp only [entregados]
    omega
  simp only [sockete_recibir, hne, if_false] at h
  obtain ⟨i, rfl, hguard, -⟩ := h
  obtain ⟨-, hbuf, hrest, haux⟩ := recibir_iterate k n flujo (i + 1)
  rw [Function.iterate_succ_apply] at hbuf hrest haux
  refine ⟨recibidos k n.toNat flujo.length (i + 1), ?_, recibidos_le .., hbuf, hrest⟩
  simp only [UInt32.lt_iff_toNat_lt] at hguard
  by_cases hlt : recibidos k n.toNat flujo.length (i + 1) < 2 ^ 32
  · rw [haux hlt] at hguard
    omega
  · omega

/-- What fits in a buffer of the length asked for was read exactly. -/
theorem recibeExacto_of_fits {fin : Recepcion} (h : sockete_recibir k n flujo fin)
    (hpos : 0 < n.toNat) (hm : n.toNat ≤ flujo.length)
    (hfits : fin.mensaje_recibido.length ≤ n.toNat) :
    fin.mensaje_recibido = flujo.take n.toNat ∧ fin.flujo = flujo.drop n.toNat := by
  obtain ⟨d, hle, hlen, hbuf, hrest⟩ := recibir_fin h hpos (by omega)
  rw [hbuf, List.length_take] at hfits
  obtain rfl : d = n.toNat := by omega
  exact ⟨hbuf, hrest⟩

/-- A peer that closes inside a frame leaves `recv` returning 0 for ever: `aux`
stays below the length and the loop spins. -/
theorem recibir_no_retorna (h0 : 0 < flujo.length) (hm : flujo.length < n.toNat) :
    ¬ ∃ fin, sockete_recibir k n flujo fin := by
  rintro ⟨fin, hfin⟩
  have hn := n.toNat_lt
  have hne : entregados k 0 n.toNat flujo.length ≠ 0 := by simp only [entregados]; omega
  simp only [sockete_recibir, hne, if_false] at hfin
  refine not_halts_of_trap (I := fun e => e.aux.toNat + e.flujo.length = flujo.length)
    ?_ ?_ ?_ hfin
  · intro e he
    rw [UInt32.lt_iff_toNat_lt]
    omega
  · intro e he
    have hr : entregados k e.llamada n.toNat e.flujo.length ≤ e.flujo.length := by
      simp only [entregados]; omega
    simp only [recibir_vuelta, List.length_drop]
    rw [toNat_add_ofNat (by omega)]
    omega
  · have hr : entregados k 0 n.toNat flujo.length ≤ flujo.length := by
      simp only [entregados]; omega
    simp only [recibir_vuelta, List.length_drop]
    rw [toNat_add_ofNat (by simp only [UInt32.toNat_zero]; omega)]
    simp only [UInt32.toNat_zero]
    omega

/-- Every transfer is exact if and only if no call moves bytes beyond the end of the
frame, that is, the partial transfers add up to the length at some call. A frame cut
by the peer is never given up. -/
theorem transporte_exacto_iff (k : Nat → Nat) (n : UInt32) :
    (∀ mensaje, EnviaExacto k mensaje n ↔ ∃ i, enviados k n.toNat (i + 1) = n.toNat) ∧
    (∀ flujo : List UInt8, n.toNat ≤ flujo.length →
      (RecibeExacto k n flujo ↔ ∃ i, recibidos k n.toNat flujo.length (i + 1) = n.toNat)) ∧
    (∀ flujo : List UInt8, 0 < flujo.length → flujo.length < n.toNat →
      ¬ ∃ fin, sockete_recibir k n flujo fin) :=
  ⟨fun _ => enviaExacto_iff, fun _ => recibeExacto_iff, fun _ => recibir_no_retorna⟩

theorem transporte_exacto_entero :
    EnviaExacto (fun _ => 1) (fun j => UInt8.ofNat j) 2 ∧
      RecibeExacto (fun _ => 1) 2 [1, 2, 3] ∧
      ¬ ∃ fin, sockete_recibir (fun _ => 1) 2 [1] fin := by
  obtain ⟨henviar, hrecibir, hcierre⟩ := transporte_exacto_iff (fun _ => 1) 2
  exact ⟨(henviar _).mpr ⟨0, by decide⟩, (hrecibir [1, 2, 3] (by decide)).mpr ⟨0, by decide⟩,
    hcierre [1] (by decide) (by decide)⟩

/-- Two bytes taken as one and then up to two: the retry asks for the whole length
again, so a third byte follows the message and a third byte is read from the stream. -/
theorem transporte_partido :
    ¬ EnviaExacto (fun i => i) (fun j => UInt8.ofNat j) 2 ∧
      ¬ RecibeExacto (fun i => i) 2 [1, 2, 3, 4] ∧
      ¬ ∃ fin, sockete_recibir (fun i => i) 2 [1] fin := by
  refine ⟨?_, ?_, recibir_no_retorna (by decide) (by decide)⟩
  · rw [enviaExacto_iff]
    rintro ⟨i, hi⟩
    cases i with
    | zero => exact absurd hi (by decide)
    | succ i =>
      have h3 : enviados (fun i => i) 2 2 ≤ enviados (fun i => i) 2 (i + 1 + 1) :=
        movidos_mono (by omega)
      have hval : enviados (fun i => i) 2 2 = 3 := by decide
      change enviados (fun i => i) 2 (i + 1 + 1) = 2 at hi
      omega
  · rw [recibeExacto_iff (by decide)]
    rintro ⟨i, hi⟩
    cases i with
    | zero => exact absurd hi (by decide)
    | succ i =>
      have h3 : recibidos (fun i => i) 2 4 2 ≤ recibidos (fun i => i) 2 4 (i + 1 + 1) :=
        movidos_mono (by omega)
      have hval : recibidos (fun i => i) 2 4 2 = 3 := by decide
      change recibidos (fun i => i) 2 4 (i + 1 + 1) = 2 at hi
      omega

end LaLiga.Sockete
