import Mathlib.Data.List.GetD
import LaLiga.Lib.LittleEndian

/-! Memory as bytes by address. -/
namespace LaLiga.Lib

abbrev Bytes := Nat → UInt8

namespace Bytes

/-- The `n` bytes from `p` on. -/
def read (m : Bytes) (p n : Nat) : List UInt8 := (List.range n).map fun k => m (p + k)

/-- The bytes `l` stored from `p` on. -/
def write (m : Bytes) (p : Nat) (l : List UInt8) : Bytes :=
  fun q => if p ≤ q ∧ q < p + l.length then l.getD (q - p) 0 else m q

/-- The number in the `w` bytes from `p` on. -/
def number (m : Bytes) (p w : Nat) : Nat := ofLe (m.read p w)

/-- Two memories with the same bytes from `p` up to `q`. -/
def Agree (m m' : Bytes) (p q : Nat) : Prop := ∀ r, p ≤ r → r < q → m r = m' r

variable {m m' m'' : Bytes} {p q r n w : Nat} {l : List UInt8}

@[simp]
theorem read_length : (m.read p n).length = n := by simp [read]

theorem Agree.symm (h : Agree m m' p q) : Agree m' m p q := fun r hp hq => (h r hp hq).symm

theorem Agree.trans (h : Agree m m' p q) (h' : Agree m' m'' p q) : Agree m m'' p q :=
  fun r hp hq => (h r hp hq).trans (h' r hp hq)

theorem Agree.mono {p' q' : Nat} (h : Agree m m' p q) (hp : p ≤ p') (hq : q' ≤ q) :
    Agree m m' p' q' :=
  fun r h1 h2 => h r (hp.trans h1) (Nat.lt_of_lt_of_le h2 hq)

theorem Agree.read (h : Agree m m' p (p + n)) : m.read p n = m'.read p n := by
  apply List.map_congr_left
  intro k hk
  have := List.mem_range.mp hk
  exact h (p + k) (by omega) (by omega)

theorem Agree.number (h : Agree m m' p (p + w)) : m.number p w = m'.number p w := by
  rw [Bytes.number, Bytes.number, h.read]

/-- A write changes nothing beside what it stores. -/
theorem write_before (h : q ≤ p) : Agree (m.write p l) m r q := by
  intro s _ hs
  rw [write, if_neg (by omega)]

theorem write_after (h : p + l.length ≤ q) : Agree (m.write p l) m q r := by
  intro s hs _
  rw [write, if_neg (by omega)]

theorem read_write : (m.write p l).read p l.length = l := by
  apply List.ext_getElem
  · simp
  · intro k hk hk'
    simp only [read, List.getElem_map, List.getElem_range]
    rw [write, if_pos (by omega), Nat.add_sub_cancel_left, List.getD_eq_getElem _ _ hk']

theorem number_write (hn : n < 256 ^ w) : (m.write p (le w n)).number p w = n := by
  have hread : (m.write p (le w n)).read p (le w n).length = le w n := read_write
  rw [le_length] at hread
  rw [number, hread, ofLe_le_of_lt hn]

theorem ofLe_lt (l : List UInt8) : ofLe l < 256 ^ l.length := by
  induction l with
  | nil => simp [ofLe]
  | cons b l ih =>
    have := b.toNat_lt
    rw [ofLe, List.length_cons, pow_succ']
    omega

theorem number_lt : m.number p w < 256 ^ w := by
  have := ofLe_lt (m.read p w)
  rwa [read_length] at this

theorem read_add {k : Nat} : m.read p (n + k) = m.read p n ++ m.read (p + n) k := by
  simp only [read, List.range_add, List.map_append, List.map_map, Nat.add_assoc,
    Function.comp_def]

/-- A list stored in two parts. -/
theorem write_append {l' : List UInt8} :
    m.write p (l ++ l') = (m.write p l).write (p + l.length) l' := by
  funext q
  simp only [write, List.length_append]
  by_cases h : q < p + l.length
  · by_cases hp : p ≤ q
    · rw [if_pos ⟨hp, by omega⟩, if_neg (by omega), if_pos ⟨hp, h⟩,
        List.getD_append _ _ _ _ (by omega)]
    · rw [if_neg (by omega), if_neg (by omega), if_neg (by omega)]
  · by_cases hl : q < p + (l.length + l'.length)
    · rw [if_pos ⟨by omega, hl⟩, if_pos ⟨by omega, by omega⟩,
        List.getD_append_right _ _ _ _ (by omega)]
      congr 1
      omega
    · rw [if_neg (by omega), if_neg (by omega), if_neg (by omega)]

end Bytes

end LaLiga.Lib
