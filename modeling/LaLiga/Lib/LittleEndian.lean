import Mathlib.Tactic

/-! Numbers in memory, lowest byte first. -/
namespace LaLiga.Lib

variable {w n : Nat} {l : List UInt8}

/-- The lowest `w` bytes of `n`. -/
def le : Nat → Nat → List UInt8
  | 0, _ => []
  | w + 1, n => UInt8.ofNat n :: le w (n / 256)

def ofLe : List UInt8 → Nat
  | [] => 0
  | b :: l => b.toNat + 256 * ofLe l

@[simp]
theorem le_length : (le w n).length = w := by
  induction w generalizing n with
  | zero => rfl
  | succ w ih => simp [le, ih]

theorem ofLe_le : ofLe (le w n) = n % 256 ^ w := by
  induction w generalizing n with
  | zero => simp [le, ofLe, Nat.mod_one]
  | succ w ih =>
    have hbyte : (UInt8.ofNat n).toNat = n % 256 := by simp
    rw [le, ofLe, ih, hbyte, pow_succ', Nat.mod_mul]

/-- A number that fits is read back. -/
theorem ofLe_le_of_lt (h : n < 256 ^ w) : ofLe (le w n) = n := by
  rw [ofLe_le, Nat.mod_eq_of_lt h]

end LaLiga.Lib
