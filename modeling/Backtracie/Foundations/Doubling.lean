import Mathlib.Data.Nat.Size
import Mathlib.Tactic.Linarith
import Mathlib.Tactic.Positivity
import Mathlib.Tactic.Ring

/-!
# Doubling a size until it exceeds a number

`doubled b k` is the first of `b, 2 b, 4 b, …` above `k`: the size an array of `b` bytes has once
it was doubled as often as an offset `k` in it needs.
-/

namespace Doubling

/-- The first of `b, 2 b, 4 b, …` above `k`. -/
def doubled (b k : ℕ) : ℕ := b * 2 ^ Nat.size (k / b)

variable {b k : ℕ}

/-- `j` doublings are enough exactly when there are not fewer of them than in `doubled b k`. -/
theorem lt_mul_two_pow_iff (hb : 0 < b) (j : ℕ) : k < b * 2 ^ j ↔ Nat.size (k / b) ≤ j := by
  rw [Nat.size_le, Nat.div_lt_iff_lt_mul hb, Nat.mul_comm]

theorem lt_doubled (hb : 0 < b) (k : ℕ) : k < doubled b k := (lt_mul_two_pow_iff hb _).2 le_rfl

theorem doubled_of_lt (h : k < b) : doubled b k = b := by
  rw [doubled, Nat.div_eq_of_lt h, Nat.size_zero, pow_zero, mul_one]

/-- Doubling ends before twice the number. -/
theorem doubled_le (hb : 0 < b) (h : b ≤ k) : doubled b k ≤ 2 * k := by
  obtain ⟨j, hj⟩ := Nat.exists_eq_succ_of_ne_zero (Nat.size_pos.2 (Nat.div_pos h hb)).ne'
  have hle : b * 2 ^ j ≤ k := by
    rw [← Nat.not_lt, lt_mul_two_pow_iff hb, hj]
    exact Nat.not_succ_le_self j
  rw [doubled, hj, pow_succ', Nat.mul_left_comm]
  exact Nat.mul_le_mul_left 2 hle

/-- A first doubling does not change where the doubling ends. -/
theorem doubled_double (hb : 0 < b) (h : b ≤ k) : doubled (b * 2) k = doubled b k := by
  have hiff : ∀ j, Nat.size (k / (b * 2)) ≤ j ↔ Nat.size (k / b) ≤ j + 1 := by
    intro j
    rw [← lt_mul_two_pow_iff (Nat.mul_pos hb Nat.two_pos), ← lt_mul_two_pow_iff hb, pow_succ',
      mul_assoc]
  have hpos : 0 < Nat.size (k / b) := Nat.size_pos.2 (Nat.div_pos h hb)
  have hsize : Nat.size (k / b) = Nat.size (k / (b * 2)) + 1 := by
    have hle := (hiff _).1 le_rfl
    have hge := (hiff (Nat.size (k / b) - 1)).2 (by omega)
    omega
  rw [doubled, doubled, hsize, pow_succ', mul_assoc]

/-- Doublings that are needed can be made beforehand. -/
theorem doubled_mul_two_pow (hb : 0 < b) {j : ℕ} (h : ∀ i < j, b * 2 ^ i ≤ k) :
    doubled (b * 2 ^ j) k = doubled b k := by
  induction j with
  | zero => simp
  | succ j ih =>
    rw [pow_succ, ← mul_assoc, doubled_double (by positivity) (h j (by omega)),
      ih fun i hi => h i (by omega)]

/-- Doubling on from where a smaller number needed it. -/
theorem doubled_doubled (hb : 0 < b) {o : ℕ} (h : o ≤ k) :
    doubled (doubled b o) k = doubled b k := by
  apply doubled_mul_two_pow hb
  intro i hi
  have hle : ¬o < b * 2 ^ i := by
    rw [lt_mul_two_pow_iff hb]
    exact Nat.not_le.2 hi
  omega

/-- As many doublings as there are bytes to add make room for them. -/
theorem lt_mul_two_pow {len : ℕ} (hk : k < b) : k + len < b * 2 ^ len := by
  have h : len + 1 ≤ 2 ^ len := Nat.lt_two_pow_self
  calc k + len < b + b * len := by nlinarith
    _ = b * (len + 1) := by ring
    _ ≤ b * 2 ^ len := Nat.mul_le_mul_left b h

end Doubling
