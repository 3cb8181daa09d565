import Enclave.Curve.Order
import Enclave.Number.CubicRoots
import Enclave.P256.Equiv.SECP256R1

/-!
# The base point generates the group

The order of the base point is the prime `n`, and the cubic of the curve has no root modulo `p`, so
there is no point of order two and every point is a multiple of the base point
(`existsUnique_nsmul_base`).
-/

namespace Enclave.P256

open Curve SECP256R1

/-! ### Multiples of the base point -/

theorem nsmul_base_ne_zero {k : ℕ} (hpos : 0 < k) (hk : k < n) : k • base ≠ 0 := by
  intro h
  have hdvd := addOrderOf_dvd_of_nsmul_eq_zero h
  rw [addOrderOf_base] at hdvd
  exact absurd (Nat.le_of_dvd hpos hdvd) (by omega)

theorem nsmul_base_inj {i j : ℕ} (hi : i < n) (hj : j < n) (h : i • base = j • base) : i = j := by
  rw [← addOrderOf_base] at hi hj
  exact nsmul_injOn_Iio_addOrderOf hi hj h

theorem nsmul_base_congr {i j : ℕ} (h : (i : ZMod n) = j) : i • base = j • base := by
  rw [nsmul_eq_nsmul_iff_modEq, addOrderOf_base]
  exact (ZMod.natCast_eq_natCast_iff i j n).mp h

/-! ### All points -/

/-- An inverse of `x ^ p - x` modulo `x³ - 3 x + b`. -/
def inverse : CubicResidue where
  c₀ := 0xA969487079F1744798BF0DE6FDED091B66E9D328EB0645FE5D979D1339B7F47F
  c₁ := 0xA4A08891884100C13323460107A8D28EEDE4387FA3E6E9BFEBEC9F6D72D0B5CC
  c₂ := 0x4CDE11CF86CB876CD59CF0115813C55AF0ECD3CDA667D98BB9A347A56AA74A6D

theorem mul_inverse :
    CubicResidue.mul p 3 (p - b) (CubicResidue.pow p 3 (p - b) 256 .X p) inverse
      = CubicResidue.succ p (CubicResidue.mul p 3 (p - b) .X inverse) := by
  decide +kernel

/-- There is no point of order two. -/
theorem cubic_ne_zero (x : ZMod p) : x ^ 3 + -3 * x + (b : ZMod p) ≠ 0 := by
  intro hx
  refine CubicResidue.no_root_of_inverse p_lt inverse mul_inverse x ?_
  rw [natCast_modulus_sub (by decide)]
  push_cast
  linear_combination hx

/-- **The base point generates the group.** -/
theorem existsUnique_nsmul_base (P : curve.Point) : ∃! k, k < n ∧ k • base = P := by
  refine existsUnique_nsmul two_ne_zero addOrderOf_base ?_ cubic_ne_zero P
  rw [Nat.card_zmod]
  decide

/-- Doubling does not lead to infinity. -/
theorem two_pow_nsmul_ne_zero {P : curve.Point} (h : P ≠ 0) (k : ℕ) : 2 ^ k • P ≠ 0 := by
  obtain ⟨d, ⟨-, rfl⟩, -⟩ := existsUnique_nsmul_base P
  intro hzero
  have hdvd : n ∣ 2 ^ k * d := by
    rw [← addOrderOf_base]
    rw [← mul_nsmul'] at hzero
    exact addOrderOf_dvd_of_nsmul_eq_zero hzero
  have hcoprime : Nat.Coprime n (2 ^ k) := Nat.Coprime.pow_right _ (by decide)
  obtain ⟨c, rfl⟩ := hcoprime.dvd_of_dvd_mul_left hdvd
  apply h
  rw [mul_comm, mul_nsmul', nsmul_base, nsmul_zero]

end Enclave.P256
