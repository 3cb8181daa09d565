import Enclave.P256.Equiv.Generator
import Enclave.P256.Equiv.GroupLaw

/-!
# Where `shamirMultJacobian` is right

The double scalar multiplication of `SECP256R1` uses an addition that gives infinity for a point and
itself, in its table and in its loop.  `multiplies_of_regular`: it returns `u1 G + u2 Q` for the
keys and scalars for which no addition behind the result is of that kind, and something else where
just one addition of the loop is.  There is no key for which the scalars are all regular: `n + 6`
and `0` give infinity in place of `6 G`.
-/

namespace Enclave.SECP256R1

open Curve P256

/-- The multiplication returns the affine coordinates of `u1 G + u2 Q`, and `(0, 0)` if that is
infinity. -/
def Multiplies (passKey : PassKey) (Q : curve.Point) (u1 u2 : ℕ) : Prop :=
  ∃ x y, shamirMultJacobian (preComputeJacobianPoints passKey) u1 u2 = .ok (x, y) ∧
    Encodes x y (u1 • base + u2 • Q)

theorem encodes_unique {x y : ℕ} {A B : curve.Point} (hA : Encodes x y A) (hB : Encodes x y B) :
    A = B :=
  (operand_of_encodes hA).2.symm.trans (operand_of_encodes hB).2

/-- When the table serves the scan, the multiplication is right where the scan is. -/
theorem multiplies_iff_window {passKey : PassKey} {Q R : curve.Point} {u1 u2 : ℕ}
    (hT : Serves (preComputeJacobianPoints passKey) R u1 u2) (hu1 : u1 < 2 ^ 256)
    (hu2 : u2 < 2 ^ 256) :
    Multiplies passKey Q u1 u2 ↔ window base R u1 u2 128 0 = u1 • base + u2 • Q := by
  obtain ⟨x, y, hrun, hxy⟩ := shamirMultJacobian_spec hT hu1 hu2
  constructor
  · rintro ⟨x', y', hrun', hxy'⟩
    rw [hrun, Except.ok.injEq, Prod.mk.injEq] at hrun'
    obtain ⟨rfl, rfl⟩ := hrun'
    exact encodes_unique hxy hxy'
  · intro heq
    rw [heq] at hxy
    exact ⟨x, y, hrun, hxy⟩

/-- One exceptional addition in the loop makes the result wrong. -/
theorem not_multiplies_of_exceptional {passKey : PassKey} {Q R : curve.Point} {u1 u2 k : ℕ}
    (hT : Serves (preComputeJacobianPoints passKey) R u1 u2)
    (h : Exceptional base R u1 u2 128 k) (hu1 : u1 < 2 ^ 256) (hu2 : u2 < 2 ^ 256)
    (hQ : u2 • Q = u2 • R) : ¬Multiplies passKey Q u1 u2 := by
  rw [multiplies_iff_window hT hu1 hu2, hQ, ← window_of_exceptional h hu1 hu2, left_eq_add,
    ← pow_succ']
  exact two_pow_nsmul_ne_zero h.ne_zero _

/-- The base point alone is multiplied as it should, with one exception. -/
theorem multiplies_zero_iff (passKey : PassKey) (Q : curve.Point) {u1 : ℕ} (hu1 : u1 < 2 ^ 256) :
    Multiplies passKey Q u1 0 ↔ u1 ≠ n + 6 := by
  have hn : 2 ^ 256 ≤ 2 * n := by decide
  -- so that of the scalars `n + 2 c` with `c < 4` only `n + 6` ends in its own `c`
  have hmod : n % 4 = 1 := by decide
  have hlt : u1 < 2 * addOrderOf base := by
    rw [addOrderOf_base]
    omega
  have hT := serves_zero passKey u1
  constructor
  · rintro hmul rfl
    have hlast : (n + 6) % 4 = 3 := by omega
    have hexceptional : Exceptional base 0 (n + 6) 0 128 0 := by
      refine exceptional_of_eq (by decide) hlt (by rw [addOrderOf_base]; omega) ?_
      rw [hlast]
      exact nsmul_base_ne_zero (by decide) (by decide)
    exact not_multiplies_of_exceptional hT hexceptional hu1 (by decide)
      (by rw [zero_nsmul, zero_nsmul]) hmul
  · intro hne
    have hregular : Regular base 0 u1 0 128 :=
      regular_of_ne hlt (by rw [addOrderOf_base]; omega)
    rw [multiplies_iff_window hT hu1 (by decide), window_eq_of_regular hregular hu1 (by decide),
      zero_nsmul, zero_nsmul]

/-- **Where the double scalar multiplication is right.**  For a key on the curve and two words it
never reverts.  It is right when no addition behind the result meets a nonzero point twice, and
wrong when one addition of the loop does and no other.  With `u2 = 0` it is right for all words but
`n + 6`, under every key. -/
theorem multiplies_of_regular {x y : Word} (hQ : ValidKey x.toNat y.toNat) :
    (∀ u1 < 2 ^ 256, ∀ u2 < 2 ^ 256,
      (∃ P, shamirMultJacobian (preComputeJacobianPoints ⟨x, y⟩) u1 u2 = .ok P) ∧
      (Regular base (keyPoint hQ) u1 u2 128 → Multiplies ⟨x, y⟩ (keyPoint hQ) u1 u2) ∧
      ∀ k, Exceptional base (keyPoint hQ) u1 u2 128 k →
        ¬Multiplies ⟨x, y⟩ (keyPoint hQ) u1 u2) ∧
    ∀ u1 < 2 ^ 256, (Multiplies ⟨x, y⟩ (keyPoint hQ) u1 0 ↔ u1 ≠ n + 6) := by
  refine ⟨fun u1 hu1 u2 hu2 => ⟨?_, fun hregular => ?_, fun k hexceptional => ?_⟩,
    fun u1 hu1 => multiplies_zero_iff ⟨x, y⟩ (keyPoint hQ) hu1⟩
  · obtain ⟨X, Y, hrun, -⟩ := shamirMultJacobian_spec (serves_keyPoint hQ u1 u2) hu1 hu2
    exact ⟨_, hrun⟩
  · rw [multiplies_iff_window (serves_keyPoint hQ u1 u2) hu1 hu2]
    exact window_eq_of_regular hregular hu1 hu2
  · exact not_multiplies_of_exceptional (serves_keyPoint hQ u1 u2) hexceptional hu1 hu2 rfl

/-- A second scalar of one pair of bits, after a first one of two. -/
theorem regularAt_of_small {u v k : ℕ} (hu : u < 16) (hv : v < 4) (hk : 0 < k) :
    RegularAt base base u v k := by
  have hpow : 2 ^ 2 ≤ 2 ^ (2 * k) := Nat.pow_le_pow_right (by decide) (by omega)
  have hnext : 2 ^ (2 * (k + 1)) = 4 * 2 ^ (2 * k) := by
    rw [mul_add, pow_add, mul_comm]
    rfl
  have hpair : pairAt v k = 0 := pairAt_of_lt (by omega)
  refine regularAt_of_lt (by omega) (by omega) fun _ => ?_
  rw [hpair, zero_nsmul]

/-- Under the key `G` the scalars `4` and `1` use no exceptional addition. -/
theorem regular_four_one : Regular base base 4 1 128 := by
  intro k _
  obtain rfl | hk := Nat.eq_zero_or_pos k
  · refine ⟨fun heq => ?_, fun heq => absurd heq ?_⟩
    · rw [← heq]
      exact zero_nsmul base
    · -- the accumulator `4 G` is not the entry `G`
      show 4 • combination base base 4 1 2 ≠ 0 • base + 1 • base
      rw [combination, show 4 >>> 2 = 1 from rfl, show 1 >>> 2 = 0 from rfl, zero_nsmul, add_zero,
        zero_add, ← mul_nsmul']
      exact fun h => absurd (nsmul_base_inj (by decide) (by decide) h) (by decide)
  · exact regularAt_of_small (by decide) (by decide) hk

/-- With `5` and `3` the last step adds `4 G` to `4 G`. -/
theorem exceptional_five_three : Exceptional base base 5 3 128 0 where
  lt := by decide
  above := fun k hk _ => regularAt_of_small (by decide) (by decide) hk
  table heq := absurd (nsmul_base_inj (by decide) (by decide) heq) (by decide)
  meets := by
    show 4 • combination base base 5 3 2 = 1 • base + 3 • base
    rw [combination, show 5 >>> 2 = 1 from rfl, show 3 >>> 2 = 0 from rfl, zero_nsmul, add_zero,
      ← mul_nsmul', ← add_nsmul]
  ne_zero := by
    show 1 • base + 3 • base ≠ 0
    rw [← add_nsmul]
    exact nsmul_base_ne_zero (by decide) (by decide)
  below := fun k hk => absurd hk (Nat.not_lt_zero k)

/-- Under the key `G` the scalars `4` and `1` are multiplied as they should, and `5` and `3` are
not; nor are `n + 6` and `0`. -/
theorem multiplies_of_regular_base :
    Multiplies ⟨baseKey.1, baseKey.2⟩ (keyPoint validKey_base) 4 1 ∧
      ¬Multiplies ⟨baseKey.1, baseKey.2⟩ (keyPoint validKey_base) 5 3 ∧
      ¬Multiplies ⟨baseKey.1, baseKey.2⟩ (keyPoint validKey_base) (n + 6) 0 := by
  have hall := multiplies_of_regular validKey_base
  refine ⟨?_, ?_, ?_⟩
  · exact (hall.1 4 (by decide) 1 (by decide)).2.1 regular_four_one
  · exact (hall.1 5 (by decide) 3 (by decide)).2.2 0 exceptional_five_three
  · exact fun h => (hall.2 (n + 6) (by decide)).mp h rfl

set_option maxRecDepth 10000 in
/-- Under the key `G` the scalars `1` and `1` give `(0, 0)`, and `G + G` is not infinity. -/
theorem not_multiplies_base :
    shamirMultJacobian (preComputeJacobianPoints ⟨baseKey.1, baseKey.2⟩) 1 1 = .ok (0, 0) ∧
      1 • base + 1 • keyPoint validKey_base ≠ 0 ∧
      ¬Multiplies ⟨baseKey.1, baseKey.2⟩ (keyPoint validKey_base) 1 1 := by
  have hrun : shamirMultJacobian (preComputeJacobianPoints ⟨baseKey.1, baseKey.2⟩) 1 1
      = .ok (0, 0) := rfl
  have hdouble : 1 • base + 1 • keyPoint validKey_base ≠ 0 := by
    have hbase : keyPoint validKey_base = base := rfl
    rw [hbase, ← add_nsmul]
    exact nsmul_base_ne_zero (by decide) (by decide)
  refine ⟨hrun, hdouble, ?_⟩
  rintro ⟨x, y, hrun', hxy⟩
  rw [hrun, Except.ok.injEq, Prod.mk.injEq] at hrun'
  obtain ⟨rfl, rfl⟩ := hrun'
  exact hdouble (encodes_unique hxy ⟨rfl, rfl⟩)

end Enclave.SECP256R1
