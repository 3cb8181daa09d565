import Mathlib.Data.Nat.Log
import Mathlib.Tactic.Ring

/-!
# Modular exponentiation

`powMod b e m` computes `b ^ e % m` by squaring, with as many squarings as `e` has bits, so that it
can be evaluated for exponents of cryptographic size; `powMod_eq` says that it is exact.
-/

namespace Enclave

/-- `b ^ e % m` for exponents of at most `k` bits. -/
def powModBits (m : ℕ) : ℕ → ℕ → ℕ → ℕ
  | 0, _, _ => 1 % m
  | k + 1, b, e => powModBits m k (b * b % m) (e / 2) * b ^ (e % 2) % m

/-- `b ^ e % m`. -/
def powMod (b e m : ℕ) : ℕ := powModBits m (e.log2 + 1) b e

theorem powModBits_eq (m : ℕ) : ∀ k b e : ℕ, e < 2 ^ k → powModBits m k b e = b ^ e % m := by
  intro k
  induction k with
  | zero =>
    intro b e he
    obtain rfl : e = 0 := by omega
    simp [powModBits]
  | succ k ih =>
    intro b e he
    have hhalf : e / 2 < 2 ^ k := by rw [pow_succ] at he; omega
    have hsq : (b * b % m) ^ (e / 2) % m = b ^ (2 * (e / 2)) % m := by
      rw [← Nat.pow_mod, ← sq, ← pow_mul]
    rw [powModBits, ih _ _ hhalf, hsq, Nat.mod_mul_mod, ← pow_add, Nat.div_add_mod]

theorem powMod_eq (b e m : ℕ) : powMod b e m = b ^ e % m :=
  powModBits_eq m _ b e Nat.lt_log2_self

end Enclave
