import Mathlib.FieldTheory.Finite.Basic
import Mathlib.Tactic.LinearCombination

/-!
# Cubics without a root

A root of `x³ = α x + β` modulo a prime `p` satisfies `x ^ p = x`.  When `x ^ p - x` is invertible
modulo the cubic, there is no root.  `CubicResidue` computes modulo the cubic with natural numbers,
by squaring, so that the certificate can be evaluated for a prime of cryptographic size;
`no_root_of_inverse` is the criterion.
-/

namespace Enclave

/-- The residue `c₀ + c₁ x + c₂ x²`. -/
structure CubicResidue where
  c₀ : ℕ
  c₁ : ℕ
  c₂ : ℕ
deriving DecidableEq, Repr

namespace CubicResidue

/-- The residue of `x`. -/
def X : CubicResidue := ⟨0, 1, 0⟩

/-- The product modulo `x³ - α x - β` and `m`. -/
def mul (m α β : ℕ) (c d : CubicResidue) : CubicResidue :=
  let e₃ := c.c₁ * d.c₂ + c.c₂ * d.c₁
  let e₄ := c.c₂ * d.c₂
  ⟨(c.c₀ * d.c₀ + β * e₃) % m,
    (c.c₀ * d.c₁ + c.c₁ * d.c₀ + α * e₃ + β * e₄) % m,
    (c.c₀ * d.c₂ + c.c₁ * d.c₁ + c.c₂ * d.c₀ + α * e₄) % m⟩

/-- The power, for exponents of at most `k` bits. -/
def pow (m α β : ℕ) : ℕ → CubicResidue → ℕ → CubicResidue
  | 0, _, _ => ⟨1, 0, 0⟩
  | k + 1, c, e =>
    let q := pow m α β k (mul m α β c c) (e / 2)
    if e % 2 = 1 then mul m α β q c else q

/-- One more. -/
def succ (m : ℕ) (c : CubicResidue) : CubicResidue := ⟨(c.c₀ + 1) % m, c.c₁, c.c₂⟩

section Eval

variable {m α β : ℕ}

/-- The value at `t`. -/
def eval (c : CubicResidue) (t : ZMod m) : ZMod m := c.c₀ + c.c₁ * t + c.c₂ * t ^ 2

@[simp] theorem eval_X (t : ZMod m) : X.eval t = t := by
  simp [X, eval]

@[simp] theorem eval_succ (c : CubicResidue) (t : ZMod m) : (c.succ m).eval t = c.eval t + 1 := by
  simp only [succ, eval, ZMod.natCast_mod, Nat.cast_add, Nat.cast_one]
  ring

variable {t : ZMod m} (ht : t ^ 3 = α * t + β)

include ht

/-- At a root the product of residues is the product of the values. -/
theorem eval_mul (c d : CubicResidue) : (mul m α β c d).eval t = c.eval t * d.eval t := by
  simp only [mul, eval, ZMod.natCast_mod, Nat.cast_add, Nat.cast_mul]
  linear_combination
    -((c.c₁ : ZMod m) * d.c₂ + c.c₂ * d.c₁ + c.c₂ * d.c₂ * t) * ht

theorem eval_pow : ∀ (k : ℕ) (c : CubicResidue) (e : ℕ), e < 2 ^ k →
    (pow m α β k c e).eval t = c.eval t ^ e := by
  intro k
  induction k with
  | zero =>
    intro c e he
    obtain rfl : e = 0 := by omega
    simp [pow, eval]
  | succ k ih =>
    intro c e he
    have hhalf : e / 2 < 2 ^ k := by rw [pow_succ] at he; omega
    have hq : (pow m α β k (mul m α β c c) (e / 2)).eval t = c.eval t ^ (2 * (e / 2)) := by
      rw [ih _ _ hhalf, eval_mul ht, ← sq, ← pow_mul]
    rw [pow]
    split_ifs with hodd
    · have hsplit : e = 2 * (e / 2) + 1 := by omega
      rw [eval_mul ht, hq, ← pow_succ, ← hsplit]
    · have hsplit : e = 2 * (e / 2) := by omega
      rw [hq, ← hsplit]

end Eval

/-- **The criterion**: `u` is an inverse of `x ^ p - x` modulo the cubic. -/
theorem no_root_of_inverse {p α β k : ℕ} [Fact p.Prime] (hk : p < 2 ^ k) (u : CubicResidue)
    (h : mul p α β (pow p α β k X p) u = succ p (mul p α β X u)) (t : ZMod p) :
    t ^ 3 ≠ α * t + β := by
  intro ht
  have hfermat : (pow p α β k X p).eval t = t := by
    rw [eval_pow ht k X p hk, eval_X, ZMod.pow_card]
  have heval := congrArg (fun c => eval c t) h
  simp only [eval_succ, eval_mul ht, hfermat, eval_X] at heval
  exact one_ne_zero (left_eq_add.mp heval)

end CubicResidue

end Enclave
