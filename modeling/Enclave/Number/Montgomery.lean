import Mathlib.Algebra.Field.ZMod
import Mathlib.Tactic.Linarith
import Mathlib.Tactic.Ring

/-!
# Montgomery reduction

For a modulus `n` and a radix `R` with `R ∣ n n' + 1`, `reduce R n n' T` is `(T + m n) / R` with the
multiple `m n` that makes the division exact.  It is a representative of `T / R` modulo `n`, below
`2 n` for `T < n R`.

`Form R n x X` says that the residue `x` is the Montgomery form of `X`, that is `X R` modulo `n`.
-/

namespace Enclave.Montgomery

variable {R n n' : ℕ}

/-- The factor of the modulus that cancels the lower part of `T`. -/
def cofactor (R n' T : ℕ) : ℕ := T % R * n' % R

def reduce (R n n' T : ℕ) : ℕ := (T + cofactor R n' T * n) / R

theorem dvd_add_cofactor_mul (h : R ∣ n * n' + 1) (T : ℕ) : R ∣ T + cofactor R n' T * n := by
  have hmod : cofactor R n' T * n ≡ T * n' * n [MOD R] := by
    refine Nat.ModEq.mul_right n ?_
    exact (Nat.mod_modEq _ R).trans ((Nat.mod_modEq T R).mul_right n')
  have hsum : T + cofactor R n' T * n ≡ T + T * n' * n [MOD R] := hmod.add_left T
  have hfactor : T + T * n' * n = T * (n * n' + 1) := by ring
  rw [hfactor] at hsum
  exact (hsum.dvd_iff (dvd_refl R)).mpr (h.mul_left T)

theorem reduce_mul (h : R ∣ n * n' + 1) (T : ℕ) :
    reduce R n n' T * R = T + cofactor R n' T * n :=
  Nat.div_mul_cancel (dvd_add_cofactor_mul h T)

theorem reduce_lt (n' : ℕ) (hR : 0 < R) {T : ℕ} (hT : T < n * R) : reduce R n n' T < 2 * n := by
  have hm : cofactor R n' T ≤ R := (Nat.mod_lt _ hR).le
  have hmul : cofactor R n' T * n ≤ n * R := by
    rw [mul_comm n R]
    exact Nat.mul_le_mul_right n hm
  rw [reduce, Nat.div_lt_iff_lt_mul hR]
  linarith

/-- Reduction divides by the radix. -/
theorem natCast_reduce_mul (h : R ∣ n * n' + 1) (T : ℕ) :
    (reduce R n n' T : ZMod n) * R = T := by
  rw [← Nat.cast_mul, reduce_mul h, Nat.cast_add, Nat.cast_mul, ZMod.natCast_self, mul_zero,
    add_zero]

/-- The reduction computed on the two halves of `T`: the lower half only matters for the carry. -/
theorem reduce_eq_halves (n n' : ℕ) (hR : 0 < R) (hi : ℕ) {lo : ℕ} (hlo : lo < R) :
    reduce R n n' (hi * R + lo)
      = hi + lo * n' % R * n / R + (lo + lo * n' % R * n % R) / R := by
  have hmod : (hi * R + lo) % R = lo := by
    rw [Nat.mul_add_mod', Nat.mod_eq_of_lt hlo]
  have hsplit : hi * R + lo + lo * n' % R * n
      = lo + lo * n' % R * n % R + R * (hi + lo * n' % R * n / R) := by
    have := Nat.div_add_mod (lo * n' % R * n) R
    linarith
  rw [reduce, cofactor, hmod, hsplit, Nat.add_mul_div_left _ _ hR]
  ring

/-! ### Montgomery form -/

/-- The residue `x` is the Montgomery form of `X`. -/
structure Form (R n x : ℕ) (X : ZMod n) : Prop where
  lt : x < n
  eq : (x : ZMod n) = X * R

namespace Form

variable {x y : ℕ} {X Y : ZMod n}

theorem of_eq (h : Form R n x X) (hXY : X = Y) : Form R n x Y := hXY ▸ h

/-- The form of a natural number, as a residue. -/
theorem natCast_iff (hn : 0 < n) (R a : ℕ) : Form R n x (a : ZMod n) ↔ x = a * R % n := by
  constructor
  · intro h
    have hcast : (x : ZMod n) = (a * R : ℕ) := by rw [h.eq, Nat.cast_mul]
    rwa [ZMod.natCast_eq_natCast_iff', Nat.mod_eq_of_lt h.lt] at hcast
  · rintro rfl
    exact ⟨Nat.mod_lt _ hn, by rw [ZMod.natCast_mod, Nat.cast_mul]⟩

variable [Fact n.Prime]

/-- Forms are equal exactly for equal elements. -/
theorem eq_iff (hR : (R : ZMod n) ≠ 0) (hx : Form R n x X) (hy : Form R n y Y) :
    x = y ↔ X = Y := by
  constructor
  · intro h
    refine mul_right_cancel₀ hR ?_
    rw [← hx.eq, ← hy.eq, h]
  · rintro rfl
    have h : (x : ZMod n) = y := by rw [hx.eq, hy.eq]
    rwa [ZMod.natCast_eq_natCast_iff', Nat.mod_eq_of_lt hx.lt, Nat.mod_eq_of_lt hy.lt] at h

theorem eq_zero_iff (hR : (R : ZMod n) ≠ 0) (hx : Form R n x X) : x = 0 ↔ X = 0 :=
  hx.eq_iff hR ⟨(Fact.out : n.Prime).pos, by rw [Nat.cast_zero, zero_mul]⟩

end Form

end Enclave.Montgomery
