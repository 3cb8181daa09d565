import Mathlib.Algebra.Group.Nat.Hom
import Mathlib.Algebra.Module.NatInt
import Mathlib.Data.Nat.Bitwise
import Mathlib.Tactic.Abel
import Mathlib.Tactic.Positivity

/-!
# Simultaneous double-and-add

`combination P Q u v k` is `⌊u / 2^k⌋ P + ⌊v / 2^k⌋ Q`: what a scan of the bits of `u` and `v` from
the top has accumulated when `k` bits are left.  One more bit of each doubles it and adds one of
`0`, `P`, `Q` and `P + Q` (`combination_eq_double_add`).
-/

namespace Enclave.Curve

variable {G : Type*} [AddCommMonoid G]

/-- The combination of the bits of `u` and `v` from bit `k` up. -/
def combination (P Q : G) (u v k : ℕ) : G := (u >>> k) • P + (v >>> k) • Q

/-- The bits of `v` and `u` at `k` as a number below four. -/
def bitPair (k u v : ℕ) : ℕ := (((v >>> k) &&& 1) <<< 1) + ((u >>> k) &&& 1)

/-- What a pair of bits adds. -/
def ofBitPair (P Q : G) : ℕ → G
  | 0 => 0
  | 1 => P
  | 2 => Q
  | _ => P + Q

theorem combination_of_lt (P Q : G) {u v k : ℕ} (hu : u < 2 ^ k) (hv : v < 2 ^ k) :
    combination P Q u v k = 0 := by
  rw [combination, Nat.shiftRight_eq_div_pow, Nat.shiftRight_eq_div_pow, Nat.div_eq_of_lt hu,
    Nat.div_eq_of_lt hv, zero_nsmul, zero_nsmul, zero_add]

theorem bitPair_lt (k u v : ℕ) : bitPair k u v < 4 := by
  unfold bitPair
  rw [Nat.and_one_is_mod, Nat.and_one_is_mod, Nat.shiftLeft_eq]
  omega

theorem ofBitPair_bitPair (P Q : G) (k u v : ℕ) :
    ofBitPair P Q (bitPair k u v) = (u >>> k % 2) • P + (v >>> k % 2) • Q := by
  unfold bitPair
  rw [Nat.and_one_is_mod, Nat.and_one_is_mod]
  rcases Nat.mod_two_eq_zero_or_one (u >>> k) with hu | hu <;>
    rcases Nat.mod_two_eq_zero_or_one (v >>> k) with hv | hv <;>
    simp [hu, hv, ofBitPair]

/-- Taking in the next bit of each scalar. -/
theorem combination_eq_double_add (P Q : G) (u v k : ℕ) :
    combination P Q u v k
      = combination P Q u v (k + 1) + combination P Q u v (k + 1)
        + ofBitPair P Q (bitPair k u v) := by
  have hsplit : ∀ w : ℕ, w >>> k = w >>> (k + 1) + w >>> (k + 1) + w >>> k % 2 := by
    intro w
    rw [Nat.shiftRight_succ]
    omega
  rw [ofBitPair_bitPair, combination, combination]
  conv_lhs => rw [hsplit u, hsplit v]
  simp only [add_nsmul]
  abel

/-- The first pair of bits that is not clear is all that has been accumulated. -/
theorem combination_of_leading (P Q : G) {u v k : ℕ} (hu : u < 2 ^ (k + 1)) (hv : v < 2 ^ (k + 1)) :
    combination P Q u v k = ofBitPair P Q (bitPair k u v) := by
  rw [combination_eq_double_add, combination_of_lt P Q hu hv, add_zero, zero_add]

/-- A number with a clear top bit fits in one bit less. -/
theorem lt_of_shiftRight_mod_eq_zero {w k : ℕ} (hw : w < 2 ^ (k + 1)) (h : w >>> k % 2 = 0) :
    w < 2 ^ k := by
  have hdiv : w / 2 ^ k < 2 := by
    rw [Nat.div_lt_iff_lt_mul (by positivity)]
    rwa [pow_succ, mul_comm] at hw
  rw [Nat.shiftRight_eq_div_pow, Nat.mod_eq_of_lt hdiv] at h
  exact (Nat.div_eq_zero_iff_lt (by positivity)).mp h

theorem lt_of_bitPair_eq_zero {u v k : ℕ} (hu : u < 2 ^ (k + 1)) (hv : v < 2 ^ (k + 1))
    (h : bitPair k u v = 0) : u < 2 ^ k ∧ v < 2 ^ k := by
  unfold bitPair at h
  rw [Nat.and_one_is_mod, Nat.and_one_is_mod, Nat.shiftLeft_eq] at h
  exact ⟨lt_of_shiftRight_mod_eq_zero hu (by omega), lt_of_shiftRight_mod_eq_zero hv (by omega)⟩

end Enclave.Curve
