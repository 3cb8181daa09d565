import Mathlib.Algebra.Field.ZMod
import Mathlib.Data.Nat.Log
import Mathlib.Tactic.LinearCombination
import Mathlib.Tactic.Ring

/-!
# The binary extended Euclidean algorithm

The algorithm keeps two coprime numbers `u` and `v` and two residues `b` and `c` modulo an odd prime
`m` with `b base = u r` and `c base = v r` (`Invariant`).  An even number is halved together with
its residue, and the smaller number is subtracted from the greater one together with its residue;
each keeps the invariant (`Invariant.halve`, `Invariant.sub`), however the new residue is computed.
Where one of the numbers is `1` its residue is `r / base`.

Each iteration takes a bit from the product of the two numbers (`bits_lt`), so that the algorithm
ends after as many iterations as the product has bits (`bits_le`).
-/

namespace Enclave.BinaryInverse

variable {m : ℕ} {base r : ZMod m} {u v b c d : ℕ}

/-- The residue `b` goes with the number `u`. -/
structure Tracks (base r : ZMod m) (u b : ℕ) : Prop where
  lt : b < m
  eq : (b : ZMod m) * base = u * r

/-- The state of the algorithm. -/
structure Invariant (base r : ZMod m) (u v b c : ℕ) : Prop where
  coprime : u.Coprime v
  left : Tracks base r u b
  right : Tracks base r v c

namespace Invariant

theorem symm (h : Invariant base r u v b c) : Invariant base r v u c b :=
  ⟨h.coprime.symm, h.right, h.left⟩

/-- A number is zero only next to `1`. -/
theorem pos_left (h : Invariant base r u v b c) (hv : v ≠ 1) : 0 < u := by
  refine Nat.pos_of_ne_zero fun h0 => hv ?_
  have hcoprime := h.coprime
  rwa [h0, Nat.coprime_zero_left] at hcoprime

theorem halve [Fact m.Prime] (h : Invariant base r u v b c) (hodd : m ≠ 2) (hu : u % 2 = 0)
    (hd : d < m) (hhalf : 2 * (d : ZMod m) = b) : Invariant base r (u / 2) v d c := by
  have hdouble : 2 * (u / 2) = u := by omega
  refine ⟨?_, ⟨hd, ?_⟩, h.right⟩
  · have hcoprime := h.coprime
    rw [← hdouble] at hcoprime
    exact hcoprime.coprime_mul_left
  · have h2 : (2 : ZMod m) ≠ 0 := by
      intro h2
      have hdvd : m ∣ 2 := (ZMod.natCast_eq_zero_iff 2 m).mp (by exact_mod_cast h2)
      exact hodd ((Nat.prime_dvd_prime_iff_eq Fact.out Nat.prime_two).mp hdvd)
    have hu2 : (2 : ZMod m) * (u / 2 : ℕ) = u := by
      exact_mod_cast congrArg (fun w : ℕ => (w : ZMod m)) hdouble
    refine mul_left_cancel₀ h2 ?_
    linear_combination base * hhalf + h.left.eq - r * hu2

theorem sub (h : Invariant base r u v b c) (hle : v ≤ u) (hd : d < m)
    (hdiff : (d : ZMod m) = b - c) : Invariant base r (u - v) v d c := by
  refine ⟨(Nat.coprime_sub_self_left hle).mpr h.coprime, ⟨hd, ?_⟩, h.right⟩
  rw [hdiff, Nat.cast_sub hle]
  linear_combination h.left.eq - h.right.eq

/-- Next to `1` stands the quotient. -/
theorem eq_of_left_eq_one (h : Invariant base r u v b c) (hu : u = 1) :
    (b : ZMod m) * base = r := by
  rw [h.left.eq, hu, Nat.cast_one, one_mul]

end Invariant

/-! ### Termination -/

/-- The bits of the product of the two numbers, and one more if none of them is even. -/
def bits (u v : ℕ) : ℕ :=
  Nat.log 2 (u * v) + if u % 2 = 1 ∧ v % 2 = 1 then 1 else 0

theorem bits_le {k : ℕ} (hpos : 0 < u * v) (hu : u < 2 ^ k) (hv : v < 2 ^ k) :
    bits u v ≤ k + k := by
  have hproduct : u * v < 2 ^ (k + k) := by
    rw [pow_add]
    exact Nat.mul_lt_mul'' hu hv
  have hlog : Nat.log 2 (u * v) < k + k := Nat.log_lt_of_lt_pow hpos.ne' hproduct
  unfold bits
  split_ifs <;> omega

/-- An iteration of the algorithm goes from `x` and `y` to `u` and `v`, half of them at most where
they are even, and then replaces one of these by an even number that is not greater. -/
theorem bits_lt {x y u' v' : ℕ} (hx : 1 < x) (hy : 1 < y) (hu : u ≤ x) (hv : v ≤ y)
    (hueven : x % 2 = 0 → 2 * u ≤ x) (hveven : y % 2 = 0 → 2 * v ≤ y)
    (hproduct : u' * v' ≤ u * v) (heven : u' % 2 = 0 ∨ v' % 2 = 0) : bits u' v' < bits x y := by
  have hlast : bits u' v' = Nat.log 2 (u' * v') := by
    rw [bits, if_neg (by omega), add_zero]
  rw [hlast, bits]
  split_ifs with hodd
  · exact Nat.lt_succ_of_le (Nat.log_mono_right (hproduct.trans (Nat.mul_le_mul hu hv)))
  · -- one of the two was halved
    have hhalf : u' * v' ≤ x * y / 2 := by
      rw [Nat.le_div_iff_mul_le (by decide)]
      have hcases : x % 2 = 0 ∨ y % 2 = 0 := by omega
      rcases hcases with h | h
      · calc u' * v' * 2 ≤ u * v * 2 := Nat.mul_le_mul_right 2 hproduct
          _ = 2 * u * v := by ring
          _ ≤ x * y := Nat.mul_le_mul (hueven h) hv
      · calc u' * v' * 2 ≤ u * v * 2 := Nat.mul_le_mul_right 2 hproduct
          _ = u * (2 * v) := by ring
          _ ≤ x * y := Nat.mul_le_mul hu (hveven h)
    have hlog : 0 < Nat.log 2 (x * y) :=
      Nat.log_pos (by decide) (hx.trans_le (Nat.le_mul_of_pos_right x (by omega)))
    have hmono := Nat.log_mono_right (b := 2) hhalf
    rw [Nat.log_div_base] at hmono
    omega

end Enclave.BinaryInverse
