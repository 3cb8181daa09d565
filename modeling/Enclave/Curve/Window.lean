import Enclave.Curve.StraussShamir
import Mathlib.GroupTheory.OrderOfElement

/-!
# Two bits at a time, with an incomplete addition

`window P Q u v m A` scans `m` pairs of bits of `u` and `v` from the top: each step multiplies the
accumulator by four and adds the table entry `i P + j Q` that the two pairs of bits select.  The
additions, those of the table included, are `chordAdd`: the sum of two different points, but zero
for a point and itself.

`Regular P Q u v m` says that no addition behind the result meets a nonzero point twice; then the
scan computes `u P + v Q` (`window_eq_of_regular`).  A scan that is regular but for one step leaves
out what that step should have added (`window_of_exceptional`).

A scan of one scalar below twice the order of the point is regular but for one value of the scalar
(`regular_of_ne`), and with that value its last step is exceptional (`exceptional_of_eq`).
-/

namespace Enclave.Curve

variable {G : Type*} [AddCommGroup G]

/-- The `k`-th pair of bits of `u`. -/
def pairAt (u k : ℕ) : ℕ := u >>> (2 * k) % 4

theorem pairAt_lt (u k : ℕ) : pairAt u k < 4 := Nat.mod_lt _ (by decide)

/-- Above the top of a number its pairs of bits are zero. -/
theorem pairAt_of_lt {u k : ℕ} (h : u < 2 ^ (2 * k)) : pairAt u k = 0 := by
  rw [pairAt, Nat.shiftRight_eq_div_pow, Nat.div_eq_of_lt h, Nat.zero_mod]

theorem shiftRight_two_mul (u k : ℕ) :
    u >>> (2 * k) = 4 * u >>> (2 * (k + 1)) + pairAt u k := by
  have hsucc : u >>> (2 * (k + 1)) = u >>> (2 * k) / 4 := by
    rw [Nat.mul_succ, Nat.shiftRight_add, Nat.shiftRight_eq_div_pow _ 2]
  rw [pairAt, hsucc]
  omega

/-- Taking in the next pair of bits of each scalar. -/
theorem combination_eq_quadruple_add (P Q : G) (u v k : ℕ) :
    combination P Q u v (2 * k)
      = 4 • combination P Q u v (2 * (k + 1)) + (pairAt u k • P + pairAt v k • Q) := by
  rw [combination, shiftRight_two_mul u k, shiftRight_two_mul v k, combination]
  simp only [add_nsmul, mul_nsmul', nsmul_add]
  abel

/-! ### Regular steps -/

/-- The step for the `k`-th pair of bits adds no nonzero point to itself, neither in the entry of
the table that it selects nor when it adds the entry. -/
structure RegularAt (P Q : G) (u v k : ℕ) : Prop where
  table : pairAt u k • P = pairAt v k • Q → pairAt v k • Q = 0
  scan : 4 • combination P Q u v (2 * (k + 1)) = pairAt u k • P + pairAt v k • Q →
    pairAt u k • P + pairAt v k • Q = 0

/-- No step of the scan adds a nonzero point to itself. -/
def Regular (P Q : G) (u v m : ℕ) : Prop := ∀ k < m, RegularAt P Q u v k

/-- Where nothing has been accumulated yet, only the entry of the table can be exceptional. -/
theorem regularAt_of_lt {P Q : G} {u v k : ℕ} (hu : u < 2 ^ (2 * (k + 1)))
    (hv : v < 2 ^ (2 * (k + 1)))
    (htable : pairAt u k • P = pairAt v k • Q → pairAt v k • Q = 0) : RegularAt P Q u v k := by
  refine ⟨htable, fun heq => ?_⟩
  rw [← heq, combination_of_lt P Q hu hv, nsmul_zero]

/-! ### The scan -/

section Scan

variable [DecidableEq G]

/-- The sum of two different points; zero for a point and itself. -/
def chordAdd (A B : G) : G := if A = B then 0 else A + B

/-- The incomplete addition is the sum unless it meets a nonzero point twice. -/
theorem chordAdd_eq_add {A B : G} (h : A = B → B = 0) : chordAdd A B = A + B := by
  unfold chordAdd
  split_ifs with hAB
  · rw [hAB, h hAB, add_zero]
  · rfl

@[simp] theorem chordAdd_zero (A : G) : chordAdd A 0 = A := by
  rw [chordAdd_eq_add fun _ => rfl, add_zero]

@[simp] theorem zero_chordAdd (B : G) : chordAdd 0 B = B := by
  rw [chordAdd_eq_add Eq.symm, zero_add]

/-- Scans the lower `m` pairs of bits of the two scalars, from the top. -/
@[irreducible] def window (P Q : G) (u v : ℕ) : ℕ → G → G
  | 0, A => A
  | k + 1, A =>
    window P Q u v k (chordAdd (4 • A) (chordAdd (pairAt u k • P) (pairAt v k • Q)))

/-- A regular step takes in the next pair of bits. -/
theorem window_step {P Q : G} {u v k : ℕ} (h : RegularAt P Q u v k) :
    window P Q u v (k + 1) (combination P Q u v (2 * (k + 1)))
      = window P Q u v k (combination P Q u v (2 * k)) := by
  rw [window, chordAdd_eq_add h.table, chordAdd_eq_add h.scan, ← combination_eq_quadruple_add]

/-- Regular steps take in the bits above the `k`-th pair. -/
theorem window_upper {P Q : G} {u v k m : ℕ} (hk : k ≤ m)
    (h : ∀ j, k ≤ j → j < m → RegularAt P Q u v j) :
    window P Q u v m (combination P Q u v (2 * m))
      = window P Q u v k (combination P Q u v (2 * k)) := by
  induction m, hk using Nat.le_induction with
  | base => rfl
  | succ m hk ih =>
    rw [window_step (h m hk (Nat.lt_succ_self m))]
    exact ih fun j hj hjm => h j hj (by omega)

/-- A regular scan from the top computes the combination of the two points. -/
theorem window_eq_of_regular {P Q : G} {u v m : ℕ} (h : Regular P Q u v m) (hu : u < 2 ^ (2 * m))
    (hv : v < 2 ^ (2 * m)) : window P Q u v m 0 = u • P + v • Q := by
  have hscan := window_upper (Nat.zero_le m) fun j _ hj => h j hj
  rwa [combination_of_lt P Q hu hv, window, combination, mul_zero, Nat.shiftRight_zero,
    Nat.shiftRight_zero] at hscan

/-! ### One exceptional step -/

theorem pairAt_mod (u : ℕ) {j k : ℕ} (h : j < k) : pairAt (u % 2 ^ (2 * k)) j = pairAt u j := by
  have hsplit : 2 ^ (2 * k) = 2 ^ (2 * j) * (4 * 2 ^ (2 * (k - j - 1))) := by
    rw [show 4 = 2 ^ 2 from rfl, ← pow_add, ← pow_add]
    congr 1
    omega
  rw [pairAt, pairAt, Nat.shiftRight_eq_div_pow, Nat.shiftRight_eq_div_pow, hsplit,
    Nat.mod_mul_right_div_self, Nat.mod_mul_right_mod]

/-- The scan of the lower bits does not see the upper ones. -/
theorem window_mod (P Q : G) (u v : ℕ) {k m : ℕ} (hk : k ≤ m) :
    ∀ A, window P Q (u % 2 ^ (2 * m)) (v % 2 ^ (2 * m)) k A = window P Q u v k A := by
  induction k with
  | zero =>
    intro A
    rw [window, window]
  | succ k ih =>
    intro A
    rw [window, window, pairAt_mod u hk, pairAt_mod v hk, ih (by omega)]

/-- The step for the `k`-th pair of bits is the only one of the scan that adds a nonzero point to
itself: the accumulator meets the entry. -/
structure Exceptional (P Q : G) (u v m k : ℕ) : Prop where
  lt : k < m
  above : ∀ j, k < j → j < m → RegularAt P Q u v j
  table : pairAt u k • P = pairAt v k • Q → pairAt v k • Q = 0
  meets : 4 • combination P Q u v (2 * (k + 1)) = pairAt u k • P + pairAt v k • Q
  ne_zero : pairAt u k • P + pairAt v k • Q ≠ 0
  below : Regular P Q (u % 2 ^ (2 * k)) (v % 2 ^ (2 * k)) k

/-- **A scan with one exceptional step** goes on from zero there, and the double of the entry is
missing in the end. -/
theorem window_of_exceptional {P Q : G} {u v k m : ℕ} (h : Exceptional P Q u v m k)
    (hu : u < 2 ^ (2 * m)) (hv : v < 2 ^ (2 * m)) :
    window P Q u v m 0 + (2 * 2 ^ (2 * k)) • (pairAt u k • P + pairAt v k • Q)
      = u • P + v • Q := by
  have hupper := window_upper (show k + 1 ≤ m from h.lt) fun j hj => h.above j hj
  -- the exceptional step ends at zero
  rw [combination_of_lt P Q hu hv, window, chordAdd_eq_add h.table, h.meets, chordAdd, if_pos rfl]
    at hupper
  have hpos : 0 < 2 ^ (2 * k) := Nat.two_pow_pos _
  have hlower := window_eq_of_regular h.below (Nat.mod_lt u hpos) (Nat.mod_lt v hpos)
  rw [window_mod P Q u v le_rfl] at hlower
  -- the bits from the `k`-th pair on stand for twice the entry
  have hdouble : (u / 2 ^ (2 * k)) • P + (v / 2 ^ (2 * k)) • Q
      = 2 • (pairAt u k • P + pairAt v k • Q) := by
    rw [two_nsmul]
    nth_rewrite 1 [← h.meets]
    rw [← combination_eq_quadruple_add, combination, Nat.shiftRight_eq_div_pow,
      Nat.shiftRight_eq_div_pow]
  rw [hupper, hlower, mul_comm 2 (2 ^ (2 * k)), mul_nsmul', ← hdouble, nsmul_add, ← mul_nsmul',
    ← mul_nsmul', add_add_add_comm, ← add_nsmul, ← add_nsmul, Nat.mod_add_div, Nat.mod_add_div]

end Scan

/-! ### One scalar -/

section OneScalar

variable {P : G} {u : ℕ}

/-- A multiple below the order, and the pair of bits that comes next. -/
theorem pairAt_nsmul_eq_zero {k : ℕ} (hlt : u >>> (2 * k) < addOrderOf P)
    (heq : (4 * u >>> (2 * (k + 1))) • P = pairAt u k • P) : pairAt u k • P = 0 := by
  have hsplit := shiftRight_two_mul u k
  have hpair := pairAt_lt u k
  by_cases hzero : u >>> (2 * (k + 1)) = 0
  · rw [← heq, hzero, mul_zero, zero_nsmul]
  · have hmul : 4 * u >>> (2 * (k + 1)) = pairAt u k :=
      nsmul_injOn_Iio_addOrderOf (Set.mem_Iio.mpr (by omega)) (Set.mem_Iio.mpr (by omega)) heq
    omega

/-- The upper bits of a scalar below twice the order are below the order. -/
theorem shiftRight_lt_addOrderOf (hu : u < 2 * addOrderOf P) {k : ℕ} (hk : 0 < k) :
    u >>> (2 * k) < addOrderOf P := by
  have hle : u >>> (2 * k) ≤ u >>> 2 := by
    rw [show 2 * k = 2 + 2 * (k - 1) by omega, Nat.shiftRight_add]
    exact Nat.shiftRight_le _ _
  rw [Nat.shiftRight_eq_div_pow _ 2] at hle
  omega

/-- A scan of one scalar is regular, unless its last step meets the entry `u % 4` once more after
the order. -/
theorem regular_of_ne {m : ℕ} (hu : u < 2 * addOrderOf P)
    (hne : u ≠ addOrderOf P + 2 * (u % 4)) : Regular P 0 u 0 m := by
  refine fun k _ => ⟨fun _ => nsmul_zero _, fun heq => ?_⟩
  simp only [combination, nsmul_zero, add_zero, ← mul_nsmul'] at heq ⊢
  obtain rfl | hk := Nat.eq_zero_or_pos k
  · have hpair : pairAt u 0 = u % 4 := rfl
    have hshift : u >>> (2 * (0 + 1)) = u / 4 := Nat.shiftRight_eq_div_pow u 2
    rw [hpair, hshift] at heq
    rw [hpair]
    by_cases hlt : u < 4
    · rw [← heq, Nat.div_eq_of_lt hlt, mul_zero, zero_nsmul]
    · -- the difference of the multiples is below twice the order, and neither zero nor the order
      have hdvd : addOrderOf P ∣ 4 * (u / 4) - u % 4 := by
        rw [← Nat.modEq_iff_dvd' (by omega)]
        exact (nsmul_eq_nsmul_iff_modEq.mp heq).symm
      obtain ⟨c, hc⟩ := hdvd
      have hc0 : c ≠ 0 := by
        rintro rfl
        omega
      have hc1 : c ≠ 1 := by
        rintro rfl
        omega
      have hbig : addOrderOf P * 2 ≤ addOrderOf P * c := Nat.mul_le_mul_left _ (by omega)
      omega
  · exact pairAt_nsmul_eq_zero (shiftRight_lt_addOrderOf hu hk) heq

/-- With that scalar the last step is exceptional, and no other. -/
theorem exceptional_of_eq {m : ℕ} (hm : 0 < m) (hu : u < 2 * addOrderOf P)
    (heq : u = addOrderOf P + 2 * (u % 4)) (hne : (u % 4) • P ≠ 0) :
    Exceptional P 0 u 0 m 0 where
  lt := hm
  above := by
    intro k hk _
    refine ⟨fun _ => nsmul_zero _, ?_⟩
    simp only [combination, nsmul_zero, add_zero, ← mul_nsmul']
    exact pairAt_nsmul_eq_zero (shiftRight_lt_addOrderOf hu hk)
  table _ := nsmul_zero _
  meets := by
    have hpair : pairAt u 0 = u % 4 := rfl
    have hshift : u >>> (2 * (0 + 1)) = u / 4 := Nat.shiftRight_eq_div_pow u 2
    rw [combination, hshift, hpair, nsmul_zero, nsmul_zero, add_zero, add_zero, ← mul_nsmul',
      show 4 * (u / 4) = u % 4 + addOrderOf P by omega, add_nsmul, addOrderOf_nsmul_eq_zero,
      add_zero]
  ne_zero := by
    rw [nsmul_zero, add_zero]
    exact hne
  below := fun k hk => absurd hk (Nat.not_lt_zero k)

end OneScalar

end Enclave.Curve
