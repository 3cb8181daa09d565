import Enclave.Curve.Window
import Enclave.P256.Equiv.Verifier
import Enclave.P256.SECP256R1

/-!
# `SECP256R1.verify` against `P256Verifier.ecdsa_verify`

On representatives of curve points the library's operations compute in the group, except that its
addition is the incomplete `chordAdd` (`jAdd_spec`), so that its double scalar multiplication is
`window` (`shamirMultJacobian_spec`).  `verify` then compares the abscissa of that point with `r`.

`agree_iff` says where this is the verdict of `ecdsa_verify`.  The two differ in four ways:

* a zero `r` or `s` is not rejected (`verify_of_scalar_zero`);
* the key is not validated (`verify_unchecked_key`);
* the abscissa is compared with `r` without a reduction modulo `n`;
* an addition that meets a point twice gives infinity (`Regular` excludes such additions).
-/

namespace Enclave.SECP256R1

open Curve P256 WeierstrassCurve.Affine

theorem PP_eq : PP = p := rfl

theorem NN_eq : NN = n := rfl

theorem natCast_A : (A : ZMod p) = -3 := natCast_a

/-! ### Arithmetic -/

theorem subPd_lt {x y : ℕ} (hx : x < p) (hy : y < p) : subPd x y < p :=
  Yul.subMod_lt p_lt.le hx hy

theorem natCast_subPd {x y : ℕ} (hx : x < p) (hy : y < p) : (subPd x y : ZMod p) = x - y :=
  Yul.natCast_subMod p_lt.le hx hy

theorem modexp_eq {u e m : ℕ} (hu : u < 2 ^ 256) (he : e < 2 ^ 256) (hm : m < 2 ^ 256)
    (hpos : 0 < m) : modexp u e m = .ok (u ^ e % m) := by
  -- the base is reduced first when it exceeds the modulus
  have hbase : (if u > m then u % m else u) < 2 ^ 256 := by
    split_ifs
    · exact (Nat.mod_lt _ hpos).trans hm
    · exact hu
  have hpow : (if u > m then u % m else u) ^ e % m = u ^ e % m := by
    split_ifs
    · exact (Nat.pow_mod u e m).symm
    · rfl
  have hlt : u ^ e % m < 256 ^ 32 := lt_trans (Nat.mod_lt _ hpos) hm
  rw [modexp, modexp_ofNat hbase he hm hpos, hpow]
  show Except.ok (ofBytesBE (List.take 32 (toBytesBE 32 (u ^ e % m)))) = _
  rw [List.take_of_length_le (length_toBytesBE 32 _).le, ofBytesBE_toBytesBE_of_lt hlt]

theorem primemod_spec {m : ℕ} [Fact m.Prime] (h2 : 2 < m) (hm : m < 2 ^ 256) {u : ℕ}
    (hu : u < 2 ^ 256) :
    ∃ v, primemod u m = .ok v ∧ v < m ∧ (v : ZMod m) = (u : ZMod m)⁻¹ := by
  refine ⟨u ^ (m - 2) % m, modexp_eq hu (by omega) hm (by omega), Nat.mod_lt _ (by omega), ?_⟩
  rw [ZMod.natCast_mod, Nat.cast_pow, pow_sub_two_eq_inv h2]

/-! ### Points -/

/-- The entries of a triple as field elements. -/
def toField (P : JPoint) : Jacobian (ZMod p) := ⟨P.x, P.y, P.z⟩

/-- A triple that stands for the point `A`.  Its third coordinate is reduced modulo `p`; the other
two, which for the key are whatever the caller passed, need not be. -/
structure Stands (P : JPoint) (A : curve.Point) : Prop where
  z_lt : P.z < p
  represents : (toField P).Represents A

theorem Stands.z_eq_zero_iff {P : JPoint} {A : curve.Point} (h : Stands P A) :
    P.z = 0 ↔ A = 0 := by
  rw [← natCast_eq_zero_of_lt h.z_lt]
  exact Jacobian.z_eq_zero_iff h.represents

theorem stands_zero : Stands ⟨0, 0, 0⟩ 0 :=
  ⟨p_pos, Jacobian.represents_zero.mpr Nat.cast_zero⟩

theorem stands_affine {x y : ℕ} (h : curve.Nonsingular (x : ZMod p) (y : ZMod p)) :
    Stands ⟨x, y, 1⟩ (.some _ _ h) := by
  refine ⟨prime_p.one_lt, ?_⟩
  have hcast : toField ⟨x, y, 1⟩ = ⟨(x : ZMod p), (y : ZMod p), 1⟩ := by
    simp [toField]
  rw [hcast]
  exact Jacobian.represents_affine h

theorem modifiedJacobianDouble_spec {P : JPoint} {A : curve.Point} (h : Stands P A) :
    Stands (modifiedJacobianDouble P) (A + A) := by
  refine ⟨mulmod_lt p_pos _ _, ?_⟩
  have hmul : ∀ x y, mulmod x y p < p := mulmod_lt p_pos
  have hdouble := Jacobian.represents_double two_ne_zero h.represents
  convert hdouble using 1
  ext <;>
    simp only [toField, modifiedJacobianDouble, Jacobian.double, PP_eq, natCast_mulmod,
      natCast_addmod, natCast_subPd, subPd_lt, hmul, natCast_A] <;>
    push_cast <;> ring

/-- On finite points the assembly is the formula `add-2007-bl`. -/
theorem toField_jAdd {P Q : JPoint} (hP : P.z ≠ 0) (hQ : Q.z ≠ 0) :
    (jAdd P Q).z < p ∧ toField (jAdd P Q) = (toField P).add (toField Q) := by
  have hmul : ∀ x y, mulmod x y p < p := mulmod_lt p_pos
  have hadd : ∀ x y, addmod x y p < p := addmod_lt p_pos
  rw [jAdd, if_neg hP, if_neg hQ]
  refine ⟨hmul _ _, ?_⟩
  ext <;>
    simp only [toField, Jacobian.add, PP_eq, natCast_mulmod, natCast_addmod, natCast_subPd,
      subPd_lt, hmul, hadd] <;>
    push_cast <;> ring

theorem jAdd_spec {P Q : JPoint} {A B : curve.Point} (hP : Stands P A) (hQ : Stands Q B) :
    Stands (jAdd P Q) (chordAdd A B) := by
  by_cases hPz : P.z = 0
  · rw [jAdd, if_pos hPz, hP.z_eq_zero_iff.mp hPz, zero_chordAdd]
    exact hQ
  by_cases hQz : Q.z = 0
  · rw [jAdd, if_neg hPz, if_pos hQz, hQ.z_eq_zero_iff.mp hQz, chordAdd_zero]
    exact hP
  obtain ⟨hlt, hfield⟩ := toField_jAdd hPz hQz
  refine ⟨hlt, ?_⟩
  rw [hfield]
  cases A with
  | zero => exact absurd (hP.z_eq_zero_iff.mpr rfl) hPz
  | some x₁ y₁ h₁ =>
    cases B with
    | zero => exact absurd (hQ.z_eq_zero_iff.mpr rfl) hQz
    | some x₂ y₂ h₂ =>
      by_cases hx : x₁ = x₂
      · -- equal or opposite points: the third coordinate vanishes in both cases
        have hzero : chordAdd (Point.some x₁ y₁ h₁) (Point.some x₂ y₂ h₂) = 0 := by
          subst hx
          unfold chordAdd
          split_ifs with heq
          · rfl
          · refine add_eq_zero_of_x_eq fun hy => heq ?_
            subst hy
            rfl
        rw [hzero, Jacobian.represents_zero]
        exact Jacobian.z_add_eq_zero hP.represents hQ.represents hx
      · have hne : Point.some x₁ y₁ h₁ = Point.some x₂ y₂ h₂ → Point.some x₂ y₂ h₂ = 0 :=
          fun heq => absurd (Point.some.inj heq).1 hx
        rw [chordAdd_eq_add hne]
        exact Jacobian.represents_add two_ne_zero hP.represents hQ.represents hx

theorem affineFromJacobian_spec {P : JPoint} {A : curve.Point} (h : Stands P A) :
    ∃ x y, affineFromJacobian P = .ok (x, y) ∧ Encodes x y A := by
  unfold affineFromJacobian
  split_ifs with hz
  · rw [h.z_eq_zero_iff.mp hz]
    exact ⟨0, 0, rfl, rfl, rfl⟩
  · obtain ⟨zinv, hprime, -, hinv⟩ :=
      primemod_spec (m := p) (by decide) p_lt (h.z_lt.trans p_lt)
    refine ⟨_, _, by rw [PP_eq, hprime, ok_bind], ?_⟩
    cases A with
    | zero => exact absurd (h.z_eq_zero_iff.mpr rfl) hz
    | some X Y hXY =>
      obtain ⟨hzz, -, hX, hY⟩ := h.represents
      have hz' : (P.z : ZMod p) ≠ 0 := fun h0 => hz ((natCast_eq_zero_of_lt h.z_lt).mp h0)
      have hX' : (P.x : ZMod p) = X * (P.z : ZMod p) ^ 2 := hX
      have hY' : (P.y : ZMod p) = Y * (P.z : ZMod p) ^ 3 := hY
      refine ⟨mulmod_lt p_pos _ _, mulmod_lt p_pos _ _, ?_, ?_⟩
      · simp only [natCast_mulmod, hinv, hX']
        field_simp
      · simp only [natCast_mulmod, hinv, hY']
        field_simp

/-! ### The table -/

theorem stands_base : Stands ⟨GX, GY, 1⟩ base := stands_affine nonsingular_base

theorem stands_keyPoint {x y : ℕ} (hQ : ValidKey x y) : Stands ⟨x, y, 1⟩ (keyPoint hQ) :=
  stands_affine _

/-- A point and its double are different, unless both are zero. -/
theorem chordAdd_self_double (A : curve.Point) : chordAdd A (A + A) = 3 • A := by
  have h : A = A + A → A + A = 0 := fun heq => by
    rw [left_eq_add.mp heq, add_zero]
  rw [chordAdd_eq_add h, ← add_assoc, succ_nsmul, two_nsmul]

/-- A point, its double and the sum of the two. -/
theorem stands_multiples {P : JPoint} {A : curve.Point} (h : Stands P A) :
    Stands P (1 • A) ∧ Stands (modifiedJacobianDouble P) (2 • A) ∧
      Stands (jAdd P (modifiedJacobianDouble P)) (3 • A) := by
  have h2 := modifiedJacobianDouble_spec h
  have h3 := jAdd_spec h h2
  rw [chordAdd_self_double] at h3
  rw [← two_nsmul] at h2
  rw [one_nsmul]
  exact ⟨h, h2, h3⟩

/-- The multiples of the base point are in the table whatever the key is. -/
theorem preComputeJacobianPoints_base (passKey : PassKey) {i : ℕ} (hi : i < 4) :
    ∃ T, (preComputeJacobianPoints passKey)[4 * i]? = some T ∧ Stands T (i • base) := by
  obtain ⟨h1, h2, h3⟩ := stands_multiples stands_base
  obtain rfl | rfl | rfl | rfl : i = 0 ∨ i = 1 ∨ i = 2 ∨ i = 3 := by omega
  · exact ⟨_, rfl, by rw [zero_nsmul]; exact stands_zero⟩
  · exact ⟨_, rfl, h1⟩
  · exact ⟨_, rfl, h2⟩
  · exact ⟨_, rfl, h3⟩

/-- The sums of the multiples of two points, in the order of the table. -/
theorem stands_table {g1 g2 g3 q1 q2 q3 : JPoint} {G Q : curve.Point} (hg1 : Stands g1 (1 • G))
    (hg2 : Stands g2 (2 • G)) (hg3 : Stands g3 (3 • G)) (hq1 : Stands q1 (1 • Q))
    (hq2 : Stands q2 (2 • Q)) (hq3 : Stands q3 (3 • Q)) {i j : ℕ} (hi : i < 4) (hj : j < 4) :
    ∃ T, (#v[⟨0, 0, 0⟩, q1, q2, q3, g1, jAdd g1 q1, jAdd g1 q2, jAdd g1 q3,
        g2, jAdd g2 q1, jAdd g2 q2, jAdd g2 q3,
        g3, jAdd g3 q1, jAdd g3 q2, jAdd g3 q3] : Vector JPoint 16)[4 * i + j]? = some T ∧
      Stands T (chordAdd (i • G) (j • Q)) := by
  obtain rfl | hi0 := Nat.eq_zero_or_pos i
  · rw [zero_nsmul, zero_chordAdd]
    obtain rfl | rfl | rfl | rfl : j = 0 ∨ j = 1 ∨ j = 2 ∨ j = 3 := by omega
    · exact ⟨_, rfl, by rw [zero_nsmul]; exact stands_zero⟩
    · exact ⟨_, rfl, hq1⟩
    · exact ⟨_, rfl, hq2⟩
    · exact ⟨_, rfl, hq3⟩
  obtain rfl | hj0 := Nat.eq_zero_or_pos j
  · rw [zero_nsmul, chordAdd_zero]
    obtain rfl | rfl | rfl : i = 1 ∨ i = 2 ∨ i = 3 := by omega
    · exact ⟨_, rfl, hg1⟩
    · exact ⟨_, rfl, hg2⟩
    · exact ⟨_, rfl, hg3⟩
  obtain rfl | rfl | rfl : i = 1 ∨ i = 2 ∨ i = 3 := by omega
  all_goals
    obtain rfl | rfl | rfl : j = 1 ∨ j = 2 ∨ j = 3 := by omega
  · exact ⟨_, rfl, jAdd_spec hg1 hq1⟩
  · exact ⟨_, rfl, jAdd_spec hg1 hq2⟩
  · exact ⟨_, rfl, jAdd_spec hg1 hq3⟩
  · exact ⟨_, rfl, jAdd_spec hg2 hq1⟩
  · exact ⟨_, rfl, jAdd_spec hg2 hq2⟩
  · exact ⟨_, rfl, jAdd_spec hg2 hq3⟩
  · exact ⟨_, rfl, jAdd_spec hg3 hq1⟩
  · exact ⟨_, rfl, jAdd_spec hg3 hq2⟩
  · exact ⟨_, rfl, jAdd_spec hg3 hq3⟩

/-- With a valid key the table holds the incomplete sums of the multiples of both points. -/
theorem preComputeJacobianPoints_spec {x y : Word} (hQ : ValidKey x.toNat y.toNat) {i j : ℕ}
    (hi : i < 4) (hj : j < 4) :
    ∃ T, (preComputeJacobianPoints ⟨x, y⟩)[4 * i + j]? = some T ∧
      Stands T (chordAdd (i • base) (j • keyPoint hQ)) := by
  obtain ⟨hG1, hG2, hG3⟩ := stands_multiples stands_base
  obtain ⟨hQ1, hQ2, hQ3⟩ := stands_multiples (stands_keyPoint hQ)
  exact stands_table hG1 hG2 hG3 hQ1 hQ2 hQ3 hi hj

/-! ### The loop -/

/-- The scalar after the loop has shifted out all but its lower `k` pairs of bits. -/
def shifted (u k : ℕ) : ℕ := u % 4 ^ k * 4 ^ (128 - k)

theorem shifted_full {u : ℕ} (hu : u < 2 ^ 256) : shifted u 128 = u := by
  rw [shifted, Nat.sub_self, pow_zero, mul_one]
  exact Nat.mod_eq_of_lt hu

theorem shifted_lt (u : ℕ) {k : ℕ} (hk : k ≤ 128) : shifted u k < 2 ^ 256 := by
  have hsplit : (2 : ℕ) ^ 256 = 4 ^ k * 4 ^ (128 - k) := by
    rw [← pow_add, Nat.add_sub_of_le hk]
    rfl
  rw [shifted, hsplit]
  exact Nat.mul_lt_mul_of_pos_right (Nat.mod_lt _ (by positivity)) (by positivity)

/-- One shift drops the top pair of bits. -/
theorem shifted_shiftLeft (u : ℕ) {k : ℕ} (hk : k < 128) :
    shifted u (k + 1) <<< 2 % 2 ^ 256 = shifted u k := by
  have hsplit : (2 : ℕ) ^ 256 = 4 ^ k * 4 ^ (128 - k) := by
    rw [← pow_add, Nat.add_sub_of_le hk.le]
    rfl
  have hpow : (4 : ℕ) ^ (128 - (k + 1)) * 2 ^ 2 = 4 ^ (128 - k) := by
    rw [show 128 - k = 128 - (k + 1) + 1 by omega, pow_succ _ (128 - (k + 1))]
    rfl
  rw [shifted, shifted, Nat.shiftLeft_eq, mul_assoc, hpow, hsplit, Nat.mul_mod_mul_right,
    Nat.mod_mod_of_dvd _ (pow_dvd_pow 4 k.le_succ)]

/-- The top pair of bits is the next one of the scalar. -/
theorem shifted_div (u : ℕ) {k : ℕ} (hk : k < 128) : shifted u (k + 1) / 2 ^ 254 = pairAt u k := by
  have hsplit : (2 : ℕ) ^ 254 = 4 ^ k * 4 ^ (128 - (k + 1)) := by
    rw [← pow_add, show k + (128 - (k + 1)) = 127 by omega]
    rfl
  have h4 : (4 : ℕ) ^ k = 2 ^ (2 * k) := by rw [pow_mul]; rfl
  rw [shifted, hsplit, Nat.mul_div_mul_right _ _ (by positivity), pow_succ,
    Nat.mod_mul_right_div_self, pairAt, Nat.shiftRight_eq_div_pow, h4]

/-- The masks and shifts put the two top pairs of bits side by side. -/
theorem windowIndex_eq {u v : ℕ} (hu : u < 2 ^ 256) (hv : v < 2 ^ 256) :
    windowIndex u v = 4 * (u / 2 ^ 254) + v / 2 ^ 254 := by
  have hmask : ∀ w < 2 ^ 256, (w &&& MOST_SIGNIFICANT) >>> 254 = w / 2 ^ 254 := by
    intro w hw
    have hlt : w / 2 ^ 254 < 4 := by omega
    rw [Nat.shiftRight_and_distrib, Nat.shiftRight_eq_div_pow w]
    generalize w / 2 ^ 254 = d at hlt ⊢
    interval_cases d <;> rfl
  have hmask' : (u &&& MOST_SIGNIFICANT) >>> 252 = 4 * (u / 2 ^ 254) := by
    have hlt : u / 2 ^ 252 < 16 := by omega
    have hdiv : u / 2 ^ 254 = u / 2 ^ 252 / 4 := by
      rw [Nat.div_div_eq_div_mul]
      rfl
    rw [Nat.shiftRight_and_distrib, Nat.shiftRight_eq_div_pow u, hdiv]
    generalize u / 2 ^ 252 = d at hlt ⊢
    interval_cases d <;> rfl
  have hlt : u / 2 ^ 254 < 4 := by omega
  have hlt' : v / 2 ^ 254 < 4 := by omega
  rw [windowIndex, hmask', hmask v hv]
  generalize u / 2 ^ 254 = d at hlt ⊢
  generalize v / 2 ^ 254 = d' at hlt' ⊢
  interval_cases d <;> interval_cases d' <;> rfl

/-- Two doublings, left out when the accumulator is at infinity. -/
theorem quadruple_spec {P : JPoint} {A : curve.Point} (h : Stands P A) :
    Stands (if P.z > 0 then modifiedJacobianDouble (modifiedJacobianDouble P) else P) (4 • A) := by
  split_ifs with hz
  · have hdouble := modifiedJacobianDouble_spec (modifiedJacobianDouble_spec h)
    rwa [← two_nsmul, ← two_nsmul, ← mul_nsmul] at hdouble
  · have hzero : A = 0 := h.z_eq_zero_iff.mp (by omega)
    rw [hzero, nsmul_zero, ← hzero]
    exact h

section Loop

variable {points : Vector JPoint 16} {Q : curve.Point} {u v : ℕ}

/-- The table holds the entry that each step of the scan selects. -/
def Serves (points : Vector JPoint 16) (Q : curve.Point) (u v : ℕ) : Prop :=
  ∀ k, ∃ T, points[4 * pairAt u k + pairAt v k]? = some T ∧
    Stands T (chordAdd (pairAt u k • base) (pairAt v k • Q))

theorem pairAt_zero (k : ℕ) : pairAt 0 k = 0 := by
  rw [pairAt, Nat.zero_shiftRight]

/-- Without a second scalar the key is not used. -/
theorem serves_zero (passKey : PassKey) (u : ℕ) :
    Serves (preComputeJacobianPoints passKey) 0 u 0 := by
  intro k
  rw [pairAt_zero, zero_nsmul, chordAdd_zero]
  exact preComputeJacobianPoints_base passKey (pairAt_lt u k)

theorem serves_keyPoint {x y : Word} (hQ : ValidKey x.toNat y.toNat) (u v : ℕ) :
    Serves (preComputeJacobianPoints ⟨x, y⟩) (keyPoint hQ) u v :=
  fun k => preComputeJacobianPoints_spec hQ (pairAt_lt u k) (pairAt_lt v k)

/-- The loop is the scan, from any accumulator. -/
theorem shamirLoop_spec (hT : Serves points Q u v) :
    ∀ k ≤ 128, ∀ (P : JPoint) (A : curve.Point), Stands P A →
      ∃ P', shamirLoop points k (shifted u k) (shifted v k) P = .ok P' ∧
        Stands P' (window base Q u v k A) := by
  intro k
  induction k with
  | zero =>
    intro _ P A hP
    rw [window]
    exact ⟨P, rfl, hP⟩
  | succ k ih =>
    intro hk P A hP
    have hindex : windowIndex (shifted u (k + 1)) (shifted v (k + 1))
        = 4 * pairAt u k + pairAt v k := by
      rw [windowIndex_eq (shifted_lt u hk) (shifted_lt v hk), shifted_div u hk, shifted_div v hk]
    obtain ⟨T, hget, hstands⟩ := hT k
    have hquad := quadruple_spec hP
    rw [shamirLoop, hindex, shifted_shiftLeft u hk, shifted_shiftLeft v hk, window]
    by_cases hzero : 4 * pairAt u k + pairAt v k > 0
    · rw [if_pos hzero, hget]
      exact ih (by omega) _ _ (jAdd_spec hquad hstands)
    · -- no entry is added, and the entry would be zero
      have hu0 : pairAt u k = 0 := by omega
      have hv0 : pairAt v k = 0 := by omega
      rw [if_neg hzero, hu0, hv0, zero_nsmul, zero_nsmul, chordAdd_zero, chordAdd_zero]
      exact ih (by omega) _ _ hquad

/-- The double scalar multiplication returns the affine coordinates of the scan's result. -/
theorem shamirMultJacobian_spec (hT : Serves points Q u v) (hu : u < 2 ^ 256) (hv : v < 2 ^ 256) :
    ∃ x y, shamirMultJacobian points u v = .ok (x, y) ∧
      Encodes x y (window base Q u v 128 0) := by
  obtain ⟨P, hloop, hP⟩ := shamirLoop_spec hT 128 le_rfl ⟨0, 0, 0⟩ 0 stands_zero
  rw [shifted_full hu, shifted_full hv] at hloop
  obtain ⟨x, y, haffine, hxy⟩ := affineFromJacobian_spec hP
  refine ⟨x, y, ?_, hxy⟩
  rw [shamirMultJacobian, hloop, ok_bind, haffine]

end Loop

/-! ### The order of the base point -/

/-- `n G` is the point at infinity, evaluated with the operations of `P256Verifier`. -/
theorem nsmul_base : n • base = 0 := by
  have hrun : (P256Verifier.mulmuladdLoop 0 0 P256.GX P256.GY n 0 256
      P256Verifier.ecZZPointAtInf).map (·.zz) = .ok 0 := by decide +kernel
  have hzero : Encodes 0 0 (0 : curve.Point) := ⟨rfl, rfl⟩
  have hH : Encodes P256.GX P256.GY (base + 0) := by
    rw [add_zero]
    exact encodes_base
  have htop : combination base 0 n 0 256 = 0 :=
    combination_of_lt base 0 n_lt (by decide)
  have hstart : Loaded P256Verifier.ecZZPointAtInf (combination base 0 n 0 256) := by
    rw [htop]
    exact Or.inl stands_pointAtInf
  obtain ⟨P, hP, hloaded⟩ := mulmuladdLoop_spec hzero hH n 0 256 _ hstart
  rw [hP] at hrun
  have hzz : P.zz = 0 := Except.ok.inj hrun
  rw [zero_nsmul, add_zero] at hloaded
  generalize n • base = B at hloaded ⊢
  rcases hloaded with hstands | ⟨rfl, h⟩
  · refine XYZZ.eq_zero_of_represents hstands.represents ?_
    show (P.zz : ZMod p) = 0
    rw [hzz, Nat.cast_zero]
  · exact h

theorem addOrderOf_base : addOrderOf base = n :=
  addOrderOf_eq_prime nsmul_base (Point.some_ne_zero nonsingular_base)

/-! ### Verification -/

/-- The scalar `e / s` modulo `n`, zero for `s = 0`. -/
def scalar (e s : ℕ) : ℕ := ((e : ZMod n) * (s : ZMod n)⁻¹).val

theorem scalar_lt (e s : ℕ) : scalar e s < n := ZMod.val_lt _

theorem abscissa_of_encodes {x y : ℕ} {A : curve.Point} (h : Encodes x y A) : x = abscissa A := by
  cases A with
  | zero => exact h.1
  | some X Y hXY =>
    obtain ⟨hx, -, rfl, -⟩ := h
    show x = (x : ZMod p).val
    rw [ZMod.val_natCast, Nat.mod_eq_of_lt hx]

variable {x y r s e : Word}

theorem verify_of_range (h : n ≤ r.toNat ∨ n ≤ s.toNat) : verify ⟨x, y⟩ r s e = .ok false :=
  if_pos h

/-- With scalars below `n` the verdict compares the abscissa that the multiplication returns. -/
theorem verify_eq_mult (hr : r.toNat < n) (hs : s.toNat < n) :
    verify ⟨x, y⟩ r s e
      = (shamirMultJacobian (preComputeJacobianPoints ⟨x, y⟩) (scalar e.toNat s.toNat)
          (scalar r.toNat s.toNat) >>= fun P => .ok (P.1 == r.toNat)) := by
  obtain ⟨w, hw, -, hinv⟩ := primemod_spec (m := n) (by decide) n_lt s.isLt
  have hscalar : ∀ u : ℕ, mulmod u w n = scalar u s.toNat := fun u => by
    rw [scalar, ← hinv, ← natCast_mulmod, ZMod.val_natCast, Nat.mod_eq_of_lt (mulmod_lt n_pos _ _)]
  have hrange : ¬(r.toNat ≥ NN ∨ s.toNat ≥ NN) := by
    rw [NN_eq]
    omega
  rw [verify, if_neg hrange, verifyWithPrecompute, if_neg hrange, NN_eq, hw, ok_bind]
  simp only [hscalar]

/-- When the table serves the scan, that is the abscissa of the scan's result. -/
theorem verify_eq {Q : curve.Point} (hr : r.toNat < n) (hs : s.toNat < n)
    (hT : Serves (preComputeJacobianPoints ⟨x, y⟩) Q (scalar e.toNat s.toNat)
      (scalar r.toNat s.toNat)) :
    verify ⟨x, y⟩ r s e
      = .ok (abscissa (window base Q (scalar e.toNat s.toNat) (scalar r.toNat s.toNat) 128 0)
          == r.toNat) := by
  obtain ⟨X, Y, hmult, hXY⟩ := shamirMultJacobian_spec hT ((scalar_lt _ _).trans n_lt)
    ((scalar_lt _ _).trans n_lt)
  rw [verify_eq_mult hr hs, hmult, ok_bind, abscissa_of_encodes hXY]

theorem verify_of_validKey (hr : r.toNat < n) (hs : s.toNat < n) (hQ : ValidKey x.toNat y.toNat) :
    verify ⟨x, y⟩ r s e
      = .ok (abscissa (window base (keyPoint hQ) (scalar e.toNat s.toNat)
          (scalar r.toNat s.toNat) 128 0) == r.toNat) :=
  verify_eq hr hs (serves_keyPoint hQ _ _)

/-- When `r` or `s` is zero the key is not used, and the base point is multiplied as it should. -/
theorem verify_of_scalar_zero (hr : r.toNat < n) (hs : s.toNat < n)
    (hzero : scalar r.toNat s.toNat = 0) :
    verify ⟨x, y⟩ r s e = .ok (abscissa (scalar e.toNat s.toNat • base) == r.toNat) := by
  have hT : Serves (preComputeJacobianPoints ⟨x, y⟩) 0 (scalar e.toNat s.toNat)
      (scalar r.toNat s.toNat) := by
    rw [hzero]
    exact serves_zero _ _
  have hlt := scalar_lt e.toNat s.toNat
  have hregular : Regular base 0 (scalar e.toNat s.toNat) 0 128 :=
    regular_of_ne (by rw [addOrderOf_base]; omega) (by rw [addOrderOf_base]; omega)
  have hwindow := window_eq_of_regular hregular (hlt.trans n_lt) (by decide)
  rw [verify_eq hr hs hT, hzero, hwindow, zero_nsmul, add_zero]

/-! ### A key that is not checked -/

theorem scalar_self {u : ℕ} (hpos : 0 < u) (hu : u < n) : scalar u u = 1 := by
  have hne : (u : ZMod n) ≠ 0 := fun h => hpos.ne' ((natCast_eq_zero_of_lt hu).mp h)
  rw [scalar, mul_inv_cancel₀ hne, ZMod.val_one]

/-- The scalars `0` and `1` select the key itself, in the last window. -/
theorem shamirLoop_zero_one (points : Vector JPoint 16) {Q : JPoint} (hQ : points[1]? = some Q) :
    ∀ k < 128,
      shamirLoop points (k + 1) (shifted 0 (k + 1)) (shifted 1 (k + 1)) ⟨0, 0, 0⟩ = .ok Q := by
  intro k
  induction k with
  | zero =>
    intro hk
    have hindex : windowIndex (shifted 0 1) (shifted 1 1) = 1 := by
      rw [windowIndex_eq (shifted_lt 0 hk) (shifted_lt 1 hk), shifted_div 0 hk, shifted_div 1 hk]
      rfl
    rw [shamirLoop, hindex, if_pos Nat.one_pos, hQ]
    rfl
  | succ k ih =>
    intro hk
    have hpair1 : pairAt 1 (k + 1) = 0 := pairAt_of_lt (Nat.one_lt_two_pow (by omega))
    have hindex : windowIndex (shifted 0 (k + 2)) (shifted 1 (k + 2)) = 0 := by
      rw [windowIndex_eq (shifted_lt 0 hk) (shifted_lt 1 hk), shifted_div 0 hk, shifted_div 1 hk,
        pairAt_zero, hpair1]
    rw [shamirLoop, hindex, if_neg (lt_irrefl 0), shifted_shiftLeft 0 hk, shifted_shiftLeft 1 hk]
    exact ih (by omega)

theorem affineFromJacobian_one {u v : ℕ} (hu : u < p) :
    affineFromJacobian ⟨u, v, 1⟩ = .ok (u, v % p) := by
  obtain ⟨zinv, hprime, hlt, hinv⟩ :=
    primemod_spec (m := p) (by decide) p_lt (show 1 < 2 ^ 256 by decide)
  have hone : zinv = 1 := by
    rw [← natCast_inj_of_lt hlt prime_p.one_lt, hinv, Nat.cast_one, inv_one]
  rw [affineFromJacobian, if_neg Nat.one_ne_zero, PP_eq, hprime, ok_bind, hone]
  simp only [mulmod, if_neg p_pos.ne', mul_one, Nat.mod_eq_of_lt prime_p.one_lt,
    Nat.mod_eq_of_lt hu]

/-- A signature of the hash zero that is accepted under a key of which only the abscissa is
known, on the curve or not. -/
theorem verify_unchecked_key (hpos : 0 < x.toNat) (hx : x.toNat < n) :
    verify ⟨x, y⟩ x x 0 = .ok true := by
  have h0 : scalar (0 : Word).toNat x.toNat = 0 := by
    rw [scalar, show (0 : Word).toNat = 0 from rfl, Nat.cast_zero, zero_mul, ZMod.val_zero]
  have hget : (preComputeJacobianPoints ⟨x, y⟩)[1]? = some ⟨x.toNat, y.toNat, 1⟩ := rfl
  have hloop := shamirLoop_zero_one _ hget 127 (by decide)
  rw [shifted_full (by decide), shifted_full (by decide)] at hloop
  rw [verify_eq_mult hx hx, h0, scalar_self hpos hx, shamirMultJacobian, hloop, ok_bind,
    affineFromJacobian_one (hx.trans (by decide)), ok_bind, beq_self_eq_true]

/-! ### Agreement -/

/-- The two verifiers accept the same. -/
def Agree (x y r s e : Word) : Prop :=
  verify ⟨x, y⟩ r s e = .ok true ↔ P256Verifier.ecdsaVerify e r s (x, y) = .ok true

/-- Where `ecdsa_verify` rejects, agreement is rejection. -/
theorem agree_iff_of_not_inputs {verdict : Bool} (hverify : verify ⟨x, y⟩ r s e = .ok verdict)
    (h : ¬((1 ≤ r.toNat ∧ r.toNat < n) ∧ (1 ≤ s.toNat ∧ s.toNat < n) ∧
      ValidKey x.toNat y.toNat)) : Agree x y r s e ↔ verdict = false := by
  rw [Agree, hverify, ecdsaVerify_of_not_inputs h, Except.ok.injEq, Except.ok.injEq]
  simp

/-- An abscissa is a residue modulo `p`, and `p < 2 n`. -/
theorem abscissa_lt (A : curve.Point) : abscissa A < 2 * n := by
  have hp : p < 2 * n := by decide
  cases A with
  | zero => exact p_pos.trans hp
  | some X Y hXY => exact (ZMod.val_lt X).trans hp

/-- **Where the two verifiers agree.**

* With a scalar of `n` or more both reject.
* A zero `s` is accepted exactly with a zero `r`.
* A zero `r` is accepted exactly when `(e / s) G` has the abscissa zero or is at infinity, whatever
  the key is.
* With scalars in range and a key on the curve, the verdicts compare the result of the incomplete
  scan with `r`, and the right point modulo `n` with `r`.  When no addition of the scan is
  exceptional they differ exactly when the abscissa exceeds `r` by `n`.
* Under every key off the curve with an abscissa in range they differ on some signature. -/
theorem agree_iff (x y r s e : Word) :
    (n ≤ r.toNat ∨ n ≤ s.toNat → Agree x y r s e) ∧
    (r.toNat < n → s.toNat = 0 → (Agree x y r s e ↔ r.toNat ≠ 0)) ∧
    (r.toNat = 0 → 0 < s.toNat → s.toNat < n →
      (Agree x y r s e ↔ abscissa (scalar e.toNat s.toNat • base) ≠ 0)) ∧
    (0 < r.toNat → r.toNat < n → 0 < s.toNat → s.toNat < n → ∀ hQ : ValidKey x.toNat y.toNat,
      (Agree x y r s e ↔
        (abscissa (window base (keyPoint hQ) (scalar e.toNat s.toNat)
            (scalar r.toNat s.toNat) 128 0) = r.toNat ↔
          abscissa (signaturePoint e.toNat r.toNat s.toNat (keyPoint hQ)) % n = r.toNat)) ∧
      (Regular base (keyPoint hQ) (scalar e.toNat s.toNat) (scalar r.toNat s.toNat) 128 →
        (Agree x y r s e ↔
          abscissa (signaturePoint e.toNat r.toNat s.toNat (keyPoint hQ)) ≠ r.toNat + n))) ∧
    (¬ValidKey x.toNat y.toNat → 0 < x.toNat → x.toNat < n → ¬Agree x y x x 0) := by
  refine ⟨fun hrange => ?_, fun hr hs => ?_, fun hr hpos hs => ?_, fun hr0 hr hs0 hs hQ => ?_,
    fun hkey hpos hx => ?_⟩
  · exact (agree_iff_of_not_inputs (verify_of_range hrange) (by omega)).mpr rfl
  · have hzero : ∀ u, scalar u s.toNat = 0 := fun u => by
      rw [scalar, hs, Nat.cast_zero, inv_zero, mul_zero, ZMod.val_zero]
    have hverify := verify_of_scalar_zero (x := x) (y := y) (e := e) hr (hs ▸ n_pos) (hzero _)
    rw [hzero, zero_nsmul] at hverify
    rw [agree_iff_of_not_inputs hverify (by omega), beq_eq_false_iff_ne, ne_comm]
    rfl
  · have hzero : scalar r.toNat s.toNat = 0 := by
      rw [scalar, hr, Nat.cast_zero, zero_mul, ZMod.val_zero]
    have hverify := verify_of_scalar_zero (x := x) (y := y) (e := e) (hr ▸ n_pos) hs hzero
    rw [agree_iff_of_not_inputs hverify (by omega), beq_eq_false_iff_ne, hr]
  · have hexact : Agree x y r s e ↔
        (abscissa (window base (keyPoint hQ) (scalar e.toNat s.toNat)
            (scalar r.toNat s.toNat) 128 0) = r.toNat ↔
          abscissa (signaturePoint e.toNat r.toNat s.toNat (keyPoint hQ)) % n = r.toNat) := by
      rw [Agree, verify_of_validKey hr hs hQ, ecdsaVerify_of_inputs ⟨hr0, hr⟩ ⟨hs0, hs⟩ hQ,
        Except.ok.injEq, Except.ok.injEq, beq_iff_eq, beq_iff_eq]
    refine ⟨hexact, fun hregular => ?_⟩
    have hwindow : window base (keyPoint hQ) (scalar e.toNat s.toNat) (scalar r.toNat s.toNat) 128 0
        = signaturePoint e.toNat r.toNat s.toNat (keyPoint hQ) :=
      window_eq_of_regular hregular ((scalar_lt _ _).trans n_lt) ((scalar_lt _ _).trans n_lt)
    rw [hexact, hwindow]
    -- the abscissa is below `2 n`: reducing it subtracts `n` once or not at all
    have hlt := abscissa_lt (signaturePoint e.toNat r.toNat s.toNat (keyPoint hQ))
    generalize abscissa (signaturePoint e.toNat r.toNat s.toNat (keyPoint hQ)) = X at hlt ⊢
    by_cases hX : X < n
    · rw [Nat.mod_eq_of_lt hX]
      omega
    · rw [Nat.mod_eq_sub_mod (by omega), Nat.mod_eq_of_lt (by omega)]
      omega
  · rw [agree_iff_of_not_inputs (verify_unchecked_key hpos hx) fun h => hkey h.2.2]
    exact Bool.true_eq_false_eq_False

-- the key `-G` with scalars of one window each: no addition is exceptional
example : Regular base (-base) 1 2 128 := by
  intro k _
  have hpow : 2 ^ 2 ≤ 2 ^ (2 * (k + 1)) := Nat.pow_le_pow_right (by decide) (by omega)
  refine regularAt_of_lt (by omega) (by omega) fun heq => ?_
  have hi := pairAt_lt 1 k
  have hj := pairAt_lt 2 k
  generalize pairAt 1 k = i at hi heq
  generalize pairAt 2 k = j at hj heq ⊢
  have hsum : (i + j) • base = 0 := by
    rw [add_nsmul, heq, ← nsmul_add, neg_add_cancel, nsmul_zero]
  have hdvd := addOrderOf_dvd_of_nsmul_eq_zero hsum
  rw [addOrderOf_base] at hdvd
  have hj0 : j = 0 := by
    by_contra hne
    have hn : 8 < n := by decide
    exact absurd (Nat.le_of_dvd (by omega) hdvd) (by omega)
  rw [hj0, zero_nsmul]

/-- Zero scalars are accepted; a key off the curve accepts a signature; under the key `G` the
signature whose point is `G + G` is refused. -/
theorem not_agree :
    (verify ⟨baseKey.1, baseKey.2⟩ 0 0 0 = .ok true ∧
      P256Verifier.ecdsaVerify 0 0 0 baseKey = .ok false) ∧
    (verify ⟨5, 7⟩ 5 5 0 = .ok true ∧ P256Verifier.ecdsaVerify 0 5 5 (5, 7) = .ok false) ∧
    (verify ⟨baseKey.1, baseKey.2⟩ doubleX doubleX doubleX = .ok false ∧
      P256Verifier.ecdsaVerify doubleX doubleX doubleX baseKey = .ok true) := by
  refine ⟨?_, ?_, ?_, ecdsaVerify_doubleX⟩
  all_goals decide +kernel

end Enclave.SECP256R1
