import Enclave.P256.Equiv.Montgomery
import Enclave.P256.Equiv.Verifier

/-!
# `P256VERIFY.yul` computes `ecdsa_verify`

A triple of Montgomery forms stands for a point of the curve through homogeneous coordinates
(`Holds`), and on such triples the Yul code's operations are the group's, with equal operands,
opposite operands and infinity included.  The linear combination scans the bits of the two scalars
as `P256Verifier` does, with the roles of the points exchanged (`shamirLinearCombination_spec`).

`run_words` puts the whole together: the code burns its gas exactly on the inputs that fail
validation, and on all others it ends and returns the verdict of `ecdsa_verify` as a word.
-/

namespace Enclave.P256VERIFY

open Curve Yul Montgomery P256 WeierstrassCurve.Affine

/-! ### Forms of field elements -/

section Field

variable {x y : ℕ} {X Y : ZMod p}

theorem form_mul (hx : Form (2 ^ 256) p x X) (hy : Form (2 ^ 256) p y Y) :
    Form (2 ^ 256) p (montgomeryMul x y P P_PRIME) (X * Y) :=
  form_montgomeryMul modulus_P hx hy

theorem form_add (hx : Form (2 ^ 256) p x X) (hy : Form (2 ^ 256) p y Y) :
    Form (2 ^ 256) p (montgomeryAdd x y P) (X + Y) :=
  form_montgomeryAdd hx hy

theorem form_sub (hx : Form (2 ^ 256) p x X) (hy : Form (2 ^ 256) p y Y) :
    Form (2 ^ 256) p (montgomerySub x y P) (X - Y) :=
  form_montgomerySub modulus_P hx hy

end Field

/-- A precomputed form. -/
theorem form_constant {x c : ℕ} (hx : x < p) (h : x = c * 2 ^ 256 % p) :
    Form (2 ^ 256) p x (c : ZMod p) := by
  refine ⟨hx, ?_⟩
  rw [← Nat.cast_mul, ZMod.natCast_eq_natCast_iff', Nat.mod_eq_of_lt hx]
  exact h

theorem form_one : Form (2 ^ 256) p MONTGOMERY_ONE_P (1 : ZMod p) :=
  (form_constant (c := 1) (by decide) (by decide)).of_eq Nat.cast_one

theorem form_a : Form (2 ^ 256) p MONTGOMERY_A_P (-3 : ZMod p) :=
  (form_constant (c := a) (by decide) (by decide)).of_eq natCast_a

theorem form_b : Form (2 ^ 256) p MONTGOMERY_B_P (b : ZMod p) :=
  form_constant (by decide) (by decide)

/-! ### Points -/

/-- The coordinates of `T` are the forms of those of `F`. -/
structure Forms (T : Projective ℕ) (F : Projective (ZMod p)) : Prop where
  x : Form (2 ^ 256) p T.x F.x
  y : Form (2 ^ 256) p T.y F.y
  z : Form (2 ^ 256) p T.z F.z

/-- The triple stands for the point. -/
def Holds (T : Projective ℕ) (A : curve.Point) : Prop :=
  ∃ F : Projective (ZMod p), Forms T F ∧ F.Represents A

theorem Forms.z_eq_zero_iff {T : Projective ℕ} {F : Projective (ZMod p)} (h : Forms T F) :
    T.z = 0 ↔ F.z = 0 :=
  h.z.eq_zero_iff modulus_P.radix_ne_zero

theorem Holds.z_eq_zero_iff {T : Projective ℕ} {A : curve.Point} (h : Holds T A) :
    T.z = 0 ↔ A = 0 := by
  obtain ⟨F, hF, hA⟩ := h
  rw [hF.z_eq_zero_iff]
  exact Projective.z_eq_zero_iff hA

theorem holds_affine {x y : ℕ} {X Y : ZMod p} (hx : Form (2 ^ 256) p x X)
    (hy : Form (2 ^ 256) p y Y) (h : curve.Nonsingular X Y) :
    Holds ⟨x, y, MONTGOMERY_ONE_P⟩ (.some X Y h) :=
  ⟨⟨X, Y, 1⟩, ⟨hx, hy, form_one⟩,
    Projective.represents_some.mpr ⟨one_ne_zero, (mul_one X).symm, (mul_one Y).symm⟩⟩

theorem holds_base : Holds MONTGOMERY_PROJECTIVE_G_P base :=
  holds_affine (form_constant (by decide) (by decide)) (form_constant (by decide) (by decide))
    nonsingular_base

theorem forms_projectiveDouble {T : Projective ℕ} {F : Projective (ZMod p)} (h : Forms T F) :
    Forms (projectiveDouble T) (F.double (-3)) := by
  have hxx := form_mul h.x h.x
  have hzz := form_mul h.z h.z
  have ht := form_add (form_add hxx (form_add hxx hxx)) (form_mul form_a hzz)
  have hyz := form_mul h.y h.z
  have hu := form_add hyz hyz
  have huxy := form_mul hu (form_mul h.x h.y)
  have hv := form_add huxy huxy
  have hw := form_sub (form_mul ht ht) (form_add hv hv)
  have huy := form_mul hu h.y
  have huy2 := form_mul huy huy
  refine ⟨(form_mul hu hw).of_eq ?_, ?_, (form_mul hu (form_mul hu hu)).of_eq ?_⟩
  · simp only [Projective.double]
    ring
  · refine (form_sub (form_mul ht (form_sub hv hw)) (form_add huy2 huy2)).of_eq ?_
    simp only [Projective.double]
    ring
  · simp only [Projective.double]
    ring

theorem projectiveDouble_spec {T : Projective ℕ} {A : curve.Point} (h : Holds T A) :
    Holds (projectiveDouble T) (A + A) := by
  obtain ⟨F, hF, hA⟩ := h
  exact ⟨_, forms_projectiveDouble hF, Projective.represents_double two_ne_zero hA⟩

/-- On finite points, the differences of the coordinates decide between doubling and the chord. -/
theorem forms_projectiveAdd {T U : Projective ℕ} {F E : Projective (ZMod p)} (hT : Forms T F)
    (hU : Forms U E) (hTz : T.z ≠ 0) (hUz : U.z ≠ 0) :
    ((F.y * E.z - E.y * F.z = 0 ∧ F.x * E.z - E.x * F.z = 0) ∧
      projectiveAdd T U = projectiveDouble T) ∨
    (¬(F.y * E.z - E.y * F.z = 0 ∧ F.x * E.z - E.x * F.z = 0) ∧
      Forms (projectiveAdd T U) (F.add E)) := by
  have ht0 := form_mul hT.y hU.z
  have ht := form_sub ht0 (form_mul hU.y hT.z)
  have hu0 := form_mul hT.x hU.z
  have hu1 := form_mul hU.x hT.z
  have hu := form_sub hu0 hu1
  have hu2 := form_mul hu hu
  have hu3 := form_mul hu2 hu
  have hv := form_mul hT.z hU.z
  have hw := form_sub (form_mul (form_mul ht ht) hv) (form_mul hu2 (form_add hu0 hu1))
  have hTinf : ¬projectivePointIsInfinity T = true := by
    simpa [projectivePointIsInfinity] using hTz
  have hUinf : ¬projectivePointIsInfinity U = true := by
    simpa [projectivePointIsInfinity] using hUz
  rw [← ht.eq_zero_iff modulus_P.radix_ne_zero, ← hu.eq_zero_iff modulus_P.radix_ne_zero,
    ← Nat.or_eq_zero_iff]
  rw [projectiveAdd, if_neg hTinf, if_neg hUinf]
  dsimp only
  split_ifs with hsame
  · exact Or.inl ⟨hsame, rfl⟩
  · refine Or.inr ⟨hsame, (form_mul hu hw).of_eq ?_, ?_, (form_mul hu3 hv).of_eq ?_⟩
    · simp only [Projective.add]
      ring
    · refine (form_sub (form_mul ht (form_sub (form_mul hu0 hu2) hw))
        (form_mul ht0 hu3)).of_eq ?_
      simp only [Projective.add]
      ring
    · simp only [Projective.add]
      ring

theorem projectiveAdd_spec {T U : Projective ℕ} {A B : curve.Point} (hT : Holds T A)
    (hU : Holds U B) : Holds (projectiveAdd T U) (A + B) := by
  by_cases hTz : T.z = 0
  · have hinf : projectivePointIsInfinity T = true := by simpa [projectivePointIsInfinity] using hTz
    rw [projectiveAdd, if_pos hinf, hT.z_eq_zero_iff.mp hTz, zero_add]
    exact hU
  by_cases hUz : U.z = 0
  · have hninf : ¬projectivePointIsInfinity T = true := by
      simpa [projectivePointIsInfinity] using hTz
    have hinf : projectivePointIsInfinity U = true := by simpa [projectivePointIsInfinity] using hUz
    rw [projectiveAdd, if_neg hninf, if_pos hinf, hU.z_eq_zero_iff.mp hUz, add_zero]
    exact hT
  have hA : A ≠ 0 := fun h => hTz (hT.z_eq_zero_iff.mpr h)
  have hB : B ≠ 0 := fun h => hUz (hU.z_eq_zero_iff.mpr h)
  have hdouble := projectiveDouble_spec hT
  obtain ⟨F, hF, hFA⟩ := hT
  obtain ⟨E, hE, hEB⟩ := hU
  cases A with
  | zero => exact absurd rfl hA
  | some x₁ y₁ h₁ =>
    cases B with
    | zero => exact absurd rfl hB
    | some x₂ y₂ h₂ =>
      rcases forms_projectiveAdd hF hE hTz hUz with ⟨⟨hy, hx⟩, hadd⟩ | ⟨hne, hforms⟩
      · -- equal points
        rw [Projective.sub_x_eq_zero_iff hFA hEB] at hx
        rw [Projective.sub_y_eq_zero_iff hFA hEB] at hy
        subst hx hy
        rw [hadd]
        exact hdouble
      · refine ⟨_, hforms, ?_⟩
        by_cases hx : x₁ = x₂
        · -- opposite points
          have hy : y₁ ≠ y₂ := fun hy => hne
            ⟨(Projective.sub_y_eq_zero_iff hFA hEB).mpr hy,
              (Projective.sub_x_eq_zero_iff hFA hEB).mpr hx⟩
          have hz := Projective.z_add_eq_zero hFA hEB hx
          subst hx
          rw [add_eq_zero_of_x_eq hy, Projective.represents_zero]
          exact hz
        · exact Projective.represents_add hFA hEB hx

/-! ### The scan of the scalars -/

/-- The pair of bits of `P256Verifier`, for the scalars in the other order. -/
theorem compareBits_eq (index t0 t1 : ℕ) : compareBits index t0 t1 = bitPair index t1 t0 := by
  rw [compareBits, bitPair, Nat.and_one_is_mod, Nat.and_one_is_mod, Nat.shiftLeft_eq, add, mul]
  omega

theorem add_sub_one {k : ℕ} (hk : k < 2 ^ 256) : add (sub k 1) 1 = k := by
  unfold add sub
  omega

/-- The state of the search: still searching from `index` down, or found just above it. -/
def Searching (t0 t1 : ℕ) (s : ℕ × ℕ) : Prop :=
  (s.2 = 0 ∧ s.1 ≤ 255 ∧ t1 < 2 ^ (s.1 + 1) ∧ t0 < 2 ^ (s.1 + 1)) ∨
  ∃ k ≤ 255, s = (sub k 1, bitPair k t1 t0) ∧ bitPair k t1 t0 ≠ 0 ∧ t1 < 2 ^ (k + 1) ∧
    t0 < 2 ^ (k + 1)

/-- One comparison: a clear pair of bits leaves one bit less to search. -/
theorem searching_step {t0 t1 : ℕ} (hne : t1 ≠ 0) (s : ℕ × ℕ) (hs : Searching t0 t1 s)
    (hret : (s.2 == 0) = true) :
    ∃ s', some (sub s.1 1, compareBits s.1 t0 t1) = some s' ∧ Searching t0 t1 s' ∧
      (if s'.2 = 0 then s'.1 + 1 else 0) < if s.2 = 0 then s.1 + 1 else 0 := by
  rw [beq_iff_eq] at hret
  refine ⟨_, rfl, ?_⟩
  rw [compareBits_eq, if_pos hret]
  rcases hs with ⟨-, hk, h1, h0⟩ | ⟨k, -, rfl, hfound, -⟩
  swap
  · exact absurd hret hfound
  by_cases hpair : bitPair s.1 t1 t0 = 0
  · obtain ⟨h1', h0'⟩ := lt_of_bitPair_eq_zero h1 h0 hpair
    have hpos : 0 < s.1 := by
      rcases Nat.eq_zero_or_pos s.1 with hzero | hpos
      · rw [hzero] at h1'
        omega
      · exact hpos
    rw [if_pos hpair, sub_of_le hpos (by omega)]
    refine ⟨Or.inl ⟨hpair, ?_, ?_, ?_⟩, ?_⟩
    · show s.1 - 1 ≤ 255
      omega
    · show t1 < 2 ^ (s.1 - 1 + 1)
      rwa [Nat.sub_add_cancel hpos]
    · show t0 < 2 ^ (s.1 - 1 + 1)
      rwa [Nat.sub_add_cancel hpos]
    · show s.1 - 1 + 1 < s.1 + 1
      omega
  · rw [if_neg hpair]
    exact ⟨Or.inr ⟨s.1, hk, rfl, hpair, h1, h0⟩, Nat.succ_pos _⟩

/-- The search ends at the first pair of bits that is not clear. -/
theorem findMostSignificantBitIndex_spec {fuel t0 t1 : ℕ} (hfuel : 256 < fuel) (h0 : t0 < 2 ^ 256)
    (h1 : t1 < 2 ^ 256) (hne : t1 ≠ 0) :
    ∃ k, findMostSignificantBitIndex fuel t0 t1 = some (k, bitPair k t1 t0) ∧
      bitPair k t1 t0 ≠ 0 ∧ t1 < 2 ^ (k + 1) ∧ t0 < 2 ^ (k + 1) := by
  obtain ⟨s, hloop, hs, hcond⟩ := forLoop_spec
    (fun s : ℕ × ℕ => if s.2 = 0 then s.1 + 1 else 0) (searching_step hne) fuel (255, 0)
    (Or.inl ⟨rfl, le_rfl, h1, h0⟩) hfuel
  rw [beq_eq_false_iff_ne] at hcond
  rcases hs with ⟨hret, -⟩ | ⟨k, hk, rfl, hfound, hlt⟩
  · exact absurd hret hcond
  · refine ⟨k, ?_, hfound, hlt⟩
    simp only [findMostSignificantBitIndex, hloop, Option.bind_eq_bind, Option.bind_some]
    rw [add_sub_one (by omega)]

section Scan

variable {q g h : Projective ℕ} {Q : curve.Point} {t0 t1 : ℕ}

theorem addSelected_spec (hq : Holds q Q) (hg : Holds g base) (hh : Holds h (base + Q))
    {r : Projective ℕ} {A : curve.Point} (hr : Holds r A) {ret : ℕ} (hret : ret < 4) :
    Holds (addSelected q g h r ret) (A + ofBitPair Q base ret) := by
  obtain rfl | rfl | rfl | rfl : ret = 0 ∨ ret = 1 ∨ ret = 2 ∨ ret = 3 := by omega
  · rw [addSelected, if_neg (by decide), if_neg (by decide), if_neg (by decide), ofBitPair,
      add_zero]
    exact hr
  · rw [addSelected, if_pos rfl]
    exact projectiveAdd_spec hr hq
  · rw [addSelected, if_neg (by decide), if_pos rfl]
    exact projectiveAdd_spec hr hg
  · have h3 : ofBitPair Q base 3 = base + Q := add_comm Q base
    rw [addSelected, if_neg (by decide), if_neg (by decide), if_pos rfl, h3]
    exact projectiveAdd_spec hr hh

/-- The loop turns the combination of the bits from `k` up into the whole combination. -/
theorem combinationLoop_spec (hq : Holds q Q) (hg : Holds g base) (hh : Holds h (base + Q)) :
    ∀ (k : ℕ) (r : Projective ℕ), Holds r (combination Q base t1 t0 k) →
      Holds (combinationLoop q g h t0 t1 k r) (t1 • Q + t0 • base) := by
  intro k
  induction k with
  | zero =>
    intro r hr
    exact hr
  | succ k ih =>
    intro r hr
    refine ih _ ?_
    rw [compareBits_eq, combination_eq_double_add]
    exact addSelected_spec hq hg hh (projectiveDouble_spec hr) (bitPair_lt k t1 t0)

theorem shamirLinearCombination_spec {fuel : ℕ} (hfuel : 256 < fuel) (hq : Holds q Q)
    (h0 : t0 < 2 ^ 256) (h1 : t1 < 2 ^ 256) (hne : t1 ≠ 0) :
    ∃ r, shamirLinearCombination fuel q t0 t1 = some r ∧ Holds r (t0 • base + t1 • Q) := by
  obtain ⟨k, hfind, hpair, hlt1, hlt0⟩ := findMostSignificantBitIndex_spec hfuel h0 h1 hne
  have hh := projectiveAdd_spec holds_base hq
  simp only [shamirLinearCombination, hfind, Option.bind_eq_bind, Option.bind_some]
  refine ⟨_, rfl, ?_⟩
  rw [add_comm (t0 • base)]
  refine combinationLoop_spec hq holds_base hh k _ ?_
  rw [combination_of_leading Q base hlt1 hlt0]
  have hlt := bitPair_lt k t1 t0
  generalize bitPair k t1 t0 = ret at hpair hlt ⊢
  obtain rfl | rfl | rfl : ret = 1 ∨ ret = 2 ∨ ret = 3 := by omega
  · rw [if_pos rfl]
    exact hq
  · rw [if_neg (by decide), if_pos rfl]
    exact holds_base
  · have h3 : ofBitPair Q base 3 = base + Q := add_comm Q base
    rw [if_neg (by decide), if_neg (by decide), if_pos rfl, h3]
    exact hh

end Scan

/-! ### Verification -/

/-- The affine abscissa of a finite point, out of Montgomery form. -/
theorem abscissa_of_holds {fuel : ℕ} (hfuel : 513 ≤ fuel) {T : Projective ℕ} {A : curve.Point}
    (h : Holds T A) (hz : T.z ≠ 0) :
    ∃ zInv, montgomeryModularInverse fuel T.z P R2_MOD_P = some zInv ∧
      outOfMontgomeryForm (montgomeryMul T.x zInv P P_PRIME) P P_PRIME = abscissa A := by
  have hA : A ≠ 0 := fun h0 => hz (h.z_eq_zero_iff.mpr h0)
  obtain ⟨F, hF, hFA⟩ := h
  cases A with
  | zero => exact absurd rfl hA
  | some X Y hXY =>
    obtain ⟨hFz, hX, -⟩ := Projective.represents_some.mp hFA
    obtain ⟨zInv, hinv, hform⟩ := form_montgomeryModularInverse modulus_P hfuel hF.z hFz
    refine ⟨zInv, hinv, ?_⟩
    have hx : Form (2 ^ 256) p (montgomeryMul T.x zInv P P_PRIME) X := by
      refine (form_mul hF.x hform).of_eq ?_
      rw [hX, mul_assoc, mul_inv_cancel₀ hFz, mul_one]
    exact outOfMontgomeryForm_spec (n := p) modulus_P hx

/-- With validated arguments the code ends, and compares the abscissa of the right point. -/
theorem verifyPoint_eq {fuel hash r s : ℕ} (hfuel : 513 ≤ fuel) (hhash : hash < 2 ^ 256)
    (hr : 1 ≤ r ∧ r < n) (hs : 1 ≤ s ∧ s < n) {q : Projective ℕ} {Q : curve.Point}
    (hq : Holds q Q) :
    verifyPoint fuel hash r s q
      = some (.word (if abscissa (signaturePoint hash r s Q) % n = r then 1 else 0)) := by
  have hnz : ∀ {u : ℕ}, 1 ≤ u ∧ u < n → (u : ZMod n) ≠ 0 := fun hu h0 => by
    have := (natCast_eq_zero_of_lt hu.2).mp h0
    omega
  have hform : ∀ {u : ℕ}, u < 2 ^ 256 →
      Form (2 ^ 256) n (intoMontgomeryForm u N N_PRIME R2_MOD_N) (u : ZMod n) := fun hu =>
    form_intoMontgomeryForm modulus_N hu
  obtain ⟨s1, hs1, hinv⟩ := form_montgomeryModularInverse modulus_N hfuel
    (hform (hs.2.trans n_lt)) (hnz hs)
  have hscalar : ∀ {u : ℕ}, u < 2 ^ 256 →
      outOfMontgomeryForm (montgomeryMul (intoMontgomeryForm u N N_PRIME R2_MOD_N) s1 N N_PRIME)
        N N_PRIME = ((u : ZMod n) * (s : ZMod n)⁻¹).val := fun hu =>
    outOfMontgomeryForm_spec (n := n) modulus_N (form_montgomeryMul modulus_N (hform hu) hinv)
  have ht1 : ((r : ZMod n) * (s : ZMod n)⁻¹).val ≠ 0 := by
    rw [Ne, ZMod.val_eq_zero]
    exact mul_ne_zero (hnz hr) (inv_ne_zero (hnz hs))
  have h256 : 256 < fuel := by omega
  obtain ⟨T, hT, hholds⟩ := shamirLinearCombination_spec h256 hq
    ((ZMod.val_lt ((hash : ZMod n) * (s : ZMod n)⁻¹)).trans n_lt)
    ((ZMod.val_lt ((r : ZMod n) * (s : ZMod n)⁻¹)).trans n_lt) ht1
  have hs1' : montgomeryModularInverse fuel (intoMontgomeryForm s N N_PRIME R2_MOD_N) N R2_MOD_N
      = some s1 := hs1
  simp only [verifyPoint, hs1', hscalar hhash, hscalar (hr.2.trans n_lt), hT,
    Option.bind_eq_bind, Option.bind_some]
  change Holds T (signaturePoint hash r s Q) at hholds
  by_cases hz : T.z = 0
  · -- at infinity: the abscissa counts as zero, and `r` is positive
    have hne : ¬abscissa (0 : curve.Point) % n = r := by
      show ¬0 % n = r
      rw [Nat.zero_mod]
      omega
    rw [if_pos hz, hholds.z_eq_zero_iff.mp hz, if_neg hne]
  · obtain ⟨zInv, hzInv, hx⟩ := abscissa_of_holds hfuel hholds hz
    rw [if_neg hz]
    simp only [hzInv, hx, Option.bind_some, N_eq]

theorem affinePointIsOnCurve_iff {x y : ℕ} {X Y : ZMod p} (hx : Form (2 ^ 256) p x X)
    (hy : Form (2 ^ 256) p y Y) :
    affinePointIsOnCurve x y = true ↔ Y ^ 2 = X ^ 3 - 3 * X + b := by
  have hright := form_add (form_mul hx (form_mul hx hx)) (form_add (form_mul form_a hx) form_b)
  rw [affinePointIsOnCurve, beq_iff_eq,
    (form_mul hy hy).eq_iff modulus_P.radix_ne_zero hright]
  constructor <;> intro h <;> linear_combination h

/-- The inputs that the code does not verify: a scalar out of range; the point `(0, 0)` or a
coordinate that is not reduced; a point off the curve. -/
def Invalid (r s x y : ℕ) : Prop :=
  ((r = 0 ∨ n ≤ r) ∨ s = 0 ∨ n ≤ s) ∨ ((x = 0 ∧ y = 0) ∨ p ≤ x ∨ p ≤ y) ∨
    ¬(y : ZMod p) ^ 2 = (x : ZMod p) ^ 3 - 3 * (x : ZMod p) + b

theorem not_invalid_iff {r s x y : ℕ} :
    ¬Invalid r s x y ↔ (1 ≤ r ∧ r < n) ∧ (1 ≤ s ∧ s < n) ∧ ValidKey x y := by
  unfold Invalid ValidKey
  push Not
  constructor
  · rintro ⟨⟨hr, hs⟩, ⟨h0, hxy⟩, hcurve⟩
    exact ⟨⟨by omega, hr.2⟩, ⟨by omega, hs.2⟩, hxy.1, hxy.2, h0, hcurve⟩
  · rintro ⟨hr, hs, hx, hy, h0, hcurve⟩
    exact ⟨⟨⟨by omega, hr.2⟩, ⟨by omega, hs.2⟩⟩, ⟨h0, ⟨hx, hy⟩⟩, hcurve⟩

section Run

variable {r s x y : ℕ}

theorem scalars_check_iff :
    ((r == 0 || !fieldElementIsOnSubgroupOrder r) || (s == 0 || !fieldElementIsOnSubgroupOrder s))
        = true ↔ (r = 0 ∨ n ≤ r) ∨ s = 0 ∨ n ≤ s := by
  simp only [fieldElementIsOnSubgroupOrder, Bool.or_eq_true, beq_iff_eq, Bool.not_eq_true',
    decide_eq_false_iff_not, not_lt]
  rw [N_eq]

theorem key_check_iff :
    (affinePointIsInfinity x y || !affinePointCoordinatesAreOnFieldOrder x y) = true ↔
      (x = 0 ∧ y = 0) ∨ p ≤ x ∨ p ≤ y := by
  simp only [affinePointIsInfinity, affinePointCoordinatesAreOnFieldOrder,
    fieldElementIsOnFieldOrder, Bool.or_eq_true, beq_iff_eq, Nat.or_eq_zero_iff,
    Bool.not_eq_true', Bool.and_eq_false_iff, decide_eq_false_iff_not, not_lt]
  rw [P_eq]

theorem curve_check_iff (hx : x < 2 ^ 256) (hy : y < 2 ^ 256) :
    (!affinePointIsOnCurve (intoMontgomeryForm x P P_PRIME R2_MOD_P)
        (intoMontgomeryForm y P P_PRIME R2_MOD_P)) = true ↔
      ¬(y : ZMod p) ^ 2 = (x : ZMod p) ^ 3 - 3 * (x : ZMod p) + b := by
  rw [Bool.not_eq_true', ← Bool.not_eq_true]
  exact not_congr (affinePointIsOnCurve_iff (form_intoMontgomeryForm modulus_P hx)
    (form_intoMontgomeryForm modulus_P hy))

/-- The three checks of the code together are `Invalid`. -/
theorem run_of_calldata (fuel : ℕ) {calldata : Bytes} {hash r s x y : Word}
    (hhash : calldataload calldata 0 = hash) (hr : calldataload calldata 32 = r)
    (hs : calldataload calldata 64 = s) (hx : calldataload calldata 96 = x)
    (hy : calldataload calldata 128 = y) :
    (Invalid r.toNat s.toNat x.toNat y.toNat → run fuel calldata = some .burnGas) ∧
    (¬Invalid r.toNat s.toNat x.toNat y.toNat → run fuel calldata
      = verifyPoint fuel hash.toNat r.toNat s.toNat
          (projectiveFromAffine (intoMontgomeryForm x.toNat P P_PRIME R2_MOD_P)
            (intoMontgomeryForm y.toNat P P_PRIME R2_MOD_P))) := by
  have hrun : run fuel calldata = if (r.toNat = 0 ∨ n ≤ r.toNat) ∨ s.toNat = 0 ∨ n ≤ s.toNat
      then some .burnGas else if (x.toNat = 0 ∧ y.toNat = 0) ∨ p ≤ x.toNat ∨ p ≤ y.toNat
      then some .burnGas
      else if ¬(y.toNat : ZMod p) ^ 2 = (x.toNat : ZMod p) ^ 3 - 3 * (x.toNat : ZMod p) + b
      then some .burnGas else verifyPoint fuel hash.toNat r.toNat s.toNat
          (projectiveFromAffine (intoMontgomeryForm x.toNat P P_PRIME R2_MOD_P)
            (intoMontgomeryForm y.toNat P P_PRIME R2_MOD_P)) := by
    rw [run]
    simp only [hhash, hr, hs, hx, hy, scalars_check_iff, key_check_iff,
      curve_check_iff x.isLt y.isLt]
  rw [hrun]
  constructor
  · intro h
    by_cases h1 : (r.toNat = 0 ∨ n ≤ r.toNat) ∨ s.toNat = 0 ∨ n ≤ s.toNat
    · rw [if_pos h1]
    by_cases h2 : (x.toNat = 0 ∧ y.toNat = 0) ∨ p ≤ x.toNat ∨ p ≤ y.toNat
    · rw [if_neg h1, if_pos h2]
    · rw [if_neg h1, if_neg h2, if_pos ((h.resolve_left h1).resolve_left h2)]
  · intro h
    rw [if_neg fun h1 => h (Or.inl h1), if_neg fun h2 => h (Or.inr (Or.inl h2)),
      if_neg fun h3 => h (Or.inr (Or.inr h3))]

end Run

/-- Calldata of five words. -/
theorem calldataload_words (hash r s x y : Word) :
    let calldata := hash.toBytes ++ (r.toBytes ++ (s.toBytes ++ (x.toBytes ++ y.toBytes)))
    calldataload calldata 0 = hash ∧ calldataload calldata 32 = r ∧
      calldataload calldata 64 = s ∧ calldataload calldata 96 = x ∧
      calldataload calldata 128 = y := by
  intro calldata
  have hcat : calldata
      = hash.toBytes ++ (r.toBytes ++ (s.toBytes ++ (x.toBytes ++ (y.toBytes ++ [])))) := by
    rw [List.append_nil]
  refine ⟨?_, ?_, ?_, ?_, ?_⟩
  · rw [hcat, ← List.nil_append (hash.toBytes ++ _)]
    exact calldataload_append hash rfl
  · rw [hcat]
    exact calldataload_append r (by simp)
  · rw [hcat, ← List.append_assoc]
    exact calldataload_append s (by simp)
  · rw [hcat, ← List.append_assoc, ← List.append_assoc]
    exact calldataload_append x (by simp)
  · rw [hcat, ← List.append_assoc, ← List.append_assoc, ← List.append_assoc]
    exact calldataload_append y (by simp)

/-- **`P256VERIFY.yul` is `ecdsa_verify`.**  On every input of five words the code burns its gas
exactly when a scalar is out of range or the key is not a reduced point of the curve; on every other
input it ends and returns the word `1` when `ecdsa_verify` accepts and the word `0` when it does
not. -/
theorem run_words (hash r s x y : Word) {fuel : ℕ} (hfuel : 513 ≤ fuel) :
    let calldata := hash.toBytes ++ (r.toBytes ++ (s.toBytes ++ (x.toBytes ++ y.toBytes)))
    (run fuel calldata = some .burnGas ↔ Invalid r.toNat s.toNat x.toNat y.toNat) ∧
    (¬Invalid r.toNat s.toNat x.toNat y.toNat →
      run fuel calldata
        = some (.word (if P256Verifier.ecdsaVerify hash r s (x, y) = .ok true then 1 else 0))) := by
  intro calldata
  obtain ⟨h0, h1, h2, h3, h4⟩ := calldataload_words hash r s x y
  obtain ⟨hburn, hverify⟩ := run_of_calldata fuel h0 h1 h2 h3 h4
  have hvalid : ¬Invalid r.toNat s.toNat x.toNat y.toNat →
      run fuel calldata
        = some (.word (if P256Verifier.ecdsaVerify hash r s (x, y) = .ok true then 1 else 0)) := by
    intro hinvalid
    obtain ⟨hr, hs, hQ⟩ := not_invalid_iff.mp hinvalid
    have hholds : Holds (projectiveFromAffine (intoMontgomeryForm x.toNat P P_PRIME R2_MOD_P)
        (intoMontgomeryForm y.toNat P P_PRIME R2_MOD_P)) (keyPoint hQ) :=
      holds_affine (form_intoMontgomeryForm modulus_P x.isLt)
        (form_intoMontgomeryForm modulus_P y.isLt) _
    rw [hverify hinvalid, verifyPoint_eq hfuel hash.isLt hr hs hholds,
      ecdsaVerify_of_inputs hr hs hQ]
    simp only [Except.ok.injEq, beq_iff_eq]
  refine ⟨⟨fun hrun => ?_, hburn⟩, hvalid⟩
  by_contra hinvalid
  rw [hvalid hinvalid] at hrun
  exact absurd (Option.some.inj hrun) (by simp)

theorem run_words_double :
    run 513 (doubleX.toBytes ++ (doubleX.toBytes ++ (doubleX.toBytes ++
      (baseKey.1.toBytes ++ baseKey.2.toBytes)))) = some (.word 1) := by
  have hrange : 1 ≤ doubleX.toNat ∧ doubleX.toNat < n := by decide
  have hrun := (run_words doubleX doubleX doubleX baseKey.1 baseKey.2 (le_refl 513)).2
    (not_invalid_iff.mpr ⟨hrange, hrange, validKey_base⟩)
  rwa [if_pos ecdsaVerify_doubleX] at hrun

end Enclave.P256VERIFY
