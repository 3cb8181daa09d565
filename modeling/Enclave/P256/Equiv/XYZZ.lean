import Enclave.P256.Equiv.Field

/-!
# The contract's point operations are the group's

`Stands P A` says that the contract's quadruple `P` is reduced modulo `p` and stands for the point
`A` of the group; `Encodes x y B` says the same of a pair of affine coordinates, with `(0, 0)` for
the point at infinity.  On such operands no operation reverts and each computes in the group:

* `ecZZDoubleZZ_spec`: doubling;
* `ecZZDaddAffine_spec`: the sum, with the operands equal, opposite or at infinity;
* `ecZZSetAff_spec`: the same point in affine coordinates;
* `ecAffAdd_spec`: the sum in affine coordinates.
-/

namespace Enclave.P256

open Curve P256Verifier WeierstrassCurve.Affine

/-! ### Representatives -/

/-- The entries of a quadruple as field elements. -/
def toField (P : XYZZ ℕ) : XYZZ (ZMod p) := ⟨P.x, P.y, P.zz, P.zzz⟩

/-- All entries are below `p`. -/
structure Reduced (P : XYZZ ℕ) : Prop where
  x : P.x < p
  y : P.y < p
  zz : P.zz < p
  zzz : P.zzz < p

/-- A reduced quadruple that stands for the point `A`. -/
structure Stands (P : XYZZ ℕ) (A : curve.Point) : Prop where
  reduced : Reduced P
  represents : (toField P).Represents A

/-- Affine coordinates of the point, `(0, 0)` for the point at infinity. -/
def Encodes (x y : ℕ) : curve.Point → Prop
  | .zero => x = 0 ∧ y = 0
  | .some X Y _ => x < p ∧ y < p ∧ (x : ZMod p) = X ∧ (y : ZMod p) = Y

theorem encodes_some {x y : ℕ} (hx : x < p) (hy : y < p)
    (h : curve.Nonsingular (x : ZMod p) (y : ZMod p)) : Encodes x y (.some _ _ h) :=
  ⟨hx, hy, rfl, rfl⟩

/-- The coordinates of a point other than infinity are not both zero. -/
theorem not_ecAffIsInf_of_encodes {x y : ℕ} {X Y : ZMod p} {hXY : curve.Nonsingular X Y}
    (h : Encodes x y (.some X Y hXY)) : ecAffIsInf x y = false := by
  obtain ⟨-, -, rfl, rfl⟩ := h
  by_contra hinf
  simp only [ecAffIsInf, Bool.not_eq_false, Bool.and_eq_true, beq_iff_eq] at hinf
  obtain ⟨rfl, rfl⟩ := hinf
  rw [Nat.cast_zero] at hXY
  exact not_nonsingular_zero hXY

theorem ecAffIsInf_iff {x y : ℕ} {B : curve.Point} (h : Encodes x y B) :
    ecAffIsInf x y = true ↔ B = 0 := by
  cases B with
  | zero =>
    obtain ⟨rfl, rfl⟩ := h
    exact ⟨fun _ => rfl, fun _ => rfl⟩
  | some X Y hXY =>
    rw [not_ecAffIsInf_of_encodes h]
    simp only [Bool.false_eq_true, false_iff]
    exact Point.some_ne_zero hXY

theorem ecZZIsInf_iff {P : XYZZ ℕ} {A : curve.Point} (h : Stands P A) :
    ecZZIsInf P.zz P.zzz = true ↔ A = 0 := by
  simp only [ecZZIsInf, Bool.and_eq_true, beq_iff_eq]
  rw [← natCast_eq_zero_of_lt h.reduced.zz, ← natCast_eq_zero_of_lt h.reduced.zzz]
  constructor
  · rintro ⟨hzz, -⟩
    exact XYZZ.eq_zero_of_represents h.represents hzz
  · rintro rfl
    exact h.represents

theorem stands_pointAtInf : Stands ecZZPointAtInf 0 :=
  ⟨⟨p_pos, p_pos, p_pos, p_pos⟩, Nat.cast_zero, Nat.cast_zero⟩

theorem stands_affine {x y : ℕ} {X Y : ZMod p} {hXY : curve.Nonsingular X Y}
    (h : Encodes x y (.some X Y hXY)) : Stands ⟨x, y, 1, 1⟩ (.some X Y hXY) := by
  obtain ⟨hx, hy, rfl, rfl⟩ := h
  refine ⟨⟨hx, hy, prime_p.one_lt, prime_p.one_lt⟩, ?_⟩
  have hcast : toField ⟨x, y, 1, 1⟩ = ⟨(x : ZMod p), (y : ZMod p), 1, 1⟩ := by
    simp [toField]
  rw [hcast]
  exact XYZZ.represents_affine hXY

/-! ### Doubling -/

theorem ecZZDoubleZZ_spec {P : XYZZ ℕ} {A : curve.Point} (h : Stands P A) :
    ∃ P', ecZZDoubleZZ P = .ok P' ∧ Stands P' (A + A) := by
  unfold ecZZDoubleZZ
  split_ifs with hinf
  · refine ⟨_, rfl, ?_⟩
    rw [(ecZZIsInf_iff h).mp hinf, add_zero]
    exact stands_pointAtInf
  · simp only [checkedSub_of_le (addmod_lt p_pos _ _).le, checkedSub_of_le (mulmod_lt p_pos _ _).le,
      ok_bind]
    refine ⟨_, rfl, ⟨addmod_lt p_pos _ _, addmod_lt p_pos _ _, mulmod_lt p_pos _ _,
      mulmod_lt p_pos _ _⟩, ?_⟩
    have hdouble := XYZZ.represents_double two_ne_zero h.represents
    convert hdouble using 1
    ext <;>
      simp only [toField, XYZZ.double, natCast_addmod, natCast_mulmod,
        natCast_modulus_sub (addmod_lt p_pos _ _).le, natCast_modulus_sub (mulmod_lt p_pos _ _).le,
        natCast_a, natCast_minus2modp] <;>
      push_cast <;> ring

theorem ecZZDoubleAffine_spec {x y : ℕ} {B : curve.Point} (h : Encodes x y B) :
    ∃ P', ecZZDoubleAffine x y = .ok P' ∧ Stands P' (B + B) := by
  unfold ecZZDoubleAffine
  split_ifs with hinf
  · refine ⟨_, rfl, ?_⟩
    rw [(ecAffIsInf_iff h).mp hinf, add_zero]
    exact stands_pointAtInf
  · cases B with
    | zero => exact absurd ((ecAffIsInf_iff h).mpr rfl) hinf
    | some X Y hXY =>
      simp only [checkedSub_of_le (addmod_lt p_pos _ _).le,
        checkedSub_of_le (mulmod_lt p_pos _ _).le, ok_bind]
      refine ⟨_, rfl, ⟨addmod_lt p_pos _ _, addmod_lt p_pos _ _, mulmod_lt p_pos _ _,
        mulmod_lt p_pos _ _⟩, ?_⟩
      have hdouble := XYZZ.represents_double two_ne_zero (stands_affine h).represents
      convert hdouble using 1
      ext <;>
        simp only [toField, XYZZ.double, natCast_addmod, natCast_mulmod,
          natCast_modulus_sub (addmod_lt p_pos _ _).le,
          natCast_modulus_sub (mulmod_lt p_pos _ _).le, natCast_a, natCast_minus2modp] <;>
        push_cast <;> ring

/-! ### Addition -/

/-- `R = y₂ zzz₁ - y₁` and `P = x₂ zz₁ - x₁`, with the negatives taken from `p`. -/
theorem natCast_scaled_sub {c t d : ℕ} (ht : t < p) :
    ((addmod (mulmod c d p) (p - t) p : ℕ) : ZMod p) = c * d - t := by
  rw [natCast_addmod, natCast_mulmod, natCast_modulus_sub ht.le, sub_eq_add_neg]

/-- Two points with one abscissa and different ordinates are opposite. -/
theorem add_eq_zero_of_x_eq {x y₁ y₂ : ZMod p} {h₁ : curve.Nonsingular x y₁}
    {h₂ : curve.Nonsingular x y₂} (hne : y₁ ≠ y₂) :
    Point.some x y₁ h₁ + Point.some x y₂ h₂ = 0 := by
  rcases Y_eq_of_X_eq h₁.left h₂.left rfl with hy | hy
  · exact absurd hy hne
  · exact Point.add_of_Y_eq rfl hy

theorem ecZZDaddAffine_spec {P : XYZZ ℕ} {A B : curve.Point} {x y : ℕ} (h : Stands P A)
    (hB : Encodes x y B) : ∃ P', ecZZDaddAffine P x y = .ok P' ∧ Stands P' (A + B) := by
  unfold ecZZDaddAffine
  split_ifs with hBinf hPinf hPinf
  · refine ⟨_, rfl, ?_⟩
    rw [(ecAffIsInf_iff hB).mp hBinf, (ecZZIsInf_iff h).mp hPinf, add_zero]
    exact stands_pointAtInf
  · refine ⟨_, rfl, ?_⟩
    rw [(ecAffIsInf_iff hB).mp hBinf, add_zero]
    exact h
  · refine ⟨_, rfl, ?_⟩
    rw [(ecZZIsInf_iff h).mp hPinf, zero_add]
    cases B with
    | zero => exact absurd ((ecAffIsInf_iff hB).mpr rfl) hBinf
    | some X Y hXY => exact stands_affine hB
  · cases A with
    | zero => exact absurd ((ecZZIsInf_iff h).mpr rfl) hPinf
    | some x₁ y₁ h₁ =>
    cases B with
    | zero => exact absurd ((ecAffIsInf_iff hB).mpr rfl) hBinf
    | some x₂ y₂ h₂ =>
    have hB' := hB
    obtain ⟨hx, hy, rfl, rfl⟩ := hB'
    obtain ⟨hzz, hcube, hX, hY⟩ := h.represents
    have hzzz := XYZZ.zzz_ne_zero hzz hcube
    simp only [checkedSub_of_le h.reduced.y.le, checkedSub_of_le h.reduced.x.le, ok_bind]
    have hR : ((addmod (mulmod y P.zzz p) (p - P.y) p : ℕ) : ZMod p)
        = (y : ZMod p) * (toField P).zzz - (toField P).y := natCast_scaled_sub h.reduced.y
    have hP : ((addmod (mulmod x P.zz p) (p - P.x) p : ℕ) : ZMod p)
        = (x : ZMod p) * (toField P).zz - (toField P).x := natCast_scaled_sub h.reduced.x
    have hR0 : addmod (mulmod y P.zzz p) (p - P.y) p = 0 ↔ y₁ = (y : ZMod p) := by
      rw [← natCast_eq_zero_of_lt (addmod_lt p_pos _ _), hR, XYZZ.sub_y_eq_zero_iff hzzz hY]
    have hP0 : addmod (mulmod x P.zz p) (p - P.x) p = 0 ↔ x₁ = (x : ZMod p) := by
      rw [← natCast_eq_zero_of_lt (addmod_lt p_pos _ _), hP, XYZZ.sub_x_eq_zero_iff hzz hX]
    split_ifs with hPne hReq
    · -- different abscissas: the chord
      simp only [checkedSub_of_le (addmod_lt p_pos _ _).le,
        checkedSub_of_le (mulmod_lt p_pos _ _).le, ok_bind]
      refine ⟨_, rfl, ⟨addmod_lt p_pos _ _, addmod_lt p_pos _ _, mulmod_lt p_pos _ _,
        mulmod_lt p_pos _ _⟩, ?_⟩
      have hchord := XYZZ.represents_addChord h.represents h₂ (mt hP0.mpr hPne)
      rw [← hR, ← hP] at hchord
      convert hchord using 1
      ext <;>
        simp only [toField, XYZZ.addChord, natCast_addmod, natCast_mulmod,
          natCast_modulus_sub (addmod_lt p_pos _ _).le,
          natCast_modulus_sub (mulmod_lt p_pos _ _).le, natCast_modulus_sub h.reduced.y.le,
          natCast_modulus_sub h.reduced.x.le, natCast_minus2modp] <;>
        ring
    · -- the same point: the tangent at the affine operand
      obtain rfl := hP0.mp (not_not.mp hPne)
      obtain rfl := hR0.mp hReq
      exact ecZZDoubleAffine_spec hB
    · -- opposite points
      obtain rfl := hP0.mp (not_not.mp hPne)
      refine ⟨_, rfl, ?_⟩
      rw [add_eq_zero_of_x_eq (mt hR0.mpr hReq)]
      exact stands_pointAtInf

/-! ### Affine coordinates -/

theorem ecZZSetAff_spec {P : XYZZ ℕ} {A : curve.Point} (h : Stands P A) :
    ∃ x y, ecZZSetAff P = .ok (x, y) ∧ Encodes x y A := by
  unfold ecZZSetAff
  split_ifs with hinf
  · refine ⟨0, 0, rfl, ?_⟩
    rw [(ecZZIsInf_iff h).mp hinf]
    exact ⟨rfl, rfl⟩
  · cases A with
    | zero => exact absurd ((ecZZIsInf_iff h).mpr rfl) hinf
    | some X Y hXY =>
    obtain ⟨hzz, hcube, hX, hY⟩ := h.represents
    have hzzz := XYZZ.zzz_ne_zero hzz hcube
    obtain ⟨v, hv, -, hvinv⟩ := pModInv_spec h.reduced.zzz
    rw [hv]
    refine ⟨_, _, rfl, mulmod_lt p_pos _ _, mulmod_lt p_pos _ _, ?_, ?_⟩
    · have hXY : (P.x : ZMod p) = X * P.zz := hX
      have hcube' : (P.zz : ZMod p) ^ 3 = (P.zzz : ZMod p) ^ 2 := hcube
      have hzzz' : (P.zzz : ZMod p) ≠ 0 := hzzz
      simp only [natCast_mulmod, hvinv, hXY]
      field_simp
      linear_combination X * hcube'
    · have hXY : (P.y : ZMod p) = Y * P.zzz := hY
      have hzzz' : (P.zzz : ZMod p) ≠ 0 := hzzz
      rw [natCast_mulmod, hvinv, hXY, mul_assoc, mul_inv_cancel₀ hzzz', mul_one]

theorem ecAffAdd_spec {x₁ y₁ x₂ y₂ : ℕ} {A B : curve.Point} (hA : Encodes x₁ y₁ A)
    (hB : Encodes x₂ y₂ B) :
    ∃ x y, ecAffAdd x₁ y₁ x₂ y₂ = .ok (x, y) ∧ Encodes x y (A + B) := by
  unfold ecAffAdd
  split_ifs with hAinf hBinf
  · refine ⟨x₂, y₂, rfl, ?_⟩
    rw [(ecAffIsInf_iff hA).mp hAinf, zero_add]
    exact hB
  · refine ⟨x₁, y₁, rfl, ?_⟩
    rw [(ecAffIsInf_iff hB).mp hBinf, add_zero]
    exact hA
  · cases A with
    | zero => exact absurd ((ecAffIsInf_iff hA).mpr rfl) hAinf
    | some X Y hXY =>
    obtain ⟨P, hP, hstands⟩ := ecZZDaddAffine_spec (stands_affine hA) hB
    rw [hP, ok_bind]
    exact ecZZSetAff_spec hstands

end Enclave.P256
