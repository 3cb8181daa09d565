import Enclave.Curve.XYZZ

/-!
# Homogeneous coordinates on a short Weierstrass curve

A triple `(X, Y, Z)` with `Z ≠ 0` stands for the affine point `(X / Z, Y / Z)`, and every triple
with `Z = 0` stands for the point at infinity.  The triple is the quadruple `(X Z, Y Z², Z², Z³)` of
XYZZ coordinates, and the formulas below differ from those of `XYZZ` by a scaling of the
denominators.

`double` is right on every representative (`represents_double`).  `add` is the group's sum on points
with different abscissas (`represents_add`), and gives infinity on equal ones (`z_add_eq_zero`);
`sub_x_eq_zero_iff` and `sub_y_eq_zero_iff` say how the differences it starts from tell equal and
opposite points apart.
-/

namespace Enclave.Curve

open WeierstrassCurve.Affine

variable {F : Type*} [Field F] {a b : F}

/-- A triple of homogeneous coordinates. -/
@[ext] structure Projective (F : Type*) where
  x : F
  y : F
  z : F
  deriving DecidableEq, Repr

namespace Projective

def toXYZZ (P : Projective F) : XYZZ F := ⟨P.x * P.z, P.y * P.z ^ 2, P.z ^ 2, P.z ^ 3⟩

/-- The triple stands for the point. -/
def Represents (P : Projective F) (A : (shortWeierstrass a b).Point) : Prop :=
  P.toXYZZ.Represents A

@[simp] theorem represents_zero {P : Projective F} :
    P.Represents (0 : (shortWeierstrass a b).Point) ↔ P.z = 0 := by
  show P.z ^ 2 = 0 ∧ P.z ^ 3 = 0 ↔ P.z = 0
  rw [pow_eq_zero_iff two_ne_zero, pow_eq_zero_iff three_ne_zero, and_self]

theorem represents_some {P : Projective F} {x y : F}
    {h : (shortWeierstrass a b).Nonsingular x y} :
    P.Represents (.some x y h) ↔ P.z ≠ 0 ∧ P.x = x * P.z ∧ P.y = y * P.z := by
  constructor
  · rintro ⟨hzz, -, hX, hY⟩
    have hz : P.z ≠ 0 := fun h0 => hzz (by rw [toXYZZ, h0, zero_pow two_ne_zero])
    have hX' : P.x * P.z = x * P.z ^ 2 := hX
    have hY' : P.y * P.z ^ 2 = y * P.z ^ 3 := hY
    refine ⟨hz, mul_right_cancel₀ hz ?_, mul_right_cancel₀ (pow_ne_zero 2 hz) ?_⟩
    · linear_combination hX'
    · linear_combination hY'
  · rintro ⟨hz, hX, hY⟩
    refine ⟨pow_ne_zero 2 hz, ?_, ?_, ?_⟩
    · show (P.z ^ 2) ^ 3 = (P.z ^ 3) ^ 2
      ring
    · show P.x * P.z = x * P.z ^ 2
      rw [hX]
      ring
    · show P.y * P.z ^ 2 = y * P.z ^ 3
      rw [hY]
      ring

/-- The representatives of infinity are told by their third coordinate. -/
theorem z_eq_zero_iff {P : Projective F} {A : (shortWeierstrass a b).Point} (h : P.Represents A) :
    P.z = 0 ↔ A = 0 := by
  cases A with
  | zero => exact iff_of_true (represents_zero.mp h) rfl
  | some x y hxy => exact iff_of_false (represents_some.mp h).1 (Point.some_ne_zero hxy)

/-! ### Doubling -/

def double (a : F) (P : Projective F) : Projective F :=
  let t := 3 * P.x ^ 2 + a * P.z ^ 2
  let u := 2 * (P.y * P.z)
  let v := 2 * (u * (P.x * P.y))
  let w := t ^ 2 - 2 * v
  ⟨u * w, t * (v - w) - 2 * (u * P.y) ^ 2, u ^ 3⟩

theorem represents_double [DecidableEq F] (h2 : (2 : F) ≠ 0) {P : Projective F}
    {A : (shortWeierstrass a b).Point} (h : P.Represents A) :
    (P.double a).Represents (A + A) := by
  have hdouble := XYZZ.represents_double h2 h
  by_cases hy : P.y = 0
  · -- the tangent is vertical, or the point is at infinity
    have hsum : A + A = 0 := by
      refine XYZZ.eq_zero_of_represents hdouble ?_
      simp [XYZZ.double, toXYZZ, hy]
    rw [hsum, represents_zero]
    simp [double, hy]
  · have hc : 4 * P.y ^ 2 ≠ 0 := by
      have h4 : (4 : F) = 2 * 2 := by norm_num
      rw [h4]
      exact mul_ne_zero (mul_ne_zero h2 h2) (pow_ne_zero 2 hy)
    have hscaled := (XYZZ.represents_scale_iff hc).mpr hdouble
    rw [Represents]
    convert hscaled using 1
    ext <;> simp only [toXYZZ, double, XYZZ.double] <;> ring

/-! ### Addition -/

/-- The chord through two points. -/
def add (P Q : Projective F) : Projective F :=
  let t₀ := P.y * Q.z
  let t := t₀ - Q.y * P.z
  let u₀ := P.x * Q.z
  let u₁ := Q.x * P.z
  let u := u₀ - u₁
  let v := P.z * Q.z
  let w := t ^ 2 * v - u ^ 2 * (u₀ + u₁)
  ⟨u * w, t * (u₀ * u ^ 2 - w) - t₀ * u ^ 3, u ^ 3 * v⟩

variable {P Q : Projective F} {x₁ y₁ x₂ y₂ : F} {h₁ : (shortWeierstrass a b).Nonsingular x₁ y₁}
  {h₂ : (shortWeierstrass a b).Nonsingular x₂ y₂}

theorem sub_x_eq_zero_iff (hP : P.Represents (.some x₁ y₁ h₁))
    (hQ : Q.Represents (.some x₂ y₂ h₂)) :
    P.x * Q.z - Q.x * P.z = 0 ↔ x₁ = x₂ := by
  obtain ⟨hzP, hXP, -⟩ := represents_some.mp hP
  obtain ⟨hzQ, hXQ, -⟩ := represents_some.mp hQ
  have hfactor : P.x * Q.z - Q.x * P.z = (x₁ - x₂) * (P.z * Q.z) := by
    rw [hXP, hXQ]
    ring
  rw [hfactor, mul_eq_zero, or_iff_left (mul_ne_zero hzP hzQ), sub_eq_zero]

theorem sub_y_eq_zero_iff (hP : P.Represents (.some x₁ y₁ h₁))
    (hQ : Q.Represents (.some x₂ y₂ h₂)) :
    P.y * Q.z - Q.y * P.z = 0 ↔ y₁ = y₂ := by
  obtain ⟨hzP, -, hYP⟩ := represents_some.mp hP
  obtain ⟨hzQ, -, hYQ⟩ := represents_some.mp hQ
  have hfactor : P.y * Q.z - Q.y * P.z = (y₁ - y₂) * (P.z * Q.z) := by
    rw [hYP, hYQ]
    ring
  rw [hfactor, mul_eq_zero, or_iff_left (mul_ne_zero hzP hzQ), sub_eq_zero]

theorem represents_add [DecidableEq F] (hP : P.Represents (.some x₁ y₁ h₁))
    (hQ : Q.Represents (.some x₂ y₂ h₂)) (hx : x₁ ≠ x₂) :
    (P.add Q).Represents (Point.some x₁ y₁ h₁ + Point.some x₂ y₂ h₂) := by
  have hu : P.x * Q.z - Q.x * P.z ≠ 0 := fun h0 => hx ((sub_x_eq_zero_iff hP hQ).mp h0)
  obtain ⟨hzP, -, -⟩ := represents_some.mp hP
  obtain ⟨hzQ, hX, hY⟩ := represents_some.mp hQ
  -- the mixed sum over the common denominator, and both sides scaled to one denominator
  have hsum := XYZZ.represents_addChord ((XYZZ.represents_scale_iff hzQ).mpr hP) h₂ hx
  have hscaled := (XYZZ.represents_scale_iff (neg_ne_zero.mpr (pow_ne_zero 2 hu))).mpr hsum
  rw [Represents, ← XYZZ.represents_scale_iff (mul_ne_zero hzP hzQ)]
  convert hscaled using 1
  ext <;> simp only [toXYZZ, add, XYZZ.addChord, hX, hY] <;> ring

theorem z_add_eq_zero (hP : P.Represents (.some x₁ y₁ h₁)) (hQ : Q.Represents (.some x₂ y₂ h₂))
    (hx : x₁ = x₂) : (P.add Q).z = 0 := by
  simp only [add, (sub_x_eq_zero_iff hP hQ).mpr hx]
  ring

end Projective

end Enclave.Curve
