import Enclave.Curve.XYZZ

/-!
# Jacobian coordinates on a short Weierstrass curve

A triple `(X, Y, Z)` with `Z ≠ 0` stands for the affine point `(X / Z², Y / Z³)`, and every triple
with `Z = 0` stands for the point at infinity.  The triple is the quadruple `(X, Y, Z², Z³)` of XYZZ
coordinates, and the facts below are those of `XYZZ` read through `toXYZZ`.

`double` is the doubling of the modified Jacobian coordinates, right on every representative
(`represents_double`).  `add` is the formula `add-2007-bl`.  It is the group's sum on points with
different abscissas (`represents_add`); on equal abscissas it always gives infinity
(`z_add_eq_zero`), for a point and its opposite as for a point and itself.
-/

namespace Enclave.Curve

open WeierstrassCurve.Affine

variable {F : Type*} [Field F] {a b : F}

/-- A triple of Jacobian coordinates. -/
@[ext] structure Jacobian (F : Type*) where
  x : F
  y : F
  z : F
  deriving DecidableEq, Repr

namespace Jacobian

def toXYZZ (P : Jacobian F) : XYZZ F := ⟨P.x, P.y, P.z ^ 2, P.z ^ 3⟩

/-- The triple stands for the point. -/
def Represents (P : Jacobian F) (A : (shortWeierstrass a b).Point) : Prop := P.toXYZZ.Represents A

@[simp] theorem represents_zero {P : Jacobian F} :
    P.Represents (0 : (shortWeierstrass a b).Point) ↔ P.z = 0 := by
  show P.z ^ 2 = 0 ∧ P.z ^ 3 = 0 ↔ P.z = 0
  rw [pow_eq_zero_iff two_ne_zero, pow_eq_zero_iff three_ne_zero, and_self]

/-- The representatives of infinity are told by their third coordinate. -/
theorem z_eq_zero_iff {P : Jacobian F} {A : (shortWeierstrass a b).Point} (h : P.Represents A) :
    P.z = 0 ↔ A = 0 := by
  constructor
  · intro hz
    exact XYZZ.eq_zero_of_represents h (show P.z ^ 2 = 0 by rw [hz, zero_pow two_ne_zero])
  · rintro rfl
    exact represents_zero.mp h

/-- An affine point, with denominator one. -/
theorem represents_affine {x y : F} (h : (shortWeierstrass a b).Nonsingular x y) :
    (⟨x, y, 1⟩ : Jacobian F).Represents (.some x y h) := by
  have hone : (⟨x, y, 1⟩ : Jacobian F).toXYZZ = ⟨x, y, 1, 1⟩ := by simp [toXYZZ]
  rw [Represents, hone]
  exact XYZZ.represents_affine h

/-! ### Doubling -/

def double (a : F) (P : Jacobian F) : Jacobian F :=
  let s := 4 * (P.x * P.y ^ 2)
  let u := 8 * P.y ^ 4
  let m := 3 * P.x ^ 2 + a * P.z ^ 4
  let x := m ^ 2 - 2 * s
  ⟨x, m * (s - x) - u, 2 * (P.y * P.z)⟩

theorem toXYZZ_double (a : F) (P : Jacobian F) : (P.double a).toXYZZ = P.toXYZZ.double a := by
  ext <;> simp only [toXYZZ, double, XYZZ.double] <;> ring

theorem represents_double [DecidableEq F] (h2 : (2 : F) ≠ 0) {P : Jacobian F}
    {A : (shortWeierstrass a b).Point} (h : P.Represents A) :
    (P.double a).Represents (A + A) := by
  rw [Represents, toXYZZ_double]
  exact XYZZ.represents_double h2 h

/-! ### Addition -/

/-- The formula `add-2007-bl`, with no test of its operands. -/
def add (P Q : Jacobian F) : Jacobian F :=
  let u₁ := P.x * Q.z ^ 2
  let s₁ := P.y * Q.z ^ 3
  let h := Q.x * P.z ^ 2 - u₁
  let i := (2 * h) ^ 2
  let j := h * i
  let r := 2 * (Q.y * P.z ^ 3 - s₁)
  let v := u₁ * i
  let x := r ^ 2 - (j + 2 * v)
  ⟨x, r * (v - x) - 2 * s₁ * j, ((P.z + Q.z) ^ 2 - (P.z ^ 2 + Q.z ^ 2)) * h⟩

variable {P Q : Jacobian F} {x₁ y₁ x₂ y₂ : F} {h₁ : (shortWeierstrass a b).Nonsingular x₁ y₁}
  {h₂ : (shortWeierstrass a b).Nonsingular x₂ y₂}

theorem represents_add [DecidableEq F] (h2 : (2 : F) ≠ 0) (hP : P.Represents (.some x₁ y₁ h₁))
    (hQ : Q.Represents (.some x₂ y₂ h₂)) (hx : x₁ ≠ x₂) :
    (P.add Q).Represents (Point.some x₁ y₁ h₁ + Point.some x₂ y₂ h₂) := by
  obtain ⟨hzQ, -, hXQ, hYQ⟩ := hQ
  have hX : Q.x = x₂ * Q.z ^ 2 := hXQ
  have hY : Q.y = y₂ * Q.z ^ 3 := hYQ
  have hz : Q.z ≠ 0 := fun h0 => hzQ (by rw [toXYZZ, h0, zero_pow two_ne_zero])
  -- the first operand over the common denominator, the mixed sum, and the formula's factor two
  have hsum := (XYZZ.represents_scale_iff h2).mpr
    (XYZZ.represents_addChord ((XYZZ.represents_scale_iff hz).mpr hP) h₂ hx)
  rw [Represents]
  convert hsum using 1
  ext <;> simp only [toXYZZ, add, XYZZ.addChord, hX, hY] <;> ring

theorem z_add_eq_zero (hP : P.Represents (.some x₁ y₁ h₁)) (hQ : Q.Represents (.some x₂ y₂ h₂))
    (hx : x₁ = x₂) : (P.add Q).z = 0 := by
  obtain ⟨-, -, hXP, -⟩ := hP
  obtain ⟨-, -, hXQ, -⟩ := hQ
  have hX₁ : P.x = x₁ * P.z ^ 2 := hXP
  have hX₂ : Q.x = x₂ * Q.z ^ 2 := hXQ
  have hh : Q.x * P.z ^ 2 - P.x * Q.z ^ 2 = 0 := by rw [hX₁, hX₂, hx]; ring
  simp only [add, hh, mul_zero]

end Jacobian

end Enclave.Curve
