import Mathlib.AlgebraicGeometry.EllipticCurve.Affine.Point
import Mathlib.Tactic.FieldSimp
import Mathlib.Tactic.LinearCombination

/-!
# XYZZ coordinates on a short Weierstrass curve

A quadruple `(X, Y, ZZ, ZZZ)` with `ZZ³ = ZZZ²` and `ZZ ≠ 0` stands for the affine point
`(X / ZZ, Y / ZZZ)`; a quadruple with `ZZ = ZZZ = 0` stands for the point at infinity, whatever its
first two entries are.  `XYZZ.Represents P A` says that `P` stands for the point `A` of Mathlib's
group of points.

`double` and `addChord` are the formulas `dbl-2008-s-1` and `madd-2008-s`.  `represents_double` says
that doubling is the group's doubling on every representative, points of order two and infinity
included.  The chord formula adds an affine point with a different abscissa
(`represents_addChord`); `sub_x_eq_zero_iff` and `sub_y_eq_zero_iff` say how the two differences
that it starts from tell equal and opposite points apart.
-/

namespace Enclave.Curve

/-- The numeral 3 of the tangent's slope and of the curve's equation. -/
instance atLeastTwo_three : Nat.AtLeastTwo 3 := ⟨by decide⟩

/-- The numeral 2 of its denominator. -/
scoped instance atLeastTwo_two : Nat.AtLeastTwo 2 := ⟨le_rfl⟩

open WeierstrassCurve.Affine

variable {F : Type*} [Field F]

/-- The curve `y² = x³ + a x + b`. -/
def shortWeierstrass (a b : F) : WeierstrassCurve.Affine F :=
  { a₁ := 0, a₂ := 0, a₃ := 0, a₄ := a, a₆ := b }

variable {a b : F}

/-! ### The group law in coordinates -/

theorem equation_shortWeierstrass {x y : F} :
    (shortWeierstrass a b).Equation x y ↔ y ^ 2 = x ^ 3 + a * x + b := by
  rw [equation_iff]
  simp [shortWeierstrass]

@[simp] theorem negY_shortWeierstrass (x y : F) : (shortWeierstrass a b).negY x y = -y := by
  simp [negY, shortWeierstrass]

@[simp] theorem addX_shortWeierstrass (x₁ x₂ ℓ : F) :
    (shortWeierstrass a b).addX x₁ x₂ ℓ = ℓ ^ 2 - x₁ - x₂ := by
  simp [addX, shortWeierstrass]

@[simp] theorem addY_shortWeierstrass (x₁ x₂ y₁ ℓ : F) :
    (shortWeierstrass a b).addY x₁ x₂ y₁ ℓ = ℓ * (x₁ - (ℓ ^ 2 - x₁ - x₂)) - y₁ := by
  rw [addY, negY_shortWeierstrass, negAddY, addX_shortWeierstrass]
  ring

/-- The slope of a tangent that is not vertical. -/
theorem slope_tangent_mul [DecidableEq F] (a b x : F) {y : F} (hy : 2 * y ≠ 0) :
    (shortWeierstrass a b).slope x x y y * (2 * y) = 3 * x ^ 2 + a := by
  have hne : y ≠ (shortWeierstrass a b).negY x y := by
    rw [negY_shortWeierstrass]
    intro h
    exact hy (by linear_combination h)
  have hden : y - -y = 2 * y := by ring
  rw [slope_of_Y_ne rfl hne, negY_shortWeierstrass, hden, div_mul_cancel₀ _ hy]
  simp [shortWeierstrass]

/-- The slope of a chord. -/
theorem slope_chord_mul [DecidableEq F] (a b : F) {x₁ x₂ : F} (y₁ y₂ : F) (hx : x₁ ≠ x₂) :
    (shortWeierstrass a b).slope x₁ x₂ y₁ y₂ * (x₁ - x₂) = y₁ - y₂ := by
  rw [slope_of_X_ne hx, div_mul_cancel₀ _ (sub_ne_zero.mpr hx)]

/-! ### Quadruples -/

/-- A quadruple of XYZZ coordinates. -/
@[ext] structure XYZZ (F : Type*) where
  x : F
  y : F
  zz : F
  zzz : F
  deriving DecidableEq

namespace XYZZ

/-- The quadruple stands for the point. -/
def Represents (P : XYZZ F) : (shortWeierstrass a b).Point → Prop
  | .zero => P.zz = 0 ∧ P.zzz = 0
  | .some x y _ => P.zz ≠ 0 ∧ P.zz ^ 3 = P.zzz ^ 2 ∧ P.x = x * P.zz ∧ P.y = y * P.zzz

@[simp] theorem represents_zero {P : XYZZ F} :
    P.Represents (0 : (shortWeierstrass a b).Point) ↔ P.zz = 0 ∧ P.zzz = 0 := Iff.rfl

theorem zzz_ne_zero {P : XYZZ F} (hzz : P.zz ≠ 0) (h : P.zz ^ 3 = P.zzz ^ 2) : P.zzz ≠ 0 := by
  intro h0
  rw [h0, zero_pow two_ne_zero] at h
  exact hzz (pow_eq_zero_iff three_ne_zero |>.mp h)

/-- An affine point, with both denominators one. -/
theorem represents_affine {x y : F} (h : (shortWeierstrass a b).Nonsingular x y) :
    (⟨x, y, 1, 1⟩ : XYZZ F).Represents (.some x y h) := by
  refine ⟨one_ne_zero, ?_, ?_, ?_⟩ <;> ring

/-- Only the point at infinity has representatives with zero denominators. -/
theorem eq_zero_of_represents {P : XYZZ F}
    {A : (shortWeierstrass a b).Point}
    (h : P.Represents A) (hzz : P.zz = 0) : A = 0 := by
  cases A with
  | zero => rfl
  | some x y hxy => exact absurd hzz h.1

/-- Scaling the denominators by a square and its cube does not change the point. -/
theorem represents_scale_iff {P : XYZZ F} {A : (shortWeierstrass a b).Point} {c : F} (hc : c ≠ 0) :
    (⟨c ^ 2 * P.x, c ^ 3 * P.y, c ^ 2 * P.zz, c ^ 3 * P.zzz⟩ : XYZZ F).Represents A ↔
      P.Represents A := by
  have h2 : c ^ 2 ≠ 0 := pow_ne_zero 2 hc
  have h3 : c ^ 3 ≠ 0 := pow_ne_zero 3 hc
  cases A with
  | zero =>
    show c ^ 2 * P.zz = 0 ∧ c ^ 3 * P.zzz = 0 ↔ P.zz = 0 ∧ P.zzz = 0
    rw [mul_eq_zero, mul_eq_zero, or_iff_right h2, or_iff_right h3]
  | some x y hxy =>
    constructor
    · rintro ⟨hzz, hcube, hX, hY⟩
      refine ⟨right_ne_zero_of_mul hzz, ?_, ?_, ?_⟩
      · exact mul_left_cancel₀ (pow_ne_zero 6 hc) (by linear_combination hcube)
      · exact mul_left_cancel₀ h2 (by linear_combination hX)
      · exact mul_left_cancel₀ h3 (by linear_combination hY)
    · rintro ⟨hzz, hcube, hX, hY⟩
      refine ⟨mul_ne_zero h2 hzz, ?_, ?_, ?_⟩
      · linear_combination c ^ 6 * hcube
      · linear_combination c ^ 2 * hX
      · linear_combination c ^ 3 * hY

/-! ### Doubling -/

/-- Doubling, `dbl-2008-s-1`. -/
def double (a : F) (P : XYZZ F) : XYZZ F :=
  let u := 2 * P.y
  let v := u ^ 2
  let w := u * v
  let s := P.x * v
  let m := 3 * P.x ^ 2 + a * P.zz ^ 2
  let x := m ^ 2 - 2 * s
  ⟨x, m * (s - x) - w * P.y, v * P.zz, w * P.zzz⟩

theorem represents_double [DecidableEq F] (h2 : (2 : F) ≠ 0) {P : XYZZ F}
    {A : (shortWeierstrass a b).Point}
    (h : P.Represents A) : (P.double a).Represents (A + A) := by
  cases A with
  | zero =>
    obtain ⟨hzz, hzzz⟩ := h
    show (P.double a).zz = 0 ∧ (P.double a).zzz = 0
    simp [double, hzz, hzzz]
  | some x y hxy =>
    obtain ⟨hzz, hcube, hX, hY⟩ := h
    have hzzz := zzz_ne_zero hzz hcube
    by_cases hy : y = 0
    · -- a point of order two: the tangent is vertical
      have hsum : Point.some x y hxy + Point.some x y hxy = 0 :=
        Point.add_self_of_Y_eq (by rw [negY_shortWeierstrass, hy, neg_zero])
      rw [hsum, represents_zero]
      simp [double, hY, hy]
    · have h2y : 2 * y ≠ 0 := mul_ne_zero h2 hy
      have hne : y ≠ (shortWeierstrass a b).negY x y := by
        rw [negY_shortWeierstrass]
        exact fun h => h2y (by linear_combination h)
      have hslope := slope_tangent_mul a b x h2y
      rw [Point.add_self_of_Y_ne hne]
      simp only [Represents, double, hX, hY, addX_shortWeierstrass, addY_shortWeierstrass]
      set ℓ := (shortWeierstrass a b).slope x x y y
      refine ⟨?_, ?_, ?_, ?_⟩
      · exact mul_ne_zero (pow_ne_zero 2 (mul_ne_zero h2 (mul_ne_zero hy hzzz))) hzz
      · linear_combination (2 * (y * P.zzz)) ^ 6 * hcube
      · have hm : 3 * (x * P.zz) ^ 2 + a * P.zz ^ 2 = ℓ * (2 * y) * P.zz ^ 2 := by
          rw [hslope]; ring
        rw [hm]
        linear_combination (4 * ℓ ^ 2 * y ^ 2 * P.zz) * hcube
      · have hm : 3 * (x * P.zz) ^ 2 + a * P.zz ^ 2 = ℓ * (2 * y) * P.zz ^ 2 := by
          rw [hslope]; ring
        rw [hm]
        linear_combination (-8 * ℓ ^ 3 * y ^ 3 * P.zz ^ 3 - 8 * ℓ ^ 3 * y ^ 3 * P.zzz ^ 2
          + 24 * ℓ * x * y ^ 3 * P.zzz ^ 2) * hcube

/-! ### Adding an affine point -/

/-- The chord formula `madd-2008-s`; `p` and `r` are the scaled differences of the abscissas and of
the ordinates. -/
def addChord (P : XYZZ F) (p r : F) : XYZZ F :=
  let ppp := p ^ 2 * p
  let q := P.x * p ^ 2
  let x := r ^ 2 - ppp - 2 * q
  ⟨x, (q - x) * r - P.y * ppp, P.zz * p ^ 2, P.zzz * ppp⟩

/-- The scaled difference of the abscissas vanishes exactly when they are equal. -/
theorem sub_x_eq_zero_iff {P : XYZZ F} {x₁ x₂ : F} (hzz : P.zz ≠ 0) (hX : P.x = x₁ * P.zz) :
    x₂ * P.zz - P.x = 0 ↔ x₁ = x₂ := by
  rw [hX, ← sub_mul, mul_eq_zero, or_iff_left hzz, sub_eq_zero, eq_comm]

/-- The scaled difference of the ordinates vanishes exactly when they are equal. -/
theorem sub_y_eq_zero_iff {P : XYZZ F} {y₁ y₂ : F} (hzzz : P.zzz ≠ 0) (hY : P.y = y₁ * P.zzz) :
    y₂ * P.zzz - P.y = 0 ↔ y₁ = y₂ := by
  rw [hY, ← sub_mul, mul_eq_zero, or_iff_left hzzz, sub_eq_zero, eq_comm]

theorem represents_addChord [DecidableEq F] {P : XYZZ F} {x₁ y₁ x₂ y₂ : F}
    {h₁ : (shortWeierstrass a b).Nonsingular x₁ y₁} (h : P.Represents (.some x₁ y₁ h₁))
    (h₂ : (shortWeierstrass a b).Nonsingular x₂ y₂) (hx : x₁ ≠ x₂) :
    (P.addChord (x₂ * P.zz - P.x) (y₂ * P.zzz - P.y)).Represents
      (Point.some x₁ y₁ h₁ + Point.some x₂ y₂ h₂) := by
  obtain ⟨hzz, hcube, hX, hY⟩ := h
  have hslope := slope_chord_mul a b y₁ y₂ hx
  rw [Point.add_of_X_ne hx]
  simp only [Represents, addChord, hX, hY, addX_shortWeierstrass, addY_shortWeierstrass]
  set ℓ := (shortWeierstrass a b).slope x₁ x₂ y₁ y₂
  -- the scaled difference of the ordinates in terms of the slope
  have hr : y₂ * P.zzz - y₁ * P.zzz = ℓ * (x₂ - x₁) * P.zzz := by linear_combination P.zzz * hslope
  rw [hr]
  refine ⟨?_, ?_, ?_, ?_⟩
  · have hp : x₂ * P.zz - x₁ * P.zz ≠ 0 := by
      rw [← sub_mul]
      exact mul_ne_zero (sub_ne_zero.mpr hx.symm) hzz
    exact mul_ne_zero hzz (pow_ne_zero 2 hp)
  · linear_combination ((x₂ * P.zz - x₁ * P.zz) ^ 6) * hcube
  · linear_combination (-(ℓ ^ 2 * (x₂ - x₁) ^ 2)) * hcube
  · linear_combination (ℓ ^ 3 * (x₂ - x₁) ^ 3 * P.zzz) * hcube

end XYZZ

end Enclave.Curve
