import Enclave.P256.Equiv.XYZZ

/-!
# The accumulators of `P256Verifier` as points

`Accumulator P` and `Operand x y` are the quadruples and the pairs that the contract computes with,
told by their entries alone; `point` and `affinePoint` are the points that they stand for.
`accumulator_operations` says that the operations stay inside this representation, and what they
compute in the group.
-/

namespace Enclave.P256

open Curve P256Verifier WeierstrassCurve.Affine

/-- A quadruple that is reduced modulo `p`, and is either infinity or has its quotients on the
curve. -/
structure Accumulator (P : XYZZ ℕ) : Prop where
  reduced : Reduced P
  kind : (P.zz = 0 ∧ P.zzz = 0) ∨
    (P.zz ≠ 0 ∧ P.zzz ≠ 0 ∧ P.zz ^ 3 % p = P.zzz ^ 2 % p ∧
      curve.Equation ((P.x : ZMod p) / (P.zz : ZMod p)) ((P.y : ZMod p) / (P.zzz : ZMod p)))

/-- The coordinates of a point of the curve, or `(0, 0)`. -/
structure Operand (x y : ℕ) : Prop where
  x_lt : x < p
  y_lt : y < p
  kind : (x = 0 ∧ y = 0) ∨ curve.Equation (x : ZMod p) (y : ZMod p)

open Classical in
/-- The affine point with these coordinates; infinity when there is none. -/
noncomputable def pointAt (X Y : ZMod p) : curve.Point :=
  if h : curve.Nonsingular X Y then .some X Y h else 0

/-- The point that a quadruple stands for. -/
noncomputable def point (P : XYZZ ℕ) : curve.Point :=
  if P.zz = 0 ∧ P.zzz = 0 then 0 else
    pointAt ((P.x : ZMod p) / (P.zz : ZMod p)) ((P.y : ZMod p) / (P.zzz : ZMod p))

/-- The point that a pair stands for; `(0, 0)` is not on the curve. -/
noncomputable def affinePoint (x y : ℕ) : curve.Point := pointAt x y

theorem pointAt_of_nonsingular {X Y : ZMod p} (h : curve.Nonsingular X Y) :
    pointAt X Y = .some X Y h := dif_pos h

theorem nonsingular_of_equation {X Y : ZMod p} (h : curve.Equation X Y) : curve.Nonsingular X Y :=
  nonsingular_iff.mpr (equation_iff.mp h)

/-- The entries tell a representative. -/
theorem Accumulator.stands {P : XYZZ ℕ} (h : Accumulator P) : Stands P (point P) := by
  refine ⟨h.reduced, ?_⟩
  rcases h.kind with hinf | ⟨hzz, hzzz, hcube, hcurve⟩
  · rw [point, if_pos hinf]
    show ((P.zz : ZMod p) = 0 ∧ (P.zzz : ZMod p) = 0)
    rw [hinf.1, hinf.2, Nat.cast_zero]
    exact ⟨rfl, rfl⟩
  · have hzz' : (P.zz : ZMod p) ≠ 0 := mt (natCast_eq_zero_of_lt h.reduced.zz).mp hzz
    have hzzz' : (P.zzz : ZMod p) ≠ 0 := mt (natCast_eq_zero_of_lt h.reduced.zzz).mp hzzz
    rw [point, if_neg fun hinf => hzz hinf.1,
      pointAt_of_nonsingular (nonsingular_of_equation hcurve)]
    refine ⟨hzz', ?_, (div_mul_cancel₀ _ hzz').symm, (div_mul_cancel₀ _ hzzz').symm⟩
    show (P.zz : ZMod p) ^ 3 = (P.zzz : ZMod p) ^ 2
    exact_mod_cast (ZMod.natCast_eq_natCast_iff' _ _ p).mpr hcube

/-- A representative is told by its entries. -/
theorem accumulator_of_stands {P : XYZZ ℕ} {A : curve.Point} (h : Stands P A) :
    Accumulator P ∧ point P = A := by
  cases A with
  | zero =>
    have hinf : P.zz = 0 ∧ P.zzz = 0 :=
      ⟨(natCast_eq_zero_of_lt h.reduced.zz).mp h.represents.1,
        (natCast_eq_zero_of_lt h.reduced.zzz).mp h.represents.2⟩
    exact ⟨⟨h.reduced, Or.inl hinf⟩, if_pos hinf⟩
  | some X Y hXY =>
    obtain ⟨hzz, hcube, hX, hY⟩ := h.represents
    have hzzz : (P.zzz : ZMod p) ≠ 0 := XYZZ.zzz_ne_zero hzz hcube
    have hzz' : (P.zz : ZMod p) ≠ 0 := hzz
    have hX' : (P.x : ZMod p) / (P.zz : ZMod p) = X := (div_eq_iff hzz').mpr hX
    have hY' : (P.y : ZMod p) / (P.zzz : ZMod p) = Y := (div_eq_iff hzzz).mpr hY
    have hfin : ¬(P.zz = 0 ∧ P.zzz = 0) := fun hinf => hzz' (by rw [hinf.1, Nat.cast_zero])
    have hcube' : (P.zz : ZMod p) ^ 3 = (P.zzz : ZMod p) ^ 2 := hcube
    refine ⟨⟨h.reduced, Or.inr ⟨fun h0 => hzz' (by rw [h0, Nat.cast_zero]),
      fun h0 => hzzz (by rw [h0, Nat.cast_zero]), ?_, ?_⟩⟩, ?_⟩
    · rw [← ZMod.natCast_eq_natCast_iff']
      exact_mod_cast hcube'
    · rw [hX', hY']
      exact hXY.left
    · rw [point, if_neg hfin, hX', hY', pointAt_of_nonsingular hXY]

theorem affinePoint_zero : affinePoint 0 0 = 0 := by
  refine dif_neg ?_
  rw [Nat.cast_zero]
  exact not_nonsingular_zero

theorem Operand.encodes {x y : ℕ} (h : Operand x y) : Encodes x y (affinePoint x y) := by
  rcases h.kind with ⟨rfl, rfl⟩ | hcurve
  · rw [affinePoint_zero]
    exact ⟨rfl, rfl⟩
  · rw [affinePoint, pointAt_of_nonsingular (nonsingular_of_equation hcurve)]
    exact ⟨h.x_lt, h.y_lt, rfl, rfl⟩

theorem operand_of_encodes {x y : ℕ} {A : curve.Point} (h : Encodes x y A) :
    Operand x y ∧ affinePoint x y = A := by
  cases A with
  | zero =>
    obtain ⟨rfl, rfl⟩ := h
    exact ⟨⟨p_pos, p_pos, Or.inl ⟨rfl, rfl⟩⟩, affinePoint_zero⟩
  | some X Y hXY =>
    obtain ⟨hx, hy, rfl, rfl⟩ := h
    exact ⟨⟨hx, hy, Or.inr hXY.left⟩, pointAt_of_nonsingular hXY⟩

/-- **The operations on accumulators are those of the group.**  None of them reverts, the sum and
the double are accumulators again, and `ecZZ_SetAff` gives the affine coordinates of the point. -/
theorem accumulator_operations {P : XYZZ ℕ} (hP : Accumulator P) {x y : ℕ} (hB : Operand x y) :
    (∃ S, ecZZDaddAffine P x y = .ok S ∧ Accumulator S ∧ point S = point P + affinePoint x y) ∧
    (∃ D, ecZZDoubleZZ P = .ok D ∧ Accumulator D ∧ point D = point P + point P) ∧
    ∃ X Y, ecZZSetAff P = .ok (X, Y) ∧ Operand X Y ∧ affinePoint X Y = point P := by
  obtain ⟨S, hsum, hS⟩ := ecZZDaddAffine_spec hP.stands hB.encodes
  obtain ⟨D, hdouble, hD⟩ := ecZZDoubleZZ_spec hP.stands
  obtain ⟨X, Y, haffine, hXY⟩ := ecZZSetAff_spec hP.stands
  exact ⟨⟨S, hsum, accumulator_of_stands hS⟩, ⟨D, hdouble, accumulator_of_stands hD⟩,
    X, Y, haffine, operand_of_encodes hXY⟩

/-- The base point, as an accumulator and as an operand. -/
theorem accumulator_operations_base :
    Accumulator ⟨GX, GY, 1, 1⟩ ∧ Operand GX GY ∧
    ∃ S, ecZZDaddAffine ⟨GX, GY, 1, 1⟩ GX GY = .ok S ∧ Accumulator S ∧ point S = base + base := by
  have hbase : Encodes GX GY base := encodes_some (by decide) (by decide) nonsingular_base
  obtain ⟨hP, hpoint⟩ := accumulator_of_stands (stands_affine hbase)
  obtain ⟨hB, haffine⟩ := operand_of_encodes hbase
  obtain ⟨S, hsum, hS, hpointS⟩ := (accumulator_operations hP hB).1
  rw [hpoint, haffine] at hpointS
  exact ⟨hP, hB, S, hsum, hS, hpointS⟩

end Enclave.P256
