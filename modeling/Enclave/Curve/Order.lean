import Enclave.Curve.XYZZ
import Mathlib.GroupTheory.Perm.Cycle.Type
import Mathlib.GroupTheory.SpecificGroups.Cyclic
import Mathlib.SetTheory.Cardinal.Finite

/-!
# Curves with a generator

A short Weierstrass curve over a finite field `F` has at most `2 |F| + 1` points
(`natCard_point_le`), and its points of order two are the roots of the cubic
(`root_of_two_nsmul`).  So a point of prime order `n` generates the whole group when
`2 |F| + 1 < 3 n` and the cubic has no root (`existsUnique_nsmul`).
-/

namespace Enclave.Curve

open WeierstrassCurve.Affine

variable {F : Type*} [Field F] {a b : F}

/-- A chosen ordinate over every abscissa. -/
noncomputable def ordinate (a b x : F) : F :=
  open Classical in if h : ∃ y, (shortWeierstrass a b).Nonsingular x y then h.choose else 0

theorem nonsingular_ordinate {x y : F} (h : (shortWeierstrass a b).Nonsingular x y) :
    (shortWeierstrass a b).Nonsingular x (ordinate a b x) := by
  have hx : ∃ y, (shortWeierstrass a b).Nonsingular x y := ⟨y, h⟩
  rw [ordinate, dif_pos hx]
  exact hx.choose_spec

/-- There are at most two points over an abscissa. -/
theorem eq_or_eq_neg_ordinate {x y : F} (h : (shortWeierstrass a b).Nonsingular x y) :
    y = ordinate a b x ∨ y = -ordinate a b x := by
  have hy := equation_shortWeierstrass.mp h.1
  have hy' := equation_shortWeierstrass.mp (nonsingular_ordinate h).1
  exact sq_eq_sq_iff_eq_or_eq_neg.mp (hy.trans hy'.symm)

/-- A point by its abscissa and one bit. -/
noncomputable def label : (shortWeierstrass a b).Point → Option (F × Bool)
  | .zero => none
  | .some x y _ => open Classical in some (x, decide (y = ordinate a b x))

theorem label_injective : Function.Injective (label (a := a) (b := b)) := by
  intro P Q h
  cases P with
  | zero =>
    cases Q with
    | zero => rfl
    | some x' y' h' => cases h
  | some x y hP =>
    cases Q with
    | zero => cases h
    | some x' y' hQ =>
      obtain ⟨rfl, hbit⟩ := Prod.mk.inj (Option.some.inj h)
      rw [decide_eq_decide] at hbit
      have hy : y = y' := by
        by_cases hord : y = ordinate a b x
        · rw [hord, hbit.mp hord]
        · have hord' : y' ≠ ordinate a b x := fun h => hord (hbit.mpr h)
          rw [(eq_or_eq_neg_ordinate hP).resolve_left hord,
            (eq_or_eq_neg_ordinate hQ).resolve_left hord']
      subst hy
      rfl

/-- A point of order two lies over a root. -/
theorem root_of_two_nsmul [DecidableEq F] (h2 : (2 : F) ≠ 0)
    {P : (shortWeierstrass a b).Point} (hP : P ≠ 0) (htwo : 2 • P = 0) :
    ∃ x, x ^ 3 + a * x + b = 0 := by
  cases P with
  | zero => exact absurd rfl hP
  | some x y h =>
    rw [two_nsmul] at htwo
    have hneg : Point.some x y h = -Point.some x y h := eq_neg_of_add_eq_zero_left htwo
    rw [Point.neg_some, Point.some.injEq, negY_shortWeierstrass] at hneg
    have hy : y = 0 := by
      have hsum : 2 * y = 0 := by linear_combination hneg.2
      exact (mul_eq_zero.mp hsum).resolve_left h2
    refine ⟨x, ?_⟩
    rw [← equation_shortWeierstrass.mp h.1, hy]
    ring

section Finite

variable [Finite F]

instance finite_point : Finite (shortWeierstrass a b).Point :=
  Finite.of_injective label label_injective

/-- The trivial bound on the number of points. -/
theorem natCard_point_le : Nat.card (shortWeierstrass a b).Point ≤ 2 * Nat.card F + 1 := by
  have hle := Nat.card_le_card_of_injective label (label_injective (a := a) (b := b))
  rwa [Finite.card_option, Nat.card_prod, Nat.card_eq_fintype_card (α := Bool), Fintype.card_bool,
    mul_comm] at hle

variable [DecidableEq F]

/-- The order of the group. -/
theorem natCard_point_eq (h2 : (2 : F) ≠ 0) {n : ℕ} {G : (shortWeierstrass a b).Point}
    (hG : addOrderOf G = n) (hcard : 2 * Nat.card F + 1 < 3 * n)
    (hroot : ∀ x : F, x ^ 3 + a * x + b ≠ 0) :
    Nat.card (shortWeierstrass a b).Point = n := by
  obtain ⟨m, hm⟩ : n ∣ Nat.card (shortWeierstrass a b).Point := by
    rw [← hG]
    exact addOrderOf_dvd_natCard G
  have hle := natCard_point_le (a := a) (b := b)
  have hpos : 0 < Nat.card (shortWeierstrass a b).Point := Nat.card_pos
  have hlt : m < 3 := by
    by_contra hge
    have hmul : n * 3 ≤ n * m := Nat.mul_le_mul_left n (by omega)
    omega
  have htwo : m ≠ 2 := by
    rintro rfl
    -- by Cauchy there would be a point of order two
    obtain ⟨P, hP⟩ := exists_prime_addOrderOf_dvd_card' 2 (Dvd.intro_left n hm.symm)
    have hne : P ≠ 0 := by
      rintro rfl
      rw [addOrderOf_zero] at hP
      cases hP
    obtain ⟨x, hx⟩ := root_of_two_nsmul h2 hne (by rw [← hP, addOrderOf_nsmul_eq_zero])
    exact hroot x hx
  have hone : m = 1 := by
    rcases Nat.eq_zero_or_pos m with rfl | hm'
    · omega
    · omega
  rw [hm, hone, mul_one]

/-- **The generator**: every point is a unique multiple of `G` below its order. -/
theorem existsUnique_nsmul (h2 : (2 : F) ≠ 0) {n : ℕ} [hn : Fact n.Prime]
    {G : (shortWeierstrass a b).Point} (hG : addOrderOf G = n)
    (hcard : 2 * Nat.card F + 1 < 3 * n) (hroot : ∀ x : F, x ^ 3 + a * x + b ≠ 0)
    (P : (shortWeierstrass a b).Point) : ∃! k, k < n ∧ k • G = P := by
  have hne : G ≠ 0 := by
    rintro rfl
    rw [addOrderOf_zero] at hG
    exact hn.out.one_lt.ne hG
  have hmem : P ∈ AddSubmonoid.multiples G :=
    mem_multiples_of_prime_card (natCard_point_eq h2 hG hcard hroot) hne
  obtain ⟨k, hk⟩ := hmem
  refine ⟨k % n, ⟨Nat.mod_lt k hn.out.pos, ?_⟩, ?_⟩
  · rw [← hG, mod_addOrderOf_nsmul]
    exact hk
  · rintro j ⟨hj, rfl⟩
    have hmod : k ≡ j [MOD n] := by
      rw [← hG, ← nsmul_eq_nsmul_iff_modEq]
      exact hk
    rw [hmod, Nat.mod_eq_of_lt hj]

end Finite

end Enclave.Curve
