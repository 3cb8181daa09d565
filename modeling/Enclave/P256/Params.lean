import Enclave.Curve.XYZZ
import Enclave.Number.Pratt

/-!
# The curve P-256

The parameters of secp256r1 under the names that `P256Verifier.sol` gives them, and the facts about
them that everything else rests on: the field modulus `p` and the scalar modulus `n` are prime
(`certificate`), the curve is nonsingular and has no point `(0, 0)`, and the base point lies on it.
-/

namespace Enclave.P256

open Curve

/-- Curve prime field modulus. -/
def p : ℕ := 0xFFFFFFFF00000001000000000000000000000000FFFFFFFFFFFFFFFFFFFFFFFF

/-- Short Weierstrass first coefficient. -/
def a : ℕ := 0xFFFFFFFF00000001000000000000000000000000FFFFFFFFFFFFFFFFFFFFFFFC

/-- Short Weierstrass second coefficient. -/
def b : ℕ := 0x5AC635D8AA3A93E7B3EBBD55769886BC651D06B0CC53B0F63BCE3C3E27D2604B

/-- Generating point, first coordinate. -/
def GX : ℕ := 0x6B17D1F2E12C4247F8BCE6E563A440F277037D812DEB33A0F4A13945D898C296

/-- Generating point, second coordinate. -/
def GY : ℕ := 0x4FE342E2FE1A7F9B8EE7EB4A7C0F9E162BCE33576B315ECECBB6406837BF51F5

/-- Curve order. -/
def n : ℕ := 0xFFFFFFFF00000000FFFFFFFFFFFFFFFFBCE6FAADA7179E84F3B9CAC2FC632551

/-- `-2 mod p`. -/
def minus2modp : ℕ := 0xFFFFFFFF00000001000000000000000000000000FFFFFFFFFFFFFFFFFFFFFFFD

/-- `-2 mod n`. -/
def minus2modn : ℕ := 0xFFFFFFFF00000000FFFFFFFFFFFFFFFFBCE6FAADA7179E84F3B9CAC2FC63254F

/-! ### The two primes -/

/-- A primality certificate for `p` and `n`. -/
def certificate : List PrattLine :=
  [⟨p, 6,
      [2, 3, 5, 17, 257, 641, 1531, 65537, 490463, 6700417,
      835945042244614951780389953367877943453916927241]⟩,
    ⟨n, 7,
      [2, 3, 71, 131, 373, 3407, 17449, 38189, 187019741, 622491383, 1002328039319,
      2624747550333869278416773953]⟩,
    ⟨835945042244614951780389953367877943453916927241, 11,
      [2, 3, 5, 774023187263532362759620327192479577272145303]⟩,
    ⟨774023187263532362759620327192479577272145303, 3,
      [2, 3, 2411, 34282281433, 11290956913871, 46076956964474543]⟩,
    ⟨2624747550333869278416773953, 7, [2, 3, 1297, 16879, 208150935158385979]⟩,
    ⟨208150935158385979, 2, [2, 3, 11, 43, 127, 3023, 191039911]⟩,
    ⟨46076956964474543, 5, [2, 23, 18169, 78283, 704251]⟩,
    ⟨11290956913871, 13, [2, 5, 17, 66417393611]⟩, ⟨1002328039319, 19, [2, 126241, 3969899]⟩,
    ⟨66417393611, 6, [2, 5, 53, 173, 197, 3677]⟩, ⟨34282281433, 17, [2, 3, 7, 204061199]⟩,
    ⟨622491383, 5, [2, 311245691]⟩, ⟨311245691, 2, [2, 5, 7, 17, 29, 311]⟩,
    ⟨204061199, 11, [2, 11, 23, 107, 3769]⟩, ⟨191039911, 3, [2, 3, 5, 41, 155317]⟩,
    ⟨187019741, 2, [2, 5, 9350987]⟩, ⟨9350987, 2, [2, 17, 229, 1201]⟩,
    ⟨6700417, 5, [2, 3, 17449]⟩, ⟨3969899, 2, [2, 19, 104471]⟩, ⟨704251, 2, [2, 3, 5, 313]⟩,
    ⟨490463, 14, [2, 7, 53, 661]⟩, ⟨155317, 5, [2, 3, 7, 43]⟩, ⟨126241, 7, [2, 3, 5, 263]⟩,
    ⟨104471, 11, [2, 5, 31, 337]⟩, ⟨78283, 3, [2, 3, 4349]⟩, ⟨65537, 3, [2]⟩,
    ⟨38189, 2, [2, 9547]⟩, ⟨18169, 11, [2, 3, 757]⟩, ⟨17449, 14, [2, 3, 727]⟩,
    ⟨16879, 3, [2, 3, 29, 97]⟩, ⟨9547, 2, [2, 3, 37, 43]⟩, ⟨4349, 2, [2, 1087]⟩,
    ⟨3769, 7, [2, 3, 157]⟩, ⟨3677, 2, [2, 919]⟩, ⟨3407, 5, [2, 13, 131]⟩, ⟨3023, 5, [2, 1511]⟩,
    ⟨2411, 6, [2, 5, 241]⟩, ⟨1531, 2, [2, 3, 5, 17]⟩, ⟨1511, 11, [2, 5, 151]⟩,
    ⟨1297, 10, [2, 3]⟩, ⟨1201, 11, [2, 3, 5]⟩, ⟨1087, 3, [2, 3, 181]⟩, ⟨919, 7, [2, 3, 17]⟩,
    ⟨757, 2, [2, 3, 7]⟩, ⟨727, 5, [2, 3, 11]⟩, ⟨661, 2, [2, 3, 5, 11]⟩, ⟨641, 3, [2, 5]⟩,
    ⟨373, 2, [2, 3, 31]⟩, ⟨337, 10, [2, 3, 7]⟩, ⟨313, 10, [2, 3, 13]⟩, ⟨311, 17, [2, 5, 31]⟩,
    ⟨263, 5, [2, 131]⟩, ⟨257, 3, [2]⟩, ⟨241, 7, [2, 3, 5]⟩, ⟨229, 6, [2, 3, 19]⟩,
    ⟨197, 2, [2, 7]⟩, ⟨181, 2, [2, 3, 5]⟩, ⟨173, 2, [2, 43]⟩, ⟨157, 5, [2, 3, 13]⟩,
    ⟨151, 6, [2, 3, 5]⟩, ⟨131, 2, [2, 5, 13]⟩, ⟨127, 3, [2, 3, 7]⟩, ⟨107, 2, [2, 53]⟩,
    ⟨97, 5, [2, 3]⟩, ⟨71, 7, [2, 5, 7]⟩, ⟨53, 2, [2, 13]⟩, ⟨43, 3, [2, 3, 7]⟩, ⟨41, 6, [2, 5]⟩,
    ⟨37, 2, [2, 3]⟩, ⟨31, 3, [2, 3, 5]⟩, ⟨29, 2, [2, 7]⟩, ⟨23, 5, [2, 11]⟩, ⟨19, 2, [2, 3]⟩,
    ⟨17, 3, [2]⟩, ⟨13, 2, [2, 3]⟩, ⟨11, 2, [2, 5]⟩, ⟨7, 3, [2, 3]⟩, ⟨5, 2, [2]⟩, ⟨3, 2, [2]⟩,
    ⟨2, 1, []⟩]

theorem prattCheck_certificate : prattCheck certificate = true := by decide +kernel

theorem prime_p : p.Prime :=
  prime_of_prattCheck prattCheck_certificate ⟨p, _, _⟩ List.mem_cons_self

theorem prime_n : n.Prime :=
  prime_of_prattCheck prattCheck_certificate ⟨n, _, _⟩ (List.mem_cons_of_mem _ List.mem_cons_self)

instance : Fact p.Prime := ⟨prime_p⟩

instance : Fact n.Prime := ⟨prime_n⟩

theorem minus2modp_eq : minus2modp = p - 2 := by decide

theorem minus2modn_eq : minus2modn = n - 2 := by decide

theorem p_lt : p < 2 ^ 256 := by decide

theorem n_lt : n < 2 ^ 256 := by decide

/-! ### The curve -/

theorem natCast_a : (a : ZMod p) = -3 := by
  have h : ((a + 3 : ℕ) : ZMod p) = 0 := by
    rw [ZMod.natCast_eq_zero_iff]
    decide
  push_cast at h
  linear_combination h

theorem natCast_minus2modp : (minus2modp : ZMod p) = -2 := by
  have h : ((minus2modp + 2 : ℕ) : ZMod p) = 0 := by
    rw [ZMod.natCast_eq_zero_iff]
    decide
  push_cast at h
  linear_combination h

theorem two_ne_zero : (2 : ZMod p) ≠ 0 := by
  have h : ((2 : ℕ) : ZMod p) ≠ 0 := by
    rw [Ne, ZMod.natCast_eq_zero_iff]
    decide
  exact_mod_cast h

/-- The curve `y² = x³ - 3x + b` over the field of `p` elements. -/
abbrev curve : WeierstrassCurve.Affine (ZMod p) := shortWeierstrass (-3) (b : ZMod p)

theorem equation_iff {x y : ZMod p} : curve.Equation x y ↔ y ^ 2 = x ^ 3 - 3 * x + b := by
  rw [curve, equation_shortWeierstrass, neg_mul, sub_eq_add_neg]

/-- The discriminant is `16 (108 - 27 b²)`. -/
theorem discriminant_ne_zero : curve.Δ ≠ 0 := by
  have hΔ : curve.Δ = ((16 * (108 - 27 * (b : ℤ) ^ 2) : ℤ) : ZMod p) := by
    simp only [curve, shortWeierstrass, WeierstrassCurve.Δ, WeierstrassCurve.b₂,
      WeierstrassCurve.b₄, WeierstrassCurve.b₆, WeierstrassCurve.b₈]
    push_cast
    ring
  rw [hΔ, Ne, ZMod.intCast_zmod_eq_zero_iff_dvd]
  decide

theorem nonsingular_iff {x y : ZMod p} :
    curve.Nonsingular x y ↔ y ^ 2 = x ^ 3 - 3 * x + b := by
  rw [← equation_iff]
  exact (WeierstrassCurve.Affine.equation_iff_nonsingular_of_Δ_ne_zero discriminant_ne_zero).symm

/-- No point of the curve has both coordinates zero, which leaves `(0, 0)` free to encode the point
at infinity. -/
theorem not_nonsingular_zero : ¬curve.Nonsingular 0 0 := by
  rw [nonsingular_iff]
  intro h
  have hb : ((b : ℕ) : ZMod p) = 0 := by linear_combination -h
  rw [ZMod.natCast_eq_zero_iff] at hb
  exact absurd hb (by decide)

theorem nonsingular_base : curve.Nonsingular (GX : ZMod p) (GY : ZMod p) := by
  rw [nonsingular_iff]
  have h : ((GY ^ 2 + 3 * GX : ℕ) : ZMod p) = ((GX ^ 3 + b : ℕ) : ZMod p) := by
    rw [ZMod.natCast_eq_natCast_iff']
    decide
  push_cast at h
  linear_combination h

/-- The base point. -/
def base : curve.Point := .some _ _ nonsingular_base

end Enclave.P256
