import Enclave.P256.Params

/-!
# ECDSA over P-256

What a verifier of this repository is for: `ValidSignature e r s x y` is the predicate of the ECDSA
standard, stated in the group of points.  The scalars are residues modulo the prime `n`, so that
`s⁻¹` is an inverse in a field, and their representatives below `n` multiply points.
-/

namespace Enclave.P256

/-- The coordinates of a point of the curve, reduced modulo `p`. -/
def ValidKey (x y : ℕ) : Prop :=
  x < p ∧ y < p ∧ ¬(x = 0 ∧ y = 0) ∧ (y : ZMod p) ^ 2 = (x : ZMod p) ^ 3 - 3 * (x : ZMod p) + b

/-- The point that a valid key names. -/
def keyPoint {x y : ℕ} (h : ValidKey x y) : curve.Point :=
  .some (x : ZMod p) (y : ZMod p) (nonsingular_iff.mpr h.2.2.2)

/-- The point `R = (e s⁻¹ mod n) G + (r s⁻¹ mod n) Q`. -/
def signaturePoint (e r s : ℕ) (Q : curve.Point) : curve.Point :=
  ((e : ZMod n) * (s : ZMod n)⁻¹).val • base + ((r : ZMod n) * (s : ZMod n)⁻¹).val • Q

/-- `(r, s)` is a signature of the hash `e` under the key `(x, y)`: both scalars are in range, the
key is a point of the curve, and `R` is a finite point with abscissa `r` modulo `n`. -/
def ValidSignature (e r s x y : ℕ) : Prop :=
  (1 ≤ r ∧ r < n) ∧ (1 ≤ s ∧ s < n) ∧ ∃ hQ : ValidKey x y,
    ∃ (X Y : ZMod p) (hR : curve.Nonsingular X Y),
      signaturePoint e r s (keyPoint hQ) = .some X Y hR ∧ X.val % n = r

end Enclave.P256
