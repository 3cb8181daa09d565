import Enclave.P256.Equiv.ShamirMult

/-!
# What signers sign, `ecdsa_verify` accepts

The signer's side of ECDSA, and what it says about the verifier.  The group of the curve has the
prime order `n` (`existsUnique_nsmul_base`), so `ecAff_isValidPubkey` accepts exactly the keys that
have a private key, without a check of the subgroup; `ecdsa_verify` accepts exactly what the signing
algorithm can produce, and with `(r, s)` also `(r, n - s)` (`ecdsaVerify_signed`).
-/

namespace Enclave.P256

open Curve P256Verifier SECP256R1 WeierstrassCurve.Affine

/-! ### Multiples of the base point -/

theorem neg_val_nsmul_base (z : ZMod n) : (-z).val • base = -(z.val • base) := by
  rw [eq_neg_iff_add_eq_zero, ← add_nsmul, ← zero_nsmul base]
  apply nsmul_base_congr
  push_cast
  rw [ZMod.natCast_zmod_val, ZMod.natCast_zmod_val, neg_add_cancel]

/-- For a key with the private key `d`, the point `R` is a multiple of the base point. -/
theorem signaturePoint_nsmul (e r s d : ℕ) :
    signaturePoint e r s (d • base) = (((e : ZMod n) + r * d) * (s : ZMod n)⁻¹).val • base := by
  rw [signaturePoint, ← mul_nsmul, ← add_nsmul]
  apply nsmul_base_congr
  push_cast
  rw [ZMod.natCast_zmod_val, ZMod.natCast_zmod_val, ZMod.natCast_zmod_val]
  ring

theorem abscissa_neg (P : curve.Point) : abscissa (-P) = abscissa P := by
  cases P with
  | zero => rfl
  | some X Y h => rfl

/-! ### The signer -/

/-- The private key `d` and the public key `(x, y)` belong together. -/
structure KeyPair (d x y : ℕ) : Prop where
  pos : 1 ≤ d
  lt : d < n
  point : Encodes x y (d • base)

/-- The signature of the hash `e` with the private key `d` and the nonce `k`; with `none` the signer
has to choose another nonce. -/
def sign (d k e : ℕ) : Option (ℕ × ℕ) :=
  let r := abscissa (k • base) % n
  let s := ((k : ZMod n)⁻¹ * (e + r * d)).val
  if r = 0 ∨ s = 0 then none else some (r, s)

theorem KeyPair.keyPoint_eq {d x y : ℕ} (h : KeyPair d x y) :
    ∃ hQ : ValidKey x y, keyPoint hQ = d • base := by
  have hpoint := h.point
  have hne := nsmul_base_ne_zero h.pos h.lt
  generalize d • base = Q at hpoint hne ⊢
  cases Q with
  | zero => exact absurd rfl hne
  | some X Y hXY =>
    have hinf := not_ecAffIsInf_of_encodes hpoint
    obtain ⟨hx, hy, rfl, rfl⟩ := hpoint
    refine ⟨⟨hx, hy, ?_, nonsingular_iff.mp hXY⟩, rfl⟩
    rintro ⟨rfl, rfl⟩
    cases hinf

/-- A valid key has exactly one private key. -/
theorem existsUnique_keyPair {x y : ℕ} (hQ : ValidKey x y) : ∃! d, KeyPair d x y := by
  have hencodes : Encodes x y (keyPoint hQ) := encodes_some hQ.1 hQ.2.1 _
  obtain ⟨d, ⟨hlt, hd⟩, hunique⟩ := existsUnique_nsmul_base (keyPoint hQ)
  refine ⟨d, ⟨?_, hlt, by rw [hd]; exact hencodes⟩, ?_⟩
  · rcases Nat.eq_zero_or_pos d with rfl | hpos
    · rw [zero_nsmul] at hd
      exact absurd hd.symm (Point.some_ne_zero _)
    · exact hpos
  · intro d' hd'
    exact hunique d' ⟨hd'.lt, encodes_unique hd'.point hencodes⟩

theorem ecAffIsValidPubkey_iff_keyPair (x y : ℕ) :
    ecAffIsValidPubkey x y = true ↔ ∃! d, KeyPair d x y := by
  rw [ecAffIsValidPubkey_iff]
  constructor
  · exact existsUnique_keyPair
  · rintro ⟨d, hd, -⟩
    exact hd.keyPoint_eq.1

/-! ### Verification -/

/-- What is signed is valid. -/
theorem validSignature_of_sign {d k e r s x y : ℕ} (hkey : KeyPair d x y) (hk : 1 ≤ k)
    (hkn : k < n) (hsign : sign d k e = some (r, s)) : ValidSignature e r s x y := by
  obtain ⟨hQ, hpoint⟩ := hkey.keyPoint_eq
  dsimp only [sign] at hsign
  split_ifs at hsign with hzero
  push Not at hzero
  obtain ⟨hr, hs⟩ := Prod.mk.inj (Option.some.inj hsign)
  rw [hr] at hs hzero
  rw [hs] at hzero
  have hkne : (k : ZMod n) ≠ 0 := by
    rw [Ne, ZMod.natCast_eq_zero_iff]
    exact Nat.not_dvd_of_pos_of_lt hk hkn
  have hsne : (s : ZMod n) ≠ 0 := by
    rw [← hs, ZMod.natCast_zmod_val]
    intro h
    rw [h, ZMod.val_zero] at hs
    exact hzero.2 hs.symm
  have hval : (s : ZMod n) = (k : ZMod n)⁻¹ * (e + r * d) := by
    rw [← hs, ZMod.natCast_zmod_val]
  -- the verifier's point is the signer's
  have hR : signaturePoint e r s (keyPoint hQ) = k • base := by
    rw [hpoint, signaturePoint_nsmul]
    apply nsmul_base_congr
    rw [ZMod.natCast_zmod_val]
    have hprod : (e : ZMod n) + r * d = k * s := by
      rw [hval, mul_inv_cancel_left₀ hkne]
    rw [hprod, mul_assoc, mul_inv_cancel₀ hsne, mul_one]
  have hfinite := nsmul_base_ne_zero hk hkn
  refine ⟨⟨Nat.one_le_iff_ne_zero.mpr hzero.1, ?_⟩, ⟨Nat.one_le_iff_ne_zero.mpr hzero.2, ?_⟩, hQ,
    ?_⟩
  · rw [← hr]
    exact Nat.mod_lt _ n_pos
  · rw [← hs]
    exact ZMod.val_lt _
  · rw [hR]
    generalize k • base = R at hr hfinite
    cases R with
    | zero => exact absurd rfl hfinite
    | some X Y hXY => exact ⟨X, Y, hXY, rfl, hr⟩

/-- What is valid has been signed with some nonce. -/
theorem sign_of_validSignature {e r s x y : ℕ} (h : ValidSignature e r s x y) :
    ∃ d k, KeyPair d x y ∧ 1 ≤ k ∧ k < n ∧ sign d k e = some (r, s) := by
  obtain ⟨⟨hr, hrn⟩, ⟨hs, hsn⟩, hQ, X, Y, hXY, hR, hX⟩ := h
  obtain ⟨d, hd, -⟩ := existsUnique_keyPair hQ
  obtain ⟨hQ', hpoint⟩ := hd.keyPoint_eq
  have hsne : (s : ZMod n) ≠ 0 := by
    rw [Ne, ZMod.natCast_eq_zero_iff]
    exact Nat.not_dvd_of_pos_of_lt hs hsn
  rw [hpoint, signaturePoint_nsmul] at hR
  set z : ZMod n := ((e : ZMod n) + r * d) * (s : ZMod n)⁻¹ with hz
  have hzne : z ≠ 0 := by
    rintro hzero
    rw [hzero, ZMod.val_zero, zero_nsmul] at hR
    exact Point.some_ne_zero hXY hR.symm
  have hk : 1 ≤ z.val := Nat.one_le_iff_ne_zero.mpr fun h => hzne ((ZMod.val_eq_zero z).mp h)
  refine ⟨d, z.val, hd, hk, ZMod.val_lt z, ?_⟩
  have hr' : abscissa (z.val • base) % n = r := by
    rw [hR]
    exact hX
  have hs' : ((z.val : ZMod n)⁻¹ * (e + r * d)).val = s := by
    have hprod : (e : ZMod n) + r * d = z * s := by
      rw [hz, mul_assoc, inv_mul_cancel₀ hsne, mul_one]
    rw [ZMod.natCast_zmod_val, hprod, inv_mul_cancel_left₀ hzne, ZMod.val_natCast,
      Nat.mod_eq_of_lt hsn]
  simp only [sign, hr', hs']
  rw [if_neg (by omega)]

/-- The other signature with the same `r` gets the same verdict. -/
theorem ecdsaVerify_neg (messageHash r s x y : Word) :
    ecdsaVerify messageHash r (BitVec.ofNat 256 (n - s.toNat)) (x, y)
      = ecdsaVerify messageHash r s (x, y) := by
  have hneg : (BitVec.ofNat 256 (n - s.toNat)).toNat = n - s.toNat := by
    rw [BitVec.toNat_ofNat, Nat.mod_eq_of_lt]
    exact (Nat.sub_le n s.toNat).trans_lt n_lt
  by_cases h : (1 ≤ r.toNat ∧ r.toNat < n) ∧ (1 ≤ s.toNat ∧ s.toNat < n) ∧
      ValidKey x.toNat y.toNat
  · obtain ⟨hr, hs, hQ⟩ := h
    obtain ⟨d, hd, -⟩ := existsUnique_keyPair hQ
    obtain ⟨hQ', hpoint⟩ := hd.keyPoint_eq
    have hs' : 1 ≤ (BitVec.ofNat 256 (n - s.toNat)).toNat ∧
        (BitVec.ofNat 256 (n - s.toNat)).toNat < n := by
      rw [hneg]
      omega
    rw [ecdsaVerify_of_inputs hr hs' hQ, ecdsaVerify_of_inputs hr hs hQ, hneg, hpoint,
      signaturePoint_nsmul, signaturePoint_nsmul]
    have hcast : ((n - s.toNat : ℕ) : ZMod n) = -(s.toNat : ZMod n) :=
      natCast_modulus_sub hs.2.le
    rw [hcast, inv_neg, mul_neg, neg_val_nsmul_base, abscissa_neg]
  · rw [ecdsaVerify_of_not_inputs h, ecdsaVerify_of_not_inputs]
    rintro ⟨hr, hs, hQ⟩
    rw [hneg] at hs
    exact h ⟨hr, by omega, hQ⟩

/-- **Verification against signing**: the key check accepts exactly the keys with a private key,
which is then unique; `ecdsa_verify` accepts exactly what the signing algorithm can produce with
that key; and it cannot tell `s` from `n - s`. -/
theorem ecdsaVerify_signed (messageHash r s x y : Word) :
    (ecAffIsValidPubkey x.toNat y.toNat = true ↔ ∃! d, KeyPair d x.toNat y.toNat) ∧
    (ecdsaVerify messageHash r s (x, y) = .ok true ↔ ∃ d k, KeyPair d x.toNat y.toNat ∧
      1 ≤ k ∧ k < n ∧ sign d k messageHash.toNat = some (r.toNat, s.toNat)) ∧
    ecdsaVerify messageHash r (BitVec.ofNat 256 (n - s.toNat)) (x, y)
      = ecdsaVerify messageHash r s (x, y) := by
  refine ⟨ecAffIsValidPubkey_iff_keyPair _ _, ?_, ecdsaVerify_neg messageHash r s x y⟩
  rw [ecdsaVerify_eq_true_iff]
  constructor
  · exact sign_of_validSignature
  · rintro ⟨d, k, hkey, hk, hkn, hsign⟩
    exact validSignature_of_sign hkey hk hkn hsign

end Enclave.P256
