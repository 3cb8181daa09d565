import Enclave.P256.Ecdsa
import Enclave.P256.Equiv.XYZZ

/-!
# Correctness of `ecdsa_verify`

`ecdsaVerify_correct`: on every input `ecdsaVerify` returns, and it returns `true` exactly for the
valid signatures.  The main loop keeps its accumulator equal to the combination of the bits read so
far (`mulmuladdLoop_spec`), for any key.

For the key `-G` the table entry `H = G + Q` is the point at infinity, encoded `(0, 0)`.  When the
first active pair of bits selects it, the accumulator starts as `(0, 0, 1, 1)`, which stands for no
point; `Loaded` admits that quadruple beside the representatives.  The doubling at the head of every
iteration turns it into a representative of infinity (`double_loaded`), and when no iteration
follows, its abscissa `0` is what infinity gives (`abscissa_of_loaded`).
-/

namespace Enclave.P256

open Curve P256Verifier WeierstrassCurve.Affine

/-! ### The accumulator -/

/-- The first coordinate of a point, `0` at infinity. -/
def abscissa : curve.Point → ℕ
  | .zero => 0
  | .some X _ _ => X.val

/-- What the accumulator can be: a representative, or the affine encoding of infinity with
denominators one. -/
def Loaded (P : XYZZ ℕ) (A : curve.Point) : Prop := Stands P A ∨ P = ⟨0, 0, 1, 1⟩ ∧ A = 0

theorem loaded_of_encodes {x y : ℕ} {A : curve.Point} (h : Encodes x y A) :
    Loaded ⟨x, y, 1, 1⟩ A := by
  cases A with
  | zero =>
    obtain ⟨rfl, rfl⟩ := h
    exact Or.inr ⟨rfl, rfl⟩
  | some X Y hXY => exact Or.inl (stands_affine h)

/-- Doubling repairs the illegal encoding of infinity. -/
theorem double_loaded {P : XYZZ ℕ} {A : curve.Point} (h : Loaded P A) :
    ∃ P', ecZZDoubleZZ P = .ok P' ∧ Stands P' (A + A) := by
  rcases h with h | ⟨rfl, rfl⟩
  · exact ecZZDoubleZZ_spec h
  · refine ⟨⟨9, 27, 0, 0⟩, by decide, ?_⟩
    rw [add_zero]
    refine ⟨⟨?_, ?_, p_pos, p_pos⟩, Nat.cast_zero, Nat.cast_zero⟩ <;> decide

theorem abscissa_of_loaded {P : XYZZ ℕ} {A : curve.Point} (h : Loaded P A) :
    ∃ zzInv, pModInv P.zz = .ok zzInv ∧ mulmod P.x zzInv p = abscissa A := by
  rcases h with h | ⟨rfl, rfl⟩
  · obtain ⟨v, hv, -, hvinv⟩ := pModInv_spec h.reduced.zz
    refine ⟨v, hv, ?_⟩
    cases A with
    | zero =>
      -- the inverse of zero is zero
      have hzz : (P.zz : ZMod p) = 0 := h.represents.1
      have h0 : ((mulmod P.x v p : ℕ) : ZMod p) = 0 := by
        rw [natCast_mulmod, hvinv, hzz, inv_zero, mul_zero]
      exact (natCast_eq_zero_of_lt (mulmod_lt p_pos _ _)).mp h0
    | some X Y hXY =>
      obtain ⟨hzz, -, hX, -⟩ := h.represents
      have hzz' : (P.zz : ZMod p) ≠ 0 := hzz
      have hX' : (P.x : ZMod p) = X * P.zz := hX
      have hval : ((mulmod P.x v p : ℕ) : ZMod p) = X := by
        rw [natCast_mulmod, hvinv, hX', mul_assoc, mul_inv_cancel₀ hzz', mul_one]
      show mulmod P.x v p = X.val
      rw [← hval, ZMod.val_natCast, Nat.mod_eq_of_lt (mulmod_lt p_pos _ _)]
  · obtain ⟨v, hv, -, -⟩ := pModInv_spec (u := 1) prime_p.one_lt
    refine ⟨v, hv, ?_⟩
    rw [mulmod, if_neg p_pos.ne', zero_mul, Nat.zero_mod]
    rfl

/-! ### The loops -/

section Loop

variable {QX QY HX HY : ℕ} {Q : curve.Point}

theorem encodes_base : Encodes GX GY base :=
  encodes_some (by decide) (by decide) nonsingular_base

theorem selectPoint_spec (hQ : Encodes QX QY Q) (hH : Encodes HX HY (base + Q)) {k : ℕ}
    (hk0 : k ≠ 0) (hk : k < 4) :
    Encodes (selectPoint QX QY HX HY k).1 (selectPoint QX QY HX HY k).2 (ofBitPair base Q k) := by
  obtain rfl | rfl | rfl : k = 1 ∨ k = 2 ∨ k = 3 := by omega
  · exact encodes_base
  · exact hQ
  · exact hH

/-- The first active pair of bits, with nothing accumulated above it. -/
theorem firstBitpair_spec (u v : ℕ) : ∀ k : ℕ, u < 2 ^ k → v < 2 ^ k → ¬(u = 0 ∧ v = 0) →
    (firstBitpair u v k).2 ≠ 0 ∧ (firstBitpair u v k).2 < 4 ∧
      combination base Q u v (firstBitpair u v k).1 = ofBitPair base Q (firstBitpair u v k).2 := by
  intro k
  induction k with
  | zero =>
    intro hu hv h0
    exact absurd ⟨by omega, by omega⟩ h0
  | succ k ih =>
    intro hu hv h0
    by_cases hbp : computeBitpair k u v = 0
    · have hstep : firstBitpair u v (k + 1) = firstBitpair u v k := if_neg (not_not.mpr hbp)
      obtain ⟨hu', hv'⟩ := lt_of_bitPair_eq_zero hu hv hbp
      rw [hstep]
      exact ih hu' hv' h0
    · have hstep : firstBitpair u v (k + 1) = (k, computeBitpair k u v) := if_pos hbp
      rw [hstep]
      exact ⟨hbp, bitPair_lt k u v, combination_of_leading base Q hu hv⟩

/-- The main loop turns the combination of the bits from `k` up into the whole combination. -/
theorem mulmuladdLoop_spec (hQ : Encodes QX QY Q) (hH : Encodes HX HY (base + Q)) (u v : ℕ) :
    ∀ (k : ℕ) (P : XYZZ ℕ), Loaded P (combination base Q u v k) →
      ∃ P', mulmuladdLoop QX QY HX HY u v k P = .ok P' ∧ Loaded P' (u • base + v • Q) := by
  intro k
  induction k with
  | zero =>
    intro P hP
    exact ⟨P, rfl, hP⟩
  | succ k ih =>
    intro P hP
    obtain ⟨P₁, hP₁, hstands⟩ := double_loaded hP
    have hnext := combination_eq_double_add base Q u v k
    rw [mulmuladdLoop, hP₁, ok_bind]
    by_cases hbp : computeBitpair k u v = 0
    · have hzero : ofBitPair base Q (bitPair k u v) = 0 := by
        rw [show bitPair k u v = 0 from hbp]
        rfl
      rw [hzero, add_zero] at hnext
      rw [if_pos hbp]
      exact ih P₁ (Or.inl (hnext ▸ hstands))
    · have hT := selectPoint_spec hQ hH hbp (bitPair_lt k u v)
      obtain ⟨P₂, hP₂, hstands₂⟩ := ecZZDaddAffine_spec hstands hT
      rw [if_neg hbp]
      simp only [hP₂, ok_bind]
      refine ih P₂ (Or.inl ?_)
      rw [hnext]
      exact hstands₂

theorem ecZZMulmuladd_spec (hQ : Encodes QX QY Q) {u v : ℕ} (hu : u < 2 ^ 256) (hv : v < 2 ^ 256) :
    ecZZMulmuladd QX QY u v = .ok (abscissa (u • base + v • Q)) := by
  unfold ecZZMulmuladd
  split_ifs with h0
  · obtain ⟨rfl, rfl⟩ := h0
    rw [zero_nsmul, zero_nsmul, add_zero]
    rfl
  · obtain ⟨HX, HY, hadd, hH⟩ := ecAffAdd_spec encodes_base hQ
    obtain ⟨hbp, hbp4, hcomb⟩ := firstBitpair_spec (Q := Q) u v 256 hu hv h0
    have hT := selectPoint_spec hQ hH hbp hbp4
    rw [← hcomb] at hT
    obtain ⟨P, hloop, hP⟩ := mulmuladdLoop_spec hQ hH u v _ _ (loaded_of_encodes hT)
    obtain ⟨zzInv, hinv, hX⟩ := abscissa_of_loaded hP
    rw [hadd, ok_bind]
    simp only [if_neg hbp]
    rw [hloop, ok_bind, hinv, ok_bind, hX]

end Loop

/-! ### The public key -/

theorem ecAffSatisfiesCurveEqn_iff (x y : ℕ) :
    ecAffSatisfiesCurveEqn x y = true ↔
      (y : ZMod p) ^ 2 = (x : ZMod p) ^ 3 - 3 * (x : ZMod p) + b := by
  simp only [ecAffSatisfiesCurveEqn, beq_iff_eq]
  rw [← natCast_inj_of_lt (m := p) (mulmod_lt p_pos _ _) (addmod_lt p_pos _ _)]
  simp only [natCast_addmod, natCast_mulmod, natCast_a]
  constructor <;> intro h <;> linear_combination h

theorem ecAffIsValidPubkey_iff (x y : ℕ) : ecAffIsValidPubkey x y = true ↔ ValidKey x y := by
  unfold ecAffIsValidPubkey ValidKey
  split_ifs with h
  · simp only [false_iff]
    rintro ⟨hx, hy, h0, -⟩
    rcases h with h | h | h
    · omega
    · omega
    · exact h0 h
  · rw [ecAffSatisfiesCurveEqn_iff]
    push Not at h
    refine ⟨fun heq => ⟨h.1, h.2.1, fun h0 => h.2.2 h0.1 h0.2, heq⟩, fun hkey => hkey.2.2.2⟩

/-! ### Verification -/

/-- On scalars in range and a valid key, the verdict compares the abscissa of `R` with `r`. -/
theorem ecdsaVerify_of_inputs {messageHash r s x y : Word} (hr : 1 ≤ r.toNat ∧ r.toNat < n)
    (hs : 1 ≤ s.toNat ∧ s.toNat < n) (hQ : ValidKey x.toNat y.toNat) :
    ecdsaVerify messageHash r s (x, y)
      = .ok (abscissa (signaturePoint messageHash.toNat r.toNat s.toNat (keyPoint hQ)) % n
          == r.toNat) := by
  obtain ⟨sInv, hsInv, -, hinv⟩ := nModInv_spec hs.2
  -- the two scalars are the residues of the specification
  have hu : mulmod messageHash.toNat sInv n
      = ((messageHash.toNat : ZMod n) * (s.toNat : ZMod n)⁻¹).val := by
    rw [← hinv, ← natCast_mulmod, ZMod.val_natCast, Nat.mod_eq_of_lt (mulmod_lt n_pos _ _)]
  have hv : mulmod r.toNat sInv n = ((r.toNat : ZMod n) * (s.toNat : ZMod n)⁻¹).val := by
    rw [← hinv, ← natCast_mulmod, ZMod.val_natCast, Nat.mod_eq_of_lt (mulmod_lt n_pos _ _)]
  have hmul := ecZZMulmuladd_spec (encodes_some hQ.1 hQ.2.1 (nonsingular_iff.mpr hQ.2.2.2))
    ((mulmod_lt n_pos messageHash.toNat sInv).trans n_lt)
    ((mulmod_lt n_pos r.toNat sInv).trans n_lt)
  have hvalid : ecAffIsValidPubkey x.toNat y.toNat = true := (ecAffIsValidPubkey_iff _ _).mpr hQ
  unfold ecdsaVerify
  rw [if_neg (by omega), if_neg (by rw [hvalid]; decide), hsInv, ok_bind]
  simp only [hmul, ok_bind]
  rw [hu, hv]
  rfl

/-- On every other input the verdict is negative. -/
theorem ecdsaVerify_of_not_inputs {messageHash r s x y : Word}
    (h : ¬((1 ≤ r.toNat ∧ r.toNat < n) ∧ (1 ≤ s.toNat ∧ s.toNat < n) ∧
      ValidKey x.toNat y.toNat)) :
    ecdsaVerify messageHash r s (x, y) = .ok false := by
  unfold ecdsaVerify
  by_cases hrange : r.toNat = 0 ∨ r.toNat ≥ n ∨ s.toNat = 0 ∨ s.toNat ≥ n
  · exact if_pos hrange
  · have hkey : ecAffIsValidPubkey x.toNat y.toNat = false := by
      rw [← Bool.not_eq_true, ecAffIsValidPubkey_iff]
      intro hQ
      exact h ⟨by omega, by omega, hQ⟩
    rw [if_neg hrange, if_pos (by rw [hkey]; decide)]

/-- `ecdsa_verify` never reverts. -/
theorem ecdsaVerify_total (messageHash r s : Word) (pubKey : Word × Word) :
    ∃ accepted, ecdsaVerify messageHash r s pubKey = .ok accepted := by
  by_cases h : (1 ≤ r.toNat ∧ r.toNat < n) ∧ (1 ≤ s.toNat ∧ s.toNat < n) ∧
      ValidKey pubKey.1.toNat pubKey.2.toNat
  · obtain ⟨hr, hs, hQ⟩ := h
    exact ⟨_, ecdsaVerify_of_inputs hr hs hQ⟩
  · exact ⟨false, ecdsaVerify_of_not_inputs h⟩

/-- On scalars in range and a valid key, the comparison decides the validity of the signature. -/
theorem abscissa_signaturePoint_iff {messageHash r s x y : Word} (hr : 1 ≤ r.toNat ∧ r.toNat < n)
    (hs : 1 ≤ s.toNat ∧ s.toNat < n) (hQ : ValidKey x.toNat y.toNat) :
    abscissa (signaturePoint messageHash.toNat r.toNat s.toNat (keyPoint hQ)) % n = r.toNat ↔
      ValidSignature messageHash.toNat r.toNat s.toNat x.toNat y.toNat := by
  constructor
  · intro hx
    refine ⟨hr, hs, hQ, ?_⟩
    cases hR : signaturePoint messageHash.toNat r.toNat s.toNat (keyPoint hQ) with
    | zero =>
      -- at infinity the comparison is with zero, and `r` is positive
      rw [hR] at hx
      have h0 : r.toNat = 0 := hx.symm
      omega
    | some X Y hXY =>
      rw [hR] at hx
      exact ⟨X, Y, hXY, rfl, hx⟩
  · rintro ⟨-, -, hQ', X, Y, hXY, hR, hX⟩
    rw [hR]
    exact hX

/-- `ecdsa_verify` accepts exactly the valid signatures. -/
theorem ecdsaVerify_eq_true_iff {messageHash r s x y : Word} :
    ecdsaVerify messageHash r s (x, y) = .ok true ↔
      ValidSignature messageHash.toNat r.toNat s.toNat x.toNat y.toNat := by
  by_cases h : (1 ≤ r.toNat ∧ r.toNat < n) ∧ (1 ≤ s.toNat ∧ s.toNat < n) ∧
      ValidKey x.toNat y.toNat
  · obtain ⟨hr, hs, hQ⟩ := h
    rw [ecdsaVerify_of_inputs hr hs hQ, Except.ok.injEq, beq_iff_eq]
    exact abscissa_signaturePoint_iff hr hs hQ
  · rw [ecdsaVerify_of_not_inputs h, Except.ok.injEq]
    simp only [Bool.false_eq_true, false_iff]
    rintro ⟨hr, hs, hQ, -⟩
    exact h ⟨hr, hs, hQ⟩

theorem ecdsaVerify_eq_false_iff {messageHash r s x y : Word} :
    ecdsaVerify messageHash r s (x, y) = .ok false ↔
      ¬ValidSignature messageHash.toNat r.toNat s.toNat x.toNat y.toNat := by
  obtain ⟨accepted, haccepted⟩ := ecdsaVerify_total messageHash r s (x, y)
  rw [← ecdsaVerify_eq_true_iff, haccepted, Except.ok.injEq, Except.ok.injEq, Bool.not_eq_true]

/-- **Correctness of `ecdsa_verify`**: it never reverts, and it accepts exactly the valid
signatures. -/
theorem ecdsaVerify_correct (messageHash r s x y : Word) :
    ∃ accepted, ecdsaVerify messageHash r s (x, y) = .ok accepted ∧
      (accepted = true ↔
        ValidSignature messageHash.toNat r.toNat s.toNat x.toNat y.toNat) := by
  obtain ⟨accepted, haccepted⟩ := ecdsaVerify_total messageHash r s (x, y)
  refine ⟨accepted, haccepted, ?_⟩
  rw [← ecdsaVerify_eq_true_iff, haccepted, Except.ok.injEq]

/-! ### A key and a signature -/

/-- The base point as a key. -/
def baseKey : Word × Word := (BitVec.ofNat 256 GX, BitVec.ofNat 256 GY)

theorem validKey_base : ValidKey baseKey.1.toNat baseKey.2.toNat :=
  ⟨by decide, by decide, by decide, nonsingular_iff.mp nonsingular_base⟩

/-- The abscissa of `2 G`.  As `r`, `s` and hash it makes `R = G + Q`, which for the key `G` is
`2 G`. -/
def doubleX : Word := 0x7CF27B188D034F7E8A52380304B51AC3C08969E277F21B35A60B48FC47669978

theorem ecdsaVerify_doubleX : ecdsaVerify doubleX doubleX doubleX baseKey = .ok true := by
  decide +kernel

end Enclave.P256
