import Enclave.P256.Verifier
import Mathlib.FieldTheory.Finite.Basic

/-!
# Modular arithmetic as field arithmetic

The contract computes with `mulmod`, `addmod` and checked subtractions from `p`; in `ZMod p` these
are the product, the sum and the negative.  `modInv` is the inverse in the field of a prime modulus
(Fermat's little theorem), with `0` for `0`.
-/

namespace Enclave.P256

open P256Verifier

section Modulus

variable {m : ℕ} [Fact m.Prime]

theorem natCast_mulmod (x y : ℕ) : ((mulmod x y m : ℕ) : ZMod m) = x * y := by
  rw [mulmod, if_neg (Fact.out : m.Prime).ne_zero, ZMod.natCast_mod, Nat.cast_mul]

theorem natCast_addmod (x y : ℕ) : ((addmod x y m : ℕ) : ZMod m) = x + y := by
  rw [addmod, if_neg (Fact.out : m.Prime).ne_zero, ZMod.natCast_mod, Nat.cast_add]

theorem natCast_modulus_sub {t : ℕ} (ht : t ≤ m) : ((m - t : ℕ) : ZMod m) = -t := by
  rw [Nat.cast_sub ht, ZMod.natCast_self, zero_sub]

/-- Residues below the modulus are equal as soon as they are equal in `ZMod m`. -/
theorem natCast_inj_of_lt {x y : ℕ} (hx : x < m) (hy : y < m) :
    (x : ZMod m) = y ↔ x = y := by
  rw [ZMod.natCast_eq_natCast_iff', Nat.mod_eq_of_lt hx, Nat.mod_eq_of_lt hy]

theorem natCast_eq_zero_of_lt {x : ℕ} (hx : x < m) : (x : ZMod m) = 0 ↔ x = 0 := by
  have h := natCast_inj_of_lt hx (Fact.out : m.Prime).pos
  rwa [Nat.cast_zero] at h

/-- Fermat's inverse; `0` is its own. -/
theorem pow_sub_two_eq_inv (hm : 2 < m) (u : ZMod m) : u ^ (m - 2) = u⁻¹ := by
  by_cases hu : u = 0
  · rw [hu, inv_zero, zero_pow (by omega)]
  · have hpow : u ^ (m - 2) * u = 1 := by
      rw [← pow_succ, show m - 2 + 1 = m - 1 by omega, ZMod.pow_card_sub_one_eq_one hu]
    exact eq_inv_of_mul_eq_one_left hpow

end Modulus

theorem p_pos : 0 < p := prime_p.pos

theorem n_pos : 0 < n := prime_n.pos

/-- The precompile returns the power as a word. -/
theorem modInv_eq {u f e : ℕ} (hu : u < 2 ^ 256) (hf : f < 2 ^ 256) (he : e < 2 ^ 256)
    (hpos : 0 < f) : modInv u f e = .ok (u ^ e % f) := by
  have hlt : u ^ e % f < 256 ^ 32 := lt_trans (Nat.mod_lt _ hpos) hf
  have hlen : (toBytesBE 32 (u ^ e % f)).length = 32 := length_toBytesBE 32 _
  rw [modInv, modexp_ofNat hu he hf hpos]
  show (abiDecodeWord (toBytesBE 32 (u ^ e % f)) 0 >>= fun result => .ok result.toNat) = _
  rw [abiDecodeWord, if_pos (by rw [hlen]), List.drop_zero, List.take_of_length_le (by rw [hlen]),
    ok_bind, Word.toNat_ofBytes hlen, ofBytesBE_toBytesBE_of_lt hlt]

/-- `pModInv` inverts in the base field. -/
theorem pModInv_spec {u : ℕ} (hu : u < p) :
    ∃ v, pModInv u = .ok v ∧ v < p ∧ (v : ZMod p) = (u : ZMod p)⁻¹ := by
  refine ⟨u ^ minus2modp % p, ?_, Nat.mod_lt _ p_pos, ?_⟩
  · exact modInv_eq (hu.trans p_lt) p_lt (by decide) p_pos
  · rw [ZMod.natCast_mod, Nat.cast_pow, minus2modp_eq,
      pow_sub_two_eq_inv (by decide) (u : ZMod p)]

/-- `nModInv` inverts in the scalar field. -/
theorem nModInv_spec {u : ℕ} (hu : u < n) :
    ∃ v, nModInv u = .ok v ∧ v < n ∧ (v : ZMod n) = (u : ZMod n)⁻¹ := by
  refine ⟨u ^ minus2modn % n, ?_, Nat.mod_lt _ n_pos, ?_⟩
  · exact modInv_eq (hu.trans n_lt) n_lt (by decide) n_pos
  · rw [ZMod.natCast_mod, Nat.cast_pow, minus2modn_eq,
      pow_sub_two_eq_inv (by decide) (u : ZMod n)]

end Enclave.P256
