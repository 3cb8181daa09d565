import Enclave.Fee.FullMath
import Mathlib.Data.Nat.Factorization.Basic

/-!
# What `mulDiv` computes

A product that fits a word is divided as it stands.  For a longer one the code needs the inverse of
the odd part of the denominator, and its Newton iteration runs into checked arithmetic: the first
step computes `2 - denominator * inv`, which reverts unless the odd part is one.  So `mulDiv`
divides long products by powers of two only (`mulDiv_eq_ok_iff`).
-/

namespace Enclave.CustomFullMath

/-! ### The high word -/

/-- `2 ** 256` is one modulo `2 ** 256 - 1`. -/
theorem mod_pred_eq (h l : ℕ) :
    (h * 2 ^ 256 + l) % (2 ^ 256 - 1) = (h + l) % (2 ^ 256 - 1) := by
  have hsplit : h * 2 ^ 256 + l = h + l + (2 ^ 256 - 1) * h := by omega
  rw [hsplit, Nat.add_mul_mod_self_left]

/-- The borrow of the second subtraction is the end-around carry of the residue. -/
theorem toNat_sub_borrow {mm prod0 : Word} {high : ℕ} (hhigh : high ≤ 2 ^ 256 - 2)
    (hmm : mm.toNat = (high + prod0.toNat) % (2 ^ 256 - 1)) :
    (mm - prod0 - (if mm < prod0 then 1 else 0)).toNat = high := by
  have hlow := prod0.isLt
  rw [BitVec.toNat_sub, BitVec.toNat_sub]
  split_ifs with hlt
  · rw [BitVec.lt_def] at hlt
    rw [Word.toNat_one]
    omega
  · rw [BitVec.lt_def] at hlt
    rw [Word.toNat_zero]
    omega

theorem toNat_highWord (a b : Word) : (highWord a b).toNat = a.toNat * b.toNat / 2 ^ 256 := by
  have hbound : a.toNat * b.toNat ≤ (2 ^ 256 - 1) * (2 ^ 256 - 1) :=
    Nat.mul_le_mul (by have := a.isLt; omega) (by have := b.isLt; omega)
  have hmod : mulmod a.toNat b.toNat (2 ^ 256 - 1) < 2 ^ 256 - 1 := mulmod_lt (by norm_num) _ _
  apply toNat_sub_borrow (by omega)
  rw [BitVec.toNat_ofNat, Nat.mod_eq_of_lt (by omega), BitVec.toNat_mul, mulmod,
    if_neg (by norm_num), ← mod_pred_eq, Nat.div_add_mod']

/-! ### The lowest bit -/

/-- A number and its complement have no bit in common. -/
theorem and_complement {n j : ℕ} (h : j < 2 ^ n) : j &&& (2 ^ n - (j + 1)) = 0 := by
  apply Nat.eq_of_testBit_eq
  intro i
  rw [Nat.testBit_and, Nat.testBit_two_pow_sub_succ h, Nat.zero_testBit]
  cases Nat.testBit j i <;> simp

/-- An odd number and its negative have only the lowest bit in common. -/
theorem odd_and_neg {n j : ℕ} (h : 2 * j + 1 < 2 ^ (n + 1)) :
    (2 * j + 1) &&& (2 ^ (n + 1) - (2 * j + 1)) = 1 := by
  have hj : j < 2 ^ n := by omega
  have hneg : 2 ^ (n + 1) - (2 * j + 1) = 2 * (2 ^ n - (j + 1)) + 1 := by omega
  have hand := and_complement hj
  rw [hneg]
  apply Nat.eq_of_testBit_eq
  intro i
  cases i with
  | zero => simp
  | succ i =>
    have hbit := congrArg (fun m => Nat.testBit m i) hand
    simp only [Nat.testBit_and, Nat.zero_testBit] at hbit
    rw [Nat.testBit_and, Nat.testBit_succ, Nat.testBit_succ, Nat.testBit_succ]
    have h1 : (2 * j + 1) / 2 = j := by omega
    have h2 : (2 * (2 ^ n - (j + 1)) + 1) / 2 = 2 ^ n - (j + 1) := by omega
    rw [h1, h2, hbit]
    simp

/-- The lowest bit of a word, and what is left of the word without the zeroes behind it. -/
theorem exists_lowest_bit {d : Word} (hd : d ≠ 0) :
    ∃ k j, d.toNat = 2 ^ k * (2 * j + 1) ∧ k < 256 ∧ (-d &&& d).toNat = 2 ^ k := by
  have hpos := mt Word.toNat_eq_zero.mp hd
  obtain ⟨k, m, hodd, hm⟩ := Nat.exists_eq_two_pow_mul_odd hpos
  obtain ⟨j, rfl⟩ := hodd
  have hlt := d.isLt
  have hk : k < 256 := by
    by_contra hle
    have hpow : 2 ^ 256 ≤ 2 ^ k := Nat.pow_le_pow_right (by norm_num) (by omega)
    have hle : 2 ^ k ≤ 2 ^ k * (2 * j + 1) := Nat.le_mul_of_pos_right _ (by omega)
    omega
  refine ⟨k, j, hm, hk, ?_⟩
  -- above the bit `k` the word is odd, and an odd number meets its negative in the bit zero only
  obtain ⟨n, hn⟩ : ∃ n, 256 = k + (n + 1) := ⟨255 - k, by omega⟩
  have hpow : 2 ^ 256 = 2 ^ k * 2 ^ (n + 1) := by rw [← pow_add, ← hn]
  have hsmall : 2 * j + 1 < 2 ^ (n + 1) := by
    rw [hm, hpow] at hlt
    exact Nat.lt_of_mul_lt_mul_left hlt
  have hneg : (-d).toNat = 2 ^ k * (2 ^ (n + 1) - (2 * j + 1)) := by
    rw [BitVec.toNat_neg, Nat.mod_eq_of_lt (by omega), hm, Nat.mul_sub, hpow]
  rw [BitVec.toNat_and, hneg, hm, Nat.mul_comm (2 ^ k), Nat.mul_comm (2 ^ k), ← Nat.shiftLeft_eq,
    ← Nat.shiftLeft_eq, ← Nat.shiftLeft_and_distrib, Nat.and_comm, odd_and_neg hsmall,
    Nat.shiftLeft_eq, Nat.one_mul]

/-! ### The inverse -/

theorem invert_one : invert 1 = .ok 1 := by
  decide

/-- The first step of the iteration reverts for every other odd part. -/
theorem invert_ne_ok {m : Word} (hm : 2 ≤ m.toNat) (r : Word) : invert m ≠ .ok r := by
  intro h
  obtain ⟨triple, htriple, h⟩ := bind_eq_ok.mp h
  obtain ⟨inv, hstep, -⟩ := bind_eq_ok.mp h
  obtain ⟨product, hproduct, hstep⟩ := bind_eq_ok.mp hstep
  obtain ⟨correction, hcorrection, -⟩ := bind_eq_ok.mp hstep
  have hthree : (3 : Word).toNat = 3 := rfl
  have htwo : (2 : Word).toNat = 2 := rfl
  rw [Word.checkedMul_eq_ok] at htriple hproduct
  rw [Word.checkedSub_eq_ok, htwo] at hcorrection
  rw [hthree] at htriple
  -- the bits of `triple` above the second one are those of `inv`
  have hquot : (triple ^^^ 2).toNat / 4 = triple.toNat / 4 := by
    have hshift : (triple.toNat ^^^ 2) >>> 2 = triple.toNat >>> 2 := by
      rw [Nat.shiftRight_xor_distrib]
      exact Nat.xor_zero _
    rw [BitVec.toNat_xor, htwo]
    rw [Nat.shiftRight_eq_div_pow, Nat.shiftRight_eq_div_pow] at hshift
    exact hshift
  have hlarge : 2 * 4 ≤ m.toNat * (triple ^^^ 2).toNat := Nat.mul_le_mul hm (by omega)
  omega

/-! ### Long products -/

/-- `~denominator + 1` is the negative of the denominator. -/
theorem checkedAdd_not {d : Word} (hd : d ≠ 0) : Word.checkedAdd (~~~d) 1 = .ok (-d) := by
  have hpos := mt Word.toNat_eq_zero.mp hd
  have hlt := d.isLt
  rw [Word.checkedAdd_eq_ok, BitVec.toNat_neg, BitVec.toNat_not, Word.toNat_one]
  omega

/-- The flipped power of two. -/
theorem toNat_flip {t : Word} {k : ℕ} (ht : t.toNat = 2 ^ k) (hk : 0 < k) (hk' : k < 256) :
    ((0 - t) / t + 1).toNat = 2 ^ (256 - k) := by
  obtain ⟨n, hn⟩ : ∃ n, 256 = k + n := ⟨256 - k, by omega⟩
  have hpow : 2 ^ 256 = 2 ^ k * 2 ^ n := by rw [← pow_add, ← hn]
  have hpos : 0 < 2 ^ k := Nat.two_pow_pos k
  have hn' : 256 - k = n := by omega
  have hsmall : 2 ^ n < 2 ^ 256 := Nat.pow_lt_pow_right (by norm_num) (by omega)
  have hone : 1 ≤ 2 ^ n := Nat.one_le_two_pow
  have hneg : (0 - t).toNat = 2 ^ k * (2 ^ n - 1) := by
    rw [BitVec.toNat_sub, Word.toNat_zero, ht, Nat.add_zero, Nat.mod_eq_of_lt (by omega), hpow,
      Nat.mul_sub, Nat.mul_one]
  have hquot : ((0 - t) / t).toNat = 2 ^ n - 1 := by
    rw [BitVec.toNat_udiv, hneg, ht, Nat.mul_div_cancel_left _ hpos]
  rw [hn', BitVec.toNat_add, hquot, Word.toNat_one, Nat.mod_eq_of_lt (by omega)]
  omega

theorem pow_mul_pow_sub {k : ℕ} (hk : k < 256) : 2 ^ k * 2 ^ (256 - k) = 2 ^ 256 := by
  rw [← pow_add]
  congr 1
  omega

/-- The quotient by a power of two, from the two words of the dividend. -/
theorem div_two_pow_of_words {k : ℕ} (hk : k < 256) (N : ℕ) :
    N / 2 ^ k = 2 ^ (256 - k) * (N / 2 ^ 256) + N % 2 ^ 256 / 2 ^ k := by
  have hword := Nat.div_add_mod N (2 ^ 256)
  have hassemble : N = N % 2 ^ 256 + 2 ^ k * (2 ^ (256 - k) * (N / 2 ^ 256)) := by
    rw [← Nat.mul_assoc, pow_mul_pow_sub hk]
    omega
  conv_lhs => rw [hassemble, Nat.add_mul_div_left _ _ (Nat.two_pow_pos k)]
  omega

section Long

variable {a b d prod0 prod1 t : Word} {k : ℕ}

/-- The remainder by a power of two is that of the low word. -/
theorem toNat_remainder (h0 : prod0.toNat = a.toNat * b.toNat % 2 ^ 256) (hk : k < 256)
    (hd : d.toNat = 2 ^ k) :
    (BitVec.ofNat 256 (mulmod a.toNat b.toNat d.toNat)).toNat = prod0.toNat % 2 ^ k := by
  have hpos : 0 < 2 ^ k := Nat.two_pow_pos k
  have hsmall : 2 ^ k < 2 ^ 256 := Nat.pow_lt_pow_right (by norm_num) hk
  have hdvd : 2 ^ k ∣ 2 ^ 256 := ⟨_, (pow_mul_pow_sub hk).symm⟩
  have hmod := Nat.mod_lt (a.toNat * b.toNat) hpos
  rw [mulmod, hd, if_neg hpos.ne', BitVec.toNat_ofNat, Nat.mod_eq_of_lt (by omega), h0,
    Nat.mod_mod_of_dvd _ hdvd]

/-- So there is no borrow, and the low word is divided without its remainder. -/
theorem toNat_low_quotient {rem : Word} (hrem : rem.toNat = prod0.toNat % 2 ^ k)
    (ht : t.toNat = 2 ^ k) :
    ¬rem > prod0 ∧ ((prod0 - rem) / t).toNat = prod0.toNat / 2 ^ k := by
  have hle : rem.toNat ≤ prod0.toNat := by
    rw [hrem]
    exact Nat.mod_le _ _
  have hsub : prod0.toNat - prod0.toNat % 2 ^ k = 2 ^ k * (prod0.toNat / 2 ^ k) := by
    have hmod := Nat.div_add_mod prod0.toNat (2 ^ k)
    omega
  constructor
  · rw [gt_iff_lt, BitVec.lt_def]
    omega
  · rw [BitVec.toNat_udiv, BitVec.toNat_sub_of_le hle, hrem, ht, hsub,
      Nat.mul_div_cancel_left _ (Nat.two_pow_pos k)]

/-- The high word is shifted into the place that the division has left. -/
theorem checkedMul_flip (ht : t.toNat = 2 ^ k) (hk : 0 < k) (hk' : k < 256)
    (hlt : prod1.toNat < 2 ^ k) :
    ∃ shifted, Word.checkedMul prod1 ((0 - t) / t + 1) = .ok shifted ∧
      shifted.toNat = 2 ^ (256 - k) * prod1.toNat := by
  have hfit : prod1.toNat * 2 ^ (256 - k) < 2 ^ 256 := by
    rw [← pow_mul_pow_sub hk']
    exact Nat.mul_lt_mul_of_pos_right hlt (Nat.two_pow_pos _)
  refine ⟨BitVec.ofNat 256 (prod1.toNat * 2 ^ (256 - k)), ?_, ?_⟩
  · rw [Word.checkedMul_eq_ok, toNat_flip ht hk hk', BitVec.toNat_ofNat, Nat.mod_eq_of_lt hfit]
  · rw [BitVec.toNat_ofNat, Nat.mod_eq_of_lt hfit, Nat.mul_comm]

/-- A power of two divides the low word and shifts the high word in. -/
theorem divide512_of_pow (h0 : prod0.toNat = a.toNat * b.toNat % 2 ^ 256)
    (h1 : prod1.toNat = a.toNat * b.toNat / 2 ^ 256) (hk : 0 < k) (hk' : k < 256)
    (hd : d.toNat = 2 ^ k) (hlow : (-d &&& d).toNat = 2 ^ k) (hlt : prod1.toNat < 2 ^ k) :
    ∃ r, divide512 a b d prod0 prod1 = .ok r ∧ r.toNat = a.toNat * b.toNat / 2 ^ k := by
  have hpos : 0 < 2 ^ k := Nat.two_pow_pos k
  have hd0 : d ≠ 0 := fun h => by
    rw [← Word.toNat_eq_zero, hd] at h
    omega
  obtain ⟨hborrow, hquot⟩ := toNat_low_quotient (toNat_remainder h0 hk' hd) hlow
  obtain ⟨shifted, hshifted, hvalue⟩ := checkedMul_flip hlow hk hk' hlt
  -- the odd part is one, and so is its inverse
  have hodd : d / (-d &&& d) = 1 := by
    apply BitVec.eq_of_toNat_eq
    rw [BitVec.toNat_udiv, hd, hlow, Nat.div_self hpos]
    rfl
  have hlast : ∀ w : Word, Word.checkedMul w 1 = .ok w := fun w =>
    Word.checkedMul_eq_ok.mpr (Nat.mul_one _).symm
  refine ⟨(prod0 - BitVec.ofNat 256 (mulmod a.toNat b.toNat d.toNat)) / (-d &&& d) ||| shifted,
    ?_, ?_⟩
  · have hprod1 : prod1 - (0 : Word) = prod1 := BitVec.sub_zero prod1
    unfold divide512
    simp only [if_neg hborrow, hprod1]
    rw [checkedAdd_not hd0, ok_bind, hshifted, ok_bind, hodd, invert_one, ok_bind, hlast]
  · have hbits : prod0.toNat / 2 ^ k < 2 ^ (256 - k) := by
      rw [Nat.div_lt_iff_lt_mul hpos, Nat.mul_comm, pow_mul_pow_sub hk']
      exact prod0.isLt
    rw [BitVec.toNat_or, hquot, hvalue, Nat.or_comm, ← Nat.two_pow_add_eq_or_of_lt hbits, h0, h1]
    exact (div_two_pow_of_words hk' _).symm

/-- The division of a long product succeeds exactly for powers of two. -/
theorem divide512_eq_ok_iff (h0 : prod0.toNat = a.toNat * b.toNat % 2 ^ 256)
    (h1 : prod1.toNat = a.toNat * b.toNat / 2 ^ 256) (hpos : 0 < prod1.toNat)
    (hlt : prod1.toNat < d.toNat) {r : Word} :
    divide512 a b d prod0 prod1 = .ok r ↔
      r.toNat = a.toNat * b.toNat / d.toNat ∧ ∃ k, d.toNat = 2 ^ k := by
  have hd0 : d ≠ 0 := fun h => by
    rw [← Word.toNat_eq_zero] at h
    omega
  obtain ⟨k, j, hd, hk, hlow⟩ := exists_lowest_bit hd0
  by_cases hj : j = 0
  · rw [hj, Nat.mul_zero, Nat.zero_add, Nat.mul_one] at hd
    have hk0 : 0 < k := by
      rw [Nat.pos_iff_ne_zero]
      rintro rfl
      omega
    obtain ⟨w, hw, hvalue⟩ := divide512_of_pow h0 h1 hk0 hk hd hlow (by omega)
    rw [hw, Word.ok_eq_ok_iff hvalue, hd]
    exact ⟨fun h => ⟨h, k, rfl⟩, fun h => h.1⟩
  · constructor
    · intro h
      unfold divide512 at h
      rw [checkedAdd_not hd0, ok_bind] at h
      obtain ⟨shifted, -, h⟩ := bind_eq_ok.mp h
      obtain ⟨inv, hinv, -⟩ := bind_eq_ok.mp h
      have hodd : (d / (-d &&& d)).toNat = 2 * j + 1 := by
        rw [BitVec.toNat_udiv, hlow, hd, Nat.mul_div_cancel_left _ (Nat.two_pow_pos k)]
      exact absurd hinv (invert_ne_ok (by omega) inv)
    · rintro ⟨-, i, hi⟩
      -- an odd divisor of a power of two is one
      have hdvd : 2 * j + 1 ∣ 2 ^ i := ⟨2 ^ k, by rw [← hi, hd, Nat.mul_comm]⟩
      obtain ⟨e, -, he⟩ := (Nat.dvd_prime_pow Nat.prime_two).mp hdvd
      cases e with
      | zero => omega
      | succ e =>
        rw [pow_succ] at he
        omega

end Long

/-! ### `mulDiv` -/

/-- **What `mulDiv` computes**: the quotient, for products that fit a word or denominators that are
powers of two; it reverts on everything else. -/
theorem mulDiv_eq_ok_iff {a b d r : Word} :
    mulDiv a b d = .ok r ↔ 0 < d.toNat ∧ r.toNat = a.toNat * b.toNat / d.toNat ∧
      (a.toNat * b.toNat < 2 ^ 256 ∨ ∃ k, d.toNat = 2 ^ k) := by
  have h0 : (a * b).toNat = a.toNat * b.toNat % 2 ^ 256 := BitVec.toNat_mul a b
  have h1 := toNat_highWord a b
  have hd : d > 0 ↔ 0 < d.toNat := by
    rw [gt_iff_lt, BitVec.lt_def]
    rfl
  unfold mulDiv
  simp only
  split_ifs with hhigh hpos hlt
  · rw [hhigh, Word.toNat_zero] at h1
    have hfit : a.toNat * b.toNat < 2 ^ 256 := by omega
    have hvalue : (a * b / d).toNat = a.toNat * b.toNat / d.toNat := by
      rw [BitVec.toNat_udiv, h0, Nat.mod_eq_of_lt hfit]
    rw [Word.ok_eq_ok_iff hvalue]
    exact ⟨fun h => ⟨hd.mp hpos, h, Or.inl hfit⟩, fun h => h.2.1⟩
  · exact ⟨nofun, fun h => absurd (hd.mpr h.1) hpos⟩
  · have hhigh' : 0 < (highWord a b).toNat :=
      Nat.pos_of_ne_zero (mt Word.toNat_eq_zero.mp hhigh)
    rw [gt_iff_lt, BitVec.lt_def] at hlt
    rw [divide512_eq_ok_iff h0 h1 hhigh' hlt]
    constructor
    · rintro ⟨hr, hk⟩
      exact ⟨by omega, hr, Or.inr hk⟩
    · rintro ⟨-, hr, hfit | hk⟩
      · omega
      · exact ⟨hr, hk⟩
  · -- the quotient does not fit a word
    refine ⟨nofun, ?_⟩
    rintro ⟨hpos, hr, -⟩
    rw [gt_iff_lt, BitVec.lt_def, h1, not_lt, Nat.le_div_iff_mul_le (by norm_num)] at hlt
    have hlarge : 2 ^ 256 ≤ a.toNat * b.toNat / d.toNat := by
      rw [Nat.le_div_iff_mul_le hpos, Nat.mul_comm]
      exact hlt
    have hword := r.isLt
    omega

/-- A result is the quotient. -/
theorem toNat_of_mulDiv {a b d r : Word} (h : mulDiv a b d = .ok r) :
    0 < d.toNat ∧ r.toNat = a.toNat * b.toNat / d.toNat :=
  ⟨(mulDiv_eq_ok_iff.mp h).1, (mulDiv_eq_ok_iff.mp h).2.1⟩

/-- A product is divided by one whenever it fits a word. -/
theorem mulDiv_one_eq_ok_iff {a b r : Word} :
    mulDiv a b 1 = .ok r ↔ r.toNat = a.toNat * b.toNat := by
  rw [mulDiv_eq_ok_iff, Word.toNat_one, Nat.div_one]
  exact ⟨fun h => h.2.1, fun h => ⟨Nat.one_pos, h, Or.inr ⟨0, rfl⟩⟩⟩

/-- Smaller factors are divided wherever larger ones are, and give no larger quotient. -/
theorem exists_le_of_mulDiv {a a' b b' d r : Word} (ha : a'.toNat ≤ a.toNat)
    (hb : b'.toNat ≤ b.toNat) (h : mulDiv a b d = .ok r) :
    ∃ r', mulDiv a' b' d = .ok r' ∧ r'.toNat ≤ r.toNat := by
  obtain ⟨hpos, hr, hfit⟩ := mulDiv_eq_ok_iff.mp h
  have hprod : a'.toNat * b'.toNat ≤ a.toNat * b.toNat := Nat.mul_le_mul ha hb
  have hquot : a'.toNat * b'.toNat / d.toNat ≤ r.toNat := by
    rw [hr]
    exact Nat.div_le_div_right hprod
  have hvalue : (BitVec.ofNat 256 (a'.toNat * b'.toNat / d.toNat)).toNat
      = a'.toNat * b'.toNat / d.toNat := by
    rw [BitVec.toNat_ofNat]
    exact Nat.mod_eq_of_lt (lt_of_le_of_lt hquot r.isLt)
  refine ⟨BitVec.ofNat 256 (a'.toNat * b'.toNat / d.toNat), ?_, by rw [hvalue]; exact hquot⟩
  rw [mulDiv_eq_ok_iff]
  exact ⟨hpos, hvalue, hfit.imp_left fun hlt => lt_of_le_of_lt hprod hlt⟩

theorem exists_le_of_mulDiv_left {a a' b d r : Word} (ha : a'.toNat ≤ a.toNat)
    (h : mulDiv a b d = .ok r) : ∃ r', mulDiv a' b d = .ok r' ∧ r'.toNat ≤ r.toNat :=
  exists_le_of_mulDiv ha (Nat.le_refl b.toNat) h

/-! ### The documentation -/

/-- What the documentation says of `mulDiv`: it returns the quotient where there is one that fits a
word, and reverts exactly where there is none. -/
structure MeetsDoc (a b denominator : Word) : Prop where
  returns : 0 < denominator.toNat → a.toNat * b.toNat / denominator.toNat < 2 ^ 256 →
    ∃ r, mulDiv a b denominator = .ok r ∧ r.toNat = a.toNat * b.toNat / denominator.toNat
  reverts : (∃ e, mulDiv a b denominator = .error e) ↔
    denominator = 0 ∨ 2 ^ 256 ≤ a.toNat * b.toNat / denominator.toNat

/-- **Where `mulDiv` meets its documentation**: for products that fit a word, for powers of two, and
where nothing is to be returned. -/
theorem meetsDoc_iff (a b denominator : Word) :
    MeetsDoc a b denominator ↔
      denominator = 0 ∨ 2 ^ 256 ≤ a.toNat * b.toNat / denominator.toNat ∨
        a.toNat * b.toNat < 2 ^ 256 ∨ ∃ k, denominator.toNat = 2 ^ k := by
  have hzero : denominator = 0 ↔ denominator.toNat = 0 := Word.toNat_eq_zero.symm
  constructor
  · intro h
    by_contra hnot
    push Not at hnot
    obtain ⟨hd, hquot, hfit, hpow⟩ := hnot
    -- the quotient is due, and only the two favourable kinds return one
    obtain ⟨r, hr, -⟩ := h.returns (Nat.pos_of_ne_zero (mt hzero.mpr hd)) hquot
    rcases (mulDiv_eq_ok_iff.mp hr).2.2 with hlt | ⟨k, hk⟩
    · exact absurd hlt (not_lt.mpr hfit)
    · exact hpow k hk
  · intro h
    have hreturns : 0 < denominator.toNat →
        a.toNat * b.toNat / denominator.toNat < 2 ^ 256 →
        ∃ r, mulDiv a b denominator = .ok r ∧
          r.toNat = a.toNat * b.toNat / denominator.toNat := by
      intro hpos hquot
      have hvalue : (BitVec.ofNat 256 (a.toNat * b.toNat / denominator.toNat)).toNat
          = a.toNat * b.toNat / denominator.toNat := by
        rw [BitVec.toNat_ofNat]
        exact Nat.mod_eq_of_lt hquot
      have hkind : a.toNat * b.toNat < 2 ^ 256 ∨ ∃ k, denominator.toNat = 2 ^ k := by
        rcases h with hd | hlarge | hkind
        · rw [hzero] at hd
          omega
        · omega
        · exact hkind
      exact ⟨_, mulDiv_eq_ok_iff.mpr ⟨hpos, hvalue, hkind⟩, hvalue⟩
    refine ⟨hreturns, ?_⟩
    constructor
    · rintro ⟨e, he⟩
      by_contra hnot
      push Not at hnot
      obtain ⟨r, hr, -⟩ := hreturns (Nat.pos_of_ne_zero (mt hzero.mpr hnot.1)) hnot.2
      rw [he] at hr
      cases hr
    · intro hnone
      cases hresult : mulDiv a b denominator with
      | error e => exact ⟨e, rfl⟩
      | ok r =>
        obtain ⟨hpos, hr, -⟩ := mulDiv_eq_ok_iff.mp hresult
        have hlt := r.isLt
        rcases hnone with hd | hlarge
        · rw [hzero] at hd
          omega
        · omega

/-- A third of `2 ** 256` fits a word, but is not returned. -/
theorem not_meetsDoc_third :
    mulDiv 0x100000000000000000000000000000000 0x100000000000000000000000000000000 3
      = .error (.panic 0x11) ∧
    ¬MeetsDoc 0x100000000000000000000000000000000 0x100000000000000000000000000000000 3 := by
  have hpanic : mulDiv 0x100000000000000000000000000000000 0x100000000000000000000000000000000 3
      = .error (.panic 0x11) := by rfl
  refine ⟨hpanic, fun h => ?_⟩
  obtain ⟨r, hr, -⟩ := h.returns (by decide) (by decide)
  rw [hpanic] at hr
  cases hr

end Enclave.CustomFullMath
