import Enclave.Number.BinaryInverse
import Enclave.Number.Montgomery
import Enclave.P256.Equiv.Field
import Enclave.P256.P256VERIFY

/-!
# The Montgomery layer of `P256VERIFY.yul`

The code computes on Montgomery forms, residues `X 2^256` of field elements `X`.  `REDC_spec` says
that its reduction is exact for both moduli, whatever overflows on the way, and the lemmas after it
that each operation on forms is the operation of the field.  The inverse is the binary Euclidean
algorithm: `binaryExtendedEuclideanAlgorithm_spec` says that its loops end, and what they compute.
-/

namespace Enclave.P256VERIFY

open Yul Montgomery BinaryInverse P256

/-- What the code relies on in a modulus and its two precomputed constants: the top bit of the
modulus is set, the first constant is `-1 / n` modulo `2^256` and the second is `2^512` modulo
`n`. -/
structure Modulus (n nPrime r2 : ℕ) : Prop where
  ge : 2 ^ 255 ≤ n
  lt : n < 2 ^ 256
  dvd : 2 ^ 256 ∣ n * nPrime + 1
  r2_lt : r2 < n
  r2_mod : r2 % n = 2 ^ 256 * 2 ^ 256 % n

theorem P_eq : P = p := rfl

theorem N_eq : N = n := rfl

theorem modulus_P : Modulus p P_PRIME R2_MOD_P := by
  constructor <;> decide

theorem modulus_N : Modulus n N_PRIME R2_MOD_N := by
  constructor <;> decide

/-- The two moduli of the code, each with its constants. -/
inductive Constants : ℕ → ℕ → ℕ → Prop
  | field : Constants P P_PRIME R2_MOD_P
  | order : Constants N N_PRIME R2_MOD_N

theorem Constants.modulus {n nPrime r2 : ℕ} : Constants n nPrime r2 → Modulus n nPrime r2
  | .field => modulus_P
  | .order => modulus_N

theorem Constants.prime {n nPrime r2 : ℕ} : Constants n nPrime r2 → n.Prime
  | .field => prime_p
  | .order => prime_n

/-! ### Reduction -/

theorem overflowingAdd_eq {x y : ℕ} (hx : x < 2 ^ 256) (hy : y < 2 ^ 256) :
    overflowingAdd x y = ((x + y) % 2 ^ 256, decide (2 ^ 256 ≤ x + y)) := by
  rw [overflowingAdd, Prod.mk.injEq]
  exact ⟨rfl, decide_eq_decide.mpr (add_lt_iff hx hy)⟩

/-- The conditional subtraction, on a value of which the word has lost the top bit. -/
theorem conditional_sub {V n : ℕ} (hn : n < 2 ^ 256) (hV : V < 2 * n) :
    (if 2 ^ 256 ≤ V ∨ ¬V % 2 ^ 256 < n then sub (V % 2 ^ 256) n else V % 2 ^ 256)
      = if V < n then V else V - n := by
  by_cases hbig : 2 ^ 256 ≤ V
  · have hmod : V % 2 ^ 256 = V - 2 ^ 256 := by omega
    have hsum : V - 2 ^ 256 + (2 ^ 256 - n) = V - n := by omega
    rw [if_pos (Or.inl hbig), if_neg (by omega), hmod, sub, hsum, Nat.mod_eq_of_lt (by omega)]
  · rw [Nat.mod_eq_of_lt (by omega)]
    by_cases hlt : V < n
    · rw [if_neg (by omega), if_pos hlt]
    · rw [if_pos (Or.inr hlt), if_neg hlt, sub_of_le (by omega) (by omega)]

/-- The reduction on words: two sums may overflow, and a carry comes from the lower half. -/
theorem REDC_words {hi a lo b n : ℕ} (hhi : hi < 2 ^ 256) (ha : a < 2 ^ 256) (hlo : lo < 2 ^ 256)
    (hb : b < 2 ^ 256) (hn : n < 2 ^ 256) (hlt : hi + a + (lo + b) / 2 ^ 256 < 2 * n) :
    (let (tHi, tHiOverflowed1) := overflowingAdd hi a
      let (_, aLoOverflowed) := overflowingAdd lo b
      let (tHi, tHiOverflowed2) := if aLoOverflowed then overflowingAdd tHi 1 else (tHi, false)
      if tHiOverflowed1 || tHiOverflowed2 || !decide (tHi < n) then sub tHi n else tHi)
      = if hi + a + (lo + b) / 2 ^ 256 < n then hi + a + (lo + b) / 2 ^ 256
        else hi + a + (lo + b) / 2 ^ 256 - n := by
  rw [← conditional_sub hn hlt]
  simp only [overflowingAdd_eq hhi ha, overflowingAdd_eq hlo hb]
  by_cases hcarry : 2 ^ 256 ≤ lo + b
  · have hdiv : (lo + b) / 2 ^ 256 = 1 := by omega
    have hone : overflowingAdd ((hi + a) % 2 ^ 256) 1
        = ((hi + a + 1) % 2 ^ 256, decide (2 ^ 256 ≤ (hi + a) % 2 ^ 256 + 1)) := by
      rw [overflowingAdd_eq (Nat.mod_lt _ (by decide)) (by decide), Nat.mod_add_mod]
    -- one of the two sums overflows exactly when the whole does
    have hover : 2 ^ 256 ≤ hi + a ∨ 2 ^ 256 ≤ (hi + a) % 2 ^ 256 + 1 ↔ 2 ^ 256 ≤ hi + a + 1 := by
      omega
    simp only [hcarry, decide_true, if_true, hone, hdiv, Bool.or_eq_true, decide_eq_true_eq,
      Bool.not_eq_true', decide_eq_false_iff_not, hover]
  · have hdiv : (lo + b) / 2 ^ 256 = 0 := by omega
    simp only [hcarry, decide_false, Bool.false_eq_true, if_false, hdiv, Bool.or_false,
      Bool.or_eq_true, decide_eq_true_eq, Bool.not_eq_true', decide_eq_false_iff_not, add_zero]

theorem REDC_eq {TLo THi n nPrime : ℕ} (hlo : TLo < 2 ^ 256) (hn : n < 2 ^ 256)
    (hT : THi * 2 ^ 256 + TLo < n * 2 ^ 256) :
    REDC TLo THi n nPrime
      = if reduce (2 ^ 256) n nPrime (THi * 2 ^ 256 + TLo) < n
        then reduce (2 ^ 256) n nPrime (THi * 2 ^ 256 + TLo)
        else reduce (2 ^ 256) n nPrime (THi * 2 ^ 256 + TLo) - n := by
  have hlt := reduce_lt nPrime (show 0 < 2 ^ 256 by decide) hT
  have hhalves := reduce_eq_halves n nPrime (show 0 < 2 ^ 256 by decide) THi hlo
  rw [hhalves] at hlt ⊢
  exact REDC_words (by omega) (mulHigh_lt (mul_lt _ _) hn) hlo (mul_lt _ _) hn hlt

/-- **Exactness of the reduction.** -/
theorem REDC_spec {TLo THi n nPrime r2 : ℕ} (hm : Modulus n nPrime r2) (hlo : TLo < 2 ^ 256)
    (hT : THi * 2 ^ 256 + TLo < n * 2 ^ 256) :
    REDC TLo THi n nPrime < n ∧
      (REDC TLo THi n nPrime : ZMod n) * (2 ^ 256 : ℕ) = (THi * 2 ^ 256 + TLo : ℕ) := by
  have hlt := reduce_lt nPrime (show 0 < 2 ^ 256 by decide) hT
  have hcast := natCast_reduce_mul hm.dvd (THi * 2 ^ 256 + TLo)
  rw [REDC_eq hlo hm.lt hT]
  generalize reduce (2 ^ 256) n nPrime (THi * 2 ^ 256 + TLo) = V at hlt hcast ⊢
  split_ifs with h
  · exact ⟨h, hcast⟩
  · refine ⟨by omega, ?_⟩
    rw [Nat.cast_sub (by omega), ZMod.natCast_self, sub_zero]
    exact hcast

/-! ### The operations on forms -/

section Form

variable {n nPrime r2 : ℕ} [Fact n.Prime] (hm : Modulus n nPrime r2)

/-- The radix is invertible. -/
theorem Modulus.radix_ne_zero (hm : Modulus n nPrime r2) : ((2 ^ 256 : ℕ) : ZMod n) ≠ 0 := by
  intro h
  rw [ZMod.natCast_eq_zero_iff] at h
  have h2 := (Nat.prime_dvd_prime_iff_eq Fact.out Nat.prime_two).mp
    ((Fact.out : n.Prime).dvd_of_dvd_pow h)
  have hge := hm.ge
  omega

theorem Modulus.natCast_r2 (hm : Modulus n nPrime r2) :
    (r2 : ZMod n) = (2 ^ 256 : ℕ) * (2 ^ 256 : ℕ) := by
  rw [← Nat.cast_mul, ZMod.natCast_eq_natCast_iff']
  exact hm.r2_mod

variable {x y : ℕ} {X Y : ZMod n}

theorem form_montgomeryMul (hm : Modulus n nPrime r2) (hx : Form (2 ^ 256) n x X)
    (hy : Form (2 ^ 256) n y Y) :
    Form (2 ^ 256) n (montgomeryMul x y n nPrime) (X * Y) := by
  have hT : mulHigh x y * 2 ^ 256 + mul x y < n * 2 ^ 256 := by
    rw [mulHigh_mul_add]
    exact Nat.mul_lt_mul'' hx.lt (hy.lt.trans hm.lt)
  obtain ⟨hlt, heq⟩ := REDC_spec hm (mul_lt x y) hT
  refine ⟨hlt, mul_right_cancel₀ hm.radix_ne_zero ?_⟩
  rw [mulHigh_mul_add, Nat.cast_mul, hx.eq, hy.eq] at heq
  refine heq.trans ?_
  ring

theorem form_intoMontgomeryForm (hm : Modulus n nPrime r2) {a : ℕ} (ha : a < 2 ^ 256) :
    Form (2 ^ 256) n (intoMontgomeryForm a n nPrime r2) (a : ZMod n) := by
  have hT : mulHigh a r2 * 2 ^ 256 + mul a r2 < n * 2 ^ 256 := by
    rw [mulHigh_mul_add, mul_comm n]
    exact Nat.mul_lt_mul'' ha hm.r2_lt
  obtain ⟨hlt, heq⟩ := REDC_spec hm (mul_lt a r2) hT
  refine ⟨hlt, mul_right_cancel₀ hm.radix_ne_zero ?_⟩
  rw [mulHigh_mul_add, Nat.cast_mul, hm.natCast_r2] at heq
  refine heq.trans ?_
  ring

theorem outOfMontgomeryForm_spec (hm : Modulus n nPrime r2) (hx : Form (2 ^ 256) n x X) :
    outOfMontgomeryForm x n nPrime = X.val := by
  have hT : 0 * 2 ^ 256 + x < n * 2 ^ 256 := by
    rw [zero_mul, zero_add]
    exact hx.lt.trans_le (Nat.le_mul_of_pos_right n (by decide))
  obtain ⟨hlt, heq⟩ := REDC_spec hm (hx.lt.trans hm.lt) hT
  rw [zero_mul, zero_add, hx.eq] at heq
  have hcast := mul_right_cancel₀ hm.radix_ne_zero heq
  rw [← hcast, ZMod.val_natCast, outOfMontgomeryForm, Nat.mod_eq_of_lt hlt]

theorem form_montgomeryAdd (hx : Form (2 ^ 256) n x X) (hy : Form (2 ^ 256) n y Y) :
    Form (2 ^ 256) n (montgomeryAdd x y n) (X + Y) := by
  refine ⟨addmod_lt (Fact.out : n.Prime).pos _ _, ?_⟩
  rw [montgomeryAdd, natCast_addmod, hx.eq, hy.eq, add_mul]

theorem form_montgomerySub (hm : Modulus n nPrime r2) (hx : Form (2 ^ 256) n x X)
    (hy : Form (2 ^ 256) n y Y) : Form (2 ^ 256) n (montgomerySub x y n) (X - Y) := by
  refine ⟨addmod_lt (Fact.out : n.Prime).pos _ _, ?_⟩
  rw [montgomerySub, montgomeryAdd, natCast_addmod, sub_of_le hy.lt.le hm.lt,
    natCast_modulus_sub hy.lt.le, hx.eq, hy.eq]
  ring

end Form

/-- **The Montgomery layer is exact** for both moduli: the reduction divides by `2^256` whatever
overflows on the way, a word comes back from its form reduced, and the product of two forms is the
form of the product. -/
theorem montgomery_exact {n nPrime r2 : ℕ} (h : Constants n nPrime r2) :
    (∀ TLo < 2 ^ 256, ∀ THi < 2 ^ 256, THi * 2 ^ 256 + TLo < n * 2 ^ 256 →
      REDC TLo THi n nPrime < n ∧
        REDC TLo THi n nPrime * 2 ^ 256 ≡ THi * 2 ^ 256 + TLo [MOD n]) ∧
    (∀ a < 2 ^ 256, intoMontgomeryForm a n nPrime r2 = a * 2 ^ 256 % n ∧
      outOfMontgomeryForm (intoMontgomeryForm a n nPrime r2) n nPrime = a % n) ∧
    ∀ a b : ℕ, montgomeryMul (a * 2 ^ 256 % n) (b * 2 ^ 256 % n) n nPrime
      = a * b * 2 ^ 256 % n := by
  have hm := h.modulus
  have : Fact n.Prime := ⟨h.prime⟩
  have hform := fun a : ℕ => (Form.natCast_iff h.prime.pos (2 ^ 256) a).mpr rfl
  refine ⟨?_, ?_, ?_⟩
  · intro TLo hlo THi _ hT
    obtain ⟨hlt, heq⟩ := REDC_spec hm hlo hT
    refine ⟨hlt, (ZMod.natCast_eq_natCast_iff _ _ _).mp ?_⟩
    rw [Nat.cast_mul]
    exact heq
  · intro a ha
    have hinto := form_intoMontgomeryForm hm ha
    refine ⟨(Form.natCast_iff h.prime.pos _ a).mp hinto, ?_⟩
    rw [outOfMontgomeryForm_spec hm hinto, ZMod.val_natCast]
  · intro a b
    have hmul := form_montgomeryMul hm (hform a) (hform b)
    rw [← Nat.cast_mul] at hmul
    exact (Form.natCast_iff h.prime.pos _ (a * b)).mp hmul

/-- A hash above the order of the group comes back reduced. -/
theorem montgomery_exact_order :
    outOfMontgomeryForm (intoMontgomeryForm (N + 5) N N_PRIME R2_MOD_N) N N_PRIME = 5 :=
  ((montgomery_exact .order).2.1 (N + 5) (by decide)).2.trans rfl

/-! ### The inverse -/

section Inverse

variable {n nPrime r2 : ℕ}

/-- The carry of the sum is put back as the top bit. -/
theorem halve_eq (hm : Modulus n nPrime r2) {b : ℕ} (hb : b < n) :
    halve n b = if b % 2 = 0 then b / 2 else (b + n) / 2 := by
  have hge := hm.ge
  have hlt := hm.lt
  have hmask : mask = 2 ^ 255 := rfl
  have hbit : n.testBit 255 = true := by
    rw [Nat.testBit_eq_decide_div_mod_eq, decide_eq_true_eq]
    omega
  have hspare : (n &&& mask == 0) = false := by
    rw [hmask, Nat.and_two_pow, hbit]
    rfl
  have hshift : ∀ w : ℕ, w >>> 1 = w / 2 := fun w => Nat.shiftRight_one w
  have hor : ∀ w < 2 ^ 255, w ||| mask = 2 ^ 255 + w := fun w hw => by
    have h := Nat.two_pow_add_eq_or_of_lt hw 1
    rw [mul_one] at h
    rw [hmask, h, Nat.lor_comm]
  simp only [halve, hspare, overflowingAdd, Nat.and_one_is_mod, hshift, Bool.not_false,
    Bool.true_and, decide_eq_true_eq]
  split_ifs with heven hcarry
  · rfl
  · rw [add_lt_iff (by omega) hlt] at hcarry
    have hsum : add b n = b + n - 2 ^ 256 := by
      unfold add
      omega
    rw [hsum, hor _ (by omega)]
    omega
  · rw [add_lt_iff (by omega) hlt] at hcarry
    have hsum : add b n = b + n := by
      unfold add
      omega
    rw [hsum]

theorem halve_lt (hm : Modulus n nPrime r2) {b : ℕ} (hb : b < n) : halve n b < n := by
  rw [halve_eq hm hb]
  split_ifs <;> omega

theorem two_mul_halve (hm : Modulus n nPrime r2) (hodd : n % 2 = 1) {b : ℕ} (hb : b < n) :
    2 * (halve n b : ZMod n) = b := by
  have hhalf : 2 * halve n b = b ∨ 2 * halve n b = b + n := by
    rw [halve_eq hm hb]
    split_ifs <;> omega
  rw [← Nat.cast_ofNat, ← Nat.cast_mul]
  rcases hhalf with h | h
  · rw [h]
  · rw [h, Nat.cast_add, ZMod.natCast_self, add_zero]

variable [Fact n.Prime] {base r : ZMod n} {u v b c fuel : ℕ}

theorem Modulus.odd (hm : Modulus n nPrime r2) : n % 2 = 1 := by
  have hge := hm.ge
  rcases (Fact.out : n.Prime).eq_two_or_odd with h | h
  · omega
  · exact h

/-- What holds at the head of the loop that halves `u`. -/
structure Halving (base r : ZMod n) (u v c : ℕ) (s : ℕ × ℕ) : Prop where
  invariant : Invariant base r s.1 v s.2 c
  pos : 0 < s.1
  halved : s.1 = u ∨ 2 * s.1 ≤ u

/-- One pass of the halving loop takes a bit from the number. -/
theorem halveEven_step (hm : Modulus n nPrime r2) (s : ℕ × ℕ) (hs : Halving base r u v c s)
    (heven : (s.1 &&& 1 == 0) = true) :
    ∃ s', some (s.1 >>> 1, halve n s.2) = some s' ∧ Halving base r u v c s' ∧
      Nat.log 2 s'.1 < Nat.log 2 s.1 := by
  have hge := hm.ge
  obtain ⟨hI, hpos, hhalved⟩ := hs
  rw [Nat.and_one_is_mod, beq_iff_eq] at heven
  have hlog : 0 < Nat.log 2 s.1 := Nat.log_pos (by decide) (by omega)
  rw [Nat.shiftRight_one]
  refine ⟨_, rfl, ⟨?_, ?_, ?_⟩, ?_⟩
  · exact hI.halve (by omega) heven (halve_lt hm hI.left.lt) (two_mul_halve hm hm.odd hI.left.lt)
  · show 0 < s.1 / 2
    omega
  · show s.1 / 2 = u ∨ 2 * (s.1 / 2) ≤ u
    omega
  · show Nat.log 2 (s.1 / 2) < Nat.log 2 s.1
    rw [Nat.log_div_base]
    omega

/-- The halving loop ends with an odd number, of at most half the value if it started with an even
one. -/
theorem halveEven_spec (hm : Modulus n nPrime r2) (hI : Invariant base r u v b c) (hu : 0 < u)
    (hfuel : Nat.log 2 u < fuel) :
    ∃ u' b', halveEven fuel n u b = some (u', b') ∧ Invariant base r u' v b' c ∧
      0 < u' ∧ u' ≤ u ∧ u' % 2 = 1 ∧ (u % 2 = 0 → 2 * u' ≤ u) := by
  obtain ⟨⟨u', b'⟩, hloop, ⟨hI', hpos, hhalved⟩, hcond⟩ :=
    forLoop_spec (fun s => Nat.log 2 s.1) (halveEven_step (v := v) (c := c) (u := u) hm) fuel (u, b)
      ⟨hI, hu, Or.inl rfl⟩ hfuel
  simp only [Nat.and_one_is_mod, beq_eq_false_iff_ne] at hcond hhalved
  refine ⟨u', b', hloop, hI', hpos, ?_, by omega, ?_⟩
  · show u' ≤ u
    rcases hhalved with h | h
    · exact h.le
    · exact le_trans (Nat.le_mul_of_pos_left u' (by decide)) h
  · intro heven
    rcases hhalved with h | h
    · exact absurd (h ▸ heven) hcond
    · exact h

/-- What holds at the head of the outer loop. -/
structure Head (n : ℕ) (base r : ZMod n) (s : Registers) : Prop where
  invariant : Invariant base r s.u s.v s.b s.c
  u_le : s.u ≤ n
  v_le : s.v ≤ n

/-- One iteration of the outer loop takes a bit from the product. -/
theorem euclideanStep_spec (hm : Modulus n nPrime r2) (hfuel : 256 ≤ fuel) {s : Registers}
    (hs : Head n base r s) (hu : s.u ≠ 1) (hv : s.v ≠ 1) :
    ∃ s', euclideanStep fuel n s = some s' ∧ Head n base r s' ∧
      bits s'.u s'.v < bits s.u s.v := by
  have hn := hm.lt
  obtain ⟨hI, hule, hvle⟩ := hs
  have hupos := hI.pos_left hv
  have hvpos := hI.symm.pos_left hu
  have hlog : ∀ w : ℕ, w ≤ n → 0 < w → Nat.log 2 w < fuel := fun w hw hpos =>
    (Nat.log_lt_of_lt_pow hpos.ne' (hw.trans_lt hn)).trans_le hfuel
  obtain ⟨u, b, hleft, hI₁, hu0, hu', huodd, hueven⟩ :=
    halveEven_spec hm hI hupos (hlog _ hule hupos)
  obtain ⟨v, c, hright, hI₂, hv0, hv', hvodd, hveven⟩ :=
    halveEven_spec hm hI₁.symm hvpos (hlog _ hvle hvpos)
  -- both numbers are odd now, so that their difference is even
  have hbits : ∀ x y : ℕ, x * y ≤ u * v → (x % 2 = 0 ∨ y % 2 = 0) →
      bits x y < bits s.u s.v := fun x y =>
    bits_lt (by omega) (by omega) hu' hv' hueven hveven
  simp only [euclideanStep, hleft, hright, Option.bind_eq_bind, Option.bind_some]
  by_cases hlt : v > u
  · have hsub := hI₂.sub hlt.le (subMod_lt hn.le hI₂.left.lt hI₂.right.lt)
      (natCast_subMod hn.le hI₂.left.lt hI₂.right.lt)
    rw [if_pos hlt, sub_of_le hlt.le (by omega)]
    refine ⟨_, rfl, ⟨hsub.symm, hu'.trans hule, ?_⟩, hbits _ _ ?_ (Or.inr ?_)⟩
    · show v - u ≤ n
      omega
    · exact Nat.mul_le_mul_left u (Nat.sub_le v u)
    · show (v - u) % 2 = 0
      omega
  · have hI₃ := hI₂.symm
    have hsub := hI₃.sub (not_lt.mp hlt) (subMod_lt hn.le hI₃.left.lt hI₃.right.lt)
      (natCast_subMod hn.le hI₃.left.lt hI₃.right.lt)
    rw [if_neg hlt, sub_of_le (not_lt.mp hlt) (by omega)]
    refine ⟨_, rfl, ⟨hsub, ?_, hv'.trans hvle⟩, hbits _ _ ?_ (Or.inl ?_)⟩
    · show u - v ≤ n
      omega
    · exact Nat.mul_le_mul_right v (Nat.sub_le u v)
    · show (u - v) % 2 = 0
      omega

/-- **The binary Euclidean algorithm ends**, after at most 512 iterations of its outer loop, and
divides `2^512` by its argument. -/
theorem binaryExtendedEuclideanAlgorithm_spec (hm : Modulus n nPrime r2) (hfuel : 513 ≤ fuel)
    {a : ℕ} (hpos : 0 < a) (ha : a < n) :
    ∃ inv, binaryExtendedEuclideanAlgorithm fuel a n r2 = some inv ∧ inv < n ∧
      (inv : ZMod n) * a = r2 := by
  have hn := hm.lt
  -- `r2` goes with the argument, and `0` with the modulus
  have hstart : Head n (a : ZMod n) (r2 : ZMod n) ⟨a, n, r2, 0⟩ := by
    refine ⟨⟨?_, ⟨hm.r2_lt, mul_comm _ _⟩, ⟨(Fact.out : n.Prime).pos, ?_⟩⟩, ha.le, le_rfl⟩
    · exact ((Nat.Prime.coprime_iff_not_dvd Fact.out).mpr (Nat.not_dvd_of_pos_of_lt hpos ha)).symm
    · show ((0 : ℕ) : ZMod n) * a = (n : ZMod n) * r2
      rw [Nat.cast_zero, zero_mul, ZMod.natCast_self, zero_mul]
  have hbits : bits a n < fuel :=
    (bits_le (Nat.mul_pos hpos (hpos.trans ha)) (ha.trans hn) hn).trans_lt hfuel
  have hstep : ∀ s : Registers, Head n (a : ZMod n) (r2 : ZMod n) s →
      (!(s.u == 1) && !(s.v == 1)) = true → ∃ s', euclideanStep fuel n s = some s' ∧
        Head n (a : ZMod n) (r2 : ZMod n) s' ∧ bits s'.u s'.v < bits s.u s.v := by
    intro s hs hcond
    simp only [Bool.and_eq_true, Bool.not_eq_true', beq_eq_false_iff_ne] at hcond
    exact euclideanStep_spec hm (by omega) hs hcond.1 hcond.2
  obtain ⟨s, hloop, hs, hcond⟩ :=
    forLoop_spec (fun s : Registers => bits s.u s.v) hstep fuel ⟨a, n, r2, 0⟩ hstart hbits
  simp only [binaryExtendedEuclideanAlgorithm, hloop, Option.bind_eq_bind, Option.bind_some]
  -- the loop ends when one of the two numbers is `1`, and its residue is returned
  have hinv := hs.invariant
  by_cases hu : s.u = 1
  · exact ⟨s.b, if_pos hu, hinv.left.lt, hinv.eq_of_left_eq_one hu⟩
  · have hv : s.v = 1 := by
      simpa [hu] using hcond
    exact ⟨s.c, if_neg hu, hinv.right.lt, hinv.symm.eq_of_left_eq_one hv⟩

theorem form_montgomeryModularInverse (hm : Modulus n nPrime r2) (hfuel : 513 ≤ fuel) {x : ℕ}
    {X : ZMod n} (hx : Form (2 ^ 256) n x X) (hX : X ≠ 0) :
    ∃ inv, montgomeryModularInverse fuel x n r2 = some inv ∧ Form (2 ^ 256) n inv X⁻¹ := by
  have hpos : 0 < x :=
    Nat.pos_of_ne_zero fun h0 => hX ((hx.eq_zero_iff hm.radix_ne_zero).mp h0)
  obtain ⟨inv, hinv, hlt, heq⟩ := binaryExtendedEuclideanAlgorithm_spec hm hfuel hpos hx.lt
  refine ⟨inv, hinv, hlt, mul_right_cancel₀ (mul_ne_zero hX hm.radix_ne_zero) ?_⟩
  rw [← hx.eq, heq, hm.natCast_r2, hx.eq]
  field_simp

end Inverse

/-- **The modular inverse of the code**: for both moduli and every residue but zero all loops end,
after at most 512 iterations each, and the result is the quotient of `2^512` by the residue.  For
the form of `a` that is the form of its inverse. -/
theorem binaryExtendedEuclideanAlgorithm_inverts {modulus nPrime r2 : ℕ}
    (h : Constants modulus nPrime r2) {base : ℕ} (hpos : 0 < base) (hlt : base < modulus) :
    ∃ inv, (∀ fuel ≥ 513, binaryExtendedEuclideanAlgorithm fuel base modulus r2 = some inv) ∧
      inv < modulus ∧ base * inv ≡ 2 ^ 512 [MOD modulus] ∧
      ∀ a : ℕ, base = a * 2 ^ 256 % modulus →
        (a : ZMod modulus) ≠ 0 ∧ (inv : ZMod modulus) = (a : ZMod modulus)⁻¹ * 2 ^ 256 := by
  have hm := h.modulus
  have : Fact modulus.Prime := ⟨h.prime⟩
  have hbase : (base : ZMod modulus) ≠ 0 := by
    rw [Ne, ZMod.natCast_eq_zero_iff]
    exact Nat.not_dvd_of_pos_of_lt hpos hlt
  obtain ⟨inv, hinv, hinvlt, heq⟩ := binaryExtendedEuclideanAlgorithm_spec hm le_rfl hpos hlt
  have hsquare : (r2 : ZMod modulus) = (2 ^ 256) * (2 ^ 256) := by
    rw [hm.natCast_r2, Nat.cast_pow, Nat.cast_ofNat]
  refine ⟨inv, ?_, hinvlt, ?_, ?_⟩
  · -- the quotient is the only residue with this product
    intro fuel hfuel
    obtain ⟨inv', hinv', hlt', heq'⟩ := binaryExtendedEuclideanAlgorithm_spec hm hfuel hpos hlt
    have hcast := mul_right_cancel₀ hbase (heq'.trans heq.symm)
    rw [ZMod.natCast_eq_natCast_iff', Nat.mod_eq_of_lt hlt', Nat.mod_eq_of_lt hinvlt] at hcast
    rw [hinv', hcast]
  · refine (ZMod.natCast_eq_natCast_iff _ _ _).mp ?_
    rw [Nat.cast_mul, mul_comm, heq, hsquare, ← pow_add, Nat.cast_pow, Nat.cast_ofNat]
  · intro a ha
    have hform := (Form.natCast_iff h.prime.pos (2 ^ 256) a).mpr ha
    have hne : (a : ZMod modulus) ≠ 0 :=
      fun h0 => hpos.ne' ((hform.eq_zero_iff hm.radix_ne_zero).mpr h0)
    have hcast : (base : ZMod modulus) = a * 2 ^ 256 := by
      rw [hform.eq, Nat.cast_pow, Nat.cast_ofNat]
    refine ⟨hne, mul_right_cancel₀ hbase ?_⟩
    rw [heq, hsquare, hcast]
    field_simp

/-- The residue `6` is inverted.  The first two passes of the outer loop halve `6` once, and the
modulus less `3` twice. -/
theorem binaryExtendedEuclideanAlgorithm_inverts_six :
    (∃ inv, binaryExtendedEuclideanAlgorithm 513 6 P R2_MOD_P = some inv ∧ inv < P ∧
      6 * inv ≡ 2 ^ 512 [MOD P]) ∧
    ∃ s s', euclideanStep 513 P ⟨6, P, R2_MOD_P, 0⟩ = some s ∧ s.u = 3 ∧ s.v = P - 3 ∧
      euclideanStep 513 P s = some s' ∧ s'.u = 3 ∧ s'.v = (P - 3) / 4 - 3 := by
  constructor
  · obtain ⟨inv, hinv, hlt, heq, -⟩ :=
      binaryExtendedEuclideanAlgorithm_inverts .field (show 0 < 6 by decide) (by decide)
    exact ⟨inv, hinv 513 le_rfl, hlt, heq⟩
  · exact ⟨_, _, rfl, rfl, rfl, rfl, rfl, rfl⟩

end Enclave.P256VERIFY
