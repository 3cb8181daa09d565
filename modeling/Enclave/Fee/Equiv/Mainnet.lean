import Enclave.Fee.Mainnet
import Mathlib.Algebra.Order.Field.Rat
import Mathlib.Data.Nat.Cast.Order.Field
import Mathlib.Tactic.Linarith
import Mathlib.Tactic.Positivity

/-!
# The fee at the answer of a price feed

`calculateFee` returns the cost at the answer, rounded down, and a markup of that, rounded down
(`calculateFee_eq_ok_iff`).  It takes the bits of the signed answer for an unsigned price.  For a
positive answer that is the price, and the two roundings cost less than two units
(`fair_of_pos`); an answer that is not positive is charged for too, unless the product overflows or
nothing is returned for another reason (`fair_iff`).
-/

namespace Enclave.FeeLogicMainnet

/-- The cost at the unsigned answer, rounded down. -/
def flooredCost (answer : BitVec 256) (d : BitVec 8) (g : Word) : ℕ :=
  g.toNat * answer.toNat / 10 ^ (12 + d.toNat)

/-- The unit of the price fits a word up to 65 decimals. -/
theorem ten_pow_lt_iff {k : ℕ} : 10 ^ (12 + k) < 2 ^ 256 ↔ k < 66 := by
  constructor
  · intro h
    by_contra hk
    have hle : 10 ^ 78 ≤ 10 ^ (12 + k) := Nat.pow_le_pow_right (by norm_num) (by omega)
    have hbig : 2 ^ 256 < 10 ^ 78 := by norm_num
    omega
  · intro hk
    have hle : 10 ^ (12 + k) ≤ 10 ^ 77 := Nat.pow_le_pow_right (by norm_num) (by omega)
    exact lt_of_le_of_lt hle (by norm_num)

/-- A cost after the division leaves room for the markup. -/
theorem cost_add_markup_lt {product k m : ℕ} (h : product < 2 ^ 256) :
    product / 10 ^ (12 + k) + product / 10 ^ (12 + k) / m < 2 ^ 256 := by
  have hunit : 2 ≤ 10 ^ (12 + k) :=
    le_trans (by norm_num : 2 ≤ 10 ^ 12) (Nat.pow_le_pow_right (by norm_num) (by omega))
  have hhalf : product / 10 ^ (12 + k) ≤ product / 2 := Nat.div_le_div_left hunit (by norm_num)
  have hmarkup : product / 10 ^ (12 + k) / m ≤ product / 10 ^ (12 + k) := Nat.div_le_self _ _
  omega

section Feed

variable {feeds : Address → DataFeed} {fl : FeeLogicMainnet} {token : Address} {answer : BitVec 256}
  {d : BitVec 8} {g : Word}

/-- **What `calculateFee` returns**, and when. -/
theorem calculateFee_eq_ok_iff (hanswer : (feeds fl.dataFeed).latestAnswer = .ok answer)
    (hd : (feeds fl.dataFeed).decimals = .ok d) {f : Word} :
    calculateFee feeds fl token g = .ok f ↔
      g.toNat * answer.toNat < 2 ^ 256 ∧ d.toNat < 66 ∧ fl.markupDenominator ≠ 0 ∧
        f.toNat = flooredCost answer d g
          + flooredCost answer d g / fl.markupDenominator.toNat := by
  have hten : (10 : Word).toNat = 10 := rfl
  have hsix : (6 : Word).toNat = 6 := rfl
  have hether : ETH_DECIMALS.toNat = 18 := rfl
  unfold calculateFee getChainlinkDataFeedLatestAnswer
  rw [hanswer, ok_bind, hd]
  simp only [bind_eq_ok, Word.checkedMul_eq_ok, Word.checkedAdd_eq_ok, Word.checkedSub_eq_ok,
    Word.checkedPow_eq_ok, Word.checkedDiv_eq_ok, Except.ok.injEq, exists_eq_left',
    toNat_toWord (by decide : 8 ≤ 256), hten, hsix, hether]
  constructor
  · rintro ⟨product, hproduct, sum, hsum, exponent, hexponent, unit, hunit, cost, ⟨-, hcost⟩,
      markup, ⟨hm, hmarkup⟩, hf⟩
    have hexp : exponent.toNat = 12 + d.toNat := by omega
    rw [hexp] at hunit
    rw [hproduct, hunit] at hcost
    refine ⟨hproduct ▸ product.isLt, ten_pow_lt_iff.mp (hunit ▸ unit.isLt), hm, ?_⟩
    rw [hf, hmarkup, hcost, flooredCost]
  · rintro ⟨hproduct, hd66, hm, hf⟩
    have hlt := d.isLt
    have hword : ∀ {v : ℕ}, v < 2 ^ 256 → (BitVec.ofNat 256 v).toNat = v := fun hv => by
      rw [BitVec.toNat_ofNat, Nat.mod_eq_of_lt hv]
    have hunit : 10 ^ (12 + d.toNat) < 2 ^ 256 := ten_pow_lt_iff.mpr hd66
    have hne : BitVec.ofNat 256 (10 ^ (12 + d.toNat)) ≠ 0 := by
      rw [Ne, ← Word.toNat_eq_zero, hword hunit]
      positivity
    have hcost : flooredCost answer d g < 2 ^ 256 := lt_of_le_of_lt (Nat.div_le_self _ _) hproduct
    have hmarkup : flooredCost answer d g / fl.markupDenominator.toNat < 2 ^ 256 :=
      lt_of_le_of_lt (Nat.div_le_self _ _) hcost
    have hsum : (BitVec.ofNat 256 (18 + d.toNat)).toNat = 18 + d.toNat := hword (by omega)
    have hexp : (BitVec.ofNat 256 (12 + d.toNat)).toNat = 12 + d.toNat := hword (by omega)
    refine ⟨_, hword hproduct, _, hsum, BitVec.ofNat 256 (12 + d.toNat), by omega,
      BitVec.ofNat 256 (10 ^ (12 + d.toNat)), by rw [hexp, hword hunit],
      BitVec.ofNat 256 (flooredCost answer d g), ⟨hne, ?_⟩,
      BitVec.ofNat 256 (flooredCost answer d g / fl.markupDenominator.toNat), ⟨hm, ?_⟩, ?_⟩
    · rw [hword hcost, hword hproduct, hword hunit]
      rfl
    · rw [hword hmarkup, hword hcost]
    · rw [hword hcost, hword hmarkup, hf]

/-! ### Fair fees -/

/-- The exact cost in the token's units. -/
def exactCost (answer : BitVec 256) (d : BitVec 8) (g : Word) : ℚ :=
  g.toNat * answer.toInt / 10 ^ (12 + d.toNat)

/-- The answer is positive, and the fee is the exact cost with the markup, less at most what two
roundings take. -/
structure Fair (answer : BitVec 256) (d : BitVec 8) (m g f : Word) : Prop where
  positive : 0 < answer.toInt
  lower : exactCost answer d g * (1 + 1 / m.toNat) - 2 - 1 / m.toNat < f.toNat
  upper : (f.toNat : ℚ) ≤ exactCost answer d g * (1 + 1 / m.toNat)

/-- Two roundings of a cost and its markup. -/
theorem fair_of_pos {m f : Word} (hpos : 0 < answer.toInt) (hm : m ≠ 0)
    (hf : f.toNat = flooredCost answer d g + flooredCost answer d g / m.toNat) :
    Fair answer d m g f := by
  have hm0 : 0 < m.toNat := Nat.pos_of_ne_zero (mt Word.toNat_eq_zero.mp hm)
  have hmq : (0 : ℚ) < m.toNat := by exact_mod_cast hm0
  set c := flooredCost answer d g with hc
  -- a positive answer is its own unsigned value
  have hbits : answer.toInt = answer.toNat := by
    rw [BitVec.toInt_eq_toNat_cond] at hpos ⊢
    split_ifs at hpos ⊢ with hsign
    · rfl
    · have := answer.isLt
      omega
  have hcost : exactCost answer d g
      = ((g.toNat * answer.toNat : ℕ) : ℚ) / ((10 ^ (12 + d.toNat) : ℕ) : ℚ) := by
    rw [exactCost, hbits]
    push_cast
    rfl
  have hle : (c : ℚ) ≤ exactCost answer d g := by
    rw [hcost, hc, flooredCost]
    exact Nat.cast_div_le
  have hlt : exactCost answer d g < c + 1 := by
    rw [hcost, hc, flooredCost, div_lt_iff₀ (by positivity)]
    exact_mod_cast Nat.lt_mul_of_div_lt (Nat.lt_succ_self _) (by positivity)
  have hfq : (f.toNat : ℚ) = c + ((c / m.toNat : ℕ) : ℚ) := by exact_mod_cast hf
  have hfloor : ((c / m.toNat : ℕ) : ℚ) ≤ c / m.toNat := Nat.cast_div_le
  have hceil : (c : ℚ) / m.toNat < ((c / m.toNat : ℕ) : ℚ) + 1 := by
    rw [div_lt_iff₀ hmq]
    exact_mod_cast Nat.lt_mul_of_div_lt (Nat.lt_succ_self _) hm0
  have hdown : (c : ℚ) / m.toNat ≤ exactCost answer d g / m.toNat := by gcongr
  have hup : exactCost answer d g / m.toNat < c / m.toNat + 1 / m.toNat := by
    rw [← add_div]
    gcongr
  have hexpand : exactCost answer d g * (1 + 1 / m.toNat)
      = exactCost answer d g + exactCost answer d g / m.toNat := by ring
  refine ⟨hpos, ?_, ?_⟩
  · rw [hexpand, hfq]
    linarith
  · rw [hexpand, hfq]
    linarith

/-- An answer that is not positive overflows exactly if it is negative and the cost is at least
two. -/
theorem overflows_iff (hneg : answer.toInt ≤ 0) :
    2 ^ 256 ≤ g.toNat * answer.toNat ↔ answer.toInt < 0 ∧ 2 ≤ g.toNat := by
  have hlt := answer.isLt
  rw [BitVec.toInt_eq_toNat_cond] at hneg ⊢
  split_ifs at hneg ⊢ with hsign
  · have hzero : answer.toNat = 0 := by omega
    rw [hzero, Nat.mul_zero]
    constructor
    · intro h
      norm_num at h
    · rintro ⟨h, -⟩
      omega
  · constructor
    · intro h
      refine ⟨by omega, ?_⟩
      by_contra hg
      have hle : g.toNat * answer.toNat ≤ 1 * answer.toNat := Nat.mul_le_mul_right _ (by omega)
      omega
    · rintro ⟨-, hg⟩
      have hle : 2 * answer.toNat ≤ g.toNat * answer.toNat := Nat.mul_le_mul_right _ hg
      omega

/-- **Where the fee is fair**: for positive answers, and where nothing is returned: without a
markup denominator, with more than 65 decimals, and for negative answers to a cost of at least
two. -/
theorem fair_iff (hanswer : (feeds fl.dataFeed).latestAnswer = .ok answer)
    (hd : (feeds fl.dataFeed).decimals = .ok d) :
    (∀ f, calculateFee feeds fl token g = .ok f → Fair answer d fl.markupDenominator g f) ↔
      0 < answer.toInt ∨ fl.markupDenominator = 0 ∨ 66 ≤ d.toNat ∨
        (answer.toInt < 0 ∧ 2 ≤ g.toNat) := by
  constructor
  · intro h
    by_contra hnot
    push Not at hnot
    obtain ⟨hneg, hm, hd66, hsmall⟩ := hnot
    have hproduct : g.toNat * answer.toNat < 2 ^ 256 := by
      by_contra hover
      obtain ⟨hlt, hg⟩ := (overflows_iff hneg).mp (not_lt.mp hover)
      exact absurd (hsmall hlt) (not_lt.mpr hg)
    -- a fee is returned, and for an answer that is not positive
    have hfee : (BitVec.ofNat 256 (flooredCost answer d g
        + flooredCost answer d g / fl.markupDenominator.toNat)).toNat
        = flooredCost answer d g + flooredCost answer d g / fl.markupDenominator.toNat := by
      rw [BitVec.toNat_ofNat]
      exact Nat.mod_eq_of_lt (cost_add_markup_lt hproduct)
    have hfair := h _ ((calculateFee_eq_ok_iff hanswer hd).mpr ⟨hproduct, hd66, hm, hfee⟩)
    exact absurd hfair.positive (not_lt.mpr hneg)
  · intro h f hf
    obtain ⟨hproduct, hd66, hm, hvalue⟩ := (calculateFee_eq_ok_iff hanswer hd).mp hf
    rcases h with hpos | hm0 | hlarge | hover
    · exact fair_of_pos hpos hm hvalue
    · exact absurd hm0 hm
    · omega
    · have hneg := (overflows_iff hover.1.le).mpr hover
      omega

end Feed

/-! ### Answers that are not positive -/

/-- A feed with eight decimals. -/
def feedOf (answer : BitVec 256) : Address → DataFeed := fun _ => ⟨.ok answer, .ok 8⟩

/-- A markup of ten percent. -/
def tenPercent : FeeLogicMainnet := deploy 1 2 10

/-- At the answer zero a cost of `10 ** 15` wei is free, and at the answer `-1` one wei costs more
than `10 ** 57` units. -/
theorem calculateFee_not_positive :
    calculateFee (feedOf 0) tenPercent 3 1000000000000000 = .ok 0 ∧
    ¬Fair 0 8 10 1000000000000000 0 ∧
    (calculateFee (feedOf (-1)) tenPercent 3 1).map (fun f => decide (10 ^ 57 < f.toNat))
      = .ok true := by
  refine ⟨by rfl, fun h => ?_, by rfl⟩
  exact absurd h.positive (by decide)

/-- At 2500 dollars the fee for `10 ** 15` wei is fair. -/
theorem fair_at_2500 :
    calculateFee (feedOf 250000000000) tenPercent 3 1000000000000000 = .ok 2750000 ∧
    Fair 250000000000 8 10 1000000000000000 2750000 := by
  have hfee : calculateFee (feedOf 250000000000) tenPercent 3 1000000000000000 = .ok 2750000 := by
    rfl
  have hfair := (@fair_iff (feedOf 250000000000) tenPercent 3 250000000000 8 1000000000000000
    rfl rfl).mpr (Or.inl (by decide))
  exact ⟨hfee, hfair 2750000 hfee⟩

end Enclave.FeeLogicMainnet
