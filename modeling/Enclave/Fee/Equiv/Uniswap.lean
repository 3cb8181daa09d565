import Enclave.Fee.Equiv.FullMath
import Enclave.Fee.Uniswap

/-!
# The fee and the spot price

`quote` is the fee as a formula on numbers, which `calculateFee` returns whenever it returns
(`toNat_of_calculateFee`).  The formula takes the price of the pool for the price of the token in
ether, and scales by the token's decimals although a raw price needs no scaling.

So it never charges less than the spot price for a token that is the second of its pool and has at
least 18 decimals (`spot_le_quote`), and for every other token there are pools in which it
does (`never_undercharges_iff`).
-/

namespace Enclave.FeeLogicUniswap

open CustomFullMath

/-! ### The formula -/

/-- The amount at the price after the swap, for a pool with the square root price `s`, the fee
`fee` and the liquidity `l`. -/
def quoteAtPrice (s fee l base : ℕ) : ℕ :=
  base * (s * s / 2 ^ 96 + base * 1000 / (1000 - fee / 1000) * 2 ^ 96 / l) / 2 ^ 96

/-- The fee for a token with `d` decimals. -/
def quote (s fee l d markup markupDenominator base : ℕ) : ℕ :=
  quoteAtPrice s fee l base * 10 ^ d / 10 ^ 18 * markup / markupDenominator * markup / 100

/-- The pool whose price is used. -/
def pricePool (u : UniswapV3) (fl : FeeLogicUniswap) (token : Address) : Address :=
  u.getPool token fl.WETH9 (findOptimalPool u fl token)

section Formula

variable {u : UniswapV3} {fl : FeeLogicUniswap} {token : Address}

theorem toNat_of_amountAtPrice {base amount : Word}
    (h : amountAtPrice u fl token base = .ok amount) :
    0 < (u.liquidity (pricePool u fl token)).toNat ∧
    amount.toNat = quoteAtPrice (u.sqrtPriceX96 (pricePool u fl token)).toNat
      (findOptimalPool u fl token).toNat (u.liquidity (pricePool u fl token)).toNat
      base.toNat := by
  unfold amountAtPrice at h
  obtain ⟨_, -, h⟩ := bind_eq_ok.mp h
  obtain ⟨price, hprice, h⟩ := bind_eq_ok.mp h
  obtain ⟨complement, hcomplement, h⟩ := bind_eq_ok.mp h
  obtain ⟨withFee, hwithFee, h⟩ := bind_eq_ok.mp h
  obtain ⟨impact, himpact, h⟩ := bind_eq_ok.mp h
  obtain ⟨newPrice, hnewPrice, hamount⟩ := bind_eq_ok.mp h
  have hQ96 : Q96.toNat = 2 ^ 96 := rfl
  have hthousand : (1000 : Word).toNat = 1000 := rfl
  obtain ⟨-, hprice⟩ := toNat_of_mulDiv hprice
  obtain ⟨-, hwithFee⟩ := toNat_of_mulDiv hwithFee
  obtain ⟨hliquidity, himpact⟩ := toNat_of_mulDiv himpact
  obtain ⟨-, hamount⟩ := toNat_of_mulDiv hamount
  rw [Word.checkedSub_eq_ok, BitVec.toNat_udiv, hthousand, toNat_toWord (k := 24) (by decide)]
    at hcomplement
  rw [Word.checkedAdd_eq_ok] at hnewPrice
  have hcomplement' : complement.toNat = 1000 - (findOptimalPool u fl token).toNat / 1000 := by
    omega
  rw [toNat_toWord (k := 160) (by decide)] at hprice
  rw [toNat_toWord (k := 128) (by decide)] at himpact hliquidity
  refine ⟨hliquidity, ?_⟩
  rw [hamount, hnewPrice, hprice, himpact, hwithFee, hcomplement', hQ96, hthousand]
  rfl

/-- **What `calculateFee` returns**, for a token other than `WETH9`. -/
theorem toNat_of_calculateFee {gasprice gasUsed v : Word} (hne : token ≠ fl.WETH9)
    (h : calculateFee u fl gasprice token gasUsed = .ok v) :
    ∃ d, u.decimals token = .ok d ∧ 10 ^ d.toNat < 2 ^ 256 ∧
      0 < (u.liquidity (pricePool u fl token)).toNat ∧ 0 < fl.markupDenominator.toNat ∧
      v.toNat = quote (u.sqrtPriceX96 (pricePool u fl token)).toNat
        (findOptimalPool u fl token).toNat (u.liquidity (pricePool u fl token)).toNat d.toNat
        fl.markup.toNat fl.markupDenominator.toNat (gasUsed.toNat * gasprice.toNat) := by
  unfold calculateFee at h
  obtain ⟨base, hbase, h⟩ := bind_eq_ok.mp h
  rw [if_neg hne] at h
  obtain ⟨amountIn, hamountIn, hv⟩ := bind_eq_ok.mp h
  unfold getAmountIn at hamountIn
  obtain ⟨atPrice, hatPrice, h⟩ := bind_eq_ok.mp hamountIn
  obtain ⟨d, hd, h⟩ := bind_eq_ok.mp h
  obtain ⟨unit, hunit, h⟩ := bind_eq_ok.mp h
  obtain ⟨scaled, hscaled, hmarked⟩ := bind_eq_ok.mp h
  have hhundred : (100 : Word).toNat = 100 := rfl
  have hten : (10 : Word).toNat = 10 := rfl
  have heighteen : (1000000000000000000 : Word).toNat = 10 ^ 18 := rfl
  obtain ⟨-, hbase⟩ := toNat_of_mulDiv hbase
  obtain ⟨hliquidity, hatPrice⟩ := toNat_of_amountAtPrice hatPrice
  obtain ⟨-, hscaled⟩ := toNat_of_mulDiv hscaled
  obtain ⟨hdenominator, hmarked⟩ := toNat_of_mulDiv hmarked
  obtain ⟨-, hv⟩ := toNat_of_mulDiv hv
  rw [Word.checkedPow_eq_ok, hten] at hunit
  rw [Word.toNat_one, Nat.div_one] at hbase
  rw [toNat_toWord (k := 24) (by decide)] at hdenominator
  refine ⟨d, hd, by rw [← hunit]; exact unit.isLt, hliquidity, hdenominator, ?_⟩
  rw [hv, hmarked, hscaled, hatPrice, hunit, hbase, hhundred, heighteen,
    toNat_toWord (k := 24) (by decide), toNat_toWord (k := 24) (by decide)]
  rfl

end Formula

/-! ### The spot price -/

/-- The value in raw units of `token` of `base` wei of `WETH9`, at the price of a pool with the
square root price `s`: the price is the second token's per unit of the first, and the first token is
the one with the lower address. -/
def spotValue (WETH9 token : Address) (s base : ℕ) : ℕ :=
  if WETH9.toNat < token.toNat then base * (s * s) / 2 ^ 192 else base * 2 ^ 192 / (s * s)

theorem ne_of_toNat_ne {a b : Address} (h : a.toNat ≠ b.toNat) : a ≠ b :=
  fun heq => h (congrArg BitVec.toNat heq)

theorem le_mul_div {d m : ℕ} (hd : 0 < d) (h : d ≤ m) (x : ℕ) : x ≤ x * m / d :=
  (Nat.le_div_iff_mul_le hd).mpr (Nat.mul_le_mul_left x h)

/-- The price after the swap makes up for the rounding of the price: the loss is at most one. -/
theorem spot_le_quoteAtPrice {s fee l base : ℕ} (hfee : fee < 1000000) (hl : 0 < l)
    (hl' : l < 2 ^ 128) : base * (s * s) / 2 ^ 192 ≤ quoteAtPrice s fee l base + 1 := by
  unfold quoteAtPrice
  set P := s * s / 2 ^ 96 with hP
  set I := base * 1000 / (1000 - fee / 1000) * 2 ^ 96 / l with hI
  have hprice : s * s ≤ (P + 1) * 2 ^ 96 := by
    have hmod := Nat.div_add_mod (s * s) (2 ^ 96)
    have hlt := Nat.mod_lt (s * s) (Nat.two_pow_pos 96)
    rw [← hP] at hmod
    omega
  have hsplit : base * (s * s) / 2 ^ 192 ≤ base * (P + 1) / 2 ^ 96 := by
    calc base * (s * s) / 2 ^ 192 ≤ base * (P + 1) * 2 ^ 96 / (2 ^ 96 * 2 ^ 96) := by
          apply Nat.div_le_div_right
          rw [Nat.mul_assoc]
          exact Nat.mul_le_mul_left base hprice
      _ = base * (P + 1) / 2 ^ 96 := Nat.mul_div_mul_right _ _ (Nat.two_pow_pos 96)
  by_cases hbase : base < 2 ^ 96
  · have hround : base * (P + 1) ≤ base * (P + I) + 2 ^ 96 := by
      rw [Nat.mul_add, Nat.mul_add]
      omega
    calc base * (s * s) / 2 ^ 192 ≤ base * (P + 1) / 2 ^ 96 := hsplit
      _ ≤ (base * (P + I) + 2 ^ 96) / 2 ^ 96 := Nat.div_le_div_right hround
      _ = base * (P + I) / 2 ^ 96 + 1 := Nat.add_div_right _ (Nat.two_pow_pos 96)
  · -- a large amount moves the price by at least one
    have himpact : 1 ≤ I := by
      have hgross : base ≤ base * 1000 / (1000 - fee / 1000) :=
        le_mul_div (by omega) (by omega) base
      rw [hI, Nat.le_div_iff_mul_le hl, Nat.one_mul]
      calc l ≤ 2 ^ 96 * 2 ^ 96 := by omega
        _ ≤ base * 1000 / (1000 - fee / 1000) * 2 ^ 96 :=
          Nat.mul_le_mul_right _ (by omega)
    calc base * (s * s) / 2 ^ 192 ≤ base * (P + 1) / 2 ^ 96 := hsplit
      _ ≤ base * (P + I) / 2 ^ 96 :=
        Nat.div_le_div_right (Nat.mul_le_mul_left base (by omega))
      _ ≤ base * (P + I) / 2 ^ 96 + 1 := Nat.le_succ _

/-- For a token with at least 18 decimals the rest of the formula only adds. -/
theorem quoteAtPrice_le_quote {s fee l d markup markupDenominator base : ℕ} (hd : 18 ≤ d)
    (hmarkup : 100 ≤ markup) (hpos : 0 < markupDenominator) (hle : markupDenominator ≤ markup) :
    quoteAtPrice s fee l base ≤ quote s fee l d markup markupDenominator base := by
  have hunit : 10 ^ 18 ≤ 10 ^ d := Nat.pow_le_pow_right (by norm_num) hd
  unfold quote
  refine (le_mul_div (by norm_num) hunit _).trans ?_
  refine (le_mul_div hpos hle _).trans ?_
  exact le_mul_div (by norm_num) hmarkup _

/-- The fee of a token that stands second in its pool and has at least 18 decimals is not below the
spot price, up to one unit. -/
theorem spot_le_quote {s fee l d markup markupDenominator base : ℕ} (hfee : fee < 1000000)
    (hl : 0 < l) (hl' : l < 2 ^ 128) (hd : 18 ≤ d) (hmarkup : 100 ≤ markup)
    (hpos : 0 < markupDenominator) (hle : markupDenominator ≤ markup) :
    base * (s * s) / 2 ^ 192 ≤ quote s fee l d markup markupDenominator base + 1 :=
  (spot_le_quoteAtPrice hfee hl hl').trans
    (Nat.succ_le_succ (quoteAtPrice_le_quote hd hmarkup hpos hle))

/-- The pools and settings under consideration: a price, liquidity, a fee below one, and markups
that do not reduce the fee. -/
structure Admissible (u : UniswapV3) (fl : FeeLogicUniswap) (token : Address) : Prop where
  price_pos : 0 < (u.sqrtPriceX96 (pricePool u fl token)).toNat
  liquidity_pos : 0 < (u.liquidity (pricePool u fl token)).toNat
  fee_lt : (findOptimalPool u fl token).toNat < 1000000
  markup_ge : 100 ≤ fl.markup.toNat
  denominator_pos : 0 < fl.markupDenominator.toNat
  denominator_le : fl.markupDenominator.toNat ≤ fl.markup.toNat

/-- Whatever the pools, the settings and the amount: a fee that is returned is at least the value of
the base fee at the spot price, up to three units. -/
def NeverUndercharges (WETH9 token : Address) (d : BitVec 8) : Prop :=
  ∀ (u : UniswapV3) (fl : FeeLogicUniswap) (gasprice gasUsed v : Word), fl.WETH9 = WETH9 →
    u.decimals token = .ok d → Admissible u fl token →
    calculateFee u fl gasprice token gasUsed = .ok v →
    spotValue WETH9 token (u.sqrtPriceX96 (pricePool u fl token)).toNat
      (gasUsed.toNat * gasprice.toNat) ≤ v.toNat + 3

/-! ### Pools in which the fee is too low -/

section Samples

/-- One pool for every fee, as deep as a pool can be. -/
def flatPool (s : BitVec 160) (d : BitVec 8) : UniswapV3 where
  getPool _ _ _ := 9
  liquidity _ := BitVec.allOnes 128
  sqrtPriceX96 _ := s
  decimals _ := .ok d

/-- Settings without a markup. -/
def evenMarkup (WETH9 : Address) : FeeLogicUniswap where
  owner := 0
  WETH9 := WETH9
  markup := 100
  markupDenominator := 100
  feeTiers := [100]

variable {WETH9 token : Address} {d : BitVec 8}

theorem findOptimalPool_flat (s : BitVec 160) :
    findOptimalPool (flatPool s d) (evenMarkup WETH9) token = 100 := rfl

/-- Up to here neither the token nor its decimals matter. -/
theorem amountAtPrice_flat (s : BitVec 160) (base : Word) :
    amountAtPrice (flatPool s d) (evenMarkup WETH9) token base
      = amountAtPrice (flatPool s 0) (evenMarkup 0) 1 base := by
  unfold amountAtPrice
  rw [findOptimalPool_flat, findOptimalPool_flat]
  rfl

theorem calculateFee_flat {s : BitVec 160} {base amount : Word} (hne : token ≠ WETH9)
    (hunit : 10 ^ d.toNat < 2 ^ 256)
    (hamount : amountAtPrice (flatPool s 0) (evenMarkup 0) 1 base = .ok amount)
    (hsmall : amount.toNat * 10 ^ d.toNat < 10 ^ 18) :
    calculateFee (flatPool s d) (evenMarkup WETH9) 1 token base = .ok 0 := by
  have hbase : mulDiv base 1 1 = .ok base := by
    rw [mulDiv_eq_ok_iff, Word.toNat_one, Nat.mul_one, Nat.div_one]
    exact ⟨by decide, rfl, Or.inl base.isLt⟩
  have hten : (10 : Word).toNat = 10 := rfl
  have hpow : Word.checkedPow 10 d.toNat = .ok (BitVec.ofNat 256 (10 ^ d.toNat)) := by
    rw [Word.checkedPow_eq_ok, BitVec.toNat_ofNat, Nat.mod_eq_of_lt hunit, hten]
  have hscaled : mulDiv amount (BitVec.ofNat 256 (10 ^ d.toNat)) 1000000000000000000 = .ok 0 := by
    have heighteen : (1000000000000000000 : Word).toNat = 10 ^ 18 := rfl
    rw [mulDiv_eq_ok_iff, BitVec.toNat_ofNat, Nat.mod_eq_of_lt hunit, heighteen, Word.toNat_zero,
      Nat.div_eq_of_lt hsmall]
    exact ⟨by decide, rfl, Or.inl (by omega)⟩
  have hzero : mulDiv 0 100 100 = .ok 0 := by decide
  have hother : token ≠ (evenMarkup WETH9).WETH9 := hne
  have hdecimals : (flatPool s d).decimals token = .ok d := rfl
  have hmarkup : toWord (evenMarkup WETH9).markup = 100 := rfl
  have hdenominator : toWord (evenMarkup WETH9).markupDenominator = 100 := rfl
  unfold calculateFee getAmountIn
  -- the division by `10 ^ 18` leaves nothing, and no markup helps after that
  rw [hbase, ok_bind, if_neg hother, amountAtPrice_flat, hamount, ok_bind, hdecimals, ok_bind, hpow,
    ok_bind, hscaled, ok_bind, hmarkup, hdenominator, hzero, ok_bind, hzero]

theorem admissible_flat {s : BitVec 160} (hs : 0 < s.toNat) :
    Admissible (flatPool s d) (evenMarkup WETH9) token where
  price_pos := hs
  liquidity_pos := by
    rw [show (flatPool s d).liquidity (pricePool (flatPool s d) (evenMarkup WETH9) token)
      = BitVec.allOnes 128 from rfl]
    decide
  fee_lt := by
    rw [findOptimalPool_flat]
    decide
  markup_ge := le_refl 100
  denominator_pos := Nat.zero_lt_succ 99
  denominator_le := le_refl 100

/-- At the lowest price of a pool, one wei costs nothing. -/
theorem amountAtPrice_lowest :
    amountAtPrice (flatPool 4295128739 0) (evenMarkup 0) 1 1 = .ok 0 := by
  rfl

/-- At the price one, five wei cost five units. -/
theorem amountAtPrice_one :
    amountAtPrice (flatPool 0x1000000000000000000000000 0) (evenMarkup 0) 1 5 = .ok 5 := by
  rfl

/-- A token that stands second is undercharged if it has fewer than 18 decimals: five units are
divided by `10 ^ 18` once too often. -/
theorem undercharges_of_second (horder : WETH9.toNat < token.toNat) (hd : d.toNat < 18) :
    ¬NeverUndercharges WETH9 token d := by
  intro h
  have hne : token ≠ WETH9 := ne_of_toNat_ne (by omega)
  have hpow : 10 ^ d.toNat ≤ 10 ^ 17 := Nat.pow_le_pow_right (by decide) (by omega)
  have hsmall : (5 : Word).toNat * 10 ^ d.toNat < 10 ^ 18 := by
    have hfive : (5 : Word).toNat = 5 := rfl
    rw [hfive]
    omega
  have hfee := calculateFee_flat hne (by omega) amountAtPrice_one hsmall
  have hspot := h _ _ _ _ _ rfl rfl (admissible_flat (by decide)) hfee
  rw [spotValue, if_pos horder] at hspot
  have hfive : 5 * 1 * (2 ^ 96 * 2 ^ 96) / 2 ^ 192 ≤ 0 + 3 := hspot
  exact absurd hfive (by decide)

/-- A token that stands first is undercharged if a fee is returned at all: its price is not
inverted. -/
theorem undercharges_of_first (horder : token.toNat < WETH9.toNat) (hd : d.toNat < 78) :
    ¬NeverUndercharges WETH9 token d := by
  intro h
  have hne : token ≠ WETH9 := ne_of_toNat_ne (by omega)
  have hunit : 10 ^ d.toNat < 2 ^ 256 :=
    lt_of_le_of_lt (Nat.pow_le_pow_right (by decide) (by omega : d.toNat ≤ 77)) (by decide)
  have hsmall : (0 : Word).toNat * 10 ^ d.toNat < 10 ^ 18 := by
    rw [Word.toNat_zero, Nat.zero_mul]
    decide
  have hfee := calculateFee_flat hne hunit amountAtPrice_lowest hsmall
  have hspot := h _ _ _ _ _ rfl rfl (admissible_flat (by decide)) hfee
  rw [spotValue, if_neg (by omega)] at hspot
  have hmany : 1 * 1 * 2 ^ 192 / (4295128739 * 4295128739) ≤ 0 + 3 := hspot
  exact absurd hmany (by decide)

end Samples

section Tokens

variable {WETH9 token : Address} {d : BitVec 8}

theorem neverUndercharges_of_second (horder : WETH9.toNat < token.toNat) (hd : 18 ≤ d.toNat) :
    NeverUndercharges WETH9 token d := by
  rintro u fl gasprice gasUsed v rfl hdecimals hadm hfee
  have hne : token ≠ fl.WETH9 := ne_of_toNat_ne (by omega)
  obtain ⟨d', hd', -, hl, hden, hv⟩ := toNat_of_calculateFee hne hfee
  obtain rfl : d = d' := Except.ok.inj (hdecimals.symm.trans hd')
  rw [spotValue, if_pos horder, hv]
  refine (spot_le_quote hadm.fee_lt hl (BitVec.isLt _) hd hadm.markup_ge hden
    hadm.denominator_le).trans ?_
  omega

/-- With 78 decimals the power of ten does not fit a word, and no fee is returned. -/
theorem neverUndercharges_of_overflow (hne : token ≠ WETH9) (hd : 78 ≤ d.toNat) :
    NeverUndercharges WETH9 token d := by
  rintro u fl gasprice gasUsed v rfl hdecimals - hfee
  obtain ⟨d', hd', hunit, -⟩ := toNat_of_calculateFee hne hfee
  obtain rfl : d = d' := Except.ok.inj (hdecimals.symm.trans hd')
  have hpow : 10 ^ 78 ≤ 10 ^ d.toNat := Nat.pow_le_pow_right (by decide) hd
  have hbig : (2 : ℕ) ^ 256 < 10 ^ 78 := by decide
  omega

/-- **For which tokens the fee is never below the spot price**: those that stand second in their
pool and have at least 18 decimals, and those with so many decimals that no fee is ever returned. -/
theorem never_undercharges_iff (hne : token ≠ WETH9) :
    NeverUndercharges WETH9 token d ↔
      (WETH9.toNat < token.toNat ∧ 18 ≤ d.toNat) ∨ 78 ≤ d.toNat := by
  constructor
  · intro h
    by_cases hd : 78 ≤ d.toNat
    · exact Or.inr hd
    · have horder : WETH9.toNat < token.toNat := by
        by_contra hle
        have hdistinct : token.toNat ≠ WETH9.toNat := fun heq => hne (BitVec.eq_of_toNat_eq heq)
        exact undercharges_of_first (by omega) (by omega) h
      have hdecimals : 18 ≤ d.toNat := by
        by_contra hlt
        exact undercharges_of_second horder (by omega) h
      exact Or.inl ⟨horder, hdecimals⟩
  · rintro (⟨horder, hd⟩ | hd)
    · exact neverUndercharges_of_second horder hd
    · exact neverUndercharges_of_overflow hne hd

end Tokens

/-! ### The price of gas -/

/-- In `WETH9` the fee is the product. -/
theorem calculateFee_weth_iff {u : UniswapV3} {fl : FeeLogicUniswap} {gasprice gasUsed r : Word} :
    calculateFee u fl gasprice fl.WETH9 gasUsed = .ok r ↔
      r.toNat = gasUsed.toNat * gasprice.toNat := by
  rw [← mulDiv_one_eq_ok_iff]
  unfold calculateFee
  constructor
  · intro h
    obtain ⟨base, hbase, h⟩ := bind_eq_ok.mp h
    rw [if_pos rfl] at h
    rw [hbase, h]
  · intro h
    rw [h, ok_bind, if_pos rfl]

/-- Where the product is zero, neither of its factors matters. -/
theorem calculateFee_of_product_zero (u : UniswapV3) (fl : FeeLogicUniswap) (token : Address)
    (gasprice gasUsed : Word) (h : gasUsed.toNat * gasprice.toNat = 0) :
    calculateFee u fl gasprice token gasUsed = calculateFee u fl 1 token 0 := by
  have hfree : mulDiv gasUsed gasprice 1 = .ok 0 := by
    rw [mulDiv_one_eq_ok_iff, h, Word.toNat_zero]
  have hzero : mulDiv 0 1 1 = .ok 0 := by
    rw [mulDiv_one_eq_ok_iff, Word.toNat_zero, Nat.zero_mul]
  unfold calculateFee
  rw [hfree, hzero]

/-- In a pool with the price one, a fee is at least the amount. -/
theorem le_quote_of_price_one (fee l base : ℕ) :
    base ≤ quote (2 ^ 96) fee l 18 100 100 base := by
  have hamount : base ≤ quoteAtPrice (2 ^ 96) fee l base := by
    unfold quoteAtPrice
    rw [Nat.mul_div_cancel _ (Nat.two_pow_pos 96), Nat.le_div_iff_mul_le (Nat.two_pow_pos 96)]
    exact Nat.mul_le_mul_left base (Nat.le_add_right _ _)
  exact hamount.trans
    (quoteAtPrice_le_quote (le_refl 18) (le_refl 100) (by decide) (le_refl 100))

/-- The fee in other tokens is the same at every price of gas only for the cost zero. -/
theorem fee_constant_iff {actualGasCost : Word} :
    (∀ (u : UniswapV3) (fl : FeeLogicUniswap) (token : Address), token ≠ fl.WETH9 →
      ∀ gasprice gasprice' : Word, calculateFee u fl gasprice token actualGasCost
        = calculateFee u fl gasprice' token actualGasCost) ↔ actualGasCost = 0 := by
  constructor
  · intro h
    have hne : (1 : Address) ≠ 0 := by decide
    have hfree : calculateFee (flatPool 0x1000000000000000000000000 18) (evenMarkup 0) 1 1 0
        = .ok 0 :=
      calculateFee_flat hne (by decide) (by rfl : amountAtPrice
        (flatPool 0x1000000000000000000000000 0) (evenMarkup 0) 1 0 = .ok 0) (by decide)
    -- the fee is zero where gas is free, and at least the cost where gas costs one
    have hsame := h (flatPool 0x1000000000000000000000000 18) (evenMarkup 0) 1 hne 1 0
    rw [calculateFee_of_product_zero _ _ _ 0 _ (Nat.mul_zero _), hfree] at hsame
    obtain ⟨d, hd, -, -, -, hv⟩ := toNat_of_calculateFee hne hsame
    obtain rfl : 18 = d := Except.ok.inj hd
    rw [Word.toNat_zero, Word.toNat_one, Nat.mul_one] at hv
    have hle := le_quote_of_price_one 100 (2 ^ 128 - 1) actualGasCost.toNat
    have hquote : quote (2 ^ 96) 100 (2 ^ 128 - 1) 18 100 100 actualGasCost.toNat = 0 := hv.symm
    rw [hquote] at hle
    exact Word.toNat_eq_zero.mp (Nat.le_zero.mp hle)
  · rintro rfl u fl token - gasprice gasprice'
    rw [calculateFee_of_product_zero u fl token gasprice 0 (Nat.zero_mul _),
      calculateFee_of_product_zero u fl token gasprice' 0 (Nat.zero_mul _)]

/-! ### Monotonicity -/

section Monotone

variable {u : UniswapV3} {fl : FeeLogicUniswap} {token : Address}

theorem exists_le_of_checkedAdd {x y y' z : Word} (hy : y'.toNat ≤ y.toNat)
    (h : Word.checkedAdd x y = .ok z) :
    ∃ z', Word.checkedAdd x y' = .ok z' ∧ z'.toNat ≤ z.toNat := by
  have hz := z.isLt
  rw [Word.checkedAdd_eq_ok] at h
  have hvalue : (x + y').toNat = x.toNat + y'.toNat := by
    rw [BitVec.toNat_add]
    exact Nat.mod_eq_of_lt (by omega)
  exact ⟨x + y', Word.checkedAdd_eq_ok.mpr hvalue, by omega⟩

/-- A smaller amount has a price wherever a larger one does, and no larger one. -/
theorem exists_le_of_amountAtPrice {base base' amount : Word} (hle : base'.toNat ≤ base.toNat)
    (h : amountAtPrice u fl token base = .ok amount) :
    ∃ amount', amountAtPrice u fl token base' = .ok amount' ∧ amount'.toNat ≤ amount.toNat := by
  unfold amountAtPrice at h
  obtain ⟨_, hpool, h⟩ := bind_eq_ok.mp h
  obtain ⟨price, hprice, h⟩ := bind_eq_ok.mp h
  obtain ⟨complement, hcomplement, h⟩ := bind_eq_ok.mp h
  obtain ⟨withFee, hwithFee, h⟩ := bind_eq_ok.mp h
  obtain ⟨impact, himpact, h⟩ := bind_eq_ok.mp h
  obtain ⟨newPrice, hnewPrice, hamount⟩ := bind_eq_ok.mp h
  -- the amount enters twice: by its impact on the price, and as a factor
  obtain ⟨withFee', hwithFee', hle₁⟩ := exists_le_of_mulDiv_left hle hwithFee
  obtain ⟨impact', himpact', hle₂⟩ := exists_le_of_mulDiv_left hle₁ himpact
  obtain ⟨newPrice', hnewPrice', hle₃⟩ := exists_le_of_checkedAdd hle₂ hnewPrice
  obtain ⟨amount', hamount', hle₄⟩ := exists_le_of_mulDiv hle hle₃ hamount
  refine ⟨amount', ?_, hle₄⟩
  exact bind_eq_ok.mpr ⟨_, hpool, bind_eq_ok.mpr ⟨_, hprice, bind_eq_ok.mpr ⟨_, hcomplement,
    bind_eq_ok.mpr ⟨_, hwithFee', bind_eq_ok.mpr ⟨_, himpact', bind_eq_ok.mpr ⟨_, hnewPrice',
      hamount'⟩⟩⟩⟩⟩⟩

theorem exists_le_of_getAmountIn {base base' amount : Word} (hle : base'.toNat ≤ base.toNat)
    (h : getAmountIn u fl token base = .ok amount) :
    ∃ amount', getAmountIn u fl token base' = .ok amount' ∧ amount'.toNat ≤ amount.toNat := by
  unfold getAmountIn at h ⊢
  obtain ⟨atPrice, hatPrice, h⟩ := bind_eq_ok.mp h
  obtain ⟨d, hd, h⟩ := bind_eq_ok.mp h
  obtain ⟨unit, hunit, h⟩ := bind_eq_ok.mp h
  obtain ⟨scaled, hscaled, hmarked⟩ := bind_eq_ok.mp h
  obtain ⟨atPrice', hatPrice', hle₁⟩ := exists_le_of_amountAtPrice hle hatPrice
  obtain ⟨scaled', hscaled', hle₂⟩ := exists_le_of_mulDiv_left hle₁ hscaled
  obtain ⟨marked', hmarked', hle₃⟩ := exists_le_of_mulDiv_left hle₂ hmarked
  refine ⟨marked', ?_, hle₃⟩
  rw [hatPrice', ok_bind, hd, ok_bind, hunit, ok_bind, hscaled', ok_bind, hmarked']

theorem exists_le_of_calculateFee {gasprice gas gas' fee : Word} (hle : gas'.toNat ≤ gas.toNat)
    (h : calculateFee u fl gasprice token gas = .ok fee) :
    ∃ fee', calculateFee u fl gasprice token gas' = .ok fee' ∧ fee'.toNat ≤ fee.toNat := by
  unfold calculateFee at h ⊢
  obtain ⟨base, hbase, h⟩ := bind_eq_ok.mp h
  obtain ⟨base', hbase', hle₁⟩ := exists_le_of_mulDiv_left hle hbase
  rw [hbase', ok_bind]
  split_ifs at h ⊢ with htoken
  · obtain rfl := Except.ok.inj h
    exact ⟨base', rfl, hle₁⟩
  · obtain ⟨amountIn, hamountIn, hfee⟩ := bind_eq_ok.mp h
    obtain ⟨amountIn', hamountIn', hle₂⟩ := exists_le_of_getAmountIn hle₁ hamountIn
    obtain ⟨fee', hfee', hle₃⟩ := exists_le_of_mulDiv_left hle₂ hfee
    rw [hamountIn', ok_bind]
    exact ⟨fee', hfee', hle₃⟩

/-- The fee over unbounded natural numbers, where nothing can overflow. -/
def exactFee (u : UniswapV3) (fl : FeeLogicUniswap) (token : Address) (gasprice gasUsed : ℕ) : ℕ :=
  if token = fl.WETH9 then gasUsed * gasprice else
    match u.decimals token with
    | .error _ => 0
    | .ok d => quote (u.sqrtPriceX96 (pricePool u fl token)).toNat
        (findOptimalPool u fl token).toNat (u.liquidity (pricePool u fl token)).toNat d.toNat
        fl.markup.toNat fl.markupDenominator.toNat (gasUsed * gasprice)

/-- A fee is the exact one: no overflow is wrapped on the way. -/
theorem toNat_eq_exactFee {gasprice gas fee : Word}
    (h : calculateFee u fl gasprice token gas = .ok fee) :
    fee.toNat = exactFee u fl token gasprice.toNat gas.toNat := by
  unfold exactFee
  split_ifs with htoken
  · subst htoken
    exact calculateFee_weth_iff.mp h
  · obtain ⟨d, hd, -, -, -, hfee⟩ := toNat_of_calculateFee htoken h
    rw [hd]
    exact hfee

/-- **Monotonicity**: where there is a fee for an amount of gas, there is one for every smaller
amount, which is no larger, and both are exact. -/
theorem calculateFee_monotone (u : UniswapV3) (fl : FeeLogicUniswap) (gasprice : Word)
    (token : Address) (gas₁ gas₂ fee₂ : Word) (hle : gas₁.toNat ≤ gas₂.toNat)
    (h : calculateFee u fl gasprice token gas₂ = .ok fee₂) :
    ∃ fee₁, calculateFee u fl gasprice token gas₁ = .ok fee₁ ∧ fee₁.toNat ≤ fee₂.toNat ∧
      fee₁.toNat = exactFee u fl token gasprice.toNat gas₁.toNat ∧
      fee₂.toNat = exactFee u fl token gasprice.toNat gas₂.toNat := by
  obtain ⟨fee₁, hfee₁, hmono⟩ := exists_le_of_calculateFee hle h
  exact ⟨fee₁, hfee₁, hmono, toNat_eq_exactFee hfee₁, toNat_eq_exactFee h⟩

end Monotone

/-! ### A token with six decimals -/

/-- A pool in which one ether costs 2000 of a token with six decimals, which stands second. -/
def sixDecimals : UniswapV3 where
  getPool _ _ _ := 9
  liquidity _ := 10000000000000000000
  sqrtPriceX96 _ := 3543191142285914205922034
  decimals _ := .ok 6

/-- A markup of five percent. -/
def fivePercent : FeeLogicUniswap where
  owner := 0
  WETH9 := 1
  markup := 105
  markupDenominator := 100
  feeTiers := [100, 500, 3000, 10000]

theorem admissible_sixDecimals : Admissible sixDecimals fivePercent 2 where
  price_pos := by decide
  liquidity_pos := by decide
  fee_lt := by decide
  markup_ge := by decide
  denominator_pos := by decide
  denominator_le := by decide

/-- Fifty thousand gas at 20 gwei are two dollars at the spot price, and cost nothing. -/
theorem calculateFee_sixDecimals :
    Admissible sixDecimals fivePercent 2 ∧
    calculateFee sixDecimals fivePercent 20000000000 2 50000 = .ok 0 ∧
    spotValue 1 2 3543191142285914205922034 (50000 * 20000000000) = 1999999 :=
  ⟨admissible_sixDecimals, by rfl, by decide⟩

theorem undercharges_sixDecimals : ¬NeverUndercharges 1 2 6 := by
  have hne : (2 : Address) ≠ 1 := by decide
  rw [never_undercharges_iff hne]
  decide

/-- In that pool, ten thousand times the gas is no longer free. -/
theorem calculateFee_monotone_sixDecimals :
    ∃ fee₁ : Word, calculateFee sixDecimals fivePercent 20000000000 2 50000 = .ok fee₁ ∧
      fee₁.toNat ≤ 11025000 ∧
      fee₁.toNat = exactFee sixDecimals fivePercent 2 20000000000 50000 ∧
      11025000 = exactFee sixDecimals fivePercent 2 20000000000 500000000 :=
  calculateFee_monotone sixDecimals fivePercent 20000000000 2 50000 500000000 11025000 (by decide)
    (by rfl)

end Enclave.FeeLogicUniswap
