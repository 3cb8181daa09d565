import Enclave.Fee.Uniswap
import Enclave.Order.Scan
import Mathlib.Data.Prod.Lex

/-!
# `findOptimalPool` finds the deepest pool

The loop keeps the pool of the largest liquidity, and among equals the one of the lowest fee: its
state is the lexicographically largest pair of a liquidity and a fee, with the fees in reverse
order.  `rank_foldl_visitTier` says that the loop is a `scanMax` for this order.  It starts with a
pool of liquidity and fee zero, which ranks above all pools without liquidity and below all others,
so that it is the one that is left when no pool has liquidity.
-/

namespace Enclave.FeeLogicUniswap

open OrderDual

variable {u : UniswapV3} {fl : FeeLogicUniswap} {token : Address}

/-! ### The loop is a scan -/

/-- A liquidity and a fee, as the loop compares them. -/
def rank (liquidity : BitVec 128) (fee : BitVec 24) : ℕ ×ₗ ℕᵒᵈ :=
  toLex (liquidity.toNat, toDual fee.toNat)

theorem rank_le_rank {l l' : BitVec 128} {f f' : BitVec 24} :
    rank l f ≤ rank l' f' ↔ l.toNat < l'.toNat ∨ l.toNat = l'.toNat ∧ f'.toNat ≤ f.toNat :=
  Prod.Lex.toLex_le_toLex

theorem rank_inj {l l' : BitVec 128} {f f' : BitVec 24} (h : rank l f = rank l' f') :
    l = l' ∧ f = f' := by
  have hpair : (l.toNat, toDual f.toNat) = (l'.toNat, toDual f'.toNat) := h
  obtain ⟨hl, hf⟩ := Prod.mk.inj hpair
  exact ⟨BitVec.eq_of_toNat_eq hl, BitVec.eq_of_toNat_eq hf⟩

/-- What the loop has found so far. -/
def Search.rank (s : Search) : ℕ ×ₗ ℕᵒᵈ := FeeLogicUniswap.rank s.bestLiquidity s.bestPool.fee

/-- The tier has a pool. -/
def HasPool (u : UniswapV3) (fl : FeeLogicUniswap) (token : Address) (tier : BitVec 24) : Prop :=
  u.getPool fl.WETH9 token tier ≠ 0

instance decidableHasPool : DecidablePred (HasPool u fl token) :=
  fun _ => inferInstanceAs (Decidable (_ ≠ _))

/-- The liquidity of the pool of a tier. -/
def depth (u : UniswapV3) (fl : FeeLogicUniswap) (token : Address) (tier : BitVec 24) :
    BitVec 128 :=
  u.liquidity (u.getPool fl.WETH9 token tier)

def tierRank (u : UniswapV3) (fl : FeeLogicUniswap) (token : Address) (tier : BitVec 24) :
    ℕ ×ₗ ℕᵒᵈ :=
  rank (depth u fl token tier) tier

/-- One round keeps the larger of the two ranks, if the tier has a pool. -/
theorem rank_visitTier (best : Search) (tier : BitVec 24) :
    (visitTier u fl token best tier).rank
      = if HasPool u fl token tier then max best.rank (tierRank u fl token tier)
        else best.rank := by
  by_cases hpool : HasPool u fl token tier
  · rw [if_pos hpool, visitTier, if_pos (show u.getPool fl.WETH9 token tier ≠ 0 from hpool)]
    dsimp only
    split_ifs with hbetter
    · refine (max_eq_right (rank_le_rank.mpr ?_)).symm
      rcases hbetter with hlt | ⟨heq, hfee⟩
      · exact Or.inl (BitVec.lt_def.mp hlt)
      · exact Or.inr ⟨congrArg BitVec.toNat heq.symm, (BitVec.lt_def.mp hfee).le⟩
    · refine (max_eq_left (rank_le_rank.mpr ?_)).symm
      rw [not_or, not_and, gt_iff_lt, BitVec.lt_def, BitVec.lt_def, ← BitVec.toNat_inj] at hbetter
      show (depth u fl token tier).toNat < _ ∨ (depth u fl token tier).toNat = _ ∧ _
      unfold depth
      omega
  · rw [if_neg hpool, visitTier, if_neg (show ¬u.getPool fl.WETH9 token tier ≠ 0 from hpool)]

/-- The whole loop. -/
theorem rank_foldl_visitTier (tiers : List (BitVec 24)) (best : Search) :
    (tiers.foldl (visitTier u fl token) best).rank
      = scanMax (HasPool u fl token) (tierRank u fl token) best.rank tiers := by
  induction tiers generalizing best with
  | nil => rfl
  | cons tier tiers ih => rw [List.foldl_cons, ih, rank_visitTier]; rfl

/-! ### The deepest pool -/

/-- A listed tier with a pool that no listed pool exceeds in liquidity. -/
structure Deepest (u : UniswapV3) (fl : FeeLogicUniswap) (token : Address) (tier : BitVec 24) :
    Prop where
  mem : tier ∈ fl.feeTiers
  hasPool : HasPool u fl token tier
  le_depth : ∀ t ∈ fl.feeTiers, HasPool u fl token t →
    (depth u fl token t).toNat ≤ (depth u fl token tier).toNat

/-- The rank with which the loop ends. -/
def finalRank (u : UniswapV3) (fl : FeeLogicUniswap) (token : Address) : ℕ ×ₗ ℕᵒᵈ :=
  scanMax (HasPool u fl token) (tierRank u fl token) (rank 0 0) fl.feeTiers

theorem exists_finalRank (u : UniswapV3) (fl : FeeLogicUniswap) (token : Address) :
    ∃ liquidity, finalRank u fl token = rank liquidity (findOptimalPool u fl token) :=
  ⟨_, (rank_foldl_visitTier fl.feeTiers ⟨⟨0, 0, 0⟩, 0⟩).symm⟩

theorem finalRank_mem : finalRank u fl token = rank 0 0 ∨
    ∃ t ∈ fl.feeTiers, HasPool u fl token t ∧ tierRank u fl token t = finalRank u fl token :=
  scanMax_mem fl.feeTiers

theorem tierRank_le_finalRank {tier : BitVec 24} (hmem : tier ∈ fl.feeTiers)
    (hpool : HasPool u fl token tier) : tierRank u fl token tier ≤ finalRank u fl token :=
  ((scanMax_le_iff fl.feeTiers).mp le_rfl).2 tier hmem hpool

/-- With liquidity in some pool, the result is the lowest fee of the deepest pools. -/
theorem findOptimalPool_of_liquidity {tier : BitVec 24} (hmem : tier ∈ fl.feeTiers)
    (hpool : HasPool u fl token tier) (hdepth : 0 < (depth u fl token tier).toNat) :
    Deepest u fl token (findOptimalPool u fl token) ∧
      ∀ t, Deepest u fl token t → (findOptimalPool u fl token).toNat ≤ t.toNat := by
  obtain ⟨liquidity, hfinal⟩ := exists_finalRank u fl token
  have hbound : ∀ t ∈ fl.feeTiers, HasPool u fl token t →
      (depth u fl token t).toNat < liquidity.toNat ∨
        (depth u fl token t).toNat = liquidity.toNat ∧
          (findOptimalPool u fl token).toNat ≤ t.toNat := by
    intro t ht hpool
    rw [← rank_le_rank, ← hfinal]
    exact tierRank_le_finalRank ht hpool
  rcases finalRank_mem with hstart | ⟨t₀, ht₀, hpool₀, hrank⟩
  · -- the start ranks below the tier that has liquidity
    obtain ⟨rfl, -⟩ := rank_inj (hfinal.symm.trans hstart)
    rcases hbound tier hmem hpool with hlt | ⟨heq, -⟩
    · exact absurd hlt (Nat.not_lt_zero _)
    · exact absurd heq hdepth.ne'
  · obtain ⟨rfl, rfl⟩ := rank_inj (hrank.trans hfinal)
    refine ⟨⟨ht₀, hpool₀, fun t ht hpool => ?_⟩, fun t ht => ?_⟩
    · have := hbound t ht hpool
      omega
    · have hle := ht.le_depth _ ht₀ hpool₀
      have := hbound t ht.mem ht.hasPool
      omega

/-- Without liquidity in any pool, the result is the fee with which the loop starts. -/
theorem findOptimalPool_of_no_liquidity
    (h : ∀ t ∈ fl.feeTiers, HasPool u fl token t → depth u fl token t = 0) :
    findOptimalPool u fl token = 0 := by
  obtain ⟨liquidity, hfinal⟩ := exists_finalRank u fl token
  have hstart : rank 0 0 ≤ finalRank u fl token := ((scanMax_le_iff fl.feeTiers).mp le_rfl).1
  rcases finalRank_mem with hrank | ⟨t, ht, hpool, hrank⟩
  · exact (rank_inj (hfinal.symm.trans hrank)).2
  · -- a pool without liquidity does not rank above the start, unless its fee is zero too
    obtain ⟨hliquidity, rfl⟩ := rank_inj (hrank.trans hfinal)
    rw [hfinal, ← hliquidity, h _ ht hpool, rank_le_rank] at hstart
    rcases hstart with hlt | ⟨-, hle⟩
    · exact absurd hlt (lt_irrefl _)
    · exact BitVec.eq_of_toNat_eq (Nat.le_zero.mp hle)

/-- The order of the tiers does not matter, and a tier may stand in the list more than once. -/
theorem findOptimalPool_congr {tiers : List (BitVec 24)} (h : ∀ t, t ∈ tiers ↔ t ∈ fl.feeTiers) :
    findOptimalPool u { fl with feeTiers := tiers } token = findOptimalPool u fl token := by
  obtain ⟨l, hfinal⟩ := exists_finalRank u fl token
  obtain ⟨l', hfinal'⟩ := exists_finalRank u { fl with feeTiers := tiers } token
  have hrank : finalRank u { fl with feeTiers := tiers } token = finalRank u fl token :=
    scanMax_congr h
  exact (rank_inj (hfinal'.symm.trans (hrank.trans hfinal))).2

/-- **`findOptimalPool` finds the deepest pool**: the lowest fee of the listed pools of the largest
liquidity if that is positive, and zero if it is not.  Lists with the same tiers, in any order and
with any repetitions, give the same result. -/
theorem findOptimalPool_deepest (u : UniswapV3) (fl : FeeLogicUniswap) (token : Address) :
    ((∃ t ∈ fl.feeTiers, HasPool u fl token t ∧ 0 < (depth u fl token t).toNat) →
      Deepest u fl token (findOptimalPool u fl token) ∧
        ∀ t, Deepest u fl token t → (findOptimalPool u fl token).toNat ≤ t.toNat) ∧
    ((∀ t ∈ fl.feeTiers, HasPool u fl token t → depth u fl token t = 0) →
      findOptimalPool u fl token = 0) ∧
    ∀ tiers : List (BitVec 24), (∀ t, t ∈ tiers ↔ t ∈ fl.feeTiers) →
      findOptimalPool u { fl with feeTiers := tiers } token = findOptimalPool u fl token := by
  refine ⟨?_, findOptimalPool_of_no_liquidity, fun tiers h => findOptimalPool_congr h⟩
  rintro ⟨t, hmem, hpool, hdepth⟩
  exact findOptimalPool_of_liquidity hmem hpool hdepth

end Enclave.FeeLogicUniswap
