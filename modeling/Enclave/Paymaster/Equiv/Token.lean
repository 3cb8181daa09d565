import Enclave.Fee.Equiv.Uniswap
import Enclave.Paymaster.Equiv.ERC20
import Enclave.Paymaster.Token

/-!
# The unit of `actualGasCost`

The paymaster hands the cost of an operation in wei to the fee logic, which takes it for an amount
of gas and multiplies it by the price of gas once more.  So the charge in `WETH9` is the cost only
for the cost zero or the price one (`charge_weth_iff`), and the fee in any other token varies with
the price of gas for every cost but zero (`FeeLogicUniswap.fee_constant_iff`).
-/

namespace Enclave

namespace TokenPaymaster

open Paymaster
open MultiTokenPaymaster (PostOpMode)

section Charge

variable {τ : Type} {tokens : TokenContracts τ} {balanceOf : τ → Address → Word} {site : Site}
  {s : State} {u : UniswapV3} {fl : FeeLogicUniswap}

/-- `_postOp` in a transaction with the gas price `gasprice`, where the fee logic is
`EnclaveFeeLogicUniswap`. -/
def postOpUniswap (tokens : TokenContracts τ) (site : Site) (u : UniswapV3) (fl : FeeLogicUniswap)
    (gasprice : Word) (mode : PostOpMode) (context : Bytes) (actualGasCost : Word) (s : State)
    (ledger : τ) : Result τ :=
  postOp tokens site (fun _ => FeeLogicUniswap.calculateFee u fl gasprice) mode context
    actualGasCost s ledger

/-- What `_postOp` does with the context of a sender. -/
theorem postOpUniswap_eq_ok_iff {gasprice actualGasCost : Word} {mode : PostOpMode}
    {sender : Address} {ledger ledger' : τ} :
    postOpUniswap tokens site u fl gasprice mode (abiEncode [addressValue sender]) actualGasCost s
        ledger = .ok ledger' ↔
      ∃ charge, FeeLogicUniswap.calculateFee u fl gasprice s.paymentToken actualGasCost
          = .ok charge ∧
        tokens.transferFrom s.paymentToken site.this sender site.this charge ledger
          = .ok (true, ledger') := by
  have hsender : abiDecodeAddress (abiEncode [addressValue sender]) 0 = .ok sender :=
    abiDecodeAddress_encode sender
  unfold postOpUniswap postOp
  rw [hsender, ok_bind]
  beta_reduce
  constructor
  · intro h
    obtain ⟨charge, hcharge, h⟩ := bind_eq_ok.mp h
    obtain ⟨⟨paid, moved⟩, htransfer, h⟩ := bind_eq_ok.mp h
    obtain ⟨_, hpaid, h⟩ := bind_eq_ok.mp h
    rw [require_eq_ok] at hpaid
    cases h
    rw [hpaid] at htransfer
    exact ⟨charge, hcharge, htransfer⟩
  · rintro ⟨charge, hcharge, htransfer⟩
    rw [hcharge, ok_bind, htransfer, ok_bind]
    rfl

/-- The sender pays exactly the cost of the operation. -/
def ChargesExactly (tokens : TokenContracts τ) (balanceOf : τ → Address → Word) (site : Site)
    (u : UniswapV3) (fl : FeeLogicUniswap) (gasprice : Word) (mode : PostOpMode) (sender : Address)
    (actualGasCost : Word) (s : State) (ledger : τ) : Prop :=
  ∃ ledger', postOpUniswap tokens site u fl gasprice mode (abiEncode [addressValue sender])
      actualGasCost s ledger = .ok ledger' ∧
    (balanceOf ledger' sender).toNat + actualGasCost.toNat = (balanceOf ledger sender).toNat

/-- A sender who can pay the cost in `WETH9` pays it exactly where the cost is zero or the price of
gas is one. -/
theorem charge_weth_iff (htoken : s.paymentToken = fl.WETH9)
    (hmoves : Moves tokens balanceOf fl.WETH9) {gasprice actualGasCost : Word} {mode : PostOpMode}
    {sender : Address} {ledger : τ} (hsender : sender ≠ site.this)
    (hfunds : ∃ ledger', tokens.transferFrom fl.WETH9 site.this sender site.this actualGasCost
      ledger = .ok (true, ledger')) :
    ChargesExactly tokens balanceOf site u fl gasprice mode sender actualGasCost s ledger ↔
      actualGasCost = 0 ∨ gasprice = 1 := by
  have hproduct : actualGasCost.toNat = actualGasCost.toNat * gasprice.toNat ↔
      actualGasCost = 0 ∨ gasprice = 1 := by
    constructor
    · intro h
      by_cases hcost : actualGasCost.toNat = 0
      · exact Or.inl (Word.toNat_eq_zero.mp hcost)
      · have hone : gasprice.toNat = 1 := (Nat.mul_eq_left hcost).mp h.symm
        exact Or.inr (BitVec.eq_of_toNat_eq hone)
    · rintro (rfl | rfl)
      · exact (Nat.zero_mul _).symm
      · exact (Nat.mul_one _).symm
  unfold ChargesExactly
  constructor
  · rintro ⟨ledger', hpost, hexact⟩
    obtain ⟨charge, hcharge, htransfer⟩ := postOpUniswap_eq_ok_iff.mp hpost
    rw [htoken] at hcharge htransfer
    rw [FeeLogicUniswap.calculateFee_weth_iff] at hcharge
    -- what was taken is the product, what should be taken is its first factor
    have hmoved := hmoves.moved hsender htransfer
    exact hproduct.mp (by omega)
  · intro hcond
    obtain ⟨ledger', htransfer⟩ := hfunds
    refine ⟨ledger', postOpUniswap_eq_ok_iff.mpr ⟨actualGasCost, ?_, ?_⟩,
      hmoves.moved hsender htransfer⟩
    · rw [htoken, FeeLogicUniswap.calculateFee_weth_iff]
      exact hproduct.mpr hcond
    · rw [htoken]
      exact htransfer

/-- **The unit of the cost**: with `WETH9` the charge is the cost only where the cost is zero or the
price of gas is one, and with other tokens the fee is independent of the price of gas only for the
cost zero. -/
theorem gas_cost_unit_iff (htoken : s.paymentToken = fl.WETH9)
    (hmoves : Moves tokens balanceOf fl.WETH9) :
    (∀ (gasprice actualGasCost : Word) (mode : PostOpMode) (sender : Address) (ledger : τ),
      sender ≠ site.this →
      (∃ ledger', tokens.transferFrom fl.WETH9 site.this sender site.this actualGasCost ledger
        = .ok (true, ledger')) →
      (ChargesExactly tokens balanceOf site u fl gasprice mode sender actualGasCost s ledger ↔
        actualGasCost = 0 ∨ gasprice = 1)) ∧
    (∀ actualGasCost : Word,
      (∀ (u : UniswapV3) (fl : FeeLogicUniswap) (token : Address), token ≠ fl.WETH9 →
        ∀ gasprice gasprice' : Word,
          FeeLogicUniswap.calculateFee u fl gasprice token actualGasCost
            = FeeLogicUniswap.calculateFee u fl gasprice' token actualGasCost) ↔
      actualGasCost = 0) :=
  ⟨fun _ _ _ _ _ hsender hfunds => charge_weth_iff htoken hmoves hsender hfunds,
    fun _ => FeeLogicUniswap.fee_constant_iff⟩

end Charge

/-! ### A charge at 20 gwei -/

/-- The paymaster at address 9. -/
def tokenSite : Site where
  this := 9
  chainid := 1
  entryPoint := 7
  verifyingSigner := 8
  ecrecover _ _ _ _ := 0

/-- A paymaster that is paid in the token at address 1, which is the `WETH9` of the fee logic. -/
def wethPaymaster : State := deploy 8 1 2

/-- The sender 5 holds one ether and has approved the paymaster. -/
def wethLedger : Address → ERC20 := fun _ =>
  ⟨fun a => if a = 5 then 1000000000000000000 else 0,
    fun a b => if a = 5 ∧ b = 9 then 1000000000000000000 else 0⟩

/-- An operation that cost 1000 wei is charged 20000 gwei. -/
theorem charge_at_twenty_gwei :
    (postOpUniswap openZeppelin tokenSite FeeLogicUniswap.sixDecimals FeeLogicUniswap.fivePercent
      20000000000 .opSucceeded (abiEncode [addressValue 5]) 1000 wethPaymaster wethLedger).map
        (fun ledger => (ledger 1).balances 5) = .ok (1000000000000000000 - 20000000000000) := by
  rfl

theorem not_chargesExactly_at_twenty_gwei :
    ¬ChargesExactly openZeppelin (fun ledger a => (ledger 1).balances a) tokenSite
      FeeLogicUniswap.sixDecimals FeeLogicUniswap.fivePercent 20000000000 .opSucceeded 5 1000
      wethPaymaster wethLedger := by
  have hfunds : ∃ ledger', openZeppelin.transferFrom 1 9 5 9 1000 wethLedger
      = .ok (true, ledger') := ⟨_, rfl⟩
  have hunit := @gas_cost_unit_iff _ openZeppelin (fun ledger a => (ledger 1).balances a) tokenSite
    wethPaymaster FeeLogicUniswap.sixDecimals FeeLogicUniswap.fivePercent rfl (moves_openZeppelin 1)
  rw [hunit.1 20000000000 1000 .opSucceeded 5 wethLedger (by decide) hfunds]
  decide

end TokenPaymaster

end Enclave
