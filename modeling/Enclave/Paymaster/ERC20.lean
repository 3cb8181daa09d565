import Enclave.Evm.Word
import Mathlib.Logic.Function.Basic

/-!
# Tokens

What the paymasters call of a token: `TokenContracts` is any behaviour of the token contracts, with
a ledger of any type; `openZeppelin` is that of `ERC20` in version 4.9.6.
-/

namespace Enclave

/-- The token contracts, over the ledgers `τ` that they keep.  The first address is the token's, the
second one the caller's. -/
structure TokenContracts (τ : Type) where
  transfer : Address → Address → Address → Word → τ → Result (Bool × τ)
  transferFrom : Address → Address → Address → Address → Word → τ → Result (Bool × τ)

/-! ### OpenZeppelin `ERC20` -/

/-- The balances and the allowances of one token. -/
structure ERC20 where
  balances : Address → Word
  allowances : Address → Address → Word

namespace ERC20

/-- `_transfer`. -/
def transferBalance (t : ERC20) (sender recipient : Address) (amount : Word) : Result ERC20 := do
  require (sender ≠ 0) "ERC20: transfer from the zero address"
  require (recipient ≠ 0) "ERC20: transfer to the zero address"
  require (amount.toNat ≤ (t.balances sender).toNat) "ERC20: transfer amount exceeds balance"
  let debited := Function.update t.balances sender (t.balances sender - amount)
  .ok { t with balances := Function.update debited recipient (debited recipient + amount) }

/-- `_approve`. -/
def approve (t : ERC20) (owner spender : Address) (amount : Word) : Result ERC20 := do
  require (owner ≠ 0) "ERC20: approve from the zero address"
  require (spender ≠ 0) "ERC20: approve to the zero address"
  .ok { t with allowances :=
    Function.update t.allowances owner (Function.update (t.allowances owner) spender amount) }

/-- `_spendAllowance`: the largest allowance is never used up. -/
def spendAllowance (t : ERC20) (owner spender : Address) (amount : Word) : Result ERC20 :=
  let current := t.allowances owner spender
  if current.toNat = 2 ^ 256 - 1 then .ok t else do
    require (amount.toNat ≤ current.toNat) "ERC20: insufficient allowance"
    t.approve owner spender (current - amount)

/-- `increaseAllowance`, called by `caller`. -/
def increaseAllowance (t : ERC20) (caller spender : Address) (addedValue : Word) :
    Result ERC20 := do
  let next ← Word.checkedAdd (t.allowances caller spender) addedValue
  t.approve caller spender next

/-- `decreaseAllowance`, called by `caller`. -/
def decreaseAllowance (t : ERC20) (caller spender : Address) (subtractedValue : Word) :
    Result ERC20 := do
  let current := t.allowances caller spender
  require (subtractedValue.toNat ≤ current.toNat) "ERC20: decreased allowance below zero"
  t.approve caller spender (current - subtractedValue)

/-- `transfer`, called by `caller`. -/
def transfer (t : ERC20) (caller recipient : Address) (amount : Word) : Result (Bool × ERC20) := do
  let t ← t.transferBalance caller recipient amount
  .ok (true, t)

/-- `transferFrom`, called by `caller`. -/
def transferFrom (t : ERC20) (caller sender recipient : Address) (amount : Word) :
    Result (Bool × ERC20) := do
  let t ← t.spendAllowance sender caller amount
  let t ← t.transferBalance sender recipient amount
  .ok (true, t)

end ERC20

/-- Every token is an OpenZeppelin `ERC20`. -/
def openZeppelin : TokenContracts (Address → ERC20) where
  transfer token caller recipient amount ledger := do
    let (done, t) ← (ledger token).transfer caller recipient amount
    .ok (done, Function.update ledger token t)
  transferFrom token caller sender recipient amount ledger := do
    let (done, t) ← (ledger token).transferFrom caller sender recipient amount
    .ok (done, Function.update ledger token t)

end Enclave
