import Enclave.Evm.Journal
import Enclave.Evm.Ownable
import Enclave.Paymaster.ERC20
import Enclave.Paymaster.Verifying

/-!
# `EnclaveSolverPaymaster` and `EnclaveSolverPaymasterV1`

The paymasters that hand tokens to the sender while they validate an operation.  The two contracts
are the same text but for the first argument of the encoding in `getHash`.
-/

namespace Enclave.SolverPaymaster

open Paymaster

/-- The two contracts. -/
inductive Version
  | v0
  | v1
deriving DecidableEq

/-- The first argument of the encoding in `getHash`: the packed operation in the first contract,
the sender alone in the second one. -/
def subject : Version → UserOperation → AbiValue
  | .v0, userOp => .bytes userOp.pack
  | .v1, userOp => addressValue userOp.sender

/-- What `getHash` hashes. -/
def message (v : Version) (site : Site) (senderNonce : Nonces) (userOp : UserOperation)
    (validUntil validAfter : Uint48) (tokenAddress : Address) (amount : Word) : Bytes :=
  abiEncode [subject v userOp, .word site.chainid, addressValue site.this,
    .word (senderNonce userOp.sender), uint48Value validUntil, uint48Value validAfter,
    addressValue tokenAddress, .word amount]

/-- `getHash`. -/
def getHash (v : Version) (site : Site) (senderNonce : Nonces) (userOp : UserOperation)
    (validUntil validAfter : Uint48) (tokenAddress : Address) (amount : Word) : Word :=
  keccak256 (message v site senderNonce userOp validUntil validAfter tokenAddress amount)

/-- `parsePaymasterAndData`: the window, the signature, the token and the amount. -/
def parsePaymasterAndData (paymasterAndData : Bytes) :
    Result (Uint48 × Uint48 × Bytes × Address × Word) := do
  let window ← calldataSlice paymasterAndData 20 84
  let (validUntil, validAfter) ← decodeWindow window
  let signature ← calldataSlice paymasterAndData 84 148
  let token ← calldataSlice paymasterAndData 148 212
  let tokenAddress ← abiDecodeAddress token 0
  let rest ← calldataSlice paymasterAndData 212 paymasterAndData.length
  let amount ← abiDecodeWord rest 0
  .ok (validUntil, validAfter, signature, tokenAddress, amount)

/-- `_validatePaymasterUserOp` for any way to recover a signer from a digest and a signature.  The
payout is a part of the validation. -/
def validateSolverWith {τ : Type} (recover : Word → Bytes → Result Address)
    (tokens : TokenContracts τ) (v : Version) (site : Site) (userOp : UserOperation)
    (senderNonce : Nonces) (ledger : τ) : Result ((Bytes × Word) × Nonces × τ) := do
  let (validUntil, validAfter, signature, tokenAddress, amount) ←
    parsePaymasterAndData userOp.paymasterAndData
  require (signature.length = 64 ∨ signature.length = 65)
    "VerifyingPaymaster: invalid signature length in paymasterAndData"
  let digest := ECDSA.toEthSignedMessageHash
    (getHash v site senderNonce userOp validUntil validAfter tokenAddress amount)
  let senderNonce ← bumpNonce senderNonce userOp.sender
  let signer ← recover digest signature
  if site.verifyingSigner ≠ signer then
    .ok (([], packValidationData true validUntil validAfter), senderNonce, ledger)
  else do
    let (paid, ledger) ←
      tokens.transferFrom tokenAddress site.this site.this userOp.sender amount ledger
    require (paid = true) "Solver Sponsor failed"
    .ok (([], packValidationData false validUntil validAfter), senderNonce, ledger)

/-- `_validatePaymasterUserOp`, which recovers the signer with `ECDSA.recover`. -/
def validateSolver {τ : Type} (tokens : TokenContracts τ) (v : Version) (site : Site)
    (userOp : UserOperation) (senderNonce : Nonces) (ledger : τ) :
    Result ((Bytes × Word) × Nonces × τ) :=
  validateSolverWith (ECDSA.recover site.ecrecover) tokens v site userOp senderNonce ledger

/-! ### Runs -/

/-- The owner that `Ownable` keeps, the nonces, and the tokens. -/
structure State where
  owner : Address
  senderNonce : Nonces
  tokens : Address → ERC20

/-- What the constructor leaves. -/
def deploy (deployer : Address) (tokens : Address → ERC20) : State where
  owner := deployer
  senderNonce _ := 0
  tokens := tokens

/-- `BasePaymaster.validatePaymasterUserOp`. -/
def validatePaymasterUserOp (recover : Word → Bytes → Result Address) (v : Version) (site : Site)
    (sender : Address) (userOp : UserOperation) (s : State) : Result State := do
  require (sender = site.entryPoint) "Sender not EntryPoint"
  let (_, senderNonce, tokens) ←
    validateSolverWith recover openZeppelin v site userOp s.senderNonce s.tokens
  .ok { s with senderNonce := senderNonce, tokens := tokens }

/-- The other functions of `BasePaymaster` and `Ownable`. -/
inductive BaseFunction
  | postOp
  | deposit
  | withdrawTo
  | addStake
  | unlockStake
  | withdrawStake
  | renounceOwnership
  | transferOwnership (newOwner : Address)

instance : Ownable State where
  owner := State.owner
  setOwner s newOwner := { s with owner := newOwner }

/-- The modifier `onlyOwner`. -/
def onlyOwner (sender : Address) (s : State) : Result Unit := Ownable.onlyOwner sender s

/-- Neither contract overrides `_postOp`; the deposit and the stake are kept by the entry point. -/
def BaseFunction.run (site : Site) (sender : Address) (s : State) : BaseFunction → Result State
  | .postOp => do
    require (sender = site.entryPoint) "Sender not EntryPoint"
    .error (.reason "must override")
  | .deposit => .ok s
  | .withdrawTo | .addStake | .unlockStake | .withdrawStake => do
    onlyOwner sender s
    .ok s
  | .renounceOwnership => Ownable.renounceOwnership sender s
  | .transferOwnership newOwner => Ownable.transferOwnership sender newOwner s

/-- The functions of a token that write.  Minting and burning are the token's own: they may leave
any balances. -/
inductive TokenFunction
  | transfer (recipient : Address) (amount : Word)
  | transferFrom (sender recipient : Address) (amount : Word)
  | approve (spender : Address) (amount : Word)
  | increaseAllowance (spender : Address) (addedValue : Word)
  | decreaseAllowance (spender : Address) (subtractedValue : Word)
  | supply (balances : Address → Word)

def TokenFunction.run (caller : Address) (t : ERC20) : TokenFunction → Result ERC20
  | .transfer recipient amount => do
    let (_, t) ← t.transfer caller recipient amount
    .ok t
  | .transferFrom sender recipient amount => do
    let (_, t) ← t.transferFrom caller sender recipient amount
    .ok t
  | .approve spender amount => t.approve caller spender amount
  | .increaseAllowance spender addedValue => t.increaseAllowance caller spender addedValue
  | .decreaseAllowance spender subtractedValue => t.decreaseAllowance caller spender subtractedValue
  | .supply balances => .ok { t with balances := balances }

/-- Whoever is not the paymaster. -/
abbrev Outsider (site : Site) := {a : Address // a ≠ site.this}

/-- The calls that can change the state.  The paymaster itself calls a token only while it
validates. -/
inductive Call (site : Site)
  | validatePaymasterUserOp (sender : Address) (userOp : UserOperation)
  | base (sender : Address) (f : BaseFunction)
  | token (caller : Outsider site) (tokenAddress : Address) (f : TokenFunction)

section Runs

variable (recover : Word → Bytes → Result Address) (v : Version) (site : Site)

def Call.run (s : State) : Call site → Result State
  | .validatePaymasterUserOp sender userOp =>
    SolverPaymaster.validatePaymasterUserOp recover v site sender userOp s
  | .base sender f => f.run site sender s
  | .token caller tokenAddress f => do
    let t ← f.run caller (s.tokens tokenAddress)
    .ok { s with tokens := Function.update s.tokens tokenAddress t }

/-- A call that reverts changes nothing. -/
def apply (s : State) (call : Call site) : State :=
  match call.run recover v site s with
  | .ok s' => s'
  | .error _ => s

/-- The state at the end of a run. -/
def stateAfter (s : State) (events : List (JournalEvent (Call site))) : State :=
  (Journal.run (apply recover v site) (Journal.start s) events).state

end Runs

end Enclave.SolverPaymaster
