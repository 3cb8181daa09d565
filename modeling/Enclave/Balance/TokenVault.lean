import Enclave.Evm.Calldata
import Enclave.Evm.Dispatch
import Enclave.Evm.Keccak
import Mathlib.Logic.Function.Basic

/-!
# `EnclaveTokenVaultV0`

The vault in which users deposit tokens, and from which they withdraw them or a vault manager claims
them.  `body` is the code of a call frame from its calldata on.  The events are part of the storage,
for a revert takes them back as well.  The calls of `console.log` are left out: they are static and
their outcome is ignored.
-/

namespace Enclave.TokenVault

/-! ### Functions and selectors -/

/-- The external functions. -/
inductive Method
  | deposits | isVaultManager | addVaultManager | removeVaultManager | deposit | withdraw | claim
deriving DecidableEq, Repr

namespace Method

def signature : Method → String
  | deposits => "deposits(address,address)"
  | isVaultManager => "isVaultManager(address)"
  | addVaultManager => "addVaultManager(address)"
  | removeVaultManager => "removeVaultManager(address)"
  | deposit => "deposit(address,uint256)"
  | withdraw => "withdraw(address,uint256)"
  | claim => "claim(address,uint256,bytes)"

/-- The first four bytes of the hash of the signature, see `selector_signature`. -/
def selector : Method → Bytes
  | deposits => [0x8f, 0x60, 0x1f, 0x66]
  | isVaultManager => [0x67, 0x6a, 0x55, 0x3e]
  | addVaultManager => [0x5f, 0x80, 0xfc, 0xad]
  | removeVaultManager => [0x52, 0x90, 0xe6, 0xa6]
  | deposit => [0x47, 0xe7, 0xef, 0x24]
  | withdraw => [0xf3, 0xfe, 0xf3, 0xa3]
  | claim => [0x8f, 0x0b, 0xc1, 0x52]

def all : List Method :=
  [deposits, isVaultManager, addVaultManager, removeVaultManager, deposit, withdraw, claim]

/-- The selector switch of the dispatcher. -/
def ofCalldata (data : Bytes) : Option Method := ofSelector selector all data

end Method

/-- The functions of a token that the vault calls. -/
inductive Callee
  | transfer | transferFrom
deriving DecidableEq, Repr

namespace Callee

def signature : Callee → String
  | transfer => "transfer(address,uint256)"
  | transferFrom => "transferFrom(address,address,uint256)"

/-- The first four bytes of the hash of the signature, see `selector_signature`. -/
def selector : Callee → Bytes
  | transfer => [0xa9, 0x05, 0x9c, 0xbb]
  | transferFrom => [0x23, 0xb8, 0x72, 0xdd]

/-- The calldata of a call. -/
def encode (m : Callee) (args : List AbiValue) : Bytes := m.selector ++ abiEncode args

end Callee

/-! ### Storage -/

inductive Event
  | vaultManagerAdded (newVaultManager : Address)
  | vaultManagerRemoved (removedVaultManager : Address)
  | deposited (user tokenAddress : Address) (amount : Word)
  | withdrawn (user tokenAddress : Address) (amount : Word)
  | claimed (solver tokenAddress : Address) (amount : Word) (owner : Address)
deriving DecidableEq, Repr

structure Storage where
  deposits : Address → Address → Word
  isVaultManager : Address → Bool
  /-- `ReentrancyGuard._status`: 1 outside of the guarded functions, 2 inside. -/
  status : Word
  events : List Event

/-- What the constructors leave. -/
def deploy (deployer : Address) : Storage where
  deposits _ _ := 0
  isVaultManager := Function.update (fun _ => false) deployer true
  status := 1
  events := [.vaultManagerAdded deployer]

/-- `emit`. -/
def Storage.emit (s : Storage) (e : Event) : Storage := { s with events := s.events ++ [e] }

/-- An assignment to `deposits[token][user]`. -/
def Storage.setDeposit (s : Storage) (token user : Address) (amount : Word) : Storage :=
  { s with deposits :=
    Function.update s.deposits token (Function.update (s.deposits token) user amount) }

/-! ### Managers -/

/-- The modifier `onlyVaultManager`. -/
def onlyVaultManager (sender : Address) (s : Storage) : Result Unit :=
  require (s.isVaultManager sender = true) "Caller is not a vault manager"

/-- `addVaultManager`. -/
def addVaultManager (sender newVaultManager : Address) (s : Storage) : Result Storage := do
  onlyVaultManager sender s
  require (newVaultManager ≠ 0) "Invalid vault manager address"
  require (s.isVaultManager newVaultManager = false) "Address is already a vault manager"
  let s := { s with isVaultManager := Function.update s.isVaultManager newVaultManager true }
  .ok (s.emit (.vaultManagerAdded newVaultManager))

/-- `removeVaultManager`. -/
def removeVaultManager (sender vaultManager : Address) (s : Storage) : Result Storage := do
  onlyVaultManager sender s
  require (s.isVaultManager vaultManager = true) "Address is not a vault manager"
  require (sender ≠ vaultManager) "Cannot remove self as vault manager"
  let s := { s with isVaultManager := Function.update s.isVaultManager vaultManager false }
  .ok (s.emit (.vaultManagerRemoved vaultManager))

/-! ### Deposits -/

/-- The modifier `nonReentrant`. -/
def nonReentrant (p : Prog Storage Unit) : Prog Storage Unit := do
  Prog.modify fun s => do
    require (s.status ≠ 2) "ReentrancyGuard: reentrant call"
    .ok { s with status := 2 }
  p
  Prog.modify fun s => .ok { s with status := 1 }

def word (a : Address) : AbiValue := .word (toWord a)

/-- `IERC20(token).transfer(recipient, amount)`. -/
def transferCall (token recipient : Address) (amount : Word) : Call :=
  ⟨.call, token, 0, Callee.transfer.encode [word recipient, .word amount]⟩

/-- `IERC20(token).transferFrom(sender, recipient, amount)`. -/
def transferFromCall (token sender recipient : Address) (amount : Word) : Call :=
  ⟨.call, token, 0, Callee.transferFrom.encode [word sender, word recipient, .word amount]⟩

/-- `require(…, "Transfer failed")` around a call that answers with a `bool`. -/
def requireTransfer (c : Call) : Prog Storage Unit := do
  let data ← Prog.callOrRevert c
  let moved ← Prog.lift (abiDecodeBool data 0)
  Prog.lift (require (moved = true) "Transfer failed")

/-- `require(_amount > 0, …)`. -/
def requireAmount (amount : Word) : Result Unit :=
  require (amount.toNat > 0) "Amount must be greater than 0"

/-- `deposits[token][user] += amount`. -/
def credit (token user : Address) (amount : Word) (s : Storage) : Result Storage := do
  let balance ← Word.checkedAdd (s.deposits token user) amount
  .ok (s.setDeposit token user balance)

/-- The check of the balance, and `deposits[token][user] -= amount`. -/
def debit (token user : Address) (amount : Word) (s : Storage) : Result Storage := do
  require (amount.toNat ≤ (s.deposits token user).toNat) "Insufficient balance"
  let balance ← Word.checkedSub (s.deposits token user) amount
  .ok (s.setDeposit token user balance)

/-- `deposit`; the credit comes after the transfer. -/
def deposit (this sender token : Address) (amount : Word) : Prog Storage Unit :=
  nonReentrant do
    Prog.lift (requireAmount amount)
    requireTransfer (transferFromCall token sender this amount)
    Prog.modify (credit token sender amount)
    Prog.modify fun s => .ok (s.emit (.deposited sender token amount))

/-- `withdraw`; the debit comes before the transfer. -/
def withdraw (sender token : Address) (amount : Word) : Prog Storage Unit :=
  nonReentrant do
    Prog.lift (requireAmount amount)
    Prog.modify (debit token sender amount)
    requireTransfer (transferCall token sender amount)
    Prog.modify fun s => .ok (s.emit (.withdrawn sender token amount))

/-- `claim`; the proof is the owner's address. -/
def claim (sender token : Address) (amount : Word) (proof : Bytes) : Prog Storage Unit :=
  nonReentrant do
    let s ← Prog.storage
    Prog.lift (onlyVaultManager sender s)
    Prog.lift (requireAmount amount)
    let owner ← Prog.lift (abiDecodeAddress proof 0)
    Prog.modify (debit token owner amount)
    requireTransfer (transferCall token sender amount)
    Prog.modify fun s => .ok (s.emit (.claimed sender token amount owner))

/-! ### Dispatch -/

/-- The external functions, with their arguments decoded. -/
def run (this : Address) (msg : Msg) (args : Bytes) : Method → Prog Storage Bytes
  | .deposits => do
    Prog.lift (requireHead args 64)
    let token ← Prog.lift (abiDecodeAddress args 0)
    let user ← Prog.lift (abiDecodeAddress args 32)
    let s ← Prog.storage
    .pure (abiEncode [.word (s.deposits token user)])
  | .isVaultManager => do
    let manager ← Prog.lift (abiDecodeAddress args 0)
    let s ← Prog.storage
    .pure (abiEncode [.word (if s.isVaultManager manager then 1 else 0)])
  | .addVaultManager => do
    let newVaultManager ← Prog.lift (abiDecodeAddress args 0)
    noReturn (Prog.modify (addVaultManager msg.sender newVaultManager))
  | .removeVaultManager => do
    let vaultManager ← Prog.lift (abiDecodeAddress args 0)
    noReturn (Prog.modify (removeVaultManager msg.sender vaultManager))
  | .deposit => do
    Prog.lift (requireHead args 64)
    let token ← Prog.lift (abiDecodeAddress args 0)
    let amount ← Prog.lift (abiDecodeWord args 32)
    noReturn (deposit this msg.sender token amount)
  | .withdraw => do
    Prog.lift (requireHead args 64)
    let token ← Prog.lift (abiDecodeAddress args 0)
    let amount ← Prog.lift (abiDecodeWord args 32)
    noReturn (withdraw msg.sender token amount)
  | .claim => do
    Prog.lift (requireHead args 96)
    let token ← Prog.lift (abiDecodeAddress args 0)
    let amount ← Prog.lift (abiDecodeWord args 32)
    let proof ← Prog.lift (abiDecodeBytesCalldata args 64)
    noReturn (claim msg.sender token amount proof)

/-- A call to the vault at `this`, which has neither `receive` nor `fallback` and takes no value. -/
def body (this : Address) (msg : Msg) : Prog Storage Bytes :=
  match Method.ofCalldata msg.data with
  | none => .revert .empty
  | some m => if msg.value ≠ 0 then .revert .empty else run this msg (msg.data.drop 4) m

end Enclave.TokenVault
