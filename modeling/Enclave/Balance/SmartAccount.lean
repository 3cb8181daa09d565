import Enclave.Account.P256SmartAccount
import Enclave.Paymaster.ECDSA

/-!
# `SmartAccount`

The account of an externally owned key behind its proxy, with the parts of `BaseAccount`,
`Initializable`, `UUPSUpgradeable` and `TokenCallbackHandler` that it inherits.  The arguments are
decoded as those of a `P256SmartAccount`, and the other contracts are called by the same functions.
-/

namespace Enclave.SmartAccount

open P256SmartAccount (Callee decodeBatch decodeValidation implementationSlot word)

/-! ### Names -/

/-- The external functions of the account. -/
inductive Method
  | owner | entrypoint | entryPoint
  | execute | executeBatch | initializeAccount
  | getDeposit | addDeposit | withdrawDepositTo
  | getNonce | validateUserOp | upgradeTo | upgradeToAndCall | proxiableUUID
  | tokensReceived | onERC721Received | onERC1155Received | onERC1155BatchReceived
  | supportsInterface
deriving DecidableEq, Repr

namespace Method

def signature : Method → String
  | owner => "owner()"
  | entrypoint => "entrypoint()"
  | entryPoint => "entryPoint()"
  | execute => "execute(address,uint256,bytes)"
  | executeBatch => "executeBatch(address[],uint256[],bytes[])"
  | initializeAccount => "initialize(address,address)"
  | getDeposit => "getDeposit()"
  | addDeposit => "addDeposit()"
  | withdrawDepositTo => "withdrawDepositTo(address,uint256)"
  | getNonce => "getNonce()"
  | validateUserOp => "validateUserOp((address,uint256,bytes,bytes,uint256,uint256,uint256," ++
      "uint256,uint256,bytes,bytes),bytes32,uint256)"
  | upgradeTo => "upgradeTo(address)"
  | upgradeToAndCall => "upgradeToAndCall(address,bytes)"
  | proxiableUUID => "proxiableUUID()"
  | tokensReceived => "tokensReceived(address,address,address,uint256,bytes,bytes)"
  | onERC721Received => "onERC721Received(address,address,uint256,bytes)"
  | onERC1155Received => "onERC1155Received(address,address,uint256,uint256,bytes)"
  | onERC1155BatchReceived =>
      "onERC1155BatchReceived(address,address,uint256[],uint256[],bytes)"
  | supportsInterface => "supportsInterface(bytes4)"

/-- The first four bytes of the hash of the signature, see `selector_signature`. -/
def selector : Method → Bytes
  | owner => [0x8d, 0xa5, 0xcb, 0x5b]
  | entrypoint => [0xa6, 0x5d, 0x69, 0xd4]
  | entryPoint => [0xb0, 0xd6, 0x91, 0xfe]
  | execute => [0xb6, 0x1d, 0x27, 0xf6]
  | executeBatch => [0x47, 0xe1, 0xda, 0x2a]
  | initializeAccount => [0x48, 0x5c, 0xc9, 0x55]
  | getDeposit => [0xc3, 0x99, 0xec, 0x88]
  | addDeposit => [0x4a, 0x58, 0xdb, 0x19]
  | withdrawDepositTo => [0x4d, 0x44, 0x56, 0x0d]
  | getNonce => [0xd0, 0x87, 0xd2, 0x88]
  | validateUserOp => [0x3a, 0x87, 0x1c, 0xdd]
  | upgradeTo => [0x36, 0x59, 0xcf, 0xe6]
  | upgradeToAndCall => [0x4f, 0x1e, 0xf2, 0x86]
  | proxiableUUID => [0x52, 0xd1, 0x90, 0x2d]
  | tokensReceived => [0x00, 0x23, 0xde, 0x29]
  | onERC721Received => [0x15, 0x0b, 0x7a, 0x02]
  | onERC1155Received => [0xf2, 0x3a, 0x6e, 0x61]
  | onERC1155BatchReceived => [0xbc, 0x19, 0x7c, 0x81]
  | supportsInterface => [0x01, 0xff, 0xc9, 0xa7]

def all : List Method :=
  [owner, entrypoint, entryPoint, execute, executeBatch, initializeAccount, getDeposit, addDeposit,
    withdrawDepositTo, getNonce, validateUserOp, upgradeTo, upgradeToAndCall, proxiableUUID,
    tokensReceived, onERC721Received, onERC1155Received, onERC1155BatchReceived, supportsInterface]

/-- Whether the function accepts value. -/
def payable : Method → Bool
  | addDeposit => true
  | upgradeToAndCall => true
  | _ => false

/-- The selector switch of the dispatcher. -/
def ofCalldata (data : Bytes) : Option Method := ofSelector selector all data

end Method

/-! ### Storage -/

/-- The storage of the proxy, with the fields of the base contracts, and the `Upgraded` events that
it has emitted. -/
structure Storage where
  owner : Address
  entrypoint : Address
  /-- `Initializable._initialized`. -/
  initialized : UInt8
  /-- `Initializable._initializing`. -/
  initializing : Bool
  /-- The slot `_IMPLEMENTATION_SLOT`. -/
  implementation : Address
  /-- The slot `_ROLLBACK_SLOT`. -/
  rollback : Bool
  upgraded : List Address
deriving DecidableEq, Repr

/-- A proxy in front of `logic` that has not been initialised. -/
def fresh (logic : Address) : Storage where
  owner := 0
  entrypoint := 0
  initialized := 0
  initializing := false
  implementation := logic
  rollback := false
  upgraded := []

/-- A high-level call that expects a value back. -/
def viewCall (target : Address) (m : Callee) (args : List AbiValue) : Prog Storage Bytes :=
  Prog.callOrRevert ⟨.staticcall, target, 0, m.encode args⟩

/-- `Address.isContract`. -/
def isContract (target : Address) : Prog Storage Bool := do
  let size ← Prog.callOrRevert ⟨.extcodesize, target, 0, []⟩
  .pure (Word.ofBytes size != 0)

/-- A high-level call that expects nothing back: it reverts where there is no code. -/
def actionCall (target : Address) (value : Word) (m : Callee) (args : List AbiValue) :
    Prog Storage Unit := do
  let code ← isContract target
  if !code then .revert .empty else
    let _ ← Prog.callOrRevert ⟨.call, target, value, m.encode args⟩
    .pure ()

/-! ### Guards -/

/-- `entryPoint`. -/
def entryPoint (s : Storage) : Address := s.entrypoint

/-- `_onlyOwner`, with `this` the address of the account. -/
def onlyOwner (this sender : Address) (s : Storage) : Result Unit :=
  require (sender = s.owner ∨ sender = this) "only owner"

/-- `_requireFromEntryPointOrOwner`. -/
def requireFromEntryPointOrOwner (sender : Address) : Prog Storage Unit := do
  let s ← Prog.storage
  Prog.lift (require (sender = entryPoint s ∨ sender = s.owner) "account: not Owner or EntryPoint")

/-- `BaseAccount._requireFromEntryPoint`. -/
def requireFromEntryPoint (sender : Address) (s : Storage) : Result Unit :=
  require (sender = entryPoint s) "account: not from EntryPoint"

/-! ### Execution -/

/-- `_call`. -/
def call (target : Address) (value : Word) (data : Bytes) : Prog Storage Unit :=
  Execution.call target value data

/-- `execute`. -/
def execute (sender dest : Address) (value : Word) (func : Bytes) : Prog Storage Unit :=
  Execution.execute (requireFromEntryPointOrOwner sender) dest value func

/-- `executeBatch`. -/
def executeBatch (sender : Address) (dest : List (Result Address)) (value : List Word)
    (func : List (Result Bytes)) : Prog Storage Unit :=
  Execution.executeBatch (requireFromEntryPointOrOwner sender) dest value func

/-! ### Ownership -/

/-- `initialize`, with the modifier `initializer`; `deployed` is
`Address.isContract(address(this))`, which is false only while the proxy is being constructed. -/
def initializeAccount (deployed : Bool) (anOwner entrypoint : Address) (s : Storage) :
    Result Storage := do
  let isTopLevelCall := !s.initializing
  require ((isTopLevelCall = true ∧ s.initialized < 1) ∨ (deployed = false ∧ s.initialized = 1))
    "Initializable: contract is already initialized"
  let s := { s with initialized := 1 }
  let s := if isTopLevelCall then { s with initializing := true } else s
  let s := { s with owner := anOwner, entrypoint := entrypoint }
  .ok (if isTopLevelCall then { s with initializing := false } else s)

/-! ### Deposits -/

/-- `getDeposit`. -/
def getDeposit (this : Address) : Prog Storage Word := do
  let s ← Prog.storage
  let data ← viewCall (entryPoint s) .balanceOf [word this]
  Prog.lift (abiDecodeWord data 0)

/-- `BaseAccount.getNonce`. -/
def getNonce (this : Address) : Prog Storage Word := do
  let s ← Prog.storage
  let data ← viewCall (entryPoint s) .getNonce [word this, .word 0]
  Prog.lift (abiDecodeWord data 0)

/-- `addDeposit`. -/
def addDeposit (this : Address) (value : Word) : Prog Storage Unit := do
  let s ← Prog.storage
  actionCall (entryPoint s) value .depositTo [word this]

/-- `withdrawDepositTo`. -/
def withdrawDepositTo (this sender withdrawAddress : Address) (amount : Word) :
    Prog Storage Unit := do
  let s ← Prog.storage
  Prog.lift (onlyOwner this sender s)
  actionCall (entryPoint s) 0 .withdrawTo [word withdrawAddress, .word amount]

/-! ### Signatures -/

/-- `_validateSignature`, with the signature field of the operation. -/
def validateSignature (ecrecover : ECDSA.Ecrecover) (signature : Result Bytes)
    (userOpHash : Word) : Prog Storage Word := do
  let hash := ECDSA.toEthSignedMessageHash userOpHash
  let s ← Prog.storage
  let signature ← Prog.lift signature
  let signer ← Prog.lift (ECDSA.recover ecrecover hash signature)
  .pure (if s.owner ≠ signer then 1 else 0)

/-- `BaseAccount._payPrefund`. -/
def payPrefund (sender : Address) (missingAccountFunds : Word) : Prog Storage Unit :=
  if missingAccountFunds ≠ 0 then do
    let _ ← Prog.tryCall ⟨.call, sender, missingAccountFunds, []⟩
    .pure ()
  else .pure ()

/-- `BaseAccount.validateUserOp`; `_validateNonce` does nothing. -/
def validateUserOp (ecrecover : ECDSA.Ecrecover) (sender : Address) (signature : Result Bytes)
    (userOpHash missingAccountFunds : Word) : Prog Storage Word := do
  let s ← Prog.storage
  Prog.lift (requireFromEntryPoint sender s)
  let validationData ← validateSignature ecrecover signature userOpHash
  payPrefund sender missingAccountFunds
  .pure validationData

/-! ### Upgrades -/

/-- The modifier `onlyProxy`, with `logic` the address `__self` of the implementation. -/
def onlyProxy (this logic : Address) (s : Storage) : Result Unit := do
  require (this ≠ logic) "Function must be called through delegatecall"
  require (s.implementation = logic) "Function must be called through active proxy"

/-- `_setImplementation`, followed by the event `Upgraded` where `emit` is set. -/
def setImplementation (newImplementation : Address) (emit : Bool) : Prog Storage Unit := do
  let code ← isContract newImplementation
  Prog.lift (require (code = true) "ERC1967: new implementation is not a contract")
  let s ← Prog.storage
  Prog.store { s with
    implementation := newImplementation
    upgraded := if emit then newImplementation :: s.upgraded else s.upgraded }

/-- `Address.functionDelegateCall`. -/
def functionDelegateCall (target : Address) (data : Bytes) : Prog Storage Unit := do
  match ← Prog.tryCall ⟨.delegatecall, target, 0, data⟩ with
  | .error .empty => .revert (.reason "Address: low-level delegate call failed")
  | .error e => .revert e
  | .ok returndata =>
    if returndata.length = 0 then
      let code ← isContract target
      Prog.lift (require (code = true) "Address: call to non-contract")
    else .pure ()

/-- `_upgradeToAndCall`. -/
def upgradeToAndCallInternal (newImplementation : Address) (data : Bytes) (forceCall : Bool) :
    Prog Storage Unit := do
  setImplementation newImplementation true
  if data.length > 0 ∨ forceCall = true then functionDelegateCall newImplementation data
  else .pure ()

/-- `_upgradeToAndCallUUPS`. -/
def upgradeToAndCallUUPS (newImplementation : Address) (data : Bytes) (forceCall : Bool) :
    Prog Storage Unit := do
  let s ← Prog.storage
  if s.rollback then setImplementation newImplementation false
  else
    match ← Prog.tryCall ⟨.staticcall, newImplementation, 0, Callee.proxiableUUID.encode []⟩ with
    | .error _ => .revert (.reason "ERC1967Upgrade: new implementation is not UUPS")
    | .ok returned =>
      let slot ← Prog.lift (abiDecodeWord returned 0)
      Prog.lift (require (slot = implementationSlot) "ERC1967Upgrade: unsupported proxiableUUID")
      upgradeToAndCallInternal newImplementation data forceCall

/-- `upgradeTo` and `upgradeToAndCall`: both authorise with `_authorizeUpgrade`, which is
`_onlyOwner`. -/
def upgrade (this logic sender newImplementation : Address) (data : Bytes) (forceCall : Bool) :
    Prog Storage Unit := do
  let s ← Prog.storage
  Prog.lift (onlyProxy this logic s)
  Prog.lift (onlyOwner this sender s)
  upgradeToAndCallUUPS newImplementation data forceCall

def upgradeTo (this logic sender newImplementation : Address) : Prog Storage Unit :=
  upgrade this logic sender newImplementation [] false

def upgradeToAndCall (this logic sender newImplementation : Address) (data : Bytes) :
    Prog Storage Unit :=
  upgrade this logic sender newImplementation data true

/-- `proxiableUUID`, with the modifier `notDelegated`. -/
def proxiableUUID (this logic : Address) : Result Word := do
  require (this = logic) "UUPSUpgradeable: must not be called through delegatecall"
  .ok implementationSlot

/-! ### Token callbacks -/

/-- A `bytes4`, at the high end of its word. -/
def bytes4 (id : Word) : Word := id <<< 224

/-- `supportsInterface`; the low bytes of the argument's word have to be zero. -/
def supportsInterface (args : Bytes) : Result Word := do
  let interfaceId ← abiDecodeWord args 0
  if interfaceId.toNat % 2 ^ 224 ≠ 0 then .error .empty else
    .ok (if interfaceId = bytes4 0x150b7a02 ∨ interfaceId = bytes4 0x4e2312e0 ∨
      interfaceId = bytes4 0x01ffc9a7 then 1 else 0)

/-! ### Dispatch -/

/-- The external functions, with their arguments decoded; `deployed` as in `initializeAccount`. -/
def run (ecrecover : ECDSA.Ecrecover) (deployed : Bool) (this logic : Address) (msg : Msg)
    (args : Bytes) : Method → Prog Storage Bytes
  | .owner => do
    let s ← Prog.storage
    .pure (abiEncode [word s.owner])
  | .entrypoint => do
    let s ← Prog.storage
    .pure (abiEncode [word s.entrypoint])
  | .entryPoint => do
    let s ← Prog.storage
    .pure (abiEncode [word (entryPoint s)])
  | .execute => do
    Prog.lift (requireHead args 96)
    let dest ← Prog.lift (abiDecodeAddress args 0)
    let value ← Prog.lift (abiDecodeWord args 32)
    let func ← Prog.lift (abiDecodeBytesCalldata args 64)
    noReturn (execute msg.sender dest value func)
  | .executeBatch => do
    let (dest, value, func) ← Prog.lift (decodeBatch msg.data args)
    noReturn (executeBatch msg.sender dest value func)
  | .initializeAccount => do
    Prog.lift (requireHead args 64)
    let anOwner ← Prog.lift (abiDecodeAddress args 0)
    let entrypoint ← Prog.lift (abiDecodeAddress args 32)
    noReturn (Prog.modify (initializeAccount deployed anOwner entrypoint))
  | .getDeposit => returnWord (getDeposit this)
  | .addDeposit => noReturn (addDeposit this msg.value)
  | .withdrawDepositTo => do
    Prog.lift (requireHead args 64)
    let withdrawAddress ← Prog.lift (abiDecodeAddress args 0)
    let amount ← Prog.lift (abiDecodeWord args 32)
    noReturn (withdrawDepositTo this msg.sender withdrawAddress amount)
  | .getNonce => returnWord (getNonce this)
  | .validateUserOp => do
    let (signature, userOpHash, missingAccountFunds) ←
      Prog.lift (decodeValidation msg.data args)
    returnWord (validateUserOp ecrecover msg.sender signature userOpHash missingAccountFunds)
  | .upgradeTo => do
    let newImplementation ← Prog.lift (abiDecodeAddress args 0)
    noReturn (upgradeTo this logic msg.sender newImplementation)
  | .upgradeToAndCall => do
    Prog.lift (requireHead args 64)
    let newImplementation ← Prog.lift (abiDecodeAddress args 0)
    let data ← Prog.lift (abiDecodeBytesMemory args 32)
    noReturn (upgradeToAndCall this logic msg.sender newImplementation data)
  | .proxiableUUID => do
    let slot ← Prog.lift (proxiableUUID this logic)
    .pure (abiEncode [.word slot])
  | .tokensReceived => do
    Prog.lift (requireHead args 192)
    let _ ← Prog.lift (abiDecodeAddress args 0)
    let _ ← Prog.lift (abiDecodeAddress args 32)
    let _ ← Prog.lift (abiDecodeAddress args 64)
    let _ ← Prog.lift (abiDecodeBytesCalldata args 128)
    let _ ← Prog.lift (abiDecodeBytesCalldata args 160)
    .pure []
  | .onERC721Received => do
    Prog.lift (requireHead args 128)
    let _ ← Prog.lift (abiDecodeAddress args 0)
    let _ ← Prog.lift (abiDecodeAddress args 32)
    let _ ← Prog.lift (abiDecodeBytesCalldata args 96)
    .pure (abiEncode [.word (bytes4 0x150b7a02)])
  | .onERC1155Received => do
    Prog.lift (requireHead args 160)
    let _ ← Prog.lift (abiDecodeAddress args 0)
    let _ ← Prog.lift (abiDecodeAddress args 32)
    let _ ← Prog.lift (abiDecodeBytesCalldata args 128)
    .pure (abiEncode [.word (bytes4 0xf23a6e61)])
  | .onERC1155BatchReceived => do
    Prog.lift (requireHead args 160)
    let _ ← Prog.lift (abiDecodeAddress args 0)
    let _ ← Prog.lift (abiDecodeAddress args 32)
    let _ ← Prog.lift (abiDecodeArray args 64)
    let _ ← Prog.lift (abiDecodeArray args 96)
    let _ ← Prog.lift (abiDecodeBytesCalldata args 128)
    .pure (abiEncode [.word (bytes4 0xbc197c81)])
  | .supportsInterface => do
    let supported ← Prog.lift (supportsInterface args)
    .pure (abiEncode [.word supported])

/-- A call to the account: `receive` takes empty calldata, and there is no `fallback`. -/
def dispatch (ecrecover : ECDSA.Ecrecover) (deployed : Bool) (this logic : Address) (msg : Msg) :
    Prog Storage Bytes :=
  match Method.ofCalldata msg.data with
  | none => if msg.data.length = 0 then .pure [] else .revert .empty
  | some m =>
    if msg.value ≠ 0 ∧ m.payable = false then .revert .empty
    else run ecrecover deployed this logic msg (msg.data.drop 4) m

/-- A call to the account once its proxy has been constructed. -/
def body (ecrecover : ECDSA.Ecrecover) (this logic : Address) (msg : Msg) : Prog Storage Bytes :=
  dispatch ecrecover true this logic msg

/-- The account at `this`, for as long as it has not emitted `Upgraded`. -/
def contract (ecrecover : ECDSA.Ecrecover) (this logic : Address) : Contract Storage where
  self := this
  live s := s.upgraded.isEmpty
  body := body ecrecover this logic

end Enclave.SmartAccount
