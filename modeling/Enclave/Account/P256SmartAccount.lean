import Enclave.Account.Base64URL
import Enclave.Account.Execution
import Enclave.Evm.Calldata
import Enclave.Evm.Machine
import Enclave.Evm.Sha256
import Mathlib.Logic.Function.Basic

/-!
# `P256SmartAccount`

The account behind its proxy, with the parts of `BaseAccount`, `Initializable` and
`UUPSUpgradeable` that it inherits.  A function that only touches the storage is a function of the
storage; a function that calls other contracts is a program.  `body` is the dispatcher.

The registry, the entry point, the verifier and the targets of `execute` are other contracts: the
programs only say what the account asks them and what it does with the reply.
-/

namespace Enclave.P256SmartAccount

/-! ### Names -/

/-- The external functions of the account. -/
inductive Method
  | guardians | isGuardian | enclaveRegistry | pubKey | entryPoint
  | execute | executeBatch | initializeAccount | isValidSignature
  | addGuardian | removeGuardian | transferOwnership
  | getDeposit | addDeposit | withdrawDepositTo | getGuardianCount
  | getNonce | validateUserOp | upgradeTo | upgradeToAndCall | proxiableUUID
deriving DecidableEq, Repr

namespace Method

def signature : Method → String
  | guardians => "guardians(uint256)"
  | isGuardian => "isGuardian(address)"
  | enclaveRegistry => "enclaveRegistry()"
  | pubKey => "pubKey(uint256)"
  | entryPoint => "entryPoint()"
  | execute => "execute(address,uint256,bytes)"
  | executeBatch => "executeBatch(address[],uint256[],bytes[])"
  | initializeAccount => "initialize(uint256[2],address)"
  | isValidSignature => "isValidSignature(bytes32,bytes)"
  | addGuardian => "addGuardian(address)"
  | removeGuardian => "removeGuardian(address)"
  | transferOwnership => "transferOwnership(uint256[2])"
  | getDeposit => "getDeposit()"
  | addDeposit => "addDeposit()"
  | withdrawDepositTo => "withdrawDepositTo(address,uint256)"
  | getGuardianCount => "getGuardianCount()"
  | getNonce => "getNonce()"
  | validateUserOp => "validateUserOp((address,uint256,bytes,bytes,uint256,uint256,uint256," ++
      "uint256,uint256,bytes,bytes),bytes32,uint256)"
  | upgradeTo => "upgradeTo(address)"
  | upgradeToAndCall => "upgradeToAndCall(address,bytes)"
  | proxiableUUID => "proxiableUUID()"

/-- The first four bytes of the hash of the signature, see `selector_signature`. -/
def selector : Method → Bytes
  | guardians => [0xf5, 0x60, 0xc7, 0x34]
  | isGuardian => [0x0c, 0x68, 0xba, 0x21]
  | enclaveRegistry => [0x7c, 0x72, 0xdb, 0xd0]
  | pubKey => [0x13, 0x48, 0x44, 0x14]
  | entryPoint => [0xb0, 0xd6, 0x91, 0xfe]
  | execute => [0xb6, 0x1d, 0x27, 0xf6]
  | executeBatch => [0x47, 0xe1, 0xda, 0x2a]
  | initializeAccount => [0xc9, 0xcd, 0xef, 0x04]
  | isValidSignature => [0x16, 0x26, 0xba, 0x7e]
  | addGuardian => [0xa5, 0x26, 0xd8, 0x3b]
  | removeGuardian => [0x71, 0x40, 0x41, 0x56]
  | transferOwnership => [0x96, 0x1f, 0xbc, 0x56]
  | getDeposit => [0xc3, 0x99, 0xec, 0x88]
  | addDeposit => [0x4a, 0x58, 0xdb, 0x19]
  | withdrawDepositTo => [0x4d, 0x44, 0x56, 0x0d]
  | getGuardianCount => [0x36, 0xae, 0xa0, 0x1e]
  | getNonce => [0xd0, 0x87, 0xd2, 0x88]
  | validateUserOp => [0x3a, 0x87, 0x1c, 0xdd]
  | upgradeTo => [0x36, 0x59, 0xcf, 0xe6]
  | upgradeToAndCall => [0x4f, 0x1e, 0xf2, 0x86]
  | proxiableUUID => [0x52, 0xd1, 0x90, 0x2d]

def all : List Method :=
  [guardians, isGuardian, enclaveRegistry, pubKey, entryPoint, execute, executeBatch,
    initializeAccount, isValidSignature, addGuardian, removeGuardian, transferOwnership,
    getDeposit, addDeposit, withdrawDepositTo, getGuardianCount, getNonce, validateUserOp,
    upgradeTo, upgradeToAndCall, proxiableUUID]

/-- Whether the function accepts value. -/
def payable : Method → Bool
  | addDeposit => true
  | upgradeToAndCall => true
  | _ => false

/-- The selector switch of the dispatcher. -/
def ofCalldata (data : Bytes) : Option Method := ofSelector selector all data

end Method

/-- The functions of other contracts that the account's own code calls. -/
inductive Callee
  | getRegistryAddress | verify | balanceOf | depositTo | withdrawTo | getNonce | proxiableUUID
deriving DecidableEq, Repr

namespace Callee

def signature : Callee → String
  | getRegistryAddress => "getRegistryAddress(string)"
  | verify => "verify(bytes32,uint256,uint256,uint256[2])"
  | balanceOf => "balanceOf(address)"
  | depositTo => "depositTo(address)"
  | withdrawTo => "withdrawTo(address,uint256)"
  | getNonce => "getNonce(address,uint192)"
  | proxiableUUID => "proxiableUUID()"

/-- The first four bytes of the hash of the signature, see `selector_signature`. -/
def selector : Callee → Bytes
  | getRegistryAddress => [0x74, 0xb9, 0x98, 0x2c]
  | verify => [0x3b, 0x28, 0x02, 0x79]
  | balanceOf => [0x70, 0xa0, 0x82, 0x31]
  | depositTo => [0xb7, 0x60, 0xfa, 0xf9]
  | withdrawTo => [0x20, 0x5c, 0x28, 0x78]
  | getNonce => [0x35, 0x56, 0x7e, 0x1a]
  | proxiableUUID => [0x52, 0xd1, 0x90, 0x2d]

/-- The calldata of a call. -/
def encode (m : Callee) (args : List AbiValue) : Bytes := m.selector ++ abiEncode args

end Callee

/-! ### Storage -/

/-- The storage of the proxy, with the fields of the base contracts, and the `Upgraded` events that
it has emitted. -/
structure Storage where
  guardians : List Address
  isGuardian : Address → Bool
  enclaveRegistry : Address
  pubKey : Word × Word
  /-- `Initializable._initialized`. -/
  initialized : UInt8
  /-- `Initializable._initializing`. -/
  initializing : Bool
  /-- The slot `_IMPLEMENTATION_SLOT`. -/
  implementation : Address
  /-- The slot `_ROLLBACK_SLOT`. -/
  rollback : Bool
  upgraded : List Address

/-- The storage of a proxy before `initialize`. -/
def fresh (logic : Address) : Storage where
  guardians := []
  isGuardian _ := false
  enclaveRegistry := 0
  pubKey := (0, 0)
  initialized := 0
  initializing := false
  implementation := logic
  rollback := false
  upgraded := []

/-- A high-level call that expects a value back. -/
def viewCall (target : Address) (m : Callee) (args : List AbiValue) : Prog Storage Bytes :=
  Prog.callOrRevert ⟨.staticcall, target, 0, m.encode args⟩

/-- `Address.isContract`. -/
def isContract (target : Address) : Prog Storage Bool := do
  let size ← Prog.callOrRevert ⟨.extcodesize, target, 0, []⟩
  .pure (Word.ofBytes size != 0)

/-- A high-level call that expects nothing back: it reverts where there is no code. -/
def actionCall (target : Address) (value : Word) (m : Callee) (args : List AbiValue) :
    Prog Storage Unit := do
  let code ← isContract target
  if !code then .revert .empty else
    let _ ← Prog.callOrRevert ⟨.call, target, value, m.encode args⟩
    .pure ()

def word (a : Address) : AbiValue := .word (toWord a)

/-! ### Guards -/

/-- `EnclaveRegistry(enclaveRegistry).getRegistryAddress(name)`. -/
def getRegistryAddress (name : String) : Prog Storage Address := do
  let s ← Prog.storage
  let data ← viewCall s.enclaveRegistry .getRegistryAddress [.bytes (ascii name)]
  Prog.lift (abiDecodeAddress data 0)

/-- `entryPoint`. -/
def entryPoint : Prog Storage Address := getRegistryAddress "entryPoint"

/-- `_onlyOwner`, with `this` the address of the account. -/
def onlyOwner (this sender : Address) : Result Unit := require (sender = this) "only owner"

/-- `_requireFromEntryPointOrOwner`. -/
def requireFromEntryPointOrOwner (this sender : Address) : Prog Storage Unit := do
  let ep ← entryPoint
  Prog.lift (require (sender = ep ∨ sender = this) "account: not Owner or EntryPoint")

/-- `_requireFromOwnerOrGuardian`. -/
def requireFromOwnerOrGuardian (this sender : Address) (s : Storage) : Result Unit :=
  require (sender = this ∨ s.isGuardian sender = true) "account: Not Owner ot guardian"

/-- `BaseAccount._requireFromEntryPoint`. -/
def requireFromEntryPoint (sender : Address) : Prog Storage Unit := do
  let ep ← entryPoint
  Prog.lift (require (sender = ep) "account: not from EntryPoint")

/-! ### Execution -/

/-- `_call`. -/
def call (target : Address) (value : Word) (data : Bytes) : Prog Storage Unit :=
  Execution.call target value data

/-- `execute`. -/
def execute (this sender dest : Address) (value : Word) (func : Bytes) : Prog Storage Unit :=
  Execution.execute (requireFromEntryPointOrOwner this sender) dest value func

/-- `executeBatch`. -/
def executeBatch (this sender : Address) (dest : List (Result Address)) (value : List Word)
    (func : List (Result Bytes)) : Prog Storage Unit :=
  Execution.executeBatch (requireFromEntryPointOrOwner this sender) dest value func

/-! ### Ownership -/

/-- `initialize`, with the modifier `initializer`; `deployed` is
`Address.isContract(address(this))`, which is false only while the proxy is being constructed. -/
def initializeAccount (deployed : Bool) (pubKey : Word × Word) (enclaveRegistry : Address)
    (s : Storage) : Result Storage := do
  let isTopLevelCall := !s.initializing
  require ((isTopLevelCall = true ∧ s.initialized < 1) ∨ (deployed = false ∧ s.initialized = 1))
    "Initializable: contract is already initialized"
  let s := { s with initialized := 1 }
  let s := if isTopLevelCall then { s with initializing := true } else s
  let s := { s with enclaveRegistry := enclaveRegistry, pubKey := pubKey }
  .ok (if isTopLevelCall then { s with initializing := false } else s)

/-- `addGuardian`. -/
def addGuardian (this sender guardian : Address) (s : Storage) : Result Storage := do
  onlyOwner this sender
  require (guardian ≠ 0) "account: guardian address should be NonZero"
  require (s.isGuardian guardian = false) "account: Guardian already exists"
  .ok { s with isGuardian := Function.update s.isGuardian guardian true }

/-- The loop of `removeGuardian` from index `i`, with `n` indices to go: it moves the last entry to
the place of the first match and drops the last. -/
def removeGuardianLoop (guardian : Address) (guardians : List Address) : ℕ → ℕ → List Address
  | _, 0 => guardians
  | i, n + 1 =>
    if guardians.getD i 0 = guardian then
      (guardians.set i (guardians.getD (guardians.length - 1) 0)).dropLast
    else removeGuardianLoop guardian guardians (i + 1) n

/-- `removeGuardian`. -/
def removeGuardian (this sender guardian : Address) (s : Storage) : Result Storage := do
  onlyOwner this sender
  require (s.isGuardian guardian = true) "account: Guardian does not exist"
  .ok { s with
    isGuardian := Function.update s.isGuardian guardian false
    guardians := removeGuardianLoop guardian s.guardians 0 s.guardians.length }

/-- `transferOwnership`. -/
def transferOwnership (this sender : Address) (newPubKey : Word × Word) (s : Storage) :
    Result Storage := do
  requireFromOwnerOrGuardian this sender s
  .ok { s with pubKey := newPubKey }

/-- `getGuardianCount`. -/
def getGuardianCount (s : Storage) : Word := BitVec.ofNat 256 s.guardians.length

/-! ### Deposits -/

/-- `getDeposit`. -/
def getDeposit (this : Address) : Prog Storage Word := do
  let ep ← entryPoint
  let data ← viewCall ep .balanceOf [word this]
  Prog.lift (abiDecodeWord data 0)

/-- `BaseAccount.getNonce`. -/
def getNonce (this : Address) : Prog Storage Word := do
  let ep ← entryPoint
  let data ← viewCall ep .getNonce [word this, .word 0]
  Prog.lift (abiDecodeWord data 0)

/-- `addDeposit`. -/
def addDeposit (this : Address) (value : Word) : Prog Storage Unit := do
  let ep ← entryPoint
  actionCall ep value .depositTo [word this]

/-- `withdrawDepositTo`. -/
def withdrawDepositTo (this sender withdrawAddress : Address) (amount : Word) :
    Prog Storage Unit := do
  Prog.lift (onlyOwner this sender)
  let ep ← entryPoint
  actionCall ep 0 .withdrawTo [word withdrawAddress, .word amount]

/-! ### Signatures -/

/-- The text whose hash the authenticator signs: `string.concat(pre, opHashBase64, post)`. -/
def clientDataJSON (pre post : Bytes) (hash : Word) : Bytes :=
  pre ++ Base64URL.encode hash.toBytes ++ post

/-- The digest that the key signs. -/
def sigHash (authenticatorData pre post : Bytes) (hash : Word) : Word :=
  sha256 (authenticatorData ++ (sha256 (clientDataJSON pre post hash)).toBytes)

/-- `_verifySignature`. -/
def verifySignature (authenticatorData pre post : Bytes) (hash r s : Word) :
    Prog Storage Bool := do
  let digest := sigHash authenticatorData pre post hash
  let verifier ← getRegistryAddress "p256Verifier"
  let st ← Prog.storage
  let data ← viewCall verifier .verify
    [.word digest, .word r, .word s, .word st.pubKey.1, .word st.pubKey.2]
  Prog.lift (abiDecodeBool data 0)

/-- What a signature holds: `(bytes32, uint256, uint256, bytes, string, string)`. -/
structure Passkey where
  keyHash : Word
  r : Word
  s : Word
  authenticatorData : Bytes
  clientDataJSONPre : Bytes
  clientDataJSONPost : Bytes
deriving DecidableEq, Repr

/-- `abi.decode(signature, (bytes32, uint256, uint256, bytes, string, string))`. -/
def decodePasskey (signature : Bytes) : Result Passkey := do
  requireHead signature 192
  let keyHash ← abiDecodeWord signature 0
  let r ← abiDecodeWord signature 32
  let s ← abiDecodeWord signature 64
  let authenticatorData ← abiDecodeBytesMemory signature 96
  let pre ← abiDecodeBytesMemory signature 128
  let post ← abiDecodeBytesMemory signature 160
  .ok ⟨keyHash, r, s, authenticatorData, pre, post⟩

/-- Whether a signature, in its encoded form, is accepted for a hash. -/
def acceptsSignature (hash : Word) (signature : Bytes) : Prog Storage Bool := do
  let sig ← Prog.lift (decodePasskey signature)
  verifySignature sig.authenticatorData sig.clientDataJSONPre sig.clientDataJSONPost hash sig.r
    sig.s

/-- `_validateSignature`, with the signature field of the operation. -/
def validateSignature (signature : Result Bytes) (userOpHash : Word) : Prog Storage Word := do
  let signature ← Prog.lift signature
  let accepted ← acceptsSignature userOpHash signature
  .pure (if accepted then 0 else 1)

/-- `isValidSignature`; the result is a `bytes4`, which stands at the high end of its word. -/
def isValidSignature (hash : Word) (signature : Bytes) : Prog Storage Word := do
  let accepted ← acceptsSignature hash signature
  .pure (if accepted then (0x1626ba7e : Word) <<< 224 else (0xffffffff : Word) <<< 224)

/-- `BaseAccount._payPrefund`. -/
def payPrefund (sender : Address) (missingAccountFunds : Word) : Prog Storage Unit :=
  if missingAccountFunds ≠ 0 then do
    let _ ← Prog.tryCall ⟨.call, sender, missingAccountFunds, []⟩
    .pure ()
  else .pure ()

/-- `BaseAccount.validateUserOp`; `_validateNonce` does nothing. -/
def validateUserOp (sender : Address) (signature : Result Bytes) (userOpHash : Word)
    (missingAccountFunds : Word) : Prog Storage Word := do
  requireFromEntryPoint sender
  let validationData ← validateSignature signature userOpHash
  payPrefund sender missingAccountFunds
  .pure validationData

/-! ### Upgrades -/

/-- `ERC1967Upgrade._IMPLEMENTATION_SLOT`. -/
def implementationSlot : Word :=
  0x360894a13ba1a3210667c828492db98dca3e2076cc3735a920a3ca505d382bbc

/-- The modifier `onlyProxy`, with `logic` the address `__self` of the implementation. -/
def onlyProxy (this logic : Address) (s : Storage) : Result Unit := do
  require (this ≠ logic) "Function must be called through delegatecall"
  require (s.implementation = logic) "Function must be called through active proxy"

/-- `_setImplementation`, followed by the event `Upgraded` where `emit` is set. -/
def setImplementation (newImplementation : Address) (emit : Bool) : Prog Storage Unit := do
  let code ← isContract newImplementation
  Prog.lift (require (code = true) "ERC1967: new implementation is not a contract")
  let s ← Prog.storage
  Prog.store { s with
    implementation := newImplementation
    upgraded := if emit then newImplementation :: s.upgraded else s.upgraded }

/-- `Address.functionDelegateCall`. -/
def functionDelegateCall (target : Address) (data : Bytes) : Prog Storage Unit := do
  match ← Prog.tryCall ⟨.delegatecall, target, 0, data⟩ with
  | .error .empty => .revert (.reason "Address: low-level delegate call failed")
  | .error e => .revert e
  | .ok returndata =>
    if returndata.length = 0 then
      let code ← isContract target
      Prog.lift (require (code = true) "Address: call to non-contract")
    else .pure ()

/-- `_upgradeToAndCall`. -/
def upgradeToAndCallInternal (newImplementation : Address) (data : Bytes) (forceCall : Bool) :
    Prog Storage Unit := do
  setImplementation newImplementation true
  if data.length > 0 ∨ forceCall = true then functionDelegateCall newImplementation data
  else .pure ()

/-- `_upgradeToAndCallUUPS`. -/
def upgradeToAndCallUUPS (newImplementation : Address) (data : Bytes) (forceCall : Bool) :
    Prog Storage Unit := do
  let s ← Prog.storage
  if s.rollback then setImplementation newImplementation false
  else
    match ← Prog.tryCall ⟨.staticcall, newImplementation, 0, Callee.proxiableUUID.encode []⟩ with
    | .error _ => .revert (.reason "ERC1967Upgrade: new implementation is not UUPS")
    | .ok returned =>
      let slot ← Prog.lift (abiDecodeWord returned 0)
      Prog.lift (require (slot = implementationSlot) "ERC1967Upgrade: unsupported proxiableUUID")
      upgradeToAndCallInternal newImplementation data forceCall

/-- `upgradeTo` and `upgradeToAndCall`: both authorise with `_authorizeUpgrade`, which is
`_onlyOwner`. -/
def upgrade (this logic sender newImplementation : Address) (data : Bytes) (forceCall : Bool) :
    Prog Storage Unit := do
  let s ← Prog.storage
  Prog.lift (onlyProxy this logic s)
  Prog.lift (onlyOwner this sender)
  upgradeToAndCallUUPS newImplementation data forceCall

def upgradeTo (this logic sender newImplementation : Address) : Prog Storage Unit :=
  upgrade this logic sender newImplementation [] false

def upgradeToAndCall (this logic sender newImplementation : Address) (data : Bytes) :
    Prog Storage Unit :=
  upgrade this logic sender newImplementation data true

/-- `proxiableUUID`, with the modifier `notDelegated`. -/
def proxiableUUID (this logic : Address) : Result Word := do
  require (this = logic) "UUPSUpgradeable: must not be called through delegatecall"
  .ok implementationSlot

/-! ### Dispatch -/

/-- A `uint256[2]` at byte offset `i`. -/
def abiDecodePair (args : Bytes) (i : ℕ) : Result (Word × Word) := do
  let x ← abiDecodeWord args i
  let y ← abiDecodeWord args (i + 32)
  .ok (x, y)

/-- The three arrays of `executeBatch`, in the calldata `data` with arguments `args`. -/
def decodeBatch (data args : Bytes) :
    Result (List (Result Address) × List Word × List (Result Bytes)) := do
  requireHead args 96
  let (dest, destLength) ← abiDecodeArray args 0
  let (value, valueLength) ← abiDecodeArray args 32
  let (func, funcLength) ← abiDecodeArray args 64
  .ok ((List.range destLength).map fun i => abiDecodeAddress args (dest + 32 * i),
    (List.range valueLength).map fun i => calldataload args (value + 32 * i),
    (List.range funcLength).map fun i => calldataTail data (4 + func) (4 + func + 32 * i))

/-- The arguments of `validateUserOp`: the signature field of the operation, the hash and the
funds. -/
def decodeValidation (data args : Bytes) : Result (Result Bytes × Word × Word) := do
  requireHead args 96
  let offset ← abiDecodeWord args 0
  if 2 ^ 64 ≤ offset.toNat then .error .empty
  else if args.length < offset.toNat + 352 then .error .empty
  else
    let userOpHash ← abiDecodeWord args 32
    let missingAccountFunds ← abiDecodeWord args 64
    .ok (calldataTail data (4 + offset.toNat) (4 + offset.toNat + 320), userOpHash,
      missingAccountFunds)

/-- The external functions, with their arguments decoded. -/
def run (this logic : Address) (msg : Msg) (args : Bytes) : Method → Prog Storage Bytes
  | .guardians => do
    let i ← Prog.lift (abiDecodeWord args 0)
    let s ← Prog.storage
    match s.guardians[i.toNat]? with
    | some a => .pure (abiEncode [word a])
    | none => .revert .empty
  | .isGuardian => do
    let a ← Prog.lift (abiDecodeAddress args 0)
    let s ← Prog.storage
    .pure (abiEncode [.word (if s.isGuardian a then 1 else 0)])
  | .enclaveRegistry => do
    let s ← Prog.storage
    .pure (abiEncode [word s.enclaveRegistry])
  | .pubKey => do
    let i ← Prog.lift (abiDecodeWord args 0)
    let s ← Prog.storage
    match [s.pubKey.1, s.pubKey.2][i.toNat]? with
    | some w => .pure (abiEncode [.word w])
    | none => .revert .empty
  | .entryPoint => do
    let ep ← entryPoint
    .pure (abiEncode [word ep])
  | .execute => do
    Prog.lift (requireHead args 96)
    let dest ← Prog.lift (abiDecodeAddress args 0)
    let value ← Prog.lift (abiDecodeWord args 32)
    let func ← Prog.lift (abiDecodeBytesCalldata args 64)
    noReturn (execute this msg.sender dest value func)
  | .executeBatch => do
    let (dest, value, func) ← Prog.lift (decodeBatch msg.data args)
    noReturn (executeBatch this msg.sender dest value func)
  | .initializeAccount => do
    Prog.lift (requireHead args 96)
    let key ← Prog.lift (abiDecodePair args 0)
    let registry ← Prog.lift (abiDecodeAddress args 64)
    noReturn (Prog.modify (initializeAccount true key registry))
  | .isValidSignature => do
    Prog.lift (requireHead args 64)
    let hash ← Prog.lift (abiDecodeWord args 0)
    let signature ← Prog.lift (abiDecodeBytesMemory args 32)
    returnWord (isValidSignature hash signature)
  | .addGuardian => do
    let guardian ← Prog.lift (abiDecodeAddress args 0)
    noReturn (Prog.modify (addGuardian this msg.sender guardian))
  | .removeGuardian => do
    let guardian ← Prog.lift (abiDecodeAddress args 0)
    noReturn (Prog.modify (removeGuardian this msg.sender guardian))
  | .transferOwnership => do
    let key ← Prog.lift (abiDecodePair args 0)
    noReturn (Prog.modify (transferOwnership this msg.sender key))
  | .getDeposit => returnWord (getDeposit this)
  | .addDeposit => noReturn (addDeposit this msg.value)
  | .withdrawDepositTo => do
    Prog.lift (requireHead args 64)
    let withdrawAddress ← Prog.lift (abiDecodeAddress args 0)
    let amount ← Prog.lift (abiDecodeWord args 32)
    noReturn (withdrawDepositTo this msg.sender withdrawAddress amount)
  | .getGuardianCount => do
    let s ← Prog.storage
    .pure (abiEncode [.word (getGuardianCount s)])
  | .getNonce => returnWord (getNonce this)
  | .validateUserOp => do
    let (signature, userOpHash, missingAccountFunds) ←
      Prog.lift (decodeValidation msg.data args)
    returnWord (validateUserOp msg.sender signature userOpHash missingAccountFunds)
  | .upgradeTo => do
    let newImplementation ← Prog.lift (abiDecodeAddress args 0)
    noReturn (upgradeTo this logic msg.sender newImplementation)
  | .upgradeToAndCall => do
    Prog.lift (requireHead args 64)
    let newImplementation ← Prog.lift (abiDecodeAddress args 0)
    let data ← Prog.lift (abiDecodeBytesMemory args 32)
    noReturn (upgradeToAndCall this logic msg.sender newImplementation data)
  | .proxiableUUID => do
    let slot ← Prog.lift (proxiableUUID this logic)
    .pure (abiEncode [.word slot])

/-- A call to the account: `receive` takes empty calldata, and there is no `fallback`. -/
def body (this logic : Address) (msg : Msg) : Prog Storage Bytes :=
  match Method.ofCalldata msg.data with
  | none => if msg.data.length = 0 then .pure [] else .revert .empty
  | some m =>
    if msg.value ≠ 0 ∧ m.payable = false then .revert .empty
    else run this logic msg (msg.data.drop 4) m

/-- The account at `this`, for as long as it has not emitted `Upgraded`. -/
def contract (this logic : Address) : Contract Storage where
  self := this
  live s := s.upgraded.isEmpty
  body := body this logic

end Enclave.P256SmartAccount
