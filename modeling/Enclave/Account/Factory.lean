import Enclave.Account.P256SmartAccount
import Enclave.Balance.SmartAccount
import Enclave.Evm.Create2

/-!
# The account factories

`P256SmartAccountFactory` and `SmartAccountFactory` differ in the account that they deploy, which is
a parameter here, and in an event.  Both deploy proxies of one implementation with `CREATE2`, whose
constructor calls `initialize` in the new proxy.

`ChainState` is what the factory finds: the code at every address, where the accounts that it has
deployed run as the machines of `Contract`.  `ChainStep` is what can happen: `createAccount`, called
by anyone, a step of an account, and the deployment of other contracts elsewhere.
-/

namespace Enclave

/-- What a factory deploys. -/
structure AccountKind where
  Storage : Type
  /-- The arguments of `initialize`. -/
  Args : Type
  Event : Type
  /-- `abi.encodeCall(initialize, args)`. -/
  encodeCall : Args → Bytes
  /-- The storage of a proxy that has only stored its implementation. -/
  fresh : Address → Storage
  /-- The code of the implementation `logic`, run by the constructor of the proxy at `this`. -/
  constructing : (this logic : Address) → Msg → Prog Storage Bytes
  /-- The account at `this` once it has been deployed. -/
  contract : (this logic : Address) → Contract Storage
  /-- What is emitted after a deployment. -/
  created : Address → Args → List Event

/-- A deployed factory, with `type(ERC1967Proxy).creationCode`. -/
structure Factory (K : AccountKind) where
  this : Address
  accountImplementation : Address
  creationCode : Bytes

/-- What is at an address: nothing, an account of the factory, or the code of someone else. -/
inductive Code (S : Type)
  | none
  | account (c : Config S)
  | other

/-- `addr.code.length > 0`; there is no code during the construction. -/
def Code.exists {S : Type} : Code S → Bool
  | none => false
  | account _ => true
  | other => true

/-- The code at every address, and the events of the factory. -/
structure ChainState (K : AccountKind) where
  code : Address → Code K.Storage
  events : List K.Event

namespace Factory

variable {K : AccountKind} (F : Factory K)

/-- The constructor arguments of the proxy, `abi.encode(address(accountImplementation), …)`. -/
def proxyArgs (args : K.Args) : Bytes :=
  abiEncode [.word (toWord F.accountImplementation), .bytes (K.encodeCall args)]

/-- `getAccountAddress`; the hash is that of `abi.encodePacked(creationCode, …)`, and the memory
does not matter. -/
def getAccountAddress (args : K.Args) (salt : Word) : Address :=
  computeAddress Memory.zero 0x80 F.this salt (keccak256 (F.creationCode ++ F.proxyArgs args))

/-- The init code of `new ERC1967Proxy`: the constructor arguments follow the creation code. -/
def initCode (args : K.Args) : Bytes := F.creationCode ++ F.proxyArgs args

/-- The constructor of `ERC1967Proxy` at `a`, which delegates the call of `initialize`. -/
def construct (a : Address) (args : K.Args) (ch : ChainState K) : Result K.Storage := do
  require ((ch.code F.accountImplementation).exists = true)
    "ERC1967: new implementation is not a contract"
  let call := K.constructing a F.accountImplementation ⟨F.this, 0, K.encodeCall args, false⟩
  let (_, s) ← Prog.eval (fun _ => .error .empty) call (K.fresh F.accountImplementation)
  .ok s

/-- `new ERC1967Proxy{salt: bytes32(salt)}(…)`: the opcode fails where there is code already. -/
def newProxy (args : K.Args) (salt : Word) (ch : ChainState K) :
    Result (Address × ChainState K) := do
  let a := create2Address F.this salt (F.initCode args)
  if (ch.code a).exists then .error .empty else
    let s ← F.construct a args ch
    .ok (a, { ch with code := Function.update ch.code a (.account (.idle s)) })

/-- `createAccount`. -/
def createAccount (args : K.Args) (salt : Word) (ch : ChainState K) :
    Result (Address × ChainState K) := do
  let addr := F.getAccountAddress args salt
  if (ch.code addr).exists then .ok (addr, ch) else
    let (ret, ch) ← F.newProxy args salt ch
    .ok (ret, { ch with events := ch.events ++ K.created addr args })

/-! ### The chain -/

/-- What happens, where `U` are the arguments that anyone calls `createAccount` with.  Other
contracts come and go at other addresses. -/
inductive ChainStep (U : Set (K.Args × Word)) : ChainState K → ChainState K → Prop
  | create {ch ch'} (args : K.Args) (salt : Word) (addr : Address) (hU : (args, salt) ∈ U)
      (h : F.createAccount args salt ch = .ok (addr, ch')) : ChainStep U ch ch'
  | use {ch} (a : Address) {c c' : Config K.Storage} (act : Action K.Storage)
      (hcode : ch.code a = .account c)
      (hstep : Step (K.contract a F.accountImplementation) c act c') :
      ChainStep U ch { ch with code := Function.update ch.code a (.account c') }
  | other {ch} (a : Address) (code : Code K.Storage) (hcode : code = .none ∨ code = .other)
      (hfree : ∀ x ∈ U, a ≠ F.getAccountAddress x.1 x.2) (himpl : a ≠ F.accountImplementation) :
      ChainStep U ch { ch with code := Function.update ch.code a code }

/-- When the factory has just been deployed: its implementation has code, and there is nothing yet
where it is going to deploy. -/
structure Start (U : Set (K.Args × Word)) (ch : ChainState K) : Prop where
  implementation : ch.code F.accountImplementation = .other
  vacant : ∀ x ∈ U, ch.code (F.getAccountAddress x.1 x.2) = .none

/-- The chain after any number of steps. -/
def Reachable (U : Set (K.Args × Word)) (ch : ChainState K) : Prop :=
  ∃ start, F.Start U start ∧ Relation.ReflTransGen (F.ChainStep U) start ch

end Factory

/-! ### The two factories -/

/-- The code of a `P256SmartAccount` while its proxy is being constructed. -/
def P256SmartAccount.constructing (this logic : Address) (msg : Msg) : Prog Storage Bytes :=
  match Method.ofCalldata msg.data with
  | some .initializeAccount =>
    if msg.value ≠ 0 then .revert .empty else do
      let args := msg.data.drop 4
      Prog.lift (requireHead args 96)
      let key ← Prog.lift (abiDecodePair args 0)
      let registry ← Prog.lift (abiDecodeAddress args 64)
      noReturn (Prog.modify (initializeAccount false key registry))
  | _ => body this logic msg

namespace P256SmartAccountFactory

open P256SmartAccount

/-- `P256SmartAccount` with a public key and a registry. -/
def kind : AccountKind where
  Storage := Storage
  Args := (Word × Word) × Address
  Event := Empty
  encodeCall args := Method.initializeAccount.selector ++
    abiEncode [.word args.1.1, .word args.1.2, word args.2]
  fresh := fresh
  constructing := constructing
  contract := contract
  created _ _ := []

def getAccountAddress (F : Factory kind) (pubkey : Word × Word) (enclaveRegistry : Address)
    (salt : Word) : Address := F.getAccountAddress (pubkey, enclaveRegistry) salt

def createAccount (F : Factory kind) (pubkey : Word × Word) (enclaveRegistry : Address)
    (salt : Word) (ch : ChainState kind) : Result (Address × ChainState kind) :=
  F.createAccount (pubkey, enclaveRegistry) salt ch

end P256SmartAccountFactory

namespace SmartAccountFactory

open SmartAccount

/-- `AccountCreated`. -/
structure AccountCreated where
  scwAddress : Address
  ownerAddress : Address
deriving DecidableEq, Repr

/-- `SmartAccount` with an owner and an entry point. -/
def kind (ecrecover : ECDSA.Ecrecover) : AccountKind where
  Storage := Storage
  Args := Address × Address
  Event := AccountCreated
  encodeCall args := Method.initializeAccount.selector ++
    abiEncode [.word (toWord args.1), .word (toWord args.2)]
  fresh := fresh
  constructing := dispatch ecrecover false
  contract := contract ecrecover
  created addr args := [⟨addr, args.1⟩]

def getAccountAddress {ecrecover : ECDSA.Ecrecover} (F : Factory (kind ecrecover))
    (owner entrypoint : Address) (salt : Word) : Address :=
  F.getAccountAddress (owner, entrypoint) salt

def createAccount {ecrecover : ECDSA.Ecrecover} (F : Factory (kind ecrecover))
    (owner entrypoint : Address) (salt : Word) (ch : ChainState (kind ecrecover)) :
    Result (Address × ChainState (kind ecrecover)) :=
  F.createAccount (owner, entrypoint) salt ch

end SmartAccountFactory

end Enclave
