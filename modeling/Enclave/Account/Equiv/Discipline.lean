import Enclave.Account.Equiv.Execution
import Enclave.Account.Equiv.Guardians
import Enclave.Account.Equiv.Selectors

/-!
# What the account writes and whom it calls

`discipline` says once what the code of an initialised account can do: the writes of each function
with the caller they need (`OwnWrite`), the calls whose function is written in the source
(`OwnCall`), and the calls of the caller's choice, which only `execute` and `executeBatch` make and
only after their guard.  `body_ensures`: every external function keeps to it, whatever the contracts
do that it calls.
-/

namespace Enclave.P256SmartAccount

/-! ### The discipline -/

/-- An account after `initialize` and before an upgrade. -/
structure Initialised (logic registry : Address) (s : Storage) : Prop where
  initialized : s.initialized = 1
  initializing : s.initializing = false
  registry : s.enclaveRegistry = registry
  implementation : s.implementation = logic
  rollback : s.rollback = false
  upgraded : s.upgraded = []

/-- The question for the entry point. -/
def entryPointQuery (registry : Address) : Call :=
  ⟨.staticcall, registry, 0, Callee.getRegistryAddress.encode [.bytes (ascii "entryPoint")]⟩

/-- In this frame the registry has given `a` as the entry point. -/
def EntryPointIs (registry : Address) (τ : Trace) (a : Address) : Prop :=
  ∃ data, (entryPointQuery registry, .ok data) ∈ τ ∧ abiDecodeAddress data 0 = .ok a

theorem EntryPointIs.cons {registry a : Address} {τ : Trace} (h : EntryPointIs registry τ a)
    (e : Call × Reply) : EntryPointIs registry (e :: τ) a := by
  obtain ⟨data, hmem, hdecode⟩ := h
  exact ⟨data, List.mem_cons_of_mem e hmem, hdecode⟩

/-- The calls whose function is written in the source. -/
inductive OwnCall (this registry : Address) (msg : Msg) (s : Storage) (τ : Trace) : Call → Prop
  | view (target : Address) (m : Callee) (args : List AbiValue) :
      OwnCall this registry msg s τ ⟨.staticcall, target, 0, m.encode args⟩
  | codesize (target : Address) : OwnCall this registry msg s τ ⟨.extcodesize, target, 0, []⟩
  | deposit (ep : Address) (value : Word) (hep : EntryPointIs registry τ ep) :
      OwnCall this registry msg s τ ⟨.call, ep, value, Callee.depositTo.encode [word this]⟩
  | withdraw (ep dest : Address) (amount : Word) (hep : EntryPointIs registry τ ep)
      (hsender : msg.sender = this) : OwnCall this registry msg s τ
        ⟨.call, ep, 0, Callee.withdrawTo.encode [word dest, .word amount]⟩
  | prefund (value : Word) (hep : EntryPointIs registry τ msg.sender) :
      OwnCall this registry msg s τ ⟨.call, msg.sender, value, []⟩
  | migrate (target : Address) (data : Bytes) (hupgraded : s.upgraded ≠ []) :
      OwnCall this registry msg s τ ⟨.delegatecall, target, 0, data⟩

/-- The functions that call a target of the caller's choice. -/
def Executes (msg : Msg) : Prop :=
  Method.ofCalldata msg.data = some .execute ∨ Method.ofCalldata msg.data = some .executeBatch

/-- The guard of these functions has been passed. -/
def Cleared (this registry : Address) (msg : Msg) (τ : Trace) : Prop :=
  msg.sender = this ∨ EntryPointIs registry τ msg.sender

theorem Cleared.cons {this registry : Address} {msg : Msg} {τ : Trace}
    (h : Cleared this registry msg τ) (e : Call × Reply) : Cleared this registry msg (e :: τ) := by
  rcases h with hsender | hep
  · exact Or.inl hsender
  · exact Or.inr (hep.cons e)

/-- The writes of the account, by function. -/
inductive OwnWrite (this : Address) (msg : Msg) (s : Storage) : Storage → Prop
  | transferOwnership (key : Word × Word)
      (hmethod : Method.ofCalldata msg.data = some .transferOwnership)
      (hsender : msg.sender = this ∨ s.isGuardian msg.sender = true) :
      OwnWrite this msg s { s with pubKey := key }
  | guardians (isGuardian : Address → Bool) (guardians : List Address)
      (hmethod : Method.ofCalldata msg.data = some .addGuardian ∨
        Method.ofCalldata msg.data = some .removeGuardian) (hsender : msg.sender = this) :
      OwnWrite this msg s { s with isGuardian := isGuardian, guardians := guardians }
  | upgrade (newImplementation : Address)
      (hmethod : Method.ofCalldata msg.data = some .upgradeTo ∨
        Method.ofCalldata msg.data = some .upgradeToAndCall) (hsender : msg.sender = this) :
      OwnWrite this msg s { s with
        implementation := newImplementation
        upgraded := newImplementation :: s.upgraded }

/-- What the account keeps to. -/
def discipline (this logic registry : Address) : Discipline Storage where
  inv := Initialised logic registry
  call msg s τ c := OwnCall this registry msg s τ c ∨
    (c.kind = .call ∧ Executes msg ∧ Cleared this registry msg τ)
  write msg s _ s' := OwnWrite this msg s s'

/-! ### The functions keep to it -/

section Ensures

variable {this logic registry : Address} {msg : Msg}

theorem ensures_viewCall {s : Storage} {τ : Trace} (target : Address) (m : Callee)
    (args : List AbiValue) : (viewCall target m args).Ensures (discipline this logic registry) msg
      (fun s τ data => Initialised logic registry s ∧
        (⟨.staticcall, target, 0, m.encode args⟩, .ok data) ∈ τ) s τ := by
  apply Prog.ensures_callOrRevert
  · exact Or.inl (.view target m args)
  · intro data s' hinv
    exact ⟨hinv, List.mem_cons_self⟩

theorem ensures_getRegistryAddress {s : Storage} {τ : Trace} (hs : Initialised logic registry s)
    (name : String) : (getRegistryAddress name).Ensures (discipline this logic registry) msg
      (fun s τ a => Initialised logic registry s ∧ ∃ data,
        (⟨.staticcall, registry, 0, Callee.getRegistryAddress.encode [.bytes (ascii name)]⟩,
          .ok data) ∈ τ ∧ abiDecodeAddress data 0 = .ok a) s τ := by
  show (viewCall s.enclaveRegistry _ _ >>= fun data => Prog.lift (abiDecodeAddress data 0)).Ensures
    _ _ _ _ _
  rw [hs.registry]
  refine Prog.ensures_bind (ensures_viewCall _ _ _) ?_
  rintro s τ data ⟨hinv, hmem⟩
  exact Prog.ensures_lift fun a ha => ⟨hinv, data, hmem, ha⟩

theorem ensures_entryPoint {s : Storage} {τ : Trace} (hs : Initialised logic registry s) :
    entryPoint.Ensures (discipline this logic registry) msg
      (fun s τ a => Initialised logic registry s ∧ EntryPointIs registry τ a) s τ :=
  ensures_getRegistryAddress hs "entryPoint"

theorem ensures_requireFromEntryPointOrOwner {s : Storage} {τ : Trace}
    (hs : Initialised logic registry s) :
    (requireFromEntryPointOrOwner this msg.sender).Ensures (discipline this logic registry) msg
      (fun _ τ _ => Cleared this registry msg τ) s τ := by
  refine Prog.ensures_bind (ensures_entryPoint hs) ?_
  rintro s τ ep ⟨-, hep⟩
  apply Prog.ensures_lift
  intro _ hrequire
  rcases require_eq_ok.mp hrequire with rfl | hsender
  · exact Or.inr hep
  · exact Or.inl hsender

/-- Chosen calls are allowed after the guard. -/
theorem call_of_cleared (hmethod : Executes msg) (s : Storage) (τ : Trace) (target : Address)
    (value : Word) (data : Bytes) (hτ : Cleared this registry msg τ) :
    (discipline this logic registry).call msg s τ ⟨.call, target, value, data⟩ :=
  Or.inr ⟨rfl, hmethod, hτ⟩

theorem ensures_isContract {s : Storage} {τ : Trace} (target : Address) :
    (isContract target).Ensures (discipline this logic registry) msg
      (fun s _ _ => Initialised logic registry s) s τ := by
  refine Prog.ensures_bind (Q := fun s _ _ => Initialised logic registry s) ?_ ?_
  · exact Prog.ensures_callOrRevert (Or.inl (.codesize target)) fun _ _ hinv => hinv
  · intro s τ _ hs
    exact hs

/-- The entry point that the registry gave stays known. -/
theorem frame_entryPointIs {α : Type} {Q : Storage → Trace → α → Prop} {p : Prog Storage α}
    {s : Storage} {τ : Trace} {a : Address}
    (hp : p.Ensures (discipline this logic registry) msg Q s τ) (hep : EntryPointIs registry τ a) :
    p.Ensures (discipline this logic registry) msg
      (fun s τ b => Q s τ b ∧ EntryPointIs registry τ a) s τ :=
  Prog.Ensures.frame (P := fun τ => EntryPointIs registry τ a) hp hep fun _ e h => h.cons e

/-- A high-level call of the entry point that moves funds. -/
theorem ensures_actionCall {s : Storage} {τ : Trace} {ep : Address} {value : Word} {m : Callee}
    {args : List AbiValue} (hep : EntryPointIs registry τ ep)
    (hcall : ∀ s τ, EntryPointIs registry τ ep →
      OwnCall this registry msg s τ ⟨.call, ep, value, m.encode args⟩) :
    (actionCall ep value m args).Ensures (discipline this logic registry) msg
      (fun _ _ _ => True) s τ := by
  refine Prog.ensures_bind (frame_entryPointIs (ensures_isContract ep) hep) ?_
  rintro s τ code ⟨-, hep⟩
  split_ifs
  · exact trivial
  · exact Prog.ensures_bind (Q := fun _ _ _ => True)
      (Prog.ensures_callOrRevert (Or.inl (hcall s τ hep)) fun _ _ _ => trivial)
      fun _ _ _ _ => trivial

theorem ensures_addDeposit {s : Storage} {τ : Trace} (hs : Initialised logic registry s)
    (value : Word) : (addDeposit this value).Ensures (discipline this logic registry) msg
      (fun _ _ _ => True) s τ := by
  refine Prog.ensures_bind (ensures_entryPoint hs) ?_
  rintro s τ ep ⟨-, hep⟩
  exact ensures_actionCall hep fun s τ hep => .deposit ep value hep

theorem ensures_withdrawDepositTo {s : Storage} {τ : Trace} (hs : Initialised logic registry s)
    (withdrawAddress : Address) (amount : Word) :
    (withdrawDepositTo this msg.sender withdrawAddress amount).Ensures
      (discipline this logic registry) msg (fun _ _ _ => True) s τ := by
  apply Prog.ensures_lift_bind
  intro _ hrequire
  have hsender : msg.sender = this := require_eq_ok.mp hrequire
  refine Prog.ensures_bind (ensures_entryPoint hs) ?_
  rintro s τ ep ⟨-, hep⟩
  exact ensures_actionCall hep fun s τ hep => .withdraw ep withdrawAddress amount hep hsender

/-- A view of the entry point. -/
theorem ensures_entryPointView {s : Storage} {τ : Trace} (hs : Initialised logic registry s)
    (m : Callee) (args : List AbiValue) :
    (do
      let ep ← entryPoint
      let data ← viewCall ep m args
      Prog.lift (abiDecodeWord data 0) : Prog Storage Word).Ensures
      (discipline this logic registry) msg (fun _ _ _ => True) s τ := by
  refine Prog.ensures_bind (ensures_entryPoint hs) ?_
  rintro s τ ep ⟨-, -⟩
  refine Prog.ensures_bind (ensures_viewCall ep m args) ?_
  rintro s τ data -
  exact Prog.ensures_lift fun _ _ => trivial

theorem ensures_verifySignature {s : Storage} {τ : Trace} (hs : Initialised logic registry s)
    (authenticatorData pre post : Bytes) (hash sigR sigS : Word) :
    (verifySignature authenticatorData pre post hash sigR sigS).Ensures
      (discipline this logic registry) msg (fun _ _ _ => True) s τ := by
  refine Prog.ensures_bind (ensures_getRegistryAddress hs _) ?_
  rintro s τ verifier -
  apply Prog.ensures_storage_bind
  refine Prog.ensures_bind (ensures_viewCall verifier _ _) ?_
  rintro s τ data -
  exact Prog.ensures_lift fun _ _ => trivial

theorem ensures_acceptsSignature {s : Storage} {τ : Trace} (hs : Initialised logic registry s)
    (hash : Word) (signature : Bytes) :
    (acceptsSignature hash signature).Ensures (discipline this logic registry) msg
      (fun _ _ _ => True) s τ := by
  apply Prog.ensures_lift_bind
  intro sig _
  exact ensures_verifySignature hs _ _ _ _ _ _

theorem ensures_validateUserOp {s : Storage} {τ : Trace} (hs : Initialised logic registry s)
    (signature : Result Bytes) (userOpHash missingAccountFunds : Word) :
    (validateUserOp msg.sender signature userOpHash missingAccountFunds).Ensures
      (discipline this logic registry) msg (fun _ _ _ => True) s τ := by
  have hguard : (requireFromEntryPoint msg.sender).Ensures (discipline this logic registry) msg
      (fun s τ _ => Initialised logic registry s ∧ EntryPointIs registry τ msg.sender) s τ := by
    refine Prog.ensures_bind (ensures_entryPoint hs) ?_
    rintro s τ ep ⟨hs, hep⟩
    apply Prog.ensures_lift
    intro _ hrequire
    rw [require_eq_ok.mp hrequire]
    exact ⟨hs, hep⟩
  refine Prog.ensures_bind hguard ?_
  rintro s τ _ ⟨hs, hep⟩
  -- the prefund goes to the sender, who is still known to be the entry point
  have hsig : (validateSignature signature userOpHash).Ensures (discipline this logic registry) msg
      (fun _ τ _ => EntryPointIs registry τ msg.sender) s τ := by
    apply Prog.ensures_lift_bind
    intro sig _
    refine Prog.ensures_bind
      (frame_entryPointIs (ensures_acceptsSignature hs userOpHash sig) hep) ?_
    rintro s τ accepted ⟨-, hep⟩
    exact hep
  refine Prog.ensures_bind hsig ?_
  intro s τ validationData hep
  refine Prog.ensures_bind (Q := fun _ _ _ => True) ?_ fun _ _ _ _ => trivial
  unfold payPrefund
  split_ifs
  · exact ⟨Or.inl (.prefund missingAccountFunds hep), fun _ _ _ => trivial⟩
  · exact trivial

/-- An upgrade that has passed `_authorizeUpgrade`. -/
theorem ensures_setImplementation {s : Storage} {τ : Trace}
    (hmethod : Method.ofCalldata msg.data = some .upgradeTo ∨
      Method.ofCalldata msg.data = some .upgradeToAndCall) (hsender : msg.sender = this)
    (newImplementation : Address) :
    (setImplementation newImplementation true).Ensures (discipline this logic registry) msg
      (fun s _ _ => s.upgraded ≠ []) s τ := by
  refine Prog.ensures_bind (ensures_isContract newImplementation) ?_
  rintro s τ code -
  apply Prog.ensures_lift_bind
  intro _ _
  exact ⟨.upgrade newImplementation hmethod hsender, List.cons_ne_nil _ _⟩

theorem ensures_functionDelegateCall {s : Storage} {τ : Trace} (hs : s.upgraded ≠ [])
    (target : Address) (data : Bytes) :
    (functionDelegateCall target data).Ensures (discipline this logic registry) msg
      (fun _ _ _ => True) s τ := by
  refine Prog.ensures_bind (Q := fun _ _ _ => True)
    (Prog.ensures_tryCall (Or.inl (.migrate target data hs)) fun _ _ _ => trivial) ?_
  rintro s τ r -
  split
  · exact trivial
  · exact trivial
  · split_ifs
    · refine Prog.ensures_bind (ensures_isContract target) ?_
      rintro s τ code -
      exact Prog.ensures_lift fun _ _ => trivial
    · exact trivial

theorem ensures_upgrade {s : Storage} {τ : Trace} (hs : Initialised logic registry s)
    (hmethod : Method.ofCalldata msg.data = some .upgradeTo ∨
      Method.ofCalldata msg.data = some .upgradeToAndCall)
    (newImplementation : Address) (data : Bytes) (forceCall : Bool) :
    (upgrade this logic msg.sender newImplementation data forceCall).Ensures
      (discipline this logic registry) msg (fun _ _ _ => True) s τ := by
  apply Prog.ensures_storage_bind
  apply Prog.ensures_lift_bind
  intro _ _
  apply Prog.ensures_lift_bind
  intro _ hrequire
  have hsender : msg.sender = this := require_eq_ok.mp hrequire
  apply Prog.ensures_storage_bind
  rw [hs.rollback, if_neg Bool.false_ne_true]
  refine Prog.ensures_bind (Q := fun _ _ _ => True)
    (Prog.ensures_tryCall (Or.inl (.view _ _ _)) fun _ _ _ => trivial) ?_
  rintro s τ r -
  cases r with
  | error e => exact trivial
  | ok returned =>
    apply Prog.ensures_lift_bind
    intro slot _
    apply Prog.ensures_lift_bind
    intro _ _
    refine Prog.ensures_bind (ensures_setImplementation hmethod hsender newImplementation) ?_
    intro s τ _ hupgraded
    split_ifs
    · exact ensures_functionDelegateCall hupgraded newImplementation data
    · exact trivial

/-- `initialize` fails on an account that is deployed and initialised. -/
theorem initializeAccount_ne_ok {s s' : Storage} (hs : Initialised logic registry s)
    {key : Word × Word} {newRegistry : Address} :
    initializeAccount true key newRegistry s ≠ .ok s' := by
  intro h
  unfold initializeAccount at h
  simp only [bind_eq_ok, require_eq_ok] at h
  obtain ⟨-, hrequire, -⟩ := h
  rcases hrequire with ⟨-, hlt⟩ | ⟨hdeployed, -⟩
  · rw [hs.initialized] at hlt
    exact absurd hlt (by decide)
  · cases hdeployed

theorem ensures_run {s : Storage} (hs : Initialised logic registry s) {m : Method}
    (hm : Method.ofCalldata msg.data = some m) :
    (run this logic msg (msg.data.drop 4) m).Ensures (discipline this logic registry) msg
      (fun _ _ _ => True) s [] := by
  cases m with
  | guardians =>
    apply Prog.ensures_lift_bind
    intro i _
    apply Prog.ensures_storage_bind
    split <;> exact trivial
  | isGuardian =>
    apply Prog.ensures_lift_bind
    intro a _
    exact trivial
  | enclaveRegistry => exact trivial
  | pubKey =>
    apply Prog.ensures_lift_bind
    intro i _
    apply Prog.ensures_storage_bind
    split <;> exact trivial
  | entryPoint => exact Prog.ensures_bind (ensures_entryPoint hs) fun _ _ _ _ => trivial
  | execute =>
    apply Prog.ensures_lift_bind
    intro _ _
    apply Prog.ensures_lift_bind
    intro dest _
    apply Prog.ensures_lift_bind
    intro value _
    apply Prog.ensures_lift_bind
    intro func _
    exact Prog.ensures_bind_pure (Execution.ensures_execute (fun _ e hτ => hτ.cons e)
      (call_of_cleared (Or.inl hm)) (ensures_requireFromEntryPointOrOwner hs) dest value func)
  | executeBatch =>
    apply Prog.ensures_lift_bind
    rintro ⟨dest, value, func⟩ _
    exact Prog.ensures_bind_pure (Execution.ensures_executeBatch (fun _ e hτ => hτ.cons e)
      (call_of_cleared (Or.inr hm)) (ensures_requireFromEntryPointOrOwner hs) dest value func)
  | initializeAccount =>
    apply Prog.ensures_lift_bind
    intro _ _
    apply Prog.ensures_lift_bind
    intro key _
    apply Prog.ensures_lift_bind
    intro newRegistry _
    apply Prog.ensures_bind_pure
    apply Prog.ensures_modify
    intro s' hs'
    -- the account has been initialised, so that this reverts
    exact absurd hs' (initializeAccount_ne_ok hs)
  | isValidSignature =>
    apply Prog.ensures_lift_bind
    intro _ _
    apply Prog.ensures_lift_bind
    intro hash _
    apply Prog.ensures_lift_bind
    intro signature _
    exact Prog.ensures_bind_pure
      (Prog.ensures_bind (ensures_acceptsSignature hs hash signature) fun _ _ _ _ => trivial)
  | addGuardian =>
    apply Prog.ensures_lift_bind
    intro guardian _
    apply Prog.ensures_bind_pure
    apply Prog.ensures_modify
    intro s' hs'
    obtain ⟨hsender, -, -, rfl⟩ := addGuardian_eq_ok.mp hs'
    exact .guardians _ s.guardians (Or.inl hm) hsender
  | removeGuardian =>
    apply Prog.ensures_lift_bind
    intro guardian _
    apply Prog.ensures_bind_pure
    apply Prog.ensures_modify
    intro s' hs'
    obtain ⟨hsender, -, rfl⟩ := removeGuardian_eq_ok.mp hs'
    exact .guardians _ _ (Or.inr hm) hsender
  | transferOwnership =>
    apply Prog.ensures_lift_bind
    intro key _
    apply Prog.ensures_bind_pure
    apply Prog.ensures_modify
    intro s' hs'
    obtain ⟨hsender, rfl⟩ := transferOwnership_eq_ok.mp hs'
    exact .transferOwnership key hm hsender
  | getDeposit => exact Prog.ensures_bind_pure (ensures_entryPointView hs _ _)
  | addDeposit => exact Prog.ensures_bind_pure (ensures_addDeposit hs msg.value)
  | withdrawDepositTo =>
    apply Prog.ensures_lift_bind
    intro _ _
    apply Prog.ensures_lift_bind
    intro withdrawAddress _
    apply Prog.ensures_lift_bind
    intro amount _
    exact Prog.ensures_bind_pure (ensures_withdrawDepositTo hs withdrawAddress amount)
  | getGuardianCount => exact trivial
  | getNonce => exact Prog.ensures_bind_pure (ensures_entryPointView hs _ _)
  | validateUserOp =>
    apply Prog.ensures_lift_bind
    rintro ⟨signature, userOpHash, missingAccountFunds⟩ _
    exact Prog.ensures_bind_pure (ensures_validateUserOp hs _ _ _)
  | upgradeTo =>
    apply Prog.ensures_lift_bind
    intro newImplementation _
    exact Prog.ensures_bind_pure (ensures_upgrade hs (Or.inl hm) newImplementation [] false)
  | upgradeToAndCall =>
    apply Prog.ensures_lift_bind
    intro _ _
    apply Prog.ensures_lift_bind
    intro newImplementation _
    apply Prog.ensures_lift_bind
    intro data _
    exact Prog.ensures_bind_pure (ensures_upgrade hs (Or.inr hm) newImplementation data true)
  | proxiableUUID =>
    apply Prog.ensures_lift_bind
    intro slot _
    exact trivial

/-- **Every external function keeps to the discipline.** -/
theorem body_ensures {s : Storage} (hs : Initialised logic registry s) :
    (body this logic msg).Ensures (discipline this logic registry) msg (fun _ _ _ => True)
      s [] := by
  unfold body
  cases hm : Method.ofCalldata msg.data with
  | none =>
    show (if msg.data.length = 0 then .pure [] else .revert .empty : Prog Storage Bytes).Ensures _ _
      _ _ _
    split_ifs <;> exact trivial
  | some m =>
    show (if msg.value ≠ 0 ∧ m.payable = false then .revert .empty
      else run this logic msg (msg.data.drop 4) m : Prog Storage Bytes).Ensures _ _ _ _ _
    split_ifs
    · exact trivial
    · exact ensures_run hs hm

end Ensures

end Enclave.P256SmartAccount
