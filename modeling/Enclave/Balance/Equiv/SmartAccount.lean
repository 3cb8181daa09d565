import Enclave.Account.Equiv.Execution
import Enclave.Account.Equiv.Selectors
import Enclave.Balance.SmartAccount

/-!
# What a `SmartAccount` writes and whom it calls

An account that has been initialised keeps its owner and its entry point.  `discipline` says what
its code can do: the calls whose function is written in the source (`OwnCall`), the calls of the
caller's choice, which only `execute` and `executeBatch` make and only for the entry point or the
owner, and the writes of an upgrade, by the owner or the account itself.  `body_ensures`: every
external function keeps to this, whatever the contracts do that it calls.
-/

namespace Enclave.SmartAccount

open P256SmartAccount (Callee decodeBatch decodeValidation implementationSlot word)

theorem Method.selector_signature (m : Method) : m.selector = Enclave.selector m.signature := by
  -- The signatures that the other account has too are hashed there.
  cases m with
  | entryPoint => exact P256SmartAccount.Method.selector_signature .entryPoint
  | execute => exact P256SmartAccount.Method.selector_signature .execute
  | executeBatch => exact P256SmartAccount.Method.selector_signature .executeBatch
  | getDeposit => exact P256SmartAccount.Method.selector_signature .getDeposit
  | addDeposit => exact P256SmartAccount.Method.selector_signature .addDeposit
  | withdrawDepositTo => exact P256SmartAccount.Method.selector_signature .withdrawDepositTo
  | getNonce => exact P256SmartAccount.Method.selector_signature .getNonce
  | validateUserOp => exact P256SmartAccount.Method.selector_signature .validateUserOp
  | upgradeTo => exact P256SmartAccount.Method.selector_signature .upgradeTo
  | upgradeToAndCall => exact P256SmartAccount.Method.selector_signature .upgradeToAndCall
  | proxiableUUID => exact P256SmartAccount.Method.selector_signature .proxiableUUID
  | _ => decide +kernel

theorem Method.dispatches : Dispatches Method.selector Method.all where
  length m := by cases m <;> rfl
  find m := by cases m <;> decide

theorem ofCalldata_append (m : Method) (args : Bytes) :
    Method.ofCalldata (m.selector ++ args) = some m :=
  ofSelector_append Method.dispatches m args

/-- A call that the account's own code makes is not a call of one of its functions, except for
`proxiableUUID`. -/
theorem ofCalldata_encode {m : Callee} {args : List AbiValue} {m' : Method}
    (h : Method.ofCalldata (m.encode args) = some m') : m' = .proxiableUUID := by
  have hsel : m'.selector = m.selector := by
    rw [selector_of_ofSelector h, Callee.encode]
    cases m <;> rfl
  cases m <;> cases m' <;> first | rfl | exact absurd hsel (by decide)

/-! ### The discipline -/

/-- An account after `initialize` and before an upgrade. -/
structure Initialised (logic owner entrypoint : Address) (s : Storage) : Prop where
  owner : s.owner = owner
  entrypoint : s.entrypoint = entrypoint
  initialized : s.initialized = 1
  initializing : s.initializing = false
  implementation : s.implementation = logic
  rollback : s.rollback = false
  upgraded : s.upgraded = []

/-- The functions that call a target of the caller's choice. -/
def Executes (msg : Msg) : Prop :=
  Method.ofCalldata msg.data = some .execute ∨ Method.ofCalldata msg.data = some .executeBatch

/-- The calls whose function is written in the source. -/
inductive OwnCall (this owner entrypoint : Address) (msg : Msg) (s : Storage) : Call → Prop
  | view (target : Address) (m : Callee) (args : List AbiValue) :
      OwnCall this owner entrypoint msg s ⟨.staticcall, target, 0, m.encode args⟩
  | codesize (target : Address) :
      OwnCall this owner entrypoint msg s ⟨.extcodesize, target, 0, []⟩
  | deposit : OwnCall this owner entrypoint msg s
      ⟨.call, entrypoint, msg.value, Callee.depositTo.encode [word this]⟩
  | withdraw (dest : Address) (amount : Word)
      (hmethod : Method.ofCalldata msg.data = some .withdrawDepositTo)
      (hsender : msg.sender = owner ∨ msg.sender = this) : OwnCall this owner entrypoint msg s
        ⟨.call, entrypoint, 0, Callee.withdrawTo.encode [word dest, .word amount]⟩
  | prefund (value : Word) (hmethod : Method.ofCalldata msg.data = some .validateUserOp)
      (hsender : msg.sender = entrypoint) :
      OwnCall this owner entrypoint msg s ⟨.call, entrypoint, value, []⟩
  | migrate (target : Address) (data : Bytes) (hupgraded : s.upgraded ≠ []) :
      OwnCall this owner entrypoint msg s ⟨.delegatecall, target, 0, data⟩

/-- A call of the caller's choice, for the entry point or the owner. -/
structure Chosen (owner entrypoint : Address) (msg : Msg) (c : Call) : Prop where
  kind : c.kind = .call
  method : Executes msg
  sender : msg.sender = entrypoint ∨ msg.sender = owner

/-- The write of an upgrade. -/
structure OwnWrite (this owner : Address) (msg : Msg) (s s' : Storage) : Prop where
  method : Method.ofCalldata msg.data = some .upgradeTo ∨
    Method.ofCalldata msg.data = some .upgradeToAndCall
  sender : msg.sender = owner ∨ msg.sender = this
  storage : ∃ newImplementation, s' = { s with
    implementation := newImplementation
    upgraded := newImplementation :: s.upgraded }

/-- What the account keeps to. -/
def discipline (this logic owner entrypoint : Address) : Discipline Storage where
  inv := Initialised logic owner entrypoint
  call msg s _ c := OwnCall this owner entrypoint msg s c ∨ Chosen owner entrypoint msg c
  write msg s _ s' := OwnWrite this owner msg s s'

/-! ### The functions keep to it -/

section Ensures

variable {this logic owner entrypoint : Address} {msg : Msg} {s : Storage} {τ : Trace}

theorem ensures_view (target : Address) (m : Callee) (args : List AbiValue) :
    (do
      let data ← viewCall target m args
      Prog.lift (abiDecodeWord data 0) : Prog Storage Word).Ensures
      (discipline this logic owner entrypoint) msg (fun _ _ _ => True) s τ :=
  Prog.ensures_bind (Q := fun _ _ _ => True)
    (Prog.ensures_callOrRevert (Or.inl (.view target m args)) fun _ _ _ => trivial)
    fun _ _ _ _ => Prog.ensures_lift fun _ _ => trivial

theorem ensures_isContract (target : Address) :
    (isContract target).Ensures (discipline this logic owner entrypoint) msg
      (fun s _ _ => Initialised logic owner entrypoint s) s τ := by
  refine Prog.ensures_bind (Q := fun s _ _ => Initialised logic owner entrypoint s) ?_ ?_
  · exact Prog.ensures_callOrRevert (Or.inl (.codesize target)) fun _ _ hinv => hinv
  · intro s τ _ hs
    exact hs

/-- A high-level call of the entry point. -/
theorem ensures_actionCall {value : Word} {m : Callee} {args : List AbiValue}
    (hcall : ∀ s, OwnCall this owner entrypoint msg s ⟨.call, entrypoint, value, m.encode args⟩) :
    (actionCall entrypoint value m args).Ensures (discipline this logic owner entrypoint) msg
      (fun _ _ _ => True) s τ := by
  refine Prog.ensures_bind (ensures_isContract entrypoint) ?_
  rintro s τ code -
  split_ifs
  · exact trivial
  · exact Prog.ensures_bind (Q := fun _ _ _ => True)
      (Prog.ensures_callOrRevert (Or.inl (hcall s)) fun _ _ _ => trivial)
      fun _ _ _ _ => trivial

/-- Chosen calls are allowed to the entry point and to the owner. -/
theorem call_of_sender (hmethod : Executes msg) (s : Storage) (τ : Trace) (target : Address)
    (value : Word) (data : Bytes) (hsender : msg.sender = entrypoint ∨ msg.sender = owner) :
    (discipline this logic owner entrypoint).call msg s τ ⟨.call, target, value, data⟩ :=
  Or.inr ⟨rfl, hmethod, hsender⟩

theorem ensures_requireFromEntryPointOrOwner (hs : Initialised logic owner entrypoint s) :
    (requireFromEntryPointOrOwner msg.sender).Ensures (discipline this logic owner entrypoint) msg
      (fun _ _ _ => msg.sender = entrypoint ∨ msg.sender = owner) s τ := by
  apply Prog.ensures_storage_bind
  apply Prog.ensures_lift
  intro _ hrequire
  have hsender : msg.sender = entryPoint s ∨ msg.sender = s.owner := require_eq_ok.mp hrequire
  rwa [entryPoint, hs.entrypoint, hs.owner] at hsender

theorem ensures_validateUserOp (hs : Initialised logic owner entrypoint s)
    (hmethod : Method.ofCalldata msg.data = some .validateUserOp) (ecrecover : ECDSA.Ecrecover)
    (signature : Result Bytes) (userOpHash missingAccountFunds : Word) :
    (validateUserOp ecrecover msg.sender signature userOpHash missingAccountFunds).Ensures
      (discipline this logic owner entrypoint) msg (fun _ _ _ => True) s τ := by
  apply Prog.ensures_storage_bind
  refine Prog.ensures_lift_bind fun _ hrequire => ?_
  have hsender : msg.sender = s.entrypoint := require_eq_ok.mp hrequire
  rw [hs.entrypoint] at hsender
  refine Prog.ensures_bind (Q := fun _ _ _ => True) ?_ ?_
  · apply Prog.ensures_storage_bind
    refine Prog.ensures_lift_bind fun sig _ => ?_
    exact Prog.ensures_lift_bind fun signer _ => trivial
  · rintro s τ validationData -
    refine Prog.ensures_bind (Q := fun _ _ _ => True) ?_ fun _ _ _ _ => trivial
    unfold payPrefund
    split_ifs
    · refine ⟨Or.inl ?_, fun _ _ _ => trivial⟩
      rw [hsender]
      exact .prefund missingAccountFunds hmethod hsender
    · exact trivial

theorem ensures_functionDelegateCall (hs : s.upgraded ≠ []) (target : Address) (data : Bytes) :
    (functionDelegateCall target data).Ensures (discipline this logic owner entrypoint) msg
      (fun _ _ _ => True) s τ := by
  refine Prog.ensures_bind (Q := fun _ _ _ => True)
    (Prog.ensures_tryCall (Or.inl (.migrate target data hs)) fun _ _ _ => trivial) ?_
  rintro s τ r -
  split
  · exact trivial
  · exact trivial
  · split_ifs
    · refine Prog.ensures_bind (ensures_isContract target) ?_
      rintro s τ code -
      exact Prog.ensures_lift fun _ _ => trivial
    · exact trivial

theorem ensures_upgrade (hs : Initialised logic owner entrypoint s)
    (hmethod : Method.ofCalldata msg.data = some .upgradeTo ∨
      Method.ofCalldata msg.data = some .upgradeToAndCall)
    (newImplementation : Address) (data : Bytes) (forceCall : Bool) :
    (upgrade this logic msg.sender newImplementation data forceCall).Ensures
      (discipline this logic owner entrypoint) msg (fun _ _ _ => True) s τ := by
  apply Prog.ensures_storage_bind
  refine Prog.ensures_lift_bind fun _ _ => ?_
  refine Prog.ensures_lift_bind fun _ hrequire => ?_
  have hsender : msg.sender = s.owner ∨ msg.sender = this := require_eq_ok.mp hrequire
  rw [hs.owner] at hsender
  apply Prog.ensures_storage_bind
  rw [hs.rollback, if_neg Bool.false_ne_true]
  refine Prog.ensures_bind (Q := fun _ _ _ => True)
    (Prog.ensures_tryCall (Or.inl (.view _ _ _)) fun _ _ _ => trivial) ?_
  rintro s τ r -
  cases r with
  | error e => exact trivial
  | ok returned =>
    refine Prog.ensures_lift_bind fun slot _ => ?_
    refine Prog.ensures_lift_bind fun _ _ => ?_
    have hset : (setImplementation newImplementation true).Ensures
        (discipline this logic owner entrypoint) msg (fun s _ _ => s.upgraded ≠ []) s τ := by
      refine Prog.ensures_bind (ensures_isContract newImplementation) ?_
      rintro s τ code -
      refine Prog.ensures_lift_bind fun _ _ => ?_
      exact ⟨⟨hmethod, hsender, newImplementation, rfl⟩, List.cons_ne_nil _ _⟩
    refine Prog.ensures_bind hset fun s τ _ hupgraded => ?_
    split_ifs
    · exact ensures_functionDelegateCall hupgraded newImplementation data
    · exact trivial

/-- `initialize` fails on an account that is deployed and initialised. -/
theorem initializeAccount_ne_ok {s' : Storage} (hs : Initialised logic owner entrypoint s)
    {newOwner newEntrypoint : Address} :
    initializeAccount true newOwner newEntrypoint s ≠ .ok s' := by
  intro h
  unfold initializeAccount at h
  simp only [bind_eq_ok, require_eq_ok] at h
  obtain ⟨-, hrequire, -⟩ := h
  rcases hrequire with ⟨-, hlt⟩ | ⟨hdeployed, -⟩
  · rw [hs.initialized] at hlt
    exact absurd hlt (by decide)
  · cases hdeployed

theorem ensures_run {ecrecover : ECDSA.Ecrecover} (hs : Initialised logic owner entrypoint s)
    {m : Method} (hm : Method.ofCalldata msg.data = some m) :
    (run ecrecover true this logic msg (msg.data.drop 4) m).Ensures
      (discipline this logic owner entrypoint) msg (fun _ _ _ => True) s [] := by
  have hentrypoint : entryPoint s = entrypoint := hs.entrypoint
  cases m with
  | owner => exact trivial
  | entrypoint => exact trivial
  | entryPoint => exact trivial
  | execute =>
    refine Prog.ensures_lift_bind fun _ _ => ?_
    refine Prog.ensures_lift_bind fun dest _ => ?_
    refine Prog.ensures_lift_bind fun value _ => ?_
    refine Prog.ensures_lift_bind fun func _ => Prog.ensures_bind_pure ?_
    exact Execution.ensures_execute (fun _ _ hsender => hsender) (call_of_sender (Or.inl hm))
      (ensures_requireFromEntryPointOrOwner hs) dest value func
  | executeBatch =>
    refine Prog.ensures_lift_bind fun ⟨dest, value, func⟩ _ => Prog.ensures_bind_pure ?_
    exact Execution.ensures_executeBatch (fun _ _ hsender => hsender)
      (call_of_sender (Or.inr hm)) (ensures_requireFromEntryPointOrOwner hs) dest value func
  | initializeAccount =>
    refine Prog.ensures_lift_bind fun _ _ => ?_
    refine Prog.ensures_lift_bind fun newOwner _ => ?_
    refine Prog.ensures_lift_bind fun newEntrypoint _ => Prog.ensures_bind_pure ?_
    apply Prog.ensures_modify
    intro s' hs'
    -- the account has been initialised, so that this reverts
    exact absurd hs' (initializeAccount_ne_ok hs)
  | getDeposit => exact Prog.ensures_bind_pure (ensures_view _ _ _)
  | addDeposit =>
    refine Prog.ensures_bind_pure (Prog.ensures_storage_bind ?_)
    rw [hentrypoint]
    exact ensures_actionCall fun _ => .deposit
  | withdrawDepositTo =>
    refine Prog.ensures_lift_bind fun _ _ => ?_
    refine Prog.ensures_lift_bind fun withdrawAddress _ => ?_
    refine Prog.ensures_lift_bind fun amount _ => Prog.ensures_bind_pure ?_
    apply Prog.ensures_storage_bind
    refine Prog.ensures_lift_bind fun _ hrequire => ?_
    have hsender : msg.sender = s.owner ∨ msg.sender = this := require_eq_ok.mp hrequire
    rw [hs.owner] at hsender
    rw [hentrypoint]
    exact ensures_actionCall fun _ => .withdraw withdrawAddress amount hm hsender
  | getNonce => exact Prog.ensures_bind_pure (ensures_view _ _ _)
  | validateUserOp =>
    refine Prog.ensures_lift_bind fun ⟨signature, userOpHash, missingAccountFunds⟩ _ => ?_
    exact Prog.ensures_bind_pure (ensures_validateUserOp hs hm _ _ _ _)
  | upgradeTo =>
    refine Prog.ensures_lift_bind fun newImplementation _ => ?_
    exact Prog.ensures_bind_pure (ensures_upgrade hs (Or.inl hm) newImplementation [] false)
  | upgradeToAndCall =>
    refine Prog.ensures_lift_bind fun _ _ => ?_
    refine Prog.ensures_lift_bind fun newImplementation _ => ?_
    refine Prog.ensures_lift_bind fun data _ => ?_
    exact Prog.ensures_bind_pure (ensures_upgrade hs (Or.inr hm) newImplementation data true)
  | proxiableUUID => exact Prog.ensures_lift_bind fun _ _ => trivial
  | tokensReceived =>
    refine Prog.ensures_lift_bind fun _ _ => ?_
    refine Prog.ensures_lift_bind fun _ _ => ?_
    refine Prog.ensures_lift_bind fun _ _ => ?_
    refine Prog.ensures_lift_bind fun _ _ => ?_
    refine Prog.ensures_lift_bind fun _ _ => ?_
    exact Prog.ensures_lift_bind fun _ _ => trivial
  | onERC721Received =>
    refine Prog.ensures_lift_bind fun _ _ => ?_
    refine Prog.ensures_lift_bind fun _ _ => ?_
    refine Prog.ensures_lift_bind fun _ _ => ?_
    exact Prog.ensures_lift_bind fun _ _ => trivial
  | onERC1155Received =>
    refine Prog.ensures_lift_bind fun _ _ => ?_
    refine Prog.ensures_lift_bind fun _ _ => ?_
    refine Prog.ensures_lift_bind fun _ _ => ?_
    exact Prog.ensures_lift_bind fun _ _ => trivial
  | onERC1155BatchReceived =>
    refine Prog.ensures_lift_bind fun _ _ => ?_
    refine Prog.ensures_lift_bind fun _ _ => ?_
    refine Prog.ensures_lift_bind fun _ _ => ?_
    refine Prog.ensures_lift_bind fun _ _ => ?_
    refine Prog.ensures_lift_bind fun _ _ => ?_
    exact Prog.ensures_lift_bind fun _ _ => trivial
  | supportsInterface => exact Prog.ensures_lift_bind fun _ _ => trivial

/-- **Every external function keeps to the discipline.** -/
theorem body_ensures {ecrecover : ECDSA.Ecrecover} (hs : Initialised logic owner entrypoint s) :
    (body ecrecover this logic msg).Ensures (discipline this logic owner entrypoint) msg
      (fun _ _ _ => True) s [] := by
  unfold body dispatch
  cases hm : Method.ofCalldata msg.data with
  | none =>
    show (if msg.data.length = 0 then .pure [] else .revert .empty : Prog Storage Bytes).Ensures _ _
      _ _ _
    split_ifs <;> exact trivial
  | some m =>
    show (if msg.value ≠ 0 ∧ m.payable = false then .revert .empty
      else run ecrecover true this logic msg (msg.data.drop 4) m : Prog Storage Bytes).Ensures
        _ _ _ _ _
    split_ifs
    · exact trivial
    · exact ensures_run hs hm

end Ensures

/-- An upgrade ends the account's own code. -/
theorem inv_of_write {this logic owner entrypoint : Address} {msg : Msg} {s s' : Storage}
    (hwrite : OwnWrite this owner msg s s') (hlive : s'.upgraded.isEmpty = true) :
    Initialised logic owner entrypoint s' := by
  obtain ⟨newImplementation, rfl⟩ := hwrite.storage
  cases hlive

/-- Every configuration of a run from an initialised account is sound. -/
theorem sound_of_account_run {ecrecover : ECDSA.Ecrecover} {this logic owner entrypoint : Address}
    {P : Config Storage → Action Storage → Prop} {s : Storage}
    (hs : Initialised logic owner entrypoint s) {c : Config Storage}
    (hrun : Run (contract ecrecover this logic) P (.idle s) c) :
    Config.Sound (contract ecrecover this logic) (discipline this logic owner entrypoint) c :=
  sound_of_run (fun _ _ hinv => body_ensures hinv)
    (fun _ _ _ _ _ hwrite hlive => inv_of_write hwrite hlive) hs hrun

end Enclave.SmartAccount
