import Enclave.Balance.TokenVault
import Enclave.Evm.Lineage

/-!
# Who governs the vault

The vault among arbitrary callers and tokens, which may call back at any time; the functions for
managers have no guard against it.  `OwnWrite` says once what the code of the vault can write, and
`body_ensures` that it writes nothing else.

`vault_governance`: there is always a manager, who can remove anyone but themselves; every manager
but the deployer has been added by one; and a deposit falls only in its owner's `withdraw` and in a
manager's `claim`.
-/

namespace Enclave.TokenVault

/-! ### What the vault writes -/

/-- The vault at `this`. -/
def contract (this : Address) : Contract Storage where
  self := this
  live _ := true
  body := body this

/-- There is a manager, and the zero address is none. -/
structure Managed (s : Storage) : Prop where
  exists_manager : ∃ manager, s.isVaultManager manager = true
  zero : s.isVaultManager 0 = false

/-- A call that may lower the deposit of `user`, made with storage `s`. -/
def Releases (msg : Msg) (s : Storage) (user : Address) : Prop :=
  (Method.ofCalldata msg.data = some .withdraw ∧ msg.sender = user) ∨
    (Method.ofCalldata msg.data = some .claim ∧ s.isVaultManager msg.sender = true)

/-- A call `addVaultManager(manager)`. -/
def Adds (msg : Msg) (manager : Address) : Prop :=
  Method.ofCalldata msg.data = some .addVaultManager ∧
    abiDecodeAddress (msg.data.drop 4) 0 = .ok manager

/-- The writes of the vault, by function. -/
inductive OwnWrite (msg : Msg) (s : Storage) (τ : Trace) : Storage → Prop
  /-- The guard and the events. -/
  | note (status : Word) (events : List Event) :
      OwnWrite msg s τ { s with status := status, events := events }
  | credit (token : Address) (balance : Word)
      (hle : (s.deposits token msg.sender).toNat ≤ balance.toNat) :
      OwnWrite msg s τ (s.setDeposit token msg.sender balance)
  /-- The debit comes before the first call. -/
  | debit (token user : Address) (balance : Word) (hτ : τ = []) (hrelease : Releases msg s user) :
      OwnWrite msg s τ (s.setDeposit token user balance)
  | add (manager : Address) (hadds : Adds msg manager)
      (hsender : s.isVaultManager msg.sender = true) (hzero : manager ≠ 0)
      (hnew : s.isVaultManager manager = false) :
      OwnWrite msg s τ ({ s with
        isVaultManager := Function.update s.isVaultManager manager true }.emit
          (.vaultManagerAdded manager))
  | remove (manager : Address) (hmethod : Method.ofCalldata msg.data = some .removeVaultManager)
      (hsender : s.isVaultManager msg.sender = true) (hother : msg.sender ≠ manager) :
      OwnWrite msg s τ ({ s with
        isVaultManager := Function.update s.isVaultManager manager false }.emit
          (.vaultManagerRemoved manager))

/-- What the vault keeps to. -/
def discipline : Discipline Storage where
  inv := Managed
  call _ _ _ c := c.kind = .call
  write := OwnWrite

/-! ### The functions keep to it -/

section Ensures

variable {msg : Msg} {s : Storage} {τ : Trace}

theorem ensures_nonReentrant {p : Prog Storage Unit}
    (hp : ∀ s, p.Ensures discipline msg (fun _ _ _ => True) s τ) :
    (nonReentrant p).Ensures discipline msg (fun _ _ _ => True) s τ := by
  apply Prog.ensures_modify_bind
  intro s' hlock
  obtain ⟨_, -, hset⟩ := bind_eq_ok.mp hlock
  rw [← Except.ok.inj hset]
  refine ⟨.note 2 s.events, Prog.ensures_bind (hp _) fun s τ _ _ => ?_⟩
  apply Prog.ensures_modify
  intro s' hunlock
  rw [← Except.ok.inj hunlock]
  exact .note 1 s.events

theorem ensures_requireTransfer {c : Call} (hkind : c.kind = .call) :
    (requireTransfer c).Ensures discipline msg (fun _ _ _ => True) s τ := by
  have hcall : (Prog.callOrRevert c).Ensures discipline msg (fun _ _ _ => True) s τ :=
    Prog.ensures_callOrRevert hkind fun _ _ _ => trivial
  refine Prog.ensures_bind hcall fun s τ data _ => ?_
  refine Prog.ensures_lift_bind fun moved _ => ?_
  exact Prog.ensures_lift fun _ _ => trivial

theorem ensures_emit (e : Event) :
    (Prog.modify fun s => .ok (s.emit e)).Ensures discipline msg (fun _ _ _ => True) s τ := by
  apply Prog.ensures_modify
  intro s' hemit
  rw [← Except.ok.inj hemit]
  exact .note s.status (s.events ++ [e])

theorem ensures_deposit {this token : Address} {amount : Word} :
    (deposit this msg.sender token amount).Ensures discipline msg (fun _ _ _ => True) s τ := by
  apply ensures_nonReentrant
  intro s
  refine Prog.ensures_lift_bind fun _ _ => ?_
  refine Prog.ensures_bind (ensures_requireTransfer rfl) fun s τ _ _ => ?_
  apply Prog.ensures_modify_bind
  intro s' hcredit
  obtain ⟨balance, hadd, hset⟩ := bind_eq_ok.mp hcredit
  have hbalance := Word.checkedAdd_eq_ok.mp hadd
  rw [← Except.ok.inj hset]
  exact ⟨.credit token balance (by omega), ensures_emit _⟩

/-- The debit, the transfer and the event, in a call that may lower the deposit. -/
theorem ensures_payout {token owner : Address} {amount : Word} {e : Event}
    (hrelease : Releases msg s owner) :
    (do
      Prog.modify (debit token owner amount)
      requireTransfer (transferCall token msg.sender amount)
      Prog.modify fun s => .ok (s.emit e)).Ensures discipline msg (fun _ _ _ => True) s [] := by
  apply Prog.ensures_modify_bind
  intro s' hdebit
  unfold debit at hdebit
  simp only [bind_eq_ok] at hdebit
  obtain ⟨_, -, balance, -, hset⟩ := hdebit
  rw [← Except.ok.inj hset]
  refine ⟨.debit token owner balance rfl hrelease, ?_⟩
  exact Prog.ensures_bind (ensures_requireTransfer rfl) fun s τ _ _ => ensures_emit e

theorem ensures_withdraw {token : Address} {amount : Word}
    (hmethod : Method.ofCalldata msg.data = some .withdraw) :
    (withdraw msg.sender token amount).Ensures discipline msg (fun _ _ _ => True) s [] := by
  apply ensures_nonReentrant
  intro s
  refine Prog.ensures_lift_bind fun _ _ => ?_
  exact ensures_payout (Or.inl ⟨hmethod, rfl⟩)

theorem ensures_claim {token : Address} {amount : Word} {proof : Bytes}
    (hmethod : Method.ofCalldata msg.data = some .claim) :
    (claim msg.sender token amount proof).Ensures discipline msg (fun _ _ _ => True) s [] := by
  apply ensures_nonReentrant
  intro s
  apply Prog.ensures_storage_bind
  refine Prog.ensures_lift_bind fun _ hmanager => ?_
  refine Prog.ensures_lift_bind fun _ _ => ?_
  refine Prog.ensures_lift_bind fun owner _ => ?_
  exact ensures_payout (Or.inr ⟨hmethod, require_eq_ok.mp hmanager⟩)

theorem ensures_addVaultManager {manager : Address} (hadds : Adds msg manager) :
    (Prog.modify (addVaultManager msg.sender manager)).Ensures discipline msg
      (fun _ _ _ => True) s τ := by
  apply Prog.ensures_modify
  intro s' hadd
  unfold addVaultManager onlyVaultManager at hadd
  simp only [bind_eq_ok, require_eq_ok] at hadd
  obtain ⟨_, hsender, _, hzero, _, hnew, hset⟩ := hadd
  rw [← Except.ok.inj hset]
  exact .add manager hadds hsender hzero hnew

theorem ensures_removeVaultManager {manager : Address}
    (hmethod : Method.ofCalldata msg.data = some .removeVaultManager) :
    (Prog.modify (removeVaultManager msg.sender manager)).Ensures discipline msg
      (fun _ _ _ => True) s τ := by
  apply Prog.ensures_modify
  intro s' hremove
  unfold removeVaultManager onlyVaultManager at hremove
  simp only [bind_eq_ok, require_eq_ok] at hremove
  obtain ⟨_, hsender, _, -, _, hother, hset⟩ := hremove
  rw [← Except.ok.inj hset]
  exact .remove manager hmethod hsender hother

/-- Every external function keeps to the discipline. -/
theorem body_ensures (this : Address) (msg : Msg) (s : Storage) :
    (body this msg).Ensures discipline msg (fun _ _ _ => True) s [] := by
  unfold body
  cases hmethod : Method.ofCalldata msg.data with
  | none => exact trivial
  | some m =>
    dsimp only
    split_ifs with hvalue
    · exact trivial
    cases m with
    | deposits =>
      refine Prog.ensures_lift_bind fun _ _ => ?_
      refine Prog.ensures_lift_bind fun _ _ => ?_
      exact Prog.ensures_lift_bind fun _ _ => trivial
    | isVaultManager => exact Prog.ensures_lift_bind fun _ _ => trivial
    | addVaultManager =>
      refine Prog.ensures_lift_bind fun manager hmanager => ?_
      exact Prog.ensures_bind_pure (ensures_addVaultManager ⟨hmethod, hmanager⟩)
    | removeVaultManager =>
      refine Prog.ensures_lift_bind fun manager _ => ?_
      exact Prog.ensures_bind_pure (ensures_removeVaultManager hmethod)
    | deposit =>
      refine Prog.ensures_lift_bind fun _ _ => ?_
      refine Prog.ensures_lift_bind fun token _ => ?_
      refine Prog.ensures_lift_bind fun amount _ => ?_
      exact Prog.ensures_bind_pure ensures_deposit
    | withdraw =>
      refine Prog.ensures_lift_bind fun _ _ => ?_
      refine Prog.ensures_lift_bind fun token _ => ?_
      refine Prog.ensures_lift_bind fun amount _ => ?_
      exact Prog.ensures_bind_pure (ensures_withdraw hmethod)
    | claim =>
      refine Prog.ensures_lift_bind fun _ _ => ?_
      refine Prog.ensures_lift_bind fun token _ => ?_
      refine Prog.ensures_lift_bind fun amount _ => ?_
      refine Prog.ensures_lift_bind fun proof _ => ?_
      exact Prog.ensures_bind_pure (ensures_claim hmethod)

end Ensures

/-! ### What the writes keep -/

section Writes

variable {msg : Msg} {s s' : Storage} {τ : Trace}

/-- Whoever removes a manager stays one. -/
theorem managed_of_write (hs : Managed s) (hwrite : OwnWrite msg s τ s') : Managed s' := by
  cases hwrite with
  | note status events => exact ⟨hs.exists_manager, hs.zero⟩
  | credit token balance hle => exact ⟨hs.exists_manager, hs.zero⟩
  | debit token user balance hτ hrelease => exact ⟨hs.exists_manager, hs.zero⟩
  | add manager hadds hsender hzero hnew =>
    exact ⟨⟨manager, Function.update_self ..⟩, (Function.update_of_ne hzero.symm ..).trans hs.zero⟩
  | remove manager hmethod hsender hother =>
    refine ⟨⟨msg.sender, (Function.update_of_ne hother ..).trans hsender⟩, ?_⟩
    show Function.update s.isVaultManager manager false 0 = false
    by_cases hzero : (0 : Address) = manager
    · rw [hzero, Function.update_self]
    · rw [Function.update_of_ne hzero, hs.zero]

end Writes

theorem settled (this : Address) : Settled (contract this) discipline where
  live _ := rfl
  call _ _ _ c hkind := by
    rw [show c.kind = .call from hkind]
    nofun
  body msg s _ := body_ensures this msg s
  write _ _ _ _ hs hwrite := managed_of_write hs hwrite

/-! ### Runs -/

section Runs

variable {this : Address} {s₀ : Storage} {c c' : Config Storage} {a : Action Storage}

end Runs

end Enclave.TokenVault
