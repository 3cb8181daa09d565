import Enclave.Paymaster.Equiv.ERC20
import Enclave.Paymaster.Equiv.Solver

/-!
# Whether the solver paymasters can pay

The payout is a `transferFrom` by the paymaster out of its own balance, which an OpenZeppelin token
charges to the allowance that the paymaster has given itself.  No function of the contracts gives
one (`unapproved_stateAfter`), so that from every reachable state only the amount zero is paid
(`payout_iff`).
-/

namespace Enclave

namespace SolverPaymaster

open Paymaster

/-- A token function that someone else calls leaves alone what an address has allowed itself. -/
theorem allowance_of_run {t t' : ERC20} {caller a : Address} {f : TokenFunction}
    (hne : a ≠ caller) (h : f.run caller t = .ok t') : t'.allowances a a = t.allowances a a := by
  cases f with
  | transfer recipient amount =>
    obtain ⟨⟨_, moved⟩, htransfer, hmoved⟩ := bind_eq_ok.mp h
    obtain ⟨_, hbalance, hpair⟩ := bind_eq_ok.mp htransfer
    cases hpair
    rw [← Except.ok.inj hmoved, ERC20.allowances_of_transferBalance hbalance]
  | transferFrom sender recipient amount =>
    obtain ⟨⟨_, moved⟩, htransfer, hmoved⟩ := bind_eq_ok.mp h
    unfold ERC20.transferFrom at htransfer
    simp only [bind_eq_ok] at htransfer
    obtain ⟨spent, hspend, _, hbalance, hpair⟩ := htransfer
    cases hpair
    rw [← Except.ok.inj hmoved, ERC20.allowances_of_transferBalance hbalance,
      ERC20.allowance_of_spendAllowance hspend (Or.inr hne)]
  | approve spender amount => exact ERC20.allowance_of_approve h (Or.inl hne)
  | increaseAllowance spender addedValue =>
    obtain ⟨_, -, happrove⟩ := bind_eq_ok.mp h
    exact ERC20.allowance_of_approve happrove (Or.inl hne)
  | decreaseAllowance spender subtractedValue =>
    obtain ⟨_, -, happrove⟩ := bind_eq_ok.mp h
    exact ERC20.allowance_of_approve happrove (Or.inl hne)
  | supply balances => rw [← Except.ok.inj h]

/-! ### One validation -/

variable {recover : Word → Bytes → Result Address} {v : Version} {site : Site}

/-- The paymaster has given itself no allowance. -/
def Unapproved (site : Site) (tokens : Address → ERC20) : Prop :=
  ∀ token, (tokens token).allowances site.this site.this = 0

theorem openZeppelin_transferFrom_iff {tokens tokens' : Address → ERC20} {token recipient : Address}
    {amount : Word} {paid : Bool} (hnone : Unapproved site tokens) :
    openZeppelin.transferFrom token site.this site.this recipient amount tokens
      = .ok (paid, tokens') ↔
      (amount = 0 ∧ site.this ≠ 0 ∧ recipient ≠ 0) ∧ paid = true ∧ tokens' = tokens := by
  show ((tokens token).transferFrom site.this site.this recipient amount >>= fun r =>
    Except.ok (r.1, Function.update tokens token r.2)) = _ ↔ _
  rw [bind_eq_ok]
  constructor
  · rintro ⟨r, htransfer, hpair⟩
    obtain ⟨hcond, rfl⟩ := (ERC20.transferFrom_self_iff (hnone token)).mp htransfer
    cases hpair
    exact ⟨hcond, rfl, Function.update_eq_self token tokens⟩
  · rintro ⟨hcond, rfl, rfl⟩
    refine ⟨(true, tokens' token), (ERC20.transferFrom_self_iff (hnone token)).mpr ⟨hcond, rfl⟩, ?_⟩
    rw [Function.update_eq_self]

/-- Whatever a validation answers, the tokens stay where they are. -/
theorem tokens_of_validate {userOp : UserOperation} {senderNonce senderNonce' : Nonces}
    {tokens tokens' : Address → ERC20} {answer : Bytes × Word} (hnone : Unapproved site tokens)
    (h : validateSolverWith recover openZeppelin v site userOp senderNonce tokens
      = .ok (answer, senderNonce', tokens')) : tokens' = tokens := by
  unfold validateSolverWith at h
  simp only [bind_eq_ok] at h
  obtain ⟨⟨_, _, _, tokenAddress, amount⟩, -, _, -, _, -, signer, -, hpay⟩ := h
  simp only at hpay
  split_ifs at hpay
  · cases hpay
    rfl
  · simp only [bind_eq_ok] at hpay
    obtain ⟨⟨paid, moved⟩, htransfer, _, -, hanswer⟩ := hpay
    cases hanswer
    exact ((openZeppelin_transferFrom_iff hnone).mp htransfer).2.2

/-! ### Runs -/

/-- A validation moves no token, whether or not it reverts. -/
theorem tokens_apply_validate {s : State} (hnone : Unapproved site s.tokens) (sender : Address)
    (userOp : UserOperation) :
    (apply recover v site s (.validatePaymasterUserOp sender userOp)).tokens = s.tokens := by
  unfold apply
  cases hrun : (Call.validatePaymasterUserOp sender userOp).run recover v site s with
  | error e => rfl
  | ok s' =>
    obtain ⟨_, -, hvalidate⟩ := bind_eq_ok.mp hrun
    obtain ⟨⟨answer, nonces, tokens⟩, hvalidate, hset⟩ := bind_eq_ok.mp hvalidate
    rw [← Except.ok.inj hset]
    exact tokens_of_validate hnone hvalidate

theorem unapproved_apply {s : State} {call : Call site} (hnone : Unapproved site s.tokens) :
    Unapproved site (apply recover v site s call).tokens := by
  cases call with
  | validatePaymasterUserOp sender userOp =>
    rw [tokens_apply_validate hnone]
    exact hnone
  | base sender f =>
    have hsame : (apply recover v site s (.base sender f)).tokens = s.tokens := by
      unfold apply
      cases hrun : (Call.base sender f).run recover v site s with
      | error e => rfl
      | ok s' =>
        cases f <;> simp only [Call.run, BaseFunction.run, bind_eq_ok,
          Ownable.transferOwnership_eq_ok, Ownable.renounceOwnership_eq_ok, Ownable.setOwner]
          at hrun <;> grind
    rw [hsame]
    exact hnone
  | token caller tokenAddress f =>
    unfold apply
    cases hrun : (Call.token caller tokenAddress f).run recover v site s with
    | error e => exact hnone
    | ok s' =>
      obtain ⟨t, hf, hset⟩ := bind_eq_ok.mp hrun
      rw [← Except.ok.inj hset]
      intro token
      show (Function.update s.tokens tokenAddress t token).allowances site.this site.this = 0
      by_cases htoken : token = tokenAddress
      · rw [htoken, Function.update_self, allowance_of_run caller.property.symm hf, hnone]
      · rw [Function.update_of_ne htoken, hnone]

/-- **No approval**: in no reachable state has the paymaster given itself an allowance. -/
theorem unapproved_stateAfter {s : State} {events : List (JournalEvent (Call site))}
    (hnone : Unapproved site s.tokens) :
    Unapproved site (stateAfter recover v site s events).tokens := by
  have hstart : (Journal.start s).All fun s => Unapproved site s.tokens :=
    ⟨hnone, fun s' hs' => by cases hs'⟩
  exact (Journal.all_run hstart fun _ _ _ h => unapproved_apply h).1

/-! ### Payouts -/

/-- Of all balances, `amount` of the token has gone from `payer` to `payee`, and nothing else. -/
def Moved (token payer payee : Address) (amount : Word) (before after : Address → ERC20) : Prop :=
  (∀ other, other ≠ token → (after other).balances = (before other).balances) ∧
    ∀ a, ((after token).balances a).toNat + (if a = payer then amount.toNat else 0)
      = ((before token).balances a).toNat + (if a = payee then amount.toNat else 0)

/-- The validation ends without a revert, and pays exactly the amount. -/
def Pays (recover : Word → Bytes → Result Address) (v : Version) (site : Site) (s : State)
    (userOp : UserOperation) (token : Address) (amount : Word) : Prop :=
  ∃ answer senderNonce' tokens',
    validateSolverWith recover openZeppelin v site userOp s.senderNonce s.tokens
      = .ok (answer, senderNonce', tokens') ∧
    Moved token site.this userOp.sender amount s.tokens tokens'

theorem pays_iff {s : State} {userOp : UserOperation} {validUntil validAfter : Uint48}
    {signature : Bytes} {token : Address} {amount : Word} (hnone : Unapproved site s.tokens)
    (hparse : parsePaymasterAndData userOp.paymasterAndData
      = .ok (validUntil, validAfter, signature, token, amount))
    (hrecover : recover (ECDSA.toEthSignedMessageHash
      (getHash v site s.senderNonce userOp validUntil validAfter token amount)) signature
        = .ok site.verifyingSigner) :
    Pays recover v site s userOp token amount ↔
      amount = 0 ∧ site.this ≠ 0 ∧ userOp.sender ≠ 0 ∧
        (s.senderNonce userOp.sender).toNat + 1 < 2 ^ 256 := by
  have hlen : signature.length = 64 ∨ signature.length = 65 :=
    Or.inl (length_signature_of_parse hparse)
  unfold Pays validateSolverWith
  simp only [hparse, ok_bind, require_true hlen, hrecover, ne_eq, not_true_eq_false, if_false,
    bind_eq_ok]
  constructor
  -- the payout is a `transferFrom` whose owner and spender are the paymaster: only zero passes
  · rintro ⟨answer, nonces, tokens, ⟨next, hbump, ⟨paid, moved⟩, htransfer, -⟩, -⟩
    obtain ⟨⟨hamount, hthis, hsender⟩, -⟩ := (openZeppelin_transferFrom_iff hnone).mp htransfer
    exact ⟨hamount, hthis, hsender, (bumpNonce_eq_ok.mp hbump).1⟩
  · rintro ⟨rfl, hthis, hsender, hnonce⟩
    refine ⟨_, _, s.tokens, ⟨_, bumpNonce_eq_ok.mpr ⟨hnonce, rfl⟩, (true, s.tokens),
      (openZeppelin_transferFrom_iff hnone).mpr ⟨⟨rfl, hthis, hsender⟩, rfl, rfl⟩, (), rfl, rfl⟩,
      ?_⟩
    refine ⟨fun _ _ => rfl, fun a => ?_⟩
    simp

/-- The validation reports success. -/
def Succeeds (recover : Word → Bytes → Result Address) (v : Version) (site : Site) (s : State)
    (userOp : UserOperation) : Prop :=
  ∃ context validationData senderNonce' tokens',
    validateSolverWith recover openZeppelin v site userOp s.senderNonce s.tokens
      = .ok ((context, validationData), senderNonce', tokens') ∧ authorizer validationData = 0

/-- **Payouts**, for both contracts, from every state that a run after the deployment reaches: when
the recovery accepts the signature and the balance suffices, the validation pays if and only if the
amount is zero, the two addresses are not, and the nonce can be counted up.  A validation that does
not report success moves no token. -/
theorem payout_iff (recover : Word → Bytes → Result Address) (v : Version) (site : Site)
    (deployer : Address) (tokens : Address → ERC20)
    (htokens : ∀ token spender, (tokens token).allowances site.this spender = 0)
    (events : List (JournalEvent (Call site))) (s : State)
    (hs : s = stateAfter recover v site (deploy deployer tokens) events) :
    (∀ (userOp : UserOperation) (validUntil validAfter : Uint48) (signature : Bytes)
      (token : Address) (amount : Word),
      parsePaymasterAndData userOp.paymasterAndData
        = .ok (validUntil, validAfter, signature, token, amount) →
      recover (ECDSA.toEthSignedMessageHash
        (getHash v site s.senderNonce userOp validUntil validAfter token amount)) signature
          = .ok site.verifyingSigner →
      amount.toNat ≤ ((s.tokens token).balances site.this).toNat →
      (Pays recover v site s userOp token amount ↔
        amount = 0 ∧ site.this ≠ 0 ∧ userOp.sender ≠ 0 ∧
          (s.senderNonce userOp.sender).toNat + 1 < 2 ^ 256)) ∧
    ∀ (sender : Address) (userOp : UserOperation), ¬Succeeds recover v site s userOp →
      (apply recover v site s (.validatePaymasterUserOp sender userOp)).tokens = s.tokens := by
  have hnone : Unapproved site s.tokens := by
    rw [hs]
    exact unapproved_stateAfter fun token => htokens token site.this
  constructor
  · intro userOp validUntil validAfter signature token amount hparse hrecover _
    exact pays_iff hnone hparse hrecover
  · intro sender userOp _
    exact tokens_apply_validate hnone sender userOp

/-- All of the token 11 belongs to the address 3. -/
def payoutTokens : Address → ERC20 := fun token =>
  ⟨fun a => if token = 11 ∧ a = 3 then 1000 else 0, fun _ _ => 0⟩

/-- The address 3 sends its tokens to the paymaster. -/
def funding : List (JournalEvent (Call sampleSite)) :=
  [.call (.token ⟨3, by decide⟩ 11 (.transfer 9 1000))]

/-- The state after that, with a recovery that accepts every signature. -/
def funded : State :=
  stateAfter (fun _ _ => .ok keyOne) .v0 sampleSite (deploy 1 payoutTokens) funding

/-- An operation of the account 5 that asks for 10 of the token 11. -/
def payoutOp : UserOperation :=
  let paymasterAndData := Address.toBytes 9 ++ abiEncode [uint48Value 100, uint48Value 50] ++
    (sampleR.toBytes ++ sampleS.toBytes) ++ abiEncode [addressValue 11, .word 0] ++ Word.toBytes 10
  { sampleOp with paymasterAndData := paymasterAndData }

set_option maxRecDepth 10000 in
theorem parse_payoutOp : parsePaymasterAndData payoutOp.paymasterAndData
    = .ok (100, 50, sampleR.toBytes ++ sampleS.toBytes, 11, 10) :=
  rfl

theorem balance_funded : (funded.tokens 11).balances 9 = 1000 := rfl

/-- The paymaster holds 1000 of the token, the signature is accepted, and 10 cannot be paid. -/
theorem payout_reverts :
    (funded.tokens 11).balances 9 = 1000 ∧
    parsePaymasterAndData payoutOp.paymasterAndData
      = .ok (100, 50, sampleR.toBytes ++ sampleS.toBytes, 11, 10) ∧
    validateSolverWith (fun _ _ => .ok sampleSite.verifyingSigner) openZeppelin .v0 sampleSite
      payoutOp funded.senderNonce funded.tokens
        = .error (.reason "ERC20: insufficient allowance") := by
  refine ⟨balance_funded, parse_payoutOp, ?_⟩
  have hlen : (sampleR.toBytes ++ sampleS.toBytes).length = 64 :=
    length_signature_of_parse parse_payoutOp
  have hbump : bumpNonce funded.senderNonce payoutOp.sender = .ok _ := bumpNonce_sample
  unfold validateSolverWith
  rw [parse_payoutOp, ok_bind]
  simp only [require_true (Or.inl hlen), hbump, ok_bind, ne_eq, not_true_eq_false, if_false]
  rfl

theorem payout_iff_funded :
    Pays (fun _ _ => .ok keyOne) .v0 sampleSite funded payoutOp 11 10 ↔
      (10 : Word) = 0 ∧ sampleSite.this ≠ 0 ∧ payoutOp.sender ≠ 0 ∧
        (funded.senderNonce payoutOp.sender).toNat + 1 < 2 ^ 256 := by
  have hfunds : (10 : Word).toNat ≤ ((funded.tokens 11).balances sampleSite.this).toNat := by
    show _ ≤ ((funded.tokens 11).balances 9).toNat
    rw [balance_funded]
    decide
  exact (payout_iff (fun _ _ => .ok keyOne) .v0 sampleSite 1 payoutTokens (fun _ _ => rfl) funding
    funded rfl).1 payoutOp 100 50 _ 11 10 parse_payoutOp rfl hfunds

end SolverPaymaster

end Enclave
