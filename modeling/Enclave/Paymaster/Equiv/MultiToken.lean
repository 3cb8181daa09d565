import Enclave.Paymaster.Equiv.Verifying

/-!
# What `EnclaveMultiTokenPaymaster` charges, and in which token

The validation leaves a context of one word, and `_postOp` reads two: no operation that was
validated is ever charged (`postOp_of_validate`).  The token is no part of what the signer signs:
an approval is good for every token that is allowed at the moment (`validates_withToken`), so that
it fixes the token exactly if there is at most one of them (`tokenBound_iff`).
-/

namespace Enclave.MultiTokenPaymaster

open Paymaster

/-! ### The layout of `paymasterAndData` -/

/-- The same data with another token. -/
def withToken (token : Address) (paymasterAndData : Bytes) : Bytes :=
  paymasterAndData.take 20 ++ (token.toBytes ++ paymasterAndData.drop 40)

theorem parse_withToken {paymasterAndData signature : Bytes} {token : Address}
    {validUntil validAfter : Uint48} (token' : Address)
    (h : parsePaymasterAndData paymasterAndData = .ok (token, validUntil, validAfter, signature)) :
    parsePaymasterAndData (withToken token' paymasterAndData)
      = .ok (token', validUntil, validAfter, signature) := by
  have hparse := (parsePaymasterAndData_eq_ok.mp h).1
  have hlen := (parseWindow_eq_ok.mp hparse).1
  rw [withToken, drop_eq_windowBytes hparse]
  apply parsePaymasterAndData_layout
  rw [List.length_take]
  omega

/-! ### Charging -/

/-- The context of a validation is one word. -/
theorem context_of_validate {site : Site} {userOp : UserOperation} {s s' : State}
    {context : Bytes} {validationData : Word}
    (h : validateMultiToken site userOp s = .ok ((context, validationData), s')) :
    context = abiEncode [addressValue userOp.sender] := by
  unfold validateMultiToken at h
  simp only [bind_eq_ok] at h
  obtain ⟨⟨token, validUntil, validAfter, signature⟩, -, -, -, ⟨⟨c, d⟩, nonces⟩, hcheck, hall⟩ := h
  obtain ⟨-, hcontext, -⟩ := checkApproval_eq_ok hcheck
  simp only [Except.ok.injEq, Prod.mk.injEq] at hall
  rw [← hall.1.1, hcontext]

/-- **No charge**: after any validation that does not revert, `_postOp` reverts, whatever the mode,
the cost, the fee logic, the tokens and the state by then. -/
theorem postOp_of_validate {τ : Type} (tokens : TokenContracts τ) (site : Site)
    (calculateFee : Address → Address → Word → Result Word) (userOp : UserOperation)
    (s s' later : State) (context : Bytes) (validationData : Word)
    (h : validateMultiToken site userOp s = .ok ((context, validationData), s'))
    (mode : PostOpMode) (actualGasCost : Word) (ledger : τ) :
    postOp tokens site calculateFee mode context actualGasCost later ledger = .error .empty := by
  have hlen : context.length = 32 := by
    rw [context_of_validate h]
    exact length_abiEncode_of_words [toWord userOp.sender]
  have hhead : requireHead context 64 = .error .empty := if_pos (by omega)
  unfold postOp
  rw [hhead, error_bind]

/-! ### The token of an approval -/

/-- The operation would be validated, with success. -/
def Validates (site : Site) (s : State) (userOp : UserOperation) : Prop :=
  ∃ context validationData s',
    validateMultiToken site userOp s = .ok ((context, validationData), s') ∧
      authorizer validationData = 0

/-- What a successful validation asks for. -/
theorem validates_iff {site : Site} {s : State} {userOp : UserOperation} :
    Validates site s userOp ↔ ∃ token validUntil validAfter signature next,
      parsePaymasterAndData userOp.paymasterAndData
        = .ok (token, validUntil, validAfter, signature) ∧
      s.allowedPaymentTokens token = true ∧
      bumpNonce s.senderNonce userOp.sender = .ok next ∧
      ECDSA.recover site.ecrecover (ECDSA.toEthSignedMessageHash
        (getHash site s.senderNonce userOp validUntil validAfter)) signature
          = .ok site.verifyingSigner := by
  constructor
  · rintro ⟨context, validationData, s', h, hzero⟩
    unfold validateMultiToken at h
    simp only [bind_eq_ok] at h
    obtain ⟨⟨token, validUntil, validAfter, signature⟩, hparse, _, hallowed, ⟨⟨c, d⟩, next⟩,
      hcheck, hall⟩ := h
    simp only [Except.ok.injEq, Prod.mk.injEq] at hall
    obtain ⟨⟨-, rfl⟩, -⟩ := hall
    obtain ⟨hbump, -, hrecover⟩ := checkApproval_eq_ok hcheck
    exact ⟨token, validUntil, validAfter, signature, next, hparse, require_eq_ok.mp hallowed,
      hbump, hrecover hzero⟩
  · rintro ⟨token, validUntil, validAfter, signature, next, hparse, hallowed, hbump, hrecover⟩
    -- the recovery has accepted the length
    have hlen : signature.length = 65 := by
      by_contra hne
      rw [ECDSA.recover_of_length_ne hne] at hrecover
      cases hrecover
    refine ⟨abiEncode [addressValue userOp.sender], packValidationData false validUntil validAfter,
      { s with senderNonce := next }, ?_, authorizer_packValidationData false validUntil validAfter⟩
    unfold validateMultiToken
    rw [hparse, ok_bind]
    simp only
    rw [require_true hallowed, ok_bind, checkApproval_of_recover _ _ _ hlen hbump hrecover, ok_bind]

/-- An approval is good for any allowed token. -/
theorem validates_withToken {site : Site} {s : State} {userOp : UserOperation} {token : Address}
    (h : Validates site s userOp) (hallowed : s.allowedPaymentTokens token = true) :
    Validates site s
      { userOp with paymasterAndData := withToken token userOp.paymasterAndData } := by
  obtain ⟨_, validUntil, validAfter, signature, next, hparse, -, hbump, hrecover⟩ :=
    validates_iff.mp h
  -- the hash does not see `paymasterAndData`
  exact validates_iff.mpr ⟨token, validUntil, validAfter, signature, next,
    parse_withToken token hparse, hallowed, hbump, hrecover⟩

/-- The operations differ at most in `paymasterAndData` and in the signature. -/
def SameRequest (op op' : UserOperation) : Prop :=
  op' = { op with paymasterAndData := op'.paymasterAndData, signature := op'.signature }

/-- One signature, in one state, is good for one token only. -/
def TokenBound (site : Site) (s : State) : Prop :=
  ∀ (op op' : UserOperation) (token token' : Address)
    (validUntil validAfter validUntil' validAfter' : Uint48) (signature : Bytes),
    SameRequest op op' →
    parsePaymasterAndData op.paymasterAndData = .ok (token, validUntil, validAfter, signature) →
    parsePaymasterAndData op'.paymasterAndData
      = .ok (token', validUntil', validAfter', signature) →
    Validates site s op → Validates site s op' → token = token'

/-- No two tokens are allowed. -/
def AtMostOneToken (s : State) : Prop :=
  ∀ token token', s.allowedPaymentTokens token = true → s.allowedPaymentTokens token' = true →
    token = token'

theorem allowed_of_validates {site : Site} {s : State} {op : UserOperation} {token : Address}
    {validUntil validAfter : Uint48} {signature : Bytes} (h : Validates site s op)
    (hparse : parsePaymasterAndData op.paymasterAndData
      = .ok (token, validUntil, validAfter, signature)) : s.allowedPaymentTokens token = true := by
  obtain ⟨_, _, _, _, _, hparse', hallowed, -⟩ := validates_iff.mp h
  rw [hparse] at hparse'
  obtain ⟨rfl, -⟩ := Prod.mk.inj (Except.ok.inj hparse')
  exact hallowed

theorem tokenBound_of_atMostOne {site : Site} {s : State} (h : AtMostOneToken s) :
    TokenBound site s := by
  intro op op' token token' _ _ _ _ _ _ hparse hparse' hop hop'
  exact h token token' (allowed_of_validates hop hparse) (allowed_of_validates hop' hparse')

theorem atMostOne_of_tokenBound {site : Site} {s : State} (hsome : ∃ op, Validates site s op)
    (h : TokenBound site s) : AtMostOneToken s := by
  intro token token' hallowed hallowed'
  obtain ⟨op, hop⟩ := hsome
  obtain ⟨_, validUntil, validAfter, signature, _, hparse, -⟩ := validates_iff.mp hop
  -- the same approval, presented once with each token
  exact h { op with paymasterAndData := withToken token op.paymasterAndData }
    { op with paymasterAndData := withToken token' op.paymasterAndData } token token' _ _ _ _ _
    rfl (parse_withToken token hparse) (parse_withToken token' hparse)
    (validates_withToken hop hallowed) (validates_withToken hop hallowed')

/-! ### Runs -/

/-- The owner adds a token while another one is allowed. -/
def Widens (s : State) (call : Call) : Prop :=
  ∃ token other, call = .addPaymentToken s.owner token ∧ other ≠ token ∧
    s.allowedPaymentTokens other = true

theorem setPaymentToken_eq_ok {allowed : Bool} {sender token : Address} {s s' : State}
    (h : setPaymentToken allowed sender token s = .ok s') : sender = s.owner ∧
      s'.allowedPaymentTokens = Function.update s.allowedPaymentTokens token allowed := by
  unfold setPaymentToken onlyOwner at h
  obtain ⟨_, howner, hs'⟩ := bind_eq_ok.mp h
  exact ⟨require_eq_ok.mp howner, by rw [← Except.ok.inj hs']⟩

theorem allowed_of_validateMultiToken {site : Site} {userOp : UserOperation} {s s' : State}
    {answer : Bytes × Word} (h : validateMultiToken site userOp s = .ok (answer, s')) :
    s'.allowedPaymentTokens = s.allowedPaymentTokens := by
  unfold validateMultiToken at h
  simp only [bind_eq_ok] at h
  obtain ⟨_, -, _, -, _, -, hall⟩ := h
  rw [← (Prod.mk.inj (Except.ok.inj hall)).2]

/-- What a call does to the list of tokens. -/
theorem allowed_of_run {site : Site} {s s' : State} {call : Call} (h : call.run site s = .ok s') :
    s'.allowedPaymentTokens = s.allowedPaymentTokens ∨
    (∃ token, call = .addPaymentToken s.owner token ∧
      s'.allowedPaymentTokens = Function.update s.allowedPaymentTokens token true) ∨
    ∃ token, s'.allowedPaymentTokens = Function.update s.allowedPaymentTokens token false := by
  cases call with
  | transferOwnership sender newOwner =>
    obtain ⟨-, -, rfl⟩ := Ownable.transferOwnership_eq_ok.mp h
    exact Or.inl rfl
  | renounceOwnership sender =>
    obtain ⟨-, rfl⟩ := Ownable.renounceOwnership_eq_ok.mp h
    exact Or.inl rfl
  | updateFeeLogic sender feeLogic =>
    simp only [Call.run, updateFeeLogic, bind_eq_ok] at h
    obtain ⟨_, -, hs'⟩ := h
    exact Or.inl (by rw [← Except.ok.inj hs'])
  | addPaymentToken sender token =>
    obtain ⟨rfl, hs'⟩ := setPaymentToken_eq_ok h
    exact Or.inr (Or.inl ⟨token, rfl, hs'⟩)
  | removePaymentToken sender token =>
    exact Or.inr (Or.inr ⟨token, (setPaymentToken_eq_ok h).2⟩)
  | validatePaymasterUserOp sender userOp =>
    simp only [Call.run, validatePaymasterUserOp, bind_eq_ok] at h
    obtain ⟨⟨answer, _⟩, ⟨_, -, hvalidate⟩, hs'⟩ := h
    obtain rfl := Except.ok.inj hs'
    exact Or.inl (allowed_of_validateMultiToken hvalidate)

theorem atMostOne_apply {site : Site} {s : State} {call : Call} (hcall : ¬Widens s call)
    (h : AtMostOneToken s) : AtMostOneToken (apply site s call) := by
  unfold apply
  cases hrun : call.run site s with
  | error e => exact h
  | ok s' =>
    show AtMostOneToken s'
    unfold AtMostOneToken
    rcases allowed_of_run hrun with hs' | ⟨token, rfl, hs'⟩ | ⟨token, hs'⟩
    · rw [hs']
      exact h
    · -- every token but the new one was not allowed before
      have honly : ∀ t, s'.allowedPaymentTokens t = true → t = token := by
        intro t ht
        by_contra hne
        rw [hs', Function.update_of_ne hne] at ht
        exact hcall ⟨token, t, rfl, hne, ht⟩
      intro t t' ht ht'
      rw [honly t ht, honly t' ht']
    · have hbefore : ∀ t, s'.allowedPaymentTokens t = true → s.allowedPaymentTokens t = true := by
        intro t ht
        rw [hs', Function.update_apply] at ht
        split_ifs at ht
        exact ht
      exact fun t t' ht ht' => h t t' (hbefore t ht) (hbefore t' ht')

theorem atMostOne_stateAfter {site : Site} {deployer feeLogic : Address}
    {events : List (JournalEvent Call)}
    (h : ∀ before call, before ++ [.call call] <+: events →
      ¬Widens (stateAfter site (deploy deployer feeLogic) before) call) :
    AtMostOneToken (stateAfter site (deploy deployer feeLogic) events) := by
  have hstart : (Journal.start (deploy deployer feeLogic)).All AtMostOneToken :=
    ⟨fun _ _ hnone => absurd hnone (by simp [Journal.start, deploy]), fun _ hmem => nomatch hmem⟩
  refine (Journal.all_run hstart fun before call hbefore hone => ?_).1
  exact atMostOne_apply (h before call hbefore) hone

/-- **The token of an approval**: in every state that a run reaches, and in which some operation
would be validated, a signature fixes the token if and only if no two tokens are allowed; it does so
all along a run in which no token is added next to another one. -/
theorem tokenBound_iff (site : Site) (deployer feeLogic : Address)
    (events : List (JournalEvent Call)) :
    ((∃ op, Validates site (stateAfter site (deploy deployer feeLogic) events) op) →
      (TokenBound site (stateAfter site (deploy deployer feeLogic) events) ↔
        AtMostOneToken (stateAfter site (deploy deployer feeLogic) events))) ∧
    ((∀ before call, before ++ [.call call] <+: events →
        ¬Widens (stateAfter site (deploy deployer feeLogic) before) call) →
      ∀ before, before <+: events →
        TokenBound site (stateAfter site (deploy deployer feeLogic) before)) := by
  constructor
  · intro hsome
    exact ⟨atMostOne_of_tokenBound hsome, tokenBound_of_atMostOne⟩
  · intro hsteps before hbefore
    apply tokenBound_of_atMostOne
    exact atMostOne_stateAfter fun earlier call hearlier =>
      hsteps earlier call (hearlier.trans hbefore)

/-! ### Two tokens and one signature -/

/-- The owner 3 allows the tokens 11 and 12. -/
def twoTokens : List (JournalEvent Call) :=
  [.call (.addPaymentToken 3 11), .call (.addPaymentToken 3 12)]

def twoTokensState : State := stateAfter sampleSite (deploy 3 4) twoTokens

def payInData (token : Address) : Bytes :=
  Address.toBytes 9 ++ token.toBytes ++ abiEncode [uint48Value 100, uint48Value 50] ++
    sampleR.toBytes ++ sampleS.toBytes ++ [27]

/-- The operation of the sample, with a token to pay in. -/
def payIn (token : Address) : UserOperation :=
  { sampleOp with paymasterAndData := payInData token }

theorem parse_payIn (token : Address) : parsePaymasterAndData (payIn token).paymasterAndData
    = .ok (token, 100, 50, sampleR.toBytes ++ sampleS.toBytes ++ [27]) := by
  have hlayout : (payIn token).paymasterAndData = Address.toBytes 9 ++ (token.toBytes ++
      windowBytes 100 50 (sampleR.toBytes ++ sampleS.toBytes ++ [27])) := by
    simp only [payIn, payInData, windowBytes, List.append_assoc]
  rw [hlayout]
  exact parsePaymasterAndData_layout (Address.length_toBytes 9) token 100 50 _

theorem validates_payIn {token : Address}
    (hallowed : twoTokensState.allowedPaymentTokens token = true) :
    Validates sampleSite twoTokensState (payIn token) :=
  validates_iff.mpr ⟨token, 100, 50, _, _, parse_payIn token, hallowed, bumpNonce_sample,
    recover_sample⟩

/-- One signature pays in either token. -/
theorem not_tokenBound_twoTokens :
    ¬TokenBound sampleSite (stateAfter sampleSite (deploy 3 4) twoTokens) := by
  intro h
  have heq : (11 : Address) = 12 := h (payIn 11) (payIn 12) 11 12 100 50 100 50 _ rfl
    (parse_payIn 11) (parse_payIn 12) (validates_payIn rfl) (validates_payIn rfl)
  exact absurd heq (by decide)

/-- The two tokens are why. -/
theorem tokenBound_iff_twoTokens :
    (∃ op, Validates sampleSite (stateAfter sampleSite (deploy 3 4) twoTokens) op) ∧
      (TokenBound sampleSite (stateAfter sampleSite (deploy 3 4) twoTokens) ↔
        AtMostOneToken (stateAfter sampleSite (deploy 3 4) twoTokens)) := by
  have hsome : ∃ op, Validates sampleSite (stateAfter sampleSite (deploy 3 4) twoTokens) op :=
    ⟨payIn 11, validates_payIn rfl⟩
  exact ⟨hsome, (tokenBound_iff sampleSite 3 4 twoTokens).1 hsome⟩

/-! ### A sender who could pay -/

/-- The account 5 holds 1000 of every token, and has allowed the paymaster 9 to take them. -/
def wealthy : Address → ERC20 := fun _ =>
  { balances := fun a => if a = 5 then 1000 else 0
    allowances := fun a b => if a = 5 ∧ b = 9 then 1000 else 0 }

theorem validate_payIn : validateMultiToken sampleSite (payIn 11) twoTokensState
    = .ok ((abiEncode [addressValue 5], packValidationData false 100 50),
        { twoTokensState with senderNonce := Function.update (fun _ => 0) 5 (0 + 1) }) := by
  unfold validateMultiToken
  rw [parse_payIn, ok_bind]
  simp only
  rw [require_true (show twoTokensState.allowedPaymentTokens 11 = true from rfl), ok_bind]
  have hcheck : checkApproval sampleSite
      (getHash sampleSite twoTokensState.senderNonce (payIn 11) 100 50) (payIn 11).sender
      (sampleR.toBytes ++ sampleS.toBytes ++ [27]) (abiEncode [addressValue (payIn 11).sender])
      100 50 twoTokensState.senderNonce
        = .ok ((abiEncode [addressValue 5], packValidationData false 100 50),
            Function.update (fun _ => 0) 5 (0 + 1)) :=
    checkApproval_of_recover _ 100 50 (by simp) bumpNonce_sample recover_sample
  rw [hcheck, ok_bind]

/-- The validation succeeds and the fee of 7 is covered, but the charge reverts. -/
theorem postOp_payIn_reverts : ∃ context validationData s',
    validateMultiToken sampleSite (payIn 11) twoTokensState
      = .ok ((context, validationData), s') ∧
    authorizer validationData = 0 ∧
    (openZeppelin.transferFrom 11 9 5 9 7 wealthy).isOk = true ∧
    postOp openZeppelin sampleSite (fun _ _ _ => .ok 7) .opSucceeded context 1 s' wealthy
      = .error .empty := by
  refine ⟨_, _, _, validate_payIn, authorizer_packValidationData false 100 50,
    by decide, ?_⟩
  have hhead : requireHead (abiEncode [addressValue 5]) 64 = .error .empty := by
    decide
  unfold postOp
  rw [hhead, error_bind]

/-- The general theorem, for this operation. -/
theorem postOp_of_validate_payIn :
    validateMultiToken sampleSite (payIn 11) twoTokensState
      = .ok ((abiEncode [addressValue 5], packValidationData false 100 50),
        { twoTokensState with senderNonce := Function.update (fun _ => 0) 5 (0 + 1) }) ∧
    postOp openZeppelin sampleSite (fun _ _ _ => .ok 7) .opSucceeded
      (abiEncode [addressValue 5]) 1 twoTokensState wealthy = .error .empty :=
  ⟨validate_payIn, postOp_of_validate openZeppelin sampleSite (fun _ _ _ => .ok 7) (payIn 11)
    twoTokensState _ twoTokensState _ _ validate_payIn .opSucceeded 1 wealthy⟩

end Enclave.MultiTokenPaymaster
