import Enclave.Paymaster.Equiv.Movement
import Enclave.Paymaster.Equiv.Verifying
import Enclave.Paymaster.TokenRun

/-!
# The tokens of `EnclaveVerifyingTokenPaymaster`

Books are kept beside a run: what `postOp` has charged, what `withdrawTokens` has paid out, and what
others have sent to the paymaster.  `custody`: for every token and at every moment of every run the
balance of the paymaster is what the books say; what a sender has been charged comes out of what
they have allowed; and a token that never was the payment token is neither charged nor paid out,
whoever asks.
-/

namespace Enclave.TokenPaymaster

open Paymaster
open SolverPaymaster (Outsider TokenFunction)

variable {site : Site}

/-! ### Books -/

/-- An entry of the books. -/
inductive Entry
  /-- `postOp`, called by `caller`, has charged the sender. -/
  | charge (caller token sender : Address) (amount : Word)
  /-- `withdrawTokens`, called by `caller`, has paid the recipient. -/
  | withdrawal (caller token recipient : Address) (amount : Word)
  /-- Someone else has sent tokens to the paymaster. -/
  | receipt (token : Address) (amount : ℕ)

/-- The sum of what `f` reads off the entries. -/
def total (f : Entry → ℕ) (books : List Entry) : ℕ := (books.map f).sum

@[simp] theorem total_nil (f : Entry → ℕ) : total f [] = 0 := rfl

@[simp] theorem total_cons (f : Entry → ℕ) (e : Entry) (books : List Entry) :
    total f (e :: books) = f e + total f books := rfl

/-- What has been charged in a token. -/
def Entry.charged (token : Address) : Entry → ℕ
  | .charge _ t _ amount => if t = token then amount.toNat else 0
  | _ => 0

/-- What one sender has been charged in it. -/
def Entry.chargedTo (token user : Address) : Entry → ℕ
  | .charge _ t sender amount => if t = token ∧ sender = user then amount.toNat else 0
  | _ => 0

/-- What has been paid out to others. -/
def Entry.withdrawn (site : Site) (token : Address) : Entry → ℕ
  | .withdrawal _ t recipient amount =>
    if t = token ∧ recipient ≠ site.this then amount.toNat else 0
  | _ => 0

/-- What others have sent. -/
def Entry.received (token : Address) : Entry → ℕ
  | .receipt t amount => if t = token then amount else 0
  | _ => 0

/-- The balance of the paymaster. -/
def World.balance (site : Site) (w : World) (token : Address) : ℕ :=
  ((w.tokens token).balances site.this).toNat

/-- What a call that leads from `w` to `w'` adds to the books. -/
def entry (site : Site) (w w' : World) : Call site → List Entry
  | .postOp caller calculateFee _ context actualGasCost =>
    match abiDecodeAddress context 0,
      calculateFee w.state.feeLogic w.state.paymentToken actualGasCost with
    | .ok sender, .ok charge => [.charge caller w.state.paymentToken sender charge]
    | _, _ => []
  | .withdrawTokens caller recipient amount =>
    [.withdrawal caller w.state.paymentToken recipient amount]
  | .token _ tokenAddress _ =>
    [.receipt tokenAddress (w'.balance site tokenAddress - w.balance site tokenAddress)]
  | _ => []

/-- The world, and the books. -/
structure Booked where
  world : World
  books : List Entry

/-- A call that reverts changes nothing. -/
def apply (site : Site) (b : Booked) (call : Call site) : Booked :=
  match call.run site b.world with
  | .ok w => ⟨w, entry site b.world w call ++ b.books⟩
  | .error _ => b

/-- The world and the books at the end of a run. -/
def bookedAfter (site : Site) (w : World) (events : List (JournalEvent (Call site))) : Booked :=
  (Journal.run (apply site) (Journal.start ⟨w, []⟩) events).state

/-! ### What a call does -/

/-- The paymaster has allowed nobody anything, and the balances of every token fit into a word. -/
structure Sound (site : Site) (w : World) : Prop where
  unapproved : ∀ token spender, (w.tokens token).allowances site.this spender = 0
  supply : ∀ token, (w.tokens token).supply < 2 ^ 256

/-- What the token's own supply functions must not do: take from the paymaster, or mint more than
fits into a word. -/
def Keeps (site : Site) (w : World) (call : Call site) : Prop :=
  ∀ caller token balances, call = .token caller token (.supply balances) →
    w.balance site token ≤ (balances site.this).toNat ∧ ∑ᶠ a, (balances a).toNat < 2 ^ 256

theorem update_eq_ok {w w' : World} {f : State → Result State} (h : w.update f = .ok w') :
    ∃ s, f w.state = .ok s ∧ w' = { w with state := s } := by
  obtain ⟨s, hf, hset⟩ := bind_eq_ok.mp h
  exact ⟨s, hf, (Except.ok.inj hset).symm⟩

theorem move_eq_ok {w w' : World} {f : (Address → ERC20) → Result (Address → ERC20)}
    (h : w.move f = .ok w') :
    ∃ tokens, f w.tokens = .ok tokens ∧ w' = { w with tokens := tokens } := by
  obtain ⟨tokens, hf, hset⟩ := bind_eq_ok.mp h
  exact ⟨tokens, hf, (Except.ok.inj hset).symm⟩

/-- `_postOp` is a `transferFrom` of the payment token. -/
theorem postOp_eq_ok {calculateFee : Address → Address → Word → Result Word}
    {mode : MultiTokenPaymaster.PostOpMode} {context : Bytes} {actualGasCost : Word} {s : State}
    {tokens tokens' : Address → ERC20}
    (h : postOp openZeppelin site calculateFee mode context actualGasCost s tokens = .ok tokens') :
    ∃ sender charge t, abiDecodeAddress context 0 = .ok sender ∧
      calculateFee s.feeLogic s.paymentToken actualGasCost = .ok charge ∧
      (tokens s.paymentToken).transferFrom site.this sender site.this charge = .ok (true, t) ∧
      tokens' = Function.update tokens s.paymentToken t := by
  unfold postOp openZeppelin at h
  simp only [bind_eq_ok] at h
  obtain ⟨sender, hsender, charge, hcharge, ⟨paid, moved⟩, ⟨⟨done, t⟩, htransfer, hpair⟩, _, hpaid,
    hset⟩ := h
  obtain ⟨rfl, rfl⟩ := Prod.mk.inj (Except.ok.inj hpair)
  obtain rfl : done = true := require_eq_ok.mp hpaid
  exact ⟨sender, charge, t, hsender, hcharge, htransfer, (Except.ok.inj hset).symm⟩

/-- Conversely, a settlement by the entry point goes through if the fee logic answers and the token
does. -/
theorem run_postOp {w : World} {calculateFee : Address → Address → Word → Result Word}
    {mode : MultiTokenPaymaster.PostOpMode} {context : Bytes} {actualGasCost charge : Word}
    {sender : Address} {t : ERC20} (hsender : abiDecodeAddress context 0 = .ok sender)
    (hcharge : calculateFee w.state.feeLogic w.state.paymentToken actualGasCost = .ok charge)
    (htransfer : (w.tokens w.state.paymentToken).transferFrom site.this sender site.this charge
      = .ok (true, t)) :
    Call.run site w (.postOp site.entryPoint calculateFee mode context actualGasCost)
      = .ok { w with tokens := Function.update w.tokens w.state.paymentToken t } := by
  have hmove : openZeppelin.transferFrom w.state.paymentToken site.this sender site.this charge
      w.tokens = .ok (true, Function.update w.tokens w.state.paymentToken t) := by
    show ((w.tokens w.state.paymentToken).transferFrom site.this sender site.this charge >>= _) = _
    rw [htransfer, ok_bind]
  have hpost : postOp openZeppelin site calculateFee mode context actualGasCost w.state w.tokens
      = .ok (Function.update w.tokens w.state.paymentToken t) := by
    unfold postOp
    rw [hsender, ok_bind, hcharge, ok_bind, hmove, ok_bind]
    rfl
  exact bind_eq_ok.mpr ⟨(), require_eq_ok.mpr rfl, bind_eq_ok.mpr ⟨_, hpost, rfl⟩⟩

/-- `withdrawTokens` is a `transfer` of the payment token, for the signer. -/
theorem withdrawTokens_eq_ok {sender recipient : Address} {amount : Word} {s : State}
    {tokens tokens' : Address → ERC20}
    (h : withdrawTokens openZeppelin site sender recipient amount s tokens = .ok tokens') :
    sender = site.verifyingSigner ∧ ∃ t,
      (tokens s.paymentToken).transferBalance site.this recipient amount = .ok t ∧
        tokens' = Function.update tokens s.paymentToken t := by
  unfold withdrawTokens MultiTokenPaymaster.withdrawTokens openZeppelin at h
  simp only [bind_eq_ok] at h
  obtain ⟨_, hsender, ⟨paid, moved⟩, ⟨⟨done, t⟩, htransfer, hpair⟩, _, -, hset⟩ := h
  obtain ⟨-, rfl⟩ := Prod.mk.inj (Except.ok.inj hpair)
  exact ⟨require_eq_ok.mp hsender, t, (ERC20.transfer_eq_ok.mp htransfer).2,
    (Except.ok.inj hset).symm⟩

/-- The parts of the world that a call leaves alone or changes, in three kinds: the storage of the
paymaster alone, the payment token by the paymaster, or some token by someone else. -/
inductive Effect (site : Site) (w : World) : Call site → World → Prop
  | storage {call : Call site} (s : State) (hentry : ∀ w', entry site w w' call = [])
      (htoken : s.paymentToken = w.state.paymentToken ∨
        ∃ sender timestamp, call = .updatePaymentToken sender s.paymentToken timestamp)
      (hfee : s.feeLogic = w.state.feeLogic ∨ ∃ timestamp,
        call = .updateFeeLogic w.state.owner s.feeLogic timestamp) :
      Effect site w call { w with state := s }
  | charge {fees mode context cost} (user : Address) (amount : Word) (t : ERC20)
      (hentry : ∀ w', entry site w w' (.postOp site.entryPoint fees mode context cost)
        = [.charge site.entryPoint w.state.paymentToken user amount])
      (hmove : (w.tokens w.state.paymentToken).transferFrom site.this user site.this amount
        = .ok (true, t)) :
      Effect site w (.postOp site.entryPoint fees mode context cost)
        { w with tokens := Function.update w.tokens w.state.paymentToken t }
  | withdrawal (recipient : Address) (amount : Word) (t : ERC20)
      (hmove : (w.tokens w.state.paymentToken).transferBalance site.this recipient amount = .ok t) :
      Effect site w (.withdrawTokens site.verifyingSigner recipient amount)
        { w with tokens := Function.update w.tokens w.state.paymentToken t }
  | token (caller : Outsider site) (tokenAddress : Address) (f : TokenFunction) (t : ERC20)
      (hrun : f.run caller (w.tokens tokenAddress) = .ok t) :
      Effect site w (.token caller tokenAddress f)
        { w with tokens := Function.update w.tokens tokenAddress t }

/-- **What a call can do.** -/
theorem effect_of_run {w w' : World} {call : Call site} (h : call.run site w = .ok w') :
    Effect site w call w' := by
  cases call with
  | transferOwnership sender newOwner =>
    obtain ⟨s, hs, rfl⟩ := update_eq_ok h
    obtain ⟨-, -, rfl⟩ := Ownable.transferOwnership_eq_ok.mp hs
    exact .storage _ (fun _ => rfl) (Or.inl rfl) (Or.inl rfl)
  | renounceOwnership sender =>
    obtain ⟨s, hs, rfl⟩ := update_eq_ok h
    obtain ⟨-, rfl⟩ := Ownable.renounceOwnership_eq_ok.mp hs
    exact .storage _ (fun _ => rfl) (Or.inl rfl) (Or.inl rfl)
  | updateFeeLogic sender feeLogic timestamp =>
    obtain ⟨s, hs, rfl⟩ := update_eq_ok h
    obtain ⟨_, howner, hset⟩ := bind_eq_ok.mp hs
    obtain rfl : sender = w.state.owner := require_eq_ok.mp howner
    rw [← Except.ok.inj hset]
    exact .storage _ (fun _ => rfl) (Or.inl rfl) (Or.inr ⟨timestamp, rfl⟩)
  | updatePaymentToken sender paymentToken timestamp =>
    obtain ⟨s, hs, rfl⟩ := update_eq_ok h
    obtain ⟨_, -, hset⟩ := bind_eq_ok.mp hs
    rw [← Except.ok.inj hset]
    exact .storage _ (fun _ => rfl) (Or.inr ⟨sender, timestamp, rfl⟩) (Or.inl rfl)
  | validatePaymasterUserOp sender userOp =>
    obtain ⟨s, hs, rfl⟩ := update_eq_ok h
    unfold validatePaymasterUserOp at hs
    simp only [bind_eq_ok] at hs
    obtain ⟨_, -, ⟨_, nonces⟩, -, hset⟩ := hs
    rw [← Except.ok.inj hset]
    exact .storage _ (fun _ => rfl) (Or.inl rfl) (Or.inl rfl)
  | postOp sender fees mode context cost =>
    obtain ⟨_, hsender, hmove⟩ := bind_eq_ok.mp h
    obtain rfl : sender = site.entryPoint := require_eq_ok.mp hsender
    obtain ⟨tokens, hpost, rfl⟩ := move_eq_ok hmove
    obtain ⟨user, amount, t, huser, hfee, htransfer, rfl⟩ := postOp_eq_ok hpost
    refine .charge user amount t (fun w' => ?_) htransfer
    simp only [entry, huser, hfee]
  | withdrawTokens sender recipient amount =>
    obtain ⟨tokens, hwithdraw, rfl⟩ := move_eq_ok h
    obtain ⟨rfl, t, htransfer, rfl⟩ := withdrawTokens_eq_ok hwithdraw
    exact .withdrawal recipient amount t htransfer
  | token caller tokenAddress f =>
    obtain ⟨t, hrun, hset⟩ := bind_eq_ok.mp h
    rw [← Except.ok.inj hset]
    exact .token caller tokenAddress f t hrun

/-! ### Tokens in the hands of others -/

/-- The functions that set what the caller allows `spender`. -/
def Approves (spender : Address) : TokenFunction → Prop
  | .approve s _ => s = spender
  | .increaseAllowance s _ => s = spender
  | .decreaseAllowance s _ => s = spender
  | _ => False

/-- What a function of a token, called by someone else, leaves of the paymaster's affairs. -/
structure Bystander (this caller : Address) (f : TokenFunction) (t t' : ERC20) : Prop where
  unapproved : ∀ spender, t'.allowances this spender = 0
  supply : t'.supply < 2 ^ 256
  balance : (t.balances this).toNat ≤ (t'.balances this).toNat
  allowance : ∀ user, user ≠ caller ∨ ¬Approves this f →
    t'.allowances user this = t.allowances user this

section Bystander

variable {this caller : Address} {t t' : ERC20}

theorem bystander_of_moved {f : TokenFunction} {spent : ERC20} {payer payee : Address}
    {amount : Word} (hsupply : spent.supply < 2 ^ 256)
    (hunapproved : ∀ spender, spent.allowances this spender = 0)
    (hbalances : spent.balances = t.balances)
    (hallowance : ∀ user, spent.allowances user this = t.allowances user this)
    (hpayer : payer = this → amount = 0)
    (hmove : spent.transferBalance payer payee amount = .ok t') : Bystander this caller f t t' := by
  obtain ⟨hmoved, hsum⟩ := ERC20.moved_of_transferBalance hsupply hmove
  have hsame := ERC20.allowances_of_transferBalance hmove
  refine ⟨fun spender => by rw [hsame, hunapproved], by rw [hsum]; exact hsupply, ?_,
    fun user _ => by rw [hsame, hallowance]⟩
  have hthis := hmoved this
  rw [hbalances] at hthis
  by_cases hpay : this = payer
  · obtain rfl := hpayer hpay.symm
    rw [if_pos hpay] at hthis
    have hzero : (0 : Word).toNat = 0 := rfl
    omega
  · rw [if_neg hpay] at hthis
    omega

theorem bystander_of_approve {f : TokenFunction} {spender : Address} {amount : Word}
    (hne : caller ≠ this) (hsupply : t.supply < 2 ^ 256)
    (hunapproved : ∀ spender, t.allowances this spender = 0)
    (hf : Approves this f ∨ spender ≠ this)
    (h : t.approve caller spender amount = .ok t') : Bystander this caller f t t' := by
  have hbalances : t'.balances = t.balances := by
    unfold ERC20.approve at h
    simp only [bind_eq_ok] at h
    obtain ⟨_, -, _, -, hset⟩ := h
    rw [← Except.ok.inj hset]
  refine ⟨fun b => ?_, ?_, by rw [hbalances], fun user hor => ?_⟩
  · rw [ERC20.allowance_of_approve h (Or.inl hne.symm), hunapproved]
  · rw [ERC20.supply, hbalances]
    exact hsupply
  · apply ERC20.allowance_of_approve h
    rcases hor with huser | hnot
    · exact Or.inl huser
    · exact Or.inr (hf.resolve_left hnot).symm

/-- **Others cannot touch what the paymaster holds.** -/
theorem bystander_of_run {f : TokenFunction} (hne : caller ≠ this) (hsupply : t.supply < 2 ^ 256)
    (hunapproved : ∀ spender, t.allowances this spender = 0)
    (hkeeps : ∀ balances, f = .supply balances →
      (t.balances this).toNat ≤ (balances this).toNat ∧ ∑ᶠ a, (balances a).toNat < 2 ^ 256)
    (h : f.run caller t = .ok t') : Bystander this caller f t t' := by
  cases f with
  | transfer recipient amount =>
    obtain ⟨⟨done, moved⟩, htransfer, hset⟩ := bind_eq_ok.mp h
    obtain rfl := Except.ok.inj hset
    exact bystander_of_moved hsupply hunapproved rfl (fun _ => rfl) (fun h => absurd h hne)
      (ERC20.transfer_eq_ok.mp htransfer).2
  | transferFrom sender recipient amount =>
    obtain ⟨⟨done, moved⟩, htransfer, hset⟩ := bind_eq_ok.mp h
    obtain rfl := Except.ok.inj hset
    obtain ⟨-, spent, hspend, hmove⟩ := ERC20.transferFrom_eq_ok.mp htransfer
    refine bystander_of_moved (by rw [ERC20.supply_of_spendAllowance hspend]; exact hsupply)
      (ERC20.allowance_zero_of_spendAllowance hunapproved hspend)
      (ERC20.balances_of_spendAllowance hspend)
      (fun user => ERC20.allowance_of_spendAllowance hspend (Or.inr hne.symm)) ?_ hmove
    rintro rfl
    -- nothing can be taken out of an allowance of zero
    rcases ERC20.spendAllowance_eq_ok.mp hspend with ⟨hmax, -⟩ | ⟨-, hle, -⟩
    · rw [hunapproved] at hmax
      exact absurd hmax (by decide)
    · rw [hunapproved] at hle
      exact BitVec.eq_of_toNat_eq (Nat.le_zero.mp hle)
  | approve spender amount =>
    exact bystander_of_approve hne hsupply hunapproved (Classical.em _) h
  | increaseAllowance spender addedValue =>
    obtain ⟨_, -, happrove⟩ := bind_eq_ok.mp h
    exact bystander_of_approve hne hsupply hunapproved (Classical.em _) happrove
  | decreaseAllowance spender subtractedValue =>
    obtain ⟨_, -, happrove⟩ := bind_eq_ok.mp h
    exact bystander_of_approve hne hsupply hunapproved (Classical.em _) happrove
  | supply balances =>
    obtain ⟨hle, hsum⟩ := hkeeps balances rfl
    obtain rfl := Except.ok.inj h
    exact ⟨hunapproved, hsum, hle, fun _ _ => rfl⟩

end Bystander

/-! ### One call -/

section Step

variable {w w' : World} {call : Call site}

theorem balance_update (w : World) (token : Address) (t : ERC20) (T : Address) :
    World.balance site { w with tokens := Function.update w.tokens token t } T
      = if T = token then (t.balances site.this).toNat else w.balance site T := by
  unfold World.balance
  by_cases hT : T = token
  · subst hT
    rw [if_pos rfl]
    simp only [Function.update_self]
  · rw [if_neg hT]
    simp only [Function.update_of_ne hT]

/-- One token is replaced by one that keeps the paymaster sound. -/
theorem Sound.update (h : Sound site w) {token : Address} {t : ERC20}
    (hunapproved : ∀ spender, t.allowances site.this spender = 0) (hsupply : t.supply < 2 ^ 256) :
    Sound site { w with tokens := Function.update w.tokens token t } := by
  refine ⟨fun T spender => ?_, fun T => ?_⟩
  · by_cases hT : T = token
    · subst hT
      simp only [Function.update_self, hunapproved]
    · simp only [Function.update_of_ne hT, h.unapproved]
  · by_cases hT : T = token
    · subst hT
      simp only [Function.update_self, hsupply]
    · simp only [Function.update_of_ne hT, h.supply]

/-- The paymaster's own allowance lets it take nothing from itself. -/
theorem Sound.amount_eq_zero (h : Sound site w) {token : Address} {amount : Word} {spent : ERC20}
    (hspend : (w.tokens token).spendAllowance site.this site.this amount = .ok spent) :
    amount = 0 := by
  rcases ERC20.spendAllowance_eq_ok.mp hspend with ⟨hmax, -⟩ | ⟨-, hle, -⟩
  · rw [h.unapproved] at hmax
    exact absurd hmax (by decide)
  · rw [h.unapproved] at hle
    exact BitVec.eq_of_toNat_eq (Nat.le_zero.mp hle)

theorem Sound.bystander (h : Sound site w) {caller : Outsider site} {tokenAddress : Address}
    {f : TokenFunction} {t : ERC20} (hkeeps : Keeps site w (.token caller tokenAddress f))
    (hrun : f.run caller (w.tokens tokenAddress) = .ok t) :
    Bystander site.this caller f (w.tokens tokenAddress) t :=
  bystander_of_run caller.property (h.supply tokenAddress) (h.unapproved tokenAddress)
    (fun balances hf => hkeeps caller tokenAddress balances (by rw [hf])) hrun

theorem Sound.step (h : Sound site w) (hkeeps : Keeps site w call)
    (heffect : Effect site w call w') : Sound site w' := by
  cases heffect with
  | storage s hentry htoken hfee => exact ⟨h.unapproved, h.supply⟩
  | charge user amount t hentry hmove =>
    obtain ⟨-, spent, hspend, hbalance⟩ := ERC20.transferFrom_eq_ok.mp hmove
    have hzero := ERC20.allowance_zero_of_spendAllowance (h.unapproved _) hspend
    refine h.update (fun spender => ?_) ?_
    · rw [ERC20.allowances_of_transferBalance hbalance, hzero]
    · rw [(ERC20.moved_of_transferFrom (h.supply _) hmove).2]
      exact h.supply _
  | withdrawal recipient amount t hmove =>
    refine h.update (fun spender => ?_) ?_
    · rw [ERC20.allowances_of_transferBalance hmove, h.unapproved]
    · rw [(ERC20.moved_of_transferBalance (h.supply _) hmove).2]
      exact h.supply _
  | token caller tokenAddress f t hrun =>
    have hby := h.bystander hkeeps hrun
    exact h.update hby.unapproved hby.supply

/-- The balance and the books move together. -/
theorem balance_step (h : Sound site w) (hkeeps : Keeps site w call)
    (heffect : Effect site w call w') (T : Address) :
    w'.balance site T + total (Entry.withdrawn site T) (entry site w w' call)
      = w.balance site T + total (Entry.charged T) (entry site w w' call)
        + total (Entry.received T) (entry site w w' call) := by
  cases heffect with
  | storage s hentry htoken hfee =>
    rw [hentry]
    rfl
  | charge user amount t hentry hmove =>
    rw [hentry, balance_update]
    simp only [total_cons, total_nil, Entry.withdrawn, Entry.charged, Entry.received]
    by_cases hT : T = w.state.paymentToken
    · subst hT
      rw [if_pos rfl, if_pos rfl]
      have hthis := (ERC20.moved_of_transferFrom (h.supply _) hmove).1 site.this
      rw [if_pos rfl] at hthis
      by_cases hself : site.this = user
      · -- the paymaster has allowed itself nothing
        subst hself
        obtain ⟨-, spent, hspend, -⟩ := ERC20.transferFrom_eq_ok.mp hmove
        obtain rfl := h.amount_eq_zero hspend
        rw [if_pos rfl] at hthis
        have hzero : (0 : Word).toNat = 0 := rfl
        unfold World.balance
        omega
      · rw [if_neg hself] at hthis
        unfold World.balance
        omega
    · rw [if_neg hT, if_neg (Ne.symm hT)]
  | withdrawal recipient amount t hmove =>
    rw [balance_update]
    simp only [entry, total_cons, total_nil, Entry.withdrawn, Entry.charged, Entry.received]
    by_cases hT : T = w.state.paymentToken
    · subst hT
      rw [if_pos rfl]
      have hthis := (ERC20.moved_of_transferBalance (h.supply _) hmove).1 site.this
      rw [if_pos rfl] at hthis
      by_cases hself : recipient = site.this
      · -- a withdrawal to itself is not counted
        rw [if_pos hself.symm] at hthis
        rw [if_neg fun hor => hor.2 hself]
        unfold World.balance
        omega
      · rw [if_neg (Ne.symm hself)] at hthis
        rw [if_pos ⟨rfl, hself⟩]
        unfold World.balance
        omega
    · rw [if_neg hT, if_neg fun hor => hT hor.1.symm]
  | token caller tokenAddress f t hrun =>
    have hby := h.bystander hkeeps hrun
    simp only [entry, total_cons, total_nil, Entry.withdrawn, Entry.charged, Entry.received]
    rw [balance_update, balance_update, if_pos rfl]
    have hle := hby.balance
    by_cases hT : T = tokenAddress
    · subst hT
      rw [if_pos rfl, if_pos rfl]
      unfold World.balance
      omega
    · rw [if_neg hT, if_neg (Ne.symm hT)]

/-- What `user` allows the paymaster of a token. -/
def World.allowance (site : Site) (w : World) (token user : Address) : Word :=
  (w.tokens token).allowances user site.this

/-- A call by which the user sets what they allow the paymaster. -/
def Sets (site : Site) (token user : Address) (call : Call site) : Prop :=
  ∃ caller f, call = .token caller token f ∧ user = caller.val ∧ Approves site.this f

theorem allowance_update (w : World) (token : Address) (t : ERC20) (T user : Address) :
    World.allowance site { w with tokens := Function.update w.tokens token t } T user
      = if T = token then t.allowances user site.this else w.allowance site T user := by
  unfold World.allowance
  by_cases hT : T = token
  · subst hT
    rw [if_pos rfl]
    simp only [Function.update_self]
  · rw [if_neg hT]
    simp only [Function.update_of_ne hT]

/-- A finite allowance and what has been charged move together. -/
theorem allowance_step (h : Sound site w) (hkeeps : Keeps site w call)
    (heffect : Effect site w call w') {T user : Address}
    (hfinite : (w.allowance site T user).toNat ≠ 2 ^ 256 - 1) (hsets : ¬Sets site T user call) :
    (w'.allowance site T user).toNat + total (Entry.chargedTo T user) (entry site w w' call)
      = (w.allowance site T user).toNat := by
  cases heffect with
  | storage s hentry htoken hfee =>
    rw [hentry]
    rfl
  | charge payer amount t hentry hmove =>
    rw [hentry, allowance_update]
    simp only [total_cons, total_nil, Entry.chargedTo]
    by_cases hT : T = w.state.paymentToken
    · subst hT
      obtain ⟨-, spent, hspend, hbalance⟩ := ERC20.transferFrom_eq_ok.mp hmove
      rw [if_pos rfl, ERC20.allowances_of_transferBalance hbalance]
      by_cases huser : payer = user
      · subst huser
        rw [if_pos ⟨rfl, rfl⟩, add_zero]
        exact ERC20.allowance_add_of_spendAllowance hfinite hspend
      · rw [if_neg fun hand => huser hand.2,
          ERC20.allowance_of_spendAllowance hspend (Or.inl (Ne.symm huser))]
        rfl
    · rw [if_neg hT, if_neg fun hand => hT hand.1.symm]
      rfl
  | withdrawal recipient amount t hmove =>
    rw [allowance_update, ERC20.allowances_of_transferBalance hmove]
    simp only [entry, total_cons, total_nil, Entry.chargedTo]
    split_ifs with hT
    · rw [hT]
      rfl
    · rfl
  | token caller tokenAddress f t hrun =>
    have hby := h.bystander hkeeps hrun
    rw [allowance_update]
    simp only [entry, total_cons, total_nil, Entry.chargedTo]
    by_cases hT : T = tokenAddress
    · subst hT
      have hor : user ≠ caller.val ∨ ¬Approves site.this f := by
        by_contra hboth
        push Not at hboth
        exact hsets ⟨caller, f, rfl, hboth.1, hboth.2⟩
      rw [if_pos rfl, hby.allowance user hor]
      rfl
    · rw [if_neg hT]
      rfl

end Step

/-! ### Runs -/

theorem total_append (f : Entry → ℕ) (books books' : List Entry) :
    total f (books ++ books') = total f books + total f books' := by
  unfold total
  rw [List.map_append, List.sum_append]

/-- The caller of an entry was the one the source asks for. -/
def Entry.Authorised (site : Site) : Entry → Prop
  | .charge caller _ _ _ => caller = site.entryPoint
  | .withdrawal caller _ _ _ => caller = site.verifyingSigner
  | .receipt _ _ => True

/-- The world and the books since `w₀`. -/
structure Accounts (site : Site) (w₀ : World) (b : Booked) : Prop where
  sound : Sound site b.world
  balance : ∀ T, b.world.balance site T + total (Entry.withdrawn site T) b.books
    = w₀.balance site T + total (Entry.charged T) b.books + total (Entry.received T) b.books
  authorised : ∀ e ∈ b.books, e.Authorised site

theorem authorised_step {w w' : World} {call : Call site} (heffect : Effect site w call w') :
    ∀ e ∈ entry site w w' call, e.Authorised site := by
  cases heffect with
  | storage s hentry htoken hfee =>
    rw [hentry]
    exact fun e he => by cases he
  | charge user amount t hentry hmove =>
    rw [hentry]
    intro e he
    rw [List.mem_singleton.mp he]
    exact rfl
  | withdrawal recipient amount t hmove =>
    intro e he
    rw [List.mem_singleton.mp he]
    exact rfl
  | token caller tokenAddress f t hrun =>
    intro e he
    rw [List.mem_singleton.mp he]
    exact trivial

theorem accounts_apply {w₀ : World} {b : Booked} {call : Call site} (h : Accounts site w₀ b)
    (hkeeps : Keeps site b.world call) : Accounts site w₀ (apply site b call) := by
  unfold apply
  cases hrun : call.run site b.world with
  | error e => exact h
  | ok w =>
    have heffect := effect_of_run hrun
    refine ⟨h.sound.step hkeeps heffect, fun T => ?_, fun e he => ?_⟩
    · have hstep := balance_step h.sound hkeeps heffect T
      have hbalance := h.balance T
      simp only [total_append]
      omega
    · rcases List.mem_append.mp he with he | he
      · exact authorised_step heffect e he
      · exact h.authorised e he

/-- What is left of a finite allowance, and what has been charged. -/
def Spends (site : Site) (T user : Address) (allowed : ℕ) (b : Booked) : Prop :=
  (b.world.allowance site T user).toNat + total (Entry.chargedTo T user) b.books = allowed

theorem spends_apply {T user : Address} {allowed : ℕ} {b : Booked} {call : Call site}
    (hsound : Sound site b.world) (hkeeps : Keeps site b.world call)
    (hfinite : allowed < 2 ^ 256 - 1) (hsets : ¬Sets site T user call)
    (h : Spends site T user allowed b) :
    Spends site T user allowed (apply site b call) := by
  unfold apply
  cases hrun : call.run site b.world with
  | error e => exact h
  | ok w =>
    unfold Spends at h ⊢
    have hleft : (b.world.allowance site T user).toNat ≠ 2 ^ 256 - 1 := by omega
    have hstep := allowance_step hsound hkeeps (effect_of_run hrun) hleft hsets
    simp only [total_append]
    omega

/-- The token is not the payment token, and does not stand in the books. -/
structure Untouched (site : Site) (T : Address) (b : Booked) : Prop where
  token : b.world.state.paymentToken ≠ T
  charged : total (Entry.charged T) b.books = 0
  withdrawn : total (Entry.withdrawn site T) b.books = 0

theorem untouched_apply {T : Address} {b : Booked} {call : Call site}
    (hcall : ∀ sender timestamp, call ≠ .updatePaymentToken sender T timestamp)
    (h : Untouched site T b) : Untouched site T (apply site b call) := by
  unfold apply
  cases hrun : call.run site b.world with
  | error e => exact h
  | ok w =>
    have heffect := effect_of_run hrun
    refine ⟨?_, ?_, ?_⟩
    · cases heffect with
      | storage s hentry htoken hfee =>
        rcases htoken with hsame | ⟨sender, timestamp, rfl⟩
        · exact hsame ▸ h.token
        · rintro rfl
          exact hcall sender timestamp rfl
      | charge user amount t hentry hmove => exact h.token
      | withdrawal recipient amount t hmove => exact h.token
      | token caller tokenAddress f t hrun => exact h.token
    · rw [total_append, h.charged, add_zero]
      cases heffect with
      | storage s hentry htoken hfee =>
        rw [hentry]
        rfl
      | charge user amount t hentry hmove =>
        rw [hentry]
        simp only [total_cons, total_nil, Entry.charged, if_neg h.token]
      | withdrawal recipient amount t hmove => rfl
      | token caller tokenAddress f t hrun => rfl
    · rw [total_append, h.withdrawn, add_zero]
      cases heffect with
      | storage s hentry htoken hfee =>
        rw [hentry]
        rfl
      | charge user amount t hentry hmove =>
        rw [hentry]
        rfl
      | withdrawal recipient amount t hmove =>
        simp only [entry, total_cons, total_nil, Entry.withdrawn, h.token, false_and, if_false]
      | token caller tokenAddress f t hrun => rfl

section Run

variable {w₀ : World} {events : List (JournalEvent (Call site))}
  (hsound : Sound site w₀)
  (hkeeps : ∀ before call, before ++ [.call call] <+: events →
    Keeps site (bookedAfter site w₀ before).world call)

include hsound hkeeps

theorem accounts_bookedAfter : Accounts site w₀ (bookedAfter site w₀ events) := by
  have hstart : (Journal.start ⟨w₀, []⟩).All (Accounts site w₀) :=
    ⟨⟨hsound, fun _ => rfl, fun e he => by cases he⟩, fun s' hs' => by cases hs'⟩
  exact (Journal.all_run hstart fun before call hprefix h =>
    accounts_apply h (hkeeps before call hprefix)).1

theorem spends_bookedAfter {T user : Address}
    (hfinite : (w₀.allowance site T user).toNat < 2 ^ 256 - 1)
    (hsets : ∀ call, .call call ∈ events → ¬Sets site T user call) :
    Spends site T user (w₀.allowance site T user).toNat (bookedAfter site w₀ events) := by
  have hstart : (Journal.start ⟨w₀, []⟩).All fun b => Accounts site w₀ b ∧
      Spends site T user (w₀.allowance site T user).toNat b :=
    ⟨⟨⟨hsound, fun _ => rfl, fun e he => by cases he⟩, rfl⟩, fun s' hs' => by cases hs'⟩
  refine (Journal.all_run hstart fun before call hprefix h => ?_).1.2
  have hmem : .call call ∈ events :=
    hprefix.subset (List.mem_append_right before List.mem_cons_self)
  exact ⟨accounts_apply h.1 (hkeeps before call hprefix),
    spends_apply h.1.sound (hkeeps before call hprefix) hfinite (hsets call hmem) h.2⟩

omit hsound hkeeps in
theorem untouched_bookedAfter {T : Address} (htoken : w₀.state.paymentToken ≠ T)
    (hnever : ∀ sender timestamp, .call (.updatePaymentToken sender T timestamp) ∉ events) :
    Untouched site T (bookedAfter site w₀ events) := by
  have hstart : (Journal.start ⟨w₀, []⟩).All (Untouched site T) :=
    ⟨⟨htoken, rfl, rfl⟩, fun s' hs' => by cases hs'⟩
  refine (Journal.all_run hstart fun before call hprefix h => ?_).1
  refine untouched_apply (fun sender timestamp hcall => ?_) h
  subst hcall
  exact hnever sender timestamp
    (List.IsPrefix.subset hprefix (List.mem_append_right before List.mem_cons_self))

/-- **Custody**: after every run, of any calls by anyone with any rollbacks, the paymaster holds of
every token what it held, was charged and was sent, without what the signer has withdrawn, and only
the entry point has charged; what a sender was charged, and what is left of a finite allowance that
they have not set anew, is what they had allowed; and a token that never was the payment token is
neither charged nor withdrawn. -/
theorem custody :
    (∀ T, (bookedAfter site w₀ events).world.balance site T
        + total (Entry.withdrawn site T) (bookedAfter site w₀ events).books
      = w₀.balance site T + total (Entry.charged T) (bookedAfter site w₀ events).books
        + total (Entry.received T) (bookedAfter site w₀ events).books) ∧
    (∀ e ∈ (bookedAfter site w₀ events).books, e.Authorised site) ∧
    (∀ T user, (w₀.allowance site T user).toNat < 2 ^ 256 - 1 →
      (∀ call, .call call ∈ events → ¬Sets site T user call) →
      ((bookedAfter site w₀ events).world.allowance site T user).toNat
          + total (Entry.chargedTo T user) (bookedAfter site w₀ events).books
        = (w₀.allowance site T user).toNat) ∧
    ∀ T, w₀.state.paymentToken ≠ T →
      (∀ sender timestamp, .call (.updatePaymentToken sender T timestamp) ∉ events) →
      total (Entry.charged T) (bookedAfter site w₀ events).books = 0 ∧
        total (Entry.withdrawn site T) (bookedAfter site w₀ events).books = 0 := by
  have haccounts := accounts_bookedAfter hsound hkeeps
  refine ⟨haccounts.balance, haccounts.authorised, ?_, ?_⟩
  · intro T user hfinite hsets
    exact spends_bookedAfter hsound hkeeps hfinite hsets
  · intro T htoken hnever
    have huntouched := untouched_bookedAfter htoken hnever
    exact ⟨huntouched.charged, huntouched.withdrawn⟩

end Run

/-- The paymaster 9, with the entry point 1 and the signer 3. -/
def custodySite : Site where
  this := 9
  chainid := 1
  entryPoint := 1
  verifyingSigner := 3
  ecrecover _ _ _ _ := 3

/-- The payment token is 11, of which the sender 5 holds 1000 and allows the paymaster 600. -/
def custodyWorld : World where
  state := deploy 8 11 2
  tokens _ :=
    { balances := fun a => if a = 5 then 1000 else 0
      allowances := fun a b => if a = 5 ∧ b = 9 then 600 else 0 }

/-- A fee logic that charges the cost. -/
def atCost : Address → Address → Word → Result Word := fun _ _ cost => .ok cost

/-- A charge of 250, another of 100 that is rolled back, and a withdrawal of 200. -/
def custodyEvents : List (JournalEvent (Call custodySite)) :=
  [.call (.postOp 1 atCost .opSucceeded (abiEncode [addressValue 5]) 250), .openFrame,
    .call (.postOp 1 atCost .opReverted (abiEncode [addressValue 5]) 100), .rollback,
    .call (.withdrawTokens 3 7 200)]

theorem sound_custodyWorld : Sound custodySite custodyWorld := by
  refine ⟨fun token spender => ?_, fun token => ?_⟩
  · show (if (9 : Address) = 5 ∧ spender = 9 then (600 : Word) else 0) = 0
    exact if_neg fun h => absurd h.1 (by decide)
  have hsum : (custodyWorld.tokens token).supply = 1000 := by
    refine (finsum_eq_single _ (5 : Address) fun a ha => ?_).trans rfl
    show (if a = 5 then (1000 : Word) else 0).toNat = 0
    rw [if_neg ha]
    rfl
  rw [hsum]
  decide

/-- Of the 1000, 50 stay with the paymaster and 200 with the recipient. -/
theorem custody_custodyEvents :
    (bookedAfter custodySite custodyWorld custodyEvents).world.balance custodySite 11 = 50 ∧
    total (Entry.charged 11) (bookedAfter custodySite custodyWorld custodyEvents).books = 250 ∧
    (bookedAfter custodySite custodyWorld custodyEvents).world.balance custodySite 11
        + total (Entry.withdrawn custodySite 11)
          (bookedAfter custodySite custodyWorld custodyEvents).books
      = custodyWorld.balance custodySite 11
        + total (Entry.charged 11) (bookedAfter custodySite custodyWorld custodyEvents).books
        + total (Entry.received 11) (bookedAfter custodySite custodyWorld custodyEvents).books := by
  refine ⟨by decide, by decide, (custody sound_custodyWorld ?_).1 11⟩
  intro before call hprefix caller token balances hcall
  subst hcall
  have hmem := hprefix.subset (List.mem_append_right before List.mem_cons_self)
  simp [custodyEvents] at hmem

end Enclave.TokenPaymaster
