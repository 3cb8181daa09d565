import Enclave.Fee.Contract
import Enclave.Fee.Equiv.Mainnet
import Enclave.Fee.Equiv.Uniswap
import Enclave.Paymaster.Equiv.Settlement

/-!
# The price of an operation

`EnclaveVerifyingTokenPaymaster` together with the contracts of the fee logic, whose owners change
their settings in the course of a run.  `charge_priced`: every charge of a run is the price that the
contract at the address of the fee logic makes of the cost at that moment, in numbers;
`EnclaveFeeLogicUniswap` takes the cost for an amount of gas and multiplies it by the gas price once
more.  `testnet_collects_nothing`: as long as the owner does not replace `EnclaveFeeLogicTestnet`,
the paymaster charges nobody, and no bundle can be settled.
-/

namespace Enclave

/-! ### What the paymaster is told -/

namespace FeeContract

variable {chain : FeeSources} {contracts : Address → FeeContract} {feeLogic token : Address}
  {cost amount : Word}

theorem length_calculateFeeSelector : calculateFeeSelector.length = 4 := by
  rw [calculateFeeSelector, selector, List.length_take, Word.length_toBytes]
  rfl

theorem testnetSelector_ne : calculateFeeSelector ≠ testnetSelector := by
  decide +kernel

/-- The arguments of `IEnclaveFeeLogic.calculateFee` arrive as they were sent. -/
theorem dispatch_calculateFee (f : Address → Word → Result Word) (rest : Bytes → Result Bytes) :
    dispatch f rest
        (calculateFeeSelector ++ abiEncode [.word (toWord token), .word cost])
      = f token cost >>= fun fee => .ok (abiEncode [.word fee]) := by
  have hargs : abiEncode [.word (toWord token), .word cost]
      = (toWord token).toBytes ++ (cost.toBytes ++ []) := abiEncode_words [toWord token, cost]
  have htoken : abiDecodeAddress (abiEncode [.word (toWord token), .word cost]) 0 = .ok token := by
    rw [hargs, ← List.nil_append ((toWord token).toBytes ++ _)]
    exact abiDecodeBits_toWord (by decide) token rfl
  have hcost : abiDecodeWord (abiEncode [.word (toWord token), .word cost]) 32 = .ok cost :=
    abiDecodeWord_words [toWord token, cost] 1 Nat.one_lt_two
  unfold dispatch
  rw [List.take_left' length_calculateFeeSelector, if_pos rfl,
    List.drop_left' length_calculateFeeSelector, htoken, ok_bind, hcost, ok_bind]

/-- The answer is the fee. -/
theorem reply_eq (r : Result Word) :
    ((r >>= fun fee => .ok (abiEncode [.word fee])) >>= fun reply => abiDecodeWord reply 0)
      = r := by
  cases r with
  | error e => rfl
  | ok fee =>
    rw [ok_bind, ok_bind]
    exact abiDecodeWord_words [fee] 0 Nat.one_pos

theorem calculateFee_mainnet {fl : FeeLogicMainnet} (h : contracts feeLogic = .mainnet fl) :
    calculateFee chain contracts feeLogic token cost = fl.calculateFee chain.feeds token cost := by
  unfold calculateFee
  rw [h]
  simp only [staticcall]
  rw [dispatch_calculateFee, reply_eq]

theorem calculateFee_uniswap {fl : FeeLogicUniswap} (h : contracts feeLogic = .uniswap fl) :
    calculateFee chain contracts feeLogic token cost
      = fl.calculateFee chain.uniswap chain.gasprice token cost := by
  unfold calculateFee
  rw [h]
  simp only [staticcall]
  rw [dispatch_calculateFee, reply_eq]

/-- The contract of the testnet does not know the function. -/
theorem calculateFee_testnet (h : contracts feeLogic = .testnet) :
    calculateFee chain contracts feeLogic token cost = .error .empty := by
  unfold calculateFee
  rw [h]
  simp only [staticcall]
  rw [List.take_left' length_calculateFeeSelector, if_neg testnetSelector_ne]
  rfl

/-- The price that a contract makes of a cost. -/
inductive Prices (chain : FeeSources) (token : Address) (cost amount : Word) : FeeContract → Prop
  /-- The cost at the price of the feed, and the markup. -/
  | mainnet {fl : FeeLogicMainnet} {answer : BitVec 256} {d : BitVec 8}
      (hanswer : (chain.feeds fl.dataFeed).latestAnswer = .ok answer)
      (hd : (chain.feeds fl.dataFeed).decimals = .ok d)
      (hamount : amount.toNat = FeeLogicMainnet.flooredCost answer d cost
        + FeeLogicMainnet.flooredCost answer d cost / fl.markupDenominator.toNat) :
      Prices chain token cost amount (.mainnet fl)
  /-- In ether, the cost times the gas price. -/
  | ether {fl : FeeLogicUniswap} (htoken : token = fl.WETH9)
      (hamount : amount.toNat = cost.toNat * chain.gasprice.toNat) :
      Prices chain token cost amount (.uniswap fl)
  /-- In another token, the quote for the cost times the gas price. -/
  | quoted {fl : FeeLogicUniswap} {d : BitVec 8} (htoken : token ≠ fl.WETH9)
      (hd : chain.uniswap.decimals token = .ok d)
      (hamount : amount.toNat = FeeLogicUniswap.quote
        (chain.uniswap.sqrtPriceX96 (FeeLogicUniswap.pricePool chain.uniswap fl token)).toNat
        (FeeLogicUniswap.findOptimalPool chain.uniswap fl token).toNat
        (chain.uniswap.liquidity (FeeLogicUniswap.pricePool chain.uniswap fl token)).toNat
        d.toNat fl.markup.toNat fl.markupDenominator.toNat
        (cost.toNat * chain.gasprice.toNat)) :
      Prices chain token cost amount (.uniswap fl)

theorem prices_mainnet {fl : FeeLogicMainnet}
    (h : fl.calculateFee chain.feeds token cost = .ok amount) :
    Prices chain token cost amount (.mainnet fl) := by
  obtain ⟨answer, hanswer⟩ : ∃ answer, (chain.feeds fl.dataFeed).latestAnswer = .ok answer := by
    obtain ⟨answer, hanswer, -⟩ := bind_eq_ok.mp h
    exact ⟨answer, hanswer⟩
  obtain ⟨d, hd⟩ : ∃ d, (chain.feeds fl.dataFeed).decimals = .ok d := by
    unfold FeeLogicMainnet.calculateFee at h
    simp only [bind_eq_ok] at h
    obtain ⟨_, -, _, -, d, hd, -⟩ := h
    exact ⟨d, hd⟩
  exact .mainnet hanswer hd ((FeeLogicMainnet.calculateFee_eq_ok_iff hanswer hd).mp h).2.2.2

theorem prices_uniswap {fl : FeeLogicUniswap}
    (h : fl.calculateFee chain.uniswap chain.gasprice token cost = .ok amount) :
    Prices chain token cost amount (.uniswap fl) := by
  by_cases htoken : token = fl.WETH9
  · obtain ⟨base, hbase, h⟩ := bind_eq_ok.mp h
    rw [if_pos htoken] at h
    obtain rfl := Except.ok.inj h
    exact .ether htoken (CustomFullMath.mulDiv_one_eq_ok_iff.mp hbase)
  · obtain ⟨d, hd, -, -, -, hamount⟩ := FeeLogicUniswap.toNat_of_calculateFee htoken h
    exact .quoted htoken hd hamount

/-- A contract that answers has made the price. -/
theorem prices_of_calculateFee
    (h : calculateFee chain contracts feeLogic token cost = .ok amount) :
    Prices chain token cost amount (contracts feeLogic) := by
  cases hcontract : contracts feeLogic with
  | noCode =>
    unfold calculateFee at h
    rw [hcontract] at h
    cases h
  | mainnet fl =>
    rw [calculateFee_mainnet hcontract] at h
    exact prices_mainnet h
  | testnet =>
    rw [calculateFee_testnet hcontract] at h
    cases h
  | uniswap fl =>
    rw [calculateFee_uniswap hcontract] at h
    exact prices_uniswap h

end FeeContract

/-! ### Runs -/

namespace TokenPaymaster

open Paymaster
open MultiTokenPaymaster (PostOpMode)

/-- The calls that ask the fee logic. -/
def Call.asks {site : Site} : Call site → Bool
  | .postOp .. => true
  | _ => false

/-- The paymaster with its books, and the contracts at the addresses of a fee logic. -/
structure System where
  booked : Booked
  fees : Address → FeeContract

/-- What can happen: a contract of the fee logic is deployed, or one of its functions is called; the
paymaster is asked to settle; or something else happens at the paymaster or at a token. -/
inductive Action (site : Site)
  | create (address : Address) (contract : FeeContract)
  | update (sender address : Address) (f : FeeContract.Update)
  | postOp (chain : FeeSources) (sender : Address) (mode : PostOpMode) (context : Bytes)
      (actualGasCost : Word)
  | other (call : Call site) (hasks : call.asks = false)

variable (site : Site)

/-- The call of the paymaster or of a token that an action is. -/
def Action.call (s : System) : Action site → Option (Call site)
  | .postOp chain sender mode context actualGasCost =>
    some (.postOp sender (FeeContract.calculateFee chain s.fees) mode context actualGasCost)
  | .other call _ => some call
  | _ => none

/-- What an action makes of the contracts of the fee logic; code is never replaced. -/
def Action.fees (fees : Address → FeeContract) : Action site → Address → FeeContract
  | .create address contract =>
    if fees address = .noCode then Function.update fees address contract else fees
  | .update sender address f =>
    match (fees address).update sender f with
    | .ok contract => Function.update fees address contract
    | .error _ => fees
  | _ => fees

def System.apply (s : System) (action : Action site) : System where
  booked := ((action.call site s).map (TokenPaymaster.apply site s.booked)).getD s.booked
  fees := action.fees site s.fees

/-- The system at the end of a run. -/
def systemAfter (s : System) (events : List (JournalEvent (Action site))) : System :=
  (Journal.run (System.apply site) (Journal.start s) events).state

variable {site}

/-- A charge is entered by `postOp`, at the price of the fee logic. -/
theorem mem_entry_charge {w w' : World} {call : Call site} {caller token sender : Address}
    {amount : Word} (h : Entry.charge caller token sender amount ∈ entry site w w' call) :
    ∃ fees mode context cost, call = .postOp caller fees mode context cost ∧
      token = w.state.paymentToken ∧ abiDecodeAddress context 0 = .ok sender ∧
      fees w.state.feeLogic token cost = .ok amount := by
  cases call with
  | postOp caller' fees mode context cost =>
    simp only [entry] at h
    split at h
    · rename_i sender' charge hsender hcharge
      cases List.mem_singleton.mp h
      exact ⟨fees, mode, context, cost, rfl, rfl, hsender, hcharge⟩
    · cases h
  | withdrawTokens caller' recipient amount' => cases List.mem_singleton.mp h
  | token caller' tokenAddress f => cases List.mem_singleton.mp h
  | _ => cases h

/-- A call enters a charge only as `postOp`, with what the fee logic answered. -/
theorem charge_apply_call {b : Booked} {call : Call site} {caller token sender : Address}
    {amount : Word}
    (h : Entry.charge caller token sender amount ∈ (TokenPaymaster.apply site b call).books) :
    Entry.charge caller token sender amount ∈ b.books ∨
    ∃ fees mode context cost, call = .postOp caller fees mode context cost ∧
      token = b.world.state.paymentToken ∧ abiDecodeAddress context 0 = .ok sender ∧
      fees b.world.state.feeLogic token cost = .ok amount := by
  unfold TokenPaymaster.apply at h
  cases hrun : call.run site b.world with
  | error e =>
    rw [hrun] at h
    exact Or.inl h
  | ok w =>
    rw [hrun] at h
    rcases List.mem_append.mp h with hnew | hold
    · exact Or.inr (mem_entry_charge hnew)
    · exact Or.inl hold

/-- A charge in the books after an action was there before, or the action is its settlement. -/
theorem charge_apply {s : System} {action : Action site} {caller token sender : Address}
    {amount : Word}
    (h : Entry.charge caller token sender amount ∈ (s.apply site action).booked.books) :
    Entry.charge caller token sender amount ∈ s.booked.books ∨
    ∃ chain mode context cost, action = .postOp chain caller mode context cost ∧
      token = s.booked.world.state.paymentToken ∧ abiDecodeAddress context 0 = .ok sender ∧
      FeeContract.calculateFee chain s.fees s.booked.world.state.feeLogic token cost
        = .ok amount := by
  cases action with
  | create address contract => exact Or.inl h
  | update sender address f => exact Or.inl h
  | postOp chain caller' mode context cost =>
    refine (charge_apply_call h).imp id ?_
    rintro ⟨fees, mode', context', cost', heq, htoken, hsender, hfee⟩
    cases heq
    exact ⟨chain, mode, context, cost, rfl, htoken, hsender, hfee⟩
  | other call hasks =>
    refine (charge_apply_call h).imp id ?_
    rintro ⟨fees, mode, context, cost, rfl, -⟩
    -- the other calls do not ask the fee logic
    cases hasks

/-- **The price of every charge**: after every run, with any updates of the fee logic by anyone and
any rollbacks, each charge in the books is the price that the contract at the address of the fee
logic made of the cost when the operation was settled. -/
theorem charge_priced {s₀ : System} (hbooks : s₀.booked.books = [])
    {events : List (JournalEvent (Action site))} {caller token sender : Address} {amount : Word}
    (h : Entry.charge caller token sender amount
      ∈ (systemAfter site s₀ events).booked.books) :
    ∃ before chain mode context cost,
      before ++ [.call (.postOp chain caller mode context cost)] <+: events ∧
      token = (systemAfter site s₀ before).booked.world.state.paymentToken ∧
      abiDecodeAddress context 0 = .ok sender ∧
      FeeContract.Prices chain token cost amount ((systemAfter site s₀ before).fees
        (systemAfter site s₀ before).booked.world.state.feeLogic) := by
  have hstart : (Journal.start s₀).All fun s =>
      Entry.charge caller token sender amount ∈ s.booked.books →
      ∃ before chain mode context cost,
        before ++ [.call (.postOp chain caller mode context cost)] <+: events ∧
        token = (systemAfter site s₀ before).booked.world.state.paymentToken ∧
        abiDecodeAddress context 0 = .ok sender ∧
        FeeContract.Prices chain token cost amount ((systemAfter site s₀ before).fees
          (systemAfter site s₀ before).booked.world.state.feeLogic) := by
    refine ⟨fun hmem => ?_, fun s hs => by cases hs⟩
    rw [show (Journal.start s₀).state.booked.books = [] from hbooks] at hmem
    cases hmem
  refine (Journal.all_run hstart fun before action hrun ih hmem => ?_).1 h
  rcases charge_apply hmem with hold | ⟨chain, mode, context, cost, rfl, htoken, hsender, hfee⟩
  · exact ih hold
  · exact ⟨before, chain, mode, context, cost, hrun, htoken, hsender,
      FeeContract.prices_of_calculateFee hfee⟩

/-! ### Two prices -/

/-- A settlement enters its charge. -/
theorem apply_postOp {s : System} {chain : FeeSources} {mode : PostOpMode} {context : Bytes}
    {cost amount : Word} {sender : Address} {t : ERC20}
    (hsender : abiDecodeAddress context 0 = .ok sender)
    (hfee : FeeContract.calculateFee chain s.fees s.booked.world.state.feeLogic
      s.booked.world.state.paymentToken cost = .ok amount)
    (htransfer : (s.booked.world.tokens s.booked.world.state.paymentToken).transferFrom site.this
      sender site.this amount = .ok (true, t)) :
    s.apply site (.postOp chain site.entryPoint mode context cost)
      = ⟨⟨⟨s.booked.world.state,
            Function.update s.booked.world.tokens s.booked.world.state.paymentToken t⟩,
          .charge site.entryPoint s.booked.world.state.paymentToken sender amount
            :: s.booked.books⟩, s.fees⟩ := by
  have hrun : Call.run site s.booked.world (.postOp site.entryPoint
      (FeeContract.calculateFee chain s.fees) mode context cost) = _ :=
    run_postOp hsender hfee htransfer
  simp only [System.apply, Action.call, Option.map_some, Option.getD_some, TokenPaymaster.apply,
    hrun, entry, hsender, hfee, List.singleton_append, Action.fees]

/-- A gas price of 2, and a price of 2500 dollars with 8 decimals. -/
def doubleSources : FeeSources where
  feeds := FeeLogicMainnet.feedOf 250000000000
  uniswap := FeeLogicUniswap.flatPool 0 0
  gasprice := 2
  rest _ := .error .empty

/-- The payment token 11 is wrapped ether for the fee logic at 2; the one at 4 asks a feed. -/
def etherSystem : System where
  booked := ⟨custodyWorld, []⟩
  fees a := if a = 2 then .uniswap (FeeLogicUniswap.evenMarkup 11)
    else if a = 4 then .mainnet FeeLogicMainnet.tenPercent else .noCode

/-- The settlement of an operation of the sender 5. -/
def settle (cost : Word) : JournalEvent (Action custodySite) :=
  .call (.postOp doubleSources 1 .opSucceeded (abiEncode [addressValue 5]) cost)

/-- An operation that cost 125 is settled, another one is rolled back; then the owner of the other
fee logic doubles its markup, the owner of the paymaster turns to it, and an operation that cost
`4 * 10 ^ 10` is settled. -/
def etherEvents : List (JournalEvent (Action custodySite)) :=
  [settle 125, .openFrame, settle 100, .rollback, .call (.update 1 4 (.updateMarkupDenominator 5)),
    .call (.other (.updateFeeLogic 8 4 0) rfl), settle 40000000000]

/-- The token after the first settlement. -/
def chargedToken : ERC20 where
  balances := Function.update (Function.update (custodyWorld.tokens 11).balances 5 750) 9 250
  allowances := Function.update (custodyWorld.tokens 11).allowances 5
    (Function.update ((custodyWorld.tokens 11).allowances 5) 9 350)

/-- The system after the first settlement, and after the rollback. -/
def chargedSystem : System :=
  ⟨⟨⟨custodyWorld.state, Function.update custodyWorld.tokens 11 chargedToken⟩,
    [.charge 1 11 5 250]⟩, etherSystem.fees⟩

/-- The system after the two owners have been active. -/
def repricedSystem : System :=
  (chargedSystem.apply custodySite (.update 1 4 (.updateMarkupDenominator 5))).apply custodySite
    (.other (.updateFeeLogic 8 4 0) rfl)

theorem books_etherEvents :
    (systemAfter custodySite etherSystem etherEvents).booked.books
      = [.charge 1 11 5 120, .charge 1 11 5 250] := by
  have hsender : abiDecodeAddress (abiEncode [addressValue 5]) 0 = .ok 5 :=
    abiDecodeAddress_encode 5
  have hether : FeeContract.calculateFee doubleSources etherSystem.fees 2 11 125 = .ok 250 := by
    have hcontract : etherSystem.fees 2 = .uniswap (FeeLogicUniswap.evenMarkup 11) := rfl
    rw [FeeContract.calculateFee_uniswap hcontract]
    rfl
  have hfeed : FeeContract.calculateFee doubleSources repricedSystem.fees 4 11 40000000000
      = .ok 120 := by
    have hcontract : repricedSystem.fees 4 = .mainnet ⟨1, 2, 5⟩ := rfl
    rw [FeeContract.calculateFee_mainnet hcontract]
    rfl
  have hfirst : etherSystem.apply custodySite (.postOp doubleSources 1 .opSucceeded
      (abiEncode [addressValue 5]) 125) = chargedSystem := apply_postOp hsender hether rfl
  have hsecond : (repricedSystem.apply custodySite (.postOp doubleSources 1 .opSucceeded
      (abiEncode [addressValue 5]) 40000000000)).booked.books
        = [.charge 1 11 5 120, .charge 1 11 5 250] :=
    congrArg (fun s => s.booked.books) (apply_postOp hsender hfeed rfl)
  -- what is rolled back leaves no trace
  show ((((etherSystem.apply custodySite (.postOp doubleSources 1 .opSucceeded
      (abiEncode [addressValue 5]) 125)).apply custodySite
    (.update 1 4 (.updateMarkupDenominator 5))).apply custodySite
    (.other (.updateFeeLogic 8 4 0) rfl)).apply custodySite
    (.postOp doubleSources 1 .opSucceeded (abiEncode [addressValue 5]) 40000000000)).booked.books
      = _
  rw [hfirst]
  exact hsecond

/-- Both charges are the prices of their moments. -/
theorem charge_priced_etherEvents : [(120 : Word), 250].Forall fun amount =>
    Entry.charge 1 11 5 amount ∈ (systemAfter custodySite etherSystem etherEvents).booked.books ∧
    ∃ before chain mode context cost,
      before ++ [.call (.postOp chain 1 mode context cost)] <+: etherEvents ∧
      (11 : Address)
        = (systemAfter custodySite etherSystem before).booked.world.state.paymentToken ∧
      abiDecodeAddress context 0 = .ok 5 ∧
      FeeContract.Prices chain 11 cost amount ((systemAfter custodySite etherSystem before).fees
        (systemAfter custodySite etherSystem before).booked.world.state.feeLogic) := by
  refine List.forall_iff_forall_mem.mpr fun amount hamount => ?_
  have hmem : Entry.charge 1 11 5 amount
      ∈ (systemAfter custodySite etherSystem etherEvents).booked.books := by
    rw [books_etherEvents]
    exact List.mem_map_of_mem hamount
  exact ⟨hmem, charge_priced rfl hmem⟩

/-! ### The contract of the testnet -/

/-- The paymaster asks the contract of the testnet, and has charged nobody. -/
structure Unpriced (feeLogic : Address) (s : System) : Prop where
  contract : s.fees feeLogic = .testnet
  asked : s.booked.world.state.feeLogic = feeLogic
  uncharged : ∀ caller token sender amount,
    Entry.charge caller token sender amount ∉ s.booked.books

theorem fees_testnet {fees : Address → FeeContract} {feeLogic : Address}
    (h : fees feeLogic = .testnet) (action : Action site) :
    action.fees site fees feeLogic = .testnet := by
  cases action with
  | create address contract =>
    simp only [Action.fees]
    split_ifs with hfree
    · rw [Function.update_of_ne, h]
      rintro rfl
      rw [h] at hfree
      cases hfree
    · exact h
  | update sender address f =>
    simp only [Action.fees]
    cases hupdate : (fees address).update sender f with
    | error e => exact h
    | ok contract =>
      simp only
      rw [Function.update_of_ne, h]
      rintro rfl
      rw [h] at hupdate
      cases hupdate
  | postOp chain sender mode context cost => exact h
  | other call hasks => exact h

/-- The address of the fee logic changes only if the owner says so. -/
theorem feeLogic_apply {b : Booked} {call : Call site} {feeLogic : Address}
    (h : b.world.state.feeLogic = feeLogic)
    (hcall : ∀ next timestamp,
      call = .updateFeeLogic b.world.state.owner next timestamp → next = feeLogic) :
    (TokenPaymaster.apply site b call).world.state.feeLogic = feeLogic := by
  unfold TokenPaymaster.apply
  cases hrun : call.run site b.world with
  | error e => exact h
  | ok w =>
    cases effect_of_run hrun with
    | storage s hentry htoken hfee =>
      rcases hfee with hsame | ⟨timestamp, heq⟩
      · exact hsame.trans h
      · exact hcall _ timestamp heq
    | charge user amount t hentry hmove => exact h
    | withdrawal recipient amount t hmove => exact h
    | token caller tokenAddress f t hrun => exact h

theorem unpriced_apply {feeLogic : Address} {s : System} {action : Action site}
    (hkept : ∀ next timestamp hasks, action = .other
      (.updateFeeLogic s.booked.world.state.owner next timestamp) hasks → next = feeLogic)
    (h : Unpriced feeLogic s) : Unpriced feeLogic (s.apply site action) := by
  refine ⟨fees_testnet h.contract action, ?_, ?_⟩
  · cases action with
    | create address contract => exact h.asked
    | update sender address f => exact h.asked
    | postOp chain sender mode context cost =>
      exact feeLogic_apply h.asked fun next timestamp heq => by cases heq
    | other call hasks =>
      refine feeLogic_apply h.asked fun next timestamp heq => ?_
      subst heq
      exact hkept next timestamp hasks rfl
  · intro caller token sender amount hmem
    rcases charge_apply hmem with hold | ⟨chain, mode, context, cost, -, -, -, hfee⟩
    · exact h.uncharged caller token sender amount hold
    · rw [FeeContract.calculateFee_testnet (h.asked ▸ h.contract)] at hfee
      cases hfee

/-- Without a price `_postOp` reverts. -/
theorem postOp_testnet {fees : Address → FeeContract} {st : State}
    (h : fees st.feeLogic = .testnet) (chain : FeeSources) (mode : PostOpMode) (context : Bytes)
    (cost : Word) (tokens tokens' : Address → ERC20) :
    postOp openZeppelin site (FeeContract.calculateFee chain fees) mode context cost st tokens
      ≠ .ok tokens' := by
  intro hpost
  obtain ⟨sender, charge, t, -, hcharge, -⟩ := postOp_eq_ok hpost
  rw [FeeContract.calculateFee_testnet h] at hcharge
  cases hcharge

/-- The other calls of a second phase leave the address of the fee logic. -/
def KeepsFeeLogic (feeLogic : Address) : List (Step site) → World → Prop
  | [], _ => True
  | .postOp op context fees :: steps, w =>
    KeepsFeeLogic feeLogic steps (w.after (settlement site op context fees))
  | .other c :: steps, w =>
    (w.after c).state.feeLogic = feeLogic ∧ KeepsFeeLogic feeLogic steps (w.after c)

/-- A bundle is not settled without a price, whatever is executed before the first charge. -/
theorem not_settles_testnet {fees : Address → FeeContract} {feeLogic : Address}
    (h : fees feeLogic = .testnet) {steps : List (Step site)} {w : World}
    (hfees : ∀ op context fees', .postOp op context fees' ∈ steps →
      ∃ chain, fees' = FeeContract.calculateFee chain fees)
    (hkeeps : KeepsFeeLogic feeLogic steps w) (hasked : w.state.feeLogic = feeLogic)
    (hne : settlements steps ≠ []) : ¬Settles steps w := by
  induction steps generalizing w with
  | nil => exact absurd rfl hne
  | cons step steps ih =>
    cases step with
    | postOp op context fees' =>
      rintro ⟨⟨w', hrun⟩, -⟩
      obtain ⟨chain, rfl⟩ := hfees op context fees' List.mem_cons_self
      obtain ⟨_, -, hmove⟩ := bind_eq_ok.mp hrun
      obtain ⟨tokens, hpost, -⟩ := move_eq_ok hmove
      exact postOp_testnet (hasked ▸ h) chain op.mode context op.actualGasCost _ tokens hpost
    | other c =>
      exact ih (fun op context fees' hmem => hfees op context fees' (List.mem_cons_of_mem _ hmem))
        hkeeps.2 hkeeps.1 hne

/-- **`EnclaveFeeLogicTestnet` collects nothing**: in every run in which the owner does not replace
it, nobody is charged, every call of `postOp` reverts, and so does the settlement of every bundle
with an operation. -/
theorem testnet_collects_nothing {s₀ : System} {feeLogic : Address}
    (hcontract : s₀.fees feeLogic = .testnet)
    (hasked : s₀.booked.world.state.feeLogic = feeLogic) (hbooks : s₀.booked.books = [])
    {events : List (JournalEvent (Action site))}
    (hkept : ∀ before next timestamp hasks,
      before ++ [.call (.other (.updateFeeLogic
        (systemAfter site s₀ before).booked.world.state.owner next timestamp) hasks)] <+: events →
      next = feeLogic) :
    (∀ token, total (Entry.charged token) (systemAfter site s₀ events).booked.books = 0) ∧
    (∀ chain sender mode context cost, ∃ e, Call.run site
      (systemAfter site s₀ events).booked.world (.postOp sender (FeeContract.calculateFee chain
        (systemAfter site s₀ events).fees) mode context cost) = .error e) ∧
    ∀ (tokens : Address → ERC20) (steps : List (Step site)),
      (∀ op context fees, .postOp op context fees ∈ steps →
        ∃ chain, fees = FeeContract.calculateFee chain (systemAfter site s₀ events).fees) →
      KeepsFeeLogic feeLogic steps ⟨(systemAfter site s₀ events).booked.world.state, tokens⟩ →
      settlements steps ≠ [] →
        ¬Settles steps ⟨(systemAfter site s₀ events).booked.world.state, tokens⟩ := by
  have hstart : (Journal.start s₀).All (Unpriced feeLogic) := by
    refine ⟨⟨hcontract, hasked, fun caller token sender amount hmem => ?_⟩, fun s hs => by cases hs⟩
    rw [show (Journal.start s₀).state.booked.books = [] from hbooks] at hmem
    cases hmem
  have hunpriced : Unpriced feeLogic (systemAfter site s₀ events) := by
    refine (Journal.all_run hstart fun before action hrun ih => ?_).1
    refine unpriced_apply (fun next timestamp hasks heq => ?_) ih
    subst heq
    exact hkept before next timestamp hasks hrun
  set s := systemAfter site s₀ events
  have hasks : s.fees s.booked.world.state.feeLogic = .testnet :=
    hunpriced.asked.symm ▸ hunpriced.contract
  refine ⟨fun token => ?_, fun chain sender mode context cost => ?_,
    fun tokens steps hfees hkeeps hne =>
      not_settles_testnet hunpriced.contract hfees hkeeps hunpriced.asked hne⟩
  · -- no entry is a charge, so that the sum has no summand but zero
    apply List.sum_eq_zero
    intro n hn
    obtain ⟨e, he, rfl⟩ := List.mem_map.mp hn
    cases e with
    | charge caller t sender amount => exact absurd he (hunpriced.uncharged caller t sender amount)
    | withdrawal caller t recipient amount => rfl
    | receipt t amount => rfl
  · cases hrun : Call.run site s.booked.world
        (.postOp sender (FeeContract.calculateFee chain s.fees) mode context cost) with
    | error e => exact ⟨e, rfl⟩
    | ok w =>
      obtain ⟨_, -, hmove⟩ := bind_eq_ok.mp hrun
      obtain ⟨tokens, hpost, -⟩ := move_eq_ok hmove
      exact absurd hpost (postOp_testnet hasks chain mode context cost _ tokens)

/-- The deployment for the testnet. -/
def testnetSystem : System where
  booked := ⟨custodyWorld, []⟩
  fees a := if a = 2 then .testnet else .noCode

/-- The owner names the same fee logic again, another contract is deployed, and an operation is to
be settled. -/
def testnetEvents : List (JournalEvent (Action custodySite)) :=
  [.call (.other (.updateFeeLogic 8 2 0) rfl),
    .call (.create 4 (.uniswap (FeeLogicUniswap.evenMarkup 11))), .openFrame,
    .call (.postOp doubleSources 1 .opSucceeded (abiEncode [addressValue 5]) 125), .commit]

theorem uncharged_testnetEvents :
    total (Entry.charged 11) (systemAfter custodySite testnetSystem testnetEvents).booked.books
      = 0 := by
  have hcontract : testnetSystem.fees 2 = .testnet := rfl
  refine (testnet_collects_nothing hcontract rfl rfl ?_).1 11
  intro before next timestamp hasks hinit
  have hmem := List.IsPrefix.subset hinit (List.mem_append_right before List.mem_cons_self)
  simp only [testnetEvents, List.mem_cons, JournalEvent.call.injEq, reduceCtorEq,
    List.not_mem_nil, or_false] at hmem
  exact (Call.updateFeeLogic.inj (Action.other.inj hmem)).2.1

end TokenPaymaster

end Enclave
