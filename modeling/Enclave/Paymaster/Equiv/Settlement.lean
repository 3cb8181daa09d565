import Enclave.Paymaster.Equiv.Custody

/-!
# Settling a bundle in tokens

The entry point first validates all operations of a bundle, and then executes each of them and calls
`postOp`.  `EnclaveVerifyingTokenPaymaster` does not look at the sender's tokens when it validates,
so that anything can have happened to them when it charges.

`settles_iff_covered`: whatever is done with the tokens between the charges, all of them go through
if every sender has the balance and the allowance for all of their charges together and for what
leaves them in between; where nobody sends the senders tokens or touches their allowances in
between, only then.  What a sender has paid in the end is the sum of the charges.
-/

namespace Enclave

/-! ### A charge in one token -/

namespace ERC20

section Charge

variable {this sender : Address} {amount : Word} {t t' : ERC20}

/-- When a charge goes through. -/
theorem transferFrom_isOk_iff (hthis : this ≠ 0) :
    (∃ t', t.transferFrom this sender this amount = .ok (true, t')) ↔
      sender ≠ 0 ∧ amount.toNat ≤ (t.balances sender).toNat ∧
        ((t.allowances sender this).toNat = 2 ^ 256 - 1 ∨
          amount.toNat ≤ (t.allowances sender this).toNat) := by
  simp only [transferFrom_eq_ok, true_and]
  constructor
  · rintro ⟨t', spent, hspend, hmove⟩
    obtain ⟨hsender, -, hfunds, -⟩ := transferBalance_eq_ok.mp hmove
    rw [balances_of_spendAllowance hspend] at hfunds
    refine ⟨hsender, hfunds, ?_⟩
    rcases spendAllowance_eq_ok.mp hspend with ⟨hmax, -⟩ | ⟨-, hle, -⟩
    · exact Or.inl hmax
    · exact Or.inr hle
  · rintro ⟨hsender, hfunds, hallowed⟩
    obtain ⟨spent, hspend⟩ : ∃ spent, t.spendAllowance sender this amount = .ok spent := by
      by_cases hmax : (t.allowances sender this).toNat = 2 ^ 256 - 1
      · exact ⟨t, spendAllowance_eq_ok.mpr (Or.inl ⟨hmax, rfl⟩)⟩
      · exact ⟨_, spendAllowance_eq_ok.mpr
          (Or.inr ⟨hmax, hallowed.resolve_left hmax, hsender, hthis, rfl⟩)⟩
    refine ⟨_, spent, hspend, transferBalance_eq_ok.mpr ⟨hsender, hthis, ?_, rfl⟩⟩
    rw [balances_of_spendAllowance hspend]
    exact hfunds

/-- What a charge leaves of an allowance. -/
theorem allowance_of_charge {done : Bool}
    (h : t.transferFrom this sender this amount = .ok (done, t')) (user : Address) :
    if (t.allowances user this).toNat = 2 ^ 256 - 1
    then t'.allowances user this = t.allowances user this
    else (t'.allowances user this).toNat + (if sender = user then amount.toNat else 0)
      = (t.allowances user this).toNat := by
  obtain ⟨-, spent, hspend, hmove⟩ := transferFrom_eq_ok.mp h
  rw [allowances_of_transferBalance hmove]
  by_cases huser : sender = user
  · subst huser
    rw [if_pos rfl]
    split_ifs with hmax
    · rcases spendAllowance_eq_ok.mp hspend with ⟨-, rfl⟩ | ⟨hfinite, -⟩
      · rfl
      · exact absurd hmax hfinite
    · exact allowance_add_of_spendAllowance hmax hspend
  · rw [if_neg huser, allowance_of_spendAllowance hspend (Or.inl (Ne.symm huser)), add_zero]
    split_ifs <;> rfl

/-- What a charge leaves of the balances. -/
theorem balance_of_charge {done : Bool} (hsupply : t.supply < 2 ^ 256)
    (h : t.transferFrom this sender this amount = .ok (done, t')) (user : Address) :
    (t'.balances user).toNat + (if sender = user then amount.toNat else 0)
      = (t.balances user).toNat + (if user = this then amount.toNat else 0) := by
  have hmoved := (moved_of_transferFrom hsupply h).1 user
  by_cases huser : sender = user
  · rw [if_pos huser.symm] at hmoved
    rwa [if_pos huser]
  · rw [if_neg (Ne.symm huser)] at hmoved
    rwa [if_neg huser]

end Charge

end ERC20

/-! ### The second phase of a bundle -/

namespace TokenPaymaster

open Paymaster ERC20
open MultiTokenPaymaster (PostOpMode)

/-- The answers of the fee logics at all addresses. -/
abbrev Fees := Address → Address → Word → Result Word

/-- An operation with what the entry point computes for it. -/
structure BundleOp where
  userOp : UserOperation
  mode : PostOpMode
  actualGasCost : Word

/-- The operation has been validated, with whatever nonces there were, and this is its context. -/
def Validated (site : Site) (op : BundleOp) (context : Bytes) : Prop :=
  ∃ senderNonce validationData senderNonce',
    validateToken site op.userOp senderNonce = .ok ((context, validationData), senderNonce')

/-- A step of the second phase: the settlement of an operation, with the answers that the fee logic
gives at that moment, or a call by anyone in the execution of an operation.  The calls of an
execution that is rolled back are left out. -/
inductive Step (site : Site)
  | postOp (op : BundleOp) (context : Bytes) (fees : Fees)
  | other (c : Call site)

section Phase

variable {site : Site}

/-- The entry point's call for an operation. -/
def settlement (site : Site) (op : BundleOp) (context : Bytes) (fees : Fees) : Call site :=
  .postOp site.entryPoint fees op.mode context op.actualGasCost

def Step.call : Step site → Call site
  | .postOp op context fees => settlement site op context fees
  | .other c => c

/-- A call that reverts changes nothing. -/
def World.after (w : World) (c : Call site) : World :=
  match c.run site w with
  | .ok w' => w'
  | .error _ => w

def worldAfter (w : World) (steps : List (Step site)) : World :=
  steps.foldl (fun w step => w.after step.call) w

/-- The settlements, with their contexts. -/
def settlements : List (Step site) → List (BundleOp × Bytes)
  | [] => []
  | .postOp op context _ :: steps => (op, context) :: settlements steps
  | .other _ :: steps => settlements steps

/-- No settlement reverts. -/
def Settles : List (Step site) → World → Prop
  | [], _ => True
  | .postOp op context fees :: steps, w =>
    (∃ w', (settlement site op context fees).run site w = .ok w') ∧
      Settles steps (w.after (settlement site op context fees))
  | .other c :: steps, w => Settles steps (w.after c)

/-- The charge for an operation, zero where the fee logic reverts. -/
def feeOf (fees : Fees) (feeLogic token : Address) (op : BundleOp) : Word :=
  match fees feeLogic token op.actualGasCost with
  | .ok fee => fee
  | .error _ => 0

/-- What a user has to pay for. -/
def due (feeLogic token user : Address) : List (Step site) → ℕ
  | [] => 0
  | .postOp op _ fees :: steps =>
    (if op.userOp.sender = user then (feeOf fees feeLogic token op).toNat else 0)
      + due feeLogic token user steps
  | .other _ :: steps => due feeLogic token user steps

/-- The sum of what `f` reads off the other calls, from the world before and the world after. -/
def others (f : World → World → ℕ) : List (Step site) → World → ℕ
  | [], _ => 0
  | .postOp op context fees :: steps, w =>
    others f steps (w.after (settlement site op context fees))
  | .other c :: steps, w => f w (w.after c) + others f steps (w.after c)

/-! ### Balances and allowances in between -/

/-- What a user holds of a token. -/
def World.holds (w : World) (token user : Address) : ℕ := ((w.tokens token).balances user).toNat

/-- What a user allows the paymaster to take. -/
def World.allows (site : Site) (w : World) (token user : Address) : ℕ :=
  ((w.tokens token).allowances user site.this).toNat

/-- What leaves a user between the charges. -/
def spent (token user : Address) : List (Step site) → World → ℕ :=
  others fun w w' => w.holds token user - w'.holds token user

/-- What a user is sent between the charges. -/
def received (token user : Address) : List (Step site) → World → ℕ :=
  others fun w w' => w'.holds token user - w.holds token user

/-- By how much a user takes back what the paymaster is allowed, between the charges. -/
def lowered (token user : Address) : List (Step site) → World → ℕ :=
  others fun w w' => w.allows site token user - w'.allows site token user

/-- By how much it is raised. -/
def raised (token user : Address) : List (Step site) → World → ℕ :=
  others fun w w' => w'.allows site token user - w.allows site token user

/-- The settings of the paymaster, and a supply that fits into a word. -/
structure Configured (feeLogic token : Address) (w : World) : Prop where
  feeLogic : w.state.feeLogic = feeLogic
  paymentToken : w.state.paymentToken = token
  supply : (w.tokens token).supply < 2 ^ 256

/-- The other calls leave it at that. -/
def KeepsConfigured (feeLogic token : Address) : List (Step site) → World → Prop
  | [], _ => True
  | .postOp op context fees :: steps, w =>
    KeepsConfigured feeLogic token steps (w.after (settlement site op context fees))
  | .other c :: steps, w =>
    Configured feeLogic token (w.after c) ∧ KeepsConfigured feeLogic token steps (w.after c)

/-- The fee logic answers for every operation. -/
def Priced (feeLogic token : Address) (steps : List (Step site)) : Prop :=
  ∀ op context fees, .postOp op context fees ∈ steps →
    ∃ fee, fees feeLogic token op.actualGasCost = .ok fee

/-- Every sender can pay for all of their operations, and for what they spend in between. -/
structure Covered (feeLogic token : Address) (steps : List (Step site)) (w : World) : Prop where
  sender : ∀ x ∈ settlements steps, x.1.userOp.sender ≠ 0
  balance : ∀ x ∈ settlements steps, due feeLogic token x.1.userOp.sender steps
    + spent token x.1.userOp.sender steps w ≤ w.holds token x.1.userOp.sender
  allowance : ∀ x ∈ settlements steps, due feeLogic token x.1.userOp.sender steps
    + lowered token x.1.userOp.sender steps w ≤ w.allows site token x.1.userOp.sender

/-- Between the charges nobody sends a user tokens, and the allowance is left as it is. -/
structure Undisturbed (token user : Address) (steps : List (Step site)) (w : World) : Prop where
  received : received token user steps w = 0
  lowered : lowered token user steps w = 0
  raised : raised token user steps w = 0

/-! ### One settlement -/

variable {feeLogic token user : Address} {w w' : World} {op : BundleOp} {fees : Fees}
  {context : Bytes} {steps : List (Step site)}

/-- The context of a validation is the sender. -/
theorem context_of_validated (h : Validated site op context) :
    context = abiEncode [addressValue op.userOp.sender] := by
  obtain ⟨senderNonce, validationData, senderNonce', hvalidate⟩ := h
  obtain ⟨_, -, hcheck⟩ := bind_eq_ok.mp hvalidate
  obtain ⟨-, rfl, -⟩ := checkApproval_eq_ok hcheck
  rfl

/-- What a settlement does. -/
structure Charges (site : Site) (token : Address) (op : BundleOp) (fee : Word) (t : ERC20)
    (w w' : World) : Prop where
  transfer : (w.tokens token).transferFrom site.this op.userOp.sender site.this fee = .ok (true, t)
  world : w' = { w with tokens := Function.update w.tokens token t }

/-- A settlement goes through if the fee logic answers and the charge does. -/
theorem run_postOp_iff (hvalidated : Validated site op context)
    (hconf : Configured feeLogic token w) :
    (settlement site op context fees).run site w = .ok w' ↔
      (∃ fee, fees feeLogic token op.actualGasCost = .ok fee) ∧
        ∃ t, Charges site token op (feeOf fees feeLogic token op) t w w' := by
  have hdecode : abiDecodeAddress context 0 = .ok op.userOp.sender := by
    rw [context_of_validated hvalidated]
    exact abiDecodeAddress_encode _
  obtain ⟨rfl, rfl, -⟩ := hconf
  constructor
  · intro h
    obtain ⟨_, -, hmove⟩ := bind_eq_ok.mp h
    obtain ⟨tokens, hpost, rfl⟩ := move_eq_ok hmove
    obtain ⟨sender, fee, t, hsender, hfee, htransfer, rfl⟩ := postOp_eq_ok hpost
    obtain rfl : op.userOp.sender = sender := Except.ok.inj (hdecode.symm.trans hsender)
    refine ⟨⟨fee, hfee⟩, t, ?_, rfl⟩
    simp only [feeOf, hfee]
    exact htransfer
  · rintro ⟨⟨fee, hfee⟩, t, htransfer, rfl⟩
    simp only [feeOf, hfee] at htransfer
    exact run_postOp hdecode hfee htransfer

theorem after_of_run {c : Call site} (h : c.run site w = .ok w') : w.after c = w' := by
  rw [World.after, h]

section Charged

variable {fee : Word} {t : ERC20} (hcharges : Charges site token op fee t w w')

include hcharges

theorem Charges.configured (hconf : Configured feeLogic token w) :
    Configured feeLogic token w' := by
  obtain ⟨htransfer, rfl⟩ := hcharges
  refine ⟨hconf.feeLogic, hconf.paymentToken, ?_⟩
  simp only [Function.update_self]
  rw [(moved_of_transferFrom hconf.supply htransfer).2]
  exact hconf.supply

/-- The sender has paid. -/
theorem Charges.holds (hsupply : (w.tokens token).supply < 2 ^ 256) (hne : user ≠ site.this) :
    w'.holds token user + (if op.userOp.sender = user then fee.toNat else 0)
      = w.holds token user := by
  obtain ⟨htransfer, rfl⟩ := hcharges
  have hbalance := balance_of_charge hsupply htransfer user
  rw [if_neg hne, add_zero] at hbalance
  simp only [World.holds, Function.update_self]
  exact hbalance

/-- The other tokens are where they were. -/
theorem Charges.holds_other {other : Address} (hne : other ≠ token) :
    w'.holds other user = w.holds other user := by
  obtain ⟨-, rfl⟩ := hcharges
  simp only [World.holds, Function.update_of_ne hne]

/-- A charge comes out of the allowance, if that is not infinite. -/
theorem Charges.allows (user : Address) :
    if w.allows site token user = 2 ^ 256 - 1 then w'.allows site token user = 2 ^ 256 - 1
    else w'.allows site token user + (if op.userOp.sender = user then fee.toNat else 0)
      = w.allows site token user := by
  obtain ⟨htransfer, rfl⟩ := hcharges
  have hallowance := allowance_of_charge htransfer user
  simp only [World.allows, Function.update_self]
  split_ifs at hallowance ⊢ with hmax
  · rw [hallowance]
    exact hmax
  · exact hallowance
  · exact hallowance

end Charged

/-! ### The whole phase -/

theorem others_postOp {f : World → World → ℕ}
    (h : (settlement site op context fees).run site w = .ok w') :
    others f (.postOp op context fees :: steps) w = others f steps w' := by
  rw [others, after_of_run h]

theorem due_postOp : due feeLogic token user (.postOp op context fees :: steps : List (Step site))
    = (if op.userOp.sender = user then (feeOf fees feeLogic token op).toNat else 0)
      + due feeLogic token user steps := rfl

/-- The first of the settlements, if all of them go through. -/
theorem charges_of_settles (hvalid : Validated site op context)
    (hconf : Configured feeLogic token w)
    (hkeeps : KeepsConfigured feeLogic token (.postOp op context fees :: steps) w)
    (h : Settles (.postOp op context fees :: steps) w) :
    (∃ fee, fees feeLogic token op.actualGasCost = .ok fee) ∧
    ∃ t w', (settlement site op context fees).run site w = .ok w' ∧
      Charges site token op (feeOf fees feeLogic token op) t w w' ∧ Configured feeLogic token w' ∧
      KeepsConfigured feeLogic token steps w' ∧ Settles steps w' := by
  obtain ⟨⟨w', hrun⟩, hrest⟩ := h
  obtain ⟨hfee, t, hcharges⟩ := (run_postOp_iff hvalid hconf).mp hrun
  rw [KeepsConfigured, after_of_run hrun] at hkeeps
  rw [after_of_run hrun] at hrest
  exact ⟨hfee, t, w', hrun, hcharges, hcharges.configured hconf, hkeeps, hrest⟩

theorem worldAfter_postOp (h : (settlement site op context fees).run site w = .ok w') :
    worldAfter w (.postOp op context fees :: steps) = worldAfter w' steps :=
  congrArg (fun w => worldAfter w steps) (after_of_run h)

/-- The sender has enough for all charges, and so for the first. -/
theorem Covered.charges (hthis : site.this ≠ 0) (hvalid : Validated site op context)
    (hconf : Configured feeLogic token w)
    (hfee : ∃ fee, fees feeLogic token op.actualGasCost = .ok fee)
    (h : Covered feeLogic token (.postOp op context fees :: steps) w) :
    ∃ t w', (settlement site op context fees).run site w = .ok w' ∧
      Charges site token op (feeOf fees feeLogic token op) t w w' := by
  have hhead : (op, context)
      ∈ settlements (.postOp op context fees :: steps : List (Step site)) := List.mem_cons_self
  have hfirst : (feeOf fees feeLogic token op).toNat ≤ due feeLogic token op.userOp.sender
      (.postOp op context fees :: steps : List (Step site)) := by
    rw [due_postOp, if_pos rfl]
    exact Nat.le_add_right _ _
  have hfunds : (feeOf fees feeLogic token op).toNat
      ≤ ((w.tokens token).balances op.userOp.sender).toNat :=
    hfirst.trans ((Nat.le_add_right _ _).trans (h.balance _ hhead))
  have hallowed : (feeOf fees feeLogic token op).toNat
      ≤ ((w.tokens token).allowances op.userOp.sender site.this).toNat :=
    hfirst.trans ((Nat.le_add_right _ _).trans (h.allowance _ hhead))
  obtain ⟨t, htransfer⟩ := (transferFrom_isOk_iff hthis).mpr
    ⟨h.sender _ hhead, hfunds, Or.inr hallowed⟩
  have hcharges : Charges site token op (feeOf fees feeLogic token op) t w
      { w with tokens := Function.update w.tokens token t } := ⟨htransfer, rfl⟩
  exact ⟨t, _, (run_postOp_iff hvalid hconf).mpr ⟨hfee, t, hcharges⟩, hcharges⟩

/-- What is left after a charge is enough for the charges that are left. -/
theorem Covered.after_postOp {t : ERC20} (hsupply : (w.tokens token).supply < 2 ^ 256)
    (hself : ∀ x ∈ settlements steps, x.1.userOp.sender ≠ site.this)
    (hrun : (settlement site op context fees).run site w = .ok w')
    (hcharges : Charges site token op (feeOf fees feeLogic token op) t w w')
    (h : Covered feeLogic token (.postOp op context fees :: steps) w) :
    Covered feeLogic token steps w' := by
  refine ⟨fun x hx => h.sender x (List.mem_cons_of_mem _ hx), fun x hx => ?_, fun x hx => ?_⟩
  · have hpaid := hcharges.holds hsupply (hself x hx)
    have hrest := h.balance x (List.mem_cons_of_mem _ hx)
    rw [due_postOp, spent, others_postOp hrun] at hrest
    unfold spent
    omega
  · have hpaid := hcharges.allows x.1.userOp.sender
    have hrest := h.allowance x (List.mem_cons_of_mem _ hx)
    rw [due_postOp, lowered, others_postOp hrun] at hrest
    unfold lowered
    -- an infinite allowance is not used up
    by_cases hmax : w.allows site token x.1.userOp.sender = 2 ^ 256 - 1
    · rw [if_pos hmax] at hpaid
      omega
    · rw [if_neg hmax] at hpaid
      omega

theorem Covered.after_other {c : Call site}
    (h : Covered feeLogic token (.other c :: steps) w) :
    Covered feeLogic token steps (w.after c) := by
  refine ⟨h.sender, fun x hx => ?_, fun x hx => ?_⟩
  · have hrest := h.balance x hx
    rw [due, spent, others] at hrest
    unfold spent
    omega
  · have hrest := h.allowance x hx
    rw [due, lowered, others] at hrest
    unfold lowered
    omega

section Validated

variable (hvalidated : ∀ x ∈ settlements steps, Validated site x.1 x.2)
  (hconf : Configured feeLogic token w) (hkeeps : KeepsConfigured feeLogic token steps w)

include hvalidated hconf hkeeps

/-- Enough for the charges and for what happens in between is enough. -/
theorem settles_of_covered (hthis : site.this ≠ 0)
    (hself : ∀ x ∈ settlements steps, x.1.userOp.sender ≠ site.this)
    (hpriced : Priced feeLogic token steps) (hcovered : Covered feeLogic token steps w) :
    Settles steps w := by
  induction steps generalizing w with
  | nil => exact trivial
  | cons step steps ih =>
    have hpriced' : Priced feeLogic token steps := fun op context fees hmem =>
      hpriced op context fees (List.mem_cons_of_mem _ hmem)
    cases step with
    | postOp op context fees =>
      have hself' : ∀ x ∈ settlements steps, x.1.userOp.sender ≠ site.this := fun x hx =>
        hself x (List.mem_cons_of_mem _ hx)
      obtain ⟨t, w', hrun, hcharges⟩ := hcovered.charges hthis
        (hvalidated (op, context) List.mem_cons_self) hconf
        (hpriced op context fees List.mem_cons_self)
      rw [KeepsConfigured, after_of_run hrun] at hkeeps
      refine ⟨⟨w', hrun⟩, ?_⟩
      rw [after_of_run hrun]
      exact ih (fun x hx => hvalidated x (List.mem_cons_of_mem _ hx)) (hcharges.configured hconf)
        hkeeps hself' hpriced' (hcovered.after_postOp hconf.supply hself' hrun hcharges)
    | other c => exact ih hvalidated hkeeps.1 hkeeps.2 hself hpriced' hcovered.after_other

/-- What the settlements that go through tell of the fee logic and of the senders. -/
theorem priced_of_settles (hthis : site.this ≠ 0) (h : Settles steps w) :
    Priced feeLogic token steps ∧ ∀ x ∈ settlements steps, x.1.userOp.sender ≠ 0 := by
  induction steps generalizing w with
  | nil => exact ⟨nofun, nofun⟩
  | cons step steps ih =>
    cases step with
    | postOp op context fees =>
      have hvalid : Validated site op context := hvalidated (op, context) List.mem_cons_self
      obtain ⟨hfee, t, w', -, hcharges, hconf', hkeeps', hrest⟩ :=
        charges_of_settles hvalid hconf hkeeps h
      obtain ⟨hpriced, hsender⟩ := ih (fun x hx => hvalidated x (List.mem_cons_of_mem _ hx)) hconf'
        hkeeps' hrest
      constructor
      · intro op' context' fees' hmem
        rcases List.mem_cons.mp hmem with heq | hmem
        · obtain ⟨rfl, rfl, rfl⟩ := Step.postOp.inj heq
          exact hfee
        · exact hpriced op' context' fees' hmem
      · intro x hx
        rcases List.mem_cons.mp hx with rfl | hx
        · exact ((transferFrom_isOk_iff hthis).mp ⟨t, hcharges.transfer⟩).1
        · exact hsender x hx
    | other c =>
      obtain ⟨hpriced, hsender⟩ := ih hvalidated hkeeps.1 hkeeps.2 h
      refine ⟨fun op context fees hmem => ?_, hsender⟩
      rcases List.mem_cons.mp hmem with heq | hmem
      · cases heq
      · exact hpriced op context fees hmem

/-- **What has been paid**: the payment token leaves a user by the charges and by what the user
spends, and the other tokens by that alone. -/
theorem holds_of_settles (h : Settles steps w) (hne : user ≠ site.this) (other : Address) :
    (worldAfter w steps).holds other user
        + (if other = token then due feeLogic token user steps else 0) + spent other user steps w
      = w.holds other user + received other user steps w := by
  induction steps generalizing w with
  | nil =>
    show w.holds other user + (if other = token then 0 else 0) + 0 = w.holds other user + 0
    rw [ite_self]
  | cons step steps ih =>
    cases step with
    | postOp op context fees =>
      have hvalid : Validated site op context := hvalidated (op, context) List.mem_cons_self
      obtain ⟨-, t, w', hrun, hcharges, hconf', hkeeps', hrest⟩ :=
        charges_of_settles hvalid hconf hkeeps h
      have hlast := ih (fun x hx => hvalidated x (List.mem_cons_of_mem _ hx)) hconf' hkeeps' hrest
      rw [worldAfter_postOp hrun, due_postOp, spent, received, others_postOp hrun,
        others_postOp hrun]
      unfold spent received at hlast
      by_cases hother : other = token
      · subst hother
        have hpaid := hcharges.holds hconf.supply hne
        rw [if_pos rfl] at hlast ⊢
        omega
      · rw [if_neg hother] at hlast ⊢
        rw [hcharges.holds_other hother] at hlast
        exact hlast
    | other c =>
      have hlast := ih hvalidated hkeeps.1 hkeeps.2 h
      have hworld : worldAfter w (.other c :: steps) = worldAfter (w.after c) steps := rfl
      rw [hworld, due, spent, received, others, others]
      unfold spent received at hlast
      omega

/-- What is left of an allowance that nobody touches. -/
theorem allows_of_settles (h : Settles steps w) (hlowered : lowered token user steps w = 0)
    (hraised : raised token user steps w = 0) :
    if w.allows site token user = 2 ^ 256 - 1
    then (worldAfter w steps).allows site token user = 2 ^ 256 - 1
    else (worldAfter w steps).allows site token user + due feeLogic token user steps
      = w.allows site token user := by
  induction steps generalizing w with
  | nil =>
    split_ifs with hmax
    · exact hmax
    · rfl
  | cons step steps ih =>
    cases step with
    | postOp op context fees =>
      have hvalid : Validated site op context := hvalidated (op, context) List.mem_cons_self
      obtain ⟨-, t, w', hrun, hcharges, hconf', hkeeps', hrest⟩ :=
        charges_of_settles hvalid hconf hkeeps h
      rw [lowered, others_postOp hrun] at hlowered
      rw [raised, others_postOp hrun] at hraised
      have hlast := ih (fun x hx => hvalidated x (List.mem_cons_of_mem _ hx)) hconf' hkeeps' hrest
        hlowered hraised
      have hpaid := hcharges.allows user
      rw [worldAfter_postOp hrun, due_postOp]
      by_cases hmax : w.allows site token user = 2 ^ 256 - 1
      · rw [if_pos hmax] at hpaid ⊢
        rwa [if_pos hpaid] at hlast
      · -- a finite allowance does not become infinite by a charge
        have hlt : w.allows site token user < 2 ^ 256 :=
          ((w.tokens token).allowances user site.this).isLt
        rw [if_neg hmax] at hpaid ⊢
        rw [if_neg (by omega)] at hlast
        omega
    | other c =>
      rw [lowered, others] at hlowered
      rw [raised, others] at hraised
      have hlast := ih hvalidated hkeeps.1 hkeeps.2 h (by unfold lowered; omega)
        (by unfold raised; omega)
      have hsame : (w.after c).allows site token user = w.allows site token user := by omega
      rw [hsame] at hlast
      exact hlast

/-- Without help in between, the senders have had enough. -/
theorem covered_of_settles (hthis : site.this ≠ 0)
    (hself : ∀ x ∈ settlements steps, x.1.userOp.sender ≠ site.this)
    (hundisturbed : ∀ x ∈ settlements steps, Undisturbed token x.1.userOp.sender steps w)
    (h : Settles steps w) : Covered feeLogic token steps w := by
  have hpaid : ∀ x ∈ settlements steps, due feeLogic token x.1.userOp.sender steps
      + spent token x.1.userOp.sender steps w ≤ w.holds token x.1.userOp.sender := by
    intro x hx
    have hholds := holds_of_settles hvalidated hconf hkeeps h (hself x hx) token
    rw [if_pos rfl, (hundisturbed x hx).received] at hholds
    omega
  refine ⟨(priced_of_settles hvalidated hconf hkeeps hthis h).2, hpaid, fun x hx => ?_⟩
  obtain ⟨-, hlowered, hraised⟩ := hundisturbed x hx
  have hallows := allows_of_settles hvalidated hconf hkeeps h hlowered hraised
  rw [hlowered, add_zero]
  split_ifs at hallows with hmax
  · -- what is due fits into a word, as it has been in the balance
    have hlt : w.holds token x.1.userOp.sender < 2 ^ 256 :=
      ((w.tokens token).balances x.1.userOp.sender).isLt
    have hdue := hpaid x hx
    omega
  · omega

/-- **Settlement**: after the validations of a bundle, in whatever order its operations are charged
and whatever anyone does with the tokens in between, all charges go through if the fee logic answers
and every sender covers all of their charges together and what they spend in between; if nobody
sends the senders tokens or touches their allowances in between, only then.  In the end everyone has
paid exactly their charges, and no other token has been moved by them. -/
theorem settles_iff_covered (hthis : site.this ≠ 0)
    (hself : ∀ x ∈ settlements steps, x.1.userOp.sender ≠ site.this) :
    (Priced feeLogic token steps ∧ Covered feeLogic token steps w → Settles steps w) ∧
    (Settles steps w → Priced feeLogic token steps ∧
      ((∀ x ∈ settlements steps, Undisturbed token x.1.userOp.sender steps w) →
        Covered feeLogic token steps w) ∧
      ∀ user, user ≠ site.this → ∀ other, (worldAfter w steps).holds other user
          + (if other = token then due feeLogic token user steps else 0) + spent other user steps w
        = w.holds other user + received other user steps w) := by
  constructor
  · rintro ⟨hpriced, hcovered⟩
    exact settles_of_covered hvalidated hconf hkeeps hthis hself hpriced hcovered
  · intro h
    refine ⟨(priced_of_settles hvalidated hconf hkeeps hthis h).1, fun hundisturbed => ?_, ?_⟩
    · exact covered_of_settles hvalidated hconf hkeeps hthis hself hundisturbed h
    · exact fun user hne other => holds_of_settles hvalidated hconf hkeeps h hne other

end Validated

end Phase

/-! ### Two operations -/

/-- A sound world stays sound. -/
theorem Sound.after {site : Site} {w : World} {c : Call site} (h : Sound site w)
    (hkeeps : Keeps site w c) : Sound site (w.after c) := by
  unfold World.after
  cases hrun : c.run site w with
  | error e => exact h
  | ok w' => exact h.step hkeeps (effect_of_run hrun)

/-- An operation of the sender 5 with the next nonce. -/
def nextOp : UserOperation := { sampleOp with nonce := 1 }

/-- The sender 5 spends 100 and 50 of the token in two operations, and is charged 250 and 300 for
them. -/
def settledSteps : List (Step custodySite) :=
  [.other (.token ⟨5, by decide⟩ 11 (.transfer 6 100)),
    .postOp ⟨sampleOp, .opSucceeded, 250⟩ (abiEncode [addressValue 5]) atCost,
    .other (.token ⟨5, by decide⟩ 11 (.transfer 7 50)),
    .postOp ⟨nextOp, .opReverted, 300⟩ (abiEncode [addressValue 5]) atCost]

theorem validated_settledSteps :
    ∀ x ∈ settlements settledSteps, Validated custodySite x.1 x.2 := by
  have hrecover : ∀ hash, ECDSA.recover custodySite.ecrecover hash
      (sampleR.toBytes ++ sampleS.toBytes ++ [27]) = .ok 3 := fun hash => by
    have hlow : ¬(Word.ofBytes
        (((sampleR.toBytes ++ sampleS.toBytes ++ [27]).drop 32).take 32)).toNat > ECDSA.maxS := by
      decide
    rw [ECDSA.recover, if_pos (by simp), ECDSA.recoverVRS, if_neg hlow]
    rfl
  have hvalid : ∀ op : UserOperation, op.sender = 5 →
      op.paymasterAndData = sampleOp.paymasterAndData → ∃ data nonces,
        validateToken custodySite op (fun _ => 0)
          = .ok ((abiEncode [addressValue 5], data), nonces) := by
    intro op hsender hdata
    unfold validateToken validateWith
    rw [hdata, parse_sampleOp, ok_bind, hsender]
    exact ⟨_, _, checkApproval_of_recover _ 100 50 (by simp) bumpNonce_sample (hrecover _)⟩
  intro x hx
  simp only [settledSteps, settlements, List.mem_cons, List.not_mem_nil, or_false] at hx
  rcases hx with rfl | rfl
  · exact ⟨_, hvalid sampleOp rfl rfl⟩
  · exact ⟨_, hvalid nextOp rfl rfl⟩

theorem keepsConfigured_settledSteps : KeepsConfigured 2 11 settledSteps custodyWorld := by
  have htransfer := sound_custodyWorld.after
    (c := .token ⟨5, by decide⟩ 11 (.transfer 6 100)) nofun
  have hcharge := htransfer.after (c := settlement custodySite ⟨sampleOp, .opSucceeded, 250⟩
    (abiEncode [addressValue 5]) atCost) nofun
  have hagain := hcharge.after (c := .token ⟨5, by decide⟩ 11 (.transfer 7 50)) nofun
  exact ⟨⟨by decide +kernel, by decide +kernel, htransfer.supply 11⟩,
    ⟨by decide +kernel, by decide +kernel, hagain.supply 11⟩, trivial⟩

/-- With 1000 of the token and an allowance of 600, both charges go through, and 300 are left. -/
theorem settles_settledSteps : Settles settledSteps custodyWorld ∧
    (worldAfter custodyWorld settledSteps).holds 11 5 = 300 := by
  have hsettles := settles_iff_covered validated_settledSteps
    (⟨rfl, rfl, sound_custodyWorld.supply 11⟩ : Configured 2 11 custodyWorld)
    keepsConfigured_settledSteps (by decide) (by decide +kernel)
  have hpriced : Priced 2 11 settledSteps := by
    intro op context fees hmem
    simp only [settledSteps, List.mem_cons, reduceCtorEq, Step.postOp.injEq, List.not_mem_nil,
      or_false, false_or] at hmem
    rcases hmem with ⟨-, -, rfl⟩ | ⟨-, -, rfl⟩
    · exact ⟨_, rfl⟩
    · exact ⟨_, rfl⟩
  have hcovered : Covered 2 11 settledSteps custodyWorld := by
    refine ⟨by decide +kernel, by decide +kernel, by decide +kernel⟩
  have hall := hsettles.1 ⟨hpriced, hcovered⟩
  have hholds := (hsettles.2 hall).2.2 5 (by decide) 11
  have hspent : spent 11 5 settledSteps custodyWorld = 150 := by decide +kernel
  have hreceived : received 11 5 settledSteps custodyWorld = 0 := by decide +kernel
  have hdue : due 2 11 5 settledSteps = 550 := by decide +kernel
  have hheld : custodyWorld.holds 11 5 = 1000 := by decide
  rw [if_pos rfl, hspent, hreceived, hdue, hheld, add_assoc] at hholds
  exact ⟨hall, Nat.add_right_cancel (show _ + 700 = 300 + 700 from hholds)⟩

end TokenPaymaster

end Enclave
