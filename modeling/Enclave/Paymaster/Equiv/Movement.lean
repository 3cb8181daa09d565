import Enclave.Evm.Mapping
import Enclave.Paymaster.Equiv.ERC20

/-!
# What the functions of a token move

Exact effects of the functions of an OpenZeppelin `ERC20` on balances, allowances and their sum.  A
credit does not overflow because the sum of all balances, which the contract keeps as
`_totalSupply`, fits into a word.
-/

namespace Enclave.ERC20

variable {t t' : ERC20} {owner spender sender recipient caller a b : Address} {amount : Word}

/-! ### Balances -/

/-- The sum of all balances. -/
noncomputable def supply (t : ERC20) : ℕ := ∑ᶠ a, (t.balances a).toNat

/-- `amount` goes from `payer` to `payee`, and no other balance changes. -/
def Moved (payer payee : Address) (amount : Word) (t t' : ERC20) : Prop :=
  ∀ a, (t'.balances a).toNat + (if a = payer then amount.toNat else 0)
    = (t.balances a).toNat + (if a = payee then amount.toNat else 0)

theorem add_le_supply (t : ERC20) (hne : a ≠ b) :
    (t.balances a).toNat + (t.balances b).toNat ≤ t.supply := by
  have ha := finsum_update BitVec.toNat t.balances a 0
  have hb := finsum_update BitVec.toNat (Function.update t.balances a 0) b 0
  rw [Function.update_of_ne hne.symm] at hb
  have hzero : (0 : Word).toNat = 0 := rfl
  unfold supply
  omega

/-- The balances after a debit and a credit. -/
def rebalance (balances : Address → Word) (sender recipient : Address) (amount : Word) :
    Address → Word :=
  let debited := Function.update balances sender (balances sender - amount)
  Function.update debited recipient (debited recipient + amount)

/-- What `_transfer` needs and does. -/
theorem transferBalance_eq_ok :
    t.transferBalance sender recipient amount = .ok t' ↔
      sender ≠ 0 ∧ recipient ≠ 0 ∧ amount.toNat ≤ (t.balances sender).toNat ∧
        { t with balances := rebalance t.balances sender recipient amount } = t' := by
  unfold transferBalance
  simp only [bind_eq_ok, require_eq_ok, Except.ok.injEq]
  constructor
  · rintro ⟨_, hsender, _, hrecipient, _, hfunds, hset⟩
    exact ⟨hsender, hrecipient, hfunds, hset⟩
  · rintro ⟨hsender, hrecipient, hfunds, hset⟩
    exact ⟨(), hsender, (), hrecipient, (), hfunds, hset⟩

theorem moved_of_transferBalance (hsupply : t.supply < 2 ^ 256)
    (h : t.transferBalance sender recipient amount = .ok t') :
    Moved sender recipient amount t t' ∧ t'.supply = t.supply := by
  obtain ⟨-, -, hfunds, rfl⟩ := transferBalance_eq_ok.mp h
  have hdebit : (t.balances sender - amount).toNat = (t.balances sender).toNat - amount.toNat :=
    BitVec.toNat_sub_of_le hfunds
  by_cases hself : recipient = sender
  · -- a transfer to oneself writes the old balance back
    subst hself
    have hsame : rebalance t.balances recipient recipient amount = t.balances := by
      simp only [rebalance, Function.update_idem, Function.update_self, BitVec.sub_add_cancel,
        Function.update_eq_self]
    rw [hsame]
    exact ⟨fun a => rfl, rfl⟩
  · have hpair := add_le_supply t (Ne.symm hself)
    have hcredit : (t.balances recipient + amount).toNat
        = (t.balances recipient).toNat + amount.toNat := by
      rw [BitVec.toNat_add, Nat.mod_eq_of_lt (by omega)]
    have hset : rebalance t.balances sender recipient amount
        = Function.update (Function.update t.balances sender (t.balances sender - amount))
          recipient (t.balances recipient + amount) := by
      simp only [rebalance, Function.update_of_ne hself]
    rw [hset]
    constructor
    · intro a
      by_cases hr : a = recipient
      · subst hr
        rw [if_neg hself, if_pos rfl]
        simp only [Function.update_self, hcredit, add_zero]
      · rw [if_neg hr]
        simp only [Function.update_of_ne hr]
        by_cases hs : a = sender
        · subst hs
          rw [if_pos rfl, Function.update_self, hdebit]
          omega
        · rw [if_neg hs, Function.update_of_ne hs]
    · have hfirst := finsum_update BitVec.toNat t.balances sender (t.balances sender - amount)
      have hsecond := finsum_update BitVec.toNat (Function.update t.balances sender
        (t.balances sender - amount)) recipient (t.balances recipient + amount)
      rw [Function.update_of_ne hself, hcredit] at hsecond
      rw [hdebit] at hfirst
      unfold supply
      simp only
      omega

/-! ### Allowances -/

/-- The allowances after `spender` has used `amount` of what `owner` allows. -/
def spend (allowances : Address → Address → Word) (owner spender : Address) (amount : Word) :
    Address → Address → Word :=
  Function.update allowances owner
    (Function.update (allowances owner) spender (allowances owner spender - amount))

/-- What `_spendAllowance` needs and does: the largest allowance stays, any other is used up. -/
theorem spendAllowance_eq_ok :
    t.spendAllowance owner spender amount = .ok t' ↔
      ((t.allowances owner spender).toNat = 2 ^ 256 - 1 ∧ t = t') ∨
      ((t.allowances owner spender).toNat ≠ 2 ^ 256 - 1 ∧
        amount.toNat ≤ (t.allowances owner spender).toNat ∧ owner ≠ 0 ∧ spender ≠ 0 ∧
        { t with allowances := spend t.allowances owner spender amount } = t') := by
  unfold spendAllowance approve
  simp only
  split_ifs with hmax
  · simp only [Except.ok.injEq, hmax, true_and, ne_eq, not_true_eq_false, false_and, or_false]
  · simp only [hmax, false_and, false_or, ne_eq, not_false_eq_true, true_and, bind_eq_ok,
      require_eq_ok, Except.ok.injEq]
    constructor
    · rintro ⟨_, hle, _, howner, _, hspender, hset⟩
      exact ⟨hle, howner, hspender, hset⟩
    · rintro ⟨hle, howner, hspender, hset⟩
      exact ⟨(), hle, (), howner, (), hspender, hset⟩

/-- An address that has allowed nothing has nothing taken from it. -/
theorem allowance_zero_of_spendAllowance (hzero : ∀ b, t.allowances a b = 0)
    (h : t.spendAllowance owner spender amount = .ok t') (b : Address) :
    t'.allowances a b = 0 := by
  rcases spendAllowance_eq_ok.mp h with ⟨-, rfl⟩ | ⟨-, hle, -, -, rfl⟩
  · exact hzero b
  · by_cases ha : a = owner
    · subst ha
      rw [hzero] at hle
      obtain rfl : amount = 0 := BitVec.eq_of_toNat_eq (Nat.le_zero.mp hle)
      simp only [spend, Function.update_self]
      by_cases hb : b = spender
      · rw [hb, Function.update_self, hzero]
        rfl
      · rw [Function.update_of_ne hb, hzero]
    · simp only [spend, Function.update_of_ne ha, hzero]

/-- A finite allowance goes down by what is spent. -/
theorem allowance_add_of_spendAllowance
    (hfinite : (t.allowances owner spender).toNat ≠ 2 ^ 256 - 1)
    (h : t.spendAllowance owner spender amount = .ok t') :
    (t'.allowances owner spender).toNat + amount.toNat = (t.allowances owner spender).toNat := by
  rcases spendAllowance_eq_ok.mp h with ⟨hmax, -⟩ | ⟨-, hle, -, -, rfl⟩
  · exact absurd hmax hfinite
  · simp only [spend, Function.update_self]
    rw [BitVec.toNat_sub_of_le hle]
    omega

/-- `transferFrom` is the two steps. -/
theorem transferFrom_eq_ok {done : Bool} :
    t.transferFrom caller sender recipient amount = .ok (done, t') ↔
      done = true ∧ ∃ spent, t.spendAllowance sender caller amount = .ok spent ∧
        spent.transferBalance sender recipient amount = .ok t' := by
  unfold transferFrom
  simp only [bind_eq_ok, Except.ok.injEq, Prod.mk.injEq]
  constructor
  · rintro ⟨spent, hspend, moved, hmove, rfl, rfl⟩
    exact ⟨rfl, spent, hspend, hmove⟩
  · rintro ⟨rfl, spent, hspend, hmove⟩
    exact ⟨spent, hspend, t', hmove, rfl, rfl⟩

theorem transfer_eq_ok {done : Bool} :
    t.transfer caller recipient amount = .ok (done, t') ↔
      done = true ∧ t.transferBalance caller recipient amount = .ok t' := by
  unfold transfer
  simp only [bind_eq_ok, Except.ok.injEq, Prod.mk.injEq]
  constructor
  · rintro ⟨moved, hmove, rfl, rfl⟩
    exact ⟨rfl, hmove⟩
  · rintro ⟨rfl, hmove⟩
    exact ⟨t', hmove, rfl, rfl⟩

theorem supply_of_spendAllowance (h : t.spendAllowance owner spender amount = .ok t') :
    t'.supply = t.supply := by
  rw [supply, supply, balances_of_spendAllowance h]

/-- `transferFrom` moves what it is asked to move. -/
theorem moved_of_transferFrom {done : Bool} (hsupply : t.supply < 2 ^ 256)
    (h : t.transferFrom caller sender recipient amount = .ok (done, t')) :
    Moved sender recipient amount t t' ∧ t'.supply = t.supply := by
  obtain ⟨-, spent, hspend, hmove⟩ := transferFrom_eq_ok.mp h
  have hsame := supply_of_spendAllowance hspend
  obtain ⟨hmoved, hsum⟩ := moved_of_transferBalance (by rw [hsame]; exact hsupply) hmove
  refine ⟨fun a => ?_, hsum.trans hsame⟩
  rw [← balances_of_spendAllowance hspend]
  exact hmoved a

end Enclave.ERC20
