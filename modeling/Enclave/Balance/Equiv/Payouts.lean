import Enclave.Balance.Equiv.Solvency
import Enclave.Evm.Handler
import Enclave.Paymaster.Equiv.Movement

/-!
# Every deposit can be paid out

`Solvency` shows that the vault holds what it owes.  Over an OpenZeppelin token this is enough for
every payout: from any state that the vault can reach, a list of withdrawals and claims succeeds in
the given order exactly when nobody's deposit is asked for more than it holds (`payAll_iff`).

The invariant is `Covered`: the guard is open, and the balance of the vault covers the deposits.
One payout keeps it (`pay_spec`), so that the next one finds the tokens that it needs.
-/

namespace Enclave.TokenVault

/-! ### The tokens -/

/-- How the OpenZeppelin tokens answer the calls of the vault at `this`. -/
def answer (this : Address) (w : Address → ERC20) (c : Call) :
    Result (Bytes × (Address → ERC20)) :=
  let args := c.data.drop 4
  if c.kind ≠ .call ∨ c.value ≠ 0 then .error .empty
  else if c.data.take 4 = Callee.transfer.selector then do
    requireHead args 64
    let recipient ← abiDecodeAddress args 0
    let amount ← abiDecodeWord args 32
    let (done, w) ← openZeppelin.transfer c.target this recipient amount w
    .ok (abiEncode [.word (if done then 1 else 0)], w)
  else if c.data.take 4 = Callee.transferFrom.selector then do
    requireHead args 96
    let sender ← abiDecodeAddress args 0
    let recipient ← abiDecodeAddress args 32
    let amount ← abiDecodeWord args 64
    let (done, w) ← openZeppelin.transferFrom c.target this sender recipient amount w
    .ok (abiEncode [.word (if done then 1 else 0)], w)
  else .error .empty

/-- A transfer of the vault. -/
theorem answer_transferCall (this token recipient : Address) (amount : Word)
    (w : Address → ERC20) :
    answer this w (transferCall token recipient amount)
      = ((w token).transferBalance this recipient amount).map fun t =>
          (abiEncode [.word 1], Function.update w token t) := by
  obtain ⟨hhead, hrecipient, hamount⟩ := decode_pair recipient amount
  have htake : (transferCall token recipient amount).data.take 4 = Callee.transfer.selector := rfl
  have hdrop : (transferCall token recipient amount).data.drop 4
      = abiEncode [word recipient, .word amount] := rfl
  unfold answer
  simp only [hdrop, htake]
  rw [if_neg (by rintro (h | h) <;> exact h rfl), if_pos trivial, hhead, ok_bind, hrecipient,
    ok_bind, hamount, ok_bind]
  show ((w token).transfer this recipient amount >>= fun r =>
    Except.ok (r.1, Function.update w token r.2)) >>= _ = _
  unfold ERC20.transfer
  cases (w token).transferBalance this recipient amount <;> rfl

/-! ### One payout -/

section Exec

variable {this token owner recipient : Address} {amount : Word} {s : Storage}
  {w : Address → ERC20}

theorem exec_requireTransfer_bind {β : Type} (f : Unit → Prog Storage β) :
    (requireTransfer (transferCall token recipient amount) >>= f).exec (answer this) s w
      = (w token).transferBalance this recipient amount >>= fun t =>
          (f ()).exec (answer this) s (Function.update w token t) := by
  unfold requireTransfer
  simp only [Prog.bind_assoc]
  rw [Prog.exec_callOrRevert_bind, answer_transferCall]
  cases (w token).transferBalance this recipient amount with
  | error e => rfl
  | ok t =>
    rw [Except.map, ok_bind, Prog.exec_lift_bind, decode_true, ok_bind, Prog.exec_lift_bind,
      require_true rfl, ok_bind, ok_bind]

/-- Outside of the guarded functions the guard lets a call pass. -/
theorem exec_nonReentrant (hstatus : s.status = 1) (p : Prog Storage Unit) :
    (nonReentrant p).exec (answer this) s w
      = p.exec (answer this) { s with status := 2 } w >>= fun r =>
          .ok ((), { r.2.1 with status := 1 }, r.2.2) := by
  have hopen : s.status ≠ 2 := by
    rw [hstatus]
    decide
  unfold nonReentrant
  rw [Prog.exec_modify_bind, require_true hopen, ok_bind, ok_bind, Prog.exec_bind]
  rfl

/-- What `withdraw` and `claim` end with. -/
theorem exec_payout (e : Event) :
    (Prog.modify (debit token owner amount) >>= fun _ =>
      requireTransfer (transferCall token recipient amount) >>= fun _ =>
      Prog.modify fun s => .ok (s.emit e)).exec (answer this) s w
      = debit token owner amount s >>= fun s' =>
          (w token).transferBalance this recipient amount >>= fun t =>
          .ok ((), s'.emit e, Function.update w token t) := by
  rw [Prog.exec_modify_bind]
  cases debit token owner amount s with
  | error e => rw [error_bind, error_bind]
  | ok s' =>
    rw [ok_bind, ok_bind, exec_requireTransfer_bind]
    cases (w token).transferBalance this recipient amount with
    | error e => rw [error_bind, error_bind]
    | ok t => rw [ok_bind, ok_bind, Prog.exec_modify, Except.map]

end Exec

/-- A withdrawal by a user, or a claim by a manager against an owner. -/
inductive Payment
  | withdraw (user : Address) (amount : Word)
  | claim (manager owner : Address) (amount : Word)

namespace Payment

/-- Who calls the vault and gets the tokens. -/
def caller : Payment → Address
  | withdraw user _ => user
  | claim manager _ _ => manager

/-- Whose deposit it is taken from. -/
def owner : Payment → Address
  | withdraw user _ => user
  | claim _ owner _ => owner

def amount : Payment → Word
  | withdraw _ amount => amount
  | claim _ _ amount => amount

def event (token : Address) : Payment → Event
  | withdraw user amount => .withdrawn user token amount
  | claim manager owner amount => .claimed manager token amount owner

/-- The call of the vault. -/
def msg (token : Address) : Payment → Msg
  | withdraw user amount => withdrawMsg user token amount
  | claim manager owner amount => claimMsg manager token owner amount

/-- The checks that come before the deposit is looked at. -/
def checks (s : Storage) : Payment → Result Unit
  | withdraw _ amount => requireAmount amount
  | claim manager _ amount => do
    onlyVaultManager manager s
    requireAmount amount

/-- What they ask for. -/
def Proper (s : Storage) : Payment → Prop
  | withdraw _ amount => 0 < amount.toNat
  | claim manager _ amount => s.isVaultManager manager = true ∧ 0 < amount.toNat

theorem checks_eq_ok {s : Storage} {p : Payment} {u : Unit} :
    p.checks s = .ok u ↔ p.Proper s := by
  cases p with
  | withdraw user amount => exact require_eq_ok
  | claim manager owner amount =>
    unfold checks onlyVaultManager requireAmount
    simp only [bind_eq_ok, require_eq_ok, exists_const]
    rfl

end Payment

/-- A call of the vault among the tokens. -/
def pay (this token : Address) (p : Payment) (x : Storage × (Address → ERC20)) :
    Result (Storage × (Address → ERC20)) :=
  ((body this (p.msg token)).exec (answer this) x.1 x.2).map Prod.snd

theorem debit_eq_ok {token user : Address} {amount : Word} {s s' : Storage} :
    debit token user amount s = .ok s' ↔ amount.toNat ≤ (s.deposits token user).toNat ∧
      s.setDeposit token user (s.deposits token user - amount) = s' := by
  unfold debit Word.checkedSub
  by_cases h : amount.toNat ≤ (s.deposits token user).toNat
  · rw [require_true h, ok_bind, if_pos h, ok_bind, Except.ok.injEq]
    simp only [h, true_and]
  · rw [require, if_neg h, error_bind]
    exact ⟨nofun, fun hboth => absurd hboth.1 h⟩

section Pay

variable {this token : Address} {p : Payment} {s : Storage} {w : Address → ERC20}

/-- The guard is open again after a payout. -/
theorem reopened (owner recipient : Address) (amount : Word) (e : Event) :
    (((debit token owner amount { s with status := 2 } >>= fun s' =>
      (w token).transferBalance this recipient amount >>= fun t =>
      Except.ok ((), s'.emit e, Function.update w token t)) >>= fun r =>
      Except.ok ((), { r.2.1 with status := 1 }, r.2.2)).map Prod.snd : Result (Storage × _))
    = debit token owner amount { s with status := 2 } >>= fun s' =>
      (w token).transferBalance this recipient amount >>= fun t =>
      .ok ({ s'.emit e with status := 1 }, Function.update w token t) := by
  cases debit token owner amount { s with status := 2 } with
  | error e => rfl
  | ok s' => cases (w token).transferBalance this recipient amount <;> rfl

/-- The run of a payment. -/
theorem pay_eq (hstatus : s.status = 1) :
    pay this token p (s, w) = p.checks s >>= fun _ =>
      debit token p.owner p.amount { s with status := 2 } >>= fun s' =>
      (w token).transferBalance this p.caller p.amount >>= fun t =>
      .ok ({ s'.emit (p.event token) with status := 1 }, Function.update w token t) := by
  cases p with
  | withdraw user amount =>
    rw [pay, Payment.msg, body_withdraw, Prog.snd_exec_noReturn, withdraw,
      exec_nonReentrant hstatus, Prog.exec_lift_bind, Payment.checks]
    cases requireAmount amount with
    | error e => rfl
    | ok u =>
      rw [ok_bind, ok_bind, exec_payout]
      exact reopened user user amount _
  | claim manager owner amount =>
    have howner : abiDecodeAddress (abiEncode [word owner]) 0 = .ok owner :=
      abiDecodeAddress_encode owner
    -- the guard is not among what the modifier reads
    have hmanager : onlyVaultManager manager { s with status := 2 }
        = onlyVaultManager manager s := rfl
    rw [pay, Payment.msg, body_claim, Prog.snd_exec_noReturn, claim, exec_nonReentrant hstatus,
      Prog.exec_storage_bind, Prog.exec_lift_bind, hmanager, Payment.checks]
    cases onlyVaultManager manager s with
    | error e => rfl
    | ok u =>
      rw [ok_bind, ok_bind, Prog.exec_lift_bind]
      cases requireAmount amount with
      | error e => rfl
      | ok u =>
        rw [ok_bind, ok_bind, Prog.exec_lift_bind, howner, ok_bind, exec_payout]
        exact reopened owner manager amount _

/-- Outside of calls: the guard is open, and the balance of the vault covers the deposits.  The
balances of the token add up to a word, as its total supply. -/
structure Covered (this token : Address) (s : Storage) (w : Address → ERC20) : Prop where
  status : s.status = 1
  solvent : liabilities token s ≤ ((w token).balances this).toNat
  supply : (w token).supply < 2 ^ 256

/-- What a payment has done. -/
structure Paid (this token : Address) (p : Payment) (s s' : Storage) (w w' : Address → ERC20) :
    Prop where
  covered : Covered this token s' w'
  managers : s'.isVaultManager = s.isVaultManager
  deposits : ∀ user, (s'.deposits token user).toNat
    + (if p.owner = user then p.amount.toNat else 0) = (s.deposits token user).toNat
  moved : ERC20.Moved this p.caller p.amount (w token) (w' token)

theorem deposit_le_liabilities (token user : Address) (s : Storage) :
    (s.deposits token user).toNat ≤ liabilities token s := by
  have hsum := liabilities_setDeposit s token token user 0
  rw [if_pos rfl, if_pos rfl] at hsum
  have hzero : (0 : Word).toNat = 0 := rfl
  omega

/-- **One payment**: it succeeds exactly when the deposit holds the amount. -/
theorem pay_spec (hthis : this ≠ 0) (hcaller : p.caller ≠ 0) (hother : p.caller ≠ this)
    (h : Covered this token s w) :
    ((∃ x, pay this token p (s, w) = .ok x) ↔
      p.Proper s ∧ p.amount.toNat ≤ (s.deposits token p.owner).toNat) ∧
    ∀ s' w', pay this token p (s, w) = .ok (s', w') → Paid this token p s s' w w' := by
  rw [pay_eq h.status]
  simp only [bind_eq_ok, Payment.checks_eq_ok, exists_const]
  constructor
  · constructor
    · rintro ⟨x, hproper, s', hdebit, -⟩
      exact ⟨hproper, (debit_eq_ok.mp hdebit).1⟩
    · rintro ⟨hproper, hle⟩
      -- the deposit is part of what the balance covers
      have hfunds : p.amount.toNat ≤ ((w token).balances this).toNat :=
        hle.trans ((deposit_le_liabilities token p.owner s).trans h.solvent)
      exact ⟨_, hproper, _, debit_eq_ok.mpr ⟨hle, rfl⟩, _,
        ERC20.transferBalance_eq_ok.mpr ⟨hthis, hcaller, hfunds, rfl⟩, rfl⟩
  · rintro s' w' ⟨-, s₁, hdebit, t, htransfer, hx⟩
    obtain ⟨rfl, rfl⟩ := Prod.mk.inj (Except.ok.inj hx)
    have hsum := liabilities_of_debit (t := token) hdebit
    obtain ⟨hmoved, hsupply⟩ := ERC20.moved_of_transferBalance h.supply htransfer
    obtain ⟨hle, rfl⟩ := debit_eq_ok.mp hdebit
    refine ⟨⟨rfl, ?_, ?_⟩, rfl, fun user => ?_, ?_⟩
    · -- the balance falls by what the deposits fall
      have hthis := hmoved this
      rw [if_pos rfl, if_neg (Ne.symm hother)] at hthis
      rw [if_pos rfl] at hsum
      have hfall : liabilities token (s.setDeposit token p.owner
          (s.deposits token p.owner - p.amount)) + p.amount.toNat = liabilities token s := hsum
      have hsolvent := h.solvent
      rw [Function.update_self]
      show liabilities token (s.setDeposit token p.owner
        (s.deposits token p.owner - p.amount)) ≤ _
      omega
    · rw [Function.update_self, hsupply]
      exact h.supply
    · show (Function.update s.deposits token (Function.update (s.deposits token) p.owner
        (s.deposits token p.owner - p.amount)) token user).toNat + _ = _
      rw [Function.update_self]
      by_cases huser : p.owner = user
      · rw [if_pos huser, ← huser, Function.update_self, BitVec.toNat_sub_of_le hle]
        exact Nat.sub_add_cancel hle
      · rw [if_neg huser, Function.update_of_ne (Ne.symm huser), add_zero]
    · rw [Function.update_self]
      exact hmoved

end Pay

/-! ### Many payouts -/

/-- The calls one after the other. -/
def payAll (this token : Address) :
    List Payment → Storage × (Address → ERC20) → Result (Storage × (Address → ERC20))
  | [], x => .ok x
  | p :: ps, x => pay this token p x >>= payAll this token ps

/-- What is taken from the deposit of `user`. -/
def owed (user : Address) (ps : List Payment) : ℕ :=
  (ps.map fun p => if p.owner = user then p.amount.toNat else 0).sum

/-- What is paid to `a`. -/
def received (a : Address) (ps : List Payment) : ℕ :=
  (ps.map fun p => if a = p.caller then p.amount.toNat else 0).sum

def paidOut (ps : List Payment) : ℕ := (ps.map fun p => p.amount.toNat).sum

theorem proper_congr {s s' : Storage} (h : s'.isVaultManager = s.isVaultManager) (p : Payment) :
    p.Proper s' ↔ p.Proper s := by
  cases p with
  | withdraw user amount => exact Iff.rfl
  | claim manager owner amount =>
    unfold Payment.Proper
    rw [h]

section PayAll

variable {this token : Address}

/-- A list of payments succeeds exactly when every deposit holds what is taken from it. -/
theorem payAll_isOk_iff (hthis : this ≠ 0) (ps : List Payment)
    (hcallers : ∀ p ∈ ps, p.caller ≠ 0 ∧ p.caller ≠ this) {s : Storage} {w : Address → ERC20}
    (h : Covered this token s w) :
    (∃ x, payAll this token ps (s, w) = .ok x) ↔
      (∀ p ∈ ps, p.Proper s) ∧ ∀ user, owed user ps ≤ (s.deposits token user).toNat := by
  induction ps generalizing s w with
  | nil => exact ⟨fun _ => ⟨nofun, fun _ => Nat.zero_le _⟩, fun _ => ⟨_, rfl⟩⟩
  | cons p ps ih =>
    obtain ⟨hzero, hother⟩ := hcallers p List.mem_cons_self
    obtain ⟨hiff, heffect⟩ := pay_spec hthis hzero hother h
    have hrest := fun {s w} => @ih (fun q hq => hcallers q (List.mem_cons_of_mem p hq)) s w
    have howed : ∀ user, owed user (p :: ps)
        = (if p.owner = user then p.amount.toNat else 0) + owed user ps := fun _ => List.sum_cons
    constructor
    · -- what the rest asks for after the first payment was there before it, besides the payment
      rintro ⟨x, hx⟩
      obtain ⟨⟨s', w'⟩, hp, hps⟩ := bind_eq_ok.mp hx
      have hpaid := heffect s' w' hp
      obtain ⟨hproper, hcover⟩ := (hrest hpaid.covered).mp ⟨x, hps⟩
      refine ⟨fun q hq => ?_, fun user => ?_⟩
      · rcases List.mem_cons.mp hq with rfl | hq
        · exact (hiff.mp ⟨_, hp⟩).1
        · exact (proper_congr hpaid.managers q).mp (hproper q hq)
      · have hdeposit := hpaid.deposits user
        have huser := hcover user
        rw [howed]
        omega
    · -- the first payment takes no more from a deposit than what the list asks of it
      rintro ⟨hproper, hcover⟩
      have hfirst := hcover p.owner
      rw [howed, if_pos rfl] at hfirst
      obtain ⟨⟨s', w'⟩, hp⟩ := hiff.mpr ⟨hproper p List.mem_cons_self, by omega⟩
      have hpaid := heffect s' w' hp
      have hleft : ∀ user, owed user ps ≤ (s'.deposits token user).toNat := by
        intro user
        have hdeposit := hpaid.deposits user
        have huser := hcover user
        rw [howed] at huser
        omega
      obtain ⟨x, hx⟩ := (hrest hpaid.covered).mpr ⟨fun q hq => (proper_congr hpaid.managers q).mpr
        (hproper q (List.mem_cons_of_mem p hq)), hleft⟩
      exact ⟨x, bind_eq_ok.mpr ⟨_, hp, hx⟩⟩

/-- What a list of payments has done: each deposit is reduced by what was taken from it, and the
tokens are where they were to go. -/
theorem payAll_effect (hthis : this ≠ 0) (ps : List Payment)
    (hcallers : ∀ p ∈ ps, p.caller ≠ 0 ∧ p.caller ≠ this) {s s' : Storage}
    {w w' : Address → ERC20} (h : Covered this token s w)
    (hpay : payAll this token ps (s, w) = .ok (s', w')) :
    (∀ user, (s'.deposits token user).toNat + owed user ps = (s.deposits token user).toNat) ∧
    ∀ a, ((w' token).balances a).toNat + (if a = this then paidOut ps else 0)
      = ((w token).balances a).toNat + received a ps := by
  induction ps generalizing s w with
  | nil =>
    obtain ⟨rfl, rfl⟩ := Prod.mk.inj (Except.ok.inj hpay)
    exact ⟨fun _ => rfl, fun a => by simp [paidOut, received]⟩
  | cons p ps ih =>
    obtain ⟨hzero, hother⟩ := hcallers p List.mem_cons_self
    obtain ⟨⟨s₁, w₁⟩, hp, hps⟩ := bind_eq_ok.mp hpay
    have hpaid := (pay_spec hthis hzero hother h).2 s₁ w₁ hp
    obtain ⟨hdeposits, hbalances⟩ := ih (fun q hq => hcallers q (List.mem_cons_of_mem p hq))
      hpaid.covered hps
    have howed : ∀ user, owed user (p :: ps)
        = (if p.owner = user then p.amount.toNat else 0) + owed user ps := fun _ => List.sum_cons
    have hreceived : ∀ a, received a (p :: ps)
        = (if a = p.caller then p.amount.toNat else 0) + received a ps := fun _ => List.sum_cons
    have htotal : paidOut (p :: ps) = p.amount.toNat + paidOut ps := List.sum_cons
    refine ⟨fun user => ?_, fun a => ?_⟩
    · have hfirst := hpaid.deposits user
      have hsecond := hdeposits user
      rw [howed]
      omega
    · have hfirst := hpaid.moved a
      have hsecond := hbalances a
      rw [hreceived, htotal]
      split_ifs at hfirst hsecond ⊢ <;> omega

end PayAll

/-- The state that a vault has after any calls covers its deposits. -/
theorem covered_of_chain {this token deployer : Address} {balance : ℕ} {s : Storage}
    {w : Address → ERC20} (hsupply : (w token).supply < 2 ^ 256)
    (hchain : Chain this (tokenBalance token this) (body this) ⟨deploy deployer, balance⟩
      ⟨s, ((w token).balances this).toNat⟩) : Covered this token s w := by
  have hsound := sound_of_chain hchain
  exact ⟨hsound.status, hsound.solvent, hsupply⟩

/-- **No run on the vault**: after any calls of the vault, by anyone and with any tokens, a list of
withdrawals and claims of an OpenZeppelin token succeeds, in whatever order, exactly when the claims
are made by managers, no amount is zero, and nobody's deposit is asked for more than it holds.  Then
each deposit has fallen by what was taken from it, and each caller has got what they asked for. -/
theorem payAll_iff (this token deployer : Address) (balance : ℕ) (s : Storage)
    (w : Address → ERC20) (hthis : this ≠ 0) (hsupply : (w token).supply < 2 ^ 256)
    (hchain : Chain this (tokenBalance token this) (body this) ⟨deploy deployer, balance⟩
      ⟨s, ((w token).balances this).toNat⟩)
    (ps : List Payment) (hcallers : ∀ p ∈ ps, p.caller ≠ 0 ∧ p.caller ≠ this) :
    ((∃ x, payAll this token ps (s, w) = .ok x) ↔
      (∀ p ∈ ps, p.Proper s) ∧ ∀ user, owed user ps ≤ (s.deposits token user).toNat) ∧
    ∀ s' w', payAll this token ps (s, w) = .ok (s', w') →
      (∀ user, (s'.deposits token user).toNat + owed user ps = (s.deposits token user).toNat) ∧
      ∀ a, ((w' token).balances a).toNat + (if a = this then paidOut ps else 0)
        = ((w token).balances a).toNat + received a ps := by
  have hcovered := covered_of_chain hsupply hchain
  exact ⟨payAll_isOk_iff hthis ps hcallers hcovered,
    fun s' w' hpay => payAll_effect hthis ps hcallers hcovered hpay⟩

/-! ### A deposit that is paid out -/

/-- The vault at 9 holds 13 of each token. -/
def vaultTokens : Address → ERC20 := fun _ =>
  ⟨Function.update (fun _ => 0) 9 13, fun _ _ => 0⟩

/-- The manager 1 claims 4 of the deposit of 5, who withdraws the rest. -/
def payments : List Payment := [.claim 1 5 4, .withdraw 5 6]

theorem supply_vaultTokens : (vaultTokens 11).supply < 2 ^ 256 := by
  have hsum := finsum_update BitVec.toNat (fun _ : Address => (0 : Word)) 9 13
  have hzero : ∑ᶠ _ : Address, (0 : Word).toNat = 0 := finsum_zero
  have hthirteen : (13 : Word).toNat = 13 := rfl
  have hnone : (0 : Word).toNat = 0 := rfl
  show ∑ᶠ a, (Function.update (fun _ : Address => (0 : Word)) 9 13 a).toNat < 2 ^ 256
  omega

theorem owed_payments (user : Address) :
    owed user payments ≤ (afterDeposit.deposits 11 user).toNat := by
  by_cases h : 5 = user
  · subst h
    decide
  · have hnone : owed user payments = 0 := by
      show (if 5 = user then _ else 0) + ((if 5 = user then _ else 0) + 0) = 0
      rw [if_neg h, if_neg h, add_zero, add_zero]
    rw [hnone]
    exact Nat.zero_le _

/-- Both payments are made, and 3 tokens are left. -/
theorem payAll_payments :
    ∃ s' w', payAll 9 11 payments (afterDeposit, vaultTokens) = .ok (s', w') ∧
      ((w' 11).balances 9).toNat + 10 = 13 := by
  have hcallers : ∀ p ∈ payments, p.caller ≠ 0 ∧ p.caller ≠ 9 := by
    intro p hp
    rcases List.mem_cons.mp hp with rfl | hp
    · decide
    · obtain rfl := List.mem_singleton.mp hp
      decide
  have hproper : ∀ p ∈ payments, p.Proper afterDeposit := by
    intro p hp
    rcases List.mem_cons.mp hp with rfl | hp
    · exact ⟨rfl, by decide⟩
    · obtain rfl := List.mem_singleton.mp hp
      exact show 0 < (6 : Word).toNat by decide
  obtain ⟨hiff, heffect⟩ := payAll_iff 9 11 1 3 afterDeposit vaultTokens (by decide)
    supply_vaultTokens chain_deposit payments hcallers
  obtain ⟨⟨s', w'⟩, hx⟩ := hiff.mpr ⟨hproper, owed_payments⟩
  exact ⟨s', w', hx, (heffect s' w' hx).2 9⟩

end Enclave.TokenVault
