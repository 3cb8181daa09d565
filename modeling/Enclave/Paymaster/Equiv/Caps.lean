import Enclave.Paymaster.Equiv.NFT

/-!
# What the gas logic caps

Limits may be lowered below what has been used, so a record need not be within the limits of the
moment.  It is within the largest limits that were ever set (`within_stateAfter`), because each
success is within the limits of its own time (`within_limits_of_applyLogic`); and it is the number
and the sum of the successes (`count_stateAfter`, `totalAmount_stateAfter`).
-/

namespace Enclave.NFTGasLogic

variable {balanceOf : Collections} {user nft : Address} {gasAmount : Word} {s s' : NFTGasLogic}

/-! ### Histories -/

/-- The gas amount of a call `applyLogic(user, nft, ·)` that does not revert. -/
def succeeded (nft user : Address) (s : NFTGasLogic) (e : Event) : List Word :=
  match e.call with
  | .applyLogic u n gasAmount =>
    if u = user ∧ n = nft ∧ (s.applyLogic e.balanceOf u n gasAmount).isOk = true then [gasAmount]
    else []
  | .addOrUpdateNFTLimits _ _ _ => []

/-- The gas amounts of all of them in a run. -/
def successes (nft user : Address) : List Event → NFTGasLogic → List Word
  | [], _ => []
  | e :: events, s =>
    succeeded nft user s e ++ successes nft user events (s.apply e.balanceOf e.call)

/-- The limits that a run sets for a collection. -/
def limitsSet (nft : Address) (events : List Event) : List (Word × Word) :=
  events.filterMap fun e => match e.call with
    | .addOrUpdateNFTLimits n transactionLimit gasValueLimit =>
      if n = nft then some (transactionLimit, gasValueLimit) else none
    | .applyLogic _ _ _ => none

/-- The largest of some limits, zero if there are none. -/
def largest (limits : List Word) : ℕ := (limits.map BitVec.toNat).foldr max 0

theorem le_largest {limits : List Word} {limit : Word} (h : limit ∈ limits) :
    limit.toNat ≤ largest limits := by
  induction limits with
  | nil => cases h
  | cons l limits ih =>
    show limit.toNat ≤ max l.toNat (largest limits)
    rcases List.mem_cons.mp h with rfl | h
    · exact le_max_left _ _
    · exact le_trans (ih h) (le_max_right _ _)

/-! ### Counting -/

/-- A call is recorded if and only if it succeeds. -/
theorem succeeded_eq_recorded (nft user : Address) (s : NFTGasLogic) (e : Event) :
    succeeded nft user s e = recorded e.balanceOf nft user s e.call := by
  obtain ⟨balanceOf, call⟩ := e
  cases call with
  | addOrUpdateNFTLimits n transactionLimit gasValueLimit => rfl
  | applyLogic u n gasAmount =>
    have hok : (s.applyLogic balanceOf u n gasAmount).isOk = true ↔
        s.isEligible balanceOf u n gasAmount = .ok true := by
      rw [isEligible_eq_true_iff]
      constructor
      · intro h
        cases happly : s.applyLogic balanceOf u n gasAmount with
        | error e =>
          rw [happly] at h
          cases h
        | ok r => exact (applyLogic_eq_ok_iff.mp happly).1
      · intro h
        obtain ⟨s', hs'⟩ := applyLogic_of_eligible h
        rw [hs']
        rfl
    simp only [succeeded, recorded, hok]

theorem count_stateAfter (nft user : Address) (events : List Event) (s : NFTGasLogic) :
    ((s.stateAfter events).sponsoredTransactionsByNFT nft user).count.toNat
      = (s.sponsoredTransactionsByNFT nft user).count.toNat
        + (successes nft user events s).length := by
  induction events generalizing s with
  | nil => rfl
  | cons e events ih =>
    have hrest := ih (s.apply e.balanceOf e.call)
    rw [count_apply] at hrest
    rw [successes, List.length_append, succeeded_eq_recorded, ← Nat.add_assoc]
    exact hrest

theorem totalAmount_stateAfter (nft user : Address) (events : List Event) (s : NFTGasLogic) :
    ((s.stateAfter events).sponsoredTransactionsByNFT nft user).totalAmount.toNat
      = (s.sponsoredTransactionsByNFT nft user).totalAmount.toNat
        + ((successes nft user events s).map BitVec.toNat).sum := by
  induction events generalizing s with
  | nil => rfl
  | cons e events ih =>
    have hrest := ih (s.apply e.balanceOf e.call)
    rw [totalAmount_apply] at hrest
    rw [successes, List.map_append, List.sum_append, succeeded_eq_recorded, ← Nat.add_assoc]
    exact hrest

/-! ### Caps -/

/-- The record of a user and the limits of a collection are within the bounds. -/
structure Within (nft user : Address) (boundCount boundAmount : ℕ) (s : NFTGasLogic) : Prop where
  count : (s.sponsoredTransactionsByNFT nft user).count.toNat ≤ boundCount
  totalAmount : (s.sponsoredTransactionsByNFT nft user).totalAmount.toNat ≤ boundAmount
  transactionLimit : (s.transactionLimitByNFT nft).toNat ≤ boundCount
  gasValueLimit : (s.gasValueLimitByNFT nft).toNat ≤ boundAmount

/-- A success leaves the record within the limits of the moment, which it does not change. -/
theorem within_limits_of_applyLogic {answer : Bool}
    (h : s.applyLogic balanceOf user nft gasAmount = .ok (answer, s')) :
    (s'.sponsoredTransactionsByNFT nft user).count.toNat ≤ (s'.transactionLimitByNFT nft).toNat ∧
      (s'.sponsoredTransactionsByNFT nft user).totalAmount.toNat
        ≤ (s'.gasValueLimitByNFT nft).toNat := by
  obtain ⟨heligible, -, data, hcount, htotal, rfl⟩ := applyLogic_eq_ok_iff.mp h
  have hlimit := heligible.count
  have hvalue := heligible.amount
  rw [setRecord_self]
  constructor
  · show data.count.toNat ≤ (s.transactionLimitByNFT nft).toNat
    omega
  · show data.totalAmount.toNat ≤ (s.gasValueLimitByNFT nft).toNat
    omega

/-- One call stays within bounds that the limits it sets respect. -/
theorem within_apply {boundCount boundAmount : ℕ} (h : Within nft user boundCount boundAmount s)
    (e : Event)
    (hset : ∀ l ∈ limitsSet nft [e], l.1.toNat ≤ boundCount ∧ l.2.toNat ≤ boundAmount) :
    Within nft user boundCount boundAmount (s.apply e.balanceOf e.call) := by
  obtain ⟨balanceOf, call⟩ := e
  have hlimits : ((s.apply balanceOf call).transactionLimitByNFT nft).toNat ≤ boundCount ∧
      ((s.apply balanceOf call).gasValueLimitByNFT nft).toNat ≤ boundAmount := by
    by_cases hkeeps : KeepsLimits nft s call
    · obtain ⟨hcount, hamount⟩ := limits_apply balanceOf hkeeps
      rw [hcount, hamount]
      exact ⟨h.transactionLimit, h.gasValueLimit⟩
    · -- the only call that changes them is the one that sets them
      unfold KeepsLimits at hkeeps
      push Not at hkeeps
      obtain ⟨transactionLimit, gasValueLimit, rfl, -⟩ := hkeeps
      have hbound := hset (transactionLimit, gasValueLimit) (by simp [limitsSet])
      simp only [apply, Call.run, addOrUpdateNFTLimits, Function.update_self]
      exact hbound
  rcases record_apply balanceOf nft user s call with
    ⟨-, hsame⟩ | ⟨gasAmount, rfl, heligible, -, -, -⟩
  · refine ⟨?_, ?_, hlimits.1, hlimits.2⟩
    · rw [hsame]
      exact h.count
    · rw [hsame]
      exact h.totalAmount
  · obtain ⟨s', hs'⟩ := applyLogic_of_eligible heligible
    obtain ⟨hcount, hamount⟩ := within_limits_of_applyLogic hs'
    rw [apply_of_ok hs'] at hlimits ⊢
    exact ⟨hcount.trans hlimits.1, hamount.trans hlimits.2, hlimits.1, hlimits.2⟩

/-- So does a run. -/
theorem within_stateAfter {boundCount boundAmount : ℕ} {events : List Event}
    (h : Within nft user boundCount boundAmount s)
    (hset : ∀ l ∈ limitsSet nft events, l.1.toNat ≤ boundCount ∧ l.2.toNat ≤ boundAmount) :
    Within nft user boundCount boundAmount (s.stateAfter events) := by
  induction events generalizing s with
  | nil => exact h
  | cons e events ih =>
    have hsplit : limitsSet nft (e :: events) = limitsSet nft [e] ++ limitsSet nft events := by
      rw [← List.singleton_append, limitsSet, List.filterMap_append]
      rfl
    rw [hsplit] at hset
    refine ih (within_apply h e fun l hl => ?_) fun l hl => ?_
    · exact hset l (List.mem_append_left _ hl)
    · exact hset l (List.mem_append_right _ hl)

/-- **Caps**: in every state that a run of calls by anyone reaches, for every collection and user,
the record is within the largest limits ever set and counts the successes; a success leaves it
within the limits in force; and a call that is not eligible or would overflow changes nothing. -/
theorem sponsorship_capped (events : List Event) (nft user : Address) (s : NFTGasLogic)
    (hs : s = deploy.stateAfter events) :
    ((s.sponsoredTransactionsByNFT nft user).count.toNat
        ≤ largest ((limitsSet nft events).map Prod.fst) ∧
      (s.sponsoredTransactionsByNFT nft user).totalAmount.toNat
        ≤ largest ((limitsSet nft events).map Prod.snd)) ∧
    ((s.sponsoredTransactionsByNFT nft user).count.toNat
        = (successes nft user events deploy).length ∧
      (s.sponsoredTransactionsByNFT nft user).totalAmount.toNat
        = ((successes nft user events deploy).map BitVec.toNat).sum) ∧
    (∀ balanceOf gasAmount answer s',
      s.applyLogic balanceOf user nft gasAmount = .ok (answer, s') →
      (s'.sponsoredTransactionsByNFT nft user).count.toNat ≤ (s'.transactionLimitByNFT nft).toNat ∧
        (s'.sponsoredTransactionsByNFT nft user).totalAmount.toNat
          ≤ (s'.gasValueLimitByNFT nft).toNat) ∧
    ∀ balanceOf gasAmount, (s.isEligible balanceOf user nft gasAmount ≠ .ok true ∨
        2 ^ 256 ≤ (s.sponsoredTransactionsByNFT nft user).count.toNat + 1 ∨
        2 ^ 256 ≤ (s.sponsoredTransactionsByNFT nft user).totalAmount.toNat + gasAmount.toNat) →
      s.apply balanceOf (.applyLogic user nft gasAmount) = s := by
  refine ⟨?_, ?_, fun balanceOf gasAmount answer s' h => within_limits_of_applyLogic h, ?_⟩
  · have hstart : Within nft user (largest ((limitsSet nft events).map Prod.fst))
        (largest ((limitsSet nft events).map Prod.snd)) deploy :=
      ⟨Nat.zero_le _, Nat.zero_le _, Nat.zero_le _, Nat.zero_le _⟩
    have hwithin := within_stateAfter hstart fun l hl =>
      ⟨le_largest (List.mem_map_of_mem hl), le_largest (List.mem_map_of_mem hl)⟩
    rw [hs]
    exact ⟨hwithin.count, hwithin.totalAmount⟩
  · have hcount := count_stateAfter nft user events deploy
    have htotal := totalAmount_stateAfter nft user events deploy
    have hzero : (deploy.sponsoredTransactionsByNFT nft user).count.toNat = 0 ∧
        (deploy.sponsoredTransactionsByNFT nft user).totalAmount.toNat = 0 := ⟨rfl, rfl⟩
    rw [hzero.1, Nat.zero_add] at hcount
    rw [hzero.2, Nat.zero_add] at htotal
    rw [hs]
    exact ⟨hcount, htotal⟩
  · intro balanceOf gasAmount h
    refine apply_of_not_eligible fun heligible => ?_
    -- an eligible amount is within the limits, which are words
    have hcount := heligible.count
    have hamount := heligible.amount
    have hlt := (s.transactionLimitByNFT nft).isLt
    have hlt' := (s.gasValueLimitByNFT nft).isLt
    rcases h with hnot | hover | hover
    · exact hnot (isEligible_eq_true_iff.mpr heligible)
    · omega
    · omega

/-! ### Limits that are lowered -/

/-- Everybody holds one of everything. -/
def oneOfEach : Collections := fun _ _ => .ok 1

/-- Two transactions are sponsored, and then the limit is lowered to one. -/
def lowered : List Event :=
  [⟨oneOfEach, .addOrUpdateNFTLimits 12 2 100⟩, ⟨oneOfEach, .applyLogic 5 12 40⟩,
    ⟨oneOfEach, .applyLogic 5 12 60⟩, ⟨oneOfEach, .addOrUpdateNFTLimits 12 1 50⟩,
    ⟨oneOfEach, .applyLogic 5 12 0⟩]

theorem sponsorship_capped_lowered :
    ((deploy.stateAfter lowered).sponsoredTransactionsByNFT 12 5).count.toNat = 2 ∧
      ((deploy.stateAfter lowered).sponsoredTransactionsByNFT 12 5).totalAmount.toNat = 100 ∧
      ((deploy.stateAfter lowered).transactionLimitByNFT 12).toNat = 1 := by
  obtain ⟨-, ⟨hcount, htotal⟩, -, -⟩ := sponsorship_capped lowered 12 5 _ rfl
  rw [hcount, htotal]
  decide

end Enclave.NFTGasLogic
