import Enclave.Paymaster.Equiv.Verifying
import Enclave.Paymaster.NFT

/-!
# Who uses up a quota

`recorded` is what a call of the gas logic adds to the record of a user: the gas amount of an
`applyLogic` for which the user is eligible, whoever makes the call.  A record grows by exactly that
(`count_apply`, `totalAmount_apply`).

`quota_unchanged_iff`: in a run without settlements for a user, their record and their eligibility
stay the same if and only if nobody calls `applyLogic` for them with success.
-/

namespace Enclave

namespace NFTGasLogic

/-! ### One call -/

/-- The user can be sponsored for the amount. -/
structure Eligible (balanceOf : Collections) (user nft : Address) (gasAmount : Word)
    (s : NFTGasLogic) : Prop where
  holder : ∃ balance, balanceOf nft user = .ok balance ∧ 0 < balance.toNat
  count : (s.sponsoredTransactionsByNFT nft user).count.toNat < (s.transactionLimitByNFT nft).toNat
  amount : (s.sponsoredTransactionsByNFT nft user).totalAmount.toNat + gasAmount.toNat
    ≤ (s.gasValueLimitByNFT nft).toNat

variable {balanceOf : Collections} {user user' nft nft' : Address} {gasAmount : Word}
  {s s' : NFTGasLogic}

theorem isEligible_eq_true_iff :
    s.isEligible balanceOf user nft gasAmount = .ok true ↔
      Eligible balanceOf user nft gasAmount s := by
  unfold isEligible
  rw [bind_eq_ok]
  constructor
  · rintro ⟨balance, hbalance, h⟩
    simp only at h
    by_cases hcond : balance.toNat > 0 ∧ (s.sponsoredTransactionsByNFT nft user).count.toNat
        < (s.transactionLimitByNFT nft).toNat
    · rw [if_pos hcond] at h
      obtain ⟨amount, hadd, hle⟩ := bind_eq_ok.mp h
      have hsum := Word.checkedAdd_eq_ok.mp hadd
      have hle := of_decide_eq_true (Except.ok.inj hle)
      exact ⟨⟨balance, hbalance, hcond.1⟩, hcond.2, by omega⟩
    · rw [if_neg hcond] at h
      cases h
  · rintro ⟨⟨balance, hbalance, hpos⟩, hcount, hamount⟩
    have hlt := (s.gasValueLimitByNFT nft).isLt
    have hadd : (gasAmount + (s.sponsoredTransactionsByNFT nft user).totalAmount).toNat
        = gasAmount.toNat + (s.sponsoredTransactionsByNFT nft user).totalAmount.toNat := by
      rw [BitVec.toNat_add]
      exact Nat.mod_eq_of_lt (by omega)
    refine ⟨balance, hbalance, ?_⟩
    simp only
    rw [if_pos ⟨hpos, hcount⟩, bind_eq_ok]
    refine ⟨_, Word.checkedAdd_eq_ok.mpr hadd, ?_⟩
    rw [decide_eq_true (by omega)]

/-- What `applyLogic` does when it does not revert. -/
theorem applyLogic_eq_ok_iff {answer : Bool} :
    s.applyLogic balanceOf user nft gasAmount = .ok (answer, s') ↔
      Eligible balanceOf user nft gasAmount s ∧ answer = true ∧ ∃ data,
        data.count.toNat = (s.sponsoredTransactionsByNFT nft user).count.toNat + 1 ∧
        data.totalAmount.toNat
          = (s.sponsoredTransactionsByNFT nft user).totalAmount.toNat + gasAmount.toNat ∧
        s' = s.setRecord nft user data := by
  unfold applyLogic
  simp only [bind_eq_ok, require_eq_ok]
  constructor
  · rintro ⟨eligible, heligible, _, rfl, count, hcount, total, htotal, hset⟩
    obtain ⟨rfl, rfl⟩ := Prod.mk.inj (Except.ok.inj hset)
    refine ⟨isEligible_eq_true_iff.mp heligible, rfl, ⟨count, total⟩, ?_,
      Word.checkedAdd_eq_ok.mp htotal, rfl⟩
    exact checkedIncr_eq_ok.mp hcount
  · rintro ⟨heligible, rfl, ⟨count, total⟩, hcount, htotal, rfl⟩
    refine ⟨true, isEligible_eq_true_iff.mpr heligible, (), rfl, count, ?_, total,
      Word.checkedAdd_eq_ok.mpr htotal, rfl⟩
    exact checkedIncr_eq_ok.mpr hcount

/-! ### Records -/

/-- What a call adds to the record of a user. -/
def recorded (balanceOf : Collections) (nft user : Address) (s : NFTGasLogic) : Call → List Word
  | .applyLogic u n gasAmount =>
    if u = user ∧ n = nft ∧ s.isEligible balanceOf u n gasAmount = .ok true then [gasAmount] else []
  | .addOrUpdateNFTLimits _ _ _ => []

theorem recorded_of_eligible (h : Eligible balanceOf user nft gasAmount s) :
    recorded balanceOf nft user s (.applyLogic user nft gasAmount) = [gasAmount] :=
  if_pos ⟨rfl, rfl, isEligible_eq_true_iff.mpr h⟩

theorem setRecord_self (data : SponsoredData) :
    (s.setRecord nft user data).sponsoredTransactionsByNFT nft user = data := by
  simp only [setRecord, Function.update_self]

theorem setRecord_of_ne (data : SponsoredData) (h : ¬(user' = user ∧ nft' = nft)) :
    (s.setRecord nft' user' data).sponsoredTransactionsByNFT nft user
      = s.sponsoredTransactionsByNFT nft user := by
  simp only [setRecord]
  by_cases hnft : nft = nft'
  · have huser : user ≠ user' := fun heq => h ⟨heq.symm, hnft.symm⟩
    rw [hnft, Function.update_self, Function.update_of_ne huser]
  · rw [Function.update_of_ne hnft]

/-- `applyLogic` succeeds if and only if the user is eligible. -/
theorem applyLogic_of_eligible (h : Eligible balanceOf user nft gasAmount s) :
    ∃ s', s.applyLogic balanceOf user nft gasAmount = .ok (true, s') := by
  have hcount := h.count
  have hamount := h.amount
  have hlt := (s.transactionLimitByNFT nft).isLt
  have hlt' := (s.gasValueLimitByNFT nft).isLt
  set data := s.sponsoredTransactionsByNFT nft user
  refine ⟨_, applyLogic_eq_ok_iff.mpr ⟨h, rfl, ⟨BitVec.ofNat 256 (data.count.toNat + 1),
    BitVec.ofNat 256 (data.totalAmount.toNat + gasAmount.toNat)⟩, ?_, ?_, rfl⟩⟩
  · rw [BitVec.toNat_ofNat]
    exact Nat.mod_eq_of_lt (by omega)
  · rw [BitVec.toNat_ofNat]
    exact Nat.mod_eq_of_lt (by omega)

theorem apply_of_ok {answer : Bool}
    (h : s.applyLogic balanceOf user nft gasAmount = .ok (answer, s')) :
    s.apply balanceOf (.applyLogic user nft gasAmount) = s' := by
  simp only [apply, Call.run, h, ok_bind]

theorem apply_of_not_eligible (h : ¬Eligible balanceOf user nft gasAmount s) :
    s.apply balanceOf (.applyLogic user nft gasAmount) = s := by
  cases happly : s.applyLogic balanceOf user nft gasAmount with
  | error e => simp only [apply, Call.run, happly, error_bind]
  | ok r => exact absurd (applyLogic_eq_ok_iff.mp happly).1 h

/-- A call either leaves the record of a user alone, or it is an `applyLogic` for that user. -/
theorem record_apply (balanceOf : Collections) (nft user : Address) (s : NFTGasLogic) (c : Call) :
    (recorded balanceOf nft user s c = [] ∧
      (s.apply balanceOf c).sponsoredTransactionsByNFT nft user
        = s.sponsoredTransactionsByNFT nft user) ∨
    ∃ gasAmount, c = .applyLogic user nft gasAmount ∧ Eligible balanceOf user nft gasAmount s ∧
      recorded balanceOf nft user s c = [gasAmount] ∧
      ((s.apply balanceOf c).sponsoredTransactionsByNFT nft user).count.toNat
        = (s.sponsoredTransactionsByNFT nft user).count.toNat + 1 ∧
      ((s.apply balanceOf c).sponsoredTransactionsByNFT nft user).totalAmount.toNat
        = (s.sponsoredTransactionsByNFT nft user).totalAmount.toNat + gasAmount.toNat := by
  cases c with
  | addOrUpdateNFTLimits n transactionLimit gasValueLimit => exact Or.inl ⟨rfl, rfl⟩
  | applyLogic u n gasAmount =>
    -- an eligible user is recorded whoever calls; any other call reverts
    by_cases heligible : Eligible balanceOf u n gasAmount s
    · obtain ⟨s', hs'⟩ := applyLogic_of_eligible heligible
      obtain ⟨-, -, data, hcount, htotal, rfl⟩ := applyLogic_eq_ok_iff.mp hs'
      rw [apply_of_ok hs']
      by_cases hsame : u = user ∧ n = nft
      · obtain ⟨rfl, rfl⟩ := hsame
        rw [setRecord_self]
        exact Or.inr ⟨gasAmount, rfl, heligible, recorded_of_eligible heligible, hcount, htotal⟩
      · exact Or.inl ⟨if_neg fun h => hsame ⟨h.1, h.2.1⟩, setRecord_of_ne data hsame⟩
    · rw [apply_of_not_eligible heligible]
      exact Or.inl ⟨if_neg fun h => heligible (isEligible_eq_true_iff.mp h.2.2), rfl⟩

theorem count_apply (balanceOf : Collections) (nft user : Address) (s : NFTGasLogic) (c : Call) :
    ((s.apply balanceOf c).sponsoredTransactionsByNFT nft user).count.toNat
      = (s.sponsoredTransactionsByNFT nft user).count.toNat
        + (recorded balanceOf nft user s c).length := by
  rcases record_apply balanceOf nft user s c with ⟨hnil, hsame⟩ | ⟨_, -, -, hone, hcount, -⟩
  · rw [hnil, hsame, List.length_nil, Nat.add_zero]
  · rw [hone, hcount, List.length_singleton]

theorem totalAmount_apply (balanceOf : Collections) (nft user : Address) (s : NFTGasLogic)
    (c : Call) :
    ((s.apply balanceOf c).sponsoredTransactionsByNFT nft user).totalAmount.toNat
      = (s.sponsoredTransactionsByNFT nft user).totalAmount.toNat
        + ((recorded balanceOf nft user s c).map BitVec.toNat).sum := by
  rcases record_apply balanceOf nft user s c with ⟨hnil, hsame⟩ | ⟨_, -, -, hone, -, htotal⟩
  · rw [hnil, hsame, List.map_nil, List.sum_nil, Nat.add_zero]
  · rw [hone, htotal, List.map_singleton, List.sum_singleton]

/-! ### Limits -/

/-- The call does not change the limits of the collection. -/
def KeepsLimits (nft : Address) (s : NFTGasLogic) (c : Call) : Prop :=
  ∀ transactionLimit gasValueLimit, c = .addOrUpdateNFTLimits nft transactionLimit gasValueLimit →
    transactionLimit = s.transactionLimitByNFT nft ∧ gasValueLimit = s.gasValueLimitByNFT nft

theorem limits_apply (balanceOf : Collections) {c : Call} (h : KeepsLimits nft s c) :
    (s.apply balanceOf c).transactionLimitByNFT nft = s.transactionLimitByNFT nft ∧
      (s.apply balanceOf c).gasValueLimitByNFT nft = s.gasValueLimitByNFT nft := by
  cases c with
  | applyLogic u n gasAmount =>
    by_cases heligible : Eligible balanceOf u n gasAmount s
    · obtain ⟨s', hs'⟩ := applyLogic_of_eligible heligible
      obtain ⟨-, -, data, -, -, rfl⟩ := applyLogic_eq_ok_iff.mp hs'
      rw [apply_of_ok hs']
      exact ⟨rfl, rfl⟩
    · rw [apply_of_not_eligible heligible]
      exact ⟨rfl, rfl⟩
  | addOrUpdateNFTLimits n transactionLimit gasValueLimit =>
    show Function.update s.transactionLimitByNFT n transactionLimit nft = _ ∧
      Function.update s.gasValueLimitByNFT n gasValueLimit nft = _
    by_cases hn : nft = n
    · subst hn
      obtain ⟨rfl, rfl⟩ := h transactionLimit gasValueLimit rfl
      rw [Function.update_self, Function.update_self]
      exact ⟨rfl, rfl⟩
    · rw [Function.update_of_ne hn, Function.update_of_ne hn]
      exact ⟨rfl, rfl⟩

/-- Eligibility depends on the balance, the record and the limits of the collection. -/
theorem isEligible_congr {balanceOf' : Collections}
    (hbalance : balanceOf' nft user = balanceOf nft user)
    (hrecord : s'.sponsoredTransactionsByNFT nft user = s.sponsoredTransactionsByNFT nft user)
    (hcount : s'.transactionLimitByNFT nft = s.transactionLimitByNFT nft)
    (hamount : s'.gasValueLimitByNFT nft = s.gasValueLimitByNFT nft) (gasAmount : Word) :
    s'.isEligible balanceOf' user nft gasAmount = s.isEligible balanceOf user nft gasAmount := by
  unfold isEligible
  rw [hbalance, hrecord, hcount, hamount]

end NFTGasLogic

/-! ### Runs -/

namespace NFTPaymaster

open Paymaster

variable {site : Site} {user nft : Address}

/-- The call of the gas logic that a call leads to, if any. -/
def Call.reaches (site : Site) (w : World) : Call → Option NFTGasLogic.Call
  | .gasLogic _ c => some c
  | .postOp sender context actualGasCost =>
    if sender = site.entryPoint then
      match abiDecodeAddress context 0 with
      | .ok user => some (.applyLogic user w.paymaster.nft actualGasCost)
      | .error _ => none
    else none
  | _ => none

/-- The collections after a call. -/
def Call.collectionsAfter (w : World) : Call → Collections
  | .collections balanceOf => balanceOf
  | _ => w.balanceOf

/-- **One call**: the gas logic changes by the call that reaches it, the collections by their own
calls, and the paymaster does not matter for either. -/
theorem apply_eq (site : Site) (w : World) (call : Call) :
    ∃ s, apply site w call = ⟨s, match call.reaches site w with
      | some c => w.gasLogic.apply w.balanceOf c
      | none => w.gasLogic, call.collectionsAfter w⟩ := by
  cases call with
  | gasLogic sender c =>
    refine ⟨w.paymaster, ?_⟩
    simp only [apply, Call.run, Call.reaches, NFTGasLogic.apply]
    cases c.run w.balanceOf w.gasLogic with
    | error e => rfl
    | ok g => rfl
  | postOp sender context actualGasCost =>
    refine ⟨w.paymaster, ?_⟩
    simp only [apply, Call.run, Call.reaches, postOp]
    by_cases hsender : sender = site.entryPoint
    · rw [require_true hsender, ok_bind, if_pos hsender]
      cases abiDecodeAddress context 0 with
      | error e => rfl
      | ok user =>
        simp only [ok_bind, NFTGasLogic.apply, NFTGasLogic.Call.run]
        cases w.gasLogic.applyLogic w.balanceOf user w.paymaster.nft actualGasCost with
        | error e => rfl
        | ok r => rfl
    · rw [if_neg hsender, require, if_neg hsender, error_bind]
      rfl
  | validatePaymasterUserOp sender userOp requiredPreFund =>
    simp only [apply, Call.run, Call.reaches]
    cases NFTPaymaster.validatePaymasterUserOp site w.balanceOf w.gasLogic sender userOp
      requiredPreFund w.paymaster with
    | error e => exact ⟨_, rfl⟩
    | ok r => exact ⟨_, rfl⟩
  | updateNFT sender nft =>
    simp only [apply, Call.run, Call.reaches]
    cases NFTPaymaster.updateNFT sender nft w.paymaster with
    | error e => exact ⟨_, rfl⟩
    | ok s => exact ⟨_, rfl⟩
  | transferOwnership sender newOwner =>
    simp only [apply, Call.run, Call.reaches]
    cases NFTPaymaster.transferOwnership sender newOwner w.paymaster with
    | error e => exact ⟨_, rfl⟩
    | ok s => exact ⟨_, rfl⟩
  | renounceOwnership sender =>
    simp only [apply, Call.run, Call.reaches]
    cases NFTPaymaster.renounceOwnership sender w.paymaster with
    | error e => exact ⟨_, rfl⟩
    | ok s => exact ⟨_, rfl⟩
  | collections balanceOf => exact ⟨_, rfl⟩

/-- A property of every call of a run, in the world in which it is made. -/
def Along (site : Site) (P : World → Call → Prop) : List Call → World → Prop
  | [], _ => True
  | call :: calls, w => P w call ∧ Along site P calls (apply site w call)

/-- The call is no settlement for the user by the entry point, and it changes neither the limits of
the collection nor the balance of the user. -/
structure Spares (site : Site) (nft user : Address) (w : World) (call : Call) : Prop where
  settlement : ∀ context actualGasCost, call = .postOp site.entryPoint context actualGasCost →
    abiDecodeAddress context 0 ≠ .ok user
  limits : ∀ sender c, call = .gasLogic sender c → w.gasLogic.KeepsLimits nft c
  balance : ∀ balanceOf, call = .collections balanceOf → balanceOf nft user = w.balanceOf nft user

/-- The call is no `applyLogic` for the user that succeeds. -/
def Refused (nft user : Address) (w : World) (call : Call) : Prop :=
  ∀ sender gasAmount, call = .gasLogic sender (.applyLogic user nft gasAmount) →
    ¬w.gasLogic.Eligible w.balanceOf user nft gasAmount

/-- What counts for a user is the same in the two worlds. -/
structure SameQuota (nft user : Address) (w w' : World) : Prop where
  record : w'.gasLogic.sponsoredTransactionsByNFT nft user
    = w.gasLogic.sponsoredTransactionsByNFT nft user
  transactionLimit : w'.gasLogic.transactionLimitByNFT nft = w.gasLogic.transactionLimitByNFT nft
  gasValueLimit : w'.gasLogic.gasValueLimitByNFT nft = w.gasLogic.gasValueLimitByNFT nft
  balance : w'.balanceOf nft user = w.balanceOf nft user

theorem SameQuota.trans {w w₁ w' : World} (h : SameQuota nft user w w₁)
    (h' : SameQuota nft user w₁ w') : SameQuota nft user w w' where
  record := h'.record.trans h.record
  transactionLimit := h'.transactionLimit.trans h.transactionLimit
  gasValueLimit := h'.gasValueLimit.trans h.gasValueLimit
  balance := h'.balance.trans h.balance

/-- The gas logic is reached directly, or by a settlement of the entry point. -/
theorem reaches_cases {w : World} {call : Call} {c : NFTGasLogic.Call}
    (h : call.reaches site w = some c) :
    (∃ sender, call = .gasLogic sender c) ∨
      ∃ context actualGasCost sender, call = .postOp site.entryPoint context actualGasCost ∧
        abiDecodeAddress context 0 = .ok sender ∧
        c = .applyLogic sender w.paymaster.nft actualGasCost := by
  cases call with
  | gasLogic sender c' =>
    obtain rfl := Option.some.inj h
    exact Or.inl ⟨sender, rfl⟩
  | postOp sender context actualGasCost =>
    simp only [Call.reaches] at h
    split_ifs at h with hsender
    cases hdecode : abiDecodeAddress context 0 with
    | error e =>
      rw [hdecode] at h
      cases h
    | ok user =>
      rw [hdecode] at h
      rw [hsender]
      exact Or.inr ⟨context, actualGasCost, user, rfl, hdecode, (Option.some.inj h).symm⟩
  | validatePaymasterUserOp sender userOp requiredPreFund => cases h
  | updateNFT sender nft => cases h
  | transferOwnership sender newOwner => cases h
  | renounceOwnership sender => cases h
  | collections balanceOf => cases h

/-- What a sparing call leads to keeps the limits. -/
theorem keepsLimits_of_reaches {w : World} {call : Call} {c : NFTGasLogic.Call}
    (h : Spares site nft user w call) (hreach : call.reaches site w = some c) :
    w.gasLogic.KeepsLimits nft c := by
  rcases reaches_cases hreach with ⟨sender, hcall⟩ | ⟨context, cost, sender, -, -, rfl⟩
  · exact h.limits sender c hcall
  · intro _ _ hc
    cases hc

/-- A sparing call that reaches the record of the user is an `applyLogic` by someone. -/
theorem direct_of_reaches {w : World} {call : Call} {gasAmount : Word}
    (h : Spares site nft user w call)
    (hreach : call.reaches site w = some (.applyLogic user nft gasAmount)) :
    ∃ sender, call = .gasLogic sender (.applyLogic user nft gasAmount) := by
  rcases reaches_cases hreach with hdirect | ⟨context, cost, sender, hcall, hdecode, hc⟩
  · exact hdirect
  · injection hc with huser
    rw [← huser] at hdecode
    exact absurd hdecode (h.settlement context cost hcall)

/-- A call that spares the user either leaves the quota alone and is refused, or it is an
`applyLogic` by someone and counts. -/
theorem spares_cases {w : World} {call : Call} (h : Spares site nft user w call) :
    (Refused nft user w call ∧ SameQuota nft user w (apply site w call)) ∨
      (¬Refused nft user w call ∧
        ((apply site w call).gasLogic.sponsoredTransactionsByNFT nft user).count.toNat
          = (w.gasLogic.sponsoredTransactionsByNFT nft user).count.toNat + 1) := by
  obtain ⟨s, happly⟩ := apply_eq site w call
  have hbalance : call.collectionsAfter w nft user = w.balanceOf nft user := by
    cases call with
    | collections balanceOf => exact h.balance balanceOf rfl
    | gasLogic sender c => rfl
    | postOp sender context actualGasCost => rfl
    | validatePaymasterUserOp sender userOp requiredPreFund => rfl
    | updateNFT sender nft => rfl
    | transferOwnership sender newOwner => rfl
    | renounceOwnership sender => rfl
  rw [happly]
  cases hreach : call.reaches site w with
  | none =>
    refine Or.inl ⟨?_, ⟨rfl, rfl, rfl, hbalance⟩⟩
    rintro sender gasAmount rfl
    cases hreach
  | some c =>
    obtain ⟨hcount, hamount⟩ :=
      NFTGasLogic.limits_apply w.balanceOf (keepsLimits_of_reaches h hreach)
    rcases NFTGasLogic.record_apply w.balanceOf nft user w.gasLogic c with
      ⟨hnil, hsame⟩ | ⟨gasAmount, rfl, heligible, -, hrecord, -⟩
    · refine Or.inl ⟨?_, ⟨hsame, hcount, hamount, hbalance⟩⟩
      rintro sender gasAmount rfl heligible
      obtain rfl := Option.some.inj hreach
      rw [NFTGasLogic.recorded_of_eligible heligible] at hnil
      cases hnil
    -- a record was written for the user, though not by a settlement of theirs
    · obtain ⟨sender, rfl⟩ := direct_of_reaches h hreach
      exact Or.inr ⟨fun hrefused => hrefused sender gasAmount rfl heligible, hrecord⟩

/-- A record never shrinks. -/
theorem count_le_worldAfter {calls : List Call} {w : World}
    (h : Along site (Spares site nft user) calls w) :
    (w.gasLogic.sponsoredTransactionsByNFT nft user).count.toNat
      ≤ ((worldAfter site w calls).gasLogic.sponsoredTransactionsByNFT nft user).count.toNat := by
  induction calls generalizing w with
  | nil => exact le_rfl
  | cons call calls ih =>
    obtain ⟨hcall, hcalls⟩ := h
    refine le_trans ?_ (ih hcalls)
    rcases spares_cases hcall with ⟨-, hsame⟩ | ⟨-, hcount⟩
    · rw [hsame.record]
    · omega

/-- If every call is refused, the quota stays as it is. -/
theorem sameQuota_worldAfter {calls : List Call} {w : World}
    (h : Along site (Spares site nft user) calls w)
    (hrefused : Along site (Refused nft user) calls w) :
    SameQuota nft user w (worldAfter site w calls) := by
  induction calls generalizing w with
  | nil => exact ⟨rfl, rfl, rfl, rfl⟩
  | cons call calls ih =>
    obtain ⟨hcall, hcalls⟩ := h
    obtain ⟨hrefused, hrefuseds⟩ := hrefused
    rcases spares_cases hcall with ⟨-, hsame⟩ | ⟨hnot, -⟩
    · exact hsame.trans (ih hcalls hrefuseds)
    · exact absurd hrefused hnot

/-- If the record is the same at the end, every call was refused. -/
theorem refused_of_record {calls : List Call} {w : World}
    (h : Along site (Spares site nft user) calls w)
    (hrecord : ((worldAfter site w calls).gasLogic.sponsoredTransactionsByNFT nft user).count.toNat
      = (w.gasLogic.sponsoredTransactionsByNFT nft user).count.toNat) :
    Along site (Refused nft user) calls w := by
  induction calls generalizing w with
  | nil => exact trivial
  | cons call calls ih =>
    obtain ⟨hcall, hcalls⟩ := h
    have hle := count_le_worldAfter hcalls
    have hrun : worldAfter site w (call :: calls) = worldAfter site (apply site w call) calls := rfl
    rw [hrun] at hrecord
    rcases spares_cases hcall with ⟨hrefused, hsame⟩ | ⟨-, hcount⟩
    · refine ⟨hrefused, ih hcalls ?_⟩
      rw [hrecord, hsame.record]
    · omega

/-- **Quotas**: over every run of calls by anyone that settles no operation of the user and changes
neither the limits of the collection nor the balance of the user, the record of the user and every
answer of `isEligible` are the same at the end as at the start if and only if no call of the run is
an `applyLogic` for the user that succeeds. -/
theorem quota_unchanged_iff (site : Site) (nft user : Address) (w : World) (calls : List Call)
    (h : Along site (Spares site nft user) calls w) :
    ((worldAfter site w calls).gasLogic.sponsoredTransactionsByNFT nft user
        = w.gasLogic.sponsoredTransactionsByNFT nft user ∧
      ∀ gasAmount, (worldAfter site w calls).gasLogic.isEligible (worldAfter site w calls).balanceOf
          user nft gasAmount
        = w.gasLogic.isEligible w.balanceOf user nft gasAmount) ↔
    Along site (Refused nft user) calls w := by
  constructor
  · rintro ⟨hrecord, -⟩
    apply refused_of_record h
    rw [hrecord]
  · intro hrefused
    obtain ⟨hrecord, hcount, hamount, hbalance⟩ := sameQuota_worldAfter h hrefused
    exact ⟨hrecord, NFTGasLogic.isEligible_congr hbalance hrecord hcount hamount⟩

/-- One sponsored operation for each holder of the collection 12, and gas for 100 in all. -/
def sampleLogic : NFTGasLogic where
  sponsoredTransactionsByNFT _ _ := ⟨0, 0⟩
  transactionLimitByNFT := Function.update (fun _ => 0) 12 1
  gasValueLimitByNFT := Function.update (fun _ => 0) 12 100

/-- The user 5 holds one token of the collection 12. -/
def sampleHolders : Collections := fun nft user => .ok (if nft = 12 ∧ user = 5 then 1 else 0)

def sampleWorld : World := ⟨⟨1, 12, fun _ => 0⟩, sampleLogic, sampleHolders⟩

/-- A stranger records an operation for the user 5, who has made none. -/
def intrusion : List Call := [.gasLogic 99 (.applyLogic 5 12 0)]

theorem spares_intrusion :
    Along sampleSite (Spares sampleSite 12 5) intrusion sampleWorld := by
  refine ⟨⟨fun _ _ h => (by cases h), ?_, fun _ h => (by cases h)⟩, trivial⟩
  intro sender c h
  cases h
  intro _ _ hc
  cases hc

/-- The user was eligible before, and is not after. -/
theorem quota_of_intrusion :
    Along sampleSite (Spares sampleSite 12 5) intrusion sampleWorld ∧
    sampleWorld.gasLogic.isEligible sampleWorld.balanceOf 5 12 60 = .ok true ∧
    (worldAfter sampleSite sampleWorld intrusion).gasLogic.isEligible
      (worldAfter sampleSite sampleWorld intrusion).balanceOf 5 12 60 = .ok false :=
  ⟨spares_intrusion, by decide, by decide⟩

theorem quota_unchanged_iff_intrusion :
    ((worldAfter sampleSite sampleWorld intrusion).gasLogic.sponsoredTransactionsByNFT 12 5
        = sampleWorld.gasLogic.sponsoredTransactionsByNFT 12 5 ∧
      ∀ gasAmount, (worldAfter sampleSite sampleWorld intrusion).gasLogic.isEligible
          (worldAfter sampleSite sampleWorld intrusion).balanceOf 5 12 gasAmount
        = sampleWorld.gasLogic.isEligible sampleWorld.balanceOf 5 12 gasAmount) ↔
    Along sampleSite (Refused 12 5) intrusion sampleWorld :=
  quota_unchanged_iff sampleSite 12 5 sampleWorld intrusion spares_intrusion

end NFTPaymaster

end Enclave
