import Enclave.Evm.Mapping
import Enclave.Paymaster.Equiv.NFT
import Enclave.Paymaster.GasNFT
import Mathlib.Order.Interval.Finset.Nat

/-!
# What a `GasNFT` is worth

`mintNFT` asks only that the recipient holds no token yet, so that anyone can give one to anyone.
The tokens of a collection are counted by the balances over every run (`Sound`), because the counter
never meets an id that is taken.  `anyone_sponsored`: after one call of `mintNFT` that anyone can
make for a sender, `EnclaveVerifyingNFTPaymaster` accepts their operation if and only if the limits
of the gas logic leave room for it and the paymaster without a collection would accept it.
-/

namespace Enclave

/-! ### Words -/

theorem Word.toNat_add_one {x : Word} (h : x.toNat + 1 < 2 ^ 256) :
    (x + 1).toNat = x.toNat + 1 := by
  rw [BitVec.toNat_add, Word.toNat_one]
  exact Nat.mod_eq_of_lt h

theorem Word.toNat_sub_one {x : Word} (h : 0 < x.toNat) : (x - 1).toNat = x.toNat - 1 := by
  rw [BitVec.toNat_sub_of_le, Word.toNat_one]
  rw [BitVec.le_def, Word.toNat_one]
  exact h

namespace GasNFT

/-- The tokens of an owner. -/
def tokensOf (s : GasNFT) (a : Address) : Set Word := {id | s.token.owners id = a}

/-- The ids up to the counter are in use, and no others. -/
def Minted (s : GasNFT) : Prop :=
  ∀ id, s.token.owners id ≠ 0 ↔ 0 < id.toNat ∧ id.toNat ≤ s.tokenIds.toNat

/-- Then the balances count the tokens. -/
structure Sound (s : GasNFT) : Prop where
  minted : Minted s
  counted : ∀ a, a ≠ 0 → (s.token.balances a).toNat = (s.tokensOf a).ncard

variable {s s' : GasNFT}

/-- Nobody owns more tokens than there are. -/
theorem Minted.ncard_le (h : Minted s) {a : Address} (ha : a ≠ 0) :
    (s.tokensOf a).ncard ≤ s.tokenIds.toNat := by
  have himage : (s.tokensOf a).ncard ≤ (Finset.Icc 1 s.tokenIds.toNat : Set ℕ).ncard := by
    refine Set.ncard_le_ncard_of_injOn BitVec.toNat (fun id hid => ?_)
      (fun x _ y _ hxy => BitVec.eq_of_toNat_eq hxy) (Finset.finite_toSet _)
    have howned : s.token.owners id ≠ 0 := by
      rw [show s.token.owners id = a from hid]
      exact ha
    exact Finset.mem_coe.mpr (Finset.mem_Icc.mpr ((h id).mp howned))
  rwa [Set.ncard_coe_finset, Nat.card_Icc, Nat.add_sub_cancel] at himage

/-! ### One call -/

/-- What a call can do: mint the next token, move a token, or neither. -/
inductive Effect (s s' : GasNFT) : Prop
  | mint (recipient : Address) (hrecipient : recipient ≠ 0)
      (hfree : s.token.owners (s.tokenIds + 1) = 0)
      (howners : s'.token.owners = Function.update s.token.owners (s.tokenIds + 1) recipient)
      (hbalances : s'.token.balances = Function.update s.token.balances recipient
        (s.token.balances recipient + 1))
      (hids : s'.tokenIds = s.tokenIds + 1)
  | transfer (src dst : Address) (id : Word) (hsrc : src ≠ 0) (hdst : dst ≠ 0)
      (howner : s.token.owners id = src)
      (howners : s'.token.owners = Function.update s.token.owners id dst)
      (hbalances : s'.token.balances
        = let debited := Function.update s.token.balances src (s.token.balances src - 1)
          Function.update debited dst (debited dst + 1))
      (hids : s'.tokenIds = s.tokenIds)
  | other (howners : s'.token.owners = s.token.owners)
      (hbalances : s'.token.balances = s.token.balances) (hids : s'.tokenIds = s.tokenIds)

theorem onToken_eq_ok {f : ERC721 → Result ERC721} (h : s.onToken f = .ok s') :
    ∃ t, f s.token = .ok t ∧ s' = { s with token := t } := by
  obtain ⟨t, ht, hset⟩ := bind_eq_ok.mp h
  exact ⟨t, ht, (Except.ok.inj hset).symm⟩

theorem ownerOf_eq_ok {t : ERC721} {id : Word} {owner : Address}
    (h : t.ownerOf id = .ok owner) : owner ≠ 0 ∧ t.owners id = owner := by
  obtain ⟨_, hne, hset⟩ := bind_eq_ok.mp h
  obtain rfl := Except.ok.inj hset
  exact ⟨require_eq_ok.mp hne, rfl⟩

/-- The next token goes to the recipient. -/
def giveNext (s : GasNFT) (recipient : Address) : GasNFT :=
  { s with
    token := { s.token with
      balances := Function.update s.token.balances recipient (s.token.balances recipient + 1)
      owners := Function.update s.token.owners (s.tokenIds + 1) recipient }
    tokenIds := s.tokenIds + 1 }

/-- `mintNFT` asks that the recipient is an address with no token, and that the id is free. -/
theorem mintNFT_eq_ok_iff {recipient : Address} {id : Word} :
    s.mintNFT recipient = .ok (id, s') ↔
      recipient ≠ 0 ∧ s.token.balances recipient = 0 ∧ s.token.owners (s.tokenIds + 1) = 0 ∧
        id = s.tokenIds + 1 ∧ s' = s.giveNext recipient := by
  unfold mintNFT ERC721.balanceOf ERC721.mint
  simp only [bind_eq_ok, require_eq_ok]
  constructor
  · rintro ⟨_, ⟨_, hrecipient, hbalance⟩, _, hzero, t, ⟨_, -, _, hfree, ht⟩, hset⟩
    obtain ⟨rfl, rfl⟩ := Prod.mk.inj (Except.ok.inj hset)
    obtain rfl := Except.ok.inj hbalance
    rw [← Except.ok.inj ht]
    exact ⟨hrecipient, hzero, hfree, rfl, rfl⟩
  · rintro ⟨hrecipient, hzero, hfree, rfl, rfl⟩
    exact ⟨_, ⟨(), hrecipient, rfl⟩, (), hzero, _, ⟨(), hrecipient, (), hfree, rfl⟩, rfl⟩

theorem effect_of_transferFrom {sender src dst : Address} {id : Word}
    (h : s.onToken (·.transferFrom sender src dst id) = .ok s') : Effect s s' := by
  obtain ⟨t, ht, rfl⟩ := onToken_eq_ok h
  unfold ERC721.transferFrom ERC721.transferToken at ht
  simp only [bind_eq_ok, require_eq_ok] at ht
  obtain ⟨_, -, _, -, owner, howner, _, rfl, _, hdst, ht⟩ := ht
  obtain ⟨hne, howner⟩ := ownerOf_eq_ok howner
  rw [← Except.ok.inj ht]
  exact .transfer owner dst id hne hdst howner rfl rfl rfl

theorem effect_of_run {call : Call} (h : call.run s = .ok s') : Effect s s' := by
  cases call with
  | mintNFT sender recipient =>
    obtain ⟨⟨id, minted⟩, hmint, hset⟩ := bind_eq_ok.mp h
    obtain rfl := Except.ok.inj hset
    obtain ⟨hrecipient, -, hfree, -, rfl⟩ := mintNFT_eq_ok_iff.mp hmint
    exact .mint recipient hrecipient hfree rfl rfl rfl
  | transferFrom sender src dst id => exact effect_of_transferFrom h
  | approve sender recipient id =>
    rw [Call.run] at h
    obtain ⟨t, ht, rfl⟩ := onToken_eq_ok h
    unfold ERC721.approve at ht
    simp only [bind_eq_ok] at ht
    obtain ⟨_, -, _, -, _, -, ht⟩ := ht
    rw [← Except.ok.inj ht]
    exact .other rfl rfl rfl
  | setApprovalForAll sender operator approved =>
    rw [Call.run] at h
    obtain ⟨t, ht, rfl⟩ := onToken_eq_ok h
    obtain ⟨_, -, ht⟩ := bind_eq_ok.mp ht
    rw [← Except.ok.inj ht]
    exact .other rfl rfl rfl
  | setMintPrice sender price =>
    obtain ⟨_, -, hset⟩ := bind_eq_ok.mp h
    rw [← Except.ok.inj hset]
    exact .other rfl rfl rfl
  | transferOwnership sender newOwner =>
    obtain ⟨-, -, rfl⟩ := Ownable.transferOwnership_eq_ok.mp h
    exact .other rfl rfl rfl
  | renounceOwnership sender =>
    obtain ⟨-, rfl⟩ := Ownable.renounceOwnership_eq_ok.mp h
    exact .other rfl rfl rfl

/-- The counter goes to the id that was minted. -/
theorem Minted.step (h : Minted s) (hroom : s.tokenIds.toNat + 1 < 2 ^ 256)
    (heffect : Effect s s') : Minted s' := by
  intro i
  cases heffect with
  | mint recipient hrecipient hfree howners hbalances hids =>
    have hnext := Word.toNat_add_one hroom
    rw [howners, hids, hnext]
    by_cases hi : i = s.tokenIds + 1
    · subst hi
      rw [Function.update_self, hnext]
      exact ⟨fun _ => ⟨Nat.succ_pos _, le_rfl⟩, fun _ => hrecipient⟩
    · have hne : i.toNat ≠ s.tokenIds.toNat + 1 := fun heq =>
        hi (BitVec.eq_of_toNat_eq (heq.trans hnext.symm))
      rw [Function.update_of_ne hi, h i]
      omega
  | transfer src dst id hsrc hdst howner howners hbalances hids =>
    rw [howners, hids]
    by_cases hi : i = id
    · subst hi
      rw [Function.update_self, ← h i, howner]
      exact ⟨fun _ => hsrc, fun _ => hdst⟩
    · rw [Function.update_of_ne hi]
      exact h i
  | other howners hbalances hids =>
    rw [howners, hids]
    exact h i

/-- Balances are written without a check, but never overflow. -/
theorem Sound.step (h : Sound s) (hroom : s.tokenIds.toNat + 1 < 2 ^ 256)
    (heffect : Effect s s') : Sound s' := by
  have hminted := h.minted.step hroom heffect
  refine ⟨hminted, fun a ha => ?_⟩
  have hcount := h.counted a ha
  have hfits := (hminted.ncard_le ha).trans_lt s'.tokenIds.isLt
  unfold tokensOf at hcount hfits ⊢
  cases heffect with
  | mint recipient hrecipient hfree howners hbalances hids =>
    have hnobody : s.token.owners (s.tokenIds + 1) ≠ a := by
      rw [hfree]
      exact ha.symm
    rw [howners] at hfits ⊢
    rw [hbalances]
    by_cases hrec : a = recipient
    · subst hrec
      rw [ncard_update_self hnobody] at hfits ⊢
      rw [Function.update_self, Word.toNat_add_one (by omega), hcount]
    · rw [Function.update_of_ne hrec, setOf_update_of_ne hnobody (Ne.symm hrec)]
      exact hcount
  | transfer src dst id hsrc hdst howner howners hbalances hids =>
    rw [howners] at hfits ⊢
    rw [hbalances]
    by_cases hself : src = dst
    · -- the sender is the recipient, and what is taken comes back
      subst hself
      simp only
      rw [Function.update_self, Function.update_idem, BitVec.sub_add_cancel,
        Function.update_eq_self, ← howner, Function.update_eq_self]
      exact hcount
    by_cases hdsta : a = dst
    · subst hdsta
      have hother : s.token.owners id ≠ a := by
        rw [howner]
        exact hself
      rw [ncard_update_self hother] at hfits ⊢
      simp only
      rw [Function.update_self, Function.update_of_ne (Ne.symm hself),
        Word.toNat_add_one (by omega), hcount]
    simp only
    rw [Function.update_of_ne hdsta]
    by_cases hsrca : a = src
    · subst hsrca
      have hless := ncard_update_of_eq howner (Ne.symm hdsta)
      rw [Function.update_self, Word.toNat_sub_one (by omega)]
      omega
    · have hother : s.token.owners id ≠ a := by
        rw [howner]
        exact Ne.symm hsrca
      rw [Function.update_of_ne hsrca, setOf_update_of_ne hother (Ne.symm hdsta)]
      exact hcount
  | other howners hbalances hids =>
    rw [howners, hbalances]
    exact hcount

/-! ### Runs -/

theorem sound_deploy (deployer : Address) : Sound (deploy deployer) := by
  refine ⟨fun id => ?_, fun a ha => ?_⟩
  · constructor
    · intro h
      exact absurd rfl h
    · rintro ⟨hpos, hle⟩
      exact absurd hle (by show ¬id.toNat ≤ 0; omega)
  · have hempty : (deploy deployer).tokensOf a = ∅ := by
      ext id
      exact ⟨fun h => ha (show (0 : Address) = a from h).symm, fun h => h.elim⟩
    rw [hempty, Set.ncard_empty]
    rfl

/-- A call uses up at most one id. -/
theorem tokenIds_le_of_effect (hroom : s.tokenIds.toNat + 1 < 2 ^ 256) (heffect : Effect s s') :
    s'.tokenIds.toNat ≤ s.tokenIds.toNat + 1 := by
  cases heffect with
  | mint recipient hrecipient hfree howners hbalances hids =>
    rw [hids, Word.toNat_add_one hroom]
  | transfer src dst id hsrc hdst howner howners hbalances hids =>
    rw [hids]
    exact Nat.le_succ _
  | other howners hbalances hids =>
    rw [hids]
    exact Nat.le_succ _

/-- Up to `2 ^ 256` calls the collection is sound, and has no more tokens than there were calls. -/
def Within (n : ℕ) (s : GasNFT) : Prop := n < 2 ^ 256 → Sound s ∧ s.tokenIds.toNat ≤ n

theorem within_apply {n : ℕ} {call : Call} (h : Within n s) : Within (n + 1) (s.apply call) := by
  intro hn
  obtain ⟨hsound, hle⟩ := h (by omega)
  unfold apply
  cases hrun : call.run s with
  | error e => exact ⟨hsound, hle.trans (Nat.le_succ n)⟩
  | ok s' =>
    have heffect := effect_of_run hrun
    have hroom : s.tokenIds.toNat + 1 < 2 ^ 256 := by omega
    exact ⟨hsound.step hroom heffect, (tokenIds_le_of_effect hroom heffect).trans (by omega)⟩

theorem within_stateAfter (deployer : Address) (events : List (JournalEvent Call)) :
    Within events.length (stateAfter (deploy deployer) events) := by
  refine (Journal.all_run_budget (P := Within) (fun n s h hn => ?_)
    (fun n s call h => within_apply h) ?_).1
  · obtain ⟨hsound, hle⟩ := h (by omega)
    exact ⟨hsound, hle.trans (Nat.le_succ n)⟩
  · exact ⟨fun _ => ⟨sound_deploy deployer, Nat.zero_le _⟩, fun s hs => by cases hs⟩

/-! ### Minting for anyone -/

/-- The next id is free as long as the counter has not gone round. -/
theorem Minted.next_free (h : Minted s) (hroom : s.tokenIds.toNat + 1 < 2 ^ 256) :
    s.token.owners (s.tokenIds + 1) = 0 := by
  by_contra howned
  have hle := ((h _).mp howned).2
  rw [Word.toNat_add_one hroom] at hle
  omega

/-- `mintNFT` succeeds for everyone who holds no token. -/
theorem mintNFT_isOk_iff (h : Minted s) (hroom : s.tokenIds.toNat + 1 < 2 ^ 256) {user : Address}
    (huser : user ≠ 0) :
    (∃ id s', s.mintNFT user = .ok (id, s')) ↔ s.token.balances user = 0 := by
  simp only [mintNFT_eq_ok_iff]
  constructor
  · rintro ⟨id, s', -, hzero, -⟩
    exact hzero
  · intro hzero
    exact ⟨_, _, huser, hzero, h.next_free hroom, rfl, rfl⟩

/-- Whether `mintNFT` returns or reverts, the recipient holds a token afterwards. -/
theorem holder_of_mintNFT (h : Minted s) (hroom : s.tokenIds.toNat + 1 < 2 ^ 256)
    (sender : Address) {user : Address} (huser : user ≠ 0) :
    0 < ((s.apply (.mintNFT sender user)).token.balances user).toNat := by
  unfold apply
  by_cases hzero : s.token.balances user = 0
  · have hmint := mintNFT_eq_ok_iff.mpr ⟨huser, hzero, h.next_free hroom, rfl, rfl⟩
    have hrun : (Call.mintNFT sender user).run s = .ok (s.giveNext user) :=
      bind_eq_ok.mpr ⟨_, hmint, rfl⟩
    simp only [hrun, giveNext]
    rw [Function.update_self, hzero]
    decide
  · cases hrun : (Call.mintNFT sender user).run s with
    | error e => exact Nat.pos_of_ne_zero (mt Word.toNat_eq_zero.mp hzero)
    | ok s' =>
      obtain ⟨⟨id, minted⟩, hmint, -⟩ := bind_eq_ok.mp hrun
      exact absurd (mintNFT_eq_ok_iff.mp hmint).2.1 hzero

end GasNFT

namespace NFTPaymaster

open Paymaster

/-- The limits of the collection leave room for an amount. -/
structure HasRoom (gasLogic : NFTGasLogic) (nft user : Address) (gasAmount : Word) : Prop where
  count : (gasLogic.sponsoredTransactionsByNFT nft user).count.toNat
    < (gasLogic.transactionLimitByNFT nft).toNat
  amount : (gasLogic.sponsoredTransactionsByNFT nft user).totalAmount.toNat + gasAmount.toNat
    ≤ (gasLogic.gasValueLimitByNFT nft).toNat

/-- For a holder, the validation is the one of `EnclaveVerifyingTokenPaymaster` within the
limits. -/
theorem validateNFT_of_holder {site : Site} {balanceOf : Collections} {gasLogic : NFTGasLogic}
    {nft : Address} {userOp : UserOperation} {requiredPreFund balance : Word}
    {senderNonce : Nonces} (hbalance : balanceOf nft userOp.sender = .ok balance)
    (hpos : 0 < balance.toNat) (result : (Bytes × Word) × Nonces) :
    validateNFT site (view balanceOf gasLogic nft) userOp requiredPreFund senderNonce
        = .ok result ↔
      HasRoom gasLogic nft userOp.sender requiredPreFund ∧
        validateToken site userOp senderNonce = .ok result := by
  have heligible : gasLogic.isEligible balanceOf userOp.sender nft requiredPreFund = .ok true ↔
      HasRoom gasLogic nft userOp.sender requiredPreFund := by
    rw [NFTGasLogic.isEligible_eq_true_iff]
    exact ⟨fun h => ⟨h.count, h.amount⟩, fun h => ⟨⟨balance, hbalance, hpos⟩, h.count, h.amount⟩⟩
  rw [← heligible]
  unfold validateNFT
  simp only [bind_eq_ok, require_eq_ok, view]
  constructor
  · rintro ⟨_, -, _, -, _, hasked, _, rfl, hvalid⟩
    exact ⟨hasked, hvalid⟩
  · rintro ⟨hasked, hvalid⟩
    exact ⟨balance, hbalance, (), hpos, true, hasked, (), rfl, hvalid⟩

/-- **The collection keeps nobody out**: after any calls of `GasNFT` by anyone, fewer than there are
ids, the ids up to the counter are in use and the balances count them.  A call of `mintNFT` for a
sender, by anyone, returns if and only if the sender holds no token; after it
`EnclaveVerifyingNFTPaymaster` accepts an operation of that sender if and only if the limits leave
room for it and the validation without a collection accepts it, with the same answer. -/
theorem anyone_sponsored (deployer : Address) {events : List (JournalEvent GasNFT.Call)}
    (hevents : events.length + 1 < 2 ^ 256) :
    GasNFT.Sound (GasNFT.stateAfter (GasNFT.deploy deployer) events) ∧
    ∀ (caller : Address) (userOp : UserOperation), userOp.sender ≠ 0 →
      ((∃ id s', (GasNFT.stateAfter (GasNFT.deploy deployer) events).mintNFT userOp.sender
          = .ok (id, s')) ↔
        (GasNFT.stateAfter (GasNFT.deploy deployer) events).token.balances userOp.sender = 0) ∧
      ∀ (site : Site) (balanceOf : Collections) (gasLogic : NFTGasLogic) (nft : Address),
        balanceOf nft = ((GasNFT.stateAfter (GasNFT.deploy deployer) events).apply
          (.mintNFT caller userOp.sender)).token.balanceOf →
        ∀ (requiredPreFund : Word) (senderNonce : Nonces) (result : (Bytes × Word) × Nonces),
          validateNFT site (view balanceOf gasLogic nft) userOp requiredPreFund senderNonce
              = .ok result ↔
            HasRoom gasLogic nft userOp.sender requiredPreFund ∧
              validateToken site userOp senderNonce = .ok result := by
  obtain ⟨hsound, hle⟩ := GasNFT.within_stateAfter deployer events (by omega)
  -- every mint takes a call, so that the counter does not wrap around
  have hroom : (GasNFT.stateAfter (GasNFT.deploy deployer) events).tokenIds.toNat + 1
      < 2 ^ 256 := by
    omega
  refine ⟨hsound, fun caller userOp hsender =>
    ⟨GasNFT.mintNFT_isOk_iff hsound.minted hroom hsender, ?_⟩⟩
  intro site balanceOf gasLogic nft hcollection requiredPreFund senderNonce result
  refine validateNFT_of_holder ?_ (GasNFT.holder_of_mintNFT hsound.minted hroom caller hsender)
    result
  rw [hcollection]
  exact bind_eq_ok.mpr ⟨(), require_eq_ok.mpr hsender, rfl⟩

/-- A token for 6 that moves on to 4, and another one for 6 that is rolled back. -/
def mintEvents : List (JournalEvent GasNFT.Call) :=
  [.call (.mintNFT 7 6), .call (.transferFrom 6 6 4 1), .openFrame, .call (.mintNFT 7 6), .rollback]

/-- Ten operations for at most 1000, for the holders of 12. -/
def tenOperations : NFTGasLogic := NFTGasLogic.deploy.addOrUpdateNFTLimits 12 10 1000

/-- Once 7 has minted for its sender, the sample operation is accepted. -/
theorem anyone_sponsored_sampleOp : ∃ result, validateNFT sampleSite
    (view (fun _ => ((GasNFT.stateAfter (GasNFT.deploy 8) mintEvents).apply
      (.mintNFT 7 sampleOp.sender)).token.balanceOf) tenOperations 12)
    sampleOp 100 (fun _ => 0) = .ok result := by
  have hvalid : ∃ result, validateToken sampleSite sampleOp (fun _ => 0) = .ok result := by
    unfold validateToken validateWith
    rw [parse_sampleOp, ok_bind]
    exact ⟨_, checkApproval_of_recover _ 100 50 (by simp) bumpNonce_sample recover_sample⟩
  obtain ⟨result, hvalid⟩ := hvalid
  have hanyone := ((@anyone_sponsored 8 mintEvents (by decide)).2 7 sampleOp
    (by decide)).2
  exact ⟨result, (hanyone sampleSite _ tenOperations 12 rfl 100 (fun _ => 0) result).mpr
    ⟨⟨by decide, by decide⟩, hvalid⟩⟩

end NFTPaymaster

end Enclave
