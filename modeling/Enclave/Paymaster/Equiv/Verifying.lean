import Enclave.Evm.Journal
import Enclave.Paymaster.Equiv.Approval
import Enclave.Paymaster.Equiv.Layout
import Mathlib.Data.Set.Lattice

/-!
# One signature pays for one operation

Runs of `validatePaymasterUserOp` on the three verifying paymasters, with any operations in any
order, inside frames that may be rolled back.  A ledger keeps the approvals that have been used by
validations which still stand.

`sponsorship_sound`: a validation that succeeds was signed for exactly that operation, nonce and
window, and no two validations that stand use one hash.
-/

namespace Enclave.Paymaster

/-! ### One validation -/

theorem bumpNonce_eq_ok {senderNonce senderNonce' : Nonces} {sender : Address} :
    bumpNonce senderNonce sender = .ok senderNonce' ↔
      (senderNonce sender).toNat + 1 < 2 ^ 256 ∧
        senderNonce' = Function.update senderNonce sender (senderNonce sender + 1) := by
  unfold bumpNonce checkedIncr
  split_ifs with h
  · rw [ok_bind]
    simp only [h, true_and]
    exact ⟨fun heq => (Except.ok.inj heq).symm, fun heq => by rw [heq]⟩
  · rw [error_bind]
    exact ⟨nofun, fun hboth => absurd hboth.1 h⟩

/-- What a check of an approval that does not revert has done. -/
theorem checkApproval_eq_ok {site : Site} {hash : Word} {sender : Address}
    {signature context context' : Bytes} {validUntil validAfter : Uint48}
    {senderNonce senderNonce' : Nonces} {validationData : Word}
    (h : checkApproval site hash sender signature context validUntil validAfter senderNonce
      = .ok ((context', validationData), senderNonce')) :
    bumpNonce senderNonce sender = .ok senderNonce' ∧ context' = context ∧
      (authorizer validationData = 0 → ECDSA.recover site.ecrecover
        (ECDSA.toEthSignedMessageHash hash) signature = .ok site.verifyingSigner) := by
  unfold checkApproval at h
  simp only [bind_eq_ok] at h
  obtain ⟨-, -, next, hbump, signer, hrecover, hanswer⟩ := h
  split_ifs at hanswer with hsigner
  · -- the answer says that the signature failed
    obtain ⟨⟨rfl, rfl⟩, rfl⟩ : (context = context' ∧
        packValidationData true validUntil validAfter = validationData) ∧ next = senderNonce' := by
      simpa using hanswer
    refine ⟨hbump, rfl, fun hzero => ?_⟩
    rw [authorizer_packValidationData] at hzero
    exact absurd hzero (by decide)
  · obtain ⟨⟨rfl, rfl⟩, rfl⟩ : (context = context' ∧
        packValidationData false validUntil validAfter = validationData) ∧ next = senderNonce' := by
      simpa using hanswer
    refine ⟨hbump, rfl, fun _ => ?_⟩
    rw [hrecover, not_not.mp hsigner]

/-- A signature of the signer is accepted. -/
theorem checkApproval_of_recover {site : Site} {hash : Word} {sender : Address}
    {signature : Bytes} (context : Bytes) (validUntil validAfter : Uint48)
    {senderNonce senderNonce' : Nonces} (hlen : signature.length = 65)
    (hbump : bumpNonce senderNonce sender = .ok senderNonce')
    (hrecover : ECDSA.recover site.ecrecover (ECDSA.toEthSignedMessageHash hash) signature
      = .ok site.verifyingSigner) :
    checkApproval site hash sender signature context validUntil validAfter senderNonce
      = .ok ((context, packValidationData false validUntil validAfter), senderNonce') := by
  unfold checkApproval
  rw [require_true (Or.inr hlen), ok_bind]
  simp only [hbump, ok_bind, hrecover]
  rw [if_neg (not_not.mpr rfl)]

/-- What a validation does that does not revert: it parses the window and the signature, it uses up
the nonce, and it reports success only if the signer has signed the approval. -/
def Outcome (site : Site) (userOp : UserOperation) (senderNonce senderNonce' : Nonces)
    (validationData : Word) : Prop :=
  ∃ validUntil validAfter signature,
    parsePaymasterAndData userOp.paymasterAndData = .ok (validUntil, validAfter, signature) ∧
    bumpNonce senderNonce userOp.sender = .ok senderNonce' ∧
    (authorizer validationData = 0 → ECDSA.recover site.ecrecover (ECDSA.toEthSignedMessageHash
      (approvalOf site senderNonce userOp validUntil validAfter).hash) signature
        = .ok site.verifyingSigner)

theorem outcome_of_validateWith {site : Site} {userOp : UserOperation}
    {senderNonce senderNonce' : Nonces} {context₀ context : Bytes} {validationData : Word}
    (h : validateWith site context₀ userOp senderNonce
      = .ok ((context, validationData), senderNonce')) :
    Outcome site userOp senderNonce senderNonce' validationData := by
  unfold validateWith at h
  obtain ⟨⟨validUntil, validAfter, signature⟩, hparse, hcheck⟩ := bind_eq_ok.mp h
  obtain ⟨hbump, -, hrecover⟩ := checkApproval_eq_ok hcheck
  rw [getHash_eq] at hrecover
  exact ⟨validUntil, validAfter, signature, hparse, hbump, hrecover⟩

/-- The three paymasters all end in the same check. -/
theorem outcome_of_validatePaymasterUserOp {kind : Kind} {site : Site} {a : Attempt}
    {senderNonce senderNonce' : Nonces} {context : Bytes} {validationData : Word}
    (h : validatePaymasterUserOp kind site a senderNonce
      = .ok ((context, validationData), senderNonce')) :
    Outcome site a.userOp senderNonce senderNonce' validationData := by
  unfold validatePaymasterUserOp at h
  obtain ⟨-, -, h⟩ := bind_eq_ok.mp h
  cases kind with
  | verifying => exact outcome_of_validateWith h
  | token => exact outcome_of_validateWith h
  | nft =>
    unfold validateNFT at h
    simp only [bind_eq_ok] at h
    obtain ⟨-, -, -, -, -, -, -, -, h⟩ := h
    exact outcome_of_validateWith h

/-! ### Runs -/

/-- The nonces, and the approvals used by successful validations that have not been rolled back. -/
structure Ledger where
  senderNonce : Nonces
  used : List Approval

/-- The approval that an attempt looks for, if its window can be read. -/
def Attempt.approval (site : Site) (senderNonce : Nonces) (a : Attempt) : Option Approval :=
  match parsePaymasterAndData a.userOp.paymasterAndData with
  | .ok (validUntil, validAfter, _) =>
    some (approvalOf site senderNonce a.userOp validUntil validAfter)
  | .error _ => none

theorem Attempt.approval_of_parse {site : Site} {senderNonce : Nonces} {a : Attempt}
    {validUntil validAfter : Uint48} {signature : Bytes}
    (h : parsePaymasterAndData a.userOp.paymasterAndData
      = .ok (validUntil, validAfter, signature)) :
    a.approval site senderNonce
      = some (approvalOf site senderNonce a.userOp validUntil validAfter) := by
  simp only [Attempt.approval, h]

/-- The ledger after an attempt, which a revert leaves as it was. -/
def Ledger.apply (kind : Kind) (site : Site) (l : Ledger) (a : Attempt) : Ledger :=
  match validatePaymasterUserOp kind site a l.senderNonce with
  | .error _ => l
  | .ok ((_, validationData), senderNonce) =>
    ⟨senderNonce, if authorizer validationData = 0
      then (a.approval site l.senderNonce).toList ++ l.used else l.used⟩

/-- The ledger after a run that starts with the given nonces. -/
def ledgerAfter (kind : Kind) (site : Site) (senderNonce : Nonces)
    (events : List (JournalEvent Attempt)) : Ledger :=
  (Journal.run (Ledger.apply kind site) (.start ⟨senderNonce, []⟩) events).state

/-- The approvals that the attempts of a run look for. -/
def attempted (kind : Kind) (site : Site) (senderNonce : Nonces)
    (events : List (JournalEvent Attempt)) : Set Approval :=
  {b | ∃ before a, before ++ [.call a] <+: events ∧
    a.approval site (ledgerAfter kind site senderNonce before).senderNonce = some b}

/-- The digests that the attempts of a run have checked, with the signatures they came with. -/
def presented (kind : Kind) (site : Site) (senderNonce : Nonces)
    (events : List (JournalEvent Attempt)) : Set (Word × Bytes) :=
  {p | ∃ before a validUntil validAfter, before ++ [.call a] <+: events ∧
    parsePaymasterAndData a.userOp.paymasterAndData = .ok (validUntil, validAfter, p.2) ∧
    p.1 = ECDSA.toEthSignedMessageHash (approvalOf site
      (ledgerAfter kind site senderNonce before).senderNonce a.userOp validUntil validAfter).hash}

/-- The strings hashed for a set of approvals. -/
def preimagesOf (approvals : Set Approval) : Set Bytes := ⋃ a ∈ approvals, a.preimages

theorem injOn_pair {approvals : Set Approval}
    (hcoll : Set.InjOn keccak256 (preimagesOf approvals)) {a b : Approval} (ha : a ∈ approvals)
    (hb : b ∈ approvals) : Set.InjOn keccak256 (a.preimages ∪ b.preimages) :=
  hcoll.mono (Set.union_subset (Set.subset_biUnion_of_mem ha) (Set.subset_biUnion_of_mem hb))

/-- The used approvals have different hashes, each is of an attempt of the run, and each has a nonce
that its sender has left behind. -/
structure Ledger.Sound (approvals : Set Approval) (l : Ledger) : Prop where
  nodup : (l.used.map Approval.hash).Nodup
  past : ∀ b ∈ l.used, b ∈ approvals ∧
    b.senderNonce.toNat < (l.senderNonce b.userOp.sender).toNat

theorem toNat_bump {senderNonce senderNonce' : Nonces} {sender : Address}
    (h : bumpNonce senderNonce sender = .ok senderNonce') :
    (senderNonce' sender).toNat = (senderNonce sender).toNat + 1 ∧
      ∀ a, (senderNonce a).toNat ≤ (senderNonce' a).toNat := by
  obtain ⟨hlt, rfl⟩ := bumpNonce_eq_ok.mp h
  have hnext : (senderNonce sender + 1).toNat = (senderNonce sender).toNat + 1 := by
    rw [BitVec.toNat_add]
    exact Nat.mod_eq_of_lt hlt
  refine ⟨by rw [Function.update_self, hnext], fun a => ?_⟩
  by_cases ha : a = sender
  · rw [ha, Function.update_self, hnext]
    omega
  · rw [Function.update_of_ne ha]

/-- An attempt keeps the ledger sound. -/
theorem sound_apply {kind : Kind} {site : Site} {approvals : Set Approval} {l : Ledger}
    {a : Attempt} (hcoll : Set.InjOn keccak256 (preimagesOf approvals))
    (hattempt : ∀ b, a.approval site l.senderNonce = some b → b ∈ approvals)
    (hl : l.Sound approvals) : (l.apply kind site a).Sound approvals := by
  unfold Ledger.apply
  split
  · exact hl
  · rename_i context validationData senderNonce hvalidate
    obtain ⟨validUntil, validAfter, signature, hparse, hbump, -⟩ :=
      outcome_of_validatePaymasterUserOp hvalidate
    obtain ⟨hnext, hmono⟩ := toNat_bump hbump
    have hpast : ∀ b ∈ l.used, b ∈ approvals ∧
        b.senderNonce.toNat < (senderNonce b.userOp.sender).toNat :=
      fun b hb => ⟨(hl.past b hb).1, (hl.past b hb).2.trans_le (hmono _)⟩
    split_ifs
    · have happroval : a.approval site l.senderNonce
          = some (approvalOf site l.senderNonce a.userOp validUntil validAfter) :=
        Attempt.approval_of_parse hparse
      have hmem := hattempt _ happroval
      rw [happroval]
      constructor
      · -- a used approval with the same hash would have the nonce that is only now used up
        refine List.nodup_cons.mpr ⟨fun hused => ?_, hl.nodup⟩
        obtain ⟨b, hb, hhash⟩ := List.mem_map.mp hused
        obtain ⟨hbmem, hblt⟩ := hl.past b hb
        have hcovers := Approval.covers_of_hash (injOn_pair hcoll hbmem hmem) hhash
        rw [hcovers.senderNonce, hcovers.userOp.sender] at hblt
        exact lt_irrefl _ hblt
      · intro b hb
        rcases List.mem_cons.mp hb with rfl | hb
        · refine ⟨hmem, ?_⟩
          show (l.senderNonce a.userOp.sender).toNat < (senderNonce a.userOp.sender).toNat
          omega
        · exact hpast b hb
    · exact ⟨hl.nodup, hpast⟩

/-- Every ledger of a run is sound. -/
theorem sound_ledgerAfter {kind : Kind} {site : Site} {senderNonce : Nonces}
    {events : List (JournalEvent Attempt)} {approvals : Set Approval}
    (hcoll : Set.InjOn keccak256 (preimagesOf approvals))
    (hattempted : attempted kind site senderNonce events ⊆ approvals) :
    (ledgerAfter kind site senderNonce events).Sound approvals := by
  have hstart : (Journal.start (⟨senderNonce, []⟩ : Ledger)).All (Ledger.Sound approvals) :=
    ⟨⟨List.nodup_nil, fun b hb => by cases hb⟩, fun s hs => by cases hs⟩
  refine (Journal.all_run hstart fun before a hprefix hsound => ?_).1
  refine sound_apply hcoll (fun b hb => ?_) hsound
  exact hattempted ⟨before, a, hprefix, hb⟩

/-- **Soundness of sponsorship**, for each of the three paymasters and every run: when the
signatures that are presented recover to the signer only for digests that it has signed, a
validation that succeeds uses an approval issued for exactly that operation, chain, paymaster, nonce
and window; and no hash is used by two validations that stand. -/
theorem sponsorship_sound (kind : Kind) (site : Site) (senderNonce : Nonces)
    (events : List (JournalEvent Attempt)) (issued : Set Approval)
    (hsigner : ∀ p ∈ presented kind site senderNonce events,
      ECDSA.recover site.ecrecover p.1 p.2 = .ok site.verifyingSigner →
      ∃ a ∈ issued, p.1 = ECDSA.toEthSignedMessageHash a.hash)
    (hcoll : Set.InjOn keccak256
      (preimagesOf (issued ∪ attempted kind site senderNonce events))) :
    (∀ before a context validationData senderNonce', before ++ [.call a] <+: events →
      validatePaymasterUserOp kind site a (ledgerAfter kind site senderNonce before).senderNonce
        = .ok ((context, validationData), senderNonce') → authorizer validationData = 0 →
      ∃ b, a.approval site (ledgerAfter kind site senderNonce before).senderNonce = some b ∧
        ∃ c ∈ issued, c.hash = b.hash ∧ c.Covers b) ∧
    ((ledgerAfter kind site senderNonce events).used.map Approval.hash).Nodup := by
  constructor
  · intro before a context validationData senderNonce' hprefix hvalidate hzero
    obtain ⟨validUntil, validAfter, signature, hparse, -, hrecover⟩ :=
      outcome_of_validatePaymasterUserOp hvalidate
    -- the pair was presented, so that the digest is one of those that were signed
    obtain ⟨c, hc, hdigest⟩ :=
      hsigner (_, signature) ⟨before, a, validUntil, validAfter, hprefix, hparse, rfl⟩
        (hrecover hzero)
    have happroval : a.approval site (ledgerAfter kind site senderNonce before).senderNonce
        = some (approvalOf site (ledgerAfter kind site senderNonce before).senderNonce a.userOp
            validUntil validAfter) :=
      Attempt.approval_of_parse hparse
    have hpair := injOn_pair hcoll (Or.inl hc) (Or.inr ⟨before, a, hprefix, happroval⟩)
    have hhash := Approval.hash_of_digest hpair hdigest.symm
    exact ⟨_, happroval, c, hc, hhash, Approval.covers_of_hash hpair hhash⟩
  · exact (sound_ledgerAfter hcoll Set.subset_union_right).nodup

/-! ### A signed operation -/

/-- A recovery that knows a list of signatures, all by one signer. -/
def knownSignatures (signer : Address) (known : List (Word × UInt8 × Word × Word)) :
    ECDSA.Ecrecover :=
  fun hash v r s => if (hash, v, r, s) ∈ known then signer else 0

/-- The address of the secp256k1 key one. -/
def keyOne : Address := 0x7e5f4552091a69125d5dfcb7b8c2659029395bdf

/-- A signature of `keyOne` over the digest below, as `v`, `r` and `s`. -/
def sampleDigest : Word := 0xc39c4719253bd1942e6031361c30a7e69db7da59edb2e31c786acca0291f4b11

def sampleR : Word := 0x79be667ef9dcbbac55a06295ce870b07029bfcdb2dce28d959f2815b16f81798

def sampleS : Word := 0x3d5aad981f188d40840093cbeab7b2eee5a4fa4e6c386bba128aef6e6fe12168

/-- A paymaster at address 9, with the entry point at 6. -/
def sampleSite : Site where
  this := 9
  chainid := 1
  entryPoint := 6
  verifyingSigner := keyOne
  ecrecover := knownSignatures keyOne [(sampleDigest, 27, sampleR, sampleS)]

/-- An operation of the account 5 that carries the signature, valid from 50 until 100. -/
def sampleOp : UserOperation where
  sender := 5
  nonce := 0
  initCode := []
  callData := []
  callGasLimit := 0
  verificationGasLimit := 0
  preVerificationGas := 0
  maxFeePerGas := 0
  maxPriorityFeePerGas := 0
  paymasterAndData := Address.toBytes 9 ++ abiEncode [uint48Value 100, uint48Value 50] ++
    sampleR.toBytes ++ sampleS.toBytes ++ [27]
  signature := []

def sampleAttempt : Attempt where
  sender := 6
  userOp := sampleOp
  requiredPreFund := 0
  view := ⟨0, fun _ => .ok 0, fun _ _ _ => .ok false⟩

/-- The approval that `keyOne` has signed. -/
def sampleApproval : Approval := approvalOf sampleSite (fun _ => 0) sampleOp 100 50

theorem hash_sampleApproval : sampleApproval.hash
    = 0x5ce4ec33309475dffb6008b75ebf5d9c2c26cbbedf072c2c1e63d52da5b92c6c := by
  decide +kernel

theorem digest_sampleApproval :
    ECDSA.toEthSignedMessageHash sampleApproval.hash = sampleDigest := by
  rw [hash_sampleApproval]
  decide +kernel

/-- Only the known digests are recovered. -/
theorem mem_of_recover {signer recovered : Address} {known : List (Word × UInt8 × Word × Word)}
    {digest : Word} {signature : Bytes}
    (h : ECDSA.recover (knownSignatures signer known) digest signature = .ok recovered) :
    ∃ v r s, (digest, v, r, s) ∈ known := by
  unfold ECDSA.recover ECDSA.recoverVRS knownSignatures at h
  by_contra hnone
  push Not at hnone
  simp only [hnone, if_false, if_true] at h
  split_ifs at h

/-- The strings hashed for the sample do not collide. -/
theorem injOn_sampleApproval : Set.InjOn keccak256 sampleApproval.preimages := by
  have hmessage : keccak256 sampleApproval.message
      = 0x5ce4ec33309475dffb6008b75ebf5d9c2c26cbbedf072c2c1e63d52da5b92c6c := hash_sampleApproval
  have heth : keccak256 (ECDSA.ethSignedMessage sampleApproval.hash) = sampleDigest :=
    digest_sampleApproval
  have hnil : keccak256 [] ≠ keccak256 sampleApproval.message := by
    rw [keccak256_nil, hmessage]
    decide
  have hnil' : keccak256 [] ≠ keccak256 (ECDSA.ethSignedMessage sampleApproval.hash) := by
    rw [keccak256_nil, heth]
    decide
  have hboth : keccak256 sampleApproval.message
      ≠ keccak256 (ECDSA.ethSignedMessage sampleApproval.hash) := by
    rw [hmessage, heth]
    decide
  have hset : sampleApproval.preimages
      = {[], sampleApproval.message, ECDSA.ethSignedMessage sampleApproval.hash} := by
    show ({[], []} ∪ {_, _} : Set Bytes) = _
    rw [Set.pair_eq_singleton, Set.singleton_union]
  rw [hset]
  rintro x (rfl | rfl | rfl) y (rfl | rfl | rfl) hxy
  · rfl
  · exact absurd hxy hnil
  · exact absurd hxy hnil'
  · exact absurd hxy.symm hnil
  · rfl
  · exact absurd hxy hboth
  · exact absurd hxy.symm hnil'
  · exact absurd hxy.symm hboth
  · rfl

theorem parse_sampleOp : parsePaymasterAndData sampleOp.paymasterAndData
    = .ok (100, 50, sampleR.toBytes ++ sampleS.toBytes ++ [27]) := by
  have hlayout : sampleOp.paymasterAndData = Address.toBytes 9 ++
      windowBytes 100 50 (sampleR.toBytes ++ sampleS.toBytes ++ [27]) := by
    simp only [sampleOp, windowBytes, List.append_assoc]
  rw [hlayout, parsePaymasterAndData_eq]
  exact parseWindow_windowBytes (Address.length_toBytes 9) 100 50 _

theorem approval_sampleAttempt :
    sampleAttempt.approval sampleSite (fun _ => 0) = some sampleApproval :=
  Attempt.approval_of_parse parse_sampleOp

/-- The run with this one attempt looks for this one approval. -/
theorem attempted_sample :
    attempted .verifying sampleSite (fun _ => 0) [.call sampleAttempt] ⊆ {sampleApproval} := by
  rintro b ⟨before, a, hprefix, hb⟩
  have hlen := hprefix.length_le
  rw [List.length_append, List.length_singleton, List.length_singleton] at hlen
  obtain rfl : before = [] := List.length_eq_zero_iff.mp (by omega)
  obtain rfl : a = sampleAttempt := by
    have hhead := (List.cons_prefix_cons.mp hprefix).1
    exact JournalEvent.call.inj hhead
  exact Option.some.inj (hb.symm.trans approval_sampleAttempt)

theorem recover_sample : ECDSA.recover sampleSite.ecrecover
    (ECDSA.toEthSignedMessageHash sampleApproval.hash)
    (sampleR.toBytes ++ sampleS.toBytes ++ [27]) = .ok keyOne := by
  rw [digest_sampleApproval]
  decide

theorem bumpNonce_sample : bumpNonce (fun _ => 0) 5
    = .ok (Function.update (fun _ => 0) 5 (0 + 1)) :=
  bumpNonce_eq_ok.mpr ⟨by decide, rfl⟩

/-- The validation of the sample succeeds. -/
theorem validate_sample : validatePaymasterUserOp .verifying sampleSite sampleAttempt (fun _ => 0)
    = .ok (([], packValidationData false 100 50),
        Function.update (fun _ => 0) sampleOp.sender (0 + 1)) := by
  have hentry : sampleAttempt.sender = sampleSite.entryPoint := rfl
  unfold validatePaymasterUserOp
  rw [require_true hentry, ok_bind]
  show validateWith sampleSite [] sampleOp (fun _ => 0) = _
  unfold validateWith
  rw [parse_sampleOp, ok_bind]
  exact checkApproval_of_recover [] 100 50 (by simp) bumpNonce_sample recover_sample

/-- The sample was issued for itself. -/
theorem sponsorship_sample : ∃ b,
    sampleAttempt.approval sampleSite (fun _ => 0) = some b ∧
      ∃ c ∈ ({sampleApproval} : Set Approval), c.hash = b.hash ∧ c.Covers b := by
  have hsigner : ∀ p ∈ presented .verifying sampleSite (fun _ => 0) [.call sampleAttempt],
      ECDSA.recover sampleSite.ecrecover p.1 p.2 = .ok sampleSite.verifyingSigner →
      ∃ a ∈ ({sampleApproval} : Set Approval), p.1 = ECDSA.toEthSignedMessageHash a.hash := by
    intro p _ hrecover
    obtain ⟨v, r, s, hmem⟩ := mem_of_recover hrecover
    refine ⟨sampleApproval, rfl, ?_⟩
    rw [digest_sampleApproval]
    exact congrArg Prod.fst (List.mem_singleton.mp hmem)
  have hcoll : Set.InjOn keccak256 (preimagesOf ({sampleApproval} ∪
      attempted .verifying sampleSite (fun _ => 0) [.call sampleAttempt])) := by
    rw [Set.union_eq_self_of_subset_right attempted_sample, preimagesOf, Set.biUnion_singleton]
    exact injOn_sampleApproval
  exact (sponsorship_sound .verifying sampleSite (fun _ => 0) [.call sampleAttempt]
    {sampleApproval} hsigner hcoll).1 [] sampleAttempt _ _ _ (List.prefix_refl _)
    validate_sample (authorizer_packValidationData false 100 50)

end Enclave.Paymaster
