import Enclave.Evm.Journal
import Enclave.Paymaster.Equiv.MultiToken
import Enclave.Paymaster.Fleet

/-!
# An approval is spent once, wherever it is presented

Runs of `validatePaymasterUserOp` on all paymasters of a signer, on all chains, in any order, inside
frames that may be rolled back.  `Book` keeps, for each paymaster, which validations stand.

`fleet_honours`: a nonce counts the standing validations of its sender; a signature is accepted by
exactly the paymaster it was made for, as long as its nonce is the current count; and no hash is
used twice, not even by two paymasters.
-/

namespace Enclave.Fleet

open Paymaster

/-! ### One validation -/

/-- What a contract asks for besides the approval. -/
def Contract.Ready (r : Request) : Contract → Prop
  | .single .nft =>
    (∃ balance, r.attempt.view.balanceOf r.attempt.userOp.sender = .ok balance ∧
      balance.toNat > 0) ∧
    r.attempt.view.isEligible r.attempt.userOp.sender r.attempt.view.nft r.attempt.requiredPreFund
      = .ok true
  | .single _ => True
  | .multiToken => ∃ token validUntil validAfter signature,
    MultiTokenPaymaster.parsePaymasterAndData r.attempt.userOp.paymasterAndData
      = .ok (token, validUntil, validAfter, signature) ∧
    r.settings.allowedPaymentTokens token = true

section Validation

variable {c : Contract} {site : Site} {r : Request} {senderNonce : Nonces}

/-- The validation does not revert, and reports success. -/
def Contract.Accepts (c : Contract) (site : Site) (r : Request) (senderNonce : Nonces) : Prop :=
  ∃ context validationData senderNonce',
    c.validate site r senderNonce = .ok ((context, validationData), senderNonce') ∧
      authorizer validationData = 0

/-- What is handed to `postOp`. -/
def Contract.context (userOp : UserOperation) : Contract → Bytes
  | .single .verifying => []
  | _ => abiEncode [addressValue userOp.sender]

/-- The part that the contracts share. -/
def Contract.check (c : Contract) (site : Site) (userOp : UserOperation) (senderNonce : Nonces) :
    Result ((Bytes × Word) × Nonces) := do
  let (validUntil, validAfter, signature) ← c.parse userOp.paymasterAndData
  checkApproval site (approvalOf site senderNonce userOp validUntil validAfter).hash userOp.sender
    signature (c.context userOp) validUntil validAfter senderNonce

/-- All four contracts come to the same check. -/
theorem validate_eq_ok {answer : (Bytes × Word) × Nonces} :
    c.validate site r senderNonce = .ok answer ↔
      r.attempt.sender = site.entryPoint ∧ c.Ready r ∧
        c.check site r.attempt.userOp senderNonce = .ok answer := by
  cases c with
  | single kind =>
    unfold Contract.validate validatePaymasterUserOp
    simp only [bind_eq_ok, require_eq_ok, exists_const]
    refine and_congr_right fun _ => ?_
    cases kind with
    | verifying => exact ⟨fun h => ⟨trivial, h⟩, fun h => h.2⟩
    | token => exact ⟨fun h => ⟨trivial, h⟩, fun h => h.2⟩
    | nft =>
      unfold validateNFT
      simp only [bind_eq_ok, require_eq_ok, exists_const, Contract.Ready]
      constructor
      · rintro ⟨balance, hbalance, hpos, eligible, heligible, rfl, hcheck⟩
        exact ⟨⟨⟨balance, hbalance, hpos⟩, heligible⟩, hcheck⟩
      · rintro ⟨⟨⟨balance, hbalance, hpos⟩, heligible⟩, hcheck⟩
        exact ⟨balance, hbalance, hpos, true, heligible, rfl, hcheck⟩
  | multiToken =>
    unfold Contract.validate MultiTokenPaymaster.validatePaymasterUserOp
      MultiTokenPaymaster.validateMultiToken Contract.check Contract.parse Contract.Ready
    simp only [bind_eq_ok, require_eq_ok, exists_const]
    constructor
    · rintro ⟨⟨answer', s⟩, ⟨hsender, ⟨token, validUntil, validAfter, signature⟩, hparse, hallowed,
        ⟨answer'', nonces⟩, hcheck, hset⟩, hanswer⟩
      obtain ⟨rfl, rfl⟩ := Prod.mk.inj (Except.ok.inj hset)
      obtain rfl := Except.ok.inj hanswer
      exact ⟨hsender, ⟨token, validUntil, validAfter, signature, hparse, hallowed⟩,
        (validUntil, validAfter, signature), ⟨_, hparse, rfl⟩, hcheck⟩
    · rintro ⟨hsender, ⟨token, validUntil, validAfter, signature, hparse, hallowed⟩,
        ⟨validUntil', validAfter', signature'⟩, ⟨p, hparse', hp⟩, hcheck⟩
      obtain rfl := Except.ok.inj (hparse.symm.trans hparse')
      obtain ⟨rfl, rfl, rfl⟩ : validUntil = validUntil' ∧ validAfter = validAfter' ∧
          signature = signature' := by
        simpa using hp
      exact ⟨(answer.1, { r.settings with senderNonce := answer.2 }), ⟨hsender, _, hparse, hallowed,
        answer, hcheck, rfl⟩, rfl⟩

/-- What a validation does that does not revert: it uses up the nonce, and it reports success only
if the signer has signed the approval. -/
theorem outcome_of_validate {context : Bytes} {validationData : Word} {senderNonce' : Nonces}
    (h : c.validate site r senderNonce = .ok ((context, validationData), senderNonce')) :
    ∃ validUntil validAfter signature,
      c.parse r.attempt.userOp.paymasterAndData = .ok (validUntil, validAfter, signature) ∧
      bumpNonce senderNonce r.attempt.userOp.sender = .ok senderNonce' ∧
      (authorizer validationData = 0 → ECDSA.recover site.ecrecover (ECDSA.toEthSignedMessageHash
        (approvalOf site senderNonce r.attempt.userOp validUntil validAfter).hash) signature
          = .ok site.verifyingSigner) := by
  obtain ⟨-, -, hcheck⟩ := validate_eq_ok.mp h
  obtain ⟨⟨validUntil, validAfter, signature⟩, hparse, hcheck⟩ := bind_eq_ok.mp hcheck
  obtain ⟨hbump, -, hrecover⟩ := checkApproval_eq_ok hcheck
  exact ⟨validUntil, validAfter, signature, hparse, hbump, hrecover⟩

/-- When an operation is accepted. -/
theorem accepts_iff {validUntil validAfter : Uint48} {signature : Bytes}
    (hparse : c.parse r.attempt.userOp.paymasterAndData = .ok (validUntil, validAfter, signature)) :
    c.Accepts site r senderNonce ↔
      r.attempt.sender = site.entryPoint ∧ c.Ready r ∧
      (senderNonce r.attempt.userOp.sender).toNat + 1 < 2 ^ 256 ∧
      ECDSA.recover site.ecrecover (ECDSA.toEthSignedMessageHash
        (approvalOf site senderNonce r.attempt.userOp validUntil validAfter).hash) signature
          = .ok site.verifyingSigner := by
  constructor
  · rintro ⟨context, validationData, senderNonce', hvalidate, hzero⟩
    obtain ⟨hsender, hready, -⟩ := validate_eq_ok.mp hvalidate
    obtain ⟨_, _, _, hparse', hbump, hrecover⟩ := outcome_of_validate hvalidate
    rw [hparse] at hparse'
    cases hparse'
    exact ⟨hsender, hready, (bumpNonce_eq_ok.mp hbump).1, hrecover hzero⟩
  · rintro ⟨hsender, hready, hlt, hrecover⟩
    -- the recovery has accepted the length
    have hlen : signature.length = 65 := by
      by_contra hne
      rw [ECDSA.recover_of_length_ne hne] at hrecover
      cases hrecover
    have hcheck : c.check site r.attempt.userOp senderNonce = checkApproval site
        (approvalOf site senderNonce r.attempt.userOp validUntil validAfter).hash
        r.attempt.userOp.sender signature (c.context r.attempt.userOp) validUntil validAfter
        senderNonce := by
      rw [Contract.check, hparse, ok_bind]
    rw [checkApproval_of_recover _ _ _ hlen (bumpNonce_eq_ok.mpr ⟨hlt, rfl⟩) hrecover] at hcheck
    exact ⟨_, _, _, validate_eq_ok.mpr ⟨hsender, hready, hcheck⟩,
      authorizer_packValidationData false validUntil validAfter⟩

end Validation

/-! ### Runs -/

/-- The approval that a validation looks for, if its window can be read. -/
def Contract.approval (c : Contract) (site : Site) (senderNonce : Nonces) (r : Request) :
    Option Approval :=
  match c.parse r.attempt.userOp.paymasterAndData with
  | .ok (validUntil, validAfter, _) =>
    some (approvalOf site senderNonce r.attempt.userOp validUntil validAfter)
  | .error _ => none

theorem Contract.approval_of_parse {c : Contract} {r : Request} {validUntil validAfter : Uint48}
    {signature : Bytes} (site : Site) (senderNonce : Nonces)
    (h : c.parse r.attempt.userOp.paymasterAndData = .ok (validUntil, validAfter, signature)) :
    c.approval site senderNonce r
      = some (approvalOf site senderNonce r.attempt.userOp validUntil validAfter) := by
  simp only [Contract.approval, h]

/-- The nonces of a paymaster, the senders of the validations that have not been rolled back, and
the approvals that the successful ones among them have used. -/
structure Book where
  senderNonce : Nonces
  validated : List Address
  used : List Approval

/-- What the constructor leaves. -/
def Book.empty : Book := ⟨fun _ => 0, [], []⟩

/-- The book after a validation, which a revert leaves as it was. -/
def Book.record (c : Contract) (site : Site) (r : Request) (b : Book) : Book :=
  match c.validate site r b.senderNonce with
  | .error _ => b
  | .ok ((_, validationData), senderNonce) =>
    ⟨senderNonce, r.attempt.userOp.sender :: b.validated,
      if authorizer validationData = 0
        then (c.approval site b.senderNonce r).toList ++ b.used else b.used⟩

/-- The books of a chain after a call. -/
def apply (f : Deployed) (chainid : Word) (books : Address → Book) (call : Call) : Address → Book :=
  match f.member chainid call.this with
  | none => books
  | some m => Function.update books call.this
      ((books call.this).record m.contract (f.site chainid call.this m) call.request)

/-- The book of the paymaster at `this` after a run from deployment on. -/
def bookAfter (f : Deployed) (events : List (Word × JournalEvent Call)) (chainid : Word)
    (this : Address) : Book :=
  (Journal.runAt (apply f) (fun _ => Journal.start fun _ => Book.empty) events chainid).state this

/-- The approvals that the validations of a run look for. -/
def attempted (f : Deployed) (events : List (Word × JournalEvent Call)) : Set Approval :=
  {a | ∃ before chainid call m, before ++ [(chainid, .call call)] <+: events ∧
    f.member chainid call.this = some m ∧
    m.contract.approval (f.site chainid call.this m)
      (bookAfter f before chainid call.this).senderNonce call.request = some a}

/-- The nonces count the validations.  The used approvals have different hashes, and each is for
this paymaster and has a nonce that its sender has left behind. -/
structure Book.Sound (approvals : Set Approval) (chainid : Word) (this : Address) (b : Book) :
    Prop where
  count : ∀ sender, (b.senderNonce sender).toNat = b.validated.count sender
  nodup : (b.used.map Approval.hash).Nodup
  past : ∀ a ∈ b.used, a ∈ approvals ∧ a.chainid = chainid ∧ a.paymaster = this ∧
    a.senderNonce.toNat < (b.senderNonce a.userOp.sender).toNat

theorem Book.sound_empty (approvals : Set Approval) (chainid : Word) (this : Address) :
    Book.empty.Sound approvals chainid this where
  count _ := rfl
  nodup := List.nodup_nil
  past := fun _ h => by cases h

theorem count_of_bump {senderNonce senderNonce' : Nonces} {sender : Address} {l : List Address}
    (h : bumpNonce senderNonce sender = .ok senderNonce')
    (hcount : ∀ a, (senderNonce a).toNat = l.count a) (a : Address) :
    (senderNonce' a).toNat = (sender :: l).count a := by
  obtain ⟨hnext, -⟩ := toNat_bump h
  obtain ⟨-, rfl⟩ := bumpNonce_eq_ok.mp h
  by_cases ha : a = sender
  · rw [ha, hnext, hcount, List.count_cons_self]
  · rw [Function.update_of_ne ha, hcount, List.count_cons_of_ne (Ne.symm ha)]

/-- A validation keeps the book sound. -/
theorem Book.sound_record {approvals : Set Approval} {chainid : Word} {this : Address} {b : Book}
    {c : Contract} {site : Site} {r : Request} (hchain : site.chainid = chainid)
    (hthis : site.this = this) (hcoll : Set.InjOn keccak256 (preimagesOf approvals))
    (hattempt : ∀ a, c.approval site b.senderNonce r = some a → a ∈ approvals)
    (hb : b.Sound approvals chainid this) : (b.record c site r).Sound approvals chainid this := by
  unfold Book.record
  split
  · exact hb
  · rename_i context validationData senderNonce hvalidate
    obtain ⟨validUntil, validAfter, signature, hparse, hbump, -⟩ := outcome_of_validate hvalidate
    obtain ⟨hnext, hmono⟩ := toNat_bump hbump
    have hpast : ∀ a ∈ b.used, a ∈ approvals ∧ a.chainid = chainid ∧ a.paymaster = this ∧
        a.senderNonce.toNat < (senderNonce a.userOp.sender).toNat := by
      intro a ha
      obtain ⟨hmem, hc, ht, hlt⟩ := hb.past a ha
      exact ⟨hmem, hc, ht, hlt.trans_le (hmono _)⟩
    split_ifs
    · have happroval := c.approval_of_parse site b.senderNonce hparse
      have hmem := hattempt _ happroval
      rw [happroval]
      refine ⟨count_of_bump hbump hb.count, List.nodup_cons.mpr ⟨fun hused => ?_, hb.nodup⟩, ?_⟩
      · -- a used approval with the same hash would have the nonce that is only now used up
        obtain ⟨a, ha, hhash⟩ := List.mem_map.mp hused
        obtain ⟨hamem, -, -, halt⟩ := hb.past a ha
        have hcovers := Approval.covers_of_hash (injOn_pair hcoll hamem hmem) hhash
        rw [hcovers.senderNonce, hcovers.userOp.sender] at halt
        exact lt_irrefl _ halt
      · intro a ha
        rcases List.mem_cons.mp ha with rfl | ha
        · refine ⟨hmem, hchain, hthis, ?_⟩
          show (b.senderNonce r.attempt.userOp.sender).toNat
            < (senderNonce r.attempt.userOp.sender).toNat
          omega
        · exact hpast a ha
    · exact ⟨count_of_bump hbump hb.count, hb.nodup, hpast⟩

/-- Every book of a run is sound. -/
theorem sound_bookAfter {f : Deployed} {events : List (Word × JournalEvent Call)}
    {approvals : Set Approval} (hcoll : Set.InjOn keccak256 (preimagesOf approvals))
    (hattempted : attempted f events ⊆ approvals) (chainid : Word) (this : Address) :
    (bookAfter f events chainid this).Sound approvals chainid this := by
  refine (Journal.all_runAt (P := fun chainid (books : Address → Book) => ∀ this,
    (books this).Sound approvals chainid this) (fun chainid => ?_) ?_ chainid).1 this
  · exact ⟨fun this => Book.sound_empty approvals chainid this, fun _ h => by cases h⟩
  · intro before chainid call hprefix hbooks this
    unfold apply
    cases hmember : f.member chainid call.this with
    | none => exact hbooks this
    | some m =>
      by_cases hthis : this = call.this
      · subst hthis
        simp only [Function.update_self]
        refine Book.sound_record rfl rfl hcoll (fun a ha => ?_) (hbooks call.this)
        exact hattempted ⟨before, chainid, call, m, hprefix, hmember, ha⟩
      · simp only [Function.update_of_ne hthis]
        exact hbooks this

/-! ### The fleet -/

/-- Approvals that cover each other have one hash. -/
theorem hash_of_covers {a b : Approval} (h : a.Covers b) : a.hash = b.hash := by
  obtain ⟨⟨hsender, hnonce, hinit, hcall, hcg, hvg, hpg, hmf, hmp⟩, hchain, hthis, hsenderNonce,
    huntil, hafter⟩ := h
  have hpack : a.userOp.pack = b.userOp.pack := by
    unfold UserOperation.pack
    rw [hsender, hnonce, hinit, hcall, hcg, hvg, hpg, hmf, hmp]
  unfold Approval.hash Approval.message
  rw [hpack, hchain, hthis, hsenderNonce, huntil, hafter]

/-- The signature recovers to the signer for the approval `a`, and for `b` only if their digests are
the same. -/
structure Signs (f : Deployed) (signature : Bytes) (a b : Approval) : Prop where
  recovers : ECDSA.recover f.ecrecover (ECDSA.toEthSignedMessageHash a.hash) signature
    = .ok f.verifyingSigner
  only : ECDSA.recover f.ecrecover (ECDSA.toEthSignedMessageHash b.hash) signature
    = .ok f.verifyingSigner →
    ECDSA.toEthSignedMessageHash a.hash = ECDSA.toEthSignedMessageHash b.hash

/-- A signature that was made for one approval is accepted exactly when the paymaster asks for an
approval that this one covers. -/
theorem accepts_iff_covers {f : Deployed} {chainid : Word} {this : Address} {m : Member}
    {r : Request} {senderNonce : Nonces} {a : Approval} {validUntil validAfter : Uint48}
    {signature : Bytes}
    (hparse : m.contract.parse r.attempt.userOp.paymasterAndData
      = .ok (validUntil, validAfter, signature))
    (hsigns : Signs f signature a (approvalOf (f.site chainid this m) senderNonce r.attempt.userOp
      validUntil validAfter))
    (hpair : Set.InjOn keccak256 (a.preimages ∪ (approvalOf (f.site chainid this m) senderNonce
      r.attempt.userOp validUntil validAfter).preimages)) :
    m.contract.Accepts (f.site chainid this m) r senderNonce ↔
      r.attempt.sender = m.entryPoint ∧ m.contract.Ready r ∧ a.senderNonce.toNat + 1 < 2 ^ 256 ∧
      a.Covers (approvalOf (f.site chainid this m) senderNonce r.attempt.userOp validUntil
        validAfter) := by
  rw [accepts_iff hparse]
  constructor
  · rintro ⟨hsender, hready, hlt, hrecover⟩
    have hhash := Approval.hash_of_digest hpair (hsigns.only hrecover)
    have hcovers := Approval.covers_of_hash hpair hhash
    refine ⟨hsender, hready, ?_, hcovers⟩
    rw [hcovers.senderNonce]
    exact hlt
  · rintro ⟨hsender, hready, hlt, hcovers⟩
    rw [hcovers.senderNonce] at hlt
    refine ⟨hsender, hready, hlt, ?_⟩
    rw [← hash_of_covers hcovers]
    exact hsigns.recovers

/-- **Approvals across paymasters and chains.**  In every run: each nonce counts the validations of
its sender that stand at that paymaster; a signature is accepted exactly for the operation, the
window, the chain and the paymaster that it was made for, as long as the sender has as many standing
validations there as its nonce says; and no hash is used by two validations that stand, wherever
they are. -/
theorem fleet_honours (f : Deployed) (events : List (Word × JournalEvent Call))
    (hcoll : Set.InjOn keccak256 (preimagesOf (attempted f events))) :
    (∀ chainid this sender, ((bookAfter f events chainid this).senderNonce sender).toNat
      = (bookAfter f events chainid this).validated.count sender) ∧
    (∀ chainid this m r a b validUntil validAfter signature,
      f.member chainid this = some m →
      m.contract.parse r.attempt.userOp.paymasterAndData
        = .ok (validUntil, validAfter, signature) →
      b = approvalOf (f.site chainid this m) (bookAfter f events chainid this).senderNonce
        r.attempt.userOp validUntil validAfter →
      Signs f signature a b → Set.InjOn keccak256 (a.preimages ∪ b.preimages) →
      (m.contract.Accepts (f.site chainid this m) r (bookAfter f events chainid this).senderNonce ↔
        r.attempt.sender = m.entryPoint ∧ m.contract.Ready r ∧
        a.senderNonce.toNat + 1 < 2 ^ 256 ∧ a.userOp.Agree r.attempt.userOp ∧
        a.chainid = chainid ∧ a.paymaster = this ∧
        a.senderNonce.toNat
          = (bookAfter f events chainid this).validated.count r.attempt.userOp.sender ∧
        a.validUntil = validUntil ∧ a.validAfter = validAfter)) ∧
    (∀ chainid this chainid' this',
      ((bookAfter f events chainid this).used.map Approval.hash).Nodup ∧
      ∀ a ∈ (bookAfter f events chainid this).used, ∀ a' ∈ (bookAfter f events chainid' this').used,
        a.hash = a'.hash → chainid = chainid' ∧ this = this') := by
  have hsound := sound_bookAfter hcoll (Set.Subset.refl (attempted f events))
  refine ⟨fun chainid this => (hsound chainid this).count, ?_, ?_⟩
  · rintro chainid this m r a _ validUntil validAfter signature hmember hparse rfl hsigns hpair
    -- the nonce that is asked for is the number of the validations that stand
    have hcount := (hsound chainid this).count r.attempt.userOp.sender
    rw [accepts_iff_covers hparse hsigns hpair]
    constructor
    · rintro ⟨hsender, hready, hlt, hcovers⟩
      have hnonce := (congrArg BitVec.toNat hcovers.senderNonce).trans hcount
      exact ⟨hsender, hready, hlt, hcovers.userOp, hcovers.chainid, hcovers.paymaster, hnonce,
        hcovers.validUntil, hcovers.validAfter⟩
    · rintro ⟨hsender, hready, hlt, hagree, hchain, hthis, hnonce, huntil, hafter⟩
      exact ⟨hsender, hready, hlt, hagree, hchain, hthis,
        BitVec.eq_of_toNat_eq (hnonce.trans hcount.symm), huntil, hafter⟩
  · intro chainid this chainid' this'
    refine ⟨(hsound chainid this).nodup, fun a ha a' ha' hhash => ?_⟩
    obtain ⟨hmem, hc, ht, -⟩ := (hsound chainid this).past a ha
    obtain ⟨hmem', hc', ht', -⟩ := (hsound chainid' this').past a' ha'
    have hcovers := Approval.covers_of_hash (injOn_pair hcoll hmem hmem') hhash
    exact ⟨hc.symm.trans (hcovers.chainid.trans hc'), ht.symm.trans (hcovers.paymaster.trans ht')⟩

/-! ### A validation that is rolled back -/

/-- The paymaster of the sample, and an `EnclaveMultiTokenPaymaster` at the same address of another
chain. -/
def sampleFleet : Deployed where
  verifyingSigner := keyOne
  ecrecover := sampleSite.ecrecover
  member chainid this :=
    if this ≠ 9 then none
    else if chainid = 1 then some ⟨.single .verifying, 6⟩
    else if chainid = 10 then some ⟨.multiToken, 6⟩
    else none

def sampleRequest : Request := ⟨sampleAttempt, MultiTokenPaymaster.deploy 3 4⟩

def sampleCall : Call := ⟨9, sampleRequest⟩

def rolledBack : List (Word × JournalEvent Call) :=
  [(1, .openFrame), (1, .call sampleCall), (1, .rollback)]

theorem attempted_rolledBack : attempted sampleFleet rolledBack ⊆ {sampleApproval} := by
  rintro a ⟨before, chainid, call, m, hprefix, hmember, ha⟩
  obtain ⟨rest, hsplit⟩ := hprefix
  match before, hsplit with
  | [e], hsplit =>
    simp only [rolledBack, List.cons_append, List.nil_append, List.cons.injEq, Prod.mk.injEq,
      JournalEvent.call.injEq] at hsplit
    obtain ⟨rfl, ⟨rfl, rfl⟩, -⟩ := hsplit
    obtain rfl := Option.some.inj hmember
    have happroval : Contract.approval (.single .verifying) sampleSite (fun _ => 0) sampleRequest
        = some sampleApproval := Contract.approval_of_parse _ _ parse_sampleOp
    exact Option.some.inj (ha.symm.trans happroval)
  | [], hsplit => simp [rolledBack] at hsplit
  | [_, _], hsplit => simp [rolledBack] at hsplit
  | _ :: _ :: _ :: _, hsplit => simp [rolledBack] at hsplit

theorem signs_sample : Signs sampleFleet (sampleR.toBytes ++ sampleS.toBytes ++ [27])
    sampleApproval sampleApproval where
  recovers := recover_sample
  only _ := rfl

/-- The approval is still good. -/
theorem accepts_rolledBack :
    Contract.Accepts (.single .verifying) sampleSite sampleRequest
      (bookAfter sampleFleet rolledBack 1 9).senderNonce := by
  have hcoll : Set.InjOn keccak256 (preimagesOf (attempted sampleFleet rolledBack)) := by
    refine Set.InjOn.mono (Set.biUnion_subset_biUnion_left attempted_rolledBack) ?_
    rw [Set.biUnion_singleton]
    exact injOn_sampleApproval
  have hempty : bookAfter sampleFleet rolledBack 1 9 = Book.empty := rfl
  have hpresented : sampleApproval = approvalOf (sampleFleet.site 1 9 ⟨.single .verifying, 6⟩)
      (bookAfter sampleFleet rolledBack 1 9).senderNonce sampleOp 100 50 := rfl
  have hpair : Set.InjOn keccak256 (sampleApproval.preimages ∪ sampleApproval.preimages) := by
    rw [Set.union_self]
    exact injOn_sampleApproval
  have hiff := (fleet_honours sampleFleet rolledBack hcoll).2.1 1 9 ⟨.single .verifying, 6⟩
    sampleRequest sampleApproval sampleApproval 100 50 _ rfl parse_sampleOp hpresented signs_sample
    hpair
  refine hiff.mpr ?_
  rw [hempty]
  exact ⟨rfl, trivial, by decide, ⟨rfl, rfl, rfl, rfl, rfl, rfl, rfl, rfl, rfl⟩, rfl, rfl, rfl, rfl,
    rfl⟩

end Enclave.Fleet
