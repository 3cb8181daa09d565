import Enclave.Paymaster.Equiv.Verifying
import Enclave.Paymaster.Solver

/-!
# What the solver paymasters approve, and whether they can

The hash of the first contract binds the operation (`binds_v0`).  That of the second one covers the
sender, the window, the token and the amount, and nothing else of the operation (`hash_v1_iff`), so
that it tells two operations apart only where those differ (`binds_v1_iff`).

In both contracts the layout of `paymasterAndData` leaves 64 bytes for the signature, one fewer
than the recovery accepts: no validation ever ends without a revert
(`parse_ne_and_validateSolver_reverts`).
-/

namespace Enclave.SolverPaymaster

open Paymaster

/-! ### Requests -/

/-- The arguments of `getHash`. -/
structure Request where
  userOp : UserOperation
  validUntil : Uint48
  validAfter : Uint48
  tokenAddress : Address
  amount : Word

namespace Request

def message (v : Version) (site : Site) (senderNonce : Nonces) (r : Request) : Bytes :=
  SolverPaymaster.message v site senderNonce r.userOp r.validUntil r.validAfter r.tokenAddress
    r.amount

def hash (v : Version) (site : Site) (senderNonce : Nonces) (r : Request) : Word :=
  getHash v site senderNonce r.userOp r.validUntil r.validAfter r.tokenAddress r.amount

/-- The windows, the tokens and the amounts are equal. -/
structure SameTerms (r r' : Request) : Prop where
  validUntil : r.validUntil = r'.validUntil
  validAfter : r.validAfter = r'.validAfter
  tokenAddress : r.tokenAddress = r'.tokenAddress
  amount : r.amount = r'.amount

/-- If the hashes are equal, the requests are the same in all that the signer is to approve. -/
def Binds (v : Version) (site : Site) (senderNonce : Nonces) (r r' : Request) : Prop :=
  r.hash v site senderNonce = r'.hash v site senderNonce →
    r.userOp.Agree r'.userOp ∧ r.SameTerms r'

end Request

variable {site : Site} {senderNonce : Nonces} {r r' : Request}

/-! ### What the hashes cover -/

/-- Equal messages have equal subjects and terms. -/
theorem of_message_eq {v : Version}
    (hkind : AbiValue.SameKind (subject v r.userOp) (subject v r'.userOp))
    (h : r.message v site senderNonce = r'.message v site senderNonce) :
    subject v r.userOp = subject v r'.userOp ∧ r.SameTerms r' := by
  have hvalues := abiEncode_injective (.cons hkind (by repeat' constructor)) h
  simp only [addressValue, uint48Value, List.cons.injEq, AbiValue.word.injEq, and_true,
    true_and] at hvalues
  obtain ⟨hsubject, -, huntil, hafter, htoken, hamount⟩ := hvalues
  exact ⟨hsubject, toWord_inj (by decide) huntil, toWord_inj (by decide) hafter,
    toWord_inj (by decide) htoken, hamount⟩

/-- **The first contract**: without a collision among the strings that are hashed, the hash binds
the operation and the terms. -/
theorem binds_v0 (hcoll : Set.InjOn keccak256 (r.userOp.preimages ∪ r'.userOp.preimages ∪
    {r.message .v0 site senderNonce, r'.message .v0 site senderNonce})) :
    r.Binds .v0 site senderNonce r' := by
  intro h
  have hmessage := hcoll (Or.inr (Or.inl rfl)) (Or.inr (Or.inr rfl)) h
  have hkind : AbiValue.SameKind (subject .v0 r.userOp) (subject .v0 r'.userOp) :=
    sameKind_pack r.userOp r'.userOp
  obtain ⟨hsubject, hterms⟩ := of_message_eq hkind hmessage
  refine ⟨agree_of_pack (hcoll.mono Set.subset_union_left) ?_, hterms⟩
  exact AbiValue.bytes.inj hsubject

/-- The hash of the second contract covers the sender and the terms. -/
theorem hash_v1_iff (hcoll : Set.InjOn keccak256
    {r.message .v1 site senderNonce, r'.message .v1 site senderNonce}) :
    r.hash .v1 site senderNonce = r'.hash .v1 site senderNonce ↔
      r.userOp.sender = r'.userOp.sender ∧ r.SameTerms r' := by
  constructor
  · intro h
    have hmessage := hcoll (Or.inl rfl) (Or.inr rfl) h
    have hkind : AbiValue.SameKind (subject .v1 r.userOp) (subject .v1 r'.userOp) := trivial
    obtain ⟨hsubject, hterms⟩ := of_message_eq hkind hmessage
    exact ⟨toWord_inj (by decide) (AbiValue.word.inj hsubject), hterms⟩
  · rintro ⟨hsender, huntil, hafter, htoken, hamount⟩
    have hsubject : subject .v1 r.userOp = subject .v1 r'.userOp := congrArg addressValue hsender
    unfold Request.hash getHash message
    rw [hsubject, hsender, huntil, hafter, htoken, hamount]

/-- **The second contract**: the hash binds two requests if and only if they do not share sender and
terms while the operations differ elsewhere. -/
theorem binds_v1_iff (site : Site) (senderNonce : Nonces) (r r' : Request)
    (hcoll : Set.InjOn keccak256
      {r.message .v1 site senderNonce, r'.message .v1 site senderNonce}) :
    r.Binds .v1 site senderNonce r' ↔
      (r.userOp.sender = r'.userOp.sender → r.SameTerms r' → r.userOp.Agree r'.userOp) := by
  unfold Request.Binds
  rw [hash_v1_iff hcoll]
  constructor
  · intro h hsender hterms
    exact (h ⟨hsender, hterms⟩).1
  · rintro h ⟨hsender, hterms⟩
    exact ⟨h hsender hterms, hterms⟩

/-- A payout of 10 of the token 11, for an operation that calls nothing. -/
def approved : Request := ⟨sampleOp, 100, 50, 11, 10⟩

/-- The same payout, for an operation with other call data. -/
def substituted : Request := ⟨{ sampleOp with callData := [0xde, 0xad] }, 100, 50, 11, 10⟩

theorem message_substituted : substituted.message .v1 sampleSite (fun _ => 0)
    = approved.message .v1 sampleSite (fun _ => 0) := rfl

theorem injOn_approved : Set.InjOn keccak256
    {approved.message .v1 sampleSite (fun _ => 0),
      substituted.message .v1 sampleSite (fun _ => 0)} := by
  rw [message_substituted, Set.pair_eq_singleton]
  exact Set.injOn_singleton _ _

/-- The approval of the one operation is an approval of the other one. -/
theorem hash_substituted :
    Set.InjOn keccak256 {approved.message .v1 sampleSite (fun _ => 0),
      substituted.message .v1 sampleSite (fun _ => 0)} ∧
    approved.hash .v1 sampleSite (fun _ => 0) = substituted.hash .v1 sampleSite (fun _ => 0) ∧
    ¬approved.userOp.Agree substituted.userOp := by
  refine ⟨injOn_approved, rfl, fun hagree => ?_⟩
  exact absurd hagree.callData (by decide)

theorem binds_v1_iff_substituted :
    approved.Binds .v1 sampleSite (fun _ => 0) substituted ↔
      (approved.userOp.sender = substituted.userOp.sender → approved.SameTerms substituted →
        approved.userOp.Agree substituted.userOp) :=
  binds_v1_iff sampleSite (fun _ => 0) approved substituted injOn_approved

/-! ### Room for a signature -/

/-- The signature that is parsed has 64 bytes. -/
theorem length_signature_of_parse {paymasterAndData signature : Bytes}
    {validUntil validAfter : Uint48} {tokenAddress : Address} {amount : Word}
    (h : parsePaymasterAndData paymasterAndData
      = .ok (validUntil, validAfter, signature, tokenAddress, amount)) :
    signature.length = 64 := by
  unfold parsePaymasterAndData at h
  simp only [bind_eq_ok] at h
  obtain ⟨_, -, _, -, sig, hsig, _, -, _, -, _, -, _, -, hall⟩ := h
  simp only [Except.ok.injEq, Prod.mk.injEq] at hall
  rw [← hall.2.2.1, length_of_slice (calldataSlice_eq_ok.mp hsig)]

/-- The recovery rejects what the layout can carry. -/
theorem validateSolver_ne_ok {τ : Type} (tokens : TokenContracts τ) (v : Version) (site : Site)
    (userOp : UserOperation) (senderNonce : Nonces) (ledger : τ)
    (answer : (Bytes × Word) × Nonces × τ) :
    validateSolver tokens v site userOp senderNonce ledger ≠ .ok answer := by
  intro h
  unfold validateSolver validateSolverWith at h
  simp only [bind_eq_ok] at h
  obtain ⟨⟨validUntil, validAfter, signature, tokenAddress, amount⟩, hparse, _, -, _, -, signer,
    hrecover, -⟩ := h
  have hlen : signature.length ≠ 65 := by
    rw [length_signature_of_parse hparse]
    decide
  rw [ECDSA.recover_of_length_ne hlen] at hrecover
  cases hrecover

/-- **No room**: a signature that the recovery accepts is carried by no `paymasterAndData`, and
every validation reverts. -/
theorem parse_ne_and_validateSolver_reverts (v : Version) (validUntil validAfter : Uint48)
    (tokenAddress : Address) (amount : Word) (signature : Bytes) (hlen : signature.length = 65) :
    (¬∃ paymasterAndData, parsePaymasterAndData paymasterAndData
      = .ok (validUntil, validAfter, signature, tokenAddress, amount)) ∧
    ∀ (τ : Type) (tokens : TokenContracts τ) (site : Site) (userOp : UserOperation)
      (senderNonce : Nonces) (ledger : τ),
      ∃ e, validateSolver tokens v site userOp senderNonce ledger = .error e := by
  constructor
  · rintro ⟨paymasterAndData, hparse⟩
    have hshort := length_signature_of_parse hparse
    omega
  · intro τ tokens site userOp senderNonce ledger
    cases h : validateSolver tokens v site userOp senderNonce ledger with
    | error e => exact ⟨e, rfl⟩
    | ok answer =>
      exact absurd h (validateSolver_ne_ok tokens v site userOp senderNonce ledger answer)

/-- A genuine signature of 65 bytes cannot be presented. -/
theorem no_room_for_sample :
    ECDSA.recover sampleSite.ecrecover sampleDigest
      (sampleR.toBytes ++ sampleS.toBytes ++ [27]) = .ok keyOne ∧
    ¬∃ paymasterAndData, parsePaymasterAndData paymasterAndData
      = .ok (100, 50, sampleR.toBytes ++ sampleS.toBytes ++ [27], 11, 10) := by
  refine ⟨by decide, ?_⟩
  rintro ⟨paymasterAndData, hparse⟩
  exact absurd (length_signature_of_parse hparse) (by decide)

theorem parse_ne_and_validateSolver_reverts_sample :
    (sampleR.toBytes ++ sampleS.toBytes ++ [27]).length = 65 ∧
    ¬∃ paymasterAndData, parsePaymasterAndData paymasterAndData
      = .ok (100, 50, sampleR.toBytes ++ sampleS.toBytes ++ [27], 11, 10) := by
  have hlen : (sampleR.toBytes ++ sampleS.toBytes ++ [27]).length = 65 := by simp
  exact ⟨hlen, (parse_ne_and_validateSolver_reverts .v1 100 50 11 10 _ hlen).1⟩

end Enclave.SolverPaymaster
