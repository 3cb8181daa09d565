import Enclave.Account.Equiv.Verification

/-!
# `isValidSignature` on arbitrary bytes

The signature is decoded before anything is verified, and the decoder reverts on bytes that are no
encoding.  Over a verifier that always answers, `isValidSignature` gives one of its two answers
exactly for the bytes in which the three dynamic members lie inside the data
(`isValidSignature_total_iff`).
-/

namespace Enclave

open P256V (arguments)

namespace P256SmartAccount

/-- The head is there, and the three dynamic members lie inside the data. -/
structure WellEncoded (signature : Bytes) : Prop where
  head : 192 ≤ signature.length
  authenticatorData : WellPlaced signature 96
  clientDataJSONPre : WellPlaced signature 128
  clientDataJSONPost : WellPlaced signature 160

theorem decodePasskey_ok_iff {signature : Bytes} :
    (∃ p, decodePasskey signature = .ok p) ↔ WellEncoded signature := by
  unfold decodePasskey requireHead
  constructor
  · rintro ⟨p, h⟩
    obtain ⟨_, hlength, h⟩ := bind_eq_ok.mp h
    split_ifs at hlength with hhead
    obtain ⟨keyHash, -, h⟩ := bind_eq_ok.mp h
    obtain ⟨r, -, h⟩ := bind_eq_ok.mp h
    obtain ⟨s, -, h⟩ := bind_eq_ok.mp h
    obtain ⟨authenticatorData, hdata, h⟩ := bind_eq_ok.mp h
    obtain ⟨pre, hpre, h⟩ := bind_eq_ok.mp h
    obtain ⟨post, hpost, -⟩ := bind_eq_ok.mp h
    exact ⟨not_lt.mp hhead, (abiDecodeBytes_ok_iff.mp ⟨_, hdata⟩).2,
      (abiDecodeBytes_ok_iff.mp ⟨_, hpre⟩).2, (abiDecodeBytes_ok_iff.mp ⟨_, hpost⟩).2⟩
  · rintro ⟨hhead, hdata, hpre, hpost⟩
    have hmember : ∀ {head : ℕ}, head + 32 ≤ 192 → WellPlaced signature head →
        ∃ v, abiDecodeBytesMemory signature head = .ok v :=
      fun hroom hplaced => abiDecodeBytes_ok_iff.mpr ⟨hroom.trans hhead, hplaced⟩
    have hword : ∀ i, i + 32 ≤ 192 → ∃ w, abiDecodeWord signature i = .ok w :=
      fun i hi => ⟨_, if_pos (hi.trans hhead)⟩
    obtain ⟨keyHash, hkeyHash⟩ := hword 0 (by decide)
    obtain ⟨r, hr⟩ := hword 32 (by decide)
    obtain ⟨s, hs⟩ := hword 64 (by decide)
    obtain ⟨authenticatorData, hdata⟩ := hmember (by decide) hdata
    obtain ⟨pre, hpre⟩ := hmember (by decide) hpre
    obtain ⟨post, hpost⟩ := hmember (by decide) hpost
    refine ⟨⟨keyHash, r, s, authenticatorData, pre, post⟩, ?_⟩
    rw [if_neg (not_lt.mpr hhead), ok_bind, hkeyHash, ok_bind, hr, ok_bind, hs, ok_bind, hdata,
      ok_bind, hpre, ok_bind, hpost, ok_bind]

end P256SmartAccount

open P256SmartAccount

/-- A verifier that answers every call of `verify` with a boolean. -/
structure Answers (verifier : Bytes → Result Bytes)
    (accepts : Word → Word → Word → Word × Word → Bool) : Prop where
  answer : ∀ digest r s x y : Word,
    verifier (selector "verify(bytes32,uint256,uint256,uint256[2])" ++ arguments digest r s x y)
      = .ok (abiEncode [.word (if accepts digest r s (x, y) then 1 else 0)])

/-- The verifier accepts the digest that the bytes lead to. -/
def DecodesAndAccepts (accepts : Word → Word → Word → Word × Word → Bool) (d : Deployment)
    (hash : Word) (signature : Bytes) : Prop :=
  ∃ p, decodePasskey signature = .ok p ∧
    accepts (sigHash p.authenticatorData p.clientDataJSONPre p.clientDataJSONPost hash) p.r p.s
      d.account.pubKey = true

/-- `isValidSignature` gives the magic value or the failure value, and the magic value exactly where
the verifier accepts. -/
def GivesVerdict (d : Deployment) (verifier : Bytes → Result Bytes)
    (accepts : Word → Word → Word → Word × Word → Bool) (hash : Word) (signature : Bytes) : Prop :=
  ∃ magicValue, (isValidSignature hash signature).value (d.env verifier) d.account
      = .ok magicValue ∧
    (magicValue = (0x1626ba7e : Word) <<< 224 ∨ magicValue = (0xffffffff : Word) <<< 224) ∧
    (magicValue = (0x1626ba7e : Word) <<< 224 ↔ DecodesAndAccepts accepts d hash signature)

/-- **Totality**: over a verifier that always answers, `isValidSignature` gives its verdict exactly
on well-encoded signatures, and reverts on all others. -/
theorem isValidSignature_total_iff (d : Deployment) (verifier : Bytes → Result Bytes)
    (accepts : Word → Word → Word → Word × Word → Bool) (h : Answers verifier accepts) (hash : Word)
    (signature : Bytes) :
    GivesVerdict d verifier accepts hash signature ↔ WellEncoded signature := by
  rw [← decodePasskey_ok_iff]
  constructor
  · rintro ⟨magicValue, hvalue, -⟩
    rw [isValidSignature, Prog.value_bind_pure, acceptsSignature, Prog.value_lift_bind,
      map_eq_ok] at hvalue
    obtain ⟨accepted, haccepted, -⟩ := hvalue
    obtain ⟨p, hp, -⟩ := bind_eq_ok.mp haccepted
    exact ⟨p, hp⟩
  · rintro ⟨p, hp⟩
    set accepted := accepts (sigHash p.authenticatorData p.clientDataJSONPre p.clientDataJSONPost
      hash) p.r p.s d.account.pubKey with haccepted
    have hvalue : (isValidSignature hash signature).value (d.env verifier) d.account
        = .ok (if accepted then (0x1626ba7e : Word) <<< 224 else (0xffffffff : Word) <<< 224) := by
      have hanswer : verifier (selector "verify(bytes32,uint256,uint256,uint256[2])" ++ arguments
          (sigHash p.authenticatorData p.clientDataJSONPre p.clientDataJSONPost hash) p.r p.s
          d.account.pubKey.1 d.account.pubKey.2) = .ok (P256V.verdict accepted) :=
        h.answer _ p.r p.s _ _
      rw [isValidSignature, Prog.value_bind_pure, acceptsSignature, Prog.value_lift_bind, hp,
        ok_bind, d.value_verifySignature, hanswer, ok_bind, P256V.abiDecodeBool_verdict]
      rfl
    have hverdict : DecodesAndAccepts accepts d hash signature ↔ accepted = true := by
      constructor
      · rintro ⟨q, hq, haccepts⟩
        obtain rfl := Except.ok.inj (hp.symm.trans hq)
        exact haccepts
      · intro htrue
        exact ⟨p, hp, htrue⟩
    refine ⟨_, hvalue, ?_⟩
    rw [hverdict]
    cases accepted
    · exact ⟨Or.inr rfl, by decide⟩
    · exact ⟨Or.inl rfl, by decide⟩

/-! ### The signature of the test suite -/

/-- A verifier that rejects everything. -/
def rejectAll : Bytes → Result Bytes := fun _ => .ok (abiEncode [.word 0])

theorem answers_rejectAll : Answers rejectAll fun _ _ _ _ => false := ⟨fun _ _ _ _ _ => rfl⟩

/-- The five bytes `0x1234567890` of the test suite make `isValidSignature` revert. -/
theorem isValidSignature_five_bytes :
    let d := MultichainPasskeyValidator.sampleDeployment
    (isValidSignature 1 [0x12, 0x34, 0x56, 0x78, 0x90]).value (d.env rejectAll) d.account
      = .error .empty ∧
    ¬GivesVerdict d rejectAll (fun _ _ _ _ => false) 1 [0x12, 0x34, 0x56, 0x78, 0x90] := by
  intro d
  have hreverts : (isValidSignature 1 [0x12, 0x34, 0x56, 0x78, 0x90]).value (d.env rejectAll)
      d.account = .error .empty := rfl
  refine ⟨hreverts, ?_⟩
  rintro ⟨magicValue, hvalue, -⟩
  rw [hreverts] at hvalue
  cases hvalue

/-- The same bytes are no encoding, and the empty members of `zeroSignature` are. -/
theorem isValidSignature_total_iff_zeroSignature :
    let d := MultichainPasskeyValidator.sampleDeployment
    ¬GivesVerdict d rejectAll (fun _ _ _ _ => false) 1 [0x12, 0x34, 0x56, 0x78, 0x90] ∧
      GivesVerdict d rejectAll (fun _ _ _ _ => false) 1 zeroSignature := by
  intro d
  constructor
  · rw [isValidSignature_total_iff d rejectAll _ answers_rejectAll]
    exact fun h => absurd h.head (by decide)
  · exact (isValidSignature_total_iff d rejectAll _ answers_rejectAll 1 zeroSignature).mpr
      (decodePasskey_ok_iff.mp ⟨_, decodePasskey_zeroSignature⟩)

end Enclave
