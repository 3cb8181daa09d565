import Enclave.Paymaster.Equiv.NFT
import Mathlib.Algebra.BigOperators.Group.List.Basic

/-!
# Bundles of sponsored operations

The entry point validates all operations of a bundle before it settles any of them.  A validation
asks whether its sender is eligible, and leaves no mark with the gas logic; only `postOp` does.
`settles_iff`: after the validations, all settlements go through, in whatever order, if and only if
the limits have room for all of them together, and for what others record in the meantime.
-/

namespace Enclave.NFTPaymaster

open Paymaster NFTGasLogic

/-! ### Bundles -/

/-- An operation with what the entry point computes for it. -/
structure BundleOp where
  userOp : UserOperation
  requiredPreFund : Word
  actualGasCost : Word
  cost_le : actualGasCost.toNat ≤ requiredPreFund.toNat

section Phases

variable (site : Site) (balanceOf : Collections) (nft : Address)

/-- The first phase: every operation is validated with success, and anyone may call the gas logic in
between.  It leaves the contexts with the costs that they will be settled with. -/
inductive Validates :
    List BundleOp → Nonces → NFTGasLogic → List (Bytes × Word) → NFTGasLogic → Prop
  | done {senderNonce g} : Validates [] senderNonce g [] g
  | validate {op ops senderNonce senderNonce' g g' context validationData contexts}
      (hvalidate : Paymaster.validatePaymasterUserOp .nft site
        ⟨site.entryPoint, op.userOp, op.requiredPreFund, view balanceOf g nft⟩ senderNonce
          = .ok ((context, validationData), senderNonce'))
      (hsuccess : authorizer validationData = 0)
      (rest : Validates ops senderNonce' g contexts g') :
      Validates (op :: ops) senderNonce g ((context, op.actualGasCost) :: contexts) g'
  | other {ops senderNonce g g' contexts} (c : NFTGasLogic.Call) (hlimits : g.KeepsLimits nft c)
      (rest : Validates ops senderNonce (g.apply balanceOf c) contexts g') :
      Validates ops senderNonce g contexts g'

/-- A step of the second phase: a settlement, or a call of the gas logic by anyone. -/
inductive Step
  | postOp (context : Bytes) (actualGasCost : Word)
  | other (c : NFTGasLogic.Call)

def Step.apply (g : NFTGasLogic) : Step → NFTGasLogic
  | .postOp context actualGasCost =>
    match NFTPaymaster.postOp balanceOf nft context actualGasCost g with
    | .ok g' => g'
    | .error _ => g
  | .other c => g.apply balanceOf c

/-- The contexts and the costs that are settled, in order. -/
def settlements : List Step → List (Bytes × Word)
  | [] => []
  | .postOp context actualGasCost :: steps => (context, actualGasCost) :: settlements steps
  | .other _ :: steps => settlements steps

/-- No settlement reverts. -/
def Settles : List Step → NFTGasLogic → Prop
  | [], _ => True
  | .postOp context actualGasCost :: steps, g =>
    (∃ g', NFTPaymaster.postOp balanceOf nft context actualGasCost g = .ok g') ∧
      Settles steps (Step.apply balanceOf nft g (.postOp context actualGasCost))
  | .other c :: steps, g => Settles steps (Step.apply balanceOf nft g (.other c))

/-- Nobody changes the limits. -/
def LimitsKept : List Step → NFTGasLogic → Prop
  | [], _ => True
  | .postOp context actualGasCost :: steps, g =>
    LimitsKept steps (Step.apply balanceOf nft g (.postOp context actualGasCost))
  | .other c :: steps, g =>
    g.KeepsLimits nft c ∧ LimitsKept steps (Step.apply balanceOf nft g (.other c))

/-- What others record for a user in the second phase. -/
def taken (user : Address) : List Step → NFTGasLogic → List Word
  | [], _ => []
  | .postOp context actualGasCost :: steps, g =>
    taken user steps (Step.apply balanceOf nft g (.postOp context actualGasCost))
  | .other c :: steps, g =>
    recorded balanceOf nft user g c ++ taken user steps (Step.apply balanceOf nft g (.other c))

end Phases

/-- The sum of gas amounts. -/
def amounts (costs : List Word) : ℕ := (costs.map BitVec.toNat).sum

/-- The limits have room for some more operations and their costs. -/
def Fits (nft user : Address) (g : NFTGasLogic) (costs : List Word) : Prop :=
  (g.sponsoredTransactionsByNFT nft user).count.toNat + costs.length
      ≤ (g.transactionLimitByNFT nft).toNat ∧
    (g.sponsoredTransactionsByNFT nft user).totalAmount.toNat + amounts costs
      ≤ (g.gasValueLimitByNFT nft).toNat

/-- The costs of the operations of a user. -/
def costsOf (user : Address) (ops : List BundleOp) : List Word :=
  (ops.filter fun op => op.userOp.sender = user).map BundleOp.actualGasCost

/-! ### Room -/

section Room

variable {balanceOf : Collections} {nft user sender : Address} {g : NFTGasLogic}
  {costs costs' : List Word}

theorem fits_of_perm (h : costs.Perm costs') : Fits nft user g costs ↔ Fits nft user g costs' := by
  unfold Fits amounts
  rw [h.length_eq, (h.map BitVec.toNat).sum_eq]

/-- What a call records takes up room. -/
theorem fits_apply {c : NFTGasLogic.Call} (hlimits : g.KeepsLimits nft c) :
    Fits nft user (g.apply balanceOf c) costs ↔
      Fits nft user g (recorded balanceOf nft user g c ++ costs) := by
  obtain ⟨hcount, hamount⟩ := limits_apply balanceOf hlimits
  unfold Fits amounts
  rw [hcount, hamount, count_apply, totalAmount_apply, List.length_append, List.map_append,
    List.sum_append, Nat.add_assoc, Nat.add_assoc]

theorem keepsLimits_applyLogic (gasAmount : Word) :
    g.KeepsLimits nft (.applyLogic user nft gasAmount) := by
  intro _ _ h
  cases h

/-- Room for one more operation is eligibility, for a holder. -/
theorem eligible_iff_fits {gasAmount : Word}
    (hholder : ∃ balance, balanceOf nft user = .ok balance ∧ 0 < balance.toNat) :
    Eligible balanceOf user nft gasAmount g ↔ Fits nft user g [gasAmount] := by
  have hamounts : amounts [gasAmount] = gasAmount.toNat := by simp [amounts]
  unfold Fits
  rw [hamounts, List.length_singleton]
  constructor
  · rintro ⟨-, hcount, hamount⟩
    exact ⟨hcount, hamount⟩
  · rintro ⟨hcount, hamount⟩
    exact ⟨hholder, hcount, hamount⟩

theorem fits_mono {more : List Word} (h : Fits nft user g (costs ++ more)) :
    Fits nft user g costs := by
  unfold Fits amounts at *
  rw [List.length_append, List.map_append, List.sum_append] at h
  omega

end Room

/-! ### Settlements -/

section Settlement

variable {balanceOf : Collections} {nft user : Address} {g : NFTGasLogic} {steps : List Step}

/-- The costs that are settled for a user. -/
def chargesOf (user : Address) (entries : List (Bytes × Word)) : List Word :=
  (entries.filter fun e => abiDecodeAddress e.1 0 = .ok user).map Prod.snd

/-- The context names a holder. -/
def NamesHolder (balanceOf : Collections) (nft : Address) (e : Bytes × Word) : Prop :=
  ∃ sender, abiDecodeAddress e.1 0 = .ok sender ∧
    ∃ balance, balanceOf nft sender = .ok balance ∧ 0 < balance.toNat

/-- A settlement is an `applyLogic` for the sender. -/
theorem postOp_eq_run {context : Bytes} {cost : Word} {sender : Address}
    (h : abiDecodeAddress context 0 = .ok sender) :
    postOp balanceOf nft context cost g
      = NFTGasLogic.Call.run balanceOf g (.applyLogic sender nft cost) := by
  unfold postOp
  rw [h, ok_bind]
  rfl

theorem step_postOp {context : Bytes} {cost : Word} {sender : Address}
    (h : abiDecodeAddress context 0 = .ok sender) :
    Step.apply balanceOf nft g (.postOp context cost)
      = g.apply balanceOf (.applyLogic sender nft cost) := by
  rw [Step.apply, postOp_eq_run h]
  rfl

theorem postOp_ok_iff {context : Bytes} {cost : Word} {sender : Address}
    (h : abiDecodeAddress context 0 = .ok sender) :
    (∃ g', postOp balanceOf nft context cost g = .ok g') ↔
      Eligible balanceOf sender nft cost g := by
  unfold postOp
  rw [h, ok_bind]
  constructor
  · rintro ⟨g', hpost⟩
    obtain ⟨⟨answer, g''⟩, happly, -⟩ := bind_eq_ok.mp hpost
    exact (applyLogic_eq_ok_iff.mp happly).1
  · intro heligible
    obtain ⟨g', happly⟩ := applyLogic_of_eligible heligible
    exact ⟨g', by rw [happly, ok_bind]⟩

theorem chargesOf_cons_self {context : Bytes} {cost : Word} {entries : List (Bytes × Word)}
    (h : abiDecodeAddress context 0 = .ok user) :
    chargesOf user ((context, cost) :: entries) = cost :: chargesOf user entries := by
  simp [chargesOf, h]

theorem chargesOf_cons_of_ne {context : Bytes} {cost : Word} {entries : List (Bytes × Word)}
    {sender : Address} (h : abiDecodeAddress context 0 = .ok sender) (hne : sender ≠ user) :
    chargesOf user ((context, cost) :: entries) = chargesOf user entries := by
  simp [chargesOf, h, hne]

theorem recorded_of_ne {sender : Address} (cost : Word) (hne : sender ≠ user) :
    recorded balanceOf nft user g (.applyLogic sender nft cost) = [] :=
  if_neg fun h => hne h.1

/-- If there is room for everything, every settlement goes through. -/
theorem settles_of_fits (hholders : ∀ e ∈ settlements steps, NamesHolder balanceOf nft e)
    (hlimits : LimitsKept balanceOf nft steps g)
    (hfits : ∀ user, chargesOf user (settlements steps) ≠ [] →
      Fits nft user g (chargesOf user (settlements steps) ++ taken balanceOf nft user steps g)) :
    Settles balanceOf nft steps g := by
  induction steps generalizing g with
  | nil => exact trivial
  | cons step steps ih =>
    cases step with
    | postOp context cost =>
      obtain ⟨sender, hdecode, hholder⟩ := hholders (context, cost) List.mem_cons_self
      have hroom := hfits sender
      rw [settlements, chargesOf_cons_self hdecode] at hroom
      -- the charge of this operation moves from what is still to come into the record
      have hone : Fits nft sender g ([cost] ++ _) := hroom (List.cons_ne_nil _ _)
      have heligible := (eligible_iff_fits hholder).mpr (fits_mono hone)
      refine ⟨(postOp_ok_iff hdecode).mpr heligible, ?_⟩
      refine ih (fun e he => hholders e (List.mem_cons_of_mem _ he)) hlimits fun user hne => ?_
      rw [step_postOp hdecode, fits_apply (keepsLimits_applyLogic cost), ← step_postOp hdecode]
      by_cases huser : sender = user
      · subst huser
        rw [recorded_of_eligible heligible]
        exact hone
      · have hsame := hfits user
        rw [settlements, chargesOf_cons_of_ne hdecode huser] at hsame
        rw [recorded_of_ne cost huser]
        exact hsame hne
    | other c =>
      obtain ⟨hkeeps, hlimits⟩ := hlimits
      refine ih hholders hlimits fun user hne => ?_
      show Fits nft user (g.apply balanceOf c) _
      rw [fits_apply hkeeps, ← List.append_assoc]
      refine (fits_of_perm ?_).mp (hfits user hne)
      show (chargesOf user (settlements steps) ++ (recorded balanceOf nft user g c ++ _)).Perm _
      rw [← List.append_assoc]
      exact List.perm_append_comm.append_right _

/-- If every settlement goes through, there was room for everything.  The limits may have been
overrun before the first operation of the user, but not after it. -/
theorem fits_of_settles (hholders : ∀ e ∈ settlements steps, NamesHolder balanceOf nft e)
    (hlimits : LimitsKept balanceOf nft steps g) (hsettles : Settles balanceOf nft steps g)
    (hstart : chargesOf user (settlements steps) ≠ [] ∨ Fits nft user g []) :
    Fits nft user g (chargesOf user (settlements steps) ++ taken balanceOf nft user steps g) := by
  induction steps generalizing g with
  | nil => exact hstart.resolve_left fun h => h rfl
  | cons step steps ih =>
    cases step with
    | postOp context cost =>
      obtain ⟨sender, hdecode, hholder⟩ := hholders (context, cost) List.mem_cons_self
      obtain ⟨hpost, hsettles⟩ := hsettles
      have heligible := (postOp_ok_iff hdecode).mp hpost
      have hrest := ih (fun e he => hholders e (List.mem_cons_of_mem _ he)) hlimits hsettles
      rw [step_postOp hdecode, fits_apply (keepsLimits_applyLogic cost),
        fits_apply (keepsLimits_applyLogic cost), ← step_postOp hdecode] at hrest
      rw [settlements]
      by_cases huser : sender = user
      · subst huser
        rw [recorded_of_eligible heligible] at hrest
        rw [chargesOf_cons_self hdecode]
        exact hrest (Or.inr ((eligible_iff_fits hholder).mp heligible))
      · rw [recorded_of_ne cost huser] at hrest
        rw [settlements, chargesOf_cons_of_ne hdecode huser] at hstart
        rw [chargesOf_cons_of_ne hdecode huser]
        exact hrest hstart
    | other c =>
      obtain ⟨hkeeps, hlimits⟩ := hlimits
      have hrest := ih hholders hlimits hsettles
      rw [show Step.apply balanceOf nft g (.other c) = g.apply balanceOf c from rfl,
        fits_apply hkeeps, fits_apply hkeeps, List.append_nil, ← List.append_assoc] at hrest
      show Fits nft user g
        (chargesOf user (settlements steps) ++ (recorded balanceOf nft user g c ++ _))
      rw [← List.append_assoc]
      refine (fits_of_perm (List.perm_append_comm.append_right _)).mp (hrest ?_)
      refine hstart.imp id fun hwithin => ?_
      -- what is recorded was eligible
      rcases record_apply balanceOf nft user g c with ⟨hnil, -⟩ | ⟨gas, -, heligible, hone, -⟩
      · rw [hnil]
        exact hwithin
      · rw [hone]
        exact (eligible_iff_fits heligible.holder).mp heligible

end Settlement

/-! ### Validations -/

section Validation

variable {site : Site} {balanceOf : Collections} {nft user : Address} {g g' : NFTGasLogic}
  {senderNonce : Nonces} {ops : List BundleOp} {contexts : List (Bytes × Word)}

/-- The context with which an operation is settled, and the cost. -/
def BundleOp.entry (op : BundleOp) : Bytes × Word :=
  (abiEncode [addressValue op.userOp.sender], op.actualGasCost)

/-- What a successful validation has checked, and what it leaves. -/
theorem of_validate {op : BundleOp} {senderNonce' : Nonces} {context : Bytes}
    {validationData : Word} (h : Paymaster.validatePaymasterUserOp .nft site
      ⟨site.entryPoint, op.userOp, op.requiredPreFund, view balanceOf g nft⟩ senderNonce
        = .ok ((context, validationData), senderNonce')) :
    (context, op.actualGasCost) = op.entry ∧ NamesHolder balanceOf nft op.entry := by
  obtain ⟨-, -, h⟩ := bind_eq_ok.mp h
  simp only [validateNFT, bind_eq_ok] at h
  obtain ⟨balance, hbalance, _, hpos, _, -, _, -, hwith⟩ := h
  unfold validateWith at hwith
  obtain ⟨⟨validUntil, validAfter, signature⟩, -, hcheck⟩ := bind_eq_ok.mp hwith
  obtain ⟨-, hcontext, -⟩ := checkApproval_eq_ok hcheck
  refine ⟨by rw [hcontext]; rfl, op.userOp.sender, abiDecodeAddress_encode _, balance, hbalance, ?_⟩
  exact require_eq_ok.mp hpos

theorem contexts_of_validates (h : Validates site balanceOf nft ops senderNonce g contexts g') :
    contexts = ops.map BundleOp.entry ∧ ∀ e ∈ contexts, NamesHolder balanceOf nft e := by
  induction h with
  | done => exact ⟨rfl, fun e he => by cases he⟩
  | validate hvalidate hsuccess rest ih =>
    obtain ⟨hentry, hholder⟩ := of_validate hvalidate
    obtain ⟨hmap, hholders⟩ := ih
    refine ⟨by rw [hentry, hmap, List.map_cons], fun e he => ?_⟩
    rcases List.mem_cons.mp he with rfl | he
    · rw [hentry]
      exact hholder
    · exact hholders e he
  | other c hlimits rest ih => exact ih

theorem chargesOf_entries (ops : List BundleOp) :
    chargesOf user (ops.map BundleOp.entry) = costsOf user ops := by
  induction ops with
  | nil => rfl
  | cons op ops ih =>
    have hdecode : abiDecodeAddress (abiEncode [addressValue op.userOp.sender]) 0
        = .ok op.userOp.sender := abiDecodeAddress_encode _
    rw [List.map_cons, BundleOp.entry]
    by_cases hsender : op.userOp.sender = user
    · rw [hsender] at hdecode ⊢
      rw [chargesOf_cons_self hdecode, ih]
      simp [costsOf, hsender]
    · rw [chargesOf_cons_of_ne hdecode hsender, ih]
      simp [costsOf, hsender]

/-- **Settlement**: after all operations of a bundle have been validated, with anyone calling the
gas logic at any time, and the holders, the collection and its limits unchanged, every settlement
goes through in a given order if and only if for every sender in the bundle the limits have room for
all of their operations and for what others record for them in the meantime. -/
theorem settles_iff (site : Site) (balanceOf : Collections) (nft : Address) (ops : List BundleOp)
    (senderNonce : Nonces) (g₀ g : NFTGasLogic) (contexts : List (Bytes × Word))
    (hvalidates : Validates site balanceOf nft ops senderNonce g₀ contexts g) (steps : List Step)
    (horder : (settlements steps).Perm contexts) (hlimits : LimitsKept balanceOf nft steps g) :
    Settles balanceOf nft steps g ↔ ∀ user ∈ ops.map fun op => op.userOp.sender,
      Fits nft user g (costsOf user ops ++ taken balanceOf nft user steps g) := by
  obtain ⟨hcontexts, hholders⟩ := contexts_of_validates hvalidates
  have hholders : ∀ e ∈ settlements steps, NamesHolder balanceOf nft e :=
    fun e he => hholders e (horder.mem_iff.mp he)
  -- the order of the settlements does not matter: limits are on a count and on a sum
  have hcharges : ∀ user, (chargesOf user (settlements steps)).Perm (costsOf user ops) := by
    intro user
    rw [← chargesOf_entries, ← hcontexts]
    exact (horder.filter _).map _
  have hsender : ∀ user, chargesOf user (settlements steps) ≠ [] ↔
      user ∈ ops.map fun op => op.userOp.sender := by
    intro user
    rw [ne_eq, ← List.length_eq_zero_iff, (hcharges user).length_eq, List.length_eq_zero_iff]
    simp [costsOf, List.filter_eq_nil_iff]
  constructor
  · intro hsettles user huser
    refine (fits_of_perm ((hcharges user).append_right _)).mp ?_
    exact fits_of_settles hholders hlimits hsettles (Or.inl ((hsender user).mpr huser))
  · intro hfits
    refine settles_of_fits hholders hlimits fun user hne => ?_
    refine (fits_of_perm ((hcharges user).append_right _)).mpr ?_
    exact hfits user ((hsender user).mp hne)

end Validation

/-! ### One sender, twice -/

/-- A signature of `keyOne` for the next operation of the account 5. -/
def repeatDigest : Word := 0x418e67f75706074e297144c9c22fd24edcddca5d791201ec3e79cee49ea8c4b4

def repeatS : Word := 0x44b33189af1d3d0580ee58a06f4922a8db3515ae0868757627660e4d1a9564f5

def bundleSignatures : List (Word × UInt8 × Word × Word) :=
  [(sampleDigest, 27, sampleR, sampleS), (repeatDigest, 28, sampleR, repeatS)]

def bundleSite : Site := { sampleSite with ecrecover := knownSignatures keyOne bundleSignatures }

def repeatOp : UserOperation :=
  let paymasterAndData := Address.toBytes 9 ++ abiEncode [uint48Value 100, uint48Value 50] ++
    sampleR.toBytes ++ repeatS.toBytes ++ [28]
  { sampleOp with nonce := 1, paymasterAndData := paymasterAndData }

/-- Two operations of the account 5, each of which costs 60 of at most 80. -/
def bundle : List BundleOp :=
  [⟨sampleOp, 80, 60, by decide⟩, ⟨repeatOp, 80, 60, by decide⟩]

/-- The nonces after the first one. -/
def nextNonces : Nonces := Function.update (fun _ => 0) 5 (0 + 1)

theorem parse_repeatOp : parsePaymasterAndData repeatOp.paymasterAndData
    = .ok (100, 50, sampleR.toBytes ++ repeatS.toBytes ++ [28]) := by
  have hlayout : repeatOp.paymasterAndData = Address.toBytes 9 ++
      windowBytes 100 50 (sampleR.toBytes ++ repeatS.toBytes ++ [28]) := by
    simp only [repeatOp, windowBytes, List.append_assoc]
  rw [hlayout, parsePaymasterAndData_eq]
  exact parseWindow_windowBytes (Address.length_toBytes 9) 100 50 _

theorem hash_repeatOp : getHash bundleSite nextNonces repeatOp 100 50
    = 0xf32b9eaa8c32d805c762d59e6086ae8dea74bd817fb03845b2d3f7d0d4ea546a := by
  decide +kernel

theorem digest_repeatOp :
    ECDSA.toEthSignedMessageHash (getHash bundleSite nextNonces repeatOp 100 50)
      = repeatDigest := by
  rw [hash_repeatOp]
  decide +kernel

/-- A signature of the signer for an eligible holder is accepted. -/
theorem validate_of_recover {site : Site} {balanceOf : Collections} {g : NFTGasLogic}
    {nft : Address} {op : BundleOp} {senderNonce senderNonce' : Nonces} {signature : Bytes}
    {validUntil validAfter : Uint48}
    (heligible : Eligible balanceOf op.userOp.sender nft op.requiredPreFund g)
    (hparse : parsePaymasterAndData op.userOp.paymasterAndData
      = .ok (validUntil, validAfter, signature)) (hlen : signature.length = 65)
    (hbump : bumpNonce senderNonce op.userOp.sender = .ok senderNonce')
    (hrecover : ECDSA.recover site.ecrecover (ECDSA.toEthSignedMessageHash
      (getHash site senderNonce op.userOp validUntil validAfter)) signature
        = .ok site.verifyingSigner) :
    Paymaster.validatePaymasterUserOp .nft site
      ⟨site.entryPoint, op.userOp, op.requiredPreFund, view balanceOf g nft⟩ senderNonce
        = .ok ((abiEncode [addressValue op.userOp.sender],
            packValidationData false validUntil validAfter), senderNonce') := by
  obtain ⟨balance, hbalance, hpos⟩ := heligible.holder
  have hview : (view balanceOf g nft).isEligible op.userOp.sender nft op.requiredPreFund
      = .ok true := isEligible_eq_true_iff.mpr heligible
  unfold Paymaster.validatePaymasterUserOp
  rw [require_true rfl, ok_bind]
  show validateNFT site (view balanceOf g nft) op.userOp op.requiredPreFund senderNonce = _
  unfold validateNFT
  rw [show (view balanceOf g nft).balanceOf op.userOp.sender = .ok balance from hbalance, ok_bind,
    require_true hpos, ok_bind, show (view balanceOf g nft).nft = nft from rfl, hview, ok_bind,
    require_true rfl, ok_bind]
  unfold validateWith
  rw [hparse, ok_bind]
  exact checkApproval_of_recover _ validUntil validAfter hlen hbump hrecover

/-- Both operations are validated. -/
theorem validates_bundle : Validates bundleSite sampleHolders 12 bundle (fun _ => 0) sampleLogic
    (bundle.map BundleOp.entry) sampleLogic := by
  have heligible : Eligible sampleHolders 5 12 80 sampleLogic :=
    isEligible_eq_true_iff.mp (by decide)
  refine .validate (validate_of_recover heligible parse_sampleOp (by simp) bumpNonce_sample ?_)
    (authorizer_packValidationData false 100 50) (.validate (validate_of_recover heligible
      parse_repeatOp (by simp) (bumpNonce_eq_ok.mpr ⟨by decide, rfl⟩) ?_)
    (authorizer_packValidationData false 100 50) .done)
  · have hdigest : ECDSA.toEthSignedMessageHash (getHash bundleSite (fun _ => 0) sampleOp 100 50)
        = sampleDigest := digest_sampleApproval
    rw [hdigest]
    decide
  · have hdigest : ECDSA.toEthSignedMessageHash (getHash bundleSite nextNonces repeatOp 100 50)
        = repeatDigest := digest_repeatOp
    exact (congrArg (fun d => ECDSA.recover bundleSite.ecrecover d _) hdigest).trans (by decide)

/-- They are settled in their order. -/
def bundleSteps : List Step := bundle.map fun op => .postOp op.entry.1 op.entry.2

/-- The second settlement reverts. -/
theorem not_settles_bundle :
    Validates bundleSite sampleHolders 12 bundle (fun _ => 0) sampleLogic
      (bundle.map BundleOp.entry) sampleLogic ∧
    (settlements bundleSteps).Perm (bundle.map BundleOp.entry) ∧
    ¬Settles sampleHolders 12 bundleSteps sampleLogic := by
  refine ⟨validates_bundle, .refl _, ?_⟩
  intro hsettles
  have hcharges : chargesOf 5 (settlements bundleSteps) = [60, 60] :=
    (chargesOf_entries bundle).trans (by decide)
  have hholders : ∀ e ∈ settlements bundleSteps, NamesHolder sampleHolders 12 e :=
    (contexts_of_validates validates_bundle).2
  have hsome : chargesOf 5 (settlements bundleSteps) ≠ [] := by
    rw [hcharges]
    decide
  have hfits := fits_of_settles hholders trivial hsettles (Or.inl hsome)
  rw [hcharges] at hfits
  exact absurd hfits.1 (by decide)

theorem settles_iff_bundle :
    Settles sampleHolders 12 bundleSteps sampleLogic ↔
      ∀ user ∈ bundle.map fun op => op.userOp.sender, Fits 12 user sampleLogic
        (costsOf user bundle ++ taken sampleHolders 12 user bundleSteps sampleLogic) :=
  settles_iff bundleSite sampleHolders 12 bundle (fun _ => 0) sampleLogic sampleLogic
    (bundle.map BundleOp.entry) validates_bundle bundleSteps (.refl _) trivial

end Enclave.NFTPaymaster
