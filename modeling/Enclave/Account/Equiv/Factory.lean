import Enclave.Account.Equiv.Authority
import Enclave.Account.Factory
import Enclave.Balance.Equiv.SmartAccount
import Mathlib.Data.Set.Function

/-!
# Counterfactual addresses

`AccountSpec` is what the argument needs of an account: that the call of `initialize` during the
construction succeeds and leaves a known storage, and that no later call of it does anything.
`reliable_of_reachable` carries it to every state of the chain.
-/

namespace Enclave

/-- A call of `initialize` during the construction leaves the storage `initial`, without a call to
anyone; and later it writes nothing, for as long as the account's code is its own. -/
structure AccountSpec (K : AccountKind) where
  initial : Address → K.Args → K.Storage
  IsInitialize : Msg → Prop
  encodeCall_injective : Function.Injective K.encodeCall
  length_encodeCall : ∀ args, (K.encodeCall args).length < 256 ^ 32
  isInitialize : ∀ sender args, IsInitialize ⟨sender, 0, K.encodeCall args, false⟩
  constructing : ∀ env this logic sender args,
    Prog.eval env (K.constructing this logic ⟨sender, 0, K.encodeCall args, false⟩)
      (K.fresh logic) = .ok ([], initial logic args)
  calls : ∀ env this logic sender args,
    Prog.calls env (K.constructing this logic ⟨sender, 0, K.encodeCall args, false⟩)
      (K.fresh logic) = []
  once : ∀ this logic args c msg trace s p,
    Run (K.contract this logic) (fun _ _ => True) (.idle (initial logic args)) c →
    c.world.foreign = false → c.Runs msg trace (.put s p) → ¬IsInitialize msg

namespace Factory

variable {K : AccountKind} {F : Factory K} {U : Set (K.Args × Word)} {ch ch' : ChainState K}

/-! ### Addresses -/

/-- No two of the init codes have one hash, and no two of the strings that are hashed for an address
have one address. -/
structure CollisionFree (F : Factory K) (U : Set (K.Args × Word)) : Prop where
  hash : Set.InjOn keccak256 ((fun x => F.initCode x.1) '' U)
  address : Set.InjOn addressOf
    ((fun x => create2Preimage F.this x.2 (keccak256 (F.initCode x.1))) '' U)

/-- The opcode and the view function agree. -/
theorem create2Address_initCode (args : K.Args) (salt : Word) :
    create2Address F.this salt (F.initCode args) = F.getAccountAddress args salt :=
  (computeAddress_eq Memory.zero 0x80 F.this salt (F.initCode args)).symm

theorem initCode_injective (spec : AccountSpec K) : Function.Injective F.initCode := by
  intro args args' h
  have hencode : F.proxyArgs args = F.proxyArgs args' := List.append_cancel_left h
  have hkind : List.Forall₂ AbiValue.SameKind
      [.word (toWord F.accountImplementation), .bytes (K.encodeCall args)]
      [.word (toWord F.accountImplementation), .bytes (K.encodeCall args')] :=
    .cons trivial (.cons ⟨spec.length_encodeCall args, spec.length_encodeCall args'⟩ .nil)
  have hvalues := abiEncode_injective hkind hencode
  simp only [List.cons.injEq, AbiValue.bytes.injEq, and_true, true_and] at hvalues
  exact spec.encodeCall_injective hvalues

/-- Different arguments have different addresses. -/
theorem eq_of_getAccountAddress (spec : AccountSpec K) (hfree : CollisionFree F U)
    {x y : K.Args × Word} (hx : x ∈ U) (hy : y ∈ U)
    (h : F.getAccountAddress x.1 x.2 = F.getAccountAddress y.1 y.2) : x = y := by
  simp only [← create2Address_initCode] at h
  have hpreimage := hfree.address (Set.mem_image_of_mem _ hx) (Set.mem_image_of_mem _ hy) h
  obtain ⟨hsalt, hhash⟩ := create2Preimage_inj hpreimage
  have hcode := hfree.hash (Set.mem_image_of_mem _ hx) (Set.mem_image_of_mem _ hy) hhash
  exact Prod.ext (initCode_injective spec hcode) hsalt

/-! ### Deployment -/

/-- The constructor succeeds, and leaves the account initialised with the arguments. -/
theorem construct_eq (spec : AccountSpec K)
    (himpl : (ch.code F.accountImplementation).exists = true) (a : Address) (args : K.Args) :
    F.construct a args ch = .ok (spec.initial F.accountImplementation args) := by
  rw [construct, require_true himpl, ok_bind]
  dsimp only
  rw [spec.constructing, ok_bind]

/-- `createAccount` where there is code already. -/
theorem createAccount_of_exists {args : K.Args} {salt : Word}
    (h : (ch.code (F.getAccountAddress args salt)).exists = true) :
    F.createAccount args salt ch = .ok (F.getAccountAddress args salt, ch) := if_pos h

/-- `createAccount` where there is none. -/
theorem createAccount_of_vacant (spec : AccountSpec K)
    (himpl : (ch.code F.accountImplementation).exists = true) {args : K.Args} {salt : Word}
    (h : (ch.code (F.getAccountAddress args salt)).exists = false) :
    F.createAccount args salt ch = .ok (F.getAccountAddress args salt,
      { code := Function.update ch.code (F.getAccountAddress args salt)
          (.account (.idle (spec.initial F.accountImplementation args)))
        events := ch.events ++ K.created (F.getAccountAddress args salt) args }) := by
  rw [createAccount, if_neg (by rw [h]; exact Bool.false_ne_true), newProxy,
    create2Address_initCode, if_neg (by rw [h]; exact Bool.false_ne_true),
    construct_eq spec himpl, ok_bind, ok_bind]

/-! ### The chain -/

/-- `createAccount` has deployed the account of `x` where there was nothing, and its constructor has
initialised it with the arguments. -/
structure Deployment (spec : AccountSpec K) (F : Factory K) (U : Set (K.Args × Word))
    (x : K.Args × Word) (ch ch' : ChainState K) : Prop where
  reachable : F.Reachable U ch
  vacant : ch.code (F.getAccountAddress x.1 x.2) = .none
  created : F.createAccount x.1 x.2 ch = .ok (F.getAccountAddress x.1 x.2, ch')
  constructed : F.construct (F.getAccountAddress x.1 x.2) x.1 ch =
    .ok (spec.initial F.accountImplementation x.1)
  account : ch'.code (F.getAccountAddress x.1 x.2) =
    .account (.idle (spec.initial F.accountImplementation x.1))

/-- The account of `x`, from its deployment on. -/
structure Deployed (spec : AccountSpec K) (F : Factory K) (U : Set (K.Args × Word))
    (x : K.Args × Word) (ch : ChainState K) (c : Config K.Storage) : Prop where
  deployment : ∃ ch₀ ch₁, Deployment spec F U x ch₀ ch₁ ∧
    Relation.ReflTransGen (F.ChainStep U) ch₁ ch
  run : Run (K.contract (F.getAccountAddress x.1 x.2) F.accountImplementation) (fun _ _ => True)
    (.idle (spec.initial F.accountImplementation x.1)) c

/-- What holds in every state of the chain. -/
structure Inv (spec : AccountSpec K) (F : Factory K) (U : Set (K.Args × Word))
    (ch : ChainState K) : Prop where
  reachable : F.Reachable U ch
  implementation : (ch.code F.accountImplementation).exists = true
  derived : ∀ x ∈ U, ch.code (F.getAccountAddress x.1 x.2) = .none ∨
    ∃ c, ch.code (F.getAccountAddress x.1 x.2) = .account c ∧ Deployed spec F U x ch c

theorem Reachable.step (h : F.Reachable U ch) (hstep : F.ChainStep U ch ch') :
    F.Reachable U ch' := by
  obtain ⟨start, hstart, hrun⟩ := h
  exact ⟨start, hstart, hrun.tail hstep⟩

/-- The history of an account goes on. -/
theorem Deployed.step {spec : AccountSpec K} {x : K.Args × Word} {c c' : Config K.Storage}
    (h : Deployed spec F U x ch c) (hstep : F.ChainStep U ch ch')
    (hrun : Run (K.contract (F.getAccountAddress x.1 x.2) F.accountImplementation)
      (fun _ _ => True) c c') : Deployed spec F U x ch' c' := by
  obtain ⟨ch₀, ch₁, hdeployment, hchain⟩ := h.deployment
  exact ⟨⟨ch₀, ch₁, hdeployment, hchain.tail hstep⟩, h.run.trans hrun⟩

theorem exists_update {code : Address → Code K.Storage} {a b : Address} {new : Code K.Storage}
    (h : (code b).exists = true) (hnew : b = a → new.exists = true) :
    (Function.update code a new b).exists = true := by
  by_cases hab : b = a
  · rw [hab, Function.update_self]
    exact hnew hab
  · rw [Function.update_of_ne hab]
    exact h

/-- What a step does at a derived address: it leaves it alone, it deploys the account there, or it
is a step of the account. -/
theorem code_of_step (spec : AccountSpec K) (hfree : CollisionFree F U) (hinv : Inv spec F U ch)
    (hstep : F.ChainStep U ch ch') {x : K.Args × Word} (hx : x ∈ U) :
    ch'.code (F.getAccountAddress x.1 x.2) = ch.code (F.getAccountAddress x.1 x.2) ∨
    Deployment spec F U x ch ch' ∨
    ∃ c act c', ch.code (F.getAccountAddress x.1 x.2) = .account c ∧
      ch'.code (F.getAccountAddress x.1 x.2) = .account c' ∧
      Step (K.contract (F.getAccountAddress x.1 x.2) F.accountImplementation) c act c' := by
  cases hstep with
  | create args salt addr hU h =>
    cases hexists : (ch.code (F.getAccountAddress args salt)).exists with
    | true =>
      -- the factory returns the address of what is there
      rw [createAccount_of_exists hexists] at h
      cases h
      exact Or.inl rfl
    | false =>
      have hcreated := createAccount_of_vacant spec hinv.implementation hexists
      rw [hcreated] at h
      cases h
      by_cases hxy : x = (args, salt)
      · subst hxy
        have hnone : ch.code (F.getAccountAddress args salt) = .none := by
          rcases hinv.derived _ hx with hnone | ⟨c, hc, -⟩
          · exact hnone
          · rw [hc] at hexists
            cases hexists
        exact Or.inr (Or.inl ⟨hinv.reachable, hnone, hcreated,
          construct_eq spec hinv.implementation _ _, Function.update_self ..⟩)
      · -- an account for other arguments has another address
        have hne : F.getAccountAddress x.1 x.2 ≠ F.getAccountAddress args salt := fun heq =>
          hxy (@eq_of_getAccountAddress _ _ _ spec hfree x (args, salt) hx hU heq)
        left
        dsimp only
        rw [Function.update_of_ne hne]
  | use a act hcode hstep =>
    by_cases heq : F.getAccountAddress x.1 x.2 = a
    · subst heq
      exact Or.inr (Or.inr ⟨_, act, _, hcode, Function.update_self .., hstep⟩)
    · exact Or.inl (Function.update_of_ne heq ..)
  | other a code hcode hfree himpl =>
    exact Or.inl (Function.update_of_ne (hfree x hx).symm ..)

theorem implementation_of_step (spec : AccountSpec K) (hinv : Inv spec F U ch)
    (hstep : F.ChainStep U ch ch') : (ch'.code F.accountImplementation).exists = true := by
  cases hstep with
  | create args salt addr hU h =>
    cases hexists : (ch.code (F.getAccountAddress args salt)).exists with
    | true =>
      rw [createAccount_of_exists hexists] at h
      cases h
      exact hinv.implementation
    | false =>
      rw [createAccount_of_vacant spec hinv.implementation hexists] at h
      cases h
      exact exists_update hinv.implementation fun _ => rfl
  | use a act hcode hstep => exact exists_update hinv.implementation fun _ => rfl
  | other a code hcode hfree himpl =>
    exact exists_update hinv.implementation fun heq => absurd heq.symm himpl

theorem inv_of_step (spec : AccountSpec K) (hfree : CollisionFree F U) (hinv : Inv spec F U ch)
    (hstep : F.ChainStep U ch ch') : Inv spec F U ch' := by
  refine ⟨hinv.reachable.step hstep, implementation_of_step spec hinv hstep, ?_⟩
  intro x hx
  rcases code_of_step spec hfree hinv hstep hx with hsame | hnew | ⟨c, act, c', hc, hc', hact⟩
  · rcases hinv.derived x hx with hnone | ⟨c, hc, hdeployed⟩
    · exact Or.inl (hsame.trans hnone)
    · exact Or.inr ⟨c, hsame.trans hc, hdeployed.step hstep .refl⟩
  · exact Or.inr ⟨_, hnew.account, ⟨ch, ch', hnew, .refl⟩, .refl⟩
  · rcases hinv.derived x hx with hnone | ⟨c₀, hc₀, hdeployed⟩
    · rw [hc] at hnone
      cases hnone
    · rw [hc] at hc₀
      cases hc₀
      exact Or.inr ⟨c', hc', hdeployed.step hstep (.single ⟨act, trivial, hact⟩)⟩

theorem inv_of_reachable (spec : AccountSpec K) (hfree : CollisionFree F U)
    (h : F.Reachable U ch) : Inv spec F U ch := by
  obtain ⟨start, hstart, hrun⟩ := h
  induction hrun with
  | refl =>
    exact ⟨⟨start, hstart, .refl⟩, by rw [hstart.implementation]; rfl,
      fun x hx => Or.inl (hstart.vacant x hx)⟩
  | tail _ hstep ih => exact inv_of_step spec hfree ih hstep

/-- An account that has been deployed goes on by its own steps. -/
theorem continues (spec : AccountSpec K) (hfree : CollisionFree F U) (hinv : Inv spec F U ch)
    {x : K.Args × Word} (hx : x ∈ U) {c : Config K.Storage}
    (hc : ch.code (F.getAccountAddress x.1 x.2) = .account c)
    (hrun : Relation.ReflTransGen (F.ChainStep U) ch ch') : Inv spec F U ch' ∧
      ∃ c', ch'.code (F.getAccountAddress x.1 x.2) = .account c' ∧
        Run (K.contract (F.getAccountAddress x.1 x.2) F.accountImplementation) (fun _ _ => True)
          c c' := by
  induction hrun with
  | refl => exact ⟨hinv, c, hc, .refl⟩
  | tail _ hstep ih =>
    obtain ⟨hinv, c₁, hc₁, hrun₁⟩ := ih
    refine ⟨inv_of_step spec hfree hinv hstep, ?_⟩
    rcases code_of_step spec hfree hinv hstep hx with hsame | hnew |
      ⟨c₂, act, c₃, hc₂, hc₃, hact⟩
    · exact ⟨c₁, hsame.trans hc₁, hrun₁⟩
    · have hnone := hnew.vacant
      rw [hc₁] at hnone
      cases hnone
    · rw [hc₁] at hc₂
      cases hc₂
      exact ⟨c₃, hc₃, hrun₁.tail ⟨act, trivial, hact⟩⟩

/-- What it means that the addresses of the arguments `U` can be relied on. -/
structure Reliable (spec : AccountSpec K) (F : Factory K) (U : Set (K.Args × Word))
    (ch : ChainState K) : Prop where
  /-- `createAccount` returns the address, whether there is an account or not. -/
  returns : ∀ x ∈ U, ∃ ch', F.createAccount x.1 x.2 ch = .ok (F.getAccountAddress x.1 x.2, ch')
  /-- Different arguments have different addresses. -/
  distinct : Set.InjOn (fun x => F.getAccountAddress x.1 x.2) U
  /-- Where there is no account yet, `createAccount` leaves one that its constructor has initialised
  with the arguments, and nothing else changes. -/
  deploys : ∀ x ∈ U, (ch.code (F.getAccountAddress x.1 x.2)).exists = false →
    F.construct (F.getAccountAddress x.1 x.2) x.1 ch =
      .ok (spec.initial F.accountImplementation x.1) ∧
    F.createAccount x.1 x.2 ch = .ok (F.getAccountAddress x.1 x.2,
      { code := Function.update ch.code (F.getAccountAddress x.1 x.2)
          (.account (.idle (spec.initial F.accountImplementation x.1)))
        events := ch.events ++ K.created (F.getAccountAddress x.1 x.2) x.1 })
  /-- The code at the address is that of an account which `createAccount` has deployed there, which
  its constructor has initialised with the arguments, and which has run since. -/
  initialised : ∀ x ∈ U, (ch.code (F.getAccountAddress x.1 x.2)).exists = true →
    ∃ c, ch.code (F.getAccountAddress x.1 x.2) = .account c ∧ Deployed spec F U x ch c
  /-- It is never deployed again. -/
  stays : ∀ x ∈ U, ∀ c, ch.code (F.getAccountAddress x.1 x.2) = .account c →
    ∀ ch', Relation.ReflTransGen (F.ChainStep U) ch ch' →
      ∃ c', ch'.code (F.getAccountAddress x.1 x.2) = .account c' ∧
        Run (K.contract (F.getAccountAddress x.1 x.2) F.accountImplementation) (fun _ _ => True)
          c c'
  /-- Nor is it initialised again: while its code is its own, no call of `initialize` writes. -/
  once : ∀ x ∈ U, ∀ c, ch.code (F.getAccountAddress x.1 x.2) = .account c →
    c.world.foreign = false → ∀ msg trace s p, c.Runs msg trace (.put s p) →
      ¬spec.IsInitialize msg
  /-- `createAccount` leaves everything as it is where there is an account. -/
  unchanged : ∀ x ∈ U, (ch.code (F.getAccountAddress x.1 x.2)).exists = true →
    F.createAccount x.1 x.2 ch = .ok (F.getAccountAddress x.1 x.2, ch)

theorem reliable_of_reachable (spec : AccountSpec K) (hfree : CollisionFree F U)
    (h : F.Reachable U ch) : Reliable spec F U ch := by
  have hinv := inv_of_reachable spec hfree h
  refine ⟨?returns, ?distinct, ?deploys, ?initialised, ?stays, ?once, ?unchanged⟩
  case returns =>
    intro x hx
    cases hexists : (ch.code (F.getAccountAddress x.1 x.2)).exists with
    | true => exact ⟨ch, createAccount_of_exists hexists⟩
    | false => exact ⟨_, createAccount_of_vacant spec hinv.implementation hexists⟩
  case distinct =>
    intro x hx y hy h
    exact eq_of_getAccountAddress spec hfree hx hy h
  case deploys =>
    intro x hx hvacant
    exact ⟨construct_eq spec hinv.implementation _ _,
      createAccount_of_vacant spec hinv.implementation hvacant⟩
  case initialised =>
    intro x hx hexists
    rcases hinv.derived x hx with hnone | hdeployed
    · rw [hnone] at hexists
      cases hexists
    · exact hdeployed
  case stays =>
    intro x hx c hc ch' hrun
    exact (continues spec hfree hinv hx hc hrun).2
  case once =>
    -- the account that is there has run from its initial storage on
    intro x hx c hc hlive msg trace s p hruns
    rcases hinv.derived x hx with hnone | ⟨c₀, hc₀, hdeployed⟩
    · rw [hc] at hnone
      cases hnone
    · rw [hc] at hc₀
      cases hc₀
      exact spec.once _ _ _ _ _ _ _ _ hdeployed.run hlive hruns
  case unchanged =>
    intro x hx hexists
    exact createAccount_of_exists hexists

end Factory

/-! ### `P256SmartAccount` -/

namespace P256SmartAccount

/-- The arguments of `initialize` are decoded as they were encoded. -/
theorem decode_encodeCall (key : Word × Word) (registry : Address) :
    requireHead (abiEncode [.word key.1, .word key.2, word registry]) 96 = .ok () ∧
    abiDecodePair (abiEncode [.word key.1, .word key.2, word registry]) 0 = .ok key ∧
    abiDecodeAddress (abiEncode [.word key.1, .word key.2, word registry]) 64 = .ok registry := by
  have hwords : abiEncode [.word key.1, .word key.2, word registry] =
      key.1.toBytes ++ (key.2.toBytes ++ ((toWord registry).toBytes ++ [])) := by
    rw [List.append_nil]
    exact (abiEncode_words [key.1, key.2, toWord registry]).trans (by simp)
  refine ⟨?_, ?_, ?_⟩
  · rw [hwords]
    exact if_neg (by simp)
  · have h0 := abiDecodeWord_words [key.1, key.2, toWord registry] 0 (by simp)
    have h1 := abiDecodeWord_words [key.1, key.2, toWord registry] 1 (by simp)
    exact bind_eq_ok.mpr ⟨key.1, h0, bind_eq_ok.mpr ⟨key.2, h1, rfl⟩⟩
  · rw [hwords, ← List.append_assoc]
    exact abiDecodeBits_toWord (by decide) registry (by simp)

/-- `initialize` in the constructor. -/
theorem constructing_encodeCall (this logic sender : Address) (key : Word × Word)
    (registry : Address) :
    constructing this logic ⟨sender, 0, Method.initializeAccount.selector ++
      abiEncode [.word key.1, .word key.2, word registry], false⟩ =
      noReturn (Prog.modify (initializeAccount false key registry)) := by
  obtain ⟨hhead, hkey, hregistry⟩ := decode_encodeCall key registry
  unfold constructing
  rw [ofCalldata_append]
  show (Prog.lift (requireHead (abiEncode [.word key.1, .word key.2, word registry]) 96) >>=
      fun _ =>
    Prog.lift (abiDecodePair (abiEncode [.word key.1, .word key.2, word registry]) 0) >>=
      fun key' =>
    Prog.lift (abiDecodeAddress (abiEncode [.word key.1, .word key.2, word registry]) 64) >>=
      fun registry' => noReturn (Prog.modify (initializeAccount false key' registry'))) = _
  rw [hhead, hkey, hregistry]
  rfl

/-- The storage right after `initialize`. -/
def initial (logic : Address) (args : (Word × Word) × Address) : Storage :=
  { fresh logic with initialized := 1, enclaveRegistry := args.2, pubKey := args.1 }

/-- A later call of `initialize` writes nothing. -/
theorem not_initialize_of_runs {this logic : Address} {args : (Word × Word) × Address}
    {c : Config Storage} {msg : Msg} {trace : Trace} {s : Storage} {p : Prog Storage Bytes}
    (hrun : Run (contract this logic) (fun _ _ => True) (.idle (initial logic args)) c)
    (hlive : c.world.foreign = false) (hruns : c.Runs msg trace (.put s p)) :
    ¬Method.ofCalldata msg.data = some .initializeAccount := by
  intro hmethod
  have hinit : Initialised logic args.2 (initial logic args) := ⟨rfl, rfl, rfl, rfl, rfl, rfl⟩
  have hwrite := (ensures_of_runs (sound_of_account_run hinit hrun) hlive hruns).1
  cases hwrite with
  | transferOwnership key hm hsender => cases hmethod.symm.trans hm
  | guardians isGuardian guardians hm hsender =>
    rcases hm with hm | hm
    · cases hmethod.symm.trans hm
    · cases hmethod.symm.trans hm
  | upgrade newImplementation hm hsender =>
    rcases hm with hm | hm
    · cases hmethod.symm.trans hm
    · cases hmethod.symm.trans hm

end P256SmartAccount

namespace P256SmartAccountFactory

open P256SmartAccount

theorem encodeCall_injective : Function.Injective kind.encodeCall := by
  intro args args' h
  have hvalues := abiEncode_injective (by repeat' constructor) (List.append_cancel_left h)
  simp only [word, List.cons.injEq, AbiValue.word.injEq, and_true] at hvalues
  obtain ⟨hx, hy, hregistry⟩ := hvalues
  exact Prod.ext (Prod.ext hx hy) (toWord_inj (by decide) hregistry)

theorem length_encodeCall (args : kind.Args) : (kind.encodeCall args).length = 100 := by
  show (Method.initializeAccount.selector ++
    abiEncode ([args.1.1, args.1.2, toWord args.2].map .word)).length = 100
  rw [List.length_append, length_abiEncode_of_words]
  rfl

theorem eval_constructing (env : Call → Reply) (this logic sender : Address) (args : kind.Args) :
    Prog.eval env (kind.constructing this logic ⟨sender, 0, kind.encodeCall args, false⟩)
      (kind.fresh logic) = .ok ([], initial logic args) :=
  congrArg (fun p => Prog.eval env p (fresh logic))
    (constructing_encodeCall this logic sender args.1 args.2)

theorem calls_constructing (env : Call → Reply) (this logic sender : Address) (args : kind.Args) :
    Prog.calls env (kind.constructing this logic ⟨sender, 0, kind.encodeCall args, false⟩)
      (kind.fresh logic) = [] :=
  congrArg (fun p => Prog.calls env p (fresh logic))
    (constructing_encodeCall this logic sender args.1 args.2)

/-- What the factory needs of a `P256SmartAccount`. -/
def spec : AccountSpec kind where
  initial := initial
  IsInitialize msg := Method.ofCalldata msg.data = some .initializeAccount
  encodeCall_injective := encodeCall_injective
  length_encodeCall args := by
    rw [length_encodeCall]
    decide
  isInitialize _ _ := ofCalldata_append _ _
  constructing := eval_constructing
  calls := calls_constructing
  once _ _ _ _ _ _ _ _ hrun hlive hruns := not_initialize_of_runs hrun hlive hruns

end P256SmartAccountFactory

/-! ### `SmartAccount` -/

namespace SmartAccount

/-- The arguments of `initialize` are decoded as they were encoded. -/
theorem decode_encodeCall (owner entrypoint : Address) :
    requireHead (abiEncode [.word (toWord owner), .word (toWord entrypoint)]) 64 = .ok () ∧
    abiDecodeAddress (abiEncode [.word (toWord owner), .word (toWord entrypoint)]) 0 = .ok owner ∧
    abiDecodeAddress (abiEncode [.word (toWord owner), .word (toWord entrypoint)]) 32 =
      .ok entrypoint := by
  have hwords : abiEncode [.word (toWord owner), .word (toWord entrypoint)] =
      (toWord owner).toBytes ++ ((toWord entrypoint).toBytes ++ []) := by
    rw [List.append_nil]
    exact (abiEncode_words [toWord owner, toWord entrypoint]).trans (by simp)
  refine ⟨?_, ?_, ?_⟩
  · rw [hwords]
    exact if_neg (by simp)
  · rw [hwords, ← List.nil_append ((toWord owner).toBytes ++ _)]
    exact abiDecodeBits_toWord (by decide) owner rfl
  · rw [hwords]
    exact abiDecodeBits_toWord (by decide) entrypoint (by simp)

/-- `initialize` in the constructor. -/
theorem dispatch_encodeCall (ecrecover : ECDSA.Ecrecover) (this logic sender owner
    entrypoint : Address) :
    dispatch ecrecover false this logic ⟨sender, 0, Method.initializeAccount.selector ++
      abiEncode [.word (toWord owner), .word (toWord entrypoint)], false⟩ =
      noReturn (Prog.modify (initializeAccount false owner entrypoint)) := by
  obtain ⟨hhead, howner, hentrypoint⟩ := decode_encodeCall owner entrypoint
  unfold dispatch
  rw [ofCalldata_append]
  show (Prog.lift (requireHead (abiEncode [.word (toWord owner), .word (toWord entrypoint)]) 64)
    >>= fun _ => Prog.lift (abiDecodeAddress
      (abiEncode [.word (toWord owner), .word (toWord entrypoint)]) 0) >>= fun owner' =>
    Prog.lift (abiDecodeAddress
      (abiEncode [.word (toWord owner), .word (toWord entrypoint)]) 32) >>= fun entrypoint' =>
    noReturn (Prog.modify (initializeAccount false owner' entrypoint'))) = _
  rw [hhead, howner, hentrypoint]
  rfl

/-- The storage right after `initialize`. -/
def initial (logic : Address) (args : Address × Address) : Storage :=
  { fresh logic with initialized := 1, owner := args.1, entrypoint := args.2 }

/-- A later call of `initialize` writes nothing. -/
theorem not_initialize_of_runs {ecrecover : ECDSA.Ecrecover} {this logic : Address}
    {args : Address × Address} {c : Config Storage} {msg : Msg} {trace : Trace} {s : Storage}
    {p : Prog Storage Bytes}
    (hrun : Run (contract ecrecover this logic) (fun _ _ => True) (.idle (initial logic args)) c)
    (hlive : c.world.foreign = false) (hruns : c.Runs msg trace (.put s p)) :
    ¬Method.ofCalldata msg.data = some .initializeAccount := by
  intro hmethod
  have hinit : Initialised logic args.1 args.2 (initial logic args) :=
    ⟨rfl, rfl, rfl, rfl, rfl, rfl, rfl⟩
  have hwrite := (ensures_of_runs (sound_of_account_run hinit hrun) hlive hruns).1
  rcases hwrite.method with hm | hm
  · cases hmethod.symm.trans hm
  · cases hmethod.symm.trans hm

end SmartAccount

namespace SmartAccountFactory

open SmartAccount

variable (ecrecover : ECDSA.Ecrecover)

theorem encodeCall_injective : Function.Injective (kind ecrecover).encodeCall := by
  intro args args' h
  have hvalues := abiEncode_injective (by repeat' constructor) (List.append_cancel_left h)
  simp only [List.cons.injEq, AbiValue.word.injEq, and_true] at hvalues
  obtain ⟨howner, hentrypoint⟩ := hvalues
  exact Prod.ext (toWord_inj (by decide) howner) (toWord_inj (by decide) hentrypoint)

theorem length_encodeCall (args : (kind ecrecover).Args) :
    ((kind ecrecover).encodeCall args).length = 68 := by
  show (Method.initializeAccount.selector ++
    abiEncode ([toWord args.1, toWord args.2].map .word)).length = 68
  rw [List.length_append, length_abiEncode_of_words]
  rfl

theorem eval_constructing (env : Call → Reply) (this logic sender : Address)
    (args : (kind ecrecover).Args) :
    Prog.eval env ((kind ecrecover).constructing this logic
      ⟨sender, 0, (kind ecrecover).encodeCall args, false⟩) ((kind ecrecover).fresh logic) =
      .ok ([], initial logic args) :=
  congrArg (fun p => Prog.eval env p (fresh logic))
    (dispatch_encodeCall ecrecover this logic sender args.1 args.2)

theorem calls_constructing (env : Call → Reply) (this logic sender : Address)
    (args : (kind ecrecover).Args) :
    Prog.calls env ((kind ecrecover).constructing this logic
      ⟨sender, 0, (kind ecrecover).encodeCall args, false⟩) ((kind ecrecover).fresh logic) = [] :=
  congrArg (fun p => Prog.calls env p (fresh logic))
    (dispatch_encodeCall ecrecover this logic sender args.1 args.2)

/-- What the factory needs of a `SmartAccount`. -/
def spec : AccountSpec (kind ecrecover) where
  initial := initial
  IsInitialize msg := Method.ofCalldata msg.data = some .initializeAccount
  encodeCall_injective := encodeCall_injective ecrecover
  length_encodeCall args := by
    rw [length_encodeCall]
    decide
  isInitialize _ _ := ofCalldata_append _ _
  constructing := eval_constructing ecrecover
  calls := calls_constructing ecrecover
  once _ _ _ _ _ _ _ _ hrun hlive hruns := not_initialize_of_runs hrun hlive hruns

end SmartAccountFactory

/-- **Counterfactual addresses are reliable**, for both factories: in every state that the chain
reaches by calls of `createAccount` with arguments from `U`, by anyone, and any use of the
accounts. -/
theorem counterfactual_addresses :
    (∀ (F : Factory P256SmartAccountFactory.kind) U ch, F.CollisionFree U → F.Reachable U ch →
      Factory.Reliable P256SmartAccountFactory.spec F U ch) ∧
    ∀ ecrecover (F : Factory (SmartAccountFactory.kind ecrecover)) U ch, F.CollisionFree U →
      F.Reachable U ch → Factory.Reliable (SmartAccountFactory.spec ecrecover) F U ch :=
  ⟨fun _ _ _ hfree h => Factory.reliable_of_reachable _ hfree h,
    fun _ _ _ _ hfree h => Factory.reliable_of_reachable _ hfree h⟩

/-! ### A factory at 9 with the implementation 4 -/

/-- Nothing but the implementation. -/
def emptyChain (K : AccountKind) : ChainState K where
  code a := if a = 4 then .other else .none
  events := []

/-- A factory whose proxies have no creation code of their own. -/
def sampleFactory (K : AccountKind) : Factory K := ⟨9, 4, []⟩

theorem collisionFree_pair {K : AccountKind} {F : Factory K} {x y : K.Args × Word}
    (hhash : keccak256 (F.initCode x.1) ≠ keccak256 (F.initCode y.1))
    (haddress : F.getAccountAddress x.1 x.2 ≠ F.getAccountAddress y.1 y.2) :
    F.CollisionFree {x, y} := by
  rw [← Factory.create2Address_initCode, ← Factory.create2Address_initCode] at haddress
  constructor
  · rw [Set.image_pair, Set.injOn_pair]
    exact fun h => absurd h hhash
  · rw [Set.image_pair, Set.injOn_pair]
    exact fun h => absurd h haddress

theorem start_emptyChain {K : AccountKind} {U : Set (K.Args × Word)}
    (h : ∀ x ∈ U, (sampleFactory K).getAccountAddress x.1 x.2 ≠ 4) :
    (sampleFactory K).Start U (emptyChain K) :=
  ⟨rfl, fun x hx => if_neg (h x hx)⟩

/-- Arguments with one registry and one salt, for different keys. -/
def sampleKey (key : Word × Word) : P256SmartAccountFactory.kind.Args × Word := ((key, 1), 7)

/-- `SmartAccount` with a precompile that recovers nobody. -/
def sampleKind : AccountKind := SmartAccountFactory.kind fun _ _ _ _ => 0

def sampleSpec : AccountSpec sampleKind := SmartAccountFactory.spec fun _ _ _ _ => 0

/-- Arguments with one entry point and one salt, for different owners. -/
def sampleOwner (owner : Address) : sampleKind.Args × Word := ((owner, 1), 7)

theorem hash_sampleKeys :
    keccak256 ((sampleFactory _).initCode (sampleKey (2, 3)).1)
        = 0x0f05460e13e1921e63ffc2d841ccc6f7413182d3bf2b37feef7acacff68ba274 ∧
      keccak256 ((sampleFactory _).initCode (sampleKey (5, 6)).1)
        = 0xe9654c07a6af15b9ff2bdd05efb9b9ac0883a1dccd850c2a6c5ffd3ab3c349db := by
  decide +kernel

theorem address_sampleKeys :
    (sampleFactory _).getAccountAddress (sampleKey (2, 3)).1 (sampleKey (2, 3)).2
        = 0x766329fa318ded96f93b90dc1126b24676419aa5 ∧
      (sampleFactory _).getAccountAddress (sampleKey (5, 6)).1 (sampleKey (5, 6)).2
        = 0xc7a5542691aaa6446eade19fcdd5badad52859a0 := by
  rw [← Factory.create2Address_initCode, ← Factory.create2Address_initCode, create2Address,
    create2Address, hash_sampleKeys.1, hash_sampleKeys.2]
  decide +kernel

theorem start_sampleKeys : (sampleFactory P256SmartAccountFactory.kind).Start
    {sampleKey (2, 3), sampleKey (5, 6)} (emptyChain _) := by
  apply start_emptyChain
  rintro x (rfl | rfl)
  · rw [address_sampleKeys.1]
    decide
  · rw [address_sampleKeys.2]
    decide

theorem collisionFree_sampleKeys :
    (sampleFactory _).CollisionFree {sampleKey (2, 3), sampleKey (5, 6)} := by
  apply collisionFree_pair
  · rw [hash_sampleKeys.1, hash_sampleKeys.2]
    decide
  · rw [address_sampleKeys.1, address_sampleKeys.2]
    decide

theorem hash_sampleOwners :
    keccak256 ((sampleFactory _).initCode (sampleOwner 2).1)
        = 0x2f3bb6bf32682d41d92ebe624c92f64ebe8cf040f221f0444742d0f6eb041ae4 ∧
      keccak256 ((sampleFactory _).initCode (sampleOwner 3).1)
        = 0x50f33b239fa7e75230f77f7bda3834e6a174778ebcb40e9fe25cab1cfa1397cc := by
  decide +kernel

theorem address_sampleOwners :
    (sampleFactory _).getAccountAddress (sampleOwner 2).1 (sampleOwner 2).2
        = 0x6e161c2f6bf9975c94902369734467413238aace ∧
      (sampleFactory _).getAccountAddress (sampleOwner 3).1 (sampleOwner 3).2
        = 0x842f530cae9087d353f9355485e5dc90ce9ab1a4 := by
  rw [← Factory.create2Address_initCode, ← Factory.create2Address_initCode, create2Address,
    create2Address, hash_sampleOwners.1, hash_sampleOwners.2]
  decide +kernel

theorem start_sampleOwners :
    (sampleFactory sampleKind).Start {sampleOwner 2, sampleOwner 3} (emptyChain _) := by
  apply start_emptyChain
  rintro x (rfl | rfl)
  · rw [address_sampleOwners.1]
    decide
  · rw [address_sampleOwners.2]
    decide

theorem collisionFree_sampleOwners :
    (sampleFactory _).CollisionFree {sampleOwner 2, sampleOwner 3} := by
  apply collisionFree_pair
  · rw [hash_sampleOwners.1, hash_sampleOwners.2]
    decide
  · rw [address_sampleOwners.1, address_sampleOwners.2]
    decide

/-- The account of the key (2, 3) is deployed where it was announced.  After the accounts of the
owners 2 and 3 have been deployed, and while 5 calls the first one, they are where they were
announced too. -/
theorem counterfactual_addresses_sample :
    (∃ ch, (sampleFactory P256SmartAccountFactory.kind).createAccount ((2, 3), 1) 7
        (emptyChain _) =
          .ok ((sampleFactory P256SmartAccountFactory.kind).getAccountAddress ((2, 3), 1) 7, ch) ∧
      Factory.Reliable P256SmartAccountFactory.spec (sampleFactory _)
        {sampleKey (2, 3), sampleKey (5, 6)} ch) ∧
    ∃ ch : ChainState sampleKind,
      ch.events = [⟨0x6e161c2f6bf9975c94902369734467413238aace, 2⟩,
        ⟨0x842f530cae9087d353f9355485e5dc90ce9ab1a4, 3⟩] ∧
      (∃ c, ch.code 0x6e161c2f6bf9975c94902369734467413238aace = .account c ∧ c.stack ≠ []) ∧
      Factory.Reliable sampleSpec (sampleFactory _) {sampleOwner 2, sampleOwner 3} ch := by
  constructor
  · have hcreate := @Factory.createAccount_of_vacant _ (sampleFactory _) _
      P256SmartAccountFactory.spec rfl ((2, 3), 1) 7
      (congrArg Code.exists (start_sampleKeys.vacant (sampleKey (2, 3)) (Or.inl rfl)))
    refine ⟨_, hcreate, counterfactual_addresses.1 _ _ _ collisionFree_sampleKeys
      ⟨_, start_sampleKeys, .single ?_⟩⟩
    exact .create ((2, 3), 1) 7 _ (Or.inl rfl) hcreate
  · obtain ⟨haddress, haddress'⟩ := address_sampleOwners
    have hreliable : ∀ ch, (sampleFactory sampleKind).Reachable {sampleOwner 2, sampleOwner 3} ch →
        Factory.Reliable sampleSpec (sampleFactory _) {sampleOwner 2, sampleOwner 3} ch :=
      fun ch h => counterfactual_addresses.2 _ _ _ ch collisionFree_sampleOwners h
    have hstart : (sampleFactory sampleKind).Reachable _ _ := ⟨_, start_sampleOwners, .refl⟩
    have hcreate := ((hreliable _ hstart).deploys (sampleOwner 2) (Or.inl rfl)
      (congrArg Code.exists (start_sampleOwners.vacant _ (Or.inl rfl)))).2
    have hfirst := hstart.step (.create _ _ _ (Or.inl rfl) hcreate)
    rw [haddress] at hfirst
    have hcreate' := ((hreliable _ hfirst).deploys (sampleOwner 3) (Or.inr rfl)
      (by rw [haddress']; rfl)).2
    have hsecond := hfirst.step (.create _ _ _ (Or.inr rfl) hcreate')
    rw [haddress'] at hsecond
    have hcall := hsecond.step (.use 0x6e161c2f6bf9975c94902369734467413238aace
      (.enter ⟨5, 0, [], false⟩) rfl (.enter _ rfl rfl (by decide) (by decide)))
    refine ⟨_, ?_, ⟨_, rfl, ?_⟩, hreliable _ hcall⟩
    · rfl
    · exact List.cons_ne_nil _ _

end Enclave
