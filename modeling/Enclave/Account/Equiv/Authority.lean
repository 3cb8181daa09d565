import Enclave.Account.Equiv.Calldata
import Enclave.Account.Equiv.Discipline

/-!
# Who can do what with an account

An initialised account among arbitrary callers and callees, up to its first upgrade.

* `account_authority`: along every run, the key, the guardians, the implementation, the deposit and
  the calls of a chosen target are in the hands of the callers that the source names, and the
  registry and the initialised flag stay;
* `FromEntryPoint`: a chosen call comes, through calls of the account to itself, from a call of
  `execute` or `executeBatch` by the address that the registry gave as the entry point;
* `run_executeBy`: what the entry point chooses is called, be it `withdrawTo` of the entry point
  itself.
-/

namespace Enclave.P256SmartAccount

variable {this logic registry : Address}

/-- `initialize` makes a new proxy such an account. -/
theorem initialised_of_initialize (deployed : Bool) (key : Word × Word) :
    ∃ s, initializeAccount deployed key registry (fresh logic) = .ok s ∧
      Initialised logic registry s :=
  ⟨_, initializeAccount_fresh deployed logic key registry, rfl, rfl, rfl, rfl, rfl, rfl⟩

theorem inv_of_write {msg : Msg} {s s' : Storage} (hs : Initialised logic registry s)
    (hwrite : OwnWrite this msg s s') (hlive : s'.upgraded.isEmpty = true) :
    Initialised logic registry s' := by
  cases hwrite with
  | transferOwnership key hmethod hsender =>
    exact ⟨hs.initialized, hs.initializing, hs.registry, hs.implementation, hs.rollback,
      hs.upgraded⟩
  | guardians isGuardian guardians hmethod hsender =>
    exact ⟨hs.initialized, hs.initializing, hs.registry, hs.implementation, hs.rollback,
      hs.upgraded⟩
  | upgrade newImplementation hmethod hsender => cases hlive

/-- Every configuration of a run from an initialised account is sound. -/
theorem sound_of_account_run {P : Config Storage → Action Storage → Prop} {s : Storage}
    (hs : Initialised logic registry s) {c : Config Storage}
    (hrun : Run (contract this logic) P (.idle s) c) :
    Config.Sound (contract this logic) (discipline this logic registry) c :=
  sound_of_run (fun _ _ hinv => body_ensures hinv)
    (fun _ _ _ _ hinv hwrite hlive => inv_of_write hinv hwrite hlive) hs hrun

/-! ### Beneath the entry point -/

/-- The innermost frame of the stack is a call of `execute` or `executeBatch` which the entry point
made, or which the account made to itself in such a frame. -/
def FromEntryPoint (this registry : Address) : List (Frame Storage) → Prop :=
  Beneath this Executes fun msg trace => EntryPointIs registry trace msg.sender

/-- Calldata of a function of the account, other than `proxiableUUID`. -/
def OwnFunction (data : Bytes) : Prop :=
  ∃ m, Method.ofCalldata data = some m ∧ m ≠ .proxiableUUID

theorem ownFunction_of_executes (msg : Msg) (h : Executes msg) : OwnFunction msg.data := by
  rcases h with h | h
  · exact ⟨_, h, by decide⟩
  · exact ⟨_, h, by decide⟩

/-- A call of the account to itself which is a call of one of its functions, other than
`proxiableUUID`, is a chosen call. -/
theorem chosen_of_ownFunction (msg : Msg) (s : Storage) (τ : Trace) (c : Call)
    (hcall : (discipline this logic registry).call msg s τ c)
    (hkind : c.kind = .call ∨ c.kind = .staticcall) (hown : OwnFunction c.data) :
    Executes msg ∧ (msg.sender ≠ this → EntryPointIs registry τ msg.sender) := by
  obtain ⟨m, hm, hne⟩ := hown
  rcases hcall with hown | ⟨-, hmethod, hcleared⟩
  · cases hown with
    | view target m' args => exact absurd (ofCalldata_encode hm) hne
    | codesize target => rcases hkind with hkind | hkind <;> cases hkind
    | deposit ep value hep => exact absurd (ofCalldata_encode hm) hne
    | withdraw ep dest amount hep hsender => exact absurd (ofCalldata_encode hm) hne
    | prefund value hep => cases hm
    | migrate target data hupgraded => rcases hkind with hkind | hkind <;> cases hkind
  · exact ⟨hmethod, hcleared.resolve_left⟩

/-! ### One step -/

/-- What a step can do to the account while its code is its own. -/
structure StepAuthority (this registry : Address) (c : Config Storage) (a : Action Storage)
    (c' : Config Storage) : Prop where
  /-- The key changes inside `transferOwnership`, called by the account or a current guardian. -/
  pubKey : c'.world.storage.pubKey ≠ c.world.storage.pubKey → RolledBack c a c' ∨
    ∃ msg trace p, c.Runs msg trace p ∧
      Method.ofCalldata msg.data = some .transferOwnership ∧
      (msg.sender = this ∨ c.world.storage.isGuardian msg.sender = true)
  /-- The guardians change in calls of the account to itself. -/
  isGuardian : c'.world.storage.isGuardian ≠ c.world.storage.isGuardian → RolledBack c a c' ∨
    ∃ msg trace p, c.Runs msg trace p ∧ msg.sender = this
  /-- So does the implementation. -/
  implementation : c'.world.storage.implementation ≠ c.world.storage.implementation →
    RolledBack c a c' ∨ ∃ msg trace p, c.Runs msg trace p ∧ msg.sender = this
  /-- A call is one of those written in the source, or it is made beneath a call of `execute` or
  `executeBatch` by the entry point. -/
  calls : ∀ msg trace cl k, c.Runs msg trace (.call cl k) →
    OwnCall this registry msg c.world.storage trace cl ∨
      cl.kind = .call ∧ FromEntryPoint this registry c.stack
  /-- A withdrawal is asked for in a call of the account to itself, or by such a chosen call. -/
  withdrawals : ∀ msg trace cl k, c.Runs msg trace (.call cl k) → cl.kind = .call →
    cl.data.take 4 = Callee.withdrawTo.selector →
    msg.sender = this ∨ FromEntryPoint this registry c.stack
  /-- Whatever the account calls of itself, it calls beneath the entry point. -/
  selfCalls : ∀ msg trace control saved st m, c.stack = .own msg trace control saved :: st →
    msg.sender = this → Method.ofCalldata msg.data = some m → m ≠ .proxiableUUID →
    FromEntryPoint this registry st
  /-- The registry and the initialised flag stay. -/
  fixed : c'.world.storage.enclaveRegistry = registry ∧ c'.world.storage.initialized = 1 ∧
    c'.world.storage.initializing = false

section Step

variable {c c' : Config Storage} {a : Action Storage}
  (hsound : Config.Sound (contract this logic) (discipline this logic registry) c)
  (hlive : c.world.foreign = false)

include hsound hlive

/-- The storage changes by a write of the account, or a frame fails. -/
theorem write_of_step (hstep : Step (contract this logic) c a c') :
    c'.world = c.world ∨ RolledBack c a c' ∨
      ∃ msg trace s p, c.Runs msg trace (.put s p) ∧ c'.world.storage = s ∧
        OwnWrite this msg c.world.storage s := by
  rcases world_of_step hstep hlive with hsame | hback | ⟨msg, trace, s, p, -, hruns, hs⟩ |
    ⟨msg, trace, cl, k, hruns, hkind⟩
  · exact Or.inl hsame
  · exact Or.inr (Or.inl hback)
  · exact Or.inr (Or.inr ⟨msg, trace, s, p, hruns, hs, (ensures_of_runs hsound hlive hruns).1⟩)
  · -- the storage is handed to other code only after an upgrade
    rcases (ensures_of_runs hsound hlive hruns).1 with hown | ⟨hcall, -⟩
    · cases hown with
      | view target m args => cases hkind
      | codesize target => cases hkind
      | deposit ep value hep => cases hkind
      | withdraw ep dest amount hep hsender => cases hkind
      | prefund value hep => cases hkind
      | migrate target data hupgraded => exact absurd (hsound.1 hlive).upgraded hupgraded
    · rw [hkind] at hcall
      cases hcall

/-- Below a frame that the account opened by calling one of its functions, there is a frame that
comes from the entry point. -/
theorem fromEntryPoint_of_self {msg : Msg} {trace : Trace} {control : Control Storage}
    {saved : World Storage} {st : List (Frame Storage)}
    (hst : c.stack = .own msg trace control saved :: st) (hsender : msg.sender = this)
    (hdata : OwnFunction msg.data) : FromEntryPoint this registry st :=
  beneath_of_self chosen_of_ownFunction ownFunction_of_executes hsound hlive hst hsender hdata

theorem calls_of_runs {msg : Msg} {trace : Trace} {cl : Call} {k : Reply → Prog Storage Bytes}
    (hruns : c.Runs msg trace (.call cl k)) :
    OwnCall this registry msg c.world.storage trace cl ∨
      cl.kind = .call ∧ FromEntryPoint this registry c.stack := by
  rcases (ensures_of_runs hsound hlive hruns).1 with hown | ⟨hkind, hmethod, hcleared⟩
  · exact Or.inl hown
  · exact Or.inr ⟨hkind, beneath_of_runs chosen_of_ownFunction ownFunction_of_executes hsound hlive
      hruns hmethod hcleared.resolve_left⟩

/-- A part of the storage changes by a write that changes it, or a frame fails. -/
theorem write_of_ne {α : Type} (part : Storage → α) (hstep : Step (contract this logic) c a c')
    (hne : part c'.world.storage ≠ part c.world.storage) :
    RolledBack c a c' ∨ ∃ msg trace s p, c.Runs msg trace (.put s p) ∧
      OwnWrite this msg c.world.storage s ∧ part s ≠ part c.world.storage := by
  rcases write_of_step hsound hlive hstep with hsame | hback | ⟨msg, trace, s, p, hruns, hs, hwrite⟩
  · rw [hsame] at hne
    exact absurd rfl hne
  · exact Or.inl hback
  · rw [hs] at hne
    exact Or.inr ⟨msg, trace, s, p, hruns, hwrite, hne⟩

end Step

/-- A step from a sound configuration. -/
theorem stepAuthority_of_sound {c c' : Config Storage} {a : Action Storage}
    (hsound : Config.Sound (contract this logic) (discipline this logic registry) c)
    (hlive : c.world.foreign = false) (hstep : Step (contract this logic) c a c') :
    StepAuthority this registry c a c' := by
  have hinv : Initialised logic registry c.world.storage := hsound.1 hlive
  have hwrite := write_of_step hsound hlive hstep
  refine ⟨?pubKey, ?isGuardian, ?implementation, ?calls, ?withdrawals, ?selfCalls, ?fixed⟩
  case pubKey =>
    intro hne
    rcases write_of_ne hsound hlive Storage.pubKey hstep hne with hback |
      ⟨msg, trace, s, p, hruns, hwrite, hne⟩
    · exact Or.inl hback
    cases hwrite with
    | transferOwnership key hmethod hsender =>
      exact Or.inr ⟨msg, trace, _, hruns, hmethod, hsender⟩
    | guardians isGuardian guardians hmethod hsender => exact absurd rfl hne
    | upgrade newImplementation hmethod hsender => exact absurd rfl hne
  case isGuardian =>
    intro hne
    rcases write_of_ne hsound hlive Storage.isGuardian hstep hne with hback |
      ⟨msg, trace, s, p, hruns, hwrite, hne⟩
    · exact Or.inl hback
    cases hwrite with
    | transferOwnership key hmethod hsender => exact absurd rfl hne
    | guardians isGuardian guardians hmethod hsender =>
      exact Or.inr ⟨msg, trace, _, hruns, hsender⟩
    | upgrade newImplementation hmethod hsender => exact absurd rfl hne
  case implementation =>
    intro hne
    rcases write_of_ne hsound hlive Storage.implementation hstep hne with hback |
      ⟨msg, trace, s, p, hruns, hwrite, hne⟩
    · exact Or.inl hback
    cases hwrite with
    | transferOwnership key hmethod hsender => exact absurd rfl hne
    | guardians isGuardian guardians hmethod hsender => exact absurd rfl hne
    | upgrade newImplementation hmethod hsender => exact Or.inr ⟨msg, trace, _, hruns, hsender⟩
  case calls =>
    intro msg trace cl k hruns
    exact calls_of_runs hsound hlive hruns
  case withdrawals =>
    -- by `withdrawDepositTo`, or by a call that `execute` was told to make
    intro msg trace cl k hruns hkind hdata
    rcases calls_of_runs hsound hlive hruns with hown | ⟨-, hep⟩
    · cases hown with
      | view target m args => cases hkind
      | codesize target => cases hkind
      | deposit ep value hep => cases hdata
      | withdraw ep dest amount hep hsender => exact Or.inl hsender
      | prefund value hep => cases hdata
      | migrate target data hupgraded => cases hkind
    · exact Or.inr hep
  case selfCalls =>
    intro msg trace control saved st m hst hsender hm hne
    exact fromEntryPoint_of_self hsound hlive hst hsender ⟨m, hm, hne⟩
  case fixed =>
    rcases hwrite with hsame | hback | ⟨msg, trace, s, p, hruns, hs, hwrite⟩
    · rw [hsame]
      exact ⟨hinv.registry, hinv.initialized, hinv.initializing⟩
    · have hinv' : Initialised logic registry c'.world.storage :=
        inv_of_rolledBack hsound hlive hback
      exact ⟨hinv'.registry, hinv'.initialized, hinv'.initializing⟩
    · rw [hs]
      cases hwrite with
      | transferOwnership key hmethod hsender =>
        exact ⟨hinv.registry, hinv.initialized, hinv.initializing⟩
      | guardians isGuardian guardians hmethod hsender =>
        exact ⟨hinv.registry, hinv.initialized, hinv.initializing⟩
      | upgrade newImplementation hmethod hsender =>
        exact ⟨hinv.registry, hinv.initialized, hinv.initializing⟩

/-! ### Callers without authority -/

/-- Nobody calls who is a guardian at that moment, and no frame has a sender that the registry gives
as the entry point. -/
def Powerless (registry : Address) (c : Config Storage) (a : Action Storage) : Prop :=
  (∀ msg, a = .enter msg → c.world.storage.isGuardian msg.sender = false) ∧
  ∀ msg trace control saved, Frame.own msg trace control saved ∈ c.stack →
    ¬EntryPointIs registry trace msg.sender

theorem not_fromEntryPoint {st : List (Frame Storage)}
    (h : ∀ msg trace control saved, Frame.own msg trace control saved ∈ st →
      ¬EntryPointIs registry trace msg.sender) : ¬FromEntryPoint this registry st := by
  intro hep
  obtain ⟨msg, trace, control, saved, hmem, -, -, hroot⟩ := hep.exists_frame
  exact h msg trace control saved hmem hroot

/-- Without authority a step writes nothing. -/
theorem not_write_of_powerless {c : Config Storage} {a : Action Storage}
    (hsound : Config.Sound (contract this logic) (discipline this logic registry) c)
    (hlive : c.world.foreign = false) (hpower : Powerless registry c a)
    (hcallers : ∀ f ∈ c.stack, ∀ sender, f.caller = some sender →
      sender = this ∨ c.world.storage.isGuardian sender = false)
    {msg : Msg} {trace : Trace} {s : Storage} {p : Prog Storage Bytes}
    (hruns : c.Runs msg trace (.put s p)) : ¬OwnWrite this msg c.world.storage s := by
  intro hwrite
  obtain ⟨saved, st, hst⟩ := hruns
  have hself : msg.sender = this → ∀ m, Method.ofCalldata msg.data = some m →
      m ≠ .proxiableUUID → False := by
    intro hsender m hm hne
    have hbelow := fromEntryPoint_of_self hsound hlive hst hsender ⟨m, hm, hne⟩
    refine not_fromEntryPoint (fun msg trace control saved hmem => ?_) hbelow
    apply hpower.2
    rw [hst]
    exact List.mem_cons_of_mem _ hmem
  have hcaller := hcallers _ (by rw [hst]; exact List.mem_cons_self) msg.sender rfl
  cases hwrite with
  | transferOwnership key hmethod hsender =>
    have hthis : msg.sender = this := by
      rcases hcaller with hthis | hno
      · exact hthis
      · rcases hsender with hthis | hyes
        · exact hthis
        · rw [hno] at hyes
          cases hyes
    exact hself hthis _ hmethod (by decide)
  | guardians isGuardian guardians hmethod hsender =>
    rcases hmethod with hmethod | hmethod
    · exact hself hsender _ hmethod (by decide)
    · exact hself hsender _ hmethod (by decide)
  | upgrade newImplementation hmethod hsender =>
    rcases hmethod with hmethod | hmethod
    · exact hself hsender _ hmethod (by decide)
    · exact hself hsender _ hmethod (by decide)

/-- Along a run of powerless calls the world stays as it was, also in what the frames remember, and
nobody who has called is a guardian. -/
theorem world_of_powerless_run {s : Storage} (hs : Initialised logic registry s)
    {c : Config Storage} (hrun : Run (contract this logic) (Powerless registry) (.idle s) c) :
    c.world = ⟨s, false⟩ ∧ ∀ f ∈ c.stack, f.saved = ⟨s, false⟩ ∧
      ∀ sender, f.caller = some sender → sender = this ∨ s.isGuardian sender = false := by
  refine world_of_quiet_run (fun c msg hworld hpower => ?_) ?_ hrun
  · have hno := hpower.1 msg rfl
    rw [hworld] at hno
    exact hno
  · intro c a c' hrun hworld hcallers hpower hstep
    have hsound : Config.Sound (contract this logic) (discipline this logic registry) c :=
      sound_of_account_run hs hrun
    have hlive : c.world.foreign = false := by rw [hworld]
    have hguardians : ∀ f ∈ c.stack, ∀ sender, f.caller = some sender →
        sender = this ∨ c.world.storage.isGuardian sender = false := by
      rw [hworld]
      exact hcallers
    rcases write_of_step hsound hlive hstep with hsame | hback |
      ⟨msg, trace, s', p, hruns, -, hwrite⟩
    · exact Or.inl hsame
    · exact Or.inr hback
    · exact absurd hwrite (not_write_of_powerless hsound hlive hpower hguardians hruns)

/-- **Authority over an account**: along every run of calls by anyone, with callees that call back,
up to the first upgrade, each step changes the account only as `StepAuthority` allows; and while no
caller is a guardian or the entry point, nothing changes. -/
theorem account_authority {s : Storage} (hs : Initialised logic registry s) :
    (∀ c a c', Run (contract this logic) (fun _ _ => True) (.idle s) c →
      c.world.foreign = false → Step (contract this logic) c a c' →
      StepAuthority this registry c a c') ∧
    ∀ c, Run (contract this logic) (Powerless registry) (.idle s) c → c.world = ⟨s, false⟩ := by
  constructor
  · intro c a c' hrun hlive hstep
    exact stepAuthority_of_sound (sound_of_account_run hs hrun) hlive hstep
  · intro c hrun
    exact (world_of_powerless_run hs hrun).1

/-- An account with registry 1, implementation 4 and the guardian 7. -/
def guarded : Storage where
  guardians := []
  isGuardian a := a == 7
  enclaveRegistry := 1
  pubKey := (2, 3)
  initialized := 1
  initializing := false
  implementation := 4
  rollback := false
  upgraded := []

/-- The guardian gives the account the key `(5, 6)`. -/
def rotation : Msg :=
  ⟨7, 0, Method.transferOwnership.selector ++ abiEncode [.word 5, .word 6], false⟩

/-- The call of the guardian, up to the write. -/
def rotating : Config Storage :=
  ⟨⟨guarded, false⟩, [.own rotation []
    (.running (.put { guarded with pubKey := (5, 6) } (.pure []))) ⟨guarded, false⟩]⟩

/-- The same call after the write. -/
def rotated : Config Storage :=
  ⟨⟨{ guarded with pubKey := (5, 6) }, false⟩,
    [.own rotation [] (.running (.pure [])) ⟨guarded, false⟩]⟩

theorem run_rotating : Run (contract 8 4) (fun _ _ => True) (.idle guarded) rotating := by
  have henter : Step (contract 8 4) (.idle guarded) (.enter rotation) ⟨⟨guarded, false⟩,
      [.own rotation [] (.running (body 8 4 rotation)) ⟨guarded, false⟩]⟩ :=
    .enter rotation rfl rfl (by decide) (by decide)
  have hread : Step (contract 8 4) ⟨⟨guarded, false⟩,
      [.own rotation [] (.running (.get fun s =>
        (Prog.lift (transferOwnership 8 7 (5, 6) s) >>= Prog.store) >>= fun _ => .pure []))
        ⟨guarded, false⟩]⟩ .read rotating := .read
  exact (Relation.ReflTransGen.single ⟨_, trivial, henter⟩).tail ⟨_, trivial, hread⟩

/-- The write of the guardian's call changes the key, and is allowed. -/
theorem stepAuthority_rotation :
    rotated.world.storage.pubKey ≠ rotating.world.storage.pubKey ∧
      StepAuthority 8 1 rotating (.write { guarded with pubKey := (5, 6) }) rotated := by
  have hstep : Step (contract 8 4) rotating (.write { guarded with pubKey := (5, 6) }) rotated :=
    .write rfl
  have hinit : Initialised 4 1 guarded := ⟨rfl, rfl, rfl, rfl, rfl, rfl⟩
  refine ⟨by decide, ?_⟩
  exact (@account_authority 8 4 1 guarded hinit).1 rotating _ rotated run_rotating rfl hstep

/-! ### What the entry point chooses -/

/-- A call of `execute` by `ep`. -/
def executeBy (ep dest : Address) (value : Word) (func : Bytes) : Msg :=
  ⟨ep, 0, Method.execute.selector ++ encodeParts (executeParts dest value func), false⟩

/-- `execute` asks the registry for the entry point and, when that is the caller, makes the call. -/
theorem body_executeBy (ep dest : Address) (value : Word) (func : Bytes)
    (hlen : (encodeParts (executeParts dest value func)).length + 4 < 2 ^ 64) :
    ∃ ask, body this logic (executeBy ep dest value func)
        = .get (fun s => .call (entryPointQuery s.enclaveRegistry) ask) ∧
      ask (.ok (abiEncode [word ep])) = noReturn (call dest value func) := by
  have hexecute := (Entries.runsEncoded (decodes this logic)).execute ep false dest value func hlen
  refine ⟨_, hexecute.trans rfl, ?_⟩
  have hdecode : abiDecodeAddress (abiEncode [word ep]) 0 = .ok ep := abiDecodeAddress_encode ep
  simp only [Prog.lift, Prog.bind, hdecode]
  rfl

/-- Whatever the entry point asks for, the account calls. -/
theorem run_executeBy {s : Storage} (hs : Initialised logic registry s)
    (hregistry : registry ≠ this) {ep : Address} (hep : ep ≠ this) (dest : Address) (value : Word)
    (func : Bytes) (hlen : (encodeParts (executeParts dest value func)).length + 4 < 2 ^ 64) :
    ∃ c k, Run (contract this logic) (fun _ _ => True) (.idle s) c ∧ c.world = ⟨s, false⟩ ∧
      c.Runs (executeBy ep dest value func)
        [(entryPointQuery registry, .ok (abiEncode [word ep]))]
        (.call ⟨.call, dest, value, func⟩ k) := by
  obtain ⟨ask, hbody, hmake⟩ := @body_executeBy this logic ep dest value func hlen
  -- the frame enters, reads the address of the registry, asks it and gets the answer
  let frame (trace : Trace) (control : Control Storage) : Frame Storage :=
    .own (executeBy ep dest value func) trace control ⟨s, false⟩
  have henter : Step (contract this logic) (.idle s) (.enter (executeBy ep dest value func))
      ⟨⟨s, false⟩, [frame [] (.running (body this logic (executeBy ep dest value func)))]⟩ :=
    .enter _ rfl rfl hep nofun
  rw [hbody] at henter
  have hread : Step (contract this logic) ⟨⟨s, false⟩, [frame [] (.running (.get fun s =>
      .call (entryPointQuery s.enclaveRegistry) ask))]⟩ .read
      ⟨⟨s, false⟩, [frame [] (.running (.call (entryPointQuery s.enclaveRegistry) ask))]⟩ := .read
  rw [hs.registry] at hread
  have hask : Step (contract this logic)
      ⟨⟨s, false⟩, [frame [] (.running (.call (entryPointQuery registry) ask))]⟩
      (.callOut (entryPointQuery registry)) ⟨⟨s, false⟩, [.outside true ⟨s, false⟩,
        frame [] (.waiting (entryPointQuery registry) ask)]⟩ :=
    .callOut (Or.inr rfl) (Or.inl hregistry) true fun _ => rfl
  have hanswer : Step (contract this logic) ⟨⟨s, false⟩, [.outside true ⟨s, false⟩,
        frame [] (.waiting (entryPointQuery registry) ask)]⟩ .leave
      ⟨⟨s, false⟩, [frame [(entryPointQuery registry, .ok (abiEncode [word ep]))]
        (.running (ask (.ok (abiEncode [word ep]))))]⟩ := .leave _
  rw [hmake] at hanswer
  exact ⟨_, _, (((Relation.ReflTransGen.single ⟨_, trivial, henter⟩).tail
    ⟨_, trivial, hread⟩).tail ⟨_, trivial, hask⟩).tail ⟨_, trivial, hanswer⟩, rfl, ⟨s, false⟩, [],
    rfl⟩

/-- The calldata of a withdrawal of 1 to the address 9. -/
def withdrawal : Bytes := Callee.withdrawTo.encode [word 9, .word 1]

/-- The entry point, at 5, has the account at 8 ask it for a withdrawal: the caller is not the
account. -/
theorem withdrawal_not_self :
    Initialised 4 1 guarded ∧
    ∃ c trace k, Run (contract 8 4) (fun _ _ => True) (.idle guarded) c ∧
      c.world = ⟨guarded, false⟩ ∧
      c.Runs (executeBy 5 5 0 withdrawal) trace (.call ⟨.call, 5, 0, withdrawal⟩ k) ∧
      withdrawal.take 4 = Callee.withdrawTo.selector ∧ EntryPointIs 1 trace 5 ∧
      (executeBy 5 5 0 withdrawal).sender ≠ 8 := by
  have hinit : Initialised 4 1 guarded := ⟨rfl, rfl, rfl, rfl, rfl, rfl⟩
  have hlen : (encodeParts (executeParts 5 0 withdrawal)).length + 4 < 2 ^ 64 := by
    have hargs : (abiEncode [word 9, .word 1]).length = 64 :=
      length_abiEncode_of_words [toWord (9 : Address), 1]
    have hdata : withdrawal.length = 68 := by
      rw [withdrawal, Callee.encode, List.length_append, hargs]
      rfl
    rw [length_encodeParts]
    simp [executeParts, bytesPart, Part.tail, abiTail, pad32, length_toBytesBE, hdata]
  obtain ⟨c, k, hrun, hworld, hruns⟩ :=
    @run_executeBy 8 4 1 guarded hinit (by decide) 5 (by decide) 5 0 withdrawal hlen
  refine ⟨hinit, c, _, k, hrun, hworld, hruns, rfl, ?_, by decide⟩
  exact ⟨_, List.mem_singleton_self _, abiDecodeAddress_encode 5⟩

end Enclave.P256SmartAccount
