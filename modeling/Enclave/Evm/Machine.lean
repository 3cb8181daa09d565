import Enclave.Evm.Program
import Mathlib.Logic.Relation

/-!
# Runs of a contract among arbitrary callers and callees

The call stack of a chain as one contract sees it.  Its own frames run the contract's code; every
other frame is `outside` and can do anything that the chain lets it do: call the contract as any
other address, open further frames, return, or revert and take back what happened since it was
opened.  A call of the contract to itself opens a frame of its own with the contract as the sender.

A contract may be replaced by other code (`live` fails) and may hand its storage to other code by a
`delegatecall`.  From then on `foreign` is set, and the storage can change in any way until a revert
takes the replacement back.

`Prog.Ensures` is the rule for one frame.  It relies on an invariant of the storage across every
call, and guarantees a relation for every write and a condition for every call.  `sound_of_run`
carries it to every configuration of every run, and `beneath_of_linked` follows the calls of the
contract to itself down to the one that came from outside.
-/

namespace Enclave

variable {S : Type}

/-- A contract: its address, the storages for which the code at that address is its own, and the
code. -/
structure Contract (S : Type) where
  self : Address
  live : S → Bool
  body : Msg → Prog S Bytes

/-- What a revert restores: the storage, and whether other code has had it in its hands. -/
structure World (S : Type) where
  storage : S
  foreign : Bool

/-- The calls that a frame has made, latest first, with their replies. -/
abbrev Trace := List (Call × Reply)

/-- Where a frame of the contract stands. -/
inductive Control (S : Type)
  | running (p : Prog S Bytes)
  | waiting (c : Call) (k : Reply → Prog S Bytes)

/-- A frame, with the world at its start. -/
inductive Frame (S : Type)
  | own (msg : Msg) (trace : Trace) (control : Control S) (saved : World S)
  | outside (static : Bool) (saved : World S)

structure Config (S : Type) where
  world : World S
  stack : List (Frame S)

namespace Frame

def saved : Frame S → World S
  | own _ _ _ w => w
  | outside _ w => w

def static : Frame S → Bool
  | own msg _ _ _ => msg.static
  | outside st _ => st

end Frame

/-- Whether code other than the contract's is running, and below which kind of call. -/
def OutsideRuns (static : Bool) : List (Frame S) → Prop
  | [] => static = false
  | .own _ _ _ _ :: _ => False
  | .outside st _ :: _ => static = st

/-- Hand a reply to the frame that waits for it. -/
def deliver (r : Reply) : List (Frame S) → List (Frame S)
  | .own msg trace (.waiting c k) w :: rest => .own msg ((c, r) :: trace) (.running (k r)) w :: rest
  | stack => stack

/-- What happens in a step. -/
inductive Action (S : Type)
  | enter (msg : Msg)
  | openFrame
  | read
  | write (s : S)
  | callSelf (c : Call)
  | callOut (c : Call)
  | probe (c : Call)
  | refuse (c : Call)
  | delegate (c : Call)
  | finish
  | revert
  | leave
  | abort
  | tamper

/-- One step of the chain. -/
inductive Step (K : Contract S) : Config S → Action S → Config S → Prop
  /-- Someone else calls the contract. -/
  | enter {w st static} (msg : Msg) (hout : OutsideRuns static st) (hlive : w.foreign = false)
      (hsender : msg.sender ≠ K.self) (hstatic : static = true → msg.static = true) :
      Step K ⟨w, st⟩ (.enter msg) ⟨w, .own msg [] (.running (K.body msg)) w :: st⟩
  /-- Someone else opens a frame that can be taken back by itself. -/
  | openFrame {w st static} (static' : Bool) (hout : OutsideRuns static st)
      (hstatic : static = true → static' = true) :
      Step K ⟨w, st⟩ .openFrame ⟨w, .outside static' w :: st⟩
  | read {w msg trace k saved st} :
      Step K ⟨w, .own msg trace (.running (.get k)) saved :: st⟩ .read
        ⟨w, .own msg trace (.running (k w.storage)) saved :: st⟩
  | write {w msg trace s p saved st} (hstatic : msg.static = false) :
      Step K ⟨w, .own msg trace (.running (.put s p)) saved :: st⟩ (.write s)
        ⟨⟨s, w.foreign || !K.live s⟩, .own msg trace (.running p) saved :: st⟩
  /-- The contract calls itself. -/
  | callSelf {w msg trace c k saved st} (hkind : c.kind = .call ∨ c.kind = .staticcall)
      (htarget : c.target = K.self) (hlive : w.foreign = false) (static : Bool)
      (hstatic : msg.static = true ∨ c.kind = .staticcall → static = true) :
      Step K ⟨w, .own msg trace (.running (.call c k)) saved :: st⟩ (.callSelf c)
        ⟨w, .own ⟨K.self, c.value, c.data, static⟩ []
            (.running (K.body ⟨K.self, c.value, c.data, static⟩)) w ::
          .own msg trace (.waiting c k) saved :: st⟩
  /-- The contract calls someone else, or code that has replaced its own. -/
  | callOut {w msg trace c k saved st} (hkind : c.kind = .call ∨ c.kind = .staticcall)
      (htarget : c.target ≠ K.self ∨ w.foreign = true) (static : Bool)
      (hstatic : msg.static = true ∨ c.kind = .staticcall → static = true) :
      Step K ⟨w, .own msg trace (.running (.call c k)) saved :: st⟩ (.callOut c)
        ⟨w, .outside static w :: .own msg trace (.waiting c k) saved :: st⟩
  | probe {w msg trace c k saved st} (hkind : c.kind = .extcodesize) (data : Bytes) :
      Step K ⟨w, .own msg trace (.running (.call c k)) saved :: st⟩ (.probe c)
        ⟨w, .own msg ((c, .ok data) :: trace) (.running (k (.ok data))) saved :: st⟩
  /-- A call fails before it starts: no balance, no gas, the stack is too deep. -/
  | refuse {w msg trace c k saved st} (e : Revert) :
      Step K ⟨w, .own msg trace (.running (.call c k)) saved :: st⟩ (.refuse c)
        ⟨w, .own msg ((c, .error e) :: trace) (.running (k (.error e))) saved :: st⟩
  /-- Other code runs on the storage and comes back. -/
  | delegate {w msg trace c k saved st} (hkind : c.kind = .delegatecall) (s : S) (data : Bytes) :
      Step K ⟨w, .own msg trace (.running (.call c k)) saved :: st⟩ (.delegate c)
        ⟨⟨s, true⟩, .own msg ((c, .ok data) :: trace) (.running (k (.ok data))) saved :: st⟩
  | finish {w msg trace data saved st} :
      Step K ⟨w, .own msg trace (.running (.pure data)) saved :: st⟩ .finish
        ⟨w, deliver (.ok data) st⟩
  | revert {w msg trace e saved st} :
      Step K ⟨w, .own msg trace (.running (.revert e)) saved :: st⟩ .revert
        ⟨saved, deliver (.error e) st⟩
  | outOfGas {w msg trace p saved st} :
      Step K ⟨w, .own msg trace (.running p) saved :: st⟩ .revert
        ⟨saved, deliver (.error .empty) st⟩
  | leave {w static saved st} (data : Bytes) :
      Step K ⟨w, .outside static saved :: st⟩ .leave ⟨w, deliver (.ok data) st⟩
  | abort {w static saved st} (e : Revert) :
      Step K ⟨w, .outside static saved :: st⟩ .abort ⟨saved, deliver (.error e) st⟩
  /-- The code that has replaced the contract's changes the storage. -/
  | tamper {w static saved st} (hforeign : w.foreign = true) (s : S) :
      Step K ⟨w, .outside static saved :: st⟩ .tamper ⟨⟨s, true⟩, .outside static saved :: st⟩

/-- A run: any number of steps that all meet a condition. -/
def Run (K : Contract S) (P : Config S → Action S → Prop) : Config S → Config S → Prop :=
  Relation.ReflTransGen fun c c' => ∃ a, P c a ∧ Step K c a c'

/-- Between transactions. -/
def Config.idle (s : S) : Config S := ⟨⟨s, false⟩, []⟩

/-! ### The rule for one frame -/

/-- What a frame is held to: an invariant of the storage that it may rely on after every call, a
condition on the calls it makes and a relation for the writes it makes. -/
structure Discipline (S : Type) where
  inv : S → Prop
  call : Msg → S → Trace → Call → Prop
  write : Msg → S → Trace → S → Prop

/-- A program, started with storage `s` after the calls `τ`, keeps to the discipline, and if it ends
then with a value that meets `Q`. -/
def Prog.Ensures {α : Type} (D : Discipline S) (msg : Msg) (Q : S → Trace → α → Prop) :
    S → Trace → Prog S α → Prop
  | s, τ, .pure a => Q s τ a
  | _, _, .revert _ => True
  | s, τ, .get k => Prog.Ensures D msg Q s τ (k s)
  | s, τ, .put s' p => D.write msg s τ s' ∧ Prog.Ensures D msg Q s' τ p
  | s, τ, .call c k =>
    D.call msg s τ c ∧ ∀ r s', D.inv s' → Prog.Ensures D msg Q s' ((c, r) :: τ) (k r)

namespace Prog

variable {α β : Type} {D : Discipline S} {msg : Msg}

/-- The rule for a sequence. -/
theorem ensures_bind {Q : S → Trace → α → Prop} {R : S → Trace → β → Prop} {p : Prog S α}
    {f : α → Prog S β} {s : S} {τ : Trace} (hp : p.Ensures D msg Q s τ)
    (hf : ∀ s τ a, Q s τ a → (f a).Ensures D msg R s τ) : (p >>= f).Ensures D msg R s τ := by
  induction p generalizing s τ with
  | pure a => exact hf s τ a hp
  | revert e => exact trivial
  | get k ih => exact ih s hp
  | put s' p ih => exact ⟨hp.1, ih hp.2⟩
  | call c k ih => exact ⟨hp.1, fun r s' hinv => ih r (hp.2 r s' hinv)⟩

/-- The rule of consequence. -/
theorem Ensures.mono {Q R : S → Trace → α → Prop} {p : Prog S α} {s : S} {τ : Trace}
    (hp : p.Ensures D msg Q s τ) (h : ∀ s τ a, Q s τ a → R s τ a) : p.Ensures D msg R s τ := by
  induction p generalizing s τ with
  | pure a => exact h s τ a hp
  | revert e => exact trivial
  | get k ih => exact ih s hp
  | put s' p ih => exact ⟨hp.1, ih hp.2⟩
  | call c k ih => exact ⟨hp.1, fun r s' hinv => ih r (hp.2 r s' hinv)⟩

/-- What is known of the calls made so far stays known. -/
theorem Ensures.frame {Q : S → Trace → α → Prop} {P : Trace → Prop} {p : Prog S α} {s : S}
    {τ : Trace} (hp : p.Ensures D msg Q s τ) (hP : P τ) (hcons : ∀ τ e, P τ → P (e :: τ)) :
    p.Ensures D msg (fun s τ a => Q s τ a ∧ P τ) s τ := by
  induction p generalizing s τ with
  | pure a => exact ⟨hp, hP⟩
  | revert e => exact trivial
  | get k ih => exact ih s hp hP
  | put s' p ih => exact ⟨hp.1, ih hp.2 hP⟩
  | call c k ih => exact ⟨hp.1, fun r s' hinv => ih r (hp.2 r s' hinv) (hcons τ (c, r) hP)⟩

theorem ensures_lift {Q : S → Trace → α → Prop} {r : Result α} {s : S} {τ : Trace}
    (h : ∀ a, r = .ok a → Q s τ a) : (lift r : Prog S α).Ensures D msg Q s τ := by
  cases r with
  | error e => exact trivial
  | ok a => exact h a rfl

theorem ensures_lift_bind {Q : S → Trace → β → Prop} {r : Result α} {f : α → Prog S β} {s : S}
    {τ : Trace} (h : ∀ a, r = .ok a → (f a).Ensures D msg Q s τ) :
    (lift r >>= f).Ensures D msg Q s τ := by
  cases r with
  | error e => exact trivial
  | ok a => exact h a rfl

/-- What is computed from a result. -/
theorem ensures_bind_pure {p : Prog S α} {f : α → β} {s : S} {τ : Trace}
    (hp : p.Ensures D msg (fun _ _ _ => True) s τ) :
    (p >>= fun a => pure (f a)).Ensures D msg (fun _ _ _ => True) s τ :=
  ensures_bind hp fun _ _ _ _ => trivial

theorem ensures_storage_bind {Q : S → Trace → β → Prop} {f : S → Prog S β} {s : S} {τ : Trace}
    (h : (f s).Ensures D msg Q s τ) : ((storage : Prog S S) >>= f).Ensures D msg Q s τ := h

theorem ensures_tryCall {Q : S → Trace → Reply → Prop} {c : Call} {s : S} {τ : Trace}
    (hc : D.call msg s τ c) (hQ : ∀ r s', D.inv s' → Q s' ((c, r) :: τ) r) :
    (tryCall c : Prog S Reply).Ensures D msg Q s τ := ⟨hc, hQ⟩

/-- A function that only computes a new storage. -/
theorem ensures_modify {f : S → Result S} {s : S} {τ : Trace}
    (h : ∀ s', f s = .ok s' → D.write msg s τ s') :
    (modify f).Ensures D msg (fun _ _ _ => True) s τ := by
  show ((lift (f s) : Prog S S) >>= store).Ensures D msg _ s τ
  cases hf : f s with
  | error e => exact trivial
  | ok s' => exact ⟨h s' hf, trivial⟩

/-- Such a function with more to do. -/
theorem ensures_modify_bind {Q : S → Trace → β → Prop} {f : S → Result S} {g : Unit → Prog S β}
    {s : S} {τ : Trace}
    (h : ∀ s', f s = .ok s' → D.write msg s τ s' ∧ (g ()).Ensures D msg Q s' τ) :
    (modify f >>= g).Ensures D msg Q s τ := by
  show (((lift (f s) : Prog S S) >>= store) >>= g).Ensures D msg Q s τ
  cases hf : f s with
  | error e => exact trivial
  | ok s' => exact h s' hf

theorem ensures_callOrRevert {Q : S → Trace → Bytes → Prop} {c : Call} {s : S} {τ : Trace}
    (hc : D.call msg s τ c)
    (hQ : ∀ data s', D.inv s' → Q s' ((c, .ok data) :: τ) data) :
    (callOrRevert c : Prog S Bytes).Ensures D msg Q s τ := by
  refine ⟨hc, fun r s' hinv => ?_⟩
  apply ensures_lift
  rintro data rfl
  exact hQ data s' hinv

end Prog

/-! ### Every configuration of a run -/

section Sound

variable (K : Contract S) (D : Discipline S)

/-- A frame of the contract with itself as the sender was opened by the frame below it; any other
frame of the contract was opened from outside. -/
def Linked : Frame S → List (Frame S) → Prop
  | .outside _ _, _ => True
  | .own msg _ _ _, [] => msg.sender ≠ K.self
  | .own msg _ _ _, .outside _ _ :: _ => msg.sender ≠ K.self
  | .own _ _ _ _, .own _ _ (.running _) _ :: _ => False
  | .own msg _ _ _, .own _ _ (.waiting c _) _ :: _ =>
    msg.sender = K.self ∧ c.target = K.self ∧ c.data = msg.data ∧
      (c.kind = .call ∨ c.kind = .staticcall)

/-- The frame that runs. -/
def RunningSound (w : World S) : Frame S → Prop
  | .outside _ _ => True
  | .own msg trace (.running p) _ =>
    w.foreign = false → p.Ensures D msg (fun _ _ _ => True) w.storage trace
  | .own _ _ (.waiting _ _) _ => False

/-- A frame below it. -/
def WaitingSound (foreign : Bool) : Frame S → Prop
  | .outside _ _ => True
  | .own _ _ (.running _) _ => False
  | .own msg trace (.waiting c k) _ =>
    foreign = false → (∃ s, D.call msg s trace c) ∧ ∀ r s, D.inv s →
      (k r).Ensures D msg (fun _ _ _ => True) s ((c, r) :: trace)

/-- The invariant, unless other code has had the storage. -/
def World.Sound (w : World S) : Prop := w.foreign = false → D.inv w.storage

/-- The stack below a frame that was opened in the world `w`. -/
def Below : World S → List (Frame S) → Prop
  | w, [] => w.Sound D
  | w, f :: rest => w.Sound D ∧ WaitingSound D w.foreign f ∧ Linked K f rest ∧
    (f.saved.foreign = true → w.foreign = true) ∧ Below f.saved rest

/-- A sound configuration. -/
def Config.Sound (c : Config S) : Prop :=
  c.world.Sound D ∧ match c.stack with
    | [] => True
    | f :: rest => RunningSound D c.world f ∧ Linked K f rest ∧
      (f.saved.foreign = true → c.world.foreign = true) ∧ Below K D f.saved rest

variable {K D}

theorem world_sound_of_below {w : World S} {st : List (Frame S)} (h : Below K D w st) :
    w.Sound D := by
  cases st with
  | nil => exact h
  | cons f rest => exact h.1

/-- A reply puts the frame that waits for it back to work, in any sound world that has not forgotten
a replacement of the code. -/
theorem sound_deliver {w w₀ : World S} {st : List (Frame S)} (r : Reply) (hw : w.Sound D)
    (hmono : w₀.foreign = true → w.foreign = true) (h : Below K D w₀ st) :
    Config.Sound K D ⟨w, deliver r st⟩ := by
  cases st with
  | nil => exact ⟨hw, trivial⟩
  | cons f rest =>
    obtain ⟨-, hwait, hlink, hsaved, hrest⟩ := h
    cases f with
    | outside static saved =>
      exact ⟨hw, trivial, trivial, fun hf => hmono (hsaved hf), hrest⟩
    | own msg trace control saved =>
      cases control with
      | running p => exact hwait.elim
      | waiting c k =>
        have hw₀ : w.foreign = false → w₀.foreign = false := by
          intro hf
          by_contra hne
          rw [Bool.not_eq_false] at hne
          rw [hmono hne] at hf
          cases hf
        refine ⟨hw, fun hf => (hwait (hw₀ hf)).2 r w.storage (hw hf), ?_, ?_, hrest⟩
        · cases rest with
          | nil => exact hlink
          | cons g rest =>
            cases g with
            | outside static' saved' => exact hlink
            | own msg' trace' control' saved' =>
              cases control' with
              | running p => exact hlink.elim
              | waiting c' k' => exact hlink
        · exact fun hf => hmono (hsaved hf)

/-- The stack of a sound configuration, seen from a frame that is opened on it. -/
theorem below_of_outsideRuns {w : World S} {st : List (Frame S)} {static : Bool}
    (h : Config.Sound K D ⟨w, st⟩) (hout : OutsideRuns static st) : Below K D w st := by
  cases st with
  | nil => exact h.1
  | cons f rest =>
    cases f with
    | own msg trace control saved => exact hout.elim
    | outside static' saved => exact ⟨h.1, trivial, trivial, h.2.2.2.1, h.2.2.2.2⟩

theorem linked_of_outsideRuns {msg : Msg} {trace : Trace} {control : Control S} {w : World S}
    {st : List (Frame S)} {static : Bool} (hout : OutsideRuns static st)
    (hsender : msg.sender ≠ K.self) : Linked K (.own msg trace control w) st := by
  cases st with
  | nil => exact hsender
  | cons f rest =>
    cases f with
    | own msg trace control saved => exact hout.elim
    | outside static' saved => exact hsender

/-- A frame keeps its link while it works. -/
theorem linked_congr {msg : Msg} {trace trace' : Trace} {control control' : Control S}
    {saved saved' : World S} {st : List (Frame S)}
    (h : Linked K (.own msg trace control saved) st) :
    Linked K (.own msg trace' control' saved') st := by
  cases st with
  | nil => exact h
  | cons g rest =>
    cases g with
    | outside static saved => exact h
    | own msg trace control saved =>
      cases control with
      | running p => exact h.elim
      | waiting c k => exact h

/-- The stack below a call. -/
theorem below_of_call {w : World S} {msg : Msg} {trace : Trace} {c : Call}
    {k : Reply → Prog S Bytes} {saved : World S} {st : List (Frame S)}
    (h : Config.Sound K D ⟨w, .own msg trace (.running (.call c k)) saved :: st⟩) :
    Below K D w (.own msg trace (.waiting c k) saved :: st) := by
  obtain ⟨hw, hrun, hlink, hsaved, hrest⟩ := h
  exact ⟨hw, fun hf => ⟨⟨w.storage, (hrun hf).1⟩, (hrun hf).2⟩, linked_congr hlink, hsaved, hrest⟩

/-- A step keeps a configuration sound. -/
theorem sound_of_step (hbody : ∀ msg s, D.inv s →
      (K.body msg).Ensures D msg (fun _ _ _ => True) s [])
    (hwrite : ∀ msg s τ s', D.inv s → D.write msg s τ s' → K.live s' = true → D.inv s')
    {c c' : Config S} {a : Action S} (h : Config.Sound K D c) (hstep : Step K c a c') :
    Config.Sound K D c' := by
  cases hstep with
  | enter msg hout hlive hsender hstatic =>
    exact ⟨h.1, fun hf => hbody msg _ (h.1 hf), linked_of_outsideRuns hout hsender, id,
      below_of_outsideRuns h hout⟩
  | openFrame static' hout hstatic =>
    exact ⟨h.1, trivial, trivial, id, below_of_outsideRuns h hout⟩
  | read =>
    obtain ⟨hw, hrun, hlink, hsaved, hrest⟩ := h
    exact ⟨hw, hrun, linked_congr hlink, hsaved, hrest⟩
  | @write w msg trace s p saved st hstatic =>
    obtain ⟨hw, hrun, hlink, hsaved, hrest⟩ := h
    have hsplit : (w.foreign || !K.live s) = false → w.foreign = false ∧ K.live s = true := by
      intro hf
      rw [Bool.or_eq_false_iff, Bool.not_eq_false'] at hf
      exact hf
    -- a write that replaces the code makes the world foreign, and nothing is promised there
    refine ⟨fun hf => ?_, fun hf => (hrun (hsplit hf).1).2, linked_congr hlink, ?_, hrest⟩
    · obtain ⟨hforeign, hlive⟩ := hsplit hf
      exact hwrite msg w.storage trace s (hw hforeign) (hrun hforeign).1 hlive
    · intro hf
      show (w.foreign || !K.live s) = true
      rw [hsaved hf, Bool.true_or]
  | callSelf hkind htarget hlive static hstatic =>
    exact ⟨h.1, fun hf => hbody _ _ (h.1 hf), ⟨rfl, htarget, rfl, hkind⟩, id, below_of_call h⟩
  | callOut hkind htarget static hstatic =>
    exact ⟨h.1, trivial, trivial, id, below_of_call h⟩
  | probe hkind data =>
    obtain ⟨hw, hrun, hlink, hsaved, hrest⟩ := h
    exact ⟨hw, fun hf => (hrun hf).2 _ _ (hw hf), linked_congr hlink, hsaved, hrest⟩
  | refuse e =>
    obtain ⟨hw, hrun, hlink, hsaved, hrest⟩ := h
    exact ⟨hw, fun hf => (hrun hf).2 _ _ (hw hf), linked_congr hlink, hsaved, hrest⟩
  | delegate hkind s data =>
    obtain ⟨hw, hrun, hlink, hsaved, hrest⟩ := h
    exact ⟨nofun, nofun, linked_congr hlink, fun _ => rfl, hrest⟩
  | finish => exact sound_deliver _ h.1 h.2.2.2.1 h.2.2.2.2
  -- a frame that fails restores the world it has saved, which was sound when it was opened
  | revert => exact sound_deliver _ (world_sound_of_below h.2.2.2.2) id h.2.2.2.2
  | outOfGas => exact sound_deliver _ (world_sound_of_below h.2.2.2.2) id h.2.2.2.2
  | leave data => exact sound_deliver _ h.1 h.2.2.2.1 h.2.2.2.2
  | abort e => exact sound_deliver _ (world_sound_of_below h.2.2.2.2) id h.2.2.2.2
  | tamper hforeign s =>
    obtain ⟨hw, -, hlink, hsaved, hrest⟩ := h
    exact ⟨nofun, trivial, hlink, fun _ => rfl, hrest⟩

/-- **The rule for runs**: when the code of every call keeps to the discipline, every configuration
of every run that starts between transactions is sound. -/
theorem sound_of_run (hbody : ∀ msg s, D.inv s →
      (K.body msg).Ensures D msg (fun _ _ _ => True) s [])
    (hwrite : ∀ msg s τ s', D.inv s → D.write msg s τ s' → K.live s' = true → D.inv s')
    {P : Config S → Action S → Prop} {s : S} (hs : D.inv s) {c : Config S}
    (hrun : Run K P (.idle s) c) : Config.Sound K D c := by
  induction hrun with
  | refl => exact ⟨fun _ => hs, trivial⟩
  | tail _ hstep ih =>
    obtain ⟨a, -, hstep⟩ := hstep
    exact sound_of_step hbody hwrite ih hstep

/-! ### What a step can do to the storage -/

/-- A frame failed, and the world is what it was when the frame was opened. -/
def RolledBack (c : Config S) (a : Action S) (c' : Config S) : Prop :=
  (a = .revert ∨ a = .abort) ∧ ∃ f st, c.stack = f :: st ∧ c'.world = f.saved

/-- The frame of the contract that runs. -/
def Config.Runs (c : Config S) (msg : Msg) (trace : Trace) (p : Prog S Bytes) : Prop :=
  ∃ saved st, c.stack = .own msg trace (.running p) saved :: st

/-- While the code is the contract's own, the world changes when a frame of the contract writes or
hands its storage to other code, and when a frame fails. -/
theorem world_of_step {c c' : Config S} {a : Action S} (hstep : Step K c a c')
    (hlive : c.world.foreign = false) :
    c'.world = c.world ∨ RolledBack c a c' ∨
      (∃ msg trace s p, a = .write s ∧ c.Runs msg trace (.put s p) ∧ c'.world.storage = s) ∨
      ∃ msg trace cl k, c.Runs msg trace (.call cl k) ∧ cl.kind = .delegatecall := by
  cases hstep with
  | enter msg hout hlive hsender hstatic => exact Or.inl rfl
  | openFrame static' hout hstatic => exact Or.inl rfl
  | read => exact Or.inl rfl
  | write hstatic => exact Or.inr (Or.inr (Or.inl ⟨_, _, _, _, rfl, ⟨_, _, rfl⟩, rfl⟩))
  | callSelf hkind htarget hlive static hstatic => exact Or.inl rfl
  | callOut hkind htarget static hstatic => exact Or.inl rfl
  | probe hkind data => exact Or.inl rfl
  | refuse e => exact Or.inl rfl
  | delegate hkind s data => exact Or.inr (Or.inr (Or.inr ⟨_, _, _, _, ⟨_, _, rfl⟩, hkind⟩))
  | finish => exact Or.inl rfl
  | revert => exact Or.inr (Or.inl ⟨Or.inl rfl, _, _, rfl, rfl⟩)
  | outOfGas => exact Or.inr (Or.inl ⟨Or.inl rfl, _, _, rfl, rfl⟩)
  | leave data => exact Or.inl rfl
  | abort e => exact Or.inr (Or.inl ⟨Or.inr rfl, _, _, rfl, rfl⟩)
  | tamper hforeign s =>
    rw [hlive] at hforeign
    cases hforeign

/-- Who called a frame of the contract. -/
def Frame.caller : Frame S → Option Address
  | .own msg _ _ _ => some msg.sender
  | .outside _ _ => none

theorem mem_deliver {r : Reply} {st : List (Frame S)} {f : Frame S} (hf : f ∈ deliver r st) :
    ∃ g ∈ st, g.saved = f.saved ∧ g.caller = f.caller := by
  cases st with
  | nil => cases hf
  | cons g rest =>
    cases g with
    | outside static saved => exact ⟨f, hf, rfl, rfl⟩
    | own msg trace control saved =>
      cases control with
      | running p => exact ⟨f, hf, rfl, rfl⟩
      | waiting c k =>
        rcases List.mem_cons.mp hf with rfl | hmem
        · exact ⟨_, List.mem_cons_self, rfl, rfl⟩
        · exact ⟨f, List.mem_cons_of_mem _ hmem, rfl, rfl⟩

/-- A frame is an old one, or it is opened by the step and remembers the world of that moment. -/
theorem frame_of_step {c c' : Config S} {a : Action S} (hstep : Step K c a c') {f : Frame S}
    (hf : f ∈ c'.stack) :
    (∃ g ∈ c.stack, g.saved = f.saved ∧ g.caller = f.caller) ∨
      f.saved = c.world ∧ (f.caller = none ∨ f.caller = some K.self ∨
        ∃ msg, a = .enter msg ∧ f.caller = some msg.sender) := by
  -- the frame on top goes on with the same world and the same caller
  have hsame : ∀ {msg trace trace' control control' saved} {st : List (Frame S)},
      f ∈ Frame.own msg trace' control' saved :: st →
      ∃ g ∈ Frame.own msg trace control saved :: st, g.saved = f.saved ∧ g.caller = f.caller := by
    intro msg trace trace' control control' saved st hmem
    rcases List.mem_cons.mp hmem with rfl | hmem
    · exact ⟨_, List.mem_cons_self, rfl, rfl⟩
    · exact ⟨f, List.mem_cons_of_mem _ hmem, rfl, rfl⟩
  have hpopped : ∀ {g : Frame S} {r : Reply} {st : List (Frame S)}, f ∈ deliver r st →
      ∃ g' ∈ g :: st, g'.saved = f.saved ∧ g'.caller = f.caller := by
    intro g r st hmem
    obtain ⟨g', hg', hsaved, hcaller⟩ := mem_deliver hmem
    exact ⟨g', List.mem_cons_of_mem _ hg', hsaved, hcaller⟩
  cases hstep with
  | enter msg hout hlive hsender hstatic =>
    rcases List.mem_cons.mp hf with rfl | hmem
    · exact Or.inr ⟨rfl, Or.inr (Or.inr ⟨msg, rfl, rfl⟩)⟩
    · exact Or.inl ⟨f, hmem, rfl, rfl⟩
  | openFrame static' hout hstatic =>
    rcases List.mem_cons.mp hf with rfl | hmem
    · exact Or.inr ⟨rfl, Or.inl rfl⟩
    · exact Or.inl ⟨f, hmem, rfl, rfl⟩
  | read => exact Or.inl (hsame hf)
  | write hstatic => exact Or.inl (hsame hf)
  | callSelf hkind htarget hlive static hstatic =>
    rcases List.mem_cons.mp hf with rfl | hmem
    · exact Or.inr ⟨rfl, Or.inr (Or.inl rfl)⟩
    · exact Or.inl (hsame hmem)
  | callOut hkind htarget static hstatic =>
    rcases List.mem_cons.mp hf with rfl | hmem
    · exact Or.inr ⟨rfl, Or.inl rfl⟩
    · exact Or.inl (hsame hmem)
  | probe hkind data => exact Or.inl (hsame hf)
  | refuse e => exact Or.inl (hsame hf)
  | delegate hkind s data => exact Or.inl (hsame hf)
  | finish => exact Or.inl (hpopped hf)
  | revert => exact Or.inl (hpopped hf)
  | outOfGas => exact Or.inl (hpopped hf)
  | leave data => exact Or.inl (hpopped hf)
  | abort e => exact Or.inl (hpopped hf)
  | tamper hforeign s => exact Or.inl ⟨f, hf, rfl, rfl⟩

/-- In a run in which nothing is written, the world stays, also in what the frames remember, and all
callers but the contract itself are among those who may call. -/
theorem world_of_quiet_run {P : Config S → Action S → Prop} {s : S} {May : Address → Prop}
    (henter : ∀ c msg, c.world = ⟨s, false⟩ → P c (.enter msg) → May msg.sender)
    (hquiet : ∀ c a c', Run K P (.idle s) c → c.world = ⟨s, false⟩ →
      (∀ f ∈ c.stack, ∀ sender, f.caller = some sender → sender = K.self ∨ May sender) →
      P c a → Step K c a c' → c'.world = c.world ∨ RolledBack c a c')
    {c : Config S} (hrun : Run K P (.idle s) c) :
    c.world = ⟨s, false⟩ ∧ ∀ f ∈ c.stack, f.saved = ⟨s, false⟩ ∧
      ∀ sender, f.caller = some sender → sender = K.self ∨ May sender := by
  induction hrun with
  | refl => exact ⟨rfl, fun f hf => by cases hf⟩
  | @tail c c' hrun hstep ih =>
    obtain ⟨a, hpower, hstep⟩ := hstep
    obtain ⟨hworld, hframes⟩ := ih
    constructor
    · rcases hquiet c a c' hrun hworld (fun f hf => (hframes f hf).2) hpower hstep with hsame |
        ⟨-, f, st, hst, hback⟩
      · rw [hsame, hworld]
      · -- the frame that fails remembers the same world
        rw [hback]
        exact (hframes f (by rw [hst]; exact List.mem_cons_self)).1
    · intro f hf
      rcases frame_of_step hstep hf with ⟨g, hg, hsaved, hcaller⟩ | ⟨hsaved, hcaller⟩
      · rw [← hsaved, ← hcaller]
        exact hframes g hg
      · refine ⟨hsaved.trans hworld, fun sender hsender => ?_⟩
        rcases hcaller with hnone | hself | ⟨msg, rfl, hmsg⟩
        · rw [hnone] at hsender
          cases hsender
        · rw [hself] at hsender
          exact Or.inl (Option.some.inj hsender).symm
        · rw [hmsg] at hsender
          rw [← Option.some.inj hsender]
          exact Or.inr (henter c msg hworld hpower)

/-- The frame that runs keeps to the discipline. -/
theorem ensures_of_runs {c : Config S} (h : Config.Sound K D c) (hlive : c.world.foreign = false)
    {msg : Msg} {trace : Trace} {p : Prog S Bytes} (hruns : c.Runs msg trace p) :
    p.Ensures D msg (fun _ _ _ => True) c.world.storage trace := by
  obtain ⟨saved, st, hst⟩ := hruns
  obtain ⟨w, stack⟩ := c
  subst hst
  exact h.2.1 hlive

/-! ### Where the frames stand -/

/-- The code that a frame has before it. -/
def Control.prog : Control S → Prog S Bytes
  | running p => p
  | waiting c k => .call c k

/-- A frame of the contract stands where the calls it has made can have brought its code. -/
def Frame.Reached (K : Contract S) : Frame S → Prop
  | .own msg trace control _ => (K.body msg).Reaches trace control.prog
  | .outside _ _ => True

/-- A reply brings the frame that waits for it one call further. -/
theorem reached_deliver {r : Reply} {st : List (Frame S)} (h : ∀ f ∈ st, f.Reached K)
    {f : Frame S} (hf : f ∈ deliver r st) : f.Reached K := by
  cases st with
  | nil => exact h f hf
  | cons g rest =>
    cases g with
    | outside static saved => exact h f hf
    | own msg trace control saved =>
      cases control with
      | running p => exact h f hf
      | waiting c k =>
        have hwaiting : (K.body msg).Reaches trace (.call c k) := h _ List.mem_cons_self
        rcases List.mem_cons.mp hf with rfl | hmem
        · exact hwaiting.call r
        · exact h f (List.mem_cons_of_mem _ hmem)

theorem reached_of_step {c c' : Config S} {a : Action S} (h : ∀ f ∈ c.stack, f.Reached K)
    (hstep : Step K c a c') : ∀ f ∈ c'.stack, f.Reached K := by
  -- the frame on top moves or is opened or closed, and the others stay where they are
  cases hstep with
  | enter msg hout hlive hsender hstatic => exact List.forall_mem_cons.mpr ⟨Prog.Reaches.refl, h⟩
  | openFrame static' hout hstatic => exact List.forall_mem_cons.mpr ⟨trivial, h⟩
  | read =>
    obtain ⟨hrunning, hrest⟩ := List.forall_mem_cons.mp h
    exact List.forall_mem_cons.mpr ⟨Prog.Reaches.get hrunning _, hrest⟩
  | write hstatic =>
    obtain ⟨hrunning, hrest⟩ := List.forall_mem_cons.mp h
    exact List.forall_mem_cons.mpr ⟨Prog.Reaches.put hrunning, hrest⟩
  | callSelf hkind htarget hlive static hstatic =>
    obtain ⟨hrunning, hrest⟩ := List.forall_mem_cons.mp h
    exact List.forall_mem_cons.mpr ⟨Prog.Reaches.refl, List.forall_mem_cons.mpr ⟨hrunning, hrest⟩⟩
  | callOut hkind htarget static hstatic =>
    obtain ⟨hrunning, hrest⟩ := List.forall_mem_cons.mp h
    exact List.forall_mem_cons.mpr ⟨trivial, List.forall_mem_cons.mpr ⟨hrunning, hrest⟩⟩
  | probe hkind data =>
    obtain ⟨hrunning, hrest⟩ := List.forall_mem_cons.mp h
    exact List.forall_mem_cons.mpr ⟨Prog.Reaches.call hrunning _, hrest⟩
  | refuse e =>
    obtain ⟨hrunning, hrest⟩ := List.forall_mem_cons.mp h
    exact List.forall_mem_cons.mpr ⟨Prog.Reaches.call hrunning _, hrest⟩
  | delegate hkind s data =>
    obtain ⟨hrunning, hrest⟩ := List.forall_mem_cons.mp h
    exact List.forall_mem_cons.mpr ⟨Prog.Reaches.call hrunning _, hrest⟩
  | finish => exact fun f hf => reached_deliver (List.forall_mem_cons.mp h).2 hf
  | revert => exact fun f hf => reached_deliver (List.forall_mem_cons.mp h).2 hf
  | outOfGas => exact fun f hf => reached_deliver (List.forall_mem_cons.mp h).2 hf
  | leave data => exact fun f hf => reached_deliver (List.forall_mem_cons.mp h).2 hf
  | abort e => exact fun f hf => reached_deliver (List.forall_mem_cons.mp h).2 hf
  | tamper hforeign s => exact h

/-- In a run every frame of the contract stands at a point that its code can reach. -/
theorem reached_of_run {P : Config S → Action S → Prop} {s : S} {c : Config S}
    (hrun : Run K P (.idle s) c) : ∀ f ∈ c.stack, f.Reached K := by
  induction hrun with
  | refl => exact nofun
  | tail _ hstep ih =>
    obtain ⟨a, -, hstep⟩ := hstep
    exact reached_of_step ih hstep

/-! ### Calls of the contract to itself -/

theorem not_foreign_of_saved {w : World S} {f : Frame S}
    (hmono : f.saved.foreign = true → w.foreign = true) (hlive : w.foreign = false) :
    f.saved.foreign = false := by
  cases hf : f.saved.foreign with
  | false => rfl
  | true =>
    rw [hmono hf] at hlive
    cases hlive

/-- The world to which a failing frame returns is sound. -/
theorem inv_of_rolledBack {c c' : Config S} {a : Action S} (h : Config.Sound K D c)
    (hlive : c.world.foreign = false) (hback : RolledBack c a c') : D.inv c'.world.storage := by
  obtain ⟨-, f, st, hst, hworld⟩ := hback
  obtain ⟨w, stack⟩ := c
  subst hst
  obtain ⟨-, -, -, hmono, hbelow⟩ := h
  rw [hworld]
  exact world_sound_of_below hbelow (not_foreign_of_saved hmono hlive)

/-- The innermost frame of the stack is a call with `P` which was made from outside with `root`, or
which the contract made to itself in such a frame.  What a frame has called so far is part of
`root`, as a contract may ask others about its caller. -/
inductive Beneath (self : Address) (P : Msg → Prop) (root : Msg → Trace → Prop) :
    List (Frame S) → Prop
  | entered {msg trace control saved st} (hmsg : P msg) (hne : msg.sender ≠ self)
      (hroot : root msg trace) : Beneath self P root (.own msg trace control saved :: st)
  | nested {msg trace control saved st} (hmsg : P msg) (hsender : msg.sender = self)
      (hbelow : Beneath self P root st) : Beneath self P root (.own msg trace control saved :: st)

/-- Some frame of the stack was opened from outside with `P` and `root`. -/
theorem Beneath.exists_frame {self : Address} {P : Msg → Prop} {root : Msg → Trace → Prop}
    {st : List (Frame S)} (h : Beneath self P root st) :
    ∃ msg trace control saved, Frame.own msg trace control saved ∈ st ∧ P msg ∧
      msg.sender ≠ self ∧ root msg trace := by
  induction h with
  | entered hmsg hne hroot => exact ⟨_, _, _, _, List.mem_cons_self, hmsg, hne, hroot⟩
  | nested hmsg hsender hbelow ih =>
    obtain ⟨msg, trace, control, saved, hmem, h⟩ := ih
    exact ⟨msg, trace, control, saved, List.mem_cons_of_mem _ hmem, h⟩

section Beneath

variable {P : Msg → Prop} {root : Msg → Trace → Prop} {own : Bytes → Prop}
  (hcall : ∀ msg s τ c, D.call msg s τ c → (c.kind = .call ∨ c.kind = .staticcall) →
    own c.data → P msg ∧ (msg.sender ≠ K.self → root msg τ))
  (hown : ∀ msg, P msg → own msg.data)

include hcall hown

/-- **The rule for calls to itself**: when calldata with `own` is only sent by calls with `P`, and
with `root` where they came from outside, a frame which the contract opened with such calldata
stands above one that was opened from outside with both. -/
theorem beneath_of_linked {st : List (Frame S)} {w : World S} {msg : Msg} {trace : Trace}
    {control : Control S} {saved : World S}
    (hlink : Linked K (.own msg trace control saved) st) (hbelow : Below K D w st)
    (hlive : w.foreign = false) (hsender : msg.sender = K.self) (hdata : own msg.data) :
    Beneath K.self P root st := by
  -- the chain of calls to itself is followed outwards until the sender is someone else
  induction st generalizing w msg trace control saved with
  | nil => exact absurd hsender hlink
  | cons g rest ih =>
    obtain ⟨-, hwait, hlink', hmono, hrest⟩ := hbelow
    cases g with
    | outside static saved' => exact absurd hsender hlink
    | own msg' trace' control' saved' =>
      cases control' with
      | running p => exact hlink.elim
      | waiting c k =>
        obtain ⟨-, -, hsent, hkind⟩ := hlink
        obtain ⟨⟨s, hc⟩, -⟩ := hwait hlive
        rw [← hsent] at hdata
        obtain ⟨hP, hroot⟩ := hcall msg' s trace' c hc hkind hdata
        by_cases hself : msg'.sender = K.self
        · exact .nested hP hself
            (ih hlink' hrest (not_foreign_of_saved hmono hlive) hself (hown msg' hP))
        · exact .entered hP hself (hroot hself)

/-- The stack below a frame that the contract opened. -/
theorem beneath_of_self {c : Config S} (h : Config.Sound K D c) (hlive : c.world.foreign = false)
    {msg : Msg} {trace : Trace} {control : Control S} {saved : World S} {st : List (Frame S)}
    (hst : c.stack = .own msg trace control saved :: st) (hsender : msg.sender = K.self)
    (hdata : own msg.data) : Beneath K.self P root st := by
  obtain ⟨w, stack⟩ := c
  subst hst
  obtain ⟨-, -, hlink, hmono, hbelow⟩ := h
  exact beneath_of_linked hcall hown hlink hbelow (not_foreign_of_saved hmono hlive) hsender hdata

/-- The frame that runs, where its message has `P`, and `root` if it came from outside. -/
theorem beneath_of_runs {c : Config S} (h : Config.Sound K D c) (hlive : c.world.foreign = false)
    {msg : Msg} {trace : Trace} {p : Prog S Bytes} (hruns : c.Runs msg trace p) (hP : P msg)
    (hroot : msg.sender ≠ K.self → root msg trace) : Beneath K.self P root c.stack := by
  obtain ⟨saved, st, hst⟩ := hruns
  rw [hst]
  by_cases hself : msg.sender = K.self
  · exact .nested hP hself (beneath_of_self hcall hown h hlive hst hself (hown msg hP))
  · exact .entered hP hself (hroot hself)

end Beneath

end Sound

end Enclave
