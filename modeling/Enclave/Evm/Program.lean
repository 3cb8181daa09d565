import Enclave.Evm.Word

/-!
# Contract code with external calls

`Prog S α` is the code of one call frame of a contract with storage `S`: it reads and writes the
storage, calls other addresses and waits for their reply, and ends with a value or a revert.  What
happens during a call is not part of the program, so that the callee can be anyone; `Machine` runs
programs with callees that call back.

`Prog.eval` runs a program whose calls are answered by a function, which is how view functions are
evaluated.  `Prog.Reaches` leaves the replies and the storage open: it says where a program can
stand after which calls.
-/

namespace Enclave

/-- The ways to call, and the question whether there is code at an address. -/
inductive CallKind
  | call
  | staticcall
  | delegatecall
  | extcodesize
deriving DecidableEq, Repr

/-- An external call. -/
structure Call where
  kind : CallKind
  target : Address
  value : Word
  data : Bytes
deriving DecidableEq, Repr

/-- What a call brings back: the return data, or the reason of the failure. -/
abbrev Reply := Result Bytes

/-- What a frame is called with. -/
structure Msg where
  sender : Address
  value : Word
  data : Bytes
  /-- Whether the frame runs below a `STATICCALL`, where writing is not allowed. -/
  static : Bool
deriving DecidableEq, Repr

/-- The code of a frame. -/
inductive Prog (S α : Type) : Type
  | pure (a : α)
  | revert (e : Revert)
  | get (k : S → Prog S α)
  | put (s : S) (p : Prog S α)
  | call (c : Call) (k : Reply → Prog S α)

namespace Prog

variable {S α β : Type}

def bind : Prog S α → (α → Prog S β) → Prog S β
  | pure a, f => f a
  | revert e, _ => revert e
  | get k, f => get fun s => bind (k s) f
  | put s p, f => put s (bind p f)
  | call c k, f => call c fun r => bind (k r) f

instance : Monad (Prog S) where
  pure := Prog.pure
  bind := Prog.bind

/-! ### Statements -/

/-- The storage. -/
def storage : Prog S S := get pure

/-- Overwrite the storage. -/
def store (s : S) : Prog S Unit := put s (pure ())

/-- A computation without effects, which may revert. -/
def lift : Result α → Prog S α
  | .ok a => pure a
  | .error e => revert e

/-- A function that only computes a new storage. -/
def modify (f : S → Result S) : Prog S Unit := do
  let s ← storage
  let s' ← lift (f s)
  store s'

/-- A call whose failure is handled by the caller. -/
def tryCall (c : Call) : Prog S Reply := call c pure

/-- A call whose failure is passed on. -/
def callOrRevert (c : Call) : Prog S Bytes := call c lift

/-! ### Evaluation against fixed replies -/

/-- Run a program whose calls are answered by `env`. -/
def eval (env : Call → Reply) : Prog S α → S → Result (α × S)
  | pure a, s => .ok (a, s)
  | revert e, _ => .error e
  | get k, s => eval env (k s) s
  | put s' p, _ => eval env p s'
  | call c k, s => eval env (k (env c)) s

/-- What a view function returns. -/
def value (env : Call → Reply) (p : Prog S α) (s : S) : Result α := (eval env p s).map Prod.fst

/-- The calls that a program makes, in order. -/
def calls (env : Call → Reply) : Prog S α → S → List Call
  | pure _, _ => []
  | revert _, _ => []
  | get k, s => calls env (k s) s
  | put s' p, _ => calls env p s'
  | call c k, s => c :: calls env (k (env c)) s

section Value

variable {env : Call → Reply} {s : S}

theorem bind_assoc {γ : Type} (p : Prog S α) (f : α → Prog S β) (g : β → Prog S γ) :
    ((p >>= f) >>= g) = p >>= fun a => f a >>= g := by
  induction p with
  | pure a => rfl
  | revert e => rfl
  | get k ih => exact congrArg get (funext ih)
  | put s' p ih => exact congrArg (put s') ih
  | call c k ih => exact congrArg (call c) (funext ih)

/-- A sequence is evaluated in order. -/
theorem eval_bind (p : Prog S α) (f : α → Prog S β) :
    eval env (p >>= f) s = eval env p s >>= fun as => eval env (f as.1) as.2 := by
  induction p generalizing s with
  | pure a => rfl
  | revert e => rfl
  | get k ih => exact ih s
  | put s' p ih => exact ih
  | call c k ih => exact ih (env c)

theorem value_lift (r : Result α) : value env (lift r) s = r := by
  cases r <;> rfl

theorem value_lift_bind (r : Result α) (f : α → Prog S β) :
    value env (lift r >>= f) s = r >>= fun a => value env (f a) s := by
  cases r <;> rfl

theorem value_storage_bind (f : S → Prog S β) :
    value env (storage >>= f) s = value env (f s) s := rfl

theorem value_callOrRevert_bind (c : Call) (f : Bytes → Prog S β) :
    value env (callOrRevert c >>= f) s = env c >>= fun data => value env (f data) s := by
  show value env (call c fun r => lift r >>= f) s = _
  cases hc : env c with
  | error e =>
    show value env (lift (env c) >>= f) s = _
    rw [hc]
    rfl
  | ok data =>
    show value env (lift (env c) >>= f) s = _
    rw [hc]
    rfl

/-- What is computed from the result of a view function. -/
theorem value_bind_pure (p : Prog S α) (f : α → β) :
    value env (p >>= fun a => pure (f a)) s = (value env p s).map f := by
  rw [value, eval_bind, value]
  cases eval env p s <;> rfl

end Value

/-! ### The points that a program can reach -/

/-- Where a program can stand, and the calls made on the way, latest first.  The storage that it
reads and the replies that come back are arbitrary, since others act during every call. -/
inductive Reaches (p : Prog S α) : List (Call × Reply) → Prog S α → Prop
  | refl : Reaches p [] p
  | get {τ k} (h : Reaches p τ (.get k)) (s : S) : Reaches p τ (k s)
  | put {τ s q} (h : Reaches p τ (.put s q)) : Reaches p τ q
  | call {τ c k} (h : Reaches p τ (.call c k)) (r : Reply) : Reaches p ((c, r) :: τ) (k r)

theorem reaches_pure {a : α} {τ : List (Call × Reply)} {q : Prog S α}
    (h : (pure a : Prog S α).Reaches τ q) : τ = [] ∧ q = pure a := by
  induction h with
  | refl => exact ⟨rfl, rfl⟩
  | get h s ih => cases ih.2
  | put h ih => cases ih.2
  | call h r ih => cases ih.2

theorem reaches_revert {e : Revert} {τ : List (Call × Reply)} {q : Prog S α}
    (h : (revert e : Prog S α).Reaches τ q) : τ = [] ∧ q = revert e := by
  induction h with
  | refl => exact ⟨rfl, rfl⟩
  | get h s ih => cases ih.2
  | put h ih => cases ih.2
  | call h r ih => cases ih.2

/-- A sequence stands in its first part, or has ended it and stands in the second. -/
theorem reaches_bind {p : Prog S α} {f : α → Prog S β} {τ : List (Call × Reply)} {q : Prog S β}
    (h : (p >>= f).Reaches τ q) :
    (∃ p', p.Reaches τ p' ∧ q = p' >>= f) ∨
      ∃ τ₀ τ₁ a, p.Reaches τ₀ (pure a) ∧ (f a).Reaches τ₁ q ∧ τ = τ₁ ++ τ₀ := by
  -- each step is one of `p`, the first one of `f a` when `p` has just returned, or a later one
  induction h with
  | refl => exact Or.inl ⟨p, .refl, rfl⟩
  | @get τ k h s ih =>
    rcases ih with ⟨p', hp', heq⟩ | ⟨τ₀, τ₁, a, hp, hf, hτ⟩
    · cases p' with
      | pure a =>
        have hf : (f a).Reaches [] (get k) := heq ▸ .refl
        exact Or.inr ⟨τ, [], a, hp', hf.get s, rfl⟩
      | get k' =>
        cases heq
        exact Or.inl ⟨k' s, hp'.get s, rfl⟩
      | revert e => cases heq
      | put s' p' => cases heq
      | call c k' => cases heq
    · exact Or.inr ⟨τ₀, τ₁, a, hp, hf.get s, hτ⟩
  | @put τ s q h ih =>
    rcases ih with ⟨p', hp', heq⟩ | ⟨τ₀, τ₁, a, hp, hf, hτ⟩
    · cases p' with
      | pure a =>
        have hf : (f a).Reaches [] (put s q) := heq ▸ .refl
        exact Or.inr ⟨τ, [], a, hp', hf.put, rfl⟩
      | put s' p' =>
        cases heq
        exact Or.inl ⟨p', hp'.put, rfl⟩
      | revert e => cases heq
      | get k' => cases heq
      | call c k' => cases heq
    · exact Or.inr ⟨τ₀, τ₁, a, hp, hf.put, hτ⟩
  | @call τ c k h r ih =>
    rcases ih with ⟨p', hp', heq⟩ | ⟨τ₀, τ₁, a, hp, hf, hτ⟩
    · cases p' with
      | pure a =>
        have hf : (f a).Reaches [] (call c k) := heq ▸ .refl
        exact Or.inr ⟨τ, [(c, r)], a, hp', hf.call r, rfl⟩
      | call c' k' =>
        cases heq
        exact Or.inl ⟨k' r, hp'.call r, rfl⟩
      | revert e => cases heq
      | get k' => cases heq
      | put s' p' => cases heq
    · exact Or.inr ⟨τ₀, (c, r) :: τ₁, a, hp, hf.call r, by rw [hτ, List.cons_append]⟩

/-- What is computed from a result is computed at the end. -/
theorem reaches_bind_pure {p : Prog S α} {f : α → β} {τ : List (Call × Reply)} {q : Prog S β}
    (h : (p >>= fun a => pure (f a)).Reaches τ q) :
    ∃ p', p.Reaches τ p' ∧ q = p' >>= fun a => pure (f a) := by
  rcases reaches_bind h with hfirst | ⟨τ₀, τ₁, a, hp, hpure, rfl⟩
  · exact hfirst
  · obtain ⟨rfl, rfl⟩ := reaches_pure hpure
    exact ⟨pure a, hp, rfl⟩

end Prog

end Enclave
