import Enclave.Evm.Dispatch

/-!
# Calls that an account makes for its caller

`_call`, `execute` and `executeBatch` stand in both accounts with the same code but for the guard
that lets a caller pass.  The guard is a parameter here.
-/

namespace Enclave.Execution

variable {S : Type}

/-- `_call`. -/
def call (target : Address) (value : Word) (data : Bytes) : Prog S Unit := do
  let _ ← Prog.callOrRevert ⟨.call, target, value, data⟩
  .pure ()

/-- `execute`. -/
def execute (guard : Prog S Unit) (dest : Address) (value : Word) (func : Bytes) :
    Prog S Unit := do
  guard
  call dest value func

/-- The loop of `executeBatch`. -/
def executeLoop : List (Result Address) → List Word → List (Result Bytes) → Prog S Unit
  | d :: dest, v :: value, f :: func => do
    let target ← Prog.lift d
    let data ← Prog.lift f
    call target v data
    executeLoop dest value func
  | _, _, _ => .pure ()

/-- The check of `executeBatch` on its arrays. -/
def requireLengths {α β : Type} (dest : List α) (value : List Word) (func : List β) : Result Unit :=
  require (dest.length = func.length ∧ (value.length = 0 ∨ value.length = func.length))
    "wrong array lengths"

/-- `executeBatch`; the elements of `dest` and `func` are decoded when the loop reaches them. -/
def executeBatch (guard : Prog S Unit) (dest : List (Result Address)) (value : List Word)
    (func : List (Result Bytes)) : Prog S Unit := do
  guard
  Prog.lift (requireLengths dest value func)
  if value.length = 0 then executeLoop dest (List.replicate dest.length 0) func
  else executeLoop dest value func

end Enclave.Execution
