import Enclave.Evm.Abi
import Enclave.Evm.Program

/-!
# Selector dispatch

How the external functions of a contract are found by the first four bytes of the calldata, and how
they return.  `Dispatches` is what a table of selectors has to meet: then calldata that starts with
a selector is a call of its function (`ofSelector_append`).
-/

namespace Enclave

/-! ### Finding the function -/

section Selectors

variable {M : Type} {selector : M → Bytes} {all : List M}

/-- The selector switch of a contract with the functions `all`. -/
def ofSelector (selector : M → Bytes) (all : List M) (data : Bytes) : Option M :=
  if data.length < 4 then none else all.find? fun m => selector m == data.take 4

/-- Every function has a selector of four bytes, by which it is found. -/
structure Dispatches (selector : M → Bytes) (all : List M) : Prop where
  length : ∀ m, (selector m).length = 4
  find : ∀ m, all.find? (fun m' => selector m' == selector m) = some m

theorem selector_of_ofSelector {data : Bytes} {m : M} (h : ofSelector selector all data = some m) :
    selector m = data.take 4 := by
  unfold ofSelector at h
  split_ifs at h
  have hfound := List.find?_some h
  exact beq_iff_eq.mp hfound

theorem ofSelector_eq_none {data : Bytes} (h : ∀ m, selector m ≠ data.take 4) :
    ofSelector selector all data = none := by
  cases hm : ofSelector selector all data with
  | none => rfl
  | some m => exact absurd (selector_of_ofSelector hm) (h m)

theorem ofSelector_append (h : Dispatches selector all) (m : M) (args : Bytes) :
    ofSelector selector all (selector m ++ args) = some m := by
  have hlen : ¬(selector m ++ args).length < 4 := by
    rw [List.length_append, h.length]
    omega
  have htake : (selector m ++ args).take 4 = selector m := by
    rw [← h.length m, List.take_left]
  rw [ofSelector, if_neg hlen, htake, h.find]

/-- What follows the selector. -/
theorem Dispatches.drop_append (h : Dispatches selector all) (m : M) (args : Bytes) :
    (selector m ++ args).drop 4 = args := by
  rw [← h.length m, List.drop_left]

end Selectors

/-! ### Returning -/

section Return

variable {S : Type}

/-- The body of a function that returns nothing. -/
def noReturn (p : Prog S Unit) : Prog S Bytes := do
  p
  .pure []

/-- The body of a function that returns a word. -/
def returnWord (p : Prog S Word) : Prog S Bytes := do
  let w ← p
  .pure (abiEncode [.word w])

end Return

end Enclave
