import Mathlib.Algebra.BigOperators.Finprod
import Mathlib.Data.FinEnum
import Mathlib.Data.Set.Card

/-!
# Mappings with one entry replaced

What becomes of the sum over a mapping and of the number of its entries with a value, when one entry
is replaced.
-/

namespace Enclave

variable {ι α : Type} [DecidableEq ι]

/-- The new entry comes in, and the old one goes. -/
theorem finsum_update [Finite ι] (g : α → ℕ) (f : ι → α) (i : ι) (x : α) :
    ∑ᶠ j, g (Function.update f i x j) + g (f i) = ∑ᶠ j, g (f j) + g x := by
  obtain ⟨hfintype⟩ := nonempty_fintype ι
  have hupdate : (fun j => g (Function.update f i x j)) = Function.update (g ∘ f) i (g x) :=
    Function.comp_update g f i x
  rw [finsum_eq_sum_of_fintype, finsum_eq_sum_of_fintype, hupdate,
    Finset.sum_update_of_mem (Finset.mem_univ i),
    Finset.sum_eq_add_sum_sdiff_singleton_of_mem (Finset.mem_univ i) fun j => g (f j)]
  simp only [Function.comp_apply]
  omega

/-! ### Counting the entries with a value -/

section Fibres

variable {f : ι → α} {i : ι} {a b : α}

theorem ncard_update_self [Finite ι] (h : f i ≠ a) :
    {j | Function.update f i a j = a}.ncard = {j | f j = a}.ncard + 1 := by
  have hset : {j | Function.update f i a j = a} = insert i {j | f j = a} := by
    ext j
    by_cases hj : j = i
    · subst hj
      simp
    · simp [hj]
  rw [hset]
  exact Set.ncard_insert_of_notMem h (Set.toFinite _)

theorem ncard_update_of_eq [Finite ι] (h : f i = a) (hne : b ≠ a) :
    {j | Function.update f i b j = a}.ncard + 1 = {j | f j = a}.ncard := by
  have hset : {j | Function.update f i b j = a} = {j | f j = a} \ {i} := by
    ext j
    by_cases hj : j = i
    · subst hj
      simp [hne]
    · simp [hj]
  rw [hset]
  exact Set.ncard_sdiff_singleton_add_one h (Set.toFinite _)

theorem setOf_update_of_ne (h : f i ≠ a) (hne : b ≠ a) :
    {j | Function.update f i b j = a} = {j | f j = a} := by
  ext j
  by_cases hj : j = i
  · subst hj
    simp [h, hne]
  · simp [hj]

end Fibres

end Enclave
