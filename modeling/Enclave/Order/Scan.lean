import Mathlib.Order.MinMax

/-!
# A scan that keeps the best key

`scanMax counts key start l` goes through a list and keeps the largest key that it meets, of the
elements that count.  It is the least bound of these keys and of the one that it starts with
(`scanMax_le_iff`), and one of them (`scanMax_mem`).  So it depends on nothing but which elements
the list has (`scanMax_congr`): not on their order, and not on how often they stand there.
-/

namespace Enclave

variable {α κ : Type*} [LinearOrder κ] {counts : α → Prop} [DecidablePred counts] {key : α → κ}
  {start : κ}

def scanMax (counts : α → Prop) [DecidablePred counts] (key : α → κ) (start : κ) (l : List α) :
    κ :=
  l.foldl (fun best a => if counts a then max best (key a) else best) start

theorem scanMax_le_iff {k : κ} (l : List α) :
    scanMax counts key start l ≤ k ↔ start ≤ k ∧ ∀ a ∈ l, counts a → key a ≤ k := by
  induction l generalizing start with
  | nil => simp [scanMax]
  | cons a l ih =>
    rw [scanMax, List.foldl_cons, ← scanMax, ih, List.forall_mem_cons]
    split_ifs with ha
    · simp only [max_le_iff, ha, forall_const, and_assoc]
    · simp only [ha, false_implies, true_and]

theorem scanMax_mem (l : List α) :
    scanMax counts key start l = start ∨
      ∃ a ∈ l, counts a ∧ key a = scanMax counts key start l := by
  induction l generalizing start with
  | nil => exact Or.inl rfl
  | cons a l ih =>
    rw [scanMax, List.foldl_cons, ← scanMax]
    rcases @ih (if counts a then max start (key a) else start) with heq | ⟨b, hb, hkey⟩
    · rw [heq]
      split_ifs with ha
      · rcases max_choice start (key a) with hmax | hmax
        · exact Or.inl hmax
        · exact Or.inr ⟨a, List.mem_cons_self, ha, hmax.symm⟩
      · exact Or.inl rfl
    · exact Or.inr ⟨b, List.mem_cons_of_mem a hb, hkey⟩

/-- Lists with the same elements have the same best key. -/
theorem scanMax_congr {l l' : List α} (h : ∀ a, a ∈ l ↔ a ∈ l') :
    scanMax counts key start l = scanMax counts key start l' := by
  refine eq_of_forall_ge_iff fun k => ?_
  rw [scanMax_le_iff, scanMax_le_iff]
  simp only [h]

end Enclave
