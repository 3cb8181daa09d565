import Mathlib.Data.List.Induction
import Mathlib.Logic.Function.Basic

/-!
# Runs with rollbacks

A state that is changed by calls inside frames which may be taken back: `openFrame` saves the state,
`commit` keeps what happened since, `rollback` returns to it.  Events come in any order, so that a
run is any interleaving of calls in nested frames.

`Journal.all_run` is the rule for invariants of the state: what the calls preserve holds in
every state of a run, because a state that is returned to was there before.  `all_run_budget` is for
invariants that hold only up to so many calls.

`runAt` interleaves the runs of several journals, which do not share frames; `all_runAt` is the same
rule for them.
-/

namespace Enclave

/-- What happens in a run. -/
inductive JournalEvent (ι : Type)
  | call (i : ι)
  | openFrame
  | commit
  | rollback

/-- The state, and the states to return to, innermost first. -/
structure Journal (σ : Type) where
  state : σ
  saved : List σ

namespace Journal

variable {σ ι : Type} (apply : σ → ι → σ)

def step (j : Journal σ) : JournalEvent ι → Journal σ
  | .call i => ⟨apply j.state i, j.saved⟩
  | .openFrame => ⟨j.state, j.state :: j.saved⟩
  | .commit => ⟨j.state, j.saved.tail⟩
  | .rollback =>
    match j.saved with
    | [] => j
    | s :: saved => ⟨s, saved⟩

def run (j : Journal σ) (events : List (JournalEvent ι)) : Journal σ := events.foldl (step apply) j

/-- Outside of any frame. -/
def start (s : σ) : Journal σ := ⟨s, []⟩

variable {apply}

/-- The current state and every saved one satisfy `P`. -/
def All (P : σ → Prop) (j : Journal σ) : Prop := P j.state ∧ ∀ s ∈ j.saved, P s

theorem all_step {P : σ → Prop} {j : Journal σ} {e : JournalEvent ι}
    (hcall : ∀ i, e = .call i → P j.state → P (apply j.state i)) (h : j.All P) :
    (step apply j e).All P := by
  obtain ⟨hstate, hsaved⟩ := h
  cases e with
  | call i => exact ⟨hcall i rfl hstate, hsaved⟩
  | openFrame =>
    refine ⟨hstate, fun s hs => ?_⟩
    rcases List.mem_cons.mp hs with rfl | hs
    · exact hstate
    · exact hsaved s hs
  | commit => exact ⟨hstate, fun s hs => hsaved s (List.mem_of_mem_tail hs)⟩
  | rollback =>
    unfold step
    cases hj : j.saved with
    | nil => exact ⟨hstate, hsaved⟩
    | cons s saved =>
      rw [hj] at hsaved
      exact ⟨hsaved s List.mem_cons_self, fun s' hs' => hsaved s' (List.mem_cons_of_mem s hs')⟩

theorem run_concat (j : Journal σ) (before : List (JournalEvent ι)) (e : JournalEvent ι) :
    run apply j (before ++ [e]) = step apply (run apply j before) e :=
  List.foldl_append

/-- **Invariants of runs**: what every call of the run preserves, in the state in which it is made,
holds at the end. -/
theorem all_run {P : σ → Prop} {j : Journal σ} {events : List (JournalEvent ι)} (h : j.All P)
    (hcall : ∀ before i, before ++ [.call i] <+: events → P (run apply j before).state →
      P (apply (run apply j before).state i)) : (run apply j events).All P := by
  induction events using List.reverseRecOn with
  | nil => exact h
  | append_singleton events e ih =>
    rw [run_concat]
    have hprefix : events <+: events ++ [e] := List.prefix_append events [e]
    apply all_step
    · rintro i rfl hP
      exact hcall events i (List.prefix_refl _) hP
    · exact ih fun before i hbefore hP => hcall before i (hbefore.trans hprefix) hP

/-- The same with a budget: what a call preserves at the price of one, and what stays true with more
to spend, holds at the end with one for each event. -/
theorem all_run_budget {P : ℕ → σ → Prop} {j : Journal σ} {events : List (JournalEvent ι)}
    (hmono : ∀ n s, P n s → P (n + 1) s) (hcall : ∀ n s i, P n s → P (n + 1) (apply s i))
    (h : j.All (P 0)) : (run apply j events).All (P events.length) := by
  induction events using List.reverseRecOn with
  | nil => exact h
  | append_singleton events e ih =>
    rw [run_concat, List.length_append, List.length_singleton]
    have hlater : (run apply j events).All (P (events.length + 1)) :=
      ⟨hmono _ _ ih.1, fun s hs => hmono _ _ (ih.2 s hs)⟩
    exact all_step (fun i _ _ => hcall _ _ i ih.1) hlater

/-! ### Several journals -/

section Family

variable {κ : Type} [DecidableEq κ] (applyAt : κ → σ → ι → σ)

/-- An event of one of the journals. -/
def stepAt (js : κ → Journal σ) (e : κ × JournalEvent ι) : κ → Journal σ :=
  Function.update js e.1 (step (applyAt e.1) (js e.1) e.2)

def runAt (js : κ → Journal σ) (events : List (κ × JournalEvent ι)) : κ → Journal σ :=
  events.foldl (stepAt applyAt) js

variable {applyAt}

theorem runAt_concat (js : κ → Journal σ) (before : List (κ × JournalEvent ι))
    (e : κ × JournalEvent ι) :
    runAt applyAt js (before ++ [e]) = stepAt applyAt (runAt applyAt js before) e :=
  List.foldl_append

/-- What every call preserves in its own journal holds in all journals at the end. -/
theorem all_runAt {P : κ → σ → Prop} {js : κ → Journal σ} {events : List (κ × JournalEvent ι)}
    (h : ∀ k, (js k).All (P k))
    (hcall : ∀ before k i, before ++ [(k, .call i)] <+: events →
      P k (runAt applyAt js before k).state →
      P k (applyAt k (runAt applyAt js before k).state i)) (k : κ) :
    (runAt applyAt js events k).All (P k) := by
  induction events using List.reverseRecOn generalizing k with
  | nil => exact h k
  | append_singleton events e ih =>
    have hbefore := ih fun before k i hinit => hcall before k i
      (hinit.trans (List.prefix_append events [e]))
    obtain ⟨key, event⟩ := e
    rw [runAt_concat, stepAt]
    by_cases hk : k = key
    · subst hk
      rw [Function.update_self]
      refine all_step ?_ (hbefore k)
      rintro i rfl hP
      exact hcall events k i (List.prefix_refl _) hP
    · rw [Function.update_of_ne hk]
      exact hbefore k

end Family

end Journal

end Enclave
