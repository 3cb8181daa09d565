import Enclave.Account.P256SmartAccount
import Mathlib.Data.BitVec
import Mathlib.Data.Fintype.Card
import Mathlib.Data.Set.Card

/-!
# The guardian set

The guardians are held twice: as an array, which `getGuardianCount` reads, and as a mapping, which
the guards read.  `removeGuardian` keeps the two in step (`inStep_removeGuardian`): its loop takes
one entry out of the array (`removeGuardianLoop_perm`).  `addGuardian` enters a guardian into the
mapping only, so that a run keeps them in step exactly when it adds no guardian
(`run_inStep_iff`).
-/

namespace Enclave.P256SmartAccount

/-! ### What each call does -/

theorem addGuardian_eq_ok {this sender guardian : Address} {s s' : Storage} :
    addGuardian this sender guardian s = .ok s' ↔
      sender = this ∧ guardian ≠ 0 ∧ s.isGuardian guardian = false ∧
        s' = { s with isGuardian := Function.update s.isGuardian guardian true } := by
  unfold addGuardian onlyOwner
  simp only [bind_eq_ok, require_eq_ok, Except.ok.injEq]
  constructor
  · rintro ⟨-, hsender, -, hzero, -, hnew, rfl⟩
    exact ⟨hsender, hzero, hnew, rfl⟩
  · rintro ⟨hsender, hzero, hnew, rfl⟩
    exact ⟨(), hsender, (), hzero, (), hnew, rfl⟩

theorem removeGuardian_eq_ok {this sender guardian : Address} {s s' : Storage} :
    removeGuardian this sender guardian s = .ok s' ↔
      sender = this ∧ s.isGuardian guardian = true ∧
        s' = { s with
          isGuardian := Function.update s.isGuardian guardian false
          guardians := removeGuardianLoop guardian s.guardians 0 s.guardians.length } := by
  unfold removeGuardian onlyOwner
  simp only [bind_eq_ok, require_eq_ok, Except.ok.injEq]
  constructor
  · rintro ⟨-, hsender, -, hold, rfl⟩
    exact ⟨hsender, hold, rfl⟩
  · rintro ⟨hsender, hold, rfl⟩
    exact ⟨(), hsender, (), hold, rfl⟩

theorem transferOwnership_eq_ok {this sender : Address} {newPubKey : Word × Word}
    {s s' : Storage} :
    transferOwnership this sender newPubKey s = .ok s' ↔
      (sender = this ∨ s.isGuardian sender = true) ∧ s' = { s with pubKey := newPubKey } := by
  unfold transferOwnership requireFromOwnerOrGuardian
  simp only [bind_eq_ok, require_eq_ok, Except.ok.injEq]
  constructor
  · rintro ⟨-, hsender, rfl⟩
    exact ⟨hsender, rfl⟩
  · rintro ⟨hsender, rfl⟩
    exact ⟨(), hsender, rfl⟩

/-! ### Both representations -/

/-- The array has no duplicates and holds exactly the addresses of the mapping. -/
def InStep (s : Storage) : Prop :=
  s.guardians.Nodup ∧ ∀ a, a ∈ s.guardians ↔ s.isGuardian a = true

/-- There are fewer addresses than words. -/
theorem length_lt_of_nodup {guardians : List Address} (h : guardians.Nodup) :
    guardians.length < 2 ^ 256 := by
  have hmap : (guardians.map BitVec.equivFin).Nodup := h.map BitVec.equivFin.injective
  have hle := hmap.length_le_card
  rw [List.length_map, Fintype.card_fin] at hle
  exact hle.trans_lt (Nat.pow_lt_pow_right (by decide) (by decide))

/-- Then `getGuardianCount` is the number of guardians. -/
theorem getGuardianCount_of_inStep {s : Storage} (hs : InStep s) :
    (getGuardianCount s).toNat = {a | s.isGuardian a = true}.ncard := by
  have hset : {a | s.isGuardian a = true} = (s.guardians.toFinset : Set Address) := by
    ext a
    show s.isGuardian a = true ↔ _
    rw [Finset.mem_coe, List.mem_toFinset, hs.2 a]
  rw [hset, Set.ncard_coe_finset, List.toFinset_card_of_nodup hs.1, getGuardianCount,
    BitVec.toNat_ofNat, Nat.mod_eq_of_lt (length_lt_of_nodup hs.1)]

/-- Overwriting a matching entry by the last one and dropping the last takes the entry out. -/
theorem set_last_dropLast_perm (pre post : List Address) (g : Address) :
    (((pre ++ g :: post).set pre.length
      ((pre ++ g :: post).getD ((pre ++ g :: post).length - 1) 0)).dropLast).Perm
        (pre ++ post) := by
  rcases List.eq_nil_or_concat post with rfl | ⟨post, last, rfl⟩
  · -- the entry is the last one
    simp
  · have hlast : (pre ++ g :: (post ++ [last])).getD
        ((pre ++ g :: (post ++ [last])).length - 1) 0 = last := by
      have hsplit : pre ++ g :: (post ++ [last]) = (pre ++ g :: post) ++ [last] := by simp
      rw [hsplit, List.length_append, List.length_singleton, Nat.add_sub_cancel,
        List.getD_append_right _ _ _ _ le_rfl, Nat.sub_self]
      rfl
    rw [List.concat_eq_append, hlast, List.set_append_right _ _ le_rfl, Nat.sub_self,
      List.set_cons_zero, ← List.cons_append, ← List.append_assoc, List.dropLast_concat]
    exact List.Perm.append_left pre (List.perm_append_singleton last post).symm

/-- The loop of `removeGuardian` takes the first match out of the array. -/
theorem removeGuardianLoop_perm (g : Address) (guardians : List Address) {i n : ℕ}
    (hlen : i + n = guardians.length) (hbefore : g ∉ guardians.take i) :
    (removeGuardianLoop g guardians i n).Perm (guardians.erase g) := by
  -- no entry before `i` matches
  induction n generalizing i with
  | zero =>
    have hnot : g ∉ guardians := by
      rwa [List.take_of_length_le (by omega)] at hbefore
    rw [removeGuardianLoop, List.erase_of_not_mem hnot]
  | succ n ih =>
    have hi : i < guardians.length := by omega
    have hget : guardians.getD i 0 = guardians[i] := List.getD_eq_getElem _ _ hi
    rw [removeGuardianLoop, hget]
    split_ifs with hmatch
    · have hsplit : guardians = guardians.take i ++ g :: guardians.drop (i + 1) := by
        rw [← hmatch, List.getElem_cons_drop, List.take_append_drop]
      have htake : (guardians.take i).length = i := List.length_take_of_le hi.le
      have herase : guardians.erase g = guardians.take i ++ guardians.drop (i + 1) := by
        conv_lhs => rw [hsplit]
        rw [List.erase_append_right _ hbefore, List.erase_cons_head]
      rw [herase]
      have hperm := set_last_dropLast_perm (guardians.take i) (guardians.drop (i + 1)) g
      rw [← hsplit, htake] at hperm
      exact hperm
    · apply ih (by omega)
      rw [List.take_add_one, List.getElem?_eq_getElem hi]
      simp only [Option.toList_some, List.mem_append, List.mem_singleton, not_or]
      exact ⟨hbefore, fun heq => hmatch heq.symm⟩

/-- `removeGuardian` keeps the two representations in step. -/
theorem inStep_removeGuardian {this sender guardian : Address} {s s' : Storage} (hs : InStep s)
    (h : removeGuardian this sender guardian s = .ok s') : InStep s' := by
  obtain ⟨-, -, rfl⟩ := removeGuardian_eq_ok.mp h
  have hperm := removeGuardianLoop_perm guardian s.guardians (Nat.zero_add _) (by simp)
  refine ⟨hperm.nodup_iff.mpr (hs.1.erase guardian), fun a => ?_⟩
  show a ∈ removeGuardianLoop guardian s.guardians 0 s.guardians.length ↔ _
  rw [hperm.mem_iff, hs.1.mem_erase_iff, hs.2 a]
  show a ≠ guardian ∧ s.isGuardian a = true ↔ Function.update s.isGuardian guardian false a = true
  by_cases ha : a = guardian
  · rw [ha, Function.update_self]
    simp
  · rw [Function.update_of_ne ha]
    simp [ha]

/-! ### Runs -/

/-- The calls that concern the guardians and the key. -/
inductive OwnerCall
  | addGuardian (guardian : Address)
  | removeGuardian (guardian : Address)
  | transferOwnership (newPubKey : Word × Word)

/-- The call, with the sender it comes from. -/
def OwnerCall.apply (this sender : Address) : OwnerCall → Storage → Result Storage
  | .addGuardian guardian => P256SmartAccount.addGuardian this sender guardian
  | .removeGuardian guardian => P256SmartAccount.removeGuardian this sender guardian
  | .transferOwnership newPubKey => P256SmartAccount.transferOwnership this sender newPubKey

/-- The storage after a call, which a revert leaves as it was. -/
def afterCall (this : Address) (s : Storage) (c : Address × OwnerCall) : Storage :=
  match c.2.apply this c.1 s with
  | .ok s' => s'
  | .error _ => s

def afterCalls (this : Address) (s : Storage) (cs : List (Address × OwnerCall)) : Storage :=
  cs.foldl (afterCall this) s

/-- A call that makes someone a guardian: the account asks for it, with an address that is not zero
and not a guardian. -/
def AddsGuardian (this : Address) (s : Storage) (c : Address × OwnerCall) : Prop :=
  ∃ guardian, c = (this, .addGuardian guardian) ∧ guardian ≠ 0 ∧ s.isGuardian guardian = false

/-- Adding a guardian puts the two representations out of step. -/
theorem not_inStep_of_addsGuardian {this : Address} {s : Storage} {c : Address × OwnerCall}
    (hs : InStep s) (hadds : AddsGuardian this s c) : ¬InStep (afterCall this s c) := by
  obtain ⟨guardian, rfl, hzero, hnew⟩ := hadds
  have hok := addGuardian_eq_ok.mpr
    (⟨rfl, hzero, hnew, rfl⟩ : this = this ∧ guardian ≠ 0 ∧ s.isGuardian guardian = false ∧ _)
  have hafter : afterCall this s (this, .addGuardian guardian)
      = { s with isGuardian := Function.update s.isGuardian guardian true } := by
    simp only [afterCall, OwnerCall.apply, hok]
  rw [hafter]
  intro hstep
  -- the mapping holds the new guardian and the array does not
  have hmem : guardian ∈ s.guardians := (hstep.2 guardian).mpr (Function.update_self _ _ _)
  rw [hs.2 guardian, hnew] at hmem
  cases hmem

/-- Every other call keeps them in step. -/
theorem inStep_of_not_addsGuardian {this : Address} {s : Storage} {c : Address × OwnerCall}
    (hs : InStep s) (hadds : ¬AddsGuardian this s c) : InStep (afterCall this s c) := by
  obtain ⟨sender, call⟩ := c
  unfold afterCall
  cases hcall : call.apply this sender s with
  | error e => exact hs
  | ok s' =>
    cases call with
    | addGuardian guardian =>
      obtain ⟨rfl, hzero, hnew, -⟩ := addGuardian_eq_ok.mp hcall
      exact absurd ⟨guardian, rfl, hzero, hnew⟩ hadds
    | removeGuardian guardian => exact inStep_removeGuardian hs hcall
    | transferOwnership newPubKey =>
      obtain ⟨-, rfl⟩ := transferOwnership_eq_ok.mp hcall
      exact hs

/-- From a storage in step, a run stays in step exactly when no call of it adds a guardian. -/
theorem afterCalls_inStep_iff {this : Address} {s : Storage} (hs : InStep s)
    (cs : List (Address × OwnerCall)) :
    (∀ before, before <+: cs → InStep (afterCalls this s before)) ↔
      ∀ before c, before ++ [c] <+: cs → ¬AddsGuardian this (afterCalls this s before) c := by
  constructor
  · intro hall before c hprefix hadds
    have hbefore := hall before ((List.prefix_append before [c]).trans hprefix)
    have hafter := hall (before ++ [c]) hprefix
    rw [afterCalls, List.foldl_append] at hafter
    exact not_inStep_of_addsGuardian hbefore hadds hafter
  · intro hnone before
    -- the calls are added one by one at the end
    induction before using List.reverseRecOn with
    | nil => exact fun _ => hs
    | append_singleton before c ih =>
      intro hprefix
      have hbefore := ih ((List.prefix_append before [c]).trans hprefix)
      rw [afterCalls, List.foldl_append]
      exact inStep_of_not_addsGuardian hbefore (hnone before c hprefix)

/-! ### From initialisation -/

theorem initializeAccount_fresh (deployed : Bool) (logic : Address) (key : Word × Word)
    (registry : Address) : initializeAccount deployed key registry (fresh logic)
      = .ok { fresh logic with initialized := 1, enclaveRegistry := registry, pubKey := key } :=
  rfl

/-- **When the two representations agree**: in a run of calls after `initialize`, they agree in
every state, and the count is right, exactly when no call makes someone a guardian. -/
theorem run_inStep_iff (this logic registry : Address) (deployed : Bool) (key : Word × Word)
    (cs : List (Address × OwnerCall)) :
    ∃ s, initializeAccount deployed key registry (fresh logic) = .ok s ∧
      ((∀ before, before <+: cs → InStep (afterCalls this s before) ∧
          (getGuardianCount (afterCalls this s before)).toNat
            = {a | (afterCalls this s before).isGuardian a = true}.ncard) ↔
        ∀ before c, before ++ [c] <+: cs →
          ¬AddsGuardian this (afterCalls this s before) c) := by
  refine ⟨_, initializeAccount_fresh deployed logic key registry, ?_⟩
  rw [← afterCalls_inStep_iff (s := { fresh logic with
    initialized := 1, enclaveRegistry := registry, pubKey := key })
    ⟨List.nodup_nil, fun a => by simp [fresh]⟩ cs]
  constructor
  · intro h before hprefix
    exact (h before hprefix).1
  · intro h before hprefix
    exact ⟨h before hprefix, getGuardianCount_of_inStep (h before hprefix)⟩

/-- The account adds the guardian 7, and still counts none. -/
theorem not_inStep_addGuardian :
    ∃ s, initializeAccount true (2, 3) 1 (fresh 4) = .ok s ∧
      (afterCalls 8 s [(8, .addGuardian 7)]).isGuardian 7 = true ∧
      getGuardianCount (afterCalls 8 s [(8, .addGuardian 7)]) = 0 ∧
      ¬InStep (afterCalls 8 s [(8, .addGuardian 7)]) := by
  refine ⟨_, initializeAccount_fresh true 4 (2, 3) 1, by decide, by decide, ?_⟩
  intro hstep
  have hmem := (hstep.2 7).mpr (by decide)
  exact absurd hmem (by decide)

end Enclave.P256SmartAccount
