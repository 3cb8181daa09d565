import Mathlib.Data.Set.Function
import Mathlib.Data.List.Induction

/-!
# Merkle proofs with sorted pairs

Trees of any shape whose leaves are hashes of encoded values and whose nodes are hashes of the two
digests below, the smaller one first.  A proof is the list of the digests next to the path from a
leaf to the root; the verifier folds it, without knowing the shape of the tree.

`mem_leaves_of_processProof`: if leaves and nodes are never encoded alike, and the hash does not
collide on what is hashed in the tree and along the proof, then a proof that leads to the root of a
tree proves one of its leaves.  `processProof_of_mem_proofs`: the proof that is collected beside the
tree for a leaf leads to the root, whatever the hash.
-/

namespace Enclave.Merkle

/-- A binary tree with values at its leaves. -/
inductive Tree (α : Type)
  | leaf (a : α)
  | node (l r : Tree α)

/-- The values at the leaves, from left to right. -/
def Tree.leaves {α : Type} : Tree α → List α
  | leaf a => [a]
  | node l r => l.leaves ++ r.leaves

/-- How leaves and nodes are encoded. -/
structure Encoding (α D M : Type) where
  leaf : α → M
  node : D → D → M

/-- The encodings are injective, and no leaf is encoded like a node. -/
structure Encoding.Separated {α D M : Type} (e : Encoding α D M) : Prop where
  leaf_inj : ∀ {a b}, e.leaf a = e.leaf b → a = b
  node_inj : ∀ {x y x' y'}, e.node x y = e.node x' y' → x = x' ∧ y = y'
  leaf_ne_node : ∀ a x y, e.leaf a ≠ e.node x y

variable {α D M : Type} (lt : D → D → Bool) (e : Encoding α D M) (hash : M → D)

/-- What is hashed for a pair of digests: the smaller one stands first. -/
def pair (x y : D) : M := if lt x y then e.node x y else e.node y x

/-- The digest of a pair. -/
def hashPair (x y : D) : D := hash (pair lt e x y)

/-- The digest that a proof leads to. -/
def processProof (proof : List D) (leaf : D) : D := proof.foldl (hashPair lt e hash) leaf

/-- The digest at the root. -/
def Tree.root : Tree α → D
  | leaf a => hash (e.leaf a)
  | node l r => hashPair lt e hash l.root r.root

/-- What is hashed in a tree. -/
def Tree.preimages : Tree α → Set M
  | leaf a => {e.leaf a}
  | node l r => {pair lt e (l.root lt e hash) (r.root lt e hash)} ∪ (l.preimages ∪ r.preimages)

/-- What is hashed along a proof, from the digest it starts with. -/
def walk : List D → D → Set M
  | [], _ => ∅
  | y :: proof, x => {pair lt e x y} ∪ walk proof (hashPair lt e hash x y)

variable {lt e hash}

theorem processProof_concat (proof : List D) (y leaf : D) :
    processProof lt e hash (proof ++ [y]) leaf
      = hashPair lt e hash (processProof lt e hash proof leaf) y :=
  List.foldl_append

theorem walk_concat (proof : List D) (y x : D) :
    walk lt e hash (proof ++ [y]) x
      = walk lt e hash proof x ∪ {pair lt e (processProof lt e hash proof x) y} := by
  induction proof generalizing x with
  | nil => exact Set.union_comm _ _
  | cons z proof ih =>
    rw [List.cons_append, walk, ih, walk, Set.union_assoc]
    rfl

/-- Equal pairs have the same two digests, in one order or the other. -/
theorem eq_or_eq_of_pair (he : e.Separated) {x y x' y' : D} (h : pair lt e x y = pair lt e x' y') :
    x = x' ∨ x = y' := by
  unfold pair at h
  split_ifs at h
  · exact Or.inl (he.node_inj h).1
  · exact Or.inr (he.node_inj h).1
  · exact Or.inr (he.node_inj h).2
  · exact Or.inl (he.node_inj h).2

theorem leaf_ne_pair (he : e.Separated) (a : α) (x y : D) : e.leaf a ≠ pair lt e x y := by
  unfold pair
  split_ifs
  · exact he.leaf_ne_node a x y
  · exact he.leaf_ne_node a y x

/-- A node of a tree is hashed from a pair. -/
theorem pair_mem_preimages (l r : Tree α) :
    pair lt e (l.root lt e hash) (r.root lt e hash) ∈ (Tree.node l r).preimages lt e hash :=
  Or.inl rfl

/-- The leaves of a tree are hashed. -/
theorem leaf_mem_preimages {a : α} {t : Tree α} (h : a ∈ t.leaves) :
    e.leaf a ∈ t.preimages lt e hash := by
  induction t with
  | leaf b =>
    rw [List.mem_singleton.mp h]
    exact rfl
  | node l r ihl ihr =>
    rcases List.mem_append.mp h with hl | hr
    · exact Or.inr (Or.inl (ihl hl))
    · exact Or.inr (Or.inr (ihr hr))

/-- **Soundness of proofs**: a proof of any length that leads to the root of a tree starts at one of
its leaves. -/
theorem mem_leaves_of_processProof (he : e.Separated) {a : α} {t : Tree α} {proof : List D}
    (hcoll : Set.InjOn hash (t.preimages lt e hash ∪
      ({e.leaf a} ∪ walk lt e hash proof (hash (e.leaf a)))))
    (h : processProof lt e hash proof (hash (e.leaf a)) = t.root lt e hash) : a ∈ t.leaves := by
  -- the proof is read from its end, against the tree from its root
  induction proof using List.reverseRecOn generalizing t with
  | nil =>
    cases t with
    | leaf b =>
      have heq := hcoll (Or.inr (Or.inl rfl)) (Or.inl rfl) h
      rw [he.leaf_inj heq]
      exact List.mem_singleton_self b
    | node l r =>
      have heq := hcoll (Or.inr (Or.inl rfl)) (Or.inl (pair_mem_preimages l r)) h
      exact absurd heq (leaf_ne_pair he a _ _)
  | append_singleton proof y ih =>
    rw [processProof_concat] at h
    rw [walk_concat] at hcoll
    have hlast : pair lt e (processProof lt e hash proof (hash (e.leaf a))) y ∈
        t.preimages lt e hash ∪ ({e.leaf a} ∪ (walk lt e hash proof (hash (e.leaf a)) ∪
          {pair lt e (processProof lt e hash proof (hash (e.leaf a))) y})) :=
      Or.inr (Or.inr (Or.inr rfl))
    cases t with
    | leaf b =>
      have heq := hcoll hlast (Or.inl rfl) h
      exact absurd heq.symm (leaf_ne_pair he b _ _)
    | node l r =>
      have heq := hcoll hlast (Or.inl (pair_mem_preimages l r)) h
      have hwalk : ({e.leaf a} ∪ walk lt e hash proof (hash (e.leaf a)) : Set M) ⊆
          {e.leaf a} ∪ (walk lt e hash proof (hash (e.leaf a)) ∪
            {pair lt e (processProof lt e hash proof (hash (e.leaf a))) y}) :=
        Set.union_subset_union_right _ Set.subset_union_left
      have hleft : l.preimages lt e hash ⊆ (Tree.node l r).preimages lt e hash :=
        Set.subset_union_left.trans Set.subset_union_right
      have hright : r.preimages lt e hash ⊆ (Tree.node l r).preimages lt e hash :=
        Set.subset_union_right.trans Set.subset_union_right
      rcases eq_or_eq_of_pair he heq with hl | hr
      · exact List.mem_append_left _ (ih (hcoll.mono (Set.union_subset_union hleft hwalk)) hl)
      · exact List.mem_append_right _ (ih (hcoll.mono (Set.union_subset_union hright hwalk)) hr)

/-! ### Completeness -/

/-- The leaves of a tree, each with the digests next to its path, the lowest one first. -/
def Tree.proofs (lt : D → D → Bool) (e : Encoding α D M) (hash : M → D) :
    Tree α → List (α × List D)
  | leaf a => [(a, [])]
  | node l r =>
    (l.proofs lt e hash).map (fun p => (p.1, p.2 ++ [r.root lt e hash])) ++
      (r.proofs lt e hash).map (fun p => (p.1, p.2 ++ [l.root lt e hash]))

/-- Every leaf has its proof. -/
theorem map_fst_proofs (t : Tree α) : (t.proofs lt e hash).map Prod.fst = t.leaves := by
  induction t with
  | leaf a => rfl
  | node l r ihl ihr =>
    rw [Tree.proofs, Tree.leaves, List.map_append, List.map_map, List.map_map, ← ihl, ← ihr]
    rfl

/-- With a total order it does not matter on which side a digest stands. -/
theorem hashPair_comm (hlt : ∀ x y, x ≠ y → lt x y = !lt y x) (x y : D) :
    hashPair lt e hash x y = hashPair lt e hash y x := by
  by_cases hxy : x = y
  · rw [hxy]
  · unfold hashPair pair
    rw [hlt x y hxy]
    cases lt y x <;> rfl

/-- **Completeness of proofs**: the proof that a tree gives for a leaf leads to its root. -/
theorem processProof_of_mem_proofs (hlt : ∀ x y, x ≠ y → lt x y = !lt y x) {a : α} {t : Tree α}
    {proof : List D} (h : (a, proof) ∈ t.proofs lt e hash) :
    processProof lt e hash proof (hash (e.leaf a)) = t.root lt e hash := by
  induction t generalizing proof with
  | leaf b =>
    cases List.mem_singleton.mp h
    rfl
  | node l r ihl ihr =>
    rcases List.mem_append.mp h with hmem | hmem
    · obtain ⟨⟨b, below⟩, hbelow, heq⟩ := List.mem_map.mp hmem
      cases heq
      rw [processProof_concat, ihl hbelow, Tree.root]
    · obtain ⟨⟨b, below⟩, hbelow, heq⟩ := List.mem_map.mp hmem
      cases heq
      rw [processProof_concat, ihr hbelow, hashPair_comm hlt, Tree.root]

end Enclave.Merkle
