import Railgun.Theory.PoiSteps

/-!
# The Invariant of the Cache of Proofs of Innocence

A cache that has accepted the roots of its forest must have accepted the roots
of what it stores now. The forest keeps roots it has computed, leaves are stored
by several operations, and any of them may fail part way, so this is an
invariant of all of them together.

Three things are carried along. A kept root is the root of the leaves of its
tree, accepted roots are the roots of the leaves of the forest, and every
position is within a tree that exists. Storing a leaf drops the kept root and
what was accepted before anything else happens. All other operations on
statuses, cursors and blocked shields leave the three alone.

A run changes the cache in the ways of `CacheStep` only, so it is enough that
each of them keeps the three.

## Main definitions

* `recomputedRoots`: The roots of a forest, from the stored leaves alone.

## Theorems

* `computedRoots_eq`, `roots_computeRoots`: Computed roots are recomputed roots
  while kept roots are current.
* `rootsTracked_stable`: Every change keeps the invariant.
* `run_tracked`: Every run keeps it.
-/

namespace Railgun

section Poseidon

variable (poseidon : U256 → U256 → U256)

/-- The roots that the leaves have. -/
def recomputedRoots (forest : MerkleForest) : BTreeMap Nat U256 :=
  forest.trees.map fun _ tree => completeRoot poseidon (storedLeaf tree.leaves)

/-- Every root that is kept is the root of the stored leaves. -/
def KeptRootsCurrent (forest : MerkleForest) : Prop :=
  ∀ (treeNumber : Nat) (tree : MerkleTree), forest.trees[treeNumber]? = some tree →
    ∀ root, tree.root = some root → root = completeRoot poseidon (storedLeaf tree.leaves)

theorem computedRoot_eq_of_kept {tree : MerkleTree}
    (h : ∀ root, tree.root = some root → root = completeRoot poseidon (storedLeaf tree.leaves)) :
    tree.computedRoot poseidon = completeRoot poseidon (storedLeaf tree.leaves) := by
  cases hroot : tree.root with
  | none => exact computedRoot_eq poseidon hroot
  | some root =>
    rw [MerkleTree.computedRoot, hroot]
    exact h root hroot

variable {forest : MerkleForest}

/-- Current kept roots are what computing them again gives. -/
theorem computedRoots_eq (h : KeptRootsCurrent poseidon forest) :
    forest.computedRoots poseidon = recomputedRoots poseidon forest := by
  refine Std.ExtTreeMap.ext_getElem? fun treeNumber => ?_
  rw [MerkleForest.computedRoots, recomputedRoots, Std.ExtTreeMap.getElem?_map,
    Std.ExtTreeMap.getElem?_map]
  cases htree : forest.trees[treeNumber]? with
  | none => rfl
  | some tree =>
    rw [Option.map_some, Option.map_some,
      computedRoot_eq_of_kept poseidon (h treeNumber tree htree)]

theorem recomputedRoots_computeRoots (forest : MerkleForest) :
    recomputedRoots poseidon (forest.computeRoots poseidon) = recomputedRoots poseidon forest := by
  rw [recomputedRoots, MerkleForest.computeRoots, Std.ExtTreeMap.map_map, recomputedRoots]
  rfl

/-- After the roots are computed, all of them are kept and current. -/
theorem roots_computeRoots (h : KeptRootsCurrent poseidon forest) :
    (forest.computeRoots poseidon).roots = recomputedRoots poseidon forest := by
  rw [← computedRoots_eq poseidon h, MerkleForest.roots, MerkleForest.computeRoots,
    Std.ExtTreeMap.map_map]
  rfl

theorem computeRoots_keptRootsCurrent
    (h : KeptRootsCurrent poseidon forest) :
    KeptRootsCurrent poseidon (forest.computeRoots poseidon) := by
  intro treeNumber tree htree root hroot
  rw [MerkleForest.computeRoots, Std.ExtTreeMap.getElem?_map, Option.map_eq_some_iff] at htree
  obtain ⟨stored, hstored, rfl⟩ := htree
  rw [MerkleTree.computeRoot, Option.some.injEq] at hroot
  rw [← hroot, computedRoot_eq_of_kept poseidon (h treeNumber stored hstored)]
  rfl

/-- A new leaf drops the kept root of its tree. -/
theorem withLeaf_keptRootsCurrent (h : KeptRootsCurrent poseidon forest)
    (treeNumber treePosition : Nat) (leaf : U256) :
    KeptRootsCurrent poseidon (forest.withLeaf treeNumber treePosition leaf) := by
  intro number tree htree root hroot
  rw [MerkleForest.withLeaf, Std.ExtTreeMap.getElem?_insert] at htree
  by_cases heq : treeNumber = number
  · rw [if_pos (Nat.compare_eq_eq.mpr heq), Option.some.injEq] at htree
    rw [← htree] at hroot
    cases hroot
  · rw [if_neg fun hcompare => heq (Nat.compare_eq_eq.mp hcompare)] at htree
    exact h number tree htree root hroot

/-- Roots that are kept or accepted are those of the stored leaves, and every
    position is within a tree that exists. -/
structure RootsTracked (cache : PoiCache) : Prop where
  keptRoots : KeptRootsCurrent poseidon cache.forest
  acceptedRoots : ∀ roots, cache.progress.rootValidation = .validated roots →
    roots = recomputedRoots poseidon cache.forest
  positions : ∀ commitment position, cache.position commitment = some position →
    position.treeNumber < 2 ^ 32 ∧ position.treePosition < treeLeafCount ∧
      ∃ tree, cache.forest.trees[position.treeNumber]? = some tree

variable {poseidon}

theorem rootsTracked_new (identity : PoiCacheIdentity) :
    RootsTracked poseidon (PoiCache.new identity) where
  keptRoots := by
    intro treeNumber tree htree
    rw [PoiCache.new, Std.ExtTreeMap.getElem?_empty] at htree
    cases htree
  acceptedRoots := by
    intro roots h
    cases h
  positions := by
    intro commitment position h
    rw [PoiCache.position, PoiCache.new, Std.ExtTreeMap.getElem?_empty] at h
    cases h

variable {cache : PoiCache}

/-- Only the forest, the validation and the positions matter. -/
theorem RootsTracked.congr {cache' : PoiCache} (h : RootsTracked poseidon cache)
    (hforest : cache'.forest = cache.forest)
    (hvalidation : cache'.progress.rootValidation = cache.progress.rootValidation)
    (hpositions : cache'.positionByBlindedCommitment = cache.positionByBlindedCommitment) :
    RootsTracked poseidon cache' where
  keptRoots := by
    rw [hforest]
    exact h.keptRoots
  acceptedRoots := by
    rw [hforest, hvalidation]
    exact h.acceptedRoots
  positions := by
    intro commitment position hposition
    rw [PoiCache.position, hpositions] at hposition
    rw [hforest]
    exact h.positions commitment position hposition

theorem exists_tree_withLeaf {treeNumber : Nat}
    (h : ∃ tree, forest.trees[treeNumber]? = some tree) (number treePosition : Nat) (leaf : U256) :
    ∃ tree, (forest.withLeaf number treePosition leaf).trees[treeNumber]? = some tree := by
  rw [MerkleForest.withLeaf, Std.ExtTreeMap.getElem?_insert]
  split
  · exact ⟨_, rfl⟩
  · exact h

theorem RootsTracked.withCommitment (h : RootsTracked poseidon cache)
    (globalIndex : Nat) (leaf : U256) :
    RootsTracked poseidon (cache.withCommitment globalIndex leaf) where
  keptRoots := withLeaf_keptRootsCurrent poseidon h.keptRoots _ _ _
  acceptedRoots := by
    intro roots hroots
    cases hroots
  positions := by
    intro commitment position hposition
    rw [PoiCache.position, PoiCache.withCommitment, PoiCache.setStatus, PoiCache.setPosition,
      Std.ExtTreeMap.getElem?_insert] at hposition
    split at hposition
    · rw [Option.some.injEq] at hposition
      obtain ⟨hnumber, htreePosition⟩ := normalizeTreePosition_lt 0 globalIndex
      rw [← hposition]
      exact ⟨hnumber, htreePosition, _, Std.ExtTreeMap.getElem?_insert_self⟩
    · obtain ⟨hnumber, htreePosition, htree⟩ := h.positions commitment position hposition
      exact ⟨hnumber, htreePosition, exists_tree_withLeaf htree _ _ _⟩

theorem RootsTracked.computeRoots (h : RootsTracked poseidon cache) :
    RootsTracked poseidon { cache with forest := cache.forest.computeRoots poseidon } where
  keptRoots := computeRoots_keptRootsCurrent poseidon h.keptRoots
  acceptedRoots := by
    intro roots hroots
    rw [recomputedRoots_computeRoots]
    exact h.acceptedRoots roots hroots
  positions := by
    intro commitment position hposition
    obtain ⟨hnumber, htreePosition, tree, htree⟩ := h.positions commitment position hposition
    refine ⟨hnumber, htreePosition, tree.computeRoot poseidon, ?_⟩
    rw [MerkleForest.computeRoots, Std.ExtTreeMap.getElem?_map, htree, Option.map_some]

theorem RootsTracked.setRootValidation (h : RootsTracked poseidon cache)
    {rootValidation : PoiCacheRootValidation}
    (hroots : ∀ roots, rootValidation = .validated roots →
      roots = recomputedRoots poseidon cache.forest) :
    RootsTracked poseidon (cache.setRootValidation rootValidation) where
  keptRoots := h.keptRoots
  acceptedRoots := hroots
  positions := h.positions

theorem RootsTracked.withoutBlocked (h : RootsTracked poseidon cache) :
    RootsTracked poseidon cache.withoutBlocked := by
  refine List.foldlRecOn _ _ (h.congr rfl rfl rfl) fun reached hreached blindedCommitment _ => ?_
  rw [PoiCache.clearBlocked]
  split
  · exact hreached.congr rfl rfl rfl
  · exact hreached

theorem RootsTracked.blockShield (h : RootsTracked poseidon cache)
    (blindedCommitment : Bytes32) (blockedShield : BlockedShield) :
    RootsTracked poseidon (cache.blockShield blindedCommitment blockedShield) := by
  rw [PoiCache.blockShield]
  split
  · exact h.congr rfl rfl rfl
  · exact h.congr rfl rfl rfl

/-- Every step keeps the roots tracked. -/
theorem rootsTracked_stable : Stable poseidon (RootsTracked poseidon) := by
  intro cache cache' hstep h
  cases hstep with
  | markValid blindedCommitment => exact h.congr rfl rfl rfl
  | raiseEvents index => exact h.congr rfl rfl rfl
  | raiseLeaves index => exact h.congr rfl rfl rfl
  | store globalIndex leaf => exact h.withCommitment globalIndex leaf
  | block blindedCommitment blockedShield => exact h.blockShield blindedCommitment blockedShield
  | unblock => exact h.withoutBlocked
  | blockedSynced => exact h.congr rfl rfl rfl
  | computeRoots => exact h.computeRoots
  | judge accepted =>
    refine h.computeRoots.setRootValidation fun roots hroots => ?_
    -- Rejected roots are not accepted ones, and accepted ones were computed last.
    cases accepted with
    | false => cases hroots
    | true =>
      rw [if_pos rfl, PoiCacheRootValidation.validated.injEq] at hroots
      rw [← hroots, roots_computeRoots poseidon h.keptRoots, recomputedRoots_computeRoots]

/-- So does every sequence of operations. -/
theorem run_tracked (externals : PoiCacheExternals) (operations : List PoiCacheOperation)
    {cache' : PoiCache} (h : RootsTracked poseidon cache)
    (hrun : PoiCacheOperation.run poseidon externals operations cache = some cache') :
    RootsTracked poseidon cache' :=
  run_stable rootsTracked_stable externals operations h hrun

end Poseidon

end Railgun
