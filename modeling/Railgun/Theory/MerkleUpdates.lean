import Railgun.Theory.PoiCache

/-!
# Updates of Merkle Trees

A dense tree replaces a leaf by writing it and hashing its ancestors again, one
in each layer. Nothing else is touched, so that the layers are right only if
they were right before. They are: a node above the replaced leaf is the one node
of its layer that covers it.

A forest forgets the kept root of a tree whenever it stores a leaf in it, and
keeps a root only right after computing it.

## Main definitions

* `DenseConstruction`, `DenseUpdate`: How a dense tree is built and changed.
* `ForestOperation`: What is done with a forest.

## Theorems

* `setLeaf_completeTree`: Replacing a leaf gives the complete tree of the new
  leaves.
* `merkleUpdates_consistent`: Layers and kept roots after any updates.
-/

namespace Railgun

open DenseMerkleTree

variable (poseidon : U256 → U256 → U256)

/-- The layers while the ancestors of a leaf are being hashed: those of the new
    leaves up to a level, and those of the old ones above it. -/
structure UpdatedUpTo (leaf leaf' : Nat → U256) (level : Nat) (layers : List (List U256)) :
    Prop where
  length : layers.length = treeDepth + 1
  below : ∀ l, l ≤ level → l ≤ treeDepth →
    layers[l]? = some (nodeLayer poseidon leaf' l (2 ^ (treeDepth - l)))
  above : ∀ l, level < l → l ≤ treeDepth →
    layers[l]? = some (nodeLayer poseidon leaf l (2 ^ (treeDepth - l)))

theorem length_nodeLayers (leaf : Nat → U256) (d height : Nat) :
    (nodeLayers poseidon leaf d height).length = height + 1 := by
  induction height generalizing d with
  | zero => rfl
  | succ height ih => rw [nodeLayers, List.length_cons, ih]

theorem UpdatedUpTo.eq_nodeLayers {leaf leaf' : Nat → U256} {layers : List (List U256)}
    (h : UpdatedUpTo poseidon leaf leaf' treeDepth layers) :
    layers = nodeLayers poseidon leaf' 0 treeDepth := by
  refine List.ext_getElem? ?_
  intro l
  by_cases hl : l ≤ treeDepth
  · rw [h.below l hl hl, getElem?_nodeLayers poseidon leaf' treeDepth 0 l hl, Nat.zero_add]
  · rw [List.getElem?_eq_none (by rw [h.length]; omega),
      List.getElem?_eq_none (by rw [length_nodeLayers]; omega)]

theorem updatedUpTo_leaf (leaf : Nat → U256) (position : Nat) (x : U256) :
    UpdatedUpTo poseidon leaf (Function.update leaf position x) 0
      ((nodeLayers poseidon leaf 0 treeDepth).modify 0 fun layer => layer.set position x) where
  length := by rw [List.length_modify, length_nodeLayers]
  below := by
    intro l hl _
    have hset := set_nodeLayer poseidon leaf x position 0 (2 ^ treeDepth)
    rw [pow_zero, Nat.div_one, node, Function.update_self] at hset
    rw [Nat.le_zero.mp hl, List.getElem?_modify_eq,
      getElem?_nodeLayers poseidon leaf treeDepth 0 0 (Nat.zero_le _), Nat.sub_zero]
    exact congrArg some hset
  above := by
    intro l hl hdepth
    rw [List.getElem?_modify_ne _ _ (by omega),
      getElem?_nodeLayers poseidon leaf treeDepth 0 l hdepth,
      Nat.zero_add]

/-- One ancestor hashed again: the parent of the node that was written last. -/
def rehashParent (state : DenseMerkleTree × Nat) (level : Nat) : DenseMerkleTree × Nat :=
  let parentIndex := state.2 / 2
  let left := state.1.nodeAt level (parentIndex * 2)
  let right := state.1.nodeAt level (parentIndex * 2 + 1)
  ({ layers := state.1.layers.modify (level + 1) fun layer =>
      layer.set parentIndex (poseidon left right) }, parentIndex)

/-- One step of the loop brings one more layer up to date. -/
theorem rehashParent_updates {leaf : Nat → U256} {position level : Nat} {x : U256}
    {state : DenseMerkleTree × Nat} (hposition : position < treeLeafCount)
    (hlevel : level < treeDepth)
    (hstate : UpdatedUpTo poseidon leaf (Function.update leaf position x) level state.1.layers ∧
      state.2 = position / 2 ^ level) :
    UpdatedUpTo poseidon leaf (Function.update leaf position x) (level + 1)
        (rehashParent poseidon state level).1.layers ∧
      (rehashParent poseidon state level).2 = position / 2 ^ (level + 1) := by
  obtain ⟨dense, _⟩ := state
  obtain ⟨h, rfl⟩ := hstate
  have hparent : position / 2 ^ level / 2 = position / 2 ^ (level + 1) := by
    rw [Nat.div_div_eq_div_mul, pow_succ]
  have hbound : position / 2 ^ (level + 1) < 2 ^ (treeDepth - (level + 1)) := by
    rw [Nat.div_lt_iff_lt_mul (Nat.two_pow_pos _), ← pow_add,
      show treeDepth - (level + 1) + (level + 1) = treeDepth by omega]
    exact hposition
  have hwidth : 2 ^ (treeDepth - level) = 2 ^ (treeDepth - (level + 1)) * 2 := by
    rw [← pow_succ, show treeDepth - (level + 1) + 1 = treeDepth - level by omega]
  have hchild : ∀ i, i < 2 ^ (treeDepth - level) →
      dense.nodeAt level i = node poseidon (Function.update leaf position x) level i := by
    intro i hi
    rw [nodeAt, List.getD_eq_getElem?_getD, List.getD_eq_getElem?_getD,
      h.below level le_rfl (by omega), Option.getD_some, getElem?_nodeLayer poseidon _ level hi,
      Option.getD_some]
  refine ⟨⟨?_, ?_, ?_⟩, hparent⟩
  · rw [rehashParent, List.length_modify, h.length]
  · intro l hl hdepth
    by_cases heq : l = level + 1
    · -- Both children are up to date, so their hash is the new parent.
      rw [heq, rehashParent, List.getElem?_modify_eq, h.above (level + 1) (by omega) (by omega),
        hparent, hchild _ (by omega), hchild _ (by omega), Option.map_eq_map, Option.map_some,
        ← set_nodeLayer poseidon leaf x position (level + 1), node, Nat.mul_comm]
    · rw [rehashParent, List.getElem?_modify_ne _ _ (by omega), h.below l (by omega) hdepth]
  · intro l hl hdepth
    rw [rehashParent, List.getElem?_modify_ne _ _ (by omega), h.above l (by omega) hdepth]

theorem leafLayer_completeTree (leaf : Nat → U256) :
    (completeTree poseidon leaf).layers.getD 0 [] = nodeLayer poseidon leaf 0 treeLeafCount := by
  rw [completeTree, List.getD_eq_getElem?_getD,
    getElem?_nodeLayers poseidon leaf treeDepth 0 0 (Nat.zero_le _), Option.getD_some]
  rfl

theorem length_leafLayer (leaf : Nat → U256) :
    ((completeTree poseidon leaf).layers.getD 0 []).length = treeLeafCount := by
  rw [leafLayer_completeTree, length_nodeLayer]

/-- Setting a leaf gives the complete tree of the new leaves. -/
theorem setLeaf_completeTree (leaf : Nat → U256) {position : Nat} (h : position < treeLeafCount)
    (x : U256) :
    (completeTree poseidon leaf).setLeaf poseidon position x
      = completeTree poseidon (Function.update leaf position x) := by
  -- After `count` steps the layers up to level `count` are those of the new
  -- leaves, and the index is that of the ancestor at that level.
  have hsteps := foldl_range_induct
    (fun count (state : DenseMerkleTree × Nat) =>
      UpdatedUpTo poseidon leaf (Function.update leaf position x) count state.1.layers ∧
        state.2 = position / 2 ^ count)
    ({ layers := (completeTree poseidon leaf).layers.modify 0 fun layer => layer.set position x },
      position)
    ⟨updatedUpTo_leaf poseidon leaf position x, by rw [pow_zero, Nat.div_one]⟩
    (fun _ hlevel _ => rehashParent_updates poseidon h hlevel)
  rw [setLeaf, length_leafLayer, if_neg (by omega)]
  exact congrArg DenseMerkleTree.mk hsteps.1.eq_nodeLayers

theorem setLeaf_of_le (leaf : Nat → U256) {position : Nat} (h : treeLeafCount ≤ position)
    (x : U256) :
    (completeTree poseidon leaf).setLeaf poseidon position x = completeTree poseidon leaf := by
  rw [setLeaf, length_leafLayer, if_pos h]

/-- A way to build a dense tree. -/
inductive DenseConstruction where
  | fromForestPrefix (forest : MerkleForest) (treeNumber leafCount : Nat)
  | fromOrderedLeaves (leaves : List U256) (leafCount : Nat)
  | fromFullLeafLayer (layer : List U256)

/-- The tree it builds. -/
def DenseConstruction.build : DenseConstruction → DenseMerkleTree
  | fromForestPrefix forest treeNumber leafCount =>
    DenseMerkleTree.fromForestPrefix poseidon forest treeNumber leafCount
  | fromOrderedLeaves leaves leafCount =>
    DenseMerkleTree.fromOrderedLeaves poseidon leaves leafCount
  | fromFullLeafLayer layer => DenseMerkleTree.fromFullLeafLayer poseidon layer

/-- A change of a dense tree. -/
inductive DenseUpdate where
  | setLeaf (position : Nat) (leaf : U256)
  | removeLeaf (position : Nat)
deriving DecidableEq, Repr

/-- The tree after it. -/
def DenseUpdate.apply (dense : DenseMerkleTree) : DenseUpdate → DenseMerkleTree
  | setLeaf position leaf => dense.setLeaf poseidon position leaf
  | removeLeaf position => dense.removeLeaf poseidon position

/-- A dense tree as it was built and changed since. -/
def DenseConstruction.updated (construction : DenseConstruction) (updates : List DenseUpdate) :
    DenseMerkleTree :=
  updates.foldl (DenseUpdate.apply poseidon) (construction.build poseidon)

/-- A tree with the same leaf layer and every other layer hashed from it. -/
def DenseMerkleTree.rebuilt (dense : DenseMerkleTree) : DenseMerkleTree :=
  DenseMerkleTree.fromFullLeafLayer poseidon (dense.layers.getD 0 [])

/-- Every construction gives a complete tree. -/
theorem build_complete (construction : DenseConstruction) :
    ∃ leaf, construction.build poseidon = completeTree poseidon leaf := by
  cases construction with
  | fromForestPrefix forest treeNumber leafCount =>
    exact ⟨_, fromForestPrefix_eq poseidon forest treeNumber leafCount⟩
  | fromOrderedLeaves leaves leafCount => exact ⟨_, fromOrderedLeaves_eq poseidon leaves leafCount⟩
  | fromFullLeafLayer layer => exact ⟨_, fromFullLeafLayer_eq poseidon layer⟩

theorem setLeaf_complete (leaf : Nat → U256) (position : Nat) (x : U256) :
    ∃ leaf', (completeTree poseidon leaf).setLeaf poseidon position x
      = completeTree poseidon leaf' := by
  by_cases h : position < treeLeafCount
  · exact ⟨_, setLeaf_completeTree poseidon leaf h x⟩
  · exact ⟨_, setLeaf_of_le poseidon leaf (Nat.le_of_not_lt h) x⟩

theorem apply_complete (leaf : Nat → U256) (update : DenseUpdate) :
    ∃ leaf', update.apply poseidon (completeTree poseidon leaf) = completeTree poseidon leaf' := by
  cases update with
  | setLeaf position x => exact setLeaf_complete poseidon leaf position x
  | removeLeaf position => exact setLeaf_complete poseidon leaf position merkleZeroValue

/-- By induction over the updates, it stays complete. -/
theorem updates_complete (updates : List DenseUpdate) (leaf : Nat → U256) :
    ∃ leaf', updates.foldl (DenseUpdate.apply poseidon) (completeTree poseidon leaf)
      = completeTree poseidon leaf' := by
  induction updates generalizing leaf with
  | nil => exact ⟨leaf, rfl⟩
  | cons update updates ih =>
    obtain ⟨leaf', hstep⟩ := apply_complete poseidon leaf update
    rw [List.foldl_cons, hstep]
    exact ih leaf'

/-- A complete tree is what its leaf layer is rebuilt into. -/
theorem completeTree_rebuilt (leaf : Nat → U256) :
    (completeTree poseidon leaf).rebuilt poseidon = completeTree poseidon leaf := by
  rw [rebuilt, leafLayer_completeTree, DenseMerkleTree.fromFullLeafLayer, completeTree]
  have hlayer : resizeLayer (nodeLayer poseidon leaf 0 treeLeafCount)
      = nodeLayer poseidon leaf 0 (2 ^ treeDepth) := by
    refine resizeLayer_eq poseidon ?_
    intro i hi
    rw [listLeaf, getElem?_nodeLayer poseidon leaf 0 hi, Option.getD_some, node]
  rw [hlayer, hashLayers_eq]

/-- A call of a forest. -/
inductive ForestOperation where
  | insertLeaf (update : MerkleTreeUpdate)
  | insertUpdates (updates : List MerkleTreeUpdate)
  | replaceTreeOrderedLeaves (treeNumber leafCount : Nat) (leaves : List U256)
  | computeRoots
  | computedRoots
  | roots

/-- The forest after an operation. One that is refused leaves the forest as it
    is, and reading roots changes nothing. -/
def ForestOperation.apply (forest : MerkleForest) : ForestOperation → MerkleForest
  | insertLeaf update => (forest.insertLeaf update).toOption.getD forest
  | insertUpdates updates => (forest.insertUpdates 0 updates).2
  | replaceTreeOrderedLeaves treeNumber leafCount leaves =>
    ((forest.replaceTreeOrderedLeaves treeNumber leafCount leaves).toOption.map Prod.fst).getD
      forest
  | computeRoots => forest.computeRoots poseidon
  | computedRoots => forest
  | roots => forest

theorem empty_keptRootsCurrent : KeptRootsCurrent poseidon {} := by
  intro treeNumber tree htree
  cases htree

theorem insert_keptRootsCurrent {forest : MerkleForest} (h : KeptRootsCurrent poseidon forest)
    (treeNumber : Nat) {tree : MerkleTree} (hroot : tree.root = none) :
    KeptRootsCurrent poseidon { trees := forest.trees.insert treeNumber tree } := by
  intro number tree' htree root hkept
  rw [getElem?_insert_key] at htree
  split at htree
  · rw [← Option.some.inj htree, hroot] at hkept
    cases hkept
  · exact h number tree' htree root hkept

theorem insertLeaf_keptRootsCurrent {forest forest' : MerkleForest}
    (h : KeptRootsCurrent poseidon forest) {update : MerkleTreeUpdate}
    (hinsert : forest.insertLeaf update = .ok forest') : KeptRootsCurrent poseidon forest' := by
  by_cases hposition : update.treePosition < treeLeafCount
  · rw [forest_insertLeaf_eq_ok forest hposition, Except.ok.injEq] at hinsert
    rw [← hinsert]
    exact withLeaf_keptRootsCurrent poseidon h _ _ _
  · rw [forest_insertLeaf_eq_error forest (Nat.le_of_not_lt hposition)] at hinsert
    cases hinsert

theorem insertUpdates_keptRootsCurrent (updates : List MerkleTreeUpdate) {forest : MerkleForest}
    (h : KeptRootsCurrent poseidon forest) (count : Nat) :
    KeptRootsCurrent poseidon (forest.insertUpdates count updates).2 := by
  induction updates generalizing forest count with
  | nil => exact h
  | cons update updates ih =>
    rw [MerkleForest.insertUpdates]
    cases hinsert : forest.insertLeaf update with
    | error error => exact h
    | ok forest' => exact ih (insertLeaf_keptRootsCurrent poseidon h hinsert) _

/-- Every operation keeps the roots that are kept current. -/
theorem forestOperation_keptRootsCurrent {forest : MerkleForest}
    (h : KeptRootsCurrent poseidon forest) (operation : ForestOperation) :
    KeptRootsCurrent poseidon (operation.apply poseidon forest) := by
  cases operation with
  | insertLeaf update =>
    rw [ForestOperation.apply]
    cases hinsert : forest.insertLeaf update with
    | error error => exact h
    | ok forest' => exact insertLeaf_keptRootsCurrent poseidon h hinsert
  | insertUpdates updates => exact insertUpdates_keptRootsCurrent poseidon updates h 0
  | replaceTreeOrderedLeaves treeNumber leafCount leaves =>
    rw [ForestOperation.apply]
    by_cases hcount : leafCount ≤ treeLeafCount
    · obtain ⟨tree, count, hreplace, hroot, -⟩ :=
        replaceTreeOrderedLeaves_stores forest treeNumber hcount leaves
      rw [hreplace]
      exact insert_keptRootsCurrent poseidon h treeNumber hroot
    · rw [MerkleForest.replaceTreeOrderedLeaves, if_pos (Nat.lt_of_not_le hcount)]
      exact h
  | computeRoots => exact computeRoots_keptRootsCurrent poseidon h
  | computedRoots => exact h
  | roots => exact h

theorem forestOperations_keptRootsCurrent (operations : List ForestOperation)
    {forest : MerkleForest} (h : KeptRootsCurrent poseidon forest) :
    KeptRootsCurrent poseidon (operations.foldl (ForestOperation.apply poseidon) forest) := by
  induction operations generalizing forest with
  | nil => exact h
  | cons operation operations ih =>
    exact ih (forestOperation_keptRootsCurrent poseidon h operation)

/-- However a dense tree was built and whatever leaves were set or removed since,
    it is the tree its leaf layer is rebuilt into, with the same root and proofs.
    Whatever was done with a forest, a root it keeps is the root computed again
    from the leaves of its tree. -/
theorem merkleUpdates_consistent :
    (∀ (construction : DenseConstruction) (updates : List DenseUpdate),
      (construction.updated poseidon updates).layers
          = ((construction.updated poseidon updates).rebuilt poseidon).layers ∧
        (construction.updated poseidon updates).root
          = ((construction.updated poseidon updates).rebuilt poseidon).root ∧
        ∀ position, (construction.updated poseidon updates).prove position
          = ((construction.updated poseidon updates).rebuilt poseidon).prove position) ∧
    ∀ (operations : List ForestOperation) (treeNumber : Nat) (tree : MerkleTree) (root : U256),
      (operations.foldl (ForestOperation.apply poseidon) {}).trees[treeNumber]? = some tree →
      tree.root = some root →
      root = MerkleTree.computedRoot poseidon { leaves := tree.leaves, root := none } := by
  constructor
  · intro construction updates
    obtain ⟨leaf, hbuild⟩ := build_complete poseidon construction
    obtain ⟨leaf', hupdates⟩ := updates_complete poseidon updates leaf
    rw [DenseConstruction.updated, hbuild, hupdates, completeTree_rebuilt]
    exact ⟨rfl, rfl, fun _ => rfl⟩
  · intro operations treeNumber tree root htree hroot
    rw [computedRoot_eq poseidon rfl]
    exact forestOperations_keptRootsCurrent poseidon operations (empty_keptRootsCurrent poseidon)
      treeNumber tree htree root hroot

/-- A leaf stored in a new tree, and the root computed and kept. -/
theorem merkleUpdates_consistent_kept : ∃ tree root,
    ([ForestOperation.insertLeaf ⟨0, 3, 7⟩, .computeRoots].foldl
      (ForestOperation.apply fun a b => a + 2 * b) {}).trees[0]? = some tree ∧
    tree.root = some root ∧
    root = MerkleTree.computedRoot (fun a b => a + 2 * b)
      { leaves := tree.leaves, root := none } := by
  have hinsert := @forest_insertLeaf_eq_ok {} ⟨0, 3, 7⟩ (by decide)
  have hget : ([ForestOperation.insertLeaf ⟨0, 3, 7⟩, .computeRoots].foldl
      (ForestOperation.apply fun a b => a + 2 * b) {}).trees[0]?
      = some (MerkleTree.computeRoot (fun a b => a + 2 * b)
        { leaves := (∅ : BTreeMap Nat U256).insert 3 7 }) := by
    rfl
  exact ⟨_, _, hget, rfl, (merkleUpdates_consistent fun a b => a + 2 * b).2 _ 0 _ _ hget rfl⟩

end Railgun
