import Railgun.Core.Types
import Railgun.Lib.CompleteTree

/-!
# Merkle Trees

The commitment trees of the wallet: trees of fixed depth that store only the
leaves inserted so far, the forest that numbers them, and the dense trees that
keep every layer. A root or a proof is computed in one of several ways,
depending on how many leaves there are.

The two-input Poseidon hash is a parameter: every function here takes it as its
first argument, and nothing depends on which function it is. The parallel and
the sequential branch of the layer hash write the same values and are one
definition. Tree numbers are 32-bit words where a position overflows into the
next tree, and the addition wraps.

## Main definitions

* `MerkleTree`: The stored leaves of a tree and its cached root.
* `MerkleForest`: The trees by number.
* `DenseMerkleTree`: A tree with all its layers.
-/

namespace Railgun

/-- The depth of every tree. -/
def treeDepth : Nat := 16

/-- The number of leaves of every tree. -/
def treeLeafCount : Nat := 2 ^ treeDepth

/-- The number of leaves up to which a root is computed from the stored leaves
    only. -/
def sparseRootMaxLeaves : Nat := 1024

/-- The value of an empty leaf. -/
def merkleZeroValue : U256 :=
  2051258411002736885948763699317990061539314419500486054347250703186609807356

/-- Why a tree refuses an update. -/
inductive SyncError where
  | unexpectedFormat (message : String)
  | invalidTreePosition (treePosition maxPosition : Nat)
deriving DecidableEq, Repr

/-- The tree and position a position beyond the end of a tree refers to. -/
def normalizeTreePosition (treeNumber treePosition : Nat) : Nat × Nat :=
  let normalizedIndex := treePosition % treeLeafCount
  let treeIncrement := treePosition / treeLeafCount % 2 ^ 32
  ((treeNumber + treeIncrement) % 2 ^ 32, normalizedIndex)

/-- A leaf for one position of one tree. -/
structure MerkleTreeUpdate where
  treeNumber : Nat
  treePosition : Nat
  hash : U256
deriving DecidableEq, Repr

/-- The stored leaves, and the root if it is kept. All other leaves are zero. -/
structure MerkleTree where
  leaves : BTreeMap Nat U256 := ∅
  root : Option U256 := none

/-- The siblings of a leaf on the way to the root. -/
structure MerkleProof where
  root : U256
  leaf : U256
  leafIndex : Nat
  pathElements : List U256
  pathIndices : List Nat
deriving DecidableEq, Repr

/-- The trees by their number. -/
structure MerkleForest where
  trees : BTreeMap Nat MerkleTree := ∅

/-- All layers, from the leaves to the root. -/
structure DenseMerkleTree where
  layers : List (List U256)
deriving DecidableEq, Repr

/-- A position is within its tree. -/
def validateTreePosition (treePosition : Nat) : Except SyncError Unit :=
  if treeLeafCount ≤ treePosition then
    .error (.invalidTreePosition treePosition treeLeafCount)
  else
    .ok ()

/-- Store a leaf and forget the root. -/
def MerkleTree.insert (tree : MerkleTree) (position : Nat) (leaf : U256) :
    Except SyncError MerkleTree := do
  validateTreePosition position
  return { leaves := tree.leaves.insert position leaf, root := none }

/-- The number of stored leaves. -/
def MerkleTree.leafCount (tree : MerkleTree) : Nat := tree.leaves.size

section Poseidon

variable (poseidon : U256 → U256 → U256)

/-- The root of an empty subtree of each depth. -/
def zeroHashes (level : Nat) : U256 := zeroNode poseidon merkleZeroValue level

/-- The first `count` parents of a layer. Both children of a parent are within
    the layer, so the defaults are never read. -/
def hashParentPrefix (layer : List U256) (count : Nat) : List U256 :=
  (List.range count).map fun index =>
    poseidon (layer.getD (index * 2) 0) (layer.getD (index * 2 + 1) 0)

/-- The layer above a layer. -/
def hashLayer (layer : List U256) : List U256 :=
  hashParentPrefix poseidon layer (layer.length / 2)

@[simp]
theorem length_hashLayer (layer : List U256) :
    (hashLayer poseidon layer).length = layer.length / 2 := by
  rw [hashLayer, hashParentPrefix, List.length_map, List.length_range]

/-- A layer and every layer above it, up to one with a single node. -/
def hashLayers (layer : List U256) : List (List U256) :=
  if _h : 1 < layer.length then layer :: hashLayers (hashLayer poseidon layer) else [layer]
termination_by layer.length
decreasing_by
  rw [length_hashLayer]
  omega

namespace MerkleTree

/-- The root of the subtree of a depth that starts at a leaf, over the leaves
    before `leafCount`. Empty ranges are answered from the table. -/
def subtreeRoot (tree : MerkleTree) (start depth leafCount : Nat) : U256 :=
  if leafCount ≤ start then
    zeroHashes poseidon depth
  else if (rangeEntries tree.leaves start
      (min (min (start + 2 ^ depth) treeLeafCount) leafCount)).isEmpty then
    zeroHashes poseidon depth
  else
    match depth with
    | 0 => (tree.leaves[start]?).getD (zeroHashes poseidon 0)
    | depth + 1 =>
      poseidon (tree.subtreeRoot start depth leafCount)
        (tree.subtreeRoot (start + 2 ^ (depth + 1) / 2) depth leafCount)

/-- The cached root, or the root of the stored leaves: from the leaves alone
    while they are few, and layer by layer otherwise. -/
def computedRoot (tree : MerkleTree) : U256 :=
  match tree.root with
  | some root => root
  | none =>
    if tree.leaves.size ≤ sparseRootMaxLeaves then
      tree.subtreeRoot poseidon 0 treeDepth treeLeafCount
    else
      let layer := writeEntries (List.replicate treeLeafCount (zeroHashes poseidon 0))
        tree.leaves.toList
      (((hashLayers poseidon layer).getLast?).getD []).getD 0 0

/-- Compute the root and keep it. -/
def computeRoot (tree : MerkleTree) : MerkleTree :=
  { tree with root := some (tree.computedRoot poseidon) }

/-- What the proof loop has computed below a level. -/
structure ProofLevels where
  root : U256
  pathElements : List U256
  pathIndices : List Nat

/-- A proof for a position, as if only the leaves before `leafCount` were
    stored. -/
def proveWithLeafCount (tree : MerkleTree) (position leafCount : Nat) : MerkleProof :=
  let localPosition := position % treeLeafCount
  let clampedLeafCount := min leafCount treeLeafCount
  let leaf :=
    if localPosition < clampedLeafCount then
      (tree.leaves[localPosition]?).getD (zeroHashes poseidon 0)
    else
      zeroHashes poseidon 0
  let levels := (List.range treeDepth).foldl
    (fun (levels : ProofLevels) level =>
      let isRight := (localPosition >>> level) &&& 1 = 1
      let siblingStart := ((localPosition >>> level) ^^^ 1) <<< level
      let sibling := tree.subtreeRoot poseidon siblingStart level clampedLeafCount
      { root := if isRight then poseidon sibling levels.root else poseidon levels.root sibling,
        pathElements := levels.pathElements ++ [sibling],
        pathIndices := levels.pathIndices ++ [if isRight then 1 else 0] })
    { root := leaf, pathElements := [], pathIndices := [] }
  { root := levels.root,
    leaf := leaf,
    leafIndex := localPosition,
    pathElements := levels.pathElements,
    pathIndices := levels.pathIndices }

/-- A proof against all stored leaves. -/
def prove (tree : MerkleTree) (position : Nat) : MerkleProof :=
  tree.proveWithLeafCount poseidon position treeLeafCount

end MerkleTree

namespace MerkleForest

/-- Store a leaf, in a new tree if its tree does not exist. -/
def insertLeaf (forest : MerkleForest) (update : MerkleTreeUpdate) :
    Except SyncError MerkleForest := do
  validateTreePosition update.treePosition
  let tree := (forest.trees[update.treeNumber]?).getD {}
  let tree ← tree.insert update.treePosition update.hash
  return { trees := forest.trees.insert update.treeNumber tree }

/-- Insert leaves one after another and count them. The leaves before one that
    is refused stay. -/
def insertUpdates (forest : MerkleForest) (count : Nat) :
    List MerkleTreeUpdate → Except SyncError Nat × MerkleForest
  | [] => (.ok count, forest)
  | update :: updates =>
    match forest.insertLeaf update with
    | .error error => (.error error, forest)
    | .ok forest => insertUpdates forest (count + 1) updates

/-- Insert the leaves of an ordered list that are not empty, and count them. -/
def insertOrderedLeaves (tree : MerkleTree) (leaves : List U256) :
    Except SyncError (MerkleTree × Nat) :=
  (enumerate leaves).foldlM
    (fun (state : MerkleTree × Nat) entry =>
      if entry.2 = merkleZeroValue then
        .ok state
      else do
        let tree ← state.1.insert entry.1 entry.2
        return (tree, state.2 + 1))
    (tree, 0)

/-- Put a tree with the first `leafCount` of the given leaves in place of a
    tree, and count the leaves stored. -/
def replaceTreeOrderedLeaves (forest : MerkleForest) (treeNumber leafCount : Nat)
    (leaves : List U256) : Except SyncError (MerkleForest × Nat) :=
  if treeLeafCount < leafCount then
    .error (.unexpectedFormat
      s!"merkle tree leaf count {leafCount} exceeds capacity {treeLeafCount}")
  else do
    let (tree, count) ← insertOrderedLeaves {} (leaves.take leafCount)
    return ({ trees := forest.trees.insert treeNumber tree }, count)

/-- Compute and keep the root of every tree. -/
def computeRoots (forest : MerkleForest) : MerkleForest :=
  { trees := forest.trees.map fun _ tree => tree.computeRoot poseidon }

/-- The root of every tree, computed where it is not kept. -/
def computedRoots (forest : MerkleForest) : BTreeMap Nat U256 :=
  forest.trees.map fun _ tree => tree.computedRoot poseidon

/-- The kept root of every tree, zero where there is none. -/
def roots (forest : MerkleForest) : BTreeMap Nat U256 :=
  forest.trees.map fun _ tree => tree.root.getD 0

/-- The number of stored leaves of all trees. -/
def leafCount (forest : MerkleForest) : Nat :=
  (forest.trees.toList.map fun entry => entry.2.leafCount).sum

/-- The leaf stored at a position. -/
def leafAt (forest : MerkleForest) (treeNumber position : Nat) : Option U256 :=
  forest.trees[treeNumber]?.bind fun tree => tree.leaves[position]?

/-- Whether a tree has been stored. -/
def containsTree (forest : MerkleForest) (treeNumber : Nat) : Bool :=
  forest.trees.contains treeNumber

/-- A proof for a position, which may be counted on past its tree. -/
def prove (forest : MerkleForest) (treeNumber treePosition : Nat) : Option MerkleProof :=
  let (treeNumber, treePosition) := normalizeTreePosition treeNumber treePosition
  forest.trees[treeNumber]?.map fun tree => tree.prove poseidon treePosition

end MerkleForest

namespace DenseMerkleTree

/-- The layers above a layer whose nodes from `activeCount` on are empty: the
    active parents are hashed and the rest filled from the table. `level` is
    the level of the layer and `remaining` the number of levels above it. -/
def prefixLayers (layer : List U256) (activeCount level : Nat) : Nat → List (List U256)
  | 0 => []
  | remaining + 1 =>
    let parentCount := layer.length / 2
    let activeParentCount := (activeCount + 1) / 2
    let parents := hashParentPrefix poseidon layer activeParentCount
      ++ List.replicate (parentCount - activeParentCount) (zeroHashes poseidon (level + 1))
    parents :: prefixLayers parents activeParentCount (level + 1) remaining

/-- Bring a layer to the length of a full leaf layer. -/
def resizeLayer (layer : List U256) : List U256 :=
  layer.take treeLeafCount ++ List.replicate (treeLeafCount - layer.length) merkleZeroValue

/-- The tree of a layer whose leaves from a count on are zero. -/
def fromPrefixLeafLayer (layer : List U256) (activeLeafCount : Nat) : DenseMerkleTree :=
  let layer := resizeLayer layer
  let activeCount := min activeLeafCount treeLeafCount
  { layers := layer :: prefixLayers poseidon layer activeCount 0 treeDepth }

/-- The dense tree of the first leaves of a tree of the forest. -/
def fromForestPrefix (forest : MerkleForest) (treeNumber leafCount : Nat) : DenseMerkleTree :=
  let clampedLeafCount := min leafCount treeLeafCount
  let leaves := List.replicate treeLeafCount merkleZeroValue
  let leaves :=
    match forest.trees[treeNumber]? with
    | some tree => writeEntries leaves (rangeEntries tree.leaves 0 clampedLeafCount)
    | none => leaves
  fromPrefixLeafLayer poseidon leaves clampedLeafCount

/-- The tree of the first leaves of a list. -/
def fromOrderedLeaves (leaves : List U256) (leafCount : Nat) : DenseMerkleTree :=
  let clampedLeafCount := min leafCount treeLeafCount
  let layer := writeEntries (List.replicate treeLeafCount merkleZeroValue)
    (enumerate (leaves.take clampedLeafCount))
  fromPrefixLeafLayer poseidon layer clampedLeafCount

/-- The tree of a whole layer. -/
def fromFullLeafLayer (layer : List U256) : DenseMerkleTree :=
  { layers := hashLayers poseidon (resizeLayer layer) }

/-- The root, which the last layer has. -/
def root (dense : DenseMerkleTree) : U256 :=
  ((dense.layers.getLast?).bind fun layer => layer.head?).getD merkleZeroValue

/-- The node of a layer. The index is within the layer. -/
def nodeAt (dense : DenseMerkleTree) (level index : Nat) : U256 :=
  (dense.layers.getD level []).getD index 0

/-- Replace the leaf at a position and hash its ancestors again. -/
def setLeaf (dense : DenseMerkleTree) (position : Nat) (leaf : U256) : DenseMerkleTree :=
  if (dense.layers.getD 0 []).length ≤ position then
    dense
  else
    let rehash := fun (state : DenseMerkleTree × Nat) level =>
      let parentIndex := state.2 / 2
      let left := state.1.nodeAt level (parentIndex * 2)
      let right := state.1.nodeAt level (parentIndex * 2 + 1)
      ({ layers := state.1.layers.modify (level + 1) fun layer =>
          layer.set parentIndex (poseidon left right) }, parentIndex)
    ((List.range treeDepth).foldl rehash
      ({ layers := dense.layers.modify 0 fun layer => layer.set position leaf }, position)).1

/-- Put an empty leaf at a position. -/
def removeLeaf (dense : DenseMerkleTree) (position : Nat) : DenseMerkleTree :=
  dense.setLeaf poseidon position merkleZeroValue

/-- What the proof loop has read below a level, and the index it has reached. -/
structure DenseLevels where
  index : Nat
  pathElements : List U256
  pathIndices : List Nat

/-- The proof for a position, read off the layers. -/
def prove (dense : DenseMerkleTree) (position : Nat) : MerkleProof :=
  let localPosition := position % treeLeafCount
  let levels := (List.range treeDepth).foldl
    (fun (levels : DenseLevels) level =>
      let isRight := levels.index % 2 = 1
      let siblingIndex := if isRight then levels.index - 1 else levels.index + 1
      { index := levels.index / 2,
        pathElements := levels.pathElements ++ [dense.nodeAt level siblingIndex],
        pathIndices := levels.pathIndices ++ [if isRight then 1 else 0] })
    { index := localPosition, pathElements := [], pathIndices := [] }
  { root := dense.root,
    leaf := dense.nodeAt 0 localPosition,
    leafIndex := localPosition,
    pathElements := levels.pathElements,
    pathIndices := levels.pathIndices }

end DenseMerkleTree

/-- The number of leaves of a forest up to which input proofs are sparse. -/
def sparseWitnessProofMaxLeaves : Nat := 64

/-- The proofs of a transaction's inputs, with the dense trees built so far. -/
structure InputWitnessProofCache where
  forest : MerkleForest
  denseTrees : BTreeMap Nat DenseMerkleTree

namespace InputWitnessProofCache

/-- Nothing is cached. -/
def new (forest : MerkleForest) : InputWitnessProofCache :=
  { forest := forest, denseTrees := ∅ }

/-- A sparse proof in a small forest, else one from the dense tree, which is built when
    it is first needed. -/
def prove (cache : InputWitnessProofCache) (treeNumber treePosition : Nat) :
    Except BuildError MerkleProof × InputWitnessProofCache :=
  let (normalizedTree, normalizedPosition) := normalizeTreePosition treeNumber treePosition
  if ¬ cache.forest.containsTree normalizedTree then
    (.error (.missingProof treeNumber treePosition), cache)
  else if cache.forest.leafCount ≤ sparseWitnessProofMaxLeaves then
    match cache.forest.prove poseidon normalizedTree normalizedPosition with
    | some proof => (.ok proof, cache)
    | none => (.error (.missingProof treeNumber treePosition), cache)
  else
    match cache.denseTrees[normalizedTree]? with
    | some denseTree => (.ok (denseTree.prove normalizedPosition), cache)
    | none =>
      let denseTree :=
        DenseMerkleTree.fromForestPrefix poseidon cache.forest normalizedTree treeLeafCount
      (.ok (denseTree.prove normalizedPosition),
        { cache with denseTrees := cache.denseTrees.insert normalizedTree denseTree })

end InputWitnessProofCache

end Poseidon

theorem insert_eq_ok {tree : MerkleTree} {position : Nat} (h : position < treeLeafCount)
    (leaf : U256) :
    tree.insert position leaf
      = .ok { leaves := tree.leaves.insert position leaf, root := none } := by
  rw [MerkleTree.insert, validateTreePosition, if_neg (by omega)]
  rfl

/-- A forest with a leaf stored, in a new tree if there was none. -/
def MerkleForest.withLeaf (forest : MerkleForest) (treeNumber treePosition : Nat) (leaf : U256) :
    MerkleForest where
  trees := forest.trees.insert treeNumber
    { leaves := ((forest.trees[treeNumber]?).getD {}).leaves.insert treePosition leaf,
      root := none }

theorem forest_insertLeaf_eq_ok (forest : MerkleForest) {update : MerkleTreeUpdate}
    (h : update.treePosition < treeLeafCount) :
    forest.insertLeaf update
      = .ok (forest.withLeaf update.treeNumber update.treePosition update.hash) := by
  rw [MerkleForest.insertLeaf, validateTreePosition, if_neg (by omega)]
  dsimp only [bind, Except.bind]
  rw [insert_eq_ok h]
  rfl

theorem forest_insertLeaf_eq_error (forest : MerkleForest) {update : MerkleTreeUpdate}
    (h : treeLeafCount ≤ update.treePosition) :
    forest.insertLeaf update
      = .error (.invalidTreePosition update.treePosition treeLeafCount) := by
  rw [MerkleForest.insertLeaf, validateTreePosition, if_pos h]
  rfl

theorem leafAt_withLeaf (forest : MerkleForest) (treeNumber treePosition : Nat) (leaf : U256)
    (number position : Nat) :
    (forest.withLeaf treeNumber treePosition leaf).leafAt number position
      = if treeNumber = number ∧ treePosition = position then some leaf
        else forest.leafAt number position := by
  rw [MerkleForest.leafAt, MerkleForest.withLeaf, getElem?_insert_key]
  by_cases hnumber : treeNumber = number
  · rw [if_pos hnumber, Option.bind_some, getElem?_insert_key, MerkleForest.leafAt, hnumber]
    by_cases hposition : treePosition = position
    · rw [if_pos hposition, if_pos ⟨rfl, hposition⟩]
    · rw [if_neg hposition, if_neg (fun h => hposition h.2)]
      cases forest.trees[number]? with
      | none => exact Std.ExtTreeMap.getElem?_empty
      | some tree => rfl
  · rw [if_neg hnumber, if_neg (fun h => hnumber h.1), MerkleForest.leafAt]

theorem leafAt_computeRoots (poseidon : U256 → U256 → U256) (forest : MerkleForest)
    (treeNumber position : Nat) :
    (forest.computeRoots poseidon).leafAt treeNumber position
      = forest.leafAt treeNumber position := by
  rw [MerkleForest.leafAt, MerkleForest.computeRoots, Std.ExtTreeMap.getElem?_map,
    MerkleForest.leafAt]
  cases forest.trees[treeNumber]? with
  | none => rfl
  | some tree => rfl

end Railgun
