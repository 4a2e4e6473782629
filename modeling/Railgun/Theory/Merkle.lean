import Railgun.Core.Merkle
import Railgun.Lib.Fallible

/-!
# Roots and Proofs of Merkle Trees

Every way of computing a root or a proof is compared with one description: the
complete tree of depth 16 over a leaf function. The leaf function says what is
stored at each position and is empty elsewhere, and a proof against the first
leaves of a tree is the proof of the leaf function that is empty from there on.

Sparse trees are compared node by node. `subtreeRoot` answers an empty range
from the table of empty roots, which is the value of the node there. Dense
trees are compared layer by layer: each constructor produces the complete
layers of its leaf function, whether it hashes every node or only those above
the active leaves, so that everything read from them is a node.

## Main definitions

* `completeRoot`, `completeProof`: Root and proof of a leaf function.
* `InputWitnessProofCache.answers`: The answers to a sequence of requests.

## Theorems

* `subtreeRoot_eq_node`: A sparse subtree root is a node.
* `hashLayers_eq`, `prefixLayers_eq`: Both dense constructions give the
  complete layers.
* `proveWithLeafCount_eq`, `dense_prove_eq`: Both provers give the proof of the
  leaf function.
* `merkleRoots_agree`: All root computations agree.
* `merkleProofs_agree`: All proofs agree, fold to their root and ignore later
  leaves.
-/

namespace Railgun

open DenseMerkleTree

section Poseidon

variable (poseidon : U256 → U256 → U256)

/-- The root of a tree with these leaves. -/
def completeRoot (leaf : Nat → U256) : U256 := node poseidon leaf treeDepth 0

/-- The proof of a position in the complete tree over a leaf function. -/
def completeProof (leaf : Nat → U256) (index : Nat) : MerkleProof where
  root := completeRoot poseidon leaf
  leaf := leaf index
  leafIndex := index
  pathElements := authPath poseidon leaf index treeDepth
  pathIndices := pathBits index treeDepth

/-- The leaf stored at a position, empty where none is. -/
def storedLeaf (leaves : BTreeMap Nat U256) (i : Nat) : U256 := (leaves[i]?).getD merkleZeroValue

/-- The leaf at a position of a list, empty past its end. -/
def listLeaf (leaves : List U256) (i : Nat) : U256 := (leaves[i]?).getD merkleZeroValue

/-- A leaf function cut off after the first `leafCount` leaves. -/
def prefixLeaf (leafCount : Nat) (leaf : Nat → U256) (i : Nat) : U256 :=
  if i < leafCount then leaf i else merkleZeroValue

variable {i leafCount : Nat}

theorem prefixLeaf_of_lt (h : i < leafCount) (leaf : Nat → U256) :
    prefixLeaf leafCount leaf i = leaf i := if_pos h

theorem prefixLeaf_of_le (h : leafCount ≤ i) (leaf : Nat → U256) :
    prefixLeaf leafCount leaf i = merkleZeroValue := if_neg (by omega)

variable {leaf : Nat → U256}

theorem prefixLeaf_congr {leaf' : Nat → U256}
    (h : ∀ i, i < leafCount → leaf i = leaf' i) :
    prefixLeaf leafCount leaf = prefixLeaf leafCount leaf' := by
  funext i
  simp only [prefixLeaf]
  split_ifs with hi
  · exact h i hi
  · rfl

/-- A root depends on the leaves of the tree only. -/
theorem completeRoot_congr {leaf' : Nat → U256}
    (h : ∀ i, i < treeLeafCount → leaf i = leaf' i) :
    completeRoot poseidon leaf = completeRoot poseidon leaf' := by
  refine node_congr poseidon treeDepth 0 ?_
  intro i _ hi
  refine h i ?_
  rw [treeLeafCount]
  omega

theorem completeRoot_prefixLeaf_min (leafCount : Nat) (leaf : Nat → U256) :
    completeRoot poseidon (prefixLeaf (min leafCount treeLeafCount) leaf)
      = completeRoot poseidon (prefixLeaf leafCount leaf) := by
  refine completeRoot_congr poseidon ?_
  intro i hi
  have hiff : i < min leafCount treeLeafCount ↔ i < leafCount := by omega
  simp only [prefixLeaf, hiff]

theorem completeRoot_prefixLeaf_full (leaf : Nat → U256) :
    completeRoot poseidon (prefixLeaf treeLeafCount leaf) = completeRoot poseidon leaf :=
  completeRoot_congr poseidon fun _ hi => prefixLeaf_of_lt hi leaf

theorem storedLeaf_of_rangeEntries_isEmpty {leaves : BTreeMap Nat U256} {low high : Nat}
    (h : (rangeEntries leaves low high).isEmpty = true) (hlow : low ≤ i) (hhigh : i < high) :
    storedLeaf leaves i = merkleZeroValue := by
  rw [List.isEmpty_iff] at h
  rw [storedLeaf]
  cases hget : leaves[i]? with
  | none => rfl
  | some v =>
    have hmem := ((represents_rangeEntries leaves low high).mem_iff i v).mpr
      (by rw [if_pos ⟨hlow, hhigh⟩]; exact hget)
    rw [h] at hmem
    cases hmem

/-- The root of a sparse subtree is a node of the complete tree. -/
theorem subtreeRoot_eq_node (tree : MerkleTree) (hcount : leafCount ≤ treeLeafCount)
    (depth i : Nat) (hbound : (i + 1) * 2 ^ depth ≤ treeLeafCount) :
    tree.subtreeRoot poseidon (i * 2 ^ depth) depth leafCount
      = node poseidon (prefixLeaf leafCount (storedLeaf tree.leaves)) depth i := by
  induction depth generalizing i with
  | zero =>
    rw [MerkleTree.subtreeRoot, pow_zero, Nat.mul_one, node]
    by_cases hstart : leafCount ≤ i
    · rw [if_pos hstart, prefixLeaf_of_le hstart]
      rfl
    · rw [if_neg hstart, prefixLeaf_of_lt (by omega)]
      split_ifs with hempty
      · exact (storedLeaf_of_rangeEntries_isEmpty hempty le_rfl (by omega)).symm
      · rfl
  | succ depth ih =>
    have hwidth : (i + 1) * 2 ^ (depth + 1) = i * 2 ^ (depth + 1) + 2 ^ (depth + 1) := by ring
    have hleft : 2 * i * 2 ^ depth = i * 2 ^ (depth + 1) := by ring
    have hhalf : 2 ^ (depth + 1) / 2 = 2 ^ depth := by
      rw [pow_succ, Nat.mul_div_cancel _ (by omega)]
    have hright : (2 * i + 1) * 2 ^ depth = i * 2 ^ (depth + 1) + 2 ^ depth := by ring
    have hend : (2 * i + 1 + 1) * 2 ^ depth = (i + 1) * 2 ^ (depth + 1) := by ring
    rw [MerkleTree.subtreeRoot]
    -- The two shortcuts are subtrees without leaves: past the prefix, or with none stored.
    by_cases hstart : leafCount ≤ i * 2 ^ (depth + 1)
    · rw [if_pos hstart, zeroHashes, node_eq_zeroNode]
      intro j hlow _
      exact prefixLeaf_of_le (by omega) _
    · rw [if_neg hstart]
      split_ifs with hempty
      · rw [zeroHashes, node_eq_zeroNode]
        intro j hlow hhigh
        by_cases hj : j < leafCount
        · rw [prefixLeaf_of_lt hj]
          exact storedLeaf_of_rangeEntries_isEmpty hempty hlow (by omega)
        · exact prefixLeaf_of_le (by omega) _
      · rw [node, ← hleft, ih (2 * i) (by omega), hleft, hhalf, ← hright,
          ih (2 * i + 1) (by omega)]

/-- Hashing layer by layer gives the complete layers. -/
theorem hashLayers_eq (leaf : Nat → U256) (height d : Nat) :
    hashLayers poseidon (nodeLayer poseidon leaf d (2 ^ height))
      = nodeLayers poseidon leaf d height := by
  induction height generalizing d with
  | zero =>
    rw [hashLayers, length_nodeLayer, dif_neg (by omega)]
    rfl
  | succ height ih =>
    have hpos : 0 < 2 ^ height := Nat.two_pow_pos height
    have hnext : hashLayer poseidon (nodeLayer poseidon leaf d (2 ^ (height + 1)))
        = nodeLayer poseidon leaf (d + 1) (2 ^ height) := by
      rw [hashLayer, length_nodeLayer, hashParentPrefix,
        show 2 ^ (height + 1) / 2 = 2 ^ height by omega]
      refine map_pair_node poseidon leaf d 0 ?_
      intro i hi
      exact getElem?_nodeLayer poseidon leaf d (by omega)
    rw [hashLayers, length_nodeLayer, dif_pos (by omega), hnext, ih (d + 1), nodeLayers]

/-- Hashing only the active parents gives the complete layers as well, when the
    leaves under the others are empty. -/
theorem prefixLayers_eq (height d activeCount : Nat) (hactive : activeCount ≤ 2 ^ height)
    (hempty : ∀ i, activeCount * 2 ^ d ≤ i → leaf i = merkleZeroValue) :
    nodeLayer poseidon leaf d (2 ^ height)
        :: prefixLayers poseidon (nodeLayer poseidon leaf d (2 ^ height)) activeCount d height
      = nodeLayers poseidon leaf d height := by
  induction height generalizing d activeCount with
  | zero => rfl
  | succ height ih =>
    have hparents : hashParentPrefix poseidon (nodeLayer poseidon leaf d (2 ^ (height + 1)))
          ((activeCount + 1) / 2)
        = nodeLayer poseidon leaf (d + 1) ((activeCount + 1) / 2) := by
      refine map_pair_node poseidon leaf d 0 ?_
      intro i hi
      exact getElem?_nodeLayer poseidon leaf d (by omega)
    -- The leaves under a parent past the active ones are past the active leaves.
    have hpast : ∀ i, (activeCount + 1) / 2 * 2 ^ (d + 1) ≤ i → leaf i = merkleZeroValue := by
      intro i hi
      refine hempty i (le_trans ?_ hi)
      calc activeCount * 2 ^ d ≤ 2 * ((activeCount + 1) / 2) * 2 ^ d :=
            Nat.mul_le_mul_right _ (by omega)
        _ = (activeCount + 1) / 2 * 2 ^ (d + 1) := by ring
    have hnext : nodeLayer poseidon leaf (d + 1) ((activeCount + 1) / 2)
          ++ List.replicate (2 ^ height - (activeCount + 1) / 2) (zeroHashes poseidon (d + 1))
        = nodeLayer poseidon leaf (d + 1) (2 ^ height) := by
      refine eq_nodeLayer poseidon ?_ ?_
      · rw [List.length_append, length_nodeLayer, List.length_replicate]
        omega
      · intro i hi
        by_cases hlow : i < (activeCount + 1) / 2
        · rw [List.getElem?_append_left (by rw [length_nodeLayer]; exact hlow),
            getElem?_nodeLayer poseidon leaf (d + 1) hlow]
        · rw [List.getElem?_append_right (by rw [length_nodeLayer]; omega), length_nodeLayer,
            List.getElem?_replicate_of_lt (by omega), zeroHashes, node_eq_zeroNode]
          intro j hj _
          exact hpast j (le_trans (Nat.mul_le_mul_right _ (by omega)) hj)
    rw [prefixLayers, hparents, length_nodeLayer,
      show 2 ^ (height + 1) / 2 = 2 ^ height by omega, hnext, ih (d + 1) _ (by omega) hpast,
      nodeLayers]

/-- All layers of it. -/
def completeTree (leaf : Nat → U256) : DenseMerkleTree :=
  { layers := nodeLayers poseidon leaf 0 treeDepth }

theorem length_resizeLayer (layer : List U256) :
    (resizeLayer layer).length = treeLeafCount := by
  rw [resizeLayer, List.length_append, List.length_take, List.length_replicate]
  omega

theorem getElem?_resizeLayer (layer : List U256) (hi : i < treeLeafCount) :
    (resizeLayer layer)[i]? = some (listLeaf layer i) := by
  rw [resizeLayer, listLeaf]
  by_cases hlow : i < layer.length
  · rw [List.getElem?_append_left (by rw [List.length_take]; omega), List.getElem?_take_of_lt hi,
      List.getElem?_eq_getElem hlow, Option.getD_some]
  · rw [List.getElem?_append_right (by rw [List.length_take]; omega), List.length_take,
      List.getElem?_replicate_of_lt (by omega), List.getElem?_eq_none (by omega), Option.getD_none]

theorem resizeLayer_eq {layer : List U256}
    (h : ∀ i, i < treeLeafCount → listLeaf layer i = leaf i) :
    resizeLayer layer = nodeLayer poseidon leaf 0 (2 ^ treeDepth) := by
  refine eq_nodeLayer poseidon (length_resizeLayer layer) ?_
  intro i hi
  rw [getElem?_resizeLayer layer hi, h i hi, node]

theorem fromFullLeafLayer_eq (layer : List U256) :
    fromFullLeafLayer poseidon layer = completeTree poseidon (listLeaf layer) := by
  rw [fromFullLeafLayer, resizeLayer_eq poseidon fun _ _ => rfl, hashLayers_eq, completeTree]

theorem fromPrefixLeafLayer_eq {layer : List U256} {activeLeafCount : Nat}
    (hle : activeLeafCount ≤ treeLeafCount)
    (h : ∀ i, i < treeLeafCount → listLeaf layer i = prefixLeaf activeLeafCount leaf i) :
    fromPrefixLeafLayer poseidon layer activeLeafCount
      = completeTree poseidon (prefixLeaf activeLeafCount leaf) := by
  rw [fromPrefixLeafLayer, resizeLayer_eq poseidon h,
    Nat.min_eq_left hle, prefixLayers_eq poseidon treeDepth 0 _ hle, completeTree]
  intro i hi
  exact prefixLeaf_of_le (by omega) leaf

theorem listLeaf_writeEntries {entries : List (Nat × U256)} {f : Nat → Option U256}
    (h : Represents entries f) (hi : i < treeLeafCount) :
    listLeaf (writeEntries (List.replicate treeLeafCount merkleZeroValue) entries) i
      = (f i).getD merkleZeroValue := by
  rw [listLeaf, getElem?_writeEntries h _ _ hi, Option.getD_some]

theorem fromOrderedLeaves_eq (leaves : List U256) (leafCount : Nat) :
    fromOrderedLeaves poseidon leaves leafCount
      = completeTree poseidon (prefixLeaf (min leafCount treeLeafCount) (listLeaf leaves)) := by
  refine fromPrefixLeafLayer_eq poseidon (Nat.min_le_right _ _) ?_
  intro i hi
  rw [listLeaf_writeEntries (represents_enumerate _) hi, List.getElem?_take, prefixLeaf, listLeaf]
  split <;> rfl

/-- The leaves of a tree of the forest. -/
def forestLeaf (forest : MerkleForest) (treeNumber i : Nat) : U256 :=
  (forest.leafAt treeNumber i).getD merkleZeroValue

variable {tree : MerkleTree}

theorem forestLeaf_of_tree {forest : MerkleForest} {treeNumber : Nat}
    (h : forest.trees[treeNumber]? = some tree) :
    forestLeaf forest treeNumber = storedLeaf tree.leaves := by
  funext i
  rw [forestLeaf, MerkleForest.leafAt, h, Option.bind_some, storedLeaf]

/-- A dense tree from a forest holds the first leaves of the tree. -/
theorem fromForestPrefix_eq (forest : MerkleForest) (treeNumber leafCount : Nat) :
    fromForestPrefix poseidon forest treeNumber leafCount
      = completeTree poseidon
        (prefixLeaf (min leafCount treeLeafCount) (forestLeaf forest treeNumber)) := by
  refine fromPrefixLeafLayer_eq poseidon (Nat.min_le_right _ _) ?_
  intro i hi
  cases htree : forest.trees[treeNumber]? with
  | none =>
    rw [listLeaf, List.getElem?_replicate_of_lt hi, prefixLeaf, forestLeaf, MerkleForest.leafAt,
      htree]
    simp
  | some tree =>
    rw [listLeaf_writeEntries (represents_rangeEntries _ _ _) hi, forestLeaf_of_tree htree,
      prefixLeaf, storedLeaf]
    simp only [Nat.zero_le, true_and]
    split_ifs <;> rfl

theorem root_completeTree (leaf : Nat → U256) :
    (completeTree poseidon leaf).root = completeRoot poseidon leaf := by
  rw [root, completeTree, getLast?_nodeLayers, Nat.zero_add]
  rfl

variable {level : Nat}

theorem nodeAt_completeTree (leaf : Nat → U256) (hlevel : level ≤ treeDepth)
    (hi : i < 2 ^ (treeDepth - level)) :
    (completeTree poseidon leaf).nodeAt level i = node poseidon leaf level i := by
  rw [nodeAt, completeTree, List.getD_eq_getElem?_getD,
    List.getD_eq_getElem?_getD, getElem?_nodeLayers poseidon leaf treeDepth 0 level hlevel,
    Option.getD_some, Nat.zero_add, getElem?_nodeLayer poseidon leaf level hi, Option.getD_some]

/-- Either way of computing a root gives that of the stored leaves. -/
theorem computedRoot_eq (hroot : tree.root = none) :
    tree.computedRoot poseidon = completeRoot poseidon (storedLeaf tree.leaves) := by
  rw [MerkleTree.computedRoot, hroot]
  dsimp only
  split
  · rw [← completeRoot_prefixLeaf_full, completeRoot,
      ← subtreeRoot_eq_node poseidon tree le_rfl treeDepth 0 (by rw [treeLeafCount]; omega),
      Nat.zero_mul]
  · have hlayer : writeEntries (List.replicate treeLeafCount (zeroHashes poseidon 0))
          tree.leaves.toList
        = nodeLayer poseidon (storedLeaf tree.leaves) 0 (2 ^ treeDepth) := by
      refine eq_nodeLayer poseidon ?_ ?_
      · rw [length_writeEntries, List.length_replicate, treeLeafCount]
      · intro i hi
        have hposition : i < treeLeafCount := hi
        rw [getElem?_writeEntries (represents_toList tree.leaves) _ _ hposition, node, storedLeaf]
        rfl
    rw [hlayer, hashLayers_eq, getLast?_nodeLayers, Nat.zero_add]
    rfl

theorem storedLeaf_insert (leaves : BTreeMap Nat U256) (position : Nat) (value : U256) (i : Nat) :
    storedLeaf (leaves.insert position value) i
      = if position = i then value else storedLeaf leaves i := by
  rw [storedLeaf, getElem?_insert_key]
  split_ifs <;> rfl

/-- Inserting leaves one after another, from a position on that is free with
    all later ones, stores each of them, up to the empty ones, and leaves the
    positions before alone. -/
theorem insertFrom_stores {leaves : List U256} {start : Nat}
    (hbound : start + leaves.length ≤ treeLeafCount) {tree : MerkleTree} (hroot : tree.root = none)
    (hfree : ∀ i, start ≤ i → storedLeaf tree.leaves i = merkleZeroValue) (count : Nat) :
    ∃ tree' count',
      ((leaves.zipIdx start).map Prod.swap).foldlM (fun (state : MerkleTree × Nat) entry =>
          if entry.2 = merkleZeroValue then .ok state
          else do
            let tree ← state.1.insert entry.1 entry.2
            return (tree, state.2 + 1)) (tree, count)
        = (.ok (tree', count') : Except SyncError (MerkleTree × Nat)) ∧
      tree'.root = none ∧
      ∀ i, storedLeaf tree'.leaves i
        = if i < start then storedLeaf tree.leaves i else listLeaf leaves (i - start) := by
  induction leaves generalizing start tree count with
  | nil =>
    refine ⟨tree, count, rfl, hroot, fun i => ?_⟩
    split_ifs with hi
    · rfl
    · exact hfree i (by omega)
  | cons leaf leaves ih =>
    rw [List.length_cons] at hbound
    -- After the first leaf its position holds it and the rest is as before.
    obtain ⟨tree₁, count₁, hstep, hroot₁, hleaf⟩ : ∃ tree₁ count₁,
        (if leaf = merkleZeroValue then .ok (tree, count)
          else do
            let tree ← tree.insert start leaf
            return (tree, count + 1))
          = (.ok (tree₁, count₁) : Except SyncError (MerkleTree × Nat)) ∧
        tree₁.root = none ∧
        ∀ i, storedLeaf tree₁.leaves i = if start = i then leaf else storedLeaf tree.leaves i := by
      by_cases hzero : leaf = merkleZeroValue
      · refine ⟨tree, count, if_pos hzero, hroot, fun i => ?_⟩
        split_ifs with hi
        · rw [hfree i (by omega), hzero]
        · rfl
      · rw [if_neg hzero, insert_eq_ok (by omega)]
        exact ⟨_, _, rfl, rfl, storedLeaf_insert _ _ _⟩
    obtain ⟨tree', count', hloop, hroot', hstored⟩ := ih
      (show start + 1 + leaves.length ≤ treeLeafCount by omega) hroot₁
      (fun i hi => by rw [hleaf, if_neg (by omega), hfree i (by omega)]) count₁
    refine ⟨tree', count', ?_, hroot', fun i => ?_⟩
    · rw [List.zipIdx_cons, List.map_cons, List.foldlM_cons]
      exact (congrArg (· >>= _) hstep).trans hloop
    · rw [hstored, hleaf]
      rcases Nat.lt_trichotomy i start with hi | rfl | hi
      · rw [if_pos (by omega), if_neg (by omega), if_pos hi]
      · rw [if_pos (by omega), if_pos rfl, if_neg (by omega), Nat.sub_self]
        rfl
      · rw [if_neg (by omega), if_neg (by omega), show i - start = i - (start + 1) + 1 by omega]
        rfl

theorem insertOrderedLeaves_stores {leaves : List U256} (h : leaves.length ≤ treeLeafCount) :
    ∃ tree count, MerkleForest.insertOrderedLeaves {} leaves = .ok (tree, count) ∧
      tree.root = none ∧ storedLeaf tree.leaves = listLeaf leaves := by
  have hempty : ∀ i, storedLeaf ({} : MerkleTree).leaves i = merkleZeroValue := by
    intro i
    rw [storedLeaf, Std.ExtTreeMap.getElem?_empty, Option.getD_none]
  obtain ⟨tree, count, hloop, hroot, hstored⟩ :=
    insertFrom_stores ((Nat.zero_add leaves.length).trans_le h) rfl (fun i _ => hempty i) 0
  exact ⟨tree, count, hloop, hroot, funext hstored⟩

theorem listLeaf_take (leaves : List U256) (leafCount : Nat) :
    listLeaf (leaves.take leafCount) = prefixLeaf leafCount (listLeaf leaves) := by
  funext i
  rw [listLeaf, List.getElem?_take, prefixLeaf, listLeaf]
  split <;> rfl

theorem replaceTreeOrderedLeaves_stores (forest : MerkleForest) (treeNumber : Nat)
    (h : leafCount ≤ treeLeafCount) (leaves : List U256) :
    ∃ tree count,
      forest.replaceTreeOrderedLeaves treeNumber leafCount leaves
        = .ok ({ trees := forest.trees.insert treeNumber tree }, count) ∧
      tree.root = none ∧
      storedLeaf tree.leaves = prefixLeaf leafCount (listLeaf leaves) := by
  have hlength : (leaves.take leafCount).length ≤ treeLeafCount :=
    le_trans (List.length_take_le _ _) h
  obtain ⟨tree, count, hinsert, hroot, hleaf⟩ := insertOrderedLeaves_stores hlength
  refine ⟨tree, count, ?_, hroot, ?_⟩
  · rw [MerkleForest.replaceTreeOrderedLeaves, if_neg (by omega), hinsert]
    rfl
  · rw [hleaf, listLeaf_take]

/-- All root computations agree: each is the root of the complete tree over
    what is stored, empty elsewhere and from the given leaf count on. -/
theorem merkleRoots_agree (leaves : BTreeMap Nat U256) (layer : List U256)
    (forest : MerkleForest) (treeNumber leafCount : Nat) :
    MerkleTree.computedRoot poseidon { leaves := leaves, root := none }
        = completeRoot poseidon (storedLeaf leaves) ∧
      (fromFullLeafLayer poseidon layer).root
        = completeRoot poseidon (listLeaf layer) ∧
      (fromOrderedLeaves poseidon layer leafCount).root
        = completeRoot poseidon (prefixLeaf leafCount (listLeaf layer)) ∧
      (fromForestPrefix poseidon forest treeNumber leafCount).root
        = completeRoot poseidon (prefixLeaf leafCount (forestLeaf forest treeNumber)) ∧
      (leafCount ≤ treeLeafCount → ∃ forest' count,
        forest.replaceTreeOrderedLeaves treeNumber leafCount layer = .ok (forest', count) ∧
        (forest'.trees[treeNumber]?).map (MerkleTree.computedRoot poseidon)
          = some (completeRoot poseidon (prefixLeaf leafCount (listLeaf layer)))) := by
  refine ⟨computedRoot_eq poseidon rfl, ?_, ?_, ?_, ?_⟩
  · rw [fromFullLeafLayer_eq, root_completeTree]
  · rw [fromOrderedLeaves_eq, root_completeTree, completeRoot_prefixLeaf_min]
  · rw [fromForestPrefix_eq, root_completeTree, completeRoot_prefixLeaf_min]
  · intro hle
    obtain ⟨tree, count, hreplace, hroot, hleaf⟩ :=
      replaceTreeOrderedLeaves_stores forest treeNumber hle layer
    refine ⟨_, count, hreplace, ?_⟩
    rw [Std.ExtTreeMap.getElem?_insert_self, Option.map_some, computedRoot_eq poseidon hroot, hleaf]

/-- Two of three leaves, the second of them empty. -/
theorem merkleRoots_agree_two_leaves :
    2 ≤ treeLeafCount ∧ ∃ forest' count,
      MerkleForest.replaceTreeOrderedLeaves {} 0 2 [7, merkleZeroValue, 9]
        = .ok (forest', count) ∧
      (forest'.trees[0]?).map (MerkleTree.computedRoot fun a b => a + 2 * b)
        = some (completeRoot (fun a b => a + 2 * b)
          (prefixLeaf 2 (listLeaf [7, merkleZeroValue, 9]))) :=
  ⟨by decide, (merkleRoots_agree (fun a b => a + 2 * b) ∅ _ {} 0 2).2.2.2.2 (by decide)⟩

theorem sibling_lt {position : Nat} (hposition : position < treeLeafCount)
    (hlevel : level < treeDepth) : sibling (position / 2 ^ level) < 2 ^ (treeDepth - level) := by
  have hpow : 2 ^ (treeDepth - level) = 2 * 2 ^ (treeDepth - level - 1) := by
    rw [← pow_succ', show treeDepth - level - 1 + 1 = treeDepth - level by omega]
  have hindex : position / 2 ^ level < 2 ^ (treeDepth - level) := by
    rw [Nat.div_lt_iff_lt_mul (Nat.two_pow_pos level), ← pow_add,
      show treeDepth - level + level = treeDepth by omega]
    exact hposition
  generalize position / 2 ^ level = index at hindex ⊢
  rw [sibling]
  split <;> omega

/-- The sibling on a path is a node of the complete tree. -/
theorem subtreeRoot_sibling (tree : MerkleTree) {position : Nat}
    (hposition : position < treeLeafCount) (hlevel : level < treeDepth)
    (hcount : leafCount ≤ treeLeafCount) :
    tree.subtreeRoot poseidon (((position >>> level) ^^^ 1) <<< level) level leafCount
      = node poseidon (prefixLeaf leafCount (storedLeaf tree.leaves)) level
        (sibling (position / 2 ^ level)) := by
  rw [Nat.shiftLeft_eq, Nat.shiftRight_eq_div_pow, xor_one_eq_sibling,
    subtreeRoot_eq_node poseidon tree hcount]
  calc (sibling (position / 2 ^ level) + 1) * 2 ^ level
      ≤ 2 ^ (treeDepth - level) * 2 ^ level :=
        Nat.mul_le_mul_right _ (sibling_lt hposition hlevel)
    _ = treeLeafCount := by
        rw [← pow_add, show treeDepth - level + level = treeDepth by omega, treeLeafCount]

theorem mod_treeLeafCount_lt (position : Nat) : position % treeLeafCount < treeLeafCount :=
  Nat.mod_lt _ (by rw [treeLeafCount]; exact Nat.two_pow_pos _)

theorem bit_eq_mod (n : Nat) : (if n % 2 = 1 then 1 else 0) = n % 2 := by
  split <;> omega

theorem pathBits_succ (index depth : Nat) :
    pathBits index (depth + 1) = pathBits index depth ++ [index / 2 ^ depth % 2] := by
  rw [pathBits, List.range_succ, List.map_append]
  rfl

theorem authPath_succ (leaf : Nat → U256) (index depth : Nat) :
    authPath poseidon leaf index (depth + 1)
      = authPath poseidon leaf index depth
        ++ [node poseidon leaf depth (sibling (index / 2 ^ depth))] := by
  rw [authPath, List.range_succ, List.map_append]
  rfl

/-- A sparse proof is that of the leaves before the leaf count. -/
theorem proveWithLeafCount_eq (tree : MerkleTree) (position leafCount : Nat) :
    tree.proveWithLeafCount poseidon position leafCount
      = completeProof poseidon
        (prefixLeaf (min leafCount treeLeafCount) (storedLeaf tree.leaves))
        (position % treeLeafCount) := by
  have hlocal := mod_treeLeafCount_lt position
  generalize hleaf : prefixLeaf (min leafCount treeLeafCount) (storedLeaf tree.leaves) = leaf
  rw [MerkleTree.proveWithLeafCount]
  generalize position % treeLeafCount = index at hlocal ⊢
  have hstart : (if index < min leafCount treeLeafCount then
      (tree.leaves[index]?).getD (zeroHashes poseidon 0) else zeroHashes poseidon 0)
      = leaf index := by
    rw [← hleaf]
    rfl
  -- Below each level the loop holds the path so far and the node it leads to.
  have htop : index / 2 ^ treeDepth = 0 := Nat.div_eq_of_lt hlocal
  rw [hstart, foldl_range_induct (fun depth levels => levels =
      ({ root := node poseidon leaf depth (index / 2 ^ depth),
         pathElements := authPath poseidon leaf index depth,
         pathIndices := pathBits index depth } : MerkleTree.ProofLevels)) _,
    completeProof, completeRoot, htop]
  · rw [pow_zero, Nat.div_one]
    rfl
  · rintro depth hdepth _ rfl
    dsimp only
    rw [subtreeRoot_sibling poseidon tree hlocal hdepth (Nat.min_le_right _ _), hleaf,
      Nat.shiftRight_eq_div_pow, Nat.and_one_is_mod, hash_sibling, bit_eq_mod, pathBits_succ,
      authPath_succ, Nat.div_div_eq_div_mul, ← pow_succ]

/-- A dense proof is that of the leaves of the tree. -/
theorem dense_prove_eq (leaf : Nat → U256) (position : Nat) :
    (completeTree poseidon leaf).prove position
      = completeProof poseidon leaf (position % treeLeafCount) := by
  have hlocal := mod_treeLeafCount_lt position
  rw [prove]
  generalize position % treeLeafCount = index at hlocal ⊢
  rw [foldl_range_induct (fun depth levels => levels =
      ({ index := index / 2 ^ depth,
         pathElements := authPath poseidon leaf index depth,
         pathIndices := pathBits index depth } : DenseMerkleTree.DenseLevels)) _,
    completeProof, root_completeTree, nodeAt_completeTree poseidon leaf (Nat.zero_le _) hlocal,
    node]
  · rw [pow_zero, Nat.div_one]
    rfl
  · rintro depth hdepth _ rfl
    dsimp only
    rw [← sibling, nodeAt_completeTree poseidon leaf hdepth.le (sibling_lt hlocal hdepth),
      bit_eq_mod, pathBits_succ, authPath_succ, Nat.div_div_eq_div_mul, ← pow_succ]

theorem fromForestPrefix_prove {forest : MerkleForest} {treeNumber : Nat}
    (h : forest.trees[treeNumber]? = some tree) (position leafCount : Nat) :
    (fromForestPrefix poseidon forest treeNumber leafCount).prove position
      = tree.proveWithLeafCount poseidon position leafCount := by
  rw [fromForestPrefix_eq, dense_prove_eq, forestLeaf_of_tree h, proveWithLeafCount_eq]

/-- A proof leads from its leaf to its root. -/
theorem foldPath_completeProof (leaf : Nat → U256) {index : Nat} (h : index < treeLeafCount) :
    foldPath poseidon (completeProof poseidon leaf index).leaf
      (completeProof poseidon leaf index).pathIndices
      (completeProof poseidon leaf index).pathElements
      = (completeProof poseidon leaf index).root := by
  have htop : index / 2 ^ treeDepth = 0 := Nat.div_eq_of_lt h
  have hfold := foldPath_authPath poseidon leaf index treeDepth
  rw [htop] at hfold
  exact hfold

/-- What a cache should answer. -/
def forestAnswer (forest : MerkleForest) (treeNumber treePosition : Nat) :
    Except BuildError MerkleProof :=
  match forest.prove poseidon treeNumber treePosition with
  | some proof => .ok proof
  | none => .error (.missingProof treeNumber treePosition)

/-- What it answers to requests in turn. -/
def InputWitnessProofCache.answers (cache : InputWitnessProofCache) :
    List (Nat × Nat) → List (Except BuildError MerkleProof)
  | [] => []
  | request :: requests =>
    (cache.prove poseidon request.1 request.2).1
      :: InputWitnessProofCache.answers (cache.prove poseidon request.1 request.2).2 requests

/-- Every dense tree of a cache is the tree of the forest with its number. -/
def DenseTreesCurrent (cache : InputWitnessProofCache) : Prop :=
  ∀ treeNumber denseTree, cache.denseTrees[treeNumber]? = some denseTree →
    denseTree = fromForestPrefix poseidon cache.forest treeNumber treeLeafCount

theorem new_denseTreesCurrent (forest : MerkleForest) :
    DenseTreesCurrent poseidon (InputWitnessProofCache.new forest) := by
  intro treeNumber denseTree h
  cases h

variable {cache : InputWitnessProofCache}

theorem denseTreesCurrent_insert
    (h : DenseTreesCurrent poseidon cache) (treeNumber : Nat) :
    DenseTreesCurrent poseidon { cache with
      denseTrees := cache.denseTrees.insert treeNumber
        (fromForestPrefix poseidon cache.forest treeNumber treeLeafCount) } := by
  intro number denseTree hget
  rw [getElem?_insert_key] at hget
  split_ifs at hget with heq
  · rw [← Option.some.inj hget, heq]
  · exact h number denseTree hget

theorem normalizeTreePosition_idem (treeNumber treePosition : Nat) :
    normalizeTreePosition (normalizeTreePosition treeNumber treePosition).1
      (normalizeTreePosition treeNumber treePosition).2
      = normalizeTreePosition treeNumber treePosition := by
  rw [normalizeTreePosition, normalizeTreePosition]
  rw [Nat.mod_mod, Nat.div_eq_of_lt (mod_treeLeafCount_lt _), Nat.zero_mod, Nat.add_zero,
    Nat.mod_mod]

/-- A cache answers one request as its forest does, and stays current. -/
theorem cache_prove_spec (h : DenseTreesCurrent poseidon cache)
    (treeNumber treePosition : Nat) :
    (cache.prove poseidon treeNumber treePosition).1
        = forestAnswer poseidon cache.forest treeNumber treePosition ∧
      (cache.prove poseidon treeNumber treePosition).2.forest = cache.forest ∧
      DenseTreesCurrent poseidon (cache.prove poseidon treeNumber treePosition).2 := by
  have hidem := normalizeTreePosition_idem treeNumber treePosition
  rw [forestAnswer, MerkleForest.prove, InputWitnessProofCache.prove]
  generalize normalizeTreePosition treeNumber treePosition = normalized at hidem ⊢
  obtain ⟨normalizedTree, normalizedPosition⟩ := normalized
  dsimp only at hidem ⊢
  rw [MerkleForest.prove, hidem, MerkleForest.containsTree,
    Std.ExtTreeMap.contains_eq_isSome_getElem?]
  dsimp only
  cases htree : cache.forest.trees[normalizedTree]? with
  | none => exact ⟨rfl, rfl, h⟩
  | some tree =>
    rw [Option.isSome_some, if_neg (not_not_intro rfl)]
    have hfresh := fromForestPrefix_prove poseidon htree normalizedPosition treeLeafCount
    split_ifs
    · exact ⟨rfl, rfl, h⟩
    · cases hdense : cache.denseTrees[normalizedTree]? with
      | some denseTree =>
        dsimp only
        rw [h normalizedTree denseTree hdense, hfresh]
        exact ⟨rfl, rfl, h⟩
      | none =>
        dsimp only
        rw [hfresh]
        exact ⟨rfl, rfl, denseTreesCurrent_insert poseidon h normalizedTree⟩

/-- By induction, it answers all requests so. -/
theorem answers_eq (h : DenseTreesCurrent poseidon cache)
    (requests : List (Nat × Nat)) :
    cache.answers poseidon requests
      = requests.map fun request => forestAnswer poseidon cache.forest request.1 request.2 := by
  induction requests generalizing cache with
  | nil => rfl
  | cons request requests ih =>
    obtain ⟨hanswer, hforest, hcurrent⟩ := cache_prove_spec poseidon h request.1 request.2
    rw [InputWitnessProofCache.answers, List.map_cons, hanswer, ih hcurrent, hforest]

/-- All provers give the same proof. Its indices are the bits of the position,
    its path leads from its leaf to its root, the root is that of the leaves
    before the leaf count, and later leaves do not change the proof. A cache
    answers any requests as its forest does. -/
theorem merkleProofs_agree (forest : MerkleForest) (treeNumber : Nat) (tree : MerkleTree)
    (htree : forest.trees[treeNumber]? = some tree) (position leafCount : Nat)
    (hposition : position < treeLeafCount) :
    (fromForestPrefix poseidon forest treeNumber leafCount).prove position
        = tree.proveWithLeafCount poseidon position leafCount ∧
      (tree.proveWithLeafCount poseidon position leafCount).leafIndex = position ∧
      (tree.proveWithLeafCount poseidon position leafCount).pathIndices
        = pathBits position treeDepth ∧
      foldPath poseidon (tree.proveWithLeafCount poseidon position leafCount).leaf
          (tree.proveWithLeafCount poseidon position leafCount).pathIndices
          (tree.proveWithLeafCount poseidon position leafCount).pathElements
        = (tree.proveWithLeafCount poseidon position leafCount).root ∧
      (tree.proveWithLeafCount poseidon position leafCount).leaf
        = prefixLeaf leafCount (storedLeaf tree.leaves) position ∧
      (tree.proveWithLeafCount poseidon position leafCount).root
        = completeRoot poseidon (prefixLeaf leafCount (storedLeaf tree.leaves)) ∧
      (∀ later : MerkleTree, (∀ i, i < leafCount → later.leaves[i]? = tree.leaves[i]?) →
        later.proveWithLeafCount poseidon position leafCount
          = tree.proveWithLeafCount poseidon position leafCount) ∧
      ∀ requests : List (Nat × Nat),
        (InputWitnessProofCache.new forest).answers poseidon requests
          = requests.map fun request => forestAnswer poseidon forest request.1 request.2 := by
  have hproof := proveWithLeafCount_eq poseidon tree position leafCount
  rw [Nat.mod_eq_of_lt hposition] at hproof
  refine ⟨fromForestPrefix_prove poseidon htree position leafCount, ?_, ?_, ?_, ?_, ?_, ?_, ?_⟩
  · rw [hproof]
    rfl
  · rw [hproof]
    rfl
  · rw [hproof]
    exact foldPath_completeProof poseidon _ hposition
  · rw [hproof, completeProof]
    have hiff : position < min leafCount treeLeafCount ↔ position < leafCount := by omega
    simp only [prefixLeaf, hiff]
  · rw [hproof, completeProof]
    exact completeRoot_prefixLeaf_min poseidon leafCount _
  · intro later hsame
    have hleaves : prefixLeaf (min leafCount treeLeafCount) (storedLeaf later.leaves)
        = prefixLeaf (min leafCount treeLeafCount) (storedLeaf tree.leaves) := by
      refine prefixLeaf_congr ?_
      intro i hi
      rw [storedLeaf, storedLeaf, hsame i (by omega)]
    rw [proveWithLeafCount_eq, proveWithLeafCount_eq, hleaves]
  · exact answers_eq poseidon (new_denseTreesCurrent poseidon forest)

end Poseidon

/-- A tree with two leaves. -/
def twoLeafTree : MerkleTree :=
  { leaves := ((∅ : BTreeMap Nat U256).insert 0 7).insert 1 8 }

/-- A forest with one tree. -/
def twoLeafForest : MerkleForest :=
  { trees := (∅ : BTreeMap Nat MerkleTree).insert 0 twoLeafTree }

theorem getElem?_twoLeafForest : twoLeafForest.trees[0]? = some twoLeafTree :=
  Std.ExtTreeMap.getElem?_insert_self

/-- The second leaf of a tree with two, against the first leaf only. -/
theorem merkleProofs_agree_twoLeafForest :
    (fromForestPrefix (fun a b => a + 2 * b) twoLeafForest 0 1).prove 1
        = twoLeafTree.proveWithLeafCount (fun a b => a + 2 * b) 1 1 ∧
      (twoLeafTree.proveWithLeafCount (fun a b => a + 2 * b) 1 1).leaf = merkleZeroValue := by
  obtain ⟨hdense, -, -, -, hleaf, -⟩ := merkleProofs_agree (fun a b => a + 2 * b) twoLeafForest 0
    twoLeafTree getElem?_twoLeafForest 1 1 (by decide)
  exact ⟨hdense, hleaf⟩

end Railgun
