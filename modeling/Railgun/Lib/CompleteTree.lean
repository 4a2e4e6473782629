import Mathlib.Data.Nat.Bits
import Mathlib.Tactic.Ring

/-!
# Complete Binary Hash Trees

The complete binary tree over a leaf function, for an arbitrary hash of two
values. A node is named by its depth below the root of its own subtree and its
index among the nodes of that depth, so that node `i` of depth `d` covers the
leaves from `i * 2 ^ d` on, `2 ^ d` of them.

A node depends on the leaves it covers and on nothing else, and a node over
equal leaves is known in advance. The siblings along the way up from a leaf,
folded with the leaf, give the node they lead to.

## Main definitions

* `node`: The value of a node.
* `zeroNode`: The value of a node whose leaves are all the same.
* `sibling`: The other child of a node's parent.
* `pathBits`, `authPath`: The directions and the siblings on the way up.

## Theorems

* `node_congr`: A node depends on its own leaves only.
* `node_eq_zeroNode`: A node over empty leaves.
* `foldl_range_induct`: The rule for a loop over the levels.
* `foldPath_authPath`: The siblings of a leaf lead to the node above it.
* `map_pair_node`: Hashing a layer pairwise gives the next layer.
* `set_nodeLayer`: Replacing a leaf changes one node of a layer.
-/

namespace Railgun

section CompleteTree

variable {H : Type} (hash : H → H → H)

/-- The value of node `i` at depth `d` over a leaf function. -/
def node (leaf : Nat → H) : Nat → Nat → H
  | 0, i => leaf i
  | d + 1, i => hash (node leaf d (2 * i)) (node leaf d (2 * i + 1))

/-- A node above zeros only. -/
def zeroNode (zero : H) : Nat → H
  | 0 => zero
  | d + 1 => hash (zeroNode zero d) (zeroNode zero d)

theorem node_congr {leaf leaf' : Nat → H} (d i : Nat)
    (h : ∀ j, i * 2 ^ d ≤ j → j < (i + 1) * 2 ^ d → leaf j = leaf' j) :
    node hash leaf d i = node hash leaf' d i := by
  induction d generalizing i with
  | zero => exact h i (by omega) (by omega)
  | succ d ih =>
    have hleft : 2 * i * 2 ^ d = i * 2 ^ (d + 1) := by ring
    have hmid : (2 * i + 1) * 2 ^ d = i * 2 ^ (d + 1) + 2 ^ d := by ring
    have hright : (2 * i + 1 + 1) * 2 ^ d = (i + 1) * 2 ^ (d + 1) := by ring
    have hwidth : (i + 1) * 2 ^ (d + 1) = i * 2 ^ (d + 1) + 2 ^ d + 2 ^ d := by ring
    rw [node, node, ih (2 * i), ih (2 * i + 1)]
    · intro j hlow hhigh
      exact h j (by omega) (by omega)
    · intro j hlow hhigh
      exact h j (by omega) (by omega)

theorem node_const (zero : H) (d i : Nat) :
    node hash (fun _ => zero) d i = zeroNode hash zero d := by
  induction d generalizing i with
  | zero => rfl
  | succ d ih => rw [node, zeroNode, ih, ih]

theorem node_eq_zeroNode {leaf : Nat → H} {zero : H} {d i : Nat}
    (h : ∀ j, i * 2 ^ d ≤ j → j < (i + 1) * 2 ^ d → leaf j = zero) :
    node hash leaf d i = zeroNode hash zero d := by
  rw [node_congr hash d i h]
  exact node_const hash zero d i

/-- The other child of the same parent. -/
def sibling (i : Nat) : Nat := if i % 2 = 1 then i - 1 else i + 1

theorem xor_one_eq_sibling (i : Nat) : i ^^^ 1 = sibling i := by
  have hdiv : (i ^^^ 1) / 2 = i / 2 := by
    rw [Nat.xor_div_two]
    exact Nat.xor_zero _
  have hmod : (i ^^^ 1) % 2 = 1 ↔ ¬ i % 2 = 1 := by
    rw [Nat.xor_mod_two_eq_one]
    simp only [Nat.one_mod, iff_true]
  rw [sibling]
  split_ifs <;> omega

theorem hash_sibling (leaf : Nat → H) (d i : Nat) :
    (if i % 2 = 1 then hash (node hash leaf d (sibling i)) (node hash leaf d i)
      else hash (node hash leaf d i) (node hash leaf d (sibling i)))
      = node hash leaf (d + 1) (i / 2) := by
  rw [node, sibling]
  by_cases hodd : i % 2 = 1
  · rw [if_pos hodd, if_pos hodd, show 2 * (i / 2) = i - 1 by omega,
      show i - 1 + 1 = i by omega]
  · rw [if_neg hodd, if_neg hodd, show 2 * (i / 2) = i by omega]

/-- The directions on the way up from a leaf: one where it is a right child. -/
def pathBits (index depth : Nat) : List Nat :=
  (List.range depth).map fun level => index / 2 ^ level % 2

/-- The siblings on the way to the root. -/
def authPath (leaf : Nat → H) (index depth : Nat) : List H :=
  (List.range depth).map fun level => node hash leaf level (sibling (index / 2 ^ level))

/-- Hash a leaf with its siblings, on the sides the directions say. -/
def foldPath (start : H) (bits : List Nat) (path : List H) : H :=
  (bits.zip path).foldl
    (fun acc step => if step.1 = 1 then hash step.2 acc else hash acc step.2) start

/-- What each level of a loop keeps, the loop keeps. -/
theorem foldl_range_induct {S : Type} {step : S → Nat → S} {depth : Nat}
    (P : Nat → S → Prop) (start : S) (hstart : P 0 start)
    (hstep : ∀ level, level < depth → ∀ state, P level state → P (level + 1) (step state level)) :
    P depth ((List.range depth).foldl step start) := by
  induction depth with
  | zero => exact hstart
  | succ depth ih =>
    rw [List.range_succ, List.foldl_append]
    exact hstep depth (Nat.lt_succ_self _) _ (ih fun level hlevel => hstep level (by omega))

theorem foldPath_authPath (leaf : Nat → H) (index depth : Nat) :
    foldPath hash (leaf index) (pathBits index depth) (authPath hash leaf index depth)
      = node hash leaf depth (index / 2 ^ depth) := by
  induction depth with
  | zero =>
    rw [pow_zero, Nat.div_one]
    rfl
  | succ depth ih =>
    -- One more level appends one step to the fold.
    have hzip : (pathBits index (depth + 1)).zip (authPath hash leaf index (depth + 1))
        = (pathBits index depth).zip (authPath hash leaf index depth)
          ++ [(index / 2 ^ depth % 2, node hash leaf depth (sibling (index / 2 ^ depth)))] := by
      rw [pathBits, authPath, List.range_succ, List.map_append, List.map_append, List.zip_append]
      · rfl
      · rw [List.length_map, List.length_map]
    rw [foldPath, hzip, List.foldl_append, ← foldPath, ih]
    simp only [List.foldl_cons, List.foldl_nil]
    rw [hash_sibling, pow_succ, Nat.div_div_eq_div_mul]

/-- The first nodes of a depth. -/
def nodeLayer (leaf : Nat → H) (d count : Nat) : List H := (List.range count).map (node hash leaf d)

/-- The layers from depth `d` up to the root of a tree `height` levels higher,
    each complete. -/
def nodeLayers (leaf : Nat → H) (d : Nat) : Nat → List (List H)
  | 0 => [nodeLayer hash leaf d 1]
  | height + 1 => nodeLayer hash leaf d (2 ^ (height + 1)) :: nodeLayers leaf (d + 1) height

@[simp]
theorem length_nodeLayer (leaf : Nat → H) (d count : Nat) :
    (nodeLayer hash leaf d count).length = count := by
  rw [nodeLayer, List.length_map, List.length_range]

theorem getElem?_nodeLayer (leaf : Nat → H) (d : Nat) {count i : Nat} (hi : i < count) :
    (nodeLayer hash leaf d count)[i]? = some (node hash leaf d i) := by
  rw [nodeLayer, List.getElem?_map, List.getElem?_range hi, Option.map_some]

theorem eq_nodeLayer {leaf : Nat → H} {d count : Nat} {layer : List H}
    (hlength : layer.length = count)
    (h : ∀ i, i < count → layer[i]? = some (node hash leaf d i)) :
    layer = nodeLayer hash leaf d count := by
  refine List.ext_getElem? ?_
  intro i
  by_cases hi : i < count
  · rw [h i hi, getElem?_nodeLayer hash leaf d hi]
  · rw [List.getElem?_eq_none (by omega),
      List.getElem?_eq_none (by rw [length_nodeLayer]; omega)]

theorem getElem?_nodeLayers (leaf : Nat → H) (height d level : Nat) (hle : level ≤ height) :
    (nodeLayers hash leaf d height)[level]?
      = some (nodeLayer hash leaf (d + level) (2 ^ (height - level))) := by
  induction height generalizing d level with
  | zero =>
    rw [show level = 0 by omega]
    rfl
  | succ height ih =>
    cases level with
    | zero => rfl
    | succ level =>
      rw [nodeLayers, List.getElem?_cons_succ, ih (d + 1) level (by omega),
        show d + 1 + level = d + (level + 1) by omega,
        show height - level = height + 1 - (level + 1) by omega]

theorem getLast?_nodeLayers (leaf : Nat → H) (height d : Nat) :
    (nodeLayers hash leaf d height).getLast? = some [node hash leaf (d + height) 0] := by
  induction height generalizing d with
  | zero => rfl
  | succ height ih =>
    rw [nodeLayers, List.getLast?_cons, ih (d + 1), Option.getD_some,
      show d + 1 + height = d + (height + 1) by omega]

theorem map_pair_node (leaf : Nat → H) (d : Nat) {layer : List H} {count : Nat} (default : H)
    (hlayer : ∀ i, i < 2 * count → layer[i]? = some (node hash leaf d i)) :
    (List.range count).map
        (fun i => hash (layer.getD (i * 2) default) (layer.getD (i * 2 + 1) default))
      = nodeLayer hash leaf (d + 1) count := by
  refine List.map_congr_left ?_
  intro i hmem
  rw [List.mem_range] at hmem
  rw [node, List.getD_eq_getElem?_getD, List.getD_eq_getElem?_getD, hlayer (i * 2) (by omega),
    hlayer (i * 2 + 1) (by omega), Option.getD_some, Option.getD_some, Nat.mul_comm i 2]

theorem node_update_of_ne (leaf : Nat → H) (x : H) {position d i : Nat}
    (h : i ≠ position / 2 ^ d) :
    node hash (Function.update leaf position x) d i = node hash leaf d i := by
  refine node_congr hash d i ?_
  intro j hlow hhigh
  refine Function.update_of_ne ?_ x leaf
  rintro rfl
  refine h (Nat.div_eq_of_lt_le hlow hhigh).symm

theorem set_nodeLayer (leaf : Nat → H) (x : H) (position d count : Nat) :
    (nodeLayer hash leaf d count).set (position / 2 ^ d)
        (node hash (Function.update leaf position x) d (position / 2 ^ d))
      = nodeLayer hash (Function.update leaf position x) d count := by
  refine eq_nodeLayer hash (by rw [List.length_set, length_nodeLayer]) ?_
  intro i hi
  rw [List.getElem?_set, length_nodeLayer]
  by_cases heq : position / 2 ^ d = i
  · rw [if_pos heq, heq, if_pos hi]
  · rw [if_neg heq, getElem?_nodeLayer hash leaf d hi,
      node_update_of_ne hash leaf x (Ne.symm heq)]

end CompleteTree

end Railgun
