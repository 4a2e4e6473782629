import Railgun.Core.Selection
import Mathlib.Data.List.Perm.Subperm
import Mathlib.Algebra.Order.BigOperators.Group.List
import Mathlib.Algebra.Order.Group.Nat

/-!
# Candidate Lists

What the searches start from: note totals, the groups of one tree, and the
index lists that stand for sets of candidates.

A total is a wrapping sum, so it does not depend on the order of the notes
(`noteTotal_perm`), and it is the true sum as long as that fits a word
(`toNat_noteTotal`). The first fact holds without any bound and is what the
soundness of the searches rests on; the second is only needed where totals are
compared with sums.

## Main definitions

* `valueSum`: The true sum of the notes' values.

## Theorems

* `noteTotal_append`, `noteTotal_perm`: Totals as sums in the word ring.
* `toNat_noteTotal`: A total below `2 ^ 256` is the true sum.
* `sortBy_perm`: Sorting permutes.
* `getElem?_tokenUtxosByTree`: A group is the filter of its tree.
* `mem_treeGroups`: Every group is the nonempty filter of one tree.
* `treeGroups_complete`: Every note of the token is in a group.
* `pick_append_singleton`: Picking one more index.
-/

namespace Railgun

/-- What notes are worth, without wrapping. -/
def valueSum (utxos : List Utxo) : Nat := (utxos.map (·.note.value.toNat)).sum

@[simp] theorem valueSum_nil : valueSum [] = 0 := rfl

@[simp] theorem valueSum_cons (utxo : Utxo) (utxos : List Utxo) :
    valueSum (utxo :: utxos) = utxo.note.value.toNat + valueSum utxos := by
  simp only [valueSum, List.map_cons, List.sum_cons]

@[simp] theorem valueSum_append (a b : List Utxo) :
    valueSum (a ++ b) = valueSum a + valueSum b := by
  simp only [valueSum, List.map_append, List.sum_append]

variable {a b : List Utxo}

theorem valueSum_perm (h : a.Perm b) : valueSum a = valueSum b :=
  (h.map _).sum_nat

theorem valueSum_subperm (h : a.Subperm b) : valueSum a ≤ valueSum b := by
  rcases h with ⟨c, hperm, hsub⟩
  rw [← valueSum_perm hperm]
  exact (hsub.map _).sum_le_sum (fun _ _ => Nat.zero_le _)

theorem foldl_value_eq (utxos : List Utxo) (acc : U256) :
    utxos.foldl (fun sum utxo => sum + utxo.note.value) acc
      = acc + (utxos.map (·.note.value)).sum := by
  induction utxos generalizing acc with
  | nil => simp only [List.foldl_nil, List.map_nil, List.sum_nil, add_zero]
  | cons utxo utxos ih =>
    simp only [List.foldl_cons, List.map_cons, List.sum_cons]
    rw [ih, add_assoc]

/-- The total of notes is the wrapping sum of their values. -/
theorem noteTotal_eq_sum (utxos : List Utxo) :
    noteTotal utxos = (utxos.map (·.note.value)).sum := by
  rw [noteTotal, foldl_value_eq, zero_add]

@[simp] theorem noteTotal_nil : noteTotal [] = 0 := rfl

theorem noteTotal_cons (utxo : Utxo) (utxos : List Utxo) :
    noteTotal (utxo :: utxos) = utxo.note.value + noteTotal utxos := by
  simp only [noteTotal_eq_sum, List.map_cons, List.sum_cons]

theorem noteTotal_append (a b : List Utxo) :
    noteTotal (a ++ b) = noteTotal a + noteTotal b := by
  simp only [noteTotal_eq_sum, List.map_append, List.sum_append]

theorem noteTotal_perm (h : a.Perm b) : noteTotal a = noteTotal b := by
  rw [noteTotal_eq_sum, noteTotal_eq_sum]
  exact (h.map _).sum_eq

variable {utxos : List Utxo}

/-- The total is exact while the values sum to a word. -/
theorem toNat_noteTotal (h : valueSum utxos < 2 ^ 256) :
    (noteTotal utxos).toNat = valueSum utxos := by
  induction utxos with
  | nil => rfl
  | cons utxo utxos ih =>
    rw [valueSum_cons] at h
    have htail := ih (by omega)
    rw [noteTotal_cons, BitVec.toNat_add_of_lt (by rw [htail]; exact h), htail, valueSum_cons]

theorem toNat_noteTotal_le (utxos : List Utxo) :
    (noteTotal utxos).toNat ≤ valueSum utxos := by
  induction utxos with
  | nil => exact Nat.zero_le _
  | cons utxo utxos ih =>
    rw [noteTotal_cons, BitVec.toNat_add, valueSum_cons]
    exact le_trans (Nat.mod_le _ _) (by omega)

theorem sortBy_perm {α : Type} (cmp : α → α → Ordering) (l : List α) :
    (sortBy cmp l).Perm l :=
  List.perm_insertionSort _ l

theorem normalizeSelection_perm (utxos : List Utxo) : (normalizeSelection utxos).Perm utxos :=
  sortBy_perm _ utxos

theorem sortSearchCandidates_perm (utxos : List Utxo) :
    (sortSearchCandidates utxos).Perm utxos :=
  sortBy_perm _ utxos

/-- The notes of a token with a nonzero value. -/
def tokenNotes (utxos : List Utxo) (token : Address) : List Utxo :=
  utxos.filter fun utxo =>
    utxo.note.tokenHash = tokenHash token ∧ utxo.note.value ≠ 0

variable {token : Address}

/-- The notes of a token that have a value. -/
theorem mem_tokenNotes {utxo : Utxo} :
    utxo ∈ tokenNotes utxos token ↔
      utxo ∈ utxos ∧ utxo.note.tokenHash = tokenHash token ∧ utxo.note.value ≠ 0 := by
  simp only [tokenNotes, List.mem_filter, decide_eq_true_eq]

/-- By induction over the notes, each is put into the group of its tree. -/
theorem getElem?_foldl_group (notes : List Utxo) (byTree : BTreeMap Nat (List Utxo))
    (tree : Nat) :
    ((notes.foldl (fun byTree utxo =>
        byTree.insert utxo.tree ((byTree[utxo.tree]?).getD [] ++ [utxo])) byTree)[tree]?)
      = if notes.filter (fun utxo => utxo.tree = tree) = [] then byTree[tree]?
        else some ((byTree[tree]?).getD [] ++
          notes.filter (fun utxo => utxo.tree = tree)) := by
  induction notes generalizing byTree with
  | nil => simp only [List.foldl_nil, List.filter_nil, if_true]
  | cons utxo notes ih =>
    rw [List.foldl_cons, ih, Std.ExtTreeMap.getElem?_insert]
    by_cases htree : utxo.tree = tree
    · have hcmp : compare utxo.tree tree = Ordering.eq := by
        rw [Nat.compare_eq_eq]
        exact htree
      rw [if_pos hcmp, List.filter_cons_of_pos (by simpa only [decide_eq_true_eq] using htree),
        if_neg (List.cons_ne_nil _ _), htree]
      by_cases hnil : notes.filter (fun utxo => utxo.tree = tree) = []
      · rw [if_pos hnil, hnil]
      · rw [if_neg hnil]
        simp only [Option.getD_some, List.append_assoc, List.singleton_append]
    · have hcmp : ¬ compare utxo.tree tree = Ordering.eq := by
        rw [Nat.compare_eq_eq]
        exact htree
      rw [if_neg hcmp]
      rw [List.filter_cons_of_neg (by simpa only [decide_eq_true_eq] using htree)]

theorem getElem?_tokenUtxosByTree (utxos : List Utxo) (token : Address) (tree : Nat) :
    (tokenUtxosByTree utxos token)[tree]?
      = if (tokenNotes utxos token).filter (fun utxo => utxo.tree = tree) = []
        then none
        else some ((tokenNotes utxos token).filter (fun utxo => utxo.tree = tree)) := by
  rw [tokenUtxosByTree, getElem?_foldl_group, ← tokenNotes]
  simp only [Std.ExtTreeMap.getElem?_empty, Option.getD_none, List.nil_append]

/-- The groups are the notes of the token of each tree that has any. -/
theorem mem_treeGroups {group : List Utxo} :
    group ∈ treeGroups utxos token ↔
      ∃ tree, group ≠ [] ∧
        group = (tokenNotes utxos token).filter (fun utxo => utxo.tree = tree) := by
  simp only [treeGroups, List.mem_map, Prod.exists, exists_eq_right]
  constructor
  · rintro ⟨tree, hmem⟩
    rw [Std.ExtTreeMap.mem_toList_iff_getElem?_eq_some, getElem?_tokenUtxosByTree] at hmem
    split_ifs at hmem with hnil
    rw [Option.some.injEq] at hmem
    exact ⟨tree, hmem ▸ hnil, hmem.symm⟩
  · rintro ⟨tree, hne, hgroup⟩
    refine ⟨tree, ?_⟩
    rw [Std.ExtTreeMap.mem_toList_iff_getElem?_eq_some, getElem?_tokenUtxosByTree,
      if_neg (by rw [← hgroup]; exact hne), hgroup]

theorem treeGroups_complete {utxo : Utxo}
    (h : utxo ∈ tokenNotes utxos token) :
    ∃ group ∈ treeGroups utxos token, utxo ∈ group := by
  have hmem : utxo ∈ (tokenNotes utxos token).filter (fun other => other.tree = utxo.tree) :=
    List.mem_filter.mpr ⟨h, decide_eq_true rfl⟩
  exact ⟨_, mem_treeGroups.mpr ⟨utxo.tree, List.ne_nil_of_mem hmem, rfl⟩, hmem⟩

theorem treeGroup_sublist {group : List Utxo}
    (h : group ∈ treeGroups utxos token) : group.Sublist utxos := by
  rcases mem_treeGroups.mp h with ⟨tree, _, hgroup⟩
  rw [hgroup]
  exact List.filter_sublist.trans List.filter_sublist

variable {candidates : List Utxo} {index : Nat}

theorem valueAt_eq (h : index < candidates.length) :
    valueAt candidates index = candidates[index].note.value := by
  simp only [valueAt, List.getElem?_eq_getElem h, Option.map_some, Option.getD_some]

theorem pick_append_singleton {selected : List Nat}
    (h : index < candidates.length) :
    pick candidates (selected ++ [index]) = pick candidates selected ++ [candidates[index]] := by
  simp only [pick, List.filterMap_append, List.filterMap_cons, List.getElem?_eq_getElem h,
    List.filterMap_nil]

/-- Picking a later index keeps the order of the candidates. -/
theorem pick_sublist_take {selected : List Nat} {start : Nat}
    (hsub : (pick candidates selected).Sublist (candidates.take start)) (hle : start ≤ index)
    (h : index < candidates.length) :
    (pick candidates (selected ++ [index])).Sublist (candidates.take (index + 1)) := by
  rw [pick_append_singleton h, List.take_succ_eq_append_getElem h]
  exact (hsub.trans (List.take_sublist_take_left hle)).append (List.Sublist.refl _)

end Railgun
