import Railgun.Core.Allocation
import Railgun.Lib.Fallible
import Railgun.Theory.LargestBatch
import Railgun.Theory.SelectionOrder

/-!
# The Largest Batch With a Fee

The transaction that pays the fee has one output more, and so one input less. The
loop charges the fee to the transaction it fills first, which is the one whose
notes are worth most. What it reaches is therefore the most that can be spent with
the fee paid from the leading tree, and not the most that can be spent: a tree with
a single note gives up nothing when it pays the fee, and a full one a note.

## Main definitions

* `topSelection`: The largest notes of a tree as one transaction.

## Theorems

* `leadingTree_of_max`: The largest transaction takes its notes from the leading
  tree.
* `leadingTree_unique`: There is one leading tree at most.
* `maxWithFee_below_best`: A wallet in which another tree should pay the fee.
-/

namespace Railgun

open SelectedInputIdentity (fromUtxo)

/-- The largest notes of a tree. -/
def topSelection (utxos : List Utxo) (token : Address) (count tree : Nat) : UtxoSelection :=
  selectionOf ((sortSearchCandidates (treeNotes token utxos tree)).take count)

/-- The tree whose `count` largest notes have the largest total, then the fewest
    notes, then the smallest positions. -/
structure LeadingTree (utxos : List Utxo) (token : Address) (count tree : Nat) : Prop where
  notes : treeNotes token utxos tree ≠ []
  first : ∀ other, treeNotes token utxos other ≠ [] →
    (selectionMaxOrder (topSelection utxos token count tree)
      (topSelection utxos token count other)).isLE = true

variable {count tree : Nat} {token : Address} {utxos : List Utxo}

theorem topSelection_tree {utxo : Utxo}
    (h : utxo ∈ (topSelection utxos token count tree).utxos) : utxo.tree = tree := by
  have hnotes : utxo ∈ treeNotes token utxos tree :=
    (sortSearchCandidates_perm _).subset
      ((List.take_sublist _ _).subset ((normalizeSelection_perm _).subset h))
  exact of_decide_eq_true (List.mem_filter.mp hnotes).2

theorem topSelection_ne_nil (hcount : count ≠ 0) (h : treeNotes token utxos tree ≠ []) :
    (topSelection utxos token count tree).utxos ≠ [] := by
  intro hnil
  have hperm := normalizeSelection_perm
    ((sortSearchCandidates (treeNotes token utxos tree)).take count)
  rw [show normalizeSelection _ = [] from hnil] at hperm
  have htake := List.perm_nil.mp hperm.symm
  rcases List.take_eq_nil_iff.mp htake with hzero | hsorted
  · exact hcount hzero
  · exact h (List.perm_nil.mp (hsorted ▸ (sortSearchCandidates_perm _).symm))

theorem leadingTree_unique {other : Nat}
    (hcount : count ≠ 0) (h : LeadingTree utxos token count tree)
    (hother : LeadingTree utxos token count other) : tree = other := by
  have htie := Std.OrientedCmp.isLE_antisymm (h.first other hother.notes)
    (hother.first tree h.notes)
  have hkeys := (selectionMaxOrder_eq htie).2
  obtain ⟨utxo, hmem⟩ := List.exists_mem_of_ne_nil _ (topSelection_ne_nil hcount h.notes)
  have hkey : toLex (utxo.tree, utxo.position)
      ∈ (topSelection utxos token count other).positionKey := by
    rw [← hkeys]
    exact List.mem_map_of_mem hmem
  obtain ⟨later, hlater, hsame⟩ := List.mem_map.mp hkey
  have htrees : later.tree = utxo.tree := congrArg Prod.fst (toLex_inj.mp hsame)
  rw [← topSelection_tree hmem, ← htrees, topSelection_tree hlater]

theorem maxTreeSelection_of_notes {baseOutputCount : Nat} (hsum : valueSum utxos < 2 ^ 256)
    (hinputs : maxInputsForBaseOutputs baseOutputCount ≠ 0) (h : treeNotes token utxos tree ≠ []) :
    maxTreeSelection (treeNotes token utxos tree) (maxInputsForBaseOutputs baseOutputCount)
      = some (topSelection utxos token (maxInputsForBaseOutputs baseOutputCount) tree) := by
  have hsorted : sortSearchCandidates (treeNotes token utxos tree) ≠ [] := fun hnil =>
    h (List.perm_nil.mp (hnil ▸ (sortSearchCandidates_perm (treeNotes token utxos tree)).symm))
  have hnil : (sortSearchCandidates (treeNotes token utxos tree)).take
      (maxInputsForBaseOutputs baseOutputCount) ≠ [] := by
    rw [ne_eq, List.take_eq_nil_iff, not_or]
    exact ⟨hinputs, hsorted⟩
  have hspend : Spendable utxos token baseOutputCount ⟨_, noteTotal _⟩ :=
    spendable_of_chosen (treeNotes_mem_treeGroups h) (List.take_sublist _ _) hnil
      (List.length_take_le _ _) (List.Perm.refl _) rfl
  exact if_neg (hspend.total_ne_zero hsum)

variable {chunk : UtxoSelection}

theorem leadingTree_of_max {baseOutputCount : Nat} (hsum : valueSum utxos < 2 ^ 256)
    (hmax : maxUnshieldSelectionWithOutputCount utxos token baseOutputCount = some chunk) :
    ∀ utxo ∈ chunk.utxos,
      LeadingTree utxos token (maxInputsForBaseOutputs baseOutputCount) utxo.tree := by
  obtain ⟨group, hgroup, htree⟩ := maxUnshieldSelection_mem hmax
  obtain ⟨tree, hnotes, rfl⟩ := mem_treeGroups.mp hgroup
  rw [maxUnshieldSelectionWithOutputCount] at hmax
  split_ifs at hmax with hinputs
  have hchunk := htree.symm.trans (maxTreeSelection_of_notes hsum hinputs hnotes)
  rw [Option.some.injEq] at hchunk
  have hbest := foldl_keepBest_order _ isBetterMaxThan_iff _ _ _ hmax
  intro utxo hmem
  rw [hchunk] at hmem
  rw [topSelection_tree hmem]
  refine ⟨hnotes, fun other hother => ?_⟩
  rw [← hchunk]
  exact hbest _ (treeNotes_mem_treeGroups hother) _ (maxTreeSelection_of_notes hsum hinputs hother)

/-- Sets of notes for one transaction each, no note in two of them. The first
    pays the fee from the leading tree, beside at most `count` others. -/
structure FeeNoteSets (utxos : List Utxo) (token : Address) (feeLimit limit count : Nat)
    (fee : List Utxo) (sets : List (List Utxo)) : Prop where
  feeSet : NoteSet token feeLimit fee
  leading : ∀ utxo ∈ fee, LeadingTree utxos token feeLimit utxo.tree
  count : sets.length ≤ count
  each : ∀ set ∈ sets, NoteSet token limit set
  disjoint : (fee ++ sets.flatten).Subperm utxos

theorem topValue_mono (token : Address) (pool : List Utxo) (tree : Nat) {a b : Nat}
    (h : a ≤ b) : topValue token pool tree a ≤ topValue token pool tree b :=
  valueSum_sublist (List.take_sublist_take_left h)

variable {first continuation : Nat}

/-- What the loop draws after the first transaction is as much as disjoint sets
    of notes with a fee from the leading tree can be worth. -/
theorem feeNoteSets_bound {limit : Nat} {total : Nat}
    (hdistinct : (utxos.map fromUtxo).Nodup) (hsum : valueSum utxos < 2 ^ 256)
    (hmax : maxUnshieldSelectionWithOutputCount utxos token first = some chunk)
    (hrun : GreedyRun (blockWorth token continuation) limit
      (removeSelectedUtxos utxos chunk.utxos) total)
    {fee : List Utxo} {sets : List (List Utxo)}
    (hsets : FeeNoteSets utxos token (maxInputsForBaseOutputs first)
      (maxInputsForBaseOutputs continuation) limit fee sets) :
    valueSum (fee ++ sets.flatten) ≤ chunk.total.toNat + total := by
  obtain ⟨tree, hperm, htrees, hworth, -⟩ := greedyStep_of_max hdistinct hsum hmax
  obtain ⟨spent, hspent⟩ := List.exists_mem_of_ne_nil _ (maxUnshieldSelection_spec hmax).1.nonempty
  have hleading := leadingTree_of_max hsum hmax spent hspent
  rw [htrees spent hspent] at hleading
  have hinputs : maxInputsForBaseOutputs first ≠ 0 := by
    have hpositive := List.length_pos_iff.mpr (maxUnshieldSelection_spec hmax).1.nonempty
    have hle := (maxUnshieldSelection_spec hmax).1.inputs
    omega
  -- The fee is paid from the tree that the first transaction spends from.
  obtain ⟨trees, chosen, hmem, hcount, hbound⟩ := noteSets_bound tree
    (fun utxo hmem => ⟨hsets.feeSet.token utxo hmem,
      leadingTree_unique hinputs (hsets.leading utxo hmem) hleading⟩) hsets.each hsets.disjoint
  have htree : ∀ other ∈ trees, topValue token utxos other
      ((if tree = other then fee.length else 0)
        + maxInputsForBaseOutputs continuation * chosen other)
      ≤ (if tree = other then chunk.total.toNat else 0) + blockWorth token continuation
        (removeSelectedUtxos utxos chunk.utxos) other (chosen other) := by
    intro other _
    by_cases hother : tree = other
    · rw [if_pos hother, if_pos hother, ← hother, hworth]
      exact le_trans (topValue_mono token utxos tree (Nat.add_le_add_right hsets.feeSet.size _))
        (topValue_removed hdistinct hperm _)
    · rw [if_neg hother, if_neg hother, Nat.zero_add, Nat.zero_add, blockWorth, topValue, topValue,
        treeNotes_removed_of_ne htrees (Ne.symm hother)]
  refine le_trans hbound (le_trans (Finset.sum_le_sum htree) ?_)
  rw [Finset.sum_add_distrib, Finset.sum_ite_eq, if_pos hmem]
  exact Nat.add_le_add_left (hrun.bound (blockWorth_zero token continuation) trees chosen
    (le_trans (le_of_eq hcount) hsets.count)) _

theorem feeNoteSets_worthless {feeLimit limit : Nat} (hsum : valueSum utxos < 2 ^ 256)
    (hinputs : maxInputsForBaseOutputs first ≠ 0)
    (hmax : maxUnshieldSelectionWithOutputCount utxos token first = none)
    {fee : List Utxo} {sets : List (List Utxo)}
    (hsets : FeeNoteSets utxos token feeLimit limit count fee sets) :
    valueSum (fee ++ sets.flatten) = 0 := by
  obtain ⟨tree, htree⟩ := hsets.feeSet.oneTree
  obtain ⟨trees, chosen, -, -, hbound⟩ := noteSets_bound tree
    (fun utxo hmem => ⟨hsets.feeSet.token utxo hmem, htree utxo hmem⟩) hsets.each hsets.disjoint
  refine Nat.le_zero.mp (le_trans hbound (le_of_eq (Finset.sum_eq_zero fun other _ => ?_)))
  exact topValue_of_max_none hsum hinputs hmax other _

theorem feeNoteSets_of_draws {rest : List UtxoSelection} (hsum : valueSum utxos < 2 ^ 256)
    (hmax : maxUnshieldSelectionWithOutputCount utxos token first = some chunk)
    (hrest : Draws token continuation continuation (removeSelectedUtxos utxos chunk.utxos) rest) :
    FeeNoteSets utxos token (maxInputsForBaseOutputs first)
      (maxInputsForBaseOutputs continuation) rest.length chunk.utxos (rest.map (·.utxos)) where
  feeSet :=
    have hspend := (maxUnshieldSelection_spec hmax).1
    ⟨hspend.token, hspend.oneTree, hspend.inputs⟩
  leading := leadingTree_of_max hsum hmax
  count := (chain_noteSets hrest.chain).count
  each := (chain_noteSets hrest.chain).each
  disjoint := subperm_append_of_removed (maxUnshieldSelection_spec hmax).1.subperm
    (chain_noteSets hrest.chain).disjoint

/-- A batch spends the most that disjoint sets of notes can if the first one is
    paid from the leading tree. -/
theorem maxBatchWithFee_isGreatest (token : Address) (limit : Nat)
    (hfirst : maxInputsForBaseOutputs first ≠ 0)
    (hcontinuation : maxInputsForBaseOutputs continuation ≠ 0)
    (hdistinct : (utxos.map fromUtxo).Nodup)
    (hsum : valueSum utxos < 2 ^ 256) :
    IsGreatest {total | ∃ fee sets, FeeNoteSets utxos token (maxInputsForBaseOutputs first)
        (maxInputsForBaseOutputs continuation) limit fee sets ∧
        total = valueSum (fee ++ sets.flatten)}
      (maxBatchSpendableWithLimit utxos token first continuation (limit + 1)).toNat := by
  have hbase : baseOutputCountAt first continuation 0 = first := rfl
  cases hmax : maxUnshieldSelectionWithOutputCount utxos token first with
  | none =>
    have hloop : maxBatchLoop token first continuation (limit + 1) 0 utxos [] 0
        = ([], chunkTotal []) := by
      rw [maxBatchLoop, hbase, hmax, chunkTotal_nil]
    rw [maxBatchSpendable_of_loop hloop Chain.nil hsum]
    constructor
    · refine ⟨[], [], ⟨⟨?_, ⟨0, ?_⟩, Nat.zero_le _⟩, ?_, Nat.zero_le _, ?_, ?_⟩, rfl⟩
      · exact List.forall_mem_nil _
      · exact List.forall_mem_nil _
      · exact List.forall_mem_nil _
      · exact List.forall_mem_nil _
      · exact List.nil_subperm
    · rintro total ⟨fee, sets, hsets, rfl⟩
      exact le_of_eq (feeNoteSets_worthless hsum hfirst hmax hsets)
  | some chunk =>
    obtain ⟨rest, hloop, hlen, hdraws, hrun⟩ := maxBatchLoop_greedyRun token first continuation
      hcontinuation limit 1 (removeSelectedUtxos utxos chunk.utxos) [chunk] chunk.total
      (baseOutputCountAt_succ first continuation 0)
      (((removeSelectedUtxos_sublist utxos chunk.utxos).map _).nodup hdistinct)
      (valueSum_removeSelected_lt hsum _)
    have hwhole : maxBatchLoop token first continuation (limit + 1) 0 utxos [] 0
        = (chunk :: rest, chunkTotal (chunk :: rest)) := by
      rw [maxBatchLoop, hbase, hmax]
      dsimp only
      rw [if_neg (maxUnshieldSelection_spec hmax).2, Nat.zero_add, zero_add, List.nil_append,
        hloop, chunkTotal_cons, List.singleton_append]
    have hchain := (Draws.cons hmax hdraws).chain
    have hsets := feeNoteSets_of_draws hsum hmax hdraws
    rw [maxBatchSpendable_of_loop hwhole hchain hsum]
    constructor
    · refine ⟨chunk.utxos, rest.map (·.utxos), { hsets with count := ?_ }, ?_⟩
      · exact le_trans hsets.count hlen
      · rw [chain_chunkSum hchain hsum, List.map_cons, List.flatten_cons]
    · rintro total ⟨fee, sets, hsets, rfl⟩
      exact feeNoteSets_bound hdistinct hsum hmax hrun hsets

theorem maxSpendable_of_info {send : Bool}
    {amount feeAmount : U256} {spendUpTo : Bool} {info : UnshieldSelectionInfo}
    (h : selectionInfoWithBroadcasterFee send utxos token amount feeAmount spendUpTo = .ok info) :
    info.maxSpendable.toNat = (maxBatchSpendable utxos token 2 1).toNat - feeAmount.toNat := by
  obtain ⟨selection, -, hinfo⟩ := bind_eq_ok.mp h
  have hmax := congrArg UnshieldSelectionInfo.maxSpendable (Except.ok.inj hinfo)
  rw [← hmax, infoOfShape]
  dsimp only
  split_ifs with hlt
  · exact BitVec.toNat_sub_of_le (BitVec.le_of_lt hlt)
  · rw [BitVec.lt_def, not_lt] at hlt
    exact (Nat.sub_eq_zero_of_le hlt).symm

/-- A note of the token with address one. -/
def plainNote (value : U256) (tree position : Nat) : Utxo :=
  { note := { tokenHash := 1, value := value, random := 0, npk := 0 }, tree := tree,
    position := position }

/-- Thirteen notes of value one in the first tree and a note of value eleven in
    each of seven others. -/
def crowdedWallet : List Utxo :=
  (List.range 13).map (plainNote 1 0) ++ (List.range' 1 7).map (plainNote 11 · 0)

/-- The loop pays the fee from the crowded tree, which costs it a note. Paid from a
    tree with one note, the fee costs nothing. -/
theorem maxWithFee_below_best :
    (crowdedWallet.map fromUtxo).Nodup ∧
      valueSum crowdedWallet < 2 ^ 256 ∧ maxBatchSpendable crowdedWallet 1 2 1 = 89 ∧
      ∃ (fee : List Utxo) (sets : List (List Utxo)), NoteSet 1 12 fee ∧ sets.length = 7 ∧
        (∀ set ∈ sets, NoteSet 1 13 set) ∧ (fee ++ sets.flatten).Subperm crowdedWallet ∧
        valueSum (fee ++ sets.flatten) = 90 := by
  refine ⟨by decide +kernel, by decide +kernel, by decide +kernel, [plainNote 11 1 0],
    (List.range 13).map (plainNote 1 0) :: (List.range' 2 6).map fun tree => [plainNote 11 tree 0],
    ⟨by decide, ⟨1, by decide⟩, by decide⟩, by decide, ?_, by decide +kernel, by decide +kernel⟩
  intro set hmem
  rcases List.mem_cons.mp hmem with rfl | hmem
  · exact ⟨by decide, ⟨0, by decide⟩, by decide⟩
  · obtain ⟨tree, -, rfl⟩ := List.mem_map.mp hmem
    refine ⟨fun utxo hnote => ?_, ⟨tree, fun utxo hnote => ?_⟩, Nat.le_add_left 1 12⟩
    · rw [List.mem_singleton.mp hnote, plainNote]
      rfl
    · rw [List.mem_singleton.mp hnote, plainNote]

/-- The maximum that an unshield or a send with a fee in the same token advertises
    is, fee included, the largest total of at most eight disjoint sets of notes of
    the token, each from one tree: one of at most twelve notes from the leading
    tree, which pays the fee, and others of at most thirteen. -/
theorem maxWithFee_isGreatest (utxos : List Utxo) (token : Address)
    (hdistinct : (utxos.map fromUtxo).Nodup)
    (hsum : valueSum utxos < 2 ^ 256) :
    IsGreatest {total | ∃ fee sets, FeeNoteSets utxos token 12 13 7 fee sets ∧
        total = valueSum (fee ++ sets.flatten)} (maxBatchSpendable utxos token 2 1).toNat ∧
      ∀ send amount feeAmount spendUpTo info,
        selectionInfoWithBroadcasterFee send utxos token amount feeAmount spendUpTo = .ok info →
        info.maxSpendable.toNat
          = (maxBatchSpendable utxos token 2 1).toNat - feeAmount.toNat := by
  have hfirst : maxInputsForBaseOutputs 2 ≠ 0 := by decide
  have hcontinuation : maxInputsForBaseOutputs 1 ≠ 0 := by decide
  exact ⟨maxBatchWithFee_isGreatest token 7 hfirst hcontinuation hdistinct hsum,
    fun _ _ _ _ _ => maxSpendable_of_info⟩

/-- Two trees with one note each: both notes can be spent, one of them beside the
    fee. -/
theorem maxWithFee_isGreatest_twoTreeWallet :
    (twoTreeWallet.map fromUtxo).Nodup ∧ valueSum twoTreeWallet < 2 ^ 256 ∧
      IsGreatest {total | ∃ fee sets, FeeNoteSets twoTreeWallet 1 12 13 7 fee sets ∧
        total = valueSum (fee ++ sets.flatten)} 10 ∧
      ∃ info, selectionInfoWithBroadcasterFee false twoTreeWallet 1 7 2 false = .ok info ∧
        info.maxSpendable.toNat = 8 := by
  have hmax : maxBatchSpendable twoTreeWallet 1 2 1 = 10 := by decide +kernel
  have hok : (selectionInfoWithBroadcasterFee false twoTreeWallet 1 7 2 false).isOk = true := by
    decide +kernel
  obtain ⟨hgreatest, hinfo⟩ := maxWithFee_isGreatest twoTreeWallet 1 (by decide) (by decide)
  refine ⟨by decide, by decide, hgreatest, ?_⟩
  cases hrun : selectionInfoWithBroadcasterFee false twoTreeWallet 1 7 2 false with
  | error e =>
    rw [hrun] at hok
    cases hok
  | ok info => exact ⟨info, rfl, hinfo _ _ _ _ _ hrun⟩

end Railgun
