import Mathlib.Algebra.BigOperators.Group.Finset.Piecewise
import Railgun.Lib.GreedyBlocks
import Railgun.Theory.Maximum

/-!
# The Largest Batch

The maximum selection takes the largest notes of one tree, as many as one
transaction can spend, and goes on with the notes left. Each tree is a sequence
of blocks that way, its most valuable block first, and the loop always takes the
block worth most. Any other family of disjoint sets of notes, each of one tree
and no larger than a transaction allows, is worth no more than some number of
first blocks of each tree.

## Main definitions

* `treeNotes`: The notes of a tree that can be spent.
* `topValue`: What so many of the largest notes of a tree are worth.

## Theorems

* `topValue_removed`: Spending the largest notes of a tree moves the others up.
* `maxBatchLoop_greedyRun`: The loop takes blocks greedily.
* `maxSpendable_isGreatest`: The maximum without a fee is the true one.
-/

namespace Railgun

open SelectedInputIdentity (fromUtxo)

/-- The notes of a token in a tree. -/
def treeNotes (token : Address) (pool : List Utxo) (tree : Nat) : List Utxo :=
  (tokenNotes pool token).filter fun utxo => utxo.tree = tree

/-- What the largest of them are worth. -/
def topValue (token : Address) (pool : List Utxo) (tree count : Nat) : Nat :=
  valueSum ((sortSearchCandidates (treeNotes token pool tree)).take count)

variable {pool chosen : List Utxo} {count tree : Nat} {token : Address}

theorem le_topValue
    (hsub : chosen.Subperm (treeNotes token pool tree)) (hlen : chosen.length ≤ count) :
    valueSum chosen ≤ topValue token pool tree count := subperm_le_top hsub hlen

theorem drop_subperm (token : Address) (pool : List Utxo) (tree count : Nat) :
    ((sortSearchCandidates (treeNotes token pool tree)).drop count).Subperm
      (treeNotes token pool tree) :=
  (List.drop_sublist _ _).subperm.trans (sortSearchCandidates_perm _).subperm

theorem topValue_add (token : Address) (pool : List Utxo) (tree a b : Nat) :
    topValue token pool tree (a + b) = topValue token pool tree a
      + valueSum (((sortSearchCandidates (treeNotes token pool tree)).drop a).take b) := by
  rw [topValue, List.take_add, valueSum_append, topValue]

theorem topValue_add_le (token : Address) (pool : List Utxo) (tree a b : Nat) :
    topValue token pool tree (a + b)
      ≤ topValue token pool tree a + topValue token pool tree b := by
  rw [topValue_add]
  refine Nat.add_le_add_left (le_topValue ?_ (List.length_take_le _ _)) _
  exact (List.take_sublist _ _).subperm.trans (drop_subperm token pool tree a)

/-- What is left in a tree are its notes without the ones chosen. -/
theorem treeNotes_removed (token : Address) (pool chosen : List Utxo) (tree : Nat) :
    treeNotes token (removeSelectedUtxos pool chosen) tree
      = removeSelectedUtxos (treeNotes token pool tree) chosen := by
  simp only [treeNotes, tokenNotes, removeSelectedUtxos, List.filter_filter]
  refine List.filter_congr fun utxo _ => ?_
  exact (Bool.and_assoc _ _ _).symm.trans (Bool.and_comm _ _)

variable {notes : List Utxo}

theorem removeSelectedUtxos_eq_self (h : ∀ utxo ∈ notes, ∀ s ∈ chosen, fromUtxo s ≠ fromUtxo utxo) :
    removeSelectedUtxos notes chosen = notes := by
  rw [removeSelectedUtxos, List.filter_eq_self]
  intro utxo hmem
  rw [Bool.not_eq_true', List.any_eq_false]
  intro s hs hsame
  rw [decide_eq_true_eq] at hsame
  exact h utxo hmem s hs (by rw [fromUtxo, fromUtxo, hsame.1, hsame.2])

theorem treeNotes_removed_of_ne {other : Nat}
    (hchosen : ∀ utxo ∈ chosen, utxo.tree = tree) (hne : other ≠ tree) :
    treeNotes token (removeSelectedUtxos pool chosen) other = treeNotes token pool other := by
  rw [treeNotes_removed, removeSelectedUtxos_eq_self]
  intro utxo hmem s hs hsame
  have htree : s.tree = utxo.tree := congrArg (·.tree) hsame
  rw [hchosen s hs, of_decide_eq_true (List.mem_filter.mp hmem).2] at htree
  exact hne htree.symm

theorem treeNotes_subperm (token : Address) (pool : List Utxo) (tree : Nat) :
    (treeNotes token pool tree).Subperm pool :=
  (List.filter_sublist.trans List.filter_sublist).subperm

theorem drop_subperm_removed (hdistinct : (pool.map fromUtxo).Nodup)
    (hchosen : chosen.Perm ((sortSearchCandidates (treeNotes token pool tree)).take count)) :
    ((sortSearchCandidates (treeNotes token pool tree)).drop count).Subperm
      (treeNotes token (removeSelectedUtxos pool chosen) tree) := by
  have hsorted : ((sortSearchCandidates (treeNotes token pool tree)).map fromUtxo).Nodup :=
    subperm_identities_nodup ((sortSearchCandidates_perm _).subperm.trans
      (treeNotes_subperm token pool tree)) hdistinct
  rw [← List.take_append_drop count (sortSearchCandidates _), List.map_append,
    List.nodup_append] at hsorted
  rw [treeNotes_removed, ← removeSelectedUtxos_eq_self fun utxo hmem s hs =>
    hsorted.2.2 _ (List.mem_map_of_mem (hchosen.subset hs)) _ (List.mem_map_of_mem hmem)]
  exact (drop_subperm token pool tree count).filter _

theorem topValue_removed (hdistinct : (pool.map fromUtxo).Nodup)
    (hchosen : chosen.Perm ((sortSearchCandidates (treeNotes token pool tree)).take count))
    (more : Nat) :
    topValue token pool tree (count + more)
      ≤ valueSum chosen + topValue token (removeSelectedUtxos pool chosen) tree more := by
  rw [topValue_add, topValue, valueSum_perm hchosen]
  refine Nat.add_le_add_left (le_topValue ?_ (List.length_take_le _ _)) _
  exact (List.take_sublist _ _).subperm.trans (drop_subperm_removed hdistinct hchosen)

/-- What so many transactions can take of a tree at most. -/
def blockWorth (token : Address) (baseOutputCount : Nat) (pool : List Utxo) (tree count : Nat) :
    Nat :=
  topValue token pool tree (maxInputsForBaseOutputs baseOutputCount * count)

theorem blockWorth_zero (token : Address) (baseOutputCount : Nat) (pool : List Utxo)
    (tree : Nat) : blockWorth token baseOutputCount pool tree 0 = 0 := rfl

theorem treeNotes_mem_treeGroups
    (h : treeNotes token pool tree ≠ []) : treeNotes token pool tree ∈ treeGroups pool token :=
  mem_treeGroups.mpr ⟨tree, h, rfl⟩

variable {baseOutputCount : Nat}

theorem topValue_le_max {largest : UtxoSelection} (hsum : valueSum pool < 2 ^ 256)
    (hmax : maxUnshieldSelectionWithOutputCount pool token baseOutputCount = some largest)
    (tree : Nat) :
    topValue token pool tree (maxInputsForBaseOutputs baseOutputCount)
      ≤ largest.total.toNat := by
  have hsub : ((sortSearchCandidates (treeNotes token pool tree)).take
      (maxInputsForBaseOutputs baseOutputCount)).Sublist
      (sortSearchCandidates (treeNotes token pool tree)) := List.take_sublist _ _
  rw [topValue]
  generalize htop : (sortSearchCandidates (treeNotes token pool tree)).take
    (maxInputsForBaseOutputs baseOutputCount) = top at hsub ⊢
  by_cases hnil : top = []
  · rw [hnil]
    exact Nat.zero_le _
  · have hgroup : treeNotes token pool tree ∈ treeGroups pool token := by
      refine treeNotes_mem_treeGroups fun hempty => hnil ?_
      rw [← htop, hempty]
      exact List.take_nil
    have hspend : Spendable pool token baseOutputCount ⟨top, noteTotal top⟩ :=
      spendable_of_chosen hgroup hsub hnil (by rw [← htop]; exact List.length_take_le _ _)
        (List.Perm.refl _) rfl
    have hle := spendable_le_max hsum hspend hmax
    rw [hspend.toNat_total hsum] at hle
    exact hle

theorem greedyStep_of_max
    {chunk : UtxoSelection} (hdistinct : (pool.map fromUtxo).Nodup)
    (hsum : valueSum pool < 2 ^ 256)
    (hmax : maxUnshieldSelectionWithOutputCount pool token baseOutputCount = some chunk) :
    ∃ tree, chunk.utxos.Perm ((sortSearchCandidates (treeNotes token pool tree)).take
        (maxInputsForBaseOutputs baseOutputCount)) ∧
      (∀ utxo ∈ chunk.utxos, utxo.tree = tree) ∧ chunk.total.toNat = valueSum chunk.utxos ∧
      GreedyStep (blockWorth token baseOutputCount) pool tree chunk.total.toNat
        (removeSelectedUtxos pool chunk.utxos) := by
  obtain ⟨group, hgroup, htree⟩ := maxUnshieldSelection_mem hmax
  obtain ⟨tree, -, rfl⟩ := mem_treeGroups.mp hgroup
  obtain ⟨-, -, hutxos⟩ := maxTreeSelection_eq htree
  have hspend := (maxUnshieldSelection_spec hmax).1
  have hperm : chunk.utxos.Perm ((sortSearchCandidates (treeNotes token pool tree)).take
      (maxInputsForBaseOutputs baseOutputCount)) := by
    rw [hutxos]
    exact normalizeSelection_perm _
  have htrees : ∀ utxo ∈ chunk.utxos, utxo.tree = tree := by
    intro utxo hmem
    have hnotes : utxo ∈ treeNotes token pool tree :=
      (sortSearchCandidates_perm _).subset ((List.take_sublist _ _).subset (hperm.subset hmem))
    exact of_decide_eq_true (List.mem_filter.mp hnotes).2
  have htotal := hspend.toNat_total hsum
  refine ⟨tree, hperm, htrees, htotal, ?_, ?_, ?_⟩
  · intro count
    rw [blockWorth, Nat.mul_add_one, Nat.add_comm, htotal]
    exact topValue_removed hdistinct hperm _
  · intro other hne count
    rw [blockWorth, blockWorth, topValue, topValue, treeNotes_removed_of_ne htrees hne]
  · intro other count
    rw [blockWorth, Nat.mul_add_one, Nat.add_comm]
    exact le_trans (topValue_add_le _ _ _ _ _)
      (Nat.add_le_add_right (topValue_le_max hsum hmax other) _)

theorem topValue_of_max_none
    (hsum : valueSum pool < 2 ^ 256) (hinputs : maxInputsForBaseOutputs baseOutputCount ≠ 0)
    (hmax : maxUnshieldSelectionWithOutputCount pool token baseOutputCount = none)
    (tree count : Nat) : topValue token pool tree count = 0 := by
  have hempty : treeNotes token pool tree = [] := by
    by_contra hne
    have hgroup := treeNotes_mem_treeGroups hne
    -- The first note of the tree alone is worth something.
    have hsorted : sortSearchCandidates (treeNotes token pool tree) ≠ [] := fun hnil =>
      hne (List.perm_nil.mp (hnil ▸ (sortSearchCandidates_perm (treeNotes token pool tree)).symm))
    have hnil : (sortSearchCandidates (treeNotes token pool tree)).take
        (maxInputsForBaseOutputs baseOutputCount) ≠ [] := by
      rw [ne_eq, List.take_eq_nil_iff, not_or]
      exact ⟨hinputs, hsorted⟩
    have hspend : Spendable pool token baseOutputCount ⟨_, noteTotal _⟩ :=
      spendable_of_chosen hgroup (List.take_sublist _ _) hnil (List.length_take_le _ _)
        (List.Perm.refl _) rfl
    have hsome : (maxTreeSelection (treeNotes token pool tree)
        (maxInputsForBaseOutputs baseOutputCount)).isSome = true := by
      exact congrArg Option.isSome (if_neg (hspend.total_ne_zero hsum))
    rw [maxUnshieldSelectionWithOutputCount, if_neg hinputs] at hmax
    have hfold := foldl_keepBest_isSome UtxoSelection.isBetterMaxThan
      (fun candidates => maxTreeSelection candidates (maxInputsForBaseOutputs baseOutputCount))
      (treeGroups pool token) none ⟨_, hgroup, hsome⟩
    rw [hmax] at hfold
    cases hfold
  rw [topValue, hempty]
  exact congrArg valueSum List.take_nil

theorem maxBatchLoop_greedyRun (token : Address) (first continuation : Nat)
    (hinputs : maxInputsForBaseOutputs continuation ≠ 0) (left index : Nat) (pool : List Utxo)
    (chunks : List UtxoSelection) (total : U256)
    (hbase : baseOutputCountAt first continuation index = continuation)
    (hdistinct : (pool.map fromUtxo).Nodup) (hsum : valueSum pool < 2 ^ 256) :
    ∃ rest, maxBatchLoop token first continuation left index pool chunks total
        = (chunks ++ rest, total + chunkTotal rest) ∧ rest.length ≤ left ∧
      Draws token continuation continuation pool rest ∧
      GreedyRun (blockWorth token continuation) left pool (chunkSum rest) := by
  induction left generalizing index pool chunks total with
  | zero =>
    refine ⟨[], ?_, le_refl _, Draws.nil, GreedyRun.done pool⟩
    rw [maxBatchLoop, List.append_nil, chunkTotal_nil, add_zero]
  | succ left ih =>
    rw [maxBatchLoop, hbase]
    cases hmax : maxUnshieldSelectionWithOutputCount pool token continuation with
    | none =>
      refine ⟨[], ?_, Nat.zero_le _, Draws.nil, GreedyRun.exhausted ?_⟩
      · rw [List.append_nil, chunkTotal_nil, add_zero]
      · exact fun tree count => topValue_of_max_none hsum hinputs hmax tree _
    | some chunk =>
      dsimp only
      rw [if_neg (maxUnshieldSelection_spec hmax).2]
      obtain ⟨tree, -, -, -, hstep⟩ := greedyStep_of_max hdistinct hsum hmax
      obtain ⟨rest, hloop, hlen, hdraws, hrun⟩ := ih (index + 1)
        (removeSelectedUtxos pool chunk.utxos) (chunks ++ [chunk]) (total + chunk.total)
        (baseOutputCountAt_succ first continuation index)
        (((removeSelectedUtxos_sublist pool chunk.utxos).map _).nodup hdistinct)
        (valueSum_removeSelected_lt hsum _)
      refine ⟨chunk :: rest, ?_, Nat.succ_le_succ hlen, Draws.cons hmax hdraws,
        GreedyRun.step hstep hrun⟩
      rw [hloop, List.append_assoc, List.singleton_append, chunkTotal_cons, add_assoc]

/-- Notes of a token from one tree, at most so many. -/
structure NoteSet (token : Address) (limit : Nat) (set : List Utxo) : Prop where
  token : ∀ utxo ∈ set, utxo.note.tokenHash = tokenHash token
  oneTree : ∃ tree, ∀ utxo ∈ set, utxo.tree = tree
  size : set.length ≤ limit

/-- At most `count` sets of notes for one transaction each. No note is in two of
    them: together they are notes of the wallet, each once. -/
structure NoteSets (utxos : List Utxo) (token : Address) (limit count : Nat)
    (sets : List (List Utxo)) : Prop where
  count : sets.length ≤ count
  each : ∀ set ∈ sets, NoteSet token limit set
  disjoint : sets.flatten.Subperm utxos

/-- The tree of a set, any for the empty set. -/
def setTree (set : List Utxo) : Nat := ((set.head?).map (·.tree)).getD 0

variable {limit : Nat}

theorem NoteSet.tree_eq {set : List Utxo}
    (h : NoteSet token limit set) : ∀ utxo ∈ set, utxo.tree = setTree set := by
  intro utxo hmem
  obtain ⟨tree, htree⟩ := h.oneTree
  cases set with
  | nil => cases hmem
  | cons first rest => exact (htree utxo hmem).trans (htree first List.mem_cons_self).symm

theorem valueSum_filter {p : Utxo → Bool}
    (h : ∀ utxo ∈ notes, p utxo = false → utxo.note.value = 0) :
    valueSum (notes.filter p) = valueSum notes := by
  induction notes with
  | nil => rfl
  | cons utxo notes ih =>
    rw [List.forall_mem_cons] at h
    rw [List.filter_cons]
    split_ifs with hp
    · rw [valueSum_cons, valueSum_cons, ih h.2]
    · rw [valueSum_cons, h.1 (Bool.eq_false_of_not_eq_true hp), ih h.2]
      exact (Nat.zero_add _).symm

variable {utxos : List Utxo}

theorem valueSum_le_topValue (hsub : notes.Subperm utxos)
    (hnotes : ∀ utxo ∈ notes, utxo.note.tokenHash = tokenHash token ∧ utxo.tree = tree)
    (hlen : notes.length ≤ count) : valueSum notes ≤ topValue token utxos tree count := by
  have hkept := (hsub.filter fun utxo =>
    utxo.note.tokenHash = tokenHash token ∧ utxo.note.value ≠ 0).filter
    fun utxo => utxo.tree = tree
  have hworth : valueSum ((notes.filter fun utxo =>
      utxo.note.tokenHash = tokenHash token ∧ utxo.note.value ≠ 0).filter
      fun utxo => utxo.tree = tree) = valueSum notes := by
    rw [List.filter_filter]
    refine valueSum_filter fun utxo hmem hout => ?_
    rw [Bool.and_eq_false_iff, decide_eq_false_iff_not, decide_eq_false_iff_not] at hout
    rcases hout with htree | hspendable
    · exact absurd (hnotes utxo hmem).2 htree
    · by_contra hvalue
      exact hspendable ⟨(hnotes utxo hmem).1, hvalue⟩
  rw [← hworth]
  refine le_topValue hkept (le_trans ?_ hlen)
  exact le_trans (List.length_filter_le _ _) (List.length_filter_le _ _)

theorem sum_by_key {α : Type} (key value : α → Nat) (I : Finset Nat) (l : List α)
    (h : ∀ a ∈ l, key a ∈ I) :
    ∑ i ∈ I, ((l.filter fun a => key a = i).map value).sum = (l.map value).sum := by
  induction l with
  | nil => exact Finset.sum_eq_zero fun _ _ => rfl
  | cons a l ih =>
    rw [List.forall_mem_cons] at h
    have hsplit : ∀ i, (((a :: l).filter fun a => key a = i).map value).sum
        = (if key a = i then value a else 0)
          + ((l.filter fun a => key a = i).map value).sum := by
      intro i
      simp only [List.filter_cons, decide_eq_true_eq]
      split_ifs
      · rw [List.map_cons, List.sum_cons]
      · rw [Nat.zero_add]
    rw [Finset.sum_congr rfl fun i _ => hsplit i, Finset.sum_add_distrib, ih h.2,
      Finset.sum_ite_eq, if_pos h.1, List.map_cons, List.sum_cons]

theorem valueSum_flatten (sets : List (List Utxo)) :
    valueSum sets.flatten = (sets.map valueSum).sum := by
  induction sets with
  | nil => rfl
  | cons set sets ih => rw [List.flatten_cons, valueSum_append, ih, List.map_cons, List.sum_cons]

theorem length_flatten_le {sets : List (List Utxo)}
    (h : ∀ set ∈ sets, set.length ≤ limit) : sets.flatten.length ≤ limit * sets.length := by
  induction sets with
  | nil => exact Nat.le_refl _
  | cons set sets ih =>
    rw [List.forall_mem_cons] at h
    have hrest := ih h.2
    rw [List.flatten_cons, List.length_append, List.length_cons, Nat.mul_add_one]
    omega

/-- Disjoint sets, and one more from a given tree, are worth at most the largest
    notes of each tree, as many as the sets of the tree may have. -/
theorem noteSets_bound {fee : List Utxo} (feeTree : Nat) {sets : List (List Utxo)}
    (hfee : ∀ utxo ∈ fee, utxo.note.tokenHash = tokenHash token ∧ utxo.tree = feeTree)
    (hsets : ∀ set ∈ sets, NoteSet token limit set)
    (hdisjoint : (fee ++ sets.flatten).Subperm utxos) :
    ∃ (trees : Finset Nat) (chosen : Nat → Nat), feeTree ∈ trees ∧
      ∑ tree ∈ trees, chosen tree = sets.length ∧
      valueSum (fee ++ sets.flatten) ≤ ∑ tree ∈ trees, topValue token utxos tree
        ((if feeTree = tree then fee.length else 0) + limit * chosen tree) := by
  refine ⟨insert feeTree (sets.map setTree).toFinset,
    fun tree => (sets.filter fun set => setTree set = tree).length,
    Finset.mem_insert_self _ _, ?_, ?_⟩
  all_goals
    have hkeys : ∀ set ∈ sets, setTree set ∈ insert feeTree (sets.map setTree).toFinset :=
      fun set hmem => Finset.mem_insert_of_mem
        (List.mem_toFinset.mpr (List.mem_map_of_mem hmem))
  · have hcount := sum_by_key setTree (fun _ => 1) _ sets hkeys
    simp only [List.map_const', List.sum_replicate_nat, mul_one] at hcount
    exact hcount
  · -- What the sets of one tree are worth together.
    have hsum : valueSum (fee ++ sets.flatten)
        = ∑ tree ∈ insert feeTree (sets.map setTree).toFinset,
          valueSum ((if feeTree = tree then fee else [])
            ++ (sets.filter fun set => setTree set = tree).flatten) := by
      have hpart : ∀ tree, valueSum ((if feeTree = tree then fee else [])
            ++ (sets.filter fun set => setTree set = tree).flatten)
          = (if feeTree = tree then valueSum fee else 0)
            + ((sets.filter fun set => setTree set = tree).map valueSum).sum := by
        intro tree
        rw [valueSum_append, valueSum_flatten, apply_ite valueSum, valueSum_nil]
      rw [Finset.sum_congr rfl fun tree _ => hpart tree, Finset.sum_add_distrib,
        sum_by_key setTree valueSum _ sets hkeys, Finset.sum_ite_eq,
        if_pos (Finset.mem_insert_self _ _), valueSum_append, valueSum_flatten]
    rw [hsum]
    refine Finset.sum_le_sum fun tree _ => ?_
    refine valueSum_le_topValue (List.Subperm.trans ?_ hdisjoint) ?_ ?_
    · refine List.Sublist.subperm (List.Sublist.append ?_ (List.filter_sublist.flatten))
      split_ifs
      · exact List.Sublist.refl _
      · exact List.nil_sublist _
    · intro utxo hmem
      rcases List.mem_append.mp hmem with hmem | hmem
      · split_ifs at hmem with heq
        · rw [← heq]
          exact hfee utxo hmem
        · cases hmem
      · obtain ⟨set, hset, hmem⟩ := List.mem_flatten.mp hmem
        obtain ⟨hset, htree⟩ := List.mem_filter.mp hset
        rw [← of_decide_eq_true htree]
        exact ⟨(hsets set hset).token utxo hmem, (hsets set hset).tree_eq utxo hmem⟩
    · rw [List.length_append, apply_ite List.length, List.length_nil]
      refine Nat.add_le_add_left (length_flatten_le fun set hmem => ?_) _
      exact (hsets set (List.mem_filter.mp hmem).1).size

variable {chunks : List UtxoSelection}

theorem maxBatchSpendable_of_loop {first continuation : Nat}
    (hloop : maxBatchLoop token first continuation limit 0 utxos [] 0
      = (chunks, chunkTotal chunks))
    (hchain : Chain token continuation first utxos chunks) (hsum : valueSum utxos < 2 ^ 256) :
    (maxBatchSpendableWithLimit utxos token first continuation limit).toNat = chunkSum chunks := by
  rw [maxBatchSpendableWithLimit, maxBatchSelection, hloop]
  dsimp only
  cases chunks with
  | nil => rfl
  | cons chunk chunks =>
    exact chain_total hchain hsum

theorem chain_noteSets (h : Chain token baseOutputCount baseOutputCount utxos chunks) :
    NoteSets utxos token (maxInputsForBaseOutputs baseOutputCount) chunks.length
      (chunks.map (·.utxos)) where
  count := by rw [List.length_map]
  each := by
    intro set hmem
    obtain ⟨chunk, hchunk, rfl⟩ := List.mem_map.mp hmem
    obtain ⟨index, hget⟩ := List.mem_iff_getElem?.mp hchunk
    have hspend := chain_spendable h index chunk hget
    rw [baseOutputCountAt, ite_self] at hspend
    exact ⟨hspend.token, hspend.oneTree, hspend.inputs⟩
  disjoint := chain_subperm h

theorem chain_chunkSum {continuation first : Nat} (h : Chain token continuation first utxos chunks)
    (hsum : valueSum utxos < 2 ^ 256) :
    chunkSum chunks = valueSum (chunks.map (·.utxos)).flatten := by
  refine chunkSum_eq_valueSum fun chunk hmem => ?_
  obtain ⟨outputs, hspend⟩ := chain_mem h hmem
  exact hspend.toNat_total hsum

theorem maxBatch_isGreatest (token : Address)
    (limit : Nat) (hinputs : maxInputsForBaseOutputs baseOutputCount ≠ 0)
    (hdistinct : (utxos.map fromUtxo).Nodup)
    (hsum : valueSum utxos < 2 ^ 256) :
    IsGreatest {total | ∃ sets, NoteSets utxos token (maxInputsForBaseOutputs baseOutputCount)
        limit sets ∧ total = valueSum sets.flatten}
      (maxBatchSpendableWithLimit utxos token baseOutputCount baseOutputCount limit).toNat := by
  obtain ⟨chunks, hloop, hlen, hdraws, hrun⟩ := maxBatchLoop_greedyRun token baseOutputCount
    baseOutputCount hinputs limit 0 utxos [] 0 (ite_self _) hdistinct hsum
  rw [List.nil_append, zero_add] at hloop
  rw [maxBatchSpendable_of_loop hloop hdraws.chain hsum]
  constructor
  · have hsets := chain_noteSets hdraws.chain
    refine ⟨chunks.map (·.utxos), ⟨le_trans hsets.count hlen, hsets.each, hsets.disjoint⟩, ?_⟩
    exact chain_chunkSum hdraws.chain hsum
  · rintro total ⟨sets, hsets, rfl⟩
    obtain ⟨trees, chosen, -, hcount, hbound⟩ := noteSets_bound 0
      (fun utxo hmem => absurd hmem List.not_mem_nil) hsets.each hsets.disjoint
    refine le_trans hbound ?_
    have hblocks := hrun.bound (blockWorth_zero token baseOutputCount) trees chosen
      (le_trans (le_of_eq hcount) hsets.count)
    refine le_trans (le_of_eq (Finset.sum_congr rfl fun tree _ => ?_)) hblocks
    rw [List.length_nil, ite_self, Nat.zero_add, blockWorth]

/-- The maximum that an unshield or a send without a fee advertises is the largest
    total of at most eight disjoint sets of notes, each of at most thirteen notes
    of the token from one tree. -/
theorem maxSpendable_isGreatest (utxos : List Utxo) (token : Address)
    (hdistinct : (utxos.map fromUtxo).Nodup)
    (hsum : valueSum utxos < 2 ^ 256) :
    IsGreatest {total | ∃ sets, NoteSets utxos token 13 8 sets ∧ total = valueSum sets.flatten}
        (maxUnshieldSpendable utxos token).toNat ∧
      IsGreatest {total | ∃ sets, NoteSets utxos token 13 8 sets ∧ total = valueSum sets.flatten}
        (maxSendSpendable utxos token).toNat := by
  have hinputs : maxInputsForBaseOutputs 1 ≠ 0 := by decide
  have hgreatest := maxBatch_isGreatest token maxBatchTransactions hinputs hdistinct hsum
  exact ⟨hgreatest, hgreatest⟩

/-- Two trees with one note each: both notes can be spent. -/
theorem maxSpendable_isGreatest_twoTreeWallet :
    (twoTreeWallet.map fromUtxo).Nodup ∧ valueSum twoTreeWallet < 2 ^ 256 ∧
      maxUnshieldSpendable twoTreeWallet 1 = 10 ∧
      IsGreatest {total | ∃ sets, NoteSets twoTreeWallet 1 13 8 sets ∧
        total = valueSum sets.flatten} 10 := by
  have hmax : maxUnshieldSpendable twoTreeWallet 1 = 10 := by decide +kernel
  have hgreatest := (maxSpendable_isGreatest twoTreeWallet 1 (by decide) (by decide)).1
  exact ⟨by decide, by decide, hmax, hgreatest⟩

/-- More notes never lower the maximum, wherever they are in the wallet. -/
theorem maxSpendable_mono {utxos more : List Utxo} (token : Address) (hmore : utxos.Subperm more)
    (hdistinct : (more.map fromUtxo).Nodup)
    (hsum : valueSum more < 2 ^ 256) :
    maxUnshieldSpendable utxos token ≤ maxUnshieldSpendable more token ∧
      maxSendSpendable utxos token ≤ maxSendSpendable more token := by
  have hinputs : maxInputsForBaseOutputs 1 ≠ 0 := by decide
  obtain ⟨⟨sets, hsets, htotal⟩, -⟩ := maxBatch_isGreatest token maxBatchTransactions hinputs
    (subperm_identities_nodup hmore hdistinct) (lt_of_le_of_lt (valueSum_subperm hmore) hsum)
  have hgreatest := maxBatch_isGreatest token maxBatchTransactions hinputs hdistinct hsum
  have hle := hgreatest.2 ⟨sets, ⟨hsets.count, hsets.each, hsets.disjoint.trans hmore⟩, htotal⟩
  exact ⟨hle, hle⟩

/-- With the note of the second tree gone, no more can be spent. -/
theorem maxSpendable_mono_twoTreeWallet :
    maxUnshieldSpendable twoTreeWallet.dropLast 1 ≤ maxUnshieldSpendable twoTreeWallet 1 :=
  (maxSpendable_mono 1 (List.dropLast_sublist _).subperm (by decide) (by decide)).1

end Railgun
