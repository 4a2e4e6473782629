import Railgun.Theory.Plan
import Railgun.Theory.SearchTop

/-!
# The Maximum Is Selectable

The largest single transaction takes the largest notes of some tree, and no
transaction is worth more. The same notes are the first path of the covering
search, so asking for exactly that total finds them. The greedy loop asked for
the total of the maximum selection therefore draws the same chunks: while more
than the largest chunk is owed it spends that chunk, and when exactly the
largest chunk is owed a single transaction closes the batch.

## Theorems

* `spendable_le_max`: No transaction is worth more than the largest one.
* `bestUnshieldSelection_top_isSome`: The total of the largest notes of a tree
  can be selected.
* `bestUnshieldSelection_max_isSome`: The largest transaction's total can be
  selected.
* `maxBatchSelection_selectable`: The advertised maximum is selectable.
-/

namespace Railgun

open SelectedInputIdentity (fromUtxo)

variable {selection : UtxoSelection}

theorem isBetterMaxThan_total {best : UtxoSelection} :
    (selection.isBetterMaxThan best = true → best.total.toNat ≤ selection.total.toNat) ∧
      (selection.isBetterMaxThan best = false → selection.total.toNat ≤ best.total.toNat) := by
  have hle : (compare selection.total best.total).isLE = true ↔ selection.total ≤ best.total :=
    compare_isLE_iff _ _
  have hge : (compare best.total selection.total).isLE = true ↔ best.total ≤ selection.total :=
    compare_isLE_iff _ _
  rw [← Std.OrientedCmp.isGE_iff_isLE] at hge
  rw [UtxoSelection.isBetterMaxThan]
  cases hcmp : compare selection.total best.total with
  | lt =>
    rw [hcmp] at hle
    exact ⟨fun h => absurd h Bool.false_ne_true, fun _ => hle.mp rfl⟩
  | gt =>
    rw [hcmp] at hge
    refine ⟨fun _ => hge.mp rfl, fun h => absurd h ?_⟩
    simp only [Bool.true_eq_false, not_false_eq_true]
  | eq =>
    rw [hcmp] at hle hge
    exact ⟨fun _ => hge.mp rfl, fun _ => hle.mp rfl⟩

variable {pool : List Utxo} {token : Address} {baseOutputCount : Nat}

theorem spendable_group (h : Spendable pool token baseOutputCount selection) :
    ∃ group ∈ treeGroups pool token, selection.utxos.Subperm group := by
  rcases h.oneTree with ⟨tree, htree⟩
  have hkept : selection.utxos.Subperm
      ((tokenNotes pool token).filter (fun utxo => utxo.tree = tree)) := by
    have hfilter := (h.subperm.filter (fun utxo =>
      utxo.note.tokenHash = tokenHash token ∧ utxo.note.value ≠ 0)).filter
      (fun utxo => utxo.tree = tree)
    rw [List.filter_eq_self.mpr, List.filter_eq_self.mpr] at hfilter
    · exact hfilter
    · intro utxo hmem
      exact decide_eq_true ⟨h.token utxo hmem, h.nonzero utxo hmem⟩
    · intro utxo hmem
      rw [List.mem_filter] at hmem
      exact decide_eq_true (htree utxo hmem.1)
  refine ⟨_, mem_treeGroups.mpr ⟨tree, ?_, rfl⟩, hkept⟩
  intro hnil
  rw [hnil, List.subperm_nil] at hkept
  exact h.nonempty hkept

variable {group : List Utxo}

theorem valueSum_group_le
    (h : group ∈ treeGroups pool token) :
    valueSum (sortSearchCandidates group) ≤ valueSum pool := by
  rw [valueSum_perm (sortSearchCandidates_perm group)]
  exact valueSum_sublist (treeGroup_sublist h)

/-- No choice of so many notes is worth more than the largest. -/
theorem subperm_le_top {chosen : List Utxo} {k : Nat} (hsub : chosen.Subperm group)
    (hlen : chosen.length ≤ k) :
    valueSum chosen ≤ valueSum ((sortSearchCandidates group).take k) := by
  rcases hsub.trans (sortSearchCandidates_perm group).symm.subperm with ⟨sorted, hperm, hsorted⟩
  rw [← valueSum_perm hperm]
  refine valueSum_le_take (sortSearchCandidates_descending group) hsorted ?_
  rw [hperm.length_eq]
  exact hlen

theorem toNat_noteTotal_take (hsum : valueSum pool < 2 ^ 256)
    (hgroup : group ∈ treeGroups pool token) (count : Nat) :
    (noteTotal ((sortSearchCandidates group).take count)).toNat
      = valueSum ((sortSearchCandidates group).take count) :=
  toNat_noteTotal (lt_of_le_of_lt
    (le_trans (valueSum_sublist (List.take_sublist _ _)) (valueSum_group_le hgroup)) hsum)

/-- No transaction spends more than the largest selection. -/
theorem spendable_le_max
    {largest : UtxoSelection} (hsum : valueSum pool < 2 ^ 256)
    (h : Spendable pool token baseOutputCount selection)
    (hmax : maxUnshieldSelectionWithOutputCount pool token baseOutputCount = some largest) :
    selection.total.toNat ≤ largest.total.toNat := by
  rcases spendable_group h with ⟨group, hgroup, hsub⟩
  have htop := subperm_le_top hsub h.inputs
  have hbound := toNat_noteTotal_take hsum hgroup (maxInputsForBaseOutputs baseOutputCount)
  have hworth := h.toNat_total hsum
  have hpositive : 0 < selection.total.toNat :=
    BitVec.toNat_pos_of_ne_zero (h.total_ne_zero hsum)
  -- The group offers its largest notes, which are worth at least as much.
  rw [maxUnshieldSelectionWithOutputCount] at hmax
  split at hmax
  · cases hmax
  have hbest := (foldl_keepBest_measure UtxoSelection.isBetterMaxThan (·.total.toNat)
    (fun _ _ => isBetterMaxThan_total.1) (fun _ _ => isBetterMaxThan_total.2) _ _ _ _ hmax).2
    group hgroup
  have hle := hbest _ (if_neg (U256.ne_zero_of_toNat_pos (by omega)))
  dsimp only at hle
  omega

variable {inputCount : Nat}

theorem bestUnshieldSelection_isSome_of_search
    {amount : U256} (hgroup : group ∈ treeGroups pool token)
    (hpositive : 0 < inputCount) (hinputs : inputCount ≤ maxInputsForBaseOutputs baseOutputCount)
    (hrun : (SelectionSearch.run
      { candidates := sortSearchCandidates group, amount := amount,
        targetCount := inputCount, baseOutputCount := baseOutputCount }).isSome = true) :
    (bestUnshieldSelection pool token amount baseOutputCount).isSome = true := by
  refine foldl_keepBest_isSome _ _ _ _ ⟨group, hgroup, ?_⟩
  rw [bestTreeSelection, List.findSome?_isSome_iff]
  refine ⟨inputCount, ?_, hrun⟩
  rw [List.mem_range']
  exact ⟨inputCount - 1, by omega, by omega⟩

theorem maxInputs_signature (hpositive : 0 < inputCount)
    (hinputs : inputCount ≤ maxInputsForBaseOutputs baseOutputCount) :
    2 + inputCount + baseOutputCount ≤ maxSignatureInputs := by
  rw [maxInputsForBaseOutputs_eq] at hinputs
  omega

theorem bestUnshieldSelection_top_isSome
    {amount : U256} (hsum : valueSum pool < 2 ^ 256)
    (hgroup : group ∈ treeGroups pool token) (hpositive : 0 < inputCount)
    (hinputs : inputCount ≤ maxInputsForBaseOutputs baseOutputCount)
    (hamount : amount = noteTotal ((sortSearchCandidates group).take inputCount)) :
    (bestUnshieldSelection pool token amount baseOutputCount).isSome = true := by
  have hbounded : valueSum (sortSearchCandidates group) < 2 ^ 256 :=
    lt_of_le_of_lt (valueSum_group_le hgroup) hsum
  have hnonempty : 0 < (sortSearchCandidates group).length := by
    obtain ⟨_, hne, _⟩ := mem_treeGroups.mp hgroup
    rw [(sortSearchCandidates_perm group).length_eq]
    exact List.length_pos_iff.mpr hne
  -- A small tree is spent whole.
  obtain ⟨count, hcount⟩ : ∃ count, count = min inputCount (sortSearchCandidates group).length :=
    ⟨_, rfl⟩
  have hworth : amount.toNat = valueSum ((sortSearchCandidates group).take count) := by
    rw [hamount, hcount, ← List.take_eq_take_min]
    exact toNat_noteTotal_take hsum hgroup inputCount
  have hcountPos : 0 < count := by omega
  have hcountInputs : count ≤ maxInputsForBaseOutputs baseOutputCount := by omega
  have hcircuit := le_trans hcountInputs (maxInputs_le_circuit baseOutputCount)
  refine bestUnshieldSelection_isSome_of_search hgroup hcountPos hcountInputs ?_
  exact SelectionSearch.run_isSome_of_top
    ⟨sortSearchCandidates_descending group, hbounded,
      show count ≤ (sortSearchCandidates group).length by omega, Nat.le_of_eq hworth,
      fun _ => hworth, maxInputs_signature hcountPos hcountInputs⟩
    (le_trans hcircuit (by decide))

theorem bestUnshieldSelection_max_isSome {largest : UtxoSelection} (hsum : valueSum pool < 2 ^ 256)
    (hmax : maxUnshieldSelectionWithOutputCount pool token baseOutputCount = some largest) :
    (bestUnshieldSelection pool token largest.total baseOutputCount).isSome = true := by
  rcases maxUnshieldSelection_mem hmax with ⟨group, hgroup, htree⟩
  rcases maxTreeSelection_eq htree with ⟨_, htotal, _⟩
  have hspend := (maxUnshieldSelection_spec hmax).1
  have hpositive : 0 < largest.utxos.length := List.length_pos_iff.mpr hspend.nonempty
  exact bestUnshieldSelection_top_isSome hsum hgroup (lt_of_lt_of_le hpositive hspend.inputs)
    (le_refl _) htotal

theorem valueSum_removeSelected_lt (hsum : valueSum pool < 2 ^ 256)
    (selected : List Utxo) : valueSum (removeSelectedUtxos pool selected) < 2 ^ 256 :=
  lt_of_le_of_lt (valueSum_sublist (removeSelectedUtxos_sublist pool selected)) hsum

/-- Asked for exactly what the maximum selection draws, the greedy loop
    succeeds with that total. -/
theorem greedyLoop_draws {drawn : List UtxoSelection} (first index : Nat)
    {continuation left : Nat} {owed : U256} (hne : drawn ≠ []) (hlen : drawn.length ≤ left)
    (hsum : valueSum pool < 2 ^ 256)
    (hdraws : Draws token continuation (baseOutputCountAt first continuation index) pool drawn)
    (howed : owed.toNat = chunkSum drawn) (chunks : List UtxoSelection) (total : U256) :
    ∃ selection, greedyLoop token first continuation left index pool owed chunks total
      = some selection ∧ selection.total = total + owed := by
  induction drawn generalizing left index pool owed chunks total with
  | nil => exact absurd rfl hne
  | cons chunk rest ih =>
    rw [chunkSum_cons] at howed
    rw [List.length_cons] at hlen
    obtain ⟨left, rfl⟩ : ∃ m, left = m + 1 := ⟨left - 1, by omega⟩
    rw [greedyLoop_succ]
    cases hdraws with
    | cons hmax hrest =>
      cases hbest : bestUnshieldSelection pool token owed
          (baseOutputCountAt first continuation index) with
      | some closing =>
        -- A closing transaction is worth no more than the first chunk.
        rcases bestUnshieldSelection_spec hbest with ⟨hspend, hcovers⟩
        have hle := spendable_le_max hsum hspend hmax
        have howedLe := hcovers.owed_le
        rw [BitVec.le_def] at howedLe
        refine ⟨_, rfl, ?_⟩
        rw [BitVec.eq_of_toNat_eq (show closing.total.toNat = owed.toNat by omega)]
      | none =>
        cases rest with
        | nil =>
          have hfound := bestUnshieldSelection_max_isSome hsum hmax
          rw [← BitVec.eq_of_toNat_eq howed, hbest] at hfound
          cases hfound
        | cons next rest =>
          have hnext : 0 < chunkSum (next :: rest) := by
            rw [chunkSum_cons]
            cases hrest with
            | cons hnextMax _ =>
              have hpositive := BitVec.toNat_pos_of_ne_zero
                (maxUnshieldSelection_spec hnextMax).2
              omega
          have hlt : chunk.total < owed := by
            rw [BitVec.lt_def]
            omega
          have howedRest : (owed - chunk.total).toNat = chunkSum (next :: rest) := by
            rw [BitVec.toNat_sub_of_le (BitVec.le_of_lt hlt)]
            omega
          rw [splitChunk_of_lt hmax hlt]
          rw [← baseOutputCountAt_succ first continuation index] at hrest
          rcases ih (index + 1) (List.cons_ne_nil _ _) (Nat.le_of_succ_le_succ hlen)
            (valueSum_removeSelected_lt hsum _) hrest howedRest (chunks ++ [chunk])
            (total + chunk.total) with ⟨selection, hselection, hselectionTotal⟩
          refine ⟨selection, hselection, ?_⟩
          rw [hselectionTotal, add_assoc, add_sub_cancel]

/-- The total of the maximum selection can be selected, exactly and without
    change, whatever the size of the trees. When the notes are told apart by their
    places, what is selected is a plan that can be built. -/
theorem maxBatchSelection_selectable (utxos : List Utxo) (token : Address) (spendUpTo : Bool)
    (first continuation limit : Nat) (maximum : BatchUtxoSelection)
    (hsum : valueSum utxos < 2 ^ 256)
    (hmax : maxBatchSelection utxos token first continuation limit = some maximum) :
    ∃ selection, selectBatchedUtxosWithLimit utxos token maximum.total spendUpTo first
        continuation limit = .ok selection ∧ selection.total = maximum.total ∧
      ((utxos.map fromUtxo).Nodup → SpendablePlan utxos token maximum.total spendUpTo first
        continuation limit selection) := by
  rcases maxBatchSelection_draws hmax with ⟨hne, htotal, hlen, hdraws⟩
  suffices hselected : ∃ selection, selectBatchedUtxosWithLimit utxos token maximum.total spendUpTo
      first continuation limit = .ok selection ∧ selection.total = maximum.total by
    obtain ⟨selection, hok, hsame⟩ := hselected
    exact ⟨selection, hok, hsame, fun hdistinct => spendablePlan_of_selected hdistinct hsum
      (selectBatchedUtxosWithLimit_selected ((List.length_pos_iff.mpr hne).trans_le hlen) hok)⟩
  have hworth : maximum.total.toNat = chunkSum maximum.chunks := by
    rw [htotal]
    exact chain_total hdraws.chain hsum
  have hnonzero : maximum.total ≠ 0 := by
    intro hzero
    cases hchunks : maximum.chunks with
    | nil => exact hne hchunks
    | cons chunk rest =>
      rw [hchunks] at hdraws hworth
      cases hdraws with
      | cons hlargest _ =>
        have hpositive := BitVec.toNat_pos_of_ne_zero (maxUnshieldSelection_spec hlargest).2
        rw [chunkSum_cons, hzero] at hworth
        have hz : (0 : U256).toNat = 0 := rfl
        omega
  rw [selectBatchedUtxosWithLimit, if_neg hnonzero]
  -- The loop is asked for the same total, whether or not a single transaction
  -- already covers it.
  rcases greedyLoop_draws first 0 hne hlen hsum hdraws hworth [] 0 with
    ⟨selection, hselection, hselectionTotal⟩
  rw [zero_add] at hselectionTotal
  cases hbest : bestUnshieldSelection utxos token maximum.total first with
  | none =>
    rw [greedyBatchedSelection, hselection]
    exact ⟨selection, rfl, hselectionTotal⟩
  | some closing =>
    refine ⟨{ chunks := [closing], total := closing.total }, rfl, ?_⟩
    obtain ⟨left, rfl⟩ : ∃ m, limit = m + 1 := by
      have hpositive := List.length_pos_iff.mpr hne
      exact ⟨limit - 1, by omega⟩
    have hfirst : baseOutputCountAt first continuation 0 = first := rfl
    rw [greedyLoop_succ, hfirst, hbest] at hselection
    simp only [Option.some.injEq] at hselection
    rw [← hselection, zero_add] at hselectionTotal
    exact hselectionTotal

/-- Both notes are the maximum, and they are selected. -/
theorem maxBatchSelection_selectable_twoTreeWallet :
    ∃ maximum selection, maxBatchSelection twoTreeWallet 1 2 1 8 = some maximum ∧
      maximum.total = 10 ∧
      selectBatchedUtxosWithLimit twoTreeWallet 1 maximum.total false 2 1 8 = .ok selection ∧
      selection.total = maximum.total ∧
      SpendablePlan twoTreeWallet 1 maximum.total false 2 1 8 selection := by
  have hmax : (maxBatchSelection twoTreeWallet 1 2 1 8).map (·.total) = some 10 := by
    decide +kernel
  rcases Option.map_eq_some_iff.mp hmax with ⟨maximum, hsome, htotal⟩
  rcases maxBatchSelection_selectable twoTreeWallet 1 false 2 1 8 maximum (by decide) hsome with
    ⟨selection, hselection, hsame, hplan⟩
  exact ⟨maximum, selection, hsome, htotal, hselection, hsame, hplan (by decide)⟩

end Railgun
