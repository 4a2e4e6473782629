import Railgun.Theory.Selectable

/-!
# No False Shortage

Whatever fewer transactions can spend at most, the selection can split. The
greedy loop spends the chunks of the maximum selection until what is owed is no
more than the next of them. If no single transaction covers it then, the circuit
is to blame: the largest notes of some tree, as many as the circuit allows, are
worth too much and leave no room for change, and one note less is worth too
little.

One more transaction is enough. The largest partial selection is worth at least
those notes without the last, so less than the last of them is missing, and one
of them is left to pay for it.

## Main definitions

* `Reached`: A partial search has found so much.

## Theorems

* `first_path_reached`: A partial search finds the largest notes, however soon
  it gives up.
* `splitChunk_closes`: After a partial selection, one note covers the rest.
* `greedyLoop_below_maximum`: The greedy loop splits whatever the maximum
  selection of fewer transactions is worth.
* `amounts_below_maximum_selectable`: There is no false shortage.
-/

namespace Railgun

open SelectedInputIdentity (fromUtxo)

instance : Std.TransCmp selectionMaxOrder := by
  rw [selectionMaxOrder]
  have hdescending : Std.TransCmp (fun a b : UtxoSelection => compare b.total a.total) :=
    @Std.TransCmp.opposite _ (compareOn UtxoSelection.total) inferInstance
  infer_instance

theorem selectionMaxOrder_isLE {a b : UtxoSelection} (h : (selectionMaxOrder a b).isLE = true) :
    b.total ≤ a.total := by
  rw [selectionMaxOrder, compareLex, Ordering.isLE_then_iff_and] at h
  exact (compare_isLE_iff _ _).mp h.1

theorem sort_head_max {selections : List UtxoSelection} {selection : UtxoSelection}
    (h : selection ∈ selections) :
    ∃ head, (sortBy selectionMaxOrder selections).head? = some head ∧
      selection.total ≤ head.total := by
  have hmem := (sortBy_perm selectionMaxOrder selections).mem_iff.mpr h
  have hsorted := sortBy_pairwise selectionMaxOrder selections
  obtain ⟨head, tail, hsort⟩ := List.exists_cons_of_ne_nil (List.ne_nil_of_mem hmem)
  rw [hsort] at hmem hsorted ⊢
  refine ⟨head, rfl, ?_⟩
  rcases List.mem_cons.mp hmem with rfl | htail
  · exact BitVec.le_refl _
  · exact selectionMaxOrder_isLE ((List.pairwise_cons.mp hsorted).1 selection htail)

theorem sort_take_max {selections : List UtxoSelection} {selection : UtxoSelection} {limit : Nat}
    (hlimit : limit ≠ 0) (h : selection ∈ selections) :
    ∃ head ∈ (sortBy selectionMaxOrder selections).take limit, selection.total ≤ head.total := by
  obtain ⟨head, hhead, hmax⟩ := sort_head_max h
  refine ⟨head, List.mem_of_head? ?_, hmax⟩
  rw [List.head?_take, if_neg hlimit, hhead]

theorem length_pushUniqueSelectionCandidate_le (candidates : List UtxoSelection)
    (candidate : UtxoSelection) (limit : Nat) :
    (pushUniqueSelectionCandidate candidates candidate limit).length ≤ candidates.length + 1 := by
  rw [pushUniqueSelectionCandidate]
  split_ifs
  · exact Nat.le_succ _
  · exact Nat.le_succ _
  · refine le_trans (List.length_take_le' _ _) ?_
    rw [(sortBy_perm _ _).length_eq, List.length_append, List.length_singleton]

namespace PartialSelectionSearch

/-- Something worth at least so much has been found. -/
def Reached (worth : Nat) (st : State) : Prop :=
  ∃ selection ∈ st.selections, worth ≤ selection.total.toNat

variable {s : PartialSelectionSearch} {st : State}

theorem Reached.record {worth : Nat}
    (h : Reached worth st) (total : U256) (selected : List Nat) :
    Reached worth (s.record total selected st) := by
  obtain ⟨selection, hmem, hworth⟩ := h
  rw [Reached, PartialSelectionSearch.record]
  rw [pushUniqueSelectionCandidate]
  split_ifs with hfull hlimit
  · exact ⟨selection, hmem, hworth⟩
  · exact ⟨selection, hmem, hworth⟩
  · obtain ⟨head, hhead, hmax⟩ := sort_take_max (fun hzero => hlimit (Or.inl hzero))
      (List.mem_append_left _ hmem)
    exact ⟨head, hhead, le_trans hworth hmax⟩

variable {total : U256} {selected : List Nat}

theorem reached_record (hlimit : st.selections.length < s.selectionLimit)
    (hlonger : ∀ selection ∈ st.selections,
      selection.utxos.length < (pick s.candidates selected).length) :
    Reached total.toNat (s.record total selected st) := by
  rw [Reached, PartialSelectionSearch.record]
  rw [pushUniqueSelectionCandidate, if_neg (fun h => absurd h.1 (by omega)), if_neg]
  · exact sort_take_max (show s.selectionLimit ≠ 0 by omega)
      (List.mem_append_right st.selections (List.mem_singleton_self _))
  · -- Positions of lists of different lengths differ.
    rintro (hzero | hany)
    · omega
    · obtain ⟨existing, hmem, hkey⟩ := List.any_eq_true.mp hany
      have hlength := congrArg List.length (of_decide_eq_true hkey)
      rw [UtxoSelection.positionKey, UtxoSelection.positionKey, List.length_map, List.length_map,
        (normalizeSelection_perm _).length_eq] at hlength
      have hlonger := hlonger existing hmem
      omega

theorem search_reached {worth slots start : Nat} (hp : s.Path slots start total selected)
    (h : Reached worth st) : Reached worth (s.search slots start total selected st) :=
  search_preserves s (Reached worth) (fun _ hst => hst)
    (fun _ _ _ _ _ _ _ _ hst => hst.record _ _) slots start total selected st hp h

-- By induction on the slots. The first path takes the largest notes one by one,
-- and each longer list is recorded before the search descends, so the notes are
-- found with as many visits.
theorem first_path_reached {depth : Nat}
    (hsum : valueSum s.candidates < 2 ^ 256) (henough : depth ≤ s.candidates.length)
    (hdepth : depth ≤ s.maxInputCount) (hlimit : depth < s.selectionLimit)
    (hmany : 1 < s.selectionLimit)
    (hbelow : valueSum (s.candidates.take depth) < s.amount.toNat)
    {slots start : Nat} (hp : s.Path slots start total selected)
    (hstart : start + slots = s.maxInputCount) (hlt : start < depth)
    (hlength : st.selections.length ≤ start)
    (hshort : ∀ selection ∈ st.selections, selection.utxos.length ≤ start)
    (hvisits : depth - start ≤ st.visitsLeft) :
    Reached (valueSum (s.candidates.take depth)) (s.search slots start total selected st) := by
  induction slots generalizing start total selected st with
  | zero => omega
  | succ slots ih =>
    have hstep := hp.step (le_refl start) (by omega)
    have hpick := hstep.top (by omega) (by omega)
    have hworth := hstep.toNat_total hsum
    rw [hpick] at hworth
    have hle : valueSum (s.candidates.take (start + 1)) ≤ valueSum (s.candidates.take depth) :=
      valueSum_sublist (List.take_sublist_take_left (show start + 1 ≤ depth by omega))
    -- No pruning rule applies to a node of the first path.
    rw [search, if_neg (by omega), if_neg (fun h => absurd h.1 (by omega)),
      if_neg (fun h => absurd h.2.1 (by omega))]
    obtain ⟨count, hcount⟩ : ∃ count, s.candidates.length - start = count + 1 :=
      ⟨s.candidates.length - start - 1, by omega⟩
    rw [hcount, List.range'_succ, searchLoop, if_neg (by omega)]
    rw [if_neg (by rw [BitVec.le_def, hworth]; omega)]
    refine searchLoop_preserves s (Reached _) total selected _ (fun _ hst => hst) _ _ ?_ ?_
    · intro index hmem _ st' hst'
      rcases List.mem_range'.mp hmem with ⟨i, hi, hindex⟩
      exact search_reached (hp.step (by omega) (by omega)) (hst'.record _ _)
    have hlonger : ∀ selection ∈ st.selections,
        selection.utxos.length < (pick s.candidates (selected ++ [start])).length := by
      intro selection hmem
      have hselection := hshort selection hmem
      rw [hpick, List.length_take, Nat.min_eq_left (by omega)]
      omega
    rcases Nat.lt_or_ge (start + 1) depth with hmore | hdone
    · refine ih hstep (by omega) hmore ?_ ?_ ?_
      · exact le_trans (length_pushUniqueSelectionCandidate_le _ _ _) (by dsimp only; omega)
      · intro selection hmem
        rcases mem_pushUniqueSelectionCandidate hmem with hold | rfl
        · exact le_trans (hshort selection hold) (Nat.le_succ _)
        · rw [(normalizeSelection_perm _).length_eq, hpick]
          exact List.length_take_le _ _
      · show depth - (start + 1) ≤ st.visitsLeft - 1
        omega
    · have hroom : { st with visitsLeft := st.visitsLeft - 1 }.selections.length
          < s.selectionLimit := by
        dsimp only
        omega
      have hreached : Reached (total + valueAt s.candidates start).toNat _ :=
        reached_record hroom hlonger
      rw [hworth, show start + 1 = depth by omega] at hreached
      exact search_reached hstep hreached

theorem run_reached {depth : Nat}
    (hsum : valueSum s.candidates < 2 ^ 256) (hpositive : 0 < depth)
    (henough : depth ≤ s.candidates.length) (hdepth : depth ≤ s.maxInputCount)
    (hlimit : depth < s.selectionLimit) (hmany : 1 < s.selectionLimit)
    (hvisits : depth ≤ maxSelectionSearchVisits)
    (hbelow : valueSum (s.candidates.take depth) < s.amount.toNat) :
    Reached (valueSum (s.candidates.take depth)) s.run :=
  first_path_reached hsum henough hdepth hlimit hmany hbelow (.start _ _) (Nat.zero_add _)
    hpositive (Nat.le_refl 0) nofun hvisits

end PartialSelectionSearch

section Split

variable {pool group : List Utxo} {token : Address} {baseOutputCount : Nat}

variable {amount : U256}

/-- The best partial selection is worth at least the largest notes of any tree
    that stay below the amount. -/
theorem bestPartialSelection_reaches {depth : Nat}
    (hsum : valueSum pool < 2 ^ 256) (hgroup : group ∈ treeGroups pool token)
    (hpositive : 0 < depth) (henough : depth ≤ group.length)
    (hdepth : depth ≤ maxInputsForBaseOutputs baseOutputCount)
    (hbelow : valueSum ((sortSearchCandidates group).take depth) < amount.toNat)
    (hworth : 0 < valueSum ((sortSearchCandidates group).take depth)) :
    ∃ selection, bestPartialSelectionBelowAmount pool token amount baseOutputCount
        = some selection ∧
      valueSum ((sortSearchCandidates group).take depth) ≤ selection.total.toNat := by
  have hcircuit := le_trans hdepth (maxInputs_le_circuit baseOutputCount)
  have hsmall : depth ≤ 13 := hcircuit
  have hbounded : valueSum (sortSearchCandidates group) < 2 ^ 256 :=
    lt_of_le_of_lt (valueSum_group_le hgroup) hsum
  obtain ⟨found, hfound, hfoundWorth⟩ := PartialSelectionSearch.run_reached
    (s := ⟨sortSearchCandidates group, amount, maxInputsForBaseOutputs baseOutputCount,
      maxPartialSelectionCandidatesPerTree⟩) hbounded hpositive
    (by rw [(sortSearchCandidates_perm group).length_eq]; exact henough) hdepth
    (lt_of_le_of_lt hsmall (show 13 < maxPartialSelectionCandidatesPerTree by decide))
    (show 1 < maxPartialSelectionCandidatesPerTree by decide) (le_trans hsmall (by decide)) hbelow
  have hmem : found ∈ (treeGroups pool token).flatMap fun candidates =>
      (PartialSelectionSearch.run
        { candidates := sortSearchCandidates candidates, amount := amount,
          maxInputCount := maxInputsForBaseOutputs baseOutputCount,
          selectionLimit := maxPartialSelectionCandidatesPerTree }).selections :=
    List.mem_flatMap.mpr ⟨group, hgroup, hfound⟩
  rw [bestPartialSelectionBelowAmount, partialTransactionSelectionCandidates, if_neg, if_neg]
  · rw [List.head?_take, if_neg (by decide)]
    obtain ⟨head, hhead, hmax⟩ := sort_head_max hmem
    exact ⟨head, hhead, le_trans hfoundWorth hmax⟩
  · omega
  · rw [BitVec.le_def]
    have hone : (1 : U256).toNat = 1 := rfl
    omega

theorem bestUnshieldSelection_change_isSome {count : Nat}
    (hsum : valueSum pool < 2 ^ 256) (hgroup : group ∈ treeGroups pool token)
    (hpositive : 0 < count) (henough : count ≤ group.length)
    (hinputs : count < maxInputsForBaseOutputs baseOutputCount)
    (hcovers : amount.toNat ≤ valueSum ((sortSearchCandidates group).take count)) :
    (bestUnshieldSelection pool token amount baseOutputCount).isSome = true := by
  have hroom := maxInputs_signature (Nat.succ_pos count) hinputs
  have hcircuit := le_trans (Nat.le_of_lt hinputs) (maxInputs_le_circuit baseOutputCount)
  refine bestUnshieldSelection_isSome_of_search hgroup hpositive (Nat.le_of_lt hinputs) ?_
  refine SelectionSearch.run_isSome_of_top ⟨sortSearchCandidates_descending group,
    lt_of_le_of_lt (valueSum_group_le hgroup) hsum, ?_, hcovers, ?_, by dsimp only; omega⟩
    (le_trans hcircuit (by decide))
  · rw [(sortSearchCandidates_perm group).length_eq]
    exact henough
  · intro hexact
    have hexact := of_decide_eq_true hexact
    dsimp only at hexact
    omega

/-- When the largest transaction is worth enough and yet no transaction covers
    what is owed, its tree has as many notes as the circuit allows, they are
    worth more, and without the smallest they are worth less. -/
theorem largest_without_change {owed : U256} {largest : UtxoSelection}
    (hsum : valueSum pool < 2 ^ 256)
    (hmax : maxUnshieldSelectionWithOutputCount pool token baseOutputCount = some largest)
    (hle : owed ≤ largest.total)
    (hnone : bestUnshieldSelection pool token owed baseOutputCount = none) :
    ∃ group ∈ treeGroups pool token,
      maxInputsForBaseOutputs baseOutputCount ≤ group.length ∧
      owed.toNat < valueSum ((sortSearchCandidates group).take
        (maxInputsForBaseOutputs baseOutputCount)) ∧
      ∀ count, 0 < count → count < maxInputsForBaseOutputs baseOutputCount →
        valueSum ((sortSearchCandidates group).take count) < owed.toNat := by
  obtain ⟨group, hgroup, htree⟩ := maxUnshieldSelection_mem hmax
  obtain ⟨-, htotal, -⟩ := maxTreeSelection_eq htree
  have hlength := (sortSearchCandidates_perm group).length_eq
  have hgroupPos : 0 < group.length := by
    obtain ⟨_, hne, _⟩ := mem_treeGroups.mp hgroup
    exact List.length_pos_iff.mpr hne
  have hlargest := toNat_noteTotal_take hsum hgroup (maxInputsForBaseOutputs baseOutputCount)
  rw [← htotal] at hlargest
  rw [BitVec.le_def, hlargest] at hle
  have hmissing : ∀ count, 0 < count → count < maxInputsForBaseOutputs baseOutputCount →
      count ≤ group.length →
      valueSum ((sortSearchCandidates group).take count) < owed.toNat := by
    intro count hpositive hinputs henough
    by_contra hcovers
    have hsome := bestUnshieldSelection_change_isSome hsum hgroup hpositive henough hinputs
      (Nat.le_of_not_lt hcovers)
    rw [hnone] at hsome
    exact absurd hsome (by decide)
  -- A tree with fewer notes would be spent whole, with room for change.
  have hlong : maxInputsForBaseOutputs baseOutputCount ≤ group.length := by
    by_contra hfew
    have hwhole := hmissing group.length hgroupPos (by omega) le_rfl
    rw [List.take_of_length_le (by omega)] at hwhole hle
    omega
  refine ⟨group, hgroup, hlong, ?_, fun count hpositive hinputs =>
    hmissing count hpositive hinputs (by omega)⟩
  rcases Nat.lt_or_eq_of_le hle with hlt | heq
  · exact hlt
  · -- The whole amount would be found exactly.
    have hsome := bestUnshieldSelection_max_isSome hsum hmax
    rw [← BitVec.eq_of_toNat_eq (heq.trans hlargest.symm), hnone] at hsome
    exact absurd hsome (by decide)

theorem mem_removeSelectedUtxos {chosen : List Utxo} {utxo : Utxo}
    (hdistinct : (pool.map fromUtxo).Nodup) (hchosen : ∀ u ∈ chosen, u ∈ pool)
    (hmem : utxo ∈ pool) (hleft : utxo ∉ chosen) : utxo ∈ removeSelectedUtxos pool chosen := by
  rw [removeSelectedUtxos, List.mem_filter]
  refine ⟨hmem, ?_⟩
  rw [Bool.not_eq_true', List.any_eq_false]
  intro other hother hsame
  rw [decide_eq_true_eq] at hsame
  have hidentity : fromUtxo other = fromUtxo utxo := by
    rw [fromUtxo, fromUtxo, hsame.1, hsame.2]
  have heq := List.inj_on_of_nodup_map hdistinct (hchosen other hother) hmem hidentity
  exact hleft (heq ▸ hother)

theorem bestUnshieldSelection_note_isSome {utxo : Utxo}
    (hsum : valueSum pool < 2 ^ 256) (hutxo : utxo ∈ tokenNotes pool token)
    (hinputs : 1 < maxInputsForBaseOutputs baseOutputCount)
    (hcovers : amount.toNat ≤ utxo.note.value.toNat) :
    (bestUnshieldSelection pool token amount baseOutputCount).isSome = true := by
  obtain ⟨group, hgroup, hmem⟩ := treeGroups_complete hutxo
  have htop := subperm_le_top (List.singleton_subperm_iff.mpr hmem) (le_refl 1)
  exact bestUnshieldSelection_change_isSome hsum hgroup Nat.one_pos
    (List.length_pos_of_mem hmem) hinputs (le_trans hcovers htop)

theorem splitChunk_closes {owed : U256} {largest : UtxoSelection} {continuation : Nat}
    (hsum : valueSum pool < 2 ^ 256)
    (hdistinct : (pool.map fromUtxo).Nodup)
    (hinputs : 1 < maxInputsForBaseOutputs baseOutputCount)
    (hcontinuation : 1 < maxInputsForBaseOutputs continuation)
    (hmax : maxUnshieldSelectionWithOutputCount pool token baseOutputCount = some largest)
    (hle : owed ≤ largest.total)
    (hnone : bestUnshieldSelection pool token owed baseOutputCount = none) :
    ∃ chunk, splitChunk pool token owed baseOutputCount = some chunk ∧
      (bestUnshieldSelection (removeSelectedUtxos pool chunk.utxos) token (owed - chunk.total)
        continuation).isSome = true := by
  obtain ⟨group, hgroup, hlong, hmore, hless⟩ := largest_without_change hsum hmax hle hnone
  obtain ⟨depth, hdepth⟩ : ∃ depth, maxInputsForBaseOutputs baseOutputCount = depth + 1 :=
    ⟨maxInputsForBaseOutputs baseOutputCount - 1, by omega⟩
  rw [hdepth] at hlong hmore
  have hlength := (sortSearchCandidates_perm group).length_eq
  have hbelow := hless depth (by omega) (by omega)
  have hlast : depth < (sortSearchCandidates group).length := by omega
  have hnotes : ∀ utxo ∈ sortSearchCandidates group, utxo ∈ tokenNotes pool token := by
    intro utxo hmem
    obtain ⟨tree, -, hfilter⟩ := mem_treeGroups.mp hgroup
    rw [(sortSearchCandidates_perm group).mem_iff, hfilter] at hmem
    exact (List.mem_filter.mp hmem).1
  have hworth : 0 < valueSum ((sortSearchCandidates group).take depth) := by
    have hfirst : (sortSearchCandidates group)[0] ∈ (sortSearchCandidates group).take depth :=
      List.mem_take_iff_getElem.mpr ⟨0, by omega, rfl⟩
    have hle := valueSum_subperm (List.singleton_subperm_iff.mpr hfirst)
    rw [valueSum_cons, valueSum_nil, Nat.add_zero] at hle
    have hvalue := BitVec.toNat_pos_of_ne_zero
      (mem_tokenNotes.mp (hnotes _ (List.getElem_mem (show 0 < _ by omega)))).2.2
    omega
  obtain ⟨chunk, hchunk, hreach⟩ := bestPartialSelection_reaches hsum hgroup (by omega)
    (by omega) (show depth ≤ maxInputsForBaseOutputs baseOutputCount by omega) hbelow hworth
  obtain ⟨hspend, hchunkBelow⟩ := bestPartialSelectionBelowAmount_spec hchunk
  refine ⟨chunk, ?_, ?_⟩
  · rw [splitChunk, hmax]
    dsimp only
    rw [if_neg (BitVec.not_lt.mpr hle), hchunk]
  -- The chunk is worth less than the notes, so it does not hold all of them.
  obtain ⟨utxo, htop, hleft⟩ : ∃ utxo ∈ (sortSearchCandidates group).take (depth + 1),
      utxo ∉ chunk.utxos := by
    by_contra hall
    push Not at hall
    have hnodup : ((sortSearchCandidates group).take (depth + 1)).Nodup := by
      refine (List.take_sublist _ _).nodup ((sortSearchCandidates_perm group).nodup_iff.mpr ?_)
      exact (treeGroup_sublist hgroup).nodup (List.Nodup.of_map _ hdistinct)
    have hsum' := valueSum_subperm (List.subperm_of_subset hnodup hall)
    have htotal := hspend.toNat_total hsum
    rw [BitVec.lt_def] at hchunkBelow
    omega
  have hpoolMem : utxo ∈ tokenNotes pool token := hnotes utxo (List.mem_of_mem_take htop)
  obtain ⟨hmem, hnote⟩ := mem_tokenNotes.mp hpoolMem
  have hremaining : utxo ∈ tokenNotes (removeSelectedUtxos pool chunk.utxos) token :=
    mem_tokenNotes.mpr ⟨mem_removeSelectedUtxos hdistinct
      (fun other hother => hspend.subperm.subset hother) hmem hleft, hnote⟩
  refine bestUnshieldSelection_note_isSome (valueSum_removeSelected_lt hsum _) hremaining
    hcontinuation ?_
  -- Less than the smallest of the notes is missing.
  have hsmallest : (sortSearchCandidates group)[depth].note.value.toNat
      ≤ utxo.note.value.toNat := by
    obtain ⟨i, hi, rfl⟩ := List.mem_take_iff_getElem.mp htop
    rcases Nat.lt_or_eq_of_le (show i ≤ depth by omega) with hlt | rfl
    · exact List.pairwise_iff_getElem.mp (sortSearchCandidates_descending group) i depth _ _ hlt
    · exact le_rfl
  rw [List.take_succ_eq_append_getElem hlast, valueSum_append, valueSum_cons, valueSum_nil,
    Nat.add_zero] at hmore
  rw [BitVec.toNat_sub_of_le (BitVec.le_of_lt hchunkBelow)]
  omega

end Split

-- By induction on the chunks of the maximum selection. As long as more is owed
-- than the next of them the loop spends it, and otherwise it closes now or after
-- one more transaction.
theorem greedyLoop_below_maximum {token : Address} {first continuation : Nat}
    (hfirst : 1 < maxInputsForBaseOutputs first)
    (hcontinuation : 1 < maxInputsForBaseOutputs continuation) (drawn : List UtxoSelection)
    (left index : Nat) (pool : List Utxo) (owed : U256) (chunks : List UtxoSelection)
    (total : U256) (howed : owed ≠ 0) (hleft : drawn.length < left)
    (hsum : valueSum pool < 2 ^ 256) (hdistinct : (pool.map fromUtxo).Nodup)
    (hdraws : Draws token continuation (baseOutputCountAt first continuation index) pool drawn)
    (hle : owed.toNat ≤ chunkSum drawn) :
    (greedyLoop token first continuation left index pool owed chunks total).isSome = true := by
  have hinputs : 1 < maxInputsForBaseOutputs (baseOutputCountAt first continuation index) := by
    rw [baseOutputCountAt]
    split_ifs
    · exact hfirst
    · exact hcontinuation
  induction drawn generalizing left index pool owed chunks total with
  | nil =>
    have hpositive := BitVec.toNat_pos_of_ne_zero howed
    rw [chunkSum_nil] at hle
    omega
  | cons chunk drawn ih =>
    rw [List.length_cons] at hleft
    rw [chunkSum_cons] at hle
    obtain ⟨left, rfl⟩ : ∃ m, left = m + 2 := ⟨left - 2, by omega⟩
    rw [greedyLoop_succ]
    cases hbest : bestUnshieldSelection pool token owed
        (baseOutputCountAt first continuation index) with
    | some closing => rfl
    | none =>
      cases hdraws with
      | cons hmax hrest =>
        by_cases hlt : chunk.total < owed
        · rw [splitChunk_of_lt hmax hlt]
          have hsub := BitVec.toNat_sub_of_le (BitVec.le_of_lt hlt)
          rw [BitVec.lt_def] at hlt
          exact ih _ _ _ _ _ _ (U256.ne_zero_of_toNat_pos (by omega)) (by omega)
            (valueSum_removeSelected_lt hsum _)
            ((removeSelectedUtxos_sublist _ _).map _ |>.nodup hdistinct) hrest (by omega)
            hcontinuation
        · -- The largest chunk is worth enough, so one more transaction closes.
          obtain ⟨part, hpart, hclose⟩ := splitChunk_closes hsum hdistinct hinputs
            hcontinuation hmax (BitVec.not_lt.mp hlt) hbest
          obtain ⟨closing, hclosing⟩ := Option.isSome_iff_exists.mp hclose
          rw [hpart]
          dsimp only
          rw [greedyLoop_succ, baseOutputCountAt_succ, hclosing]
          rfl

/-- Every amount that a maximum selection with one transaction fewer is worth is
    selectable, with a plan that can be built. -/
theorem amounts_below_maximum_selectable (utxos : List Utxo) (token : Address)
    (first limit : Nat) (amount : U256)
    (hdistinct : (utxos.map fromUtxo).Nodup)
    (hsum : valueSum utxos < 2 ^ 256) (hfirst : first = 1 ∨ first = 2)
    (hlimit : 2 ≤ limit ∧ limit ≤ 8) (hamount : 0 < amount)
    (hle : amount ≤ maxBatchSpendableWithLimit utxos token first 1 (limit - 1)) :
    ∃ selection, selectBatchedUtxosWithLimit utxos token amount false first 1 limit
        = .ok selection ∧
      SpendablePlan utxos token amount false first 1 limit selection := by
  suffices hselected : ∃ selection,
      selectBatchedUtxosWithLimit utxos token amount false first 1 limit = .ok selection by
    obtain ⟨selection, hok⟩ := hselected
    exact ⟨selection, hok, spendablePlan_of_selected hdistinct hsum
      (selectBatchedUtxosWithLimit_selected (by omega) hok)⟩
  have hnonzero : amount ≠ 0 := (BitVec.pos_iff_ne_zero _).mp hamount
  rw [maxBatchSpendableWithLimit] at hle
  cases hmax : maxBatchSelection utxos token first 1 (limit - 1) with
  | none =>
    rw [hmax] at hle
    exact absurd (lt_of_lt_of_le (BitVec.lt_def.mp hamount) hle) (Nat.lt_irrefl _)
  | some maximum =>
    rw [hmax, Option.map_some, Option.getD_some, BitVec.le_def] at hle
    obtain ⟨-, htotal, hlength, hdraws⟩ := maxBatchSelection_draws hmax
    have hworth : maximum.total.toNat = chunkSum maximum.chunks := by
      rw [htotal]
      exact chain_total hdraws.chain hsum
    have hinputs : 1 < maxInputsForBaseOutputs first := by
      rcases hfirst with rfl | rfl <;> decide
    refine selectable_of_greedyLoop hnonzero (greedyLoop_below_maximum hinputs (by decide)
      maximum.chunks limit 0 utxos amount [] 0 hnonzero (by omega) hsum hdistinct hdraws ?_)
    omega

/-- As many notes of one tree as a transaction with two outputs can spend. -/
def fullTreeWallet : List Utxo :=
  (List.range 12).map fun position =>
    { note := { tokenHash := 1, value := 2, random := 0, npk := 0 }, tree := 0,
      position := position }

/-- Their notes are worth 24, none is worth 1, and yet 23 can be spent with one
    more transaction. -/
theorem amounts_below_maximum_selectable_fullTreeWallet :
    maxBatchSpendableWithLimit fullTreeWallet 1 2 1 1 = 24 ∧
      ∃ selection, selectBatchedUtxosWithLimit fullTreeWallet 1 23 false 2 1 2
          = .ok selection ∧
        SpendablePlan fullTreeWallet 1 23 false 2 1 2 selection := by
  have hmaximum : maxBatchSpendableWithLimit fullTreeWallet 1 2 1 1 = 24 := by decide +kernel
  refine ⟨hmaximum, ?_⟩
  refine amounts_below_maximum_selectable fullTreeWallet 1 2 2 23 (by decide) (by decide)
    (Or.inr rfl) (by decide) (by decide) ?_
  decide

end Railgun
