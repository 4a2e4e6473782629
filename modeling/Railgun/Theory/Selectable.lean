import Railgun.Core.Swap
import Railgun.Theory.Lockstep

/-!
# Which Amounts Are Selectable

The largest chunks of a maximum selection can be spent again in front of any
amount a single transaction can cover from the notes they leave: while more is
owed than the largest chunk, the greedy loop spends that chunk, and then it
closes.

Two kinds of amounts are covered by a single transaction: the largest notes of
a tree, and the totals a partial search finds. A total of fewer notes than the
circuit allows leaves room for change, so any cover will do; a total of as many
notes as the circuit allows has to be found again exactly.

## Theorems

* `bestUnshieldSelection_below_isSome`: The total of a partial search can be
  selected.
* `greedyLoop_closes`: The greedy loop spends the full chunks and closes.
* `fullChunks_selectable`: Full chunks and a coverable rest are selectable.
-/

namespace Railgun

theorem max_eq_or (a b : U256) : U256.max a b = a ∨ U256.max a b = b :=
  (ite_eq_or_eq _ _ _).symm

variable {best : Option U256} {t : U256} {totals : List U256}

/-- The fold keeps the greatest total it has seen. -/
theorem foldl_max_greatest
    (h : totals.foldl (fun best total => some (best.elim total (U256.max · total))) best
      = some t) :
    t ∈ best.toList ++ totals ∧ ∀ total ∈ best.toList ++ totals, total ≤ t := by
  induction totals generalizing best with
  | nil =>
    rw [show best = some t from h]
    simp
  | cons total totals ih =>
    have hrest := ih h
    cases best with
    | none => exact hrest
    | some old =>
      have hleft : old ≤ U256.max old total := by
        rw [BitVec.le_def, U256.toNat_max]
        exact Nat.le_max_left _ _
      have hright : total ≤ U256.max old total := by
        rw [BitVec.le_def, U256.toNat_max]
        exact Nat.le_max_right _ _
      simp only [Option.elim_some, Option.toList_some, List.singleton_append, List.mem_cons,
        forall_eq_or_imp] at hrest ⊢
      obtain ⟨hmem, hle, hall⟩ := hrest
      refine ⟨?_, BitVec.le_trans hleft hle, BitVec.le_trans hright hle, hall⟩
      rcases hmem with rfl | hmem
      · exact (max_eq_or old total).imp_right .inl
      · exact .inr (.inr hmem)

theorem maxTotal_mem (h : maxTotal totals = some t) : t ∈ totals := (foldl_max_greatest h).1

theorem le_maxTotal (h : maxTotal totals = some t) : ∀ total ∈ totals, total ≤ t :=
  (foldl_max_greatest h).2

theorem foldl_max_isSome (totals : List U256) (total : U256) : (totals.foldl
    (fun best total => some (best.elim total (U256.max · total))) (some total)).isSome = true := by
  induction totals generalizing total with
  | nil => rfl
  | cons next totals ih => exact ih _

theorem maxTotal_isSome (h : totals ≠ []) : (maxTotal totals).isSome = true := by
  cases totals with
  | nil => exact absurd rfl h
  | cons total totals => exact foldl_max_isSome totals total

section Single

variable {pool group : List Utxo} {token : Address} {baseOutputCount : Nat}

theorem bestUnshieldSelection_below_isSome {limit : U256} {inputCount : Nat}
    {best : UtxoSelection} (hsum : valueSum pool < 2 ^ 256)
    (hgroup : group ∈ treeGroups pool token)
    (hinputs : inputCount ≤ maxInputsForBaseOutputs baseOutputCount)
    (hbest : (PartialSelectionSearch.run
      { candidates := sortSearchCandidates group, amount := limit,
        maxInputCount := inputCount, selectionLimit := 1 }).best = some best) :
    Spendable pool token baseOutputCount best ∧ best.total < limit ∧
      (bestUnshieldSelection pool token best.total baseOutputCount).isSome = true := by
  have hvalid := (PartialSelectionSearch.run_valid _).1 best hbest
  obtain ⟨chosen, hsub, hne, hlen, hperm⟩ := hvalid.chosen
  dsimp only at hsub hlen
  have hspend : Spendable pool token baseOutputCount best :=
    spendable_of_chosen hgroup hsub hne (le_trans hlen hinputs) hperm hvalid.total
  refine ⟨hspend, hvalid.below, ?_⟩
  have hbounded : valueSum (sortSearchCandidates group) < 2 ^ 256 :=
    lt_of_le_of_lt (valueSum_group_le hgroup) hsum
  have hworth : best.total.toNat = valueSum chosen := by
    rw [hspend.toNat_total hsum, valueSum_perm hperm]
  have hpositive : 0 < chosen.length := List.length_pos_iff.mpr hne
  have hchosenInputs := le_trans hlen hinputs
  have hsignature := maxInputs_signature hpositive hchosenInputs
  refine bestUnshieldSelection_isSome_of_search hgroup hpositive hchosenInputs ?_
  by_cases hexact : 2 + chosen.length + baseOutputCount + 1 > maxSignatureInputs
  · -- No room for change, so these are as many notes as the search may take.
    have hfull : chosen.length = inputCount := by
      have hroom := maxInputs_signature (lt_of_lt_of_le hpositive hlen) hinputs
      omega
    have hpartner : (SelectionSearch.partner
        { candidates := sortSearchCandidates group, amount := best.total,
          targetCount := chosen.length, baseOutputCount := baseOutputCount } limit).run.best
        = some best := by
      rw [SelectionSearch.partner, hfull]
      exact hbest
    exact run_isSome_of_partner (sortSearchCandidates_descending group) hbounded
      (decide_eq_true hexact) hsignature hvalid.below hpartner rfl hperm.length_eq
      ((BitVec.pos_iff_ne_zero _).mpr (hspend.total_ne_zero hsum))
  · have hcircuit := le_trans hchosenInputs (maxInputs_le_circuit baseOutputCount)
    have hcovers := valueSum_le_take (sortSearchCandidates_descending group) hsub (le_refl _)
    rw [← hworth] at hcovers
    exact SelectionSearch.run_isSome_of_top
      ⟨sortSearchCandidates_descending group, hbounded, hsub.length_le, hcovers,
        fun hflag => absurd (of_decide_eq_true hflag) hexact, hsignature⟩
      (le_trans hcircuit (by decide))

theorem sort_values_eq (group : List Utxo) :
    sortBy (fun a b => compare b a) (group.map (·.note.value))
      = (sortSearchCandidates group).map (·.note.value) := by
  have hperm : (sortBy (fun a b => compare b a) (group.map (·.note.value))).Perm
      ((sortSearchCandidates group).map (·.note.value)) :=
    (sortBy_perm _ _).trans ((sortSearchCandidates_perm group).symm.map _)
  have hsorted : ((sortSearchCandidates group).map (·.note.value)).Pairwise
      (fun a b => (compare b a).isLE = true) := by
    rw [List.pairwise_map]
    refine (sortSearchCandidates_descending group).imp ?_
    intro a b hle
    exact (compare_isLE_iff _ _).mpr hle
  refine hperm.eq_of_pairwise ?_ (sortBy_pairwise _ _) hsorted
  intro a b _ _ hab hba
  exact BitVec.eq_of_toNat_eq
    (Nat.le_antisymm ((compare_isLE_iff _ _).mp hba) ((compare_isLE_iff _ _).mp hab))

theorem foldl_values_eq (utxos : List Utxo) :
    (utxos.map (·.note.value)).foldl (· + ·) 0 = noteTotal utxos := by
  rw [List.foldl_map, noteTotal]

/-- What the next transaction is asked to spend is worth something, can be
    selected, and stays below the bound with what the full chunks spend. -/
theorem nextTotal_spec {below : Option U256} {fullTotal next : U256} {inputCount : Nat}
    (hsum : valueSum pool < 2 ^ 256) (hgroups : treeGroups pool token ≠ [])
    (hpositive : 0 < inputCount) (hinputs : inputCount ≤ maxInputsForBaseOutputs 1)
    (hnext : nextTotal pool token below fullTotal inputCount = some next) :
    next ≠ 0 ∧ (bestUnshieldSelection pool token next 1).isSome = true ∧
      ∀ bound ∈ below, fullTotal.toNat + next.toNat < bound.toNat := by
  cases below with
  | none =>
    rw [nextTotal, Option.some.injEq] at hnext
    have hsome : (maxTotal ((valuesByTree pool token).map fun values =>
        (values.take inputCount).foldl (· + ·) 0)).isSome = true := by
      refine maxTotal_isSome ?_
      rw [valuesByTree, List.map_map, ne_eq, List.map_eq_nil_iff]
      exact hgroups
    obtain ⟨total, htotal⟩ := Option.isSome_iff_exists.mp hsome
    rw [htotal, Option.getD_some] at hnext
    have hmem := maxTotal_mem htotal
    rw [valuesByTree, List.map_map, List.mem_map] at hmem
    obtain ⟨group, hgroup, hgroupTotal⟩ := hmem
    rw [Function.comp_apply, sort_values_eq, ← List.map_take, foldl_values_eq, hnext]
      at hgroupTotal
    have hne : (sortSearchCandidates group).take inputCount ≠ [] := by
      obtain ⟨_, hne, _⟩ := mem_treeGroups.mp hgroup
      have hlength := (sortSearchCandidates_perm group).length_eq
      rw [← List.length_pos_iff] at hne ⊢
      rw [List.length_take]
      omega
    have hspend : Spendable pool token 1
        { utxos := (sortSearchCandidates group).take inputCount, total := next } :=
      spendable_of_chosen hgroup (List.take_sublist _ _) hne
        (le_trans (List.length_take_le _ _) hinputs) (List.Perm.refl _) hgroupTotal.symm
    refine ⟨hspend.total_ne_zero hsum, ?_, ?_⟩
    · exact bestUnshieldSelection_top_isSome hsum hgroup hpositive hinputs hgroupTotal.symm
    · exact nofun
  | some bound =>
    have hmem := maxTotal_mem hnext
    rw [List.mem_filterMap] at hmem
    obtain ⟨group, hgroup, hrun⟩ := hmem
    obtain ⟨best, hbest, hbestTotal⟩ := Option.map_eq_some_iff.mp hrun
    obtain ⟨hspend, hbelow, hselected⟩ :=
      bestUnshieldSelection_below_isSome hsum hgroup hinputs hbest
    rw [hbestTotal] at hbelow hselected
    refine ⟨?_, hselected, ?_⟩
    · rw [← hbestTotal]
      exact hspend.total_ne_zero hsum
    · intro other hother
      rw [Option.mem_def, Option.some.injEq] at hother
      rw [BitVec.lt_def, U256.toNat_saturatingSub] at hbelow
      rw [← hother]
      omega

theorem maxUnshieldSelection_isSome {utxo : Utxo} (hsum : valueSum pool < 2 ^ 256)
    (hutxo : utxo ∈ tokenNotes pool token)
    (hroom : 0 < maxInputsForBaseOutputs baseOutputCount) :
    (maxUnshieldSelectionWithOutputCount pool token baseOutputCount).isSome = true := by
  obtain ⟨group, hgroup, hmem⟩ := treeGroups_complete hutxo
  rw [maxUnshieldSelectionWithOutputCount, if_neg (by omega)]
  refine foldl_keepBest_isSome _ _ _ _ ⟨group, hgroup, ?_⟩
  have hvalue : 0 < utxo.note.value.toNat :=
    BitVec.toNat_pos_of_ne_zero (mem_tokenNotes.mp hutxo).2.2
  have htop := subperm_le_top (List.singleton_subperm_iff.mpr hmem)
    (show [utxo].length ≤ maxInputsForBaseOutputs baseOutputCount from hroom)
  rw [valueSum_cons, valueSum_nil, Nat.add_zero] at htop
  rw [maxTreeSelection, if_neg (U256.ne_zero_of_toNat_pos ?_)]
  · rfl
  · rw [toNat_noteTotal_take hsum hgroup]
    omega

end Single

section FullChunks

variable {pool : List Utxo} {token : Address} {base : Nat}

theorem remainingUtxos_cons (pool : List Utxo) (chunk : UtxoSelection)
    (chunks : List UtxoSelection) :
    remainingUtxos pool (chunk :: chunks)
      = remainingUtxos (removeSelectedUtxos pool chunk.utxos) chunks := rfl

/-- What a maximum selection draws can be cut at any chunk. -/
theorem draws_append {a b : List UtxoSelection} (h : Draws token base base pool (a ++ b)) :
    Draws token base base pool a ∧ Draws token base base (remainingUtxos pool a) b := by
  induction a generalizing pool with
  | nil => exact ⟨Draws.nil, h⟩
  | cons chunk a ih =>
    cases h with
    | cons hmax hrest =>
      obtain ⟨hbefore, hafter⟩ := ih hrest
      exact ⟨Draws.cons hmax hbefore, hafter⟩

theorem remainingUtxos_sublist (chunks : List UtxoSelection) (pool : List Utxo) :
    (remainingUtxos pool chunks).Sublist pool := by
  induction chunks generalizing pool with
  | nil => exact List.Sublist.refl _
  | cons chunk chunks ih => exact (ih _).trans (removeSelectedUtxos_sublist _ _)

/-- Chunks drawn and notes left are worth no more than the pool. -/
theorem draws_remaining_sum {chunks : List UtxoSelection} (h : Draws token base base pool chunks) :
    chunkSum chunks + valueSum (remainingUtxos pool chunks) ≤ valueSum pool := by
  induction chunks generalizing pool with
  | nil =>
    rw [chunkSum_nil, Nat.zero_add]
    exact le_refl _
  | cons chunk chunks ih =>
    cases h with
    | cons hmax hrest =>
      have hspend := (maxUnshieldSelection_spec hmax).1
      have hboth := valueSum_subperm
        (subperm_append_of_removed hspend.subperm (List.Subperm.refl _))
      have htotal := toNat_noteTotal_le chunk.utxos
      rw [← hspend.total] at htotal
      rw [valueSum_append] at hboth
      have hafter := ih hrest
      rw [chunkSum_cons, remainingUtxos_cons]
      omega

/-- The loop draws the full chunks and then closes with the next total. -/
theorem greedyLoop_closes {full : List UtxoSelection} {left : Nat} {owed next : U256}
    (hnext : next ≠ 0) (hleft : full.length < left) (hdraws : Draws token base base pool full)
    (hclose : (bestUnshieldSelection (remainingUtxos pool full) token next base).isSome = true)
    (howed : owed.toNat = chunkSum full + next.toNat) (index : Nat) (chunks : List UtxoSelection)
    (total : U256) :
    (greedyLoop token base base left index pool owed chunks total).isSome = true := by
  have hpositive := BitVec.toNat_pos_of_ne_zero hnext
  have hbase : ∀ index, baseOutputCountAt base base index = base := fun index => ite_self _
  induction full generalizing left index pool owed chunks total with
  | nil =>
    obtain ⟨left, rfl⟩ : ∃ m, left = m + 1 := ⟨left - 1, by omega⟩
    rw [chunkSum_nil, Nat.zero_add] at howed
    obtain ⟨closing, hclosing⟩ := Option.isSome_iff_exists.mp hclose
    have hsame : remainingUtxos pool [] = pool := rfl
    rw [hsame, ← BitVec.eq_of_toNat_eq howed] at hclosing
    rw [greedyLoop_succ, hbase, hclosing]
    rfl
  | cons chunk full ih =>
    rw [List.length_cons] at hleft
    rw [chunkSum_cons] at howed
    obtain ⟨left, rfl⟩ : ∃ m, left = m + 1 := ⟨left - 1, by omega⟩
    rw [greedyLoop_succ, hbase]
    cases hdraws with
    | cons hmax hrest =>
      have hlt : chunk.total < owed := by
        rw [BitVec.lt_def]
        omega
      cases bestUnshieldSelection pool token owed base with
      | some closing => rfl
      | none =>
        rw [splitChunk_of_lt hmax hlt]
        refine ih (Nat.lt_of_succ_lt_succ hleft) hrest hclose ?_ _ _ _
        rw [BitVec.toNat_sub_of_le (BitVec.le_of_lt hlt)]
        omega

theorem selectable_of_greedyLoop {utxos : List Utxo} {amount : U256}
    {first continuation limit : Nat} (hamount : amount ≠ 0)
    (h : (greedyLoop token first continuation limit 0 utxos amount [] 0).isSome = true) :
    ∃ selection, selectBatchedUtxosWithLimit utxos token amount false first continuation limit
      = .ok selection := by
  obtain ⟨selection, hselection⟩ := Option.isSome_iff_exists.mp h
  rw [selectBatchedUtxosWithLimit, if_neg hamount]
  cases bestUnshieldSelection utxos token amount first with
  | some closing => exact ⟨_, rfl⟩
  | none =>
    rw [greedyBatchedSelection, hselection]
    exact ⟨selection, rfl⟩

theorem fullChunks_selectable {utxos : List Utxo} {full : List UtxoSelection} {next : U256}
    {fullTotal : U256} {limit : Nat} (hsum : valueSum utxos < 2 ^ 256)
    (hlimit : full.length < limit) (hdraws : Draws token base base utxos full)
    (hfull : fullTotal.toNat = chunkSum full) (hnext : next ≠ 0)
    (hclose : (bestUnshieldSelection (remainingUtxos utxos full) token next base).isSome = true) :
    (fullTotal + next).toNat = fullTotal.toNat + next.toNat ∧
      ∃ selection, selectBatchedUtxosWithLimit utxos token (fullTotal + next) false base base
        limit = .ok selection := by
  have hpositive := BitVec.toNat_pos_of_ne_zero hnext
  -- The closing transaction comes from what the full chunks leave.
  have hworth : chunkSum full + next.toNat ≤ valueSum utxos := by
    obtain ⟨closing, hclosing⟩ := Option.isSome_iff_exists.mp hclose
    obtain ⟨hspend, hcovers⟩ := bestUnshieldSelection_spec hclosing
    have hremaining := valueSum_sublist (remainingUtxos_sublist full utxos)
    have hclosingTotal := hspend.toNat_total (lt_of_le_of_lt hremaining hsum)
    have howed := hcovers.owed_le
    rw [BitVec.le_def] at howed
    have hboth := draws_remaining_sum hdraws
    have hclosingSum := valueSum_subperm hspend.subperm
    omega
  have htotal : (fullTotal + next).toNat = fullTotal.toNat + next.toNat :=
    BitVec.toNat_add_of_lt (by omega)
  refine ⟨htotal, selectable_of_greedyLoop ?_ ?_⟩
  · exact U256.ne_zero_of_toNat_pos (by omega)
  · refine greedyLoop_closes hnext hlimit hdraws hclose ?_ 0 [] 0
    rw [htotal, hfull]

end FullChunks

end Railgun
