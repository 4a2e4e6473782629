import Railgun.Theory.CoverSearch
import Railgun.Theory.LargestBatch

/-!
# The Best Single Transaction

A single transaction for an amount is looked for tree by tree, with one input, then
two, and so on; the first number of inputs for which a search finds a set is taken,
and the trees are compared by inputs, excess and positions. With small trees every
search covers all sets, so the transaction has the fewest inputs of all that fit
and, among those, the least total. In a tree of any size the searches still find
something as soon as the largest notes cover the amount and change fits.

## Main definitions

* `Feasible`: A set of notes that one transaction can spend for an amount.

## Theorems

* `bestTreeSelection_spec`: A tree offers the first number of inputs for which a
  search finds a set.
* `bestUnshieldSelection_le`: No worse than what any tree offers.
* `feasible_offer`: A tree with a feasible set offers one that is no worse.
* `bestUnshieldSelection_optimal`: The best single transaction.
-/

namespace Railgun

open SelectionSearch (run_valid run_covers)
open SelectedInputIdentity (fromUtxo)

variable {utxos notes chosen : List Utxo} {token : Address} {amount : U256}
  {baseOutputCount inputCount : Nat} {selection : UtxoSelection}

/-- The search of a tree for a set of so many notes. -/
def coverSearch (notes : List Utxo) (amount : U256) (baseOutputCount inputCount : Nat) :
    SelectionSearch :=
  { candidates := sortSearchCandidates notes, amount := amount, targetCount := inputCount,
    baseOutputCount := baseOutputCount }

theorem findSome_range_spec {β : Type} {f : Nat → Option β} {count : Nat} {b : β}
    (h : (List.range' 1 count).findSome? f = some b) :
    ∃ k, 0 < k ∧ k ≤ count ∧ f k = some b ∧ ∀ j, 0 < j → j < k → f j = none := by
  obtain ⟨before, k, after, hsplit, hk, hbefore⟩ := List.findSome?_eq_some_iff.mp h
  have hmem : k ∈ List.range' 1 count := by
    rw [hsplit]
    exact List.mem_append_right _ List.mem_cons_self
  obtain ⟨i, hi, rfl⟩ := List.mem_range'.mp hmem
  refine ⟨1 + 1 * i, by omega, by omega, hk, fun j hpos hlt => ?_⟩
  have hj : j ∈ List.range' 1 count := List.mem_range'.mpr ⟨j - 1, by omega, by omega⟩
  rw [hsplit] at hj
  rcases List.mem_append.mp hj with hin | hin
  · exact hbefore j hin
  · -- The numbers after the first hit are larger.
    have hsorted : (List.range' 1 count).Pairwise (· < ·) := List.pairwise_lt_range'
    rw [hsplit, List.pairwise_append, List.pairwise_cons] at hsorted
    rcases List.mem_cons.mp hin with hself | hafter
    · omega
    · have hgt := hsorted.2.1.1 j hafter
      omega

theorem bestTreeSelection_spec (h : bestTreeSelection notes amount baseOutputCount
    = some selection) :
    ∃ k, 0 < k ∧ k ≤ maxInputsForBaseOutputs baseOutputCount ∧
      (coverSearch notes amount baseOutputCount k).run = some selection ∧
      ∀ j, 0 < j → j < k → (coverSearch notes amount baseOutputCount j).run = none :=
  findSome_range_spec h

theorem bestTreeSelection_of_run (hpos : 0 < inputCount)
    (hinputs : inputCount ≤ maxInputsForBaseOutputs baseOutputCount)
    (hrun : (coverSearch notes amount baseOutputCount inputCount).run.isSome = true) :
    ∃ offer, bestTreeSelection notes amount baseOutputCount = some offer ∧
      offer.utxos.length ≤ inputCount := by
  have hsome : (bestTreeSelection notes amount baseOutputCount).isSome = true := by
    rw [bestTreeSelection, List.findSome?_isSome_iff]
    exact ⟨inputCount, List.mem_range'.mpr ⟨inputCount - 1, by omega, by omega⟩, hrun⟩
  obtain ⟨offer, hoffer⟩ := Option.isSome_iff_exists.mp hsome
  obtain ⟨k, hk, -, hfound, hnone⟩ := bestTreeSelection_spec hoffer
  refine ⟨offer, hoffer, ?_⟩
  rw [(run_valid hfound).count]
  refine Nat.not_lt.mp fun hlt => ?_
  rw [hnone inputCount hpos hlt] at hrun
  cases hrun

theorem bestUnshieldSelection_le {tree : Nat} {offer : UtxoSelection}
    (hnotes : treeNotes token utxos tree ≠ [])
    (hoffer : bestTreeSelection (treeNotes token utxos tree) amount baseOutputCount
      = some offer) :
    ∃ best, bestUnshieldSelection utxos token amount baseOutputCount = some best ∧
      (selectionAmountOrder amount best offer).isLE = true := by
  have hgroup := treeNotes_mem_treeGroups hnotes
  have hsome : (bestUnshieldSelection utxos token amount baseOutputCount).isSome = true :=
    foldl_keepBest_isSome _ _ _ _ ⟨_, hgroup, by rw [hoffer]; rfl⟩
  obtain ⟨best, hbest⟩ := Option.isSome_iff_exists.mp hsome
  refine ⟨best, hbest, ?_⟩
  exact foldl_keepBest_order _ (fun b a => isBetterForAmountThan_iff b a amount) _ _ _ hbest _
    hgroup _ hoffer

theorem coverSearch_small (amount : U256) (hsum : valueSum notes < 2 ^ 256)
    (hfew : notes.length ≤ 13) (hsig : 2 + inputCount + baseOutputCount ≤ 16) :
    (coverSearch notes amount baseOutputCount inputCount).Small where
  ordered := sortBy_pairwise searchOrder notes
  bounded := by
    rw [coverSearch, valueSum_perm (sortSearchCandidates_perm notes)]
    exact hsum
  few := by
    rw [coverSearch, (sortSearchCandidates_perm notes).length_eq]
    exact hfew
  signature := hsig

theorem feasible_offer (hdistinct : (notes.map fromUtxo).Nodup)
    (hsum : valueSum notes < 2 ^ 256) (hfew : notes.length ≤ 13) (hsub : chosen.Subperm notes)
    (hne : chosen ≠ []) (hsize : chosen.length ≤ 13) (hcovers : amount.toNat ≤ valueSum chosen)
    (hfits : 2 + chosen.length + baseOutputCount
      + (if amount.toNat < valueSum chosen then 1 else 0) ≤ 16) :
    ∃ offer, bestTreeSelection notes amount baseOutputCount = some offer ∧
      offer.utxos.length ≤ chosen.length ∧
      (offer.utxos.length = chosen.length → offer.total.toNat ≤ valueSum chosen ∧
        (16 < 2 + chosen.length + baseOutputCount + 1 →
          offer.positionKey ≤ (selectionOf chosen).positionKey)) := by
  have hsmall := coverSearch_small amount hsum hfew
    (show 2 + chosen.length + baseOutputCount ≤ 16 by omega)
  obtain ⟨sorted, hperm, hsorted⟩ := hsub.trans (sortSearchCandidates_perm notes).symm.subperm
  have hselection : selectionOf sorted = selectionOf chosen :=
    (selectionOf_perm (subperm_identities_nodup hsub hdistinct) hperm.symm).symm
  have hsortedSum := valueSum_perm hperm
  have hacceptable :
      (coverSearch notes amount baseOutputCount chosen.length).Acceptable sorted := by
    refine ⟨hperm.length_eq, hsortedSum ▸ hcovers, fun hexact => ?_⟩
    -- Change would not fit, so there is none.
    have hroom : 2 + chosen.length + baseOutputCount + 1 > 16 := of_decide_eq_true hexact
    rw [hsortedSum]
    refine Nat.le_antisymm (Nat.not_lt.mp fun hlt => ?_) hcovers
    rw [if_pos (show amount.toNat < valueSum chosen from hlt)] at hfits
    omega
  obtain ⟨found, hfound, hnoWorse⟩ := (run_covers hsmall).1 sorted hsorted hacceptable
  have hinputs : chosen.length ≤ maxInputsForBaseOutputs baseOutputCount := by
    rw [maxInputsForBaseOutputs_eq]
    exact le_min (show chosen.length ≤ 16 - (2 + baseOutputCount) by omega) hsize
  obtain ⟨offer, hoffer, hle⟩ := bestTreeSelection_of_run (List.length_pos_iff.mpr hne) hinputs
    (by rw [hfound]; rfl)
  refine ⟨offer, hoffer, hle, fun hcount => ?_⟩
  -- With as many inputs, the offer is what the search found.
  obtain ⟨k, -, -, hrun, -⟩ := bestTreeSelection_spec hoffer
  have hk : k = chosen.length := (run_valid hrun).count.symm.trans hcount
  rw [hk, hfound, Option.some.injEq] at hrun
  have hvalid := run_valid hfound
  rw [hselection] at hnoWorse
  rw [← hrun]
  refine ⟨?_, fun hroom => hnoWorse.1 (decide_eq_true hroom)⟩
  cases hexact : (coverSearch notes amount baseOutputCount chosen.length).exactOnly with
  | true =>
    rw [hvalid.exact hexact]
    exact hcovers
  | false =>
    have htotal := hnoWorse.2 hexact
    have hchosenSum := valueSum_subperm hsub
    rw [selectionOf, toNat_noteTotal (by omega)] at htotal
    exact htotal

/-- A set of notes that one transaction can spend for an amount: notes of the token
    from one tree that cover it, with room for the outputs and the change. -/
structure Feasible (utxos : List Utxo) (token : Address) (amount : U256) (baseOutputCount : Nat)
    (set : List Utxo) : Prop where
  notes : set.Subperm utxos
  oneTree : NoteSet token 13 set
  covers : amount.toNat ≤ valueSum set
  fits : 2 + set.length + baseOutputCount
    + (if amount.toNat < valueSum set then 1 else 0) ≤ 16

theorem Feasible.trim {set : List Utxo} (h : Feasible utxos token amount baseOutputCount set) :
    ∃ (tree : Nat) (trimmed : List Utxo), trimmed.Sublist set ∧
      trimmed.Subperm (treeNotes token utxos tree) ∧ valueSum trimmed = valueSum set := by
  obtain ⟨tree, htree⟩ := h.oneTree.oneTree
  refine ⟨tree, set.filter fun utxo => decide (utxo.note.value ≠ 0), List.filter_sublist, ?_, ?_⟩
  · have hkept := (h.notes.filter fun utxo =>
      utxo.note.tokenHash = tokenHash token ∧ utxo.note.value ≠ 0).filter
      fun utxo => utxo.tree = tree
    rw [List.filter_filter] at hkept
    have hsame : (set.filter fun utxo => utxo.note.value ≠ 0)
        = set.filter fun utxo => decide (utxo.tree = tree) &&
          decide (utxo.note.tokenHash = tokenHash token ∧ utxo.note.value ≠ 0) := by
      refine List.filter_congr fun utxo hmem => ?_
      rw [decide_eq_true (htree utxo hmem), Bool.true_and]
      exact decide_eq_decide.mpr (and_iff_right (h.oneTree.token utxo hmem)).symm
    rw [hsame]
    exact hkept
  · refine valueSum_filter fun utxo _ hzero => ?_
    rw [decide_eq_false_iff_not, not_not] at hzero
    exact hzero

theorem Feasible.offer {set : List Utxo} (h : Feasible utxos token amount baseOutputCount set)
    (hdistinct : (utxos.map fromUtxo).Nodup)
    (hsum : valueSum utxos < 2 ^ 256) (hamount : amount ≠ 0)
    (hfew : ∀ tree, (treeNotes token utxos tree).length ≤ 13) :
    ∃ (tree : Nat) (offer : UtxoSelection), treeNotes token utxos tree ≠ [] ∧
      bestTreeSelection (treeNotes token utxos tree) amount baseOutputCount = some offer ∧
      offer.utxos.length ≤ set.length ∧
      (offer.utxos.length = set.length → offer.total.toNat ≤ valueSum set ∧
        (16 < 2 + set.length + baseOutputCount + 1 →
          offer.positionKey ≤ (selectionOf set).positionKey)) := by
  obtain ⟨tree, trimmed, hsub, hnotes, hworth⟩ := h.trim
  have hpositive := BitVec.toNat_pos_of_ne_zero hamount
  have hcovers := h.covers
  have hfits := h.fits
  have hlen := hsub.length_le
  have hsize := h.oneTree.size
  have hne : trimmed ≠ [] := by
    intro hnil
    rw [hnil, valueSum_nil] at hworth
    omega
  obtain ⟨offer, hoffer, hle, hbest⟩ := feasible_offer
    (subperm_identities_nodup (treeNotes_subperm token utxos tree) hdistinct)
    (lt_of_le_of_lt (valueSum_subperm (treeNotes_subperm token utxos tree)) hsum) (hfew tree)
    hnotes hne (le_trans hlen hsize) (hworth ▸ hcovers)
    (show 2 + trimmed.length + baseOutputCount
      + (if amount.toNat < valueSum trimmed then 1 else 0) ≤ 16 by rw [hworth]; omega)
  refine ⟨tree, offer, ?_, hoffer, le_trans hle hlen, fun hcount => ?_⟩
  · intro hnil
    rw [hnil, List.subperm_nil] at hnotes
    exact hne hnotes
  · -- With as many inputs nothing was left out of the set.
    have hsame : trimmed = set := hsub.eq_of_length (by omega)
    rw [hsame] at hbest
    exact hbest hcount

theorem bestUnshieldSelection_feasible (hsum : valueSum utxos < 2 ^ 256)
    (h : bestUnshieldSelection utxos token amount baseOutputCount = some selection) :
    Feasible utxos token amount baseOutputCount selection.utxos ∧
      selection.total.toNat = valueSum selection.utxos := by
  obtain ⟨hspend, hcovers⟩ := bestUnshieldSelection_spec h
  have htotal := hspend.toNat_total hsum
  have howed := hcovers.owed_le
  have hsig := hcovers.signature
  simp only [BitVec.le_def, BitVec.lt_def, htotal] at howed hsig
  refine ⟨⟨hspend.subperm, ⟨hspend.token, hspend.oneTree, ?_⟩, howed, ?_⟩, htotal⟩
  · exact le_trans hspend.inputs (maxInputs_le_circuit baseOutputCount)
  · rw [Nat.add_assoc _ baseOutputCount]
    exact hsig

theorem bestUnshieldSelection_best {set : List Utxo}
    (hdistinct : (utxos.map fromUtxo).Nodup)
    (hsum : valueSum utxos < 2 ^ 256) (hamount : amount ≠ 0)
    (hfew : ∀ tree, (treeNotes token utxos tree).length ≤ 13)
    (hset : Feasible utxos token amount baseOutputCount set) :
    ∃ best, bestUnshieldSelection utxos token amount baseOutputCount = some best ∧
      best.utxos.length ≤ set.length ∧
      (best.utxos.length = set.length → valueSum best.utxos ≤ valueSum set ∧
        (16 < 2 + set.length + baseOutputCount + 1 →
          best.positionKey ≤ (selectionOf set).positionKey)) := by
  obtain ⟨tree, offer, hnotes, hoffer, hle, hbetter⟩ := hset.offer hdistinct hsum hamount hfew
  obtain ⟨best, hbest, horder⟩ := bestUnshieldSelection_le hnotes hoffer
  obtain ⟨hfeasible, htotal⟩ := bestUnshieldSelection_feasible hsum hbest
  obtain ⟨k, -, -, hrun, -⟩ := bestTreeSelection_spec hoffer
  have hofferCovers : amount ≤ offer.total := (run_valid hrun).covers
  have hbestCovers := (bestUnshieldSelection_spec hbest).2.owed_le
  obtain ⟨hinputs, hties⟩ := amountOrder_le horder hbestCovers hofferCovers
  refine ⟨best, hbest, le_trans hinputs hle, fun hcount => ?_⟩
  -- The offer has as many inputs as both.
  obtain ⟨htotals, hkeys⟩ := hties (by omega)
  obtain ⟨hworth, hpositions⟩ := hbetter (by omega)
  refine ⟨by omega, fun hroom => le_trans (hkeys ?_) (hpositions hroom)⟩
  -- Without room for change all of them meet the amount.
  have hfits := hset.fits
  rw [BitVec.le_def] at hofferCovers hbestCovers
  have hmet : ¬ amount.toNat < valueSum set := by
    intro hlt
    rw [if_pos hlt] at hfits
    omega
  exact BitVec.eq_of_toNat_eq (by omega)

/-- Whatever the size of the trees, the largest notes of one of them make a
    transaction if they cover the amount and change fits. -/
theorem bestUnshieldSelection_of_top {k : Nat} (hsum : valueSum utxos < 2 ^ 256)
    (hamount : amount ≠ 0) (hroom : k + baseOutputCount ≤ 13)
    (htop : ∃ tree, amount.toNat ≤ topValue token utxos tree k)
    (hleast : ∀ j < k, ∀ tree, topValue token utxos tree j < amount.toNat) :
    ∃ best, bestUnshieldSelection utxos token amount baseOutputCount = some best ∧
      best.utxos.length = k := by
  obtain ⟨tree, htop⟩ := htop
  have hpositive := BitVec.toNat_pos_of_ne_zero hamount
  have hk : 0 < k := by
    refine Nat.pos_of_ne_zero fun hzero => ?_
    rw [hzero, topValue, List.take_zero, valueSum_nil] at htop
    omega
  have hsorted := sortSearchCandidates_perm (treeNotes token utxos tree)
  have henough : k ≤ (sortSearchCandidates (treeNotes token utxos tree)).length := by
    refine Nat.not_lt.mp fun hlt => ?_
    have hall := hleast _ hlt tree
    rw [topValue, List.take_length] at hall
    rw [topValue, List.take_of_length_le (le_of_lt hlt)] at htop
    omega
  have hnotes : treeNotes token utxos tree ≠ [] := by
    rw [hsorted.length_eq] at henough
    exact List.length_pos_iff.mp (by omega)
  have hinputs : k ≤ maxInputsForBaseOutputs baseOutputCount := by
    rw [maxInputsForBaseOutputs_eq]
    exact le_min (show k ≤ 16 - (2 + baseOutputCount) by omega) (show k ≤ 13 by omega)
  have hacceptable : (coverSearch (treeNotes token utxos tree) amount baseOutputCount
      k).TopAcceptable := by
    refine ⟨sortSearchCandidates_descending _, ?_, henough, htop, fun hexact => ?_, ?_⟩
    · rw [coverSearch, valueSum_perm hsorted]
      exact lt_of_le_of_lt (valueSum_subperm (treeNotes_subperm token utxos tree)) hsum
    · have hover : 2 + k + baseOutputCount + 1 > 16 := of_decide_eq_true hexact
      omega
    · exact show 2 + k + baseOutputCount ≤ 16 by omega
  have hrun := SelectionSearch.run_isSome_of_top hacceptable
    (le_trans (le_trans hinputs (maxInputs_le_circuit baseOutputCount)) (by decide))
  obtain ⟨offer, hoffer, hle⟩ := bestTreeSelection_of_run hk hinputs hrun
  obtain ⟨best, hbest, horder⟩ := bestUnshieldSelection_le hnotes hoffer
  obtain ⟨hfeasible, htotal⟩ := bestUnshieldSelection_feasible hsum hbest
  obtain ⟨j, -, -, hfound, -⟩ := bestTreeSelection_spec hoffer
  have hfewer := (amountOrder_le horder (bestUnshieldSelection_spec hbest).2.owed_le
    (run_valid hfound).covers).1
  refine ⟨best, hbest, Nat.le_antisymm (le_trans hfewer hle) (Nat.not_lt.mp fun hlt => ?_)⟩
  -- Fewer inputs would not cover the amount.
  obtain ⟨source, hsource⟩ := hfeasible.oneTree.oneTree
  have hbound := valueSum_le_topValue hfeasible.notes
    (fun utxo hmem => ⟨hfeasible.oneTree.token utxo hmem, hsource utxo hmem⟩) (le_refl _)
  have hshort := hleast _ hlt source
  have hcovers := hfeasible.covers
  omega

/-- For every wallet whose notes stand at distinct positions and fit a word, and
    every nonzero amount. If no tree has more than thirteen notes of the token, no
    search runs out of visits, there is a transaction exactly if some set is
    feasible, and it has the fewest inputs of all feasible sets, then the least
    total, and then, if its inputs leave no room for change, the least positions.
    In trees of any size, if so many of the largest notes of a tree cover the
    amount and change fits, there is a transaction with the least such number of
    inputs. -/
theorem bestUnshieldSelection_optimal (utxos : List Utxo) (token : Address) (amount : U256)
    (baseOutputCount : Nat) (hdistinct : (utxos.map fromUtxo).Nodup)
    (hsum : valueSum utxos < 2 ^ 256) (hamount : amount ≠ 0) :
    ((∀ tree, (treeNotes token utxos tree).length ≤ 13) →
      (∀ tree inputCount, 0 < inputCount →
        inputCount ≤ maxInputsForBaseOutputs baseOutputCount →
        0 < ((coverSearch (treeNotes token utxos tree) amount baseOutputCount inputCount).search
          inputCount 0 0 [] ⟨none, maxSelectionSearchVisits⟩).visitsLeft) ∧
      (bestUnshieldSelection utxos token amount baseOutputCount = none ↔
        ∀ set, ¬ Feasible utxos token amount baseOutputCount set) ∧
      ∀ best, bestUnshieldSelection utxos token amount baseOutputCount = some best →
        Feasible utxos token amount baseOutputCount best.utxos ∧
        best.total.toNat = valueSum best.utxos ∧
        ∀ set, Feasible utxos token amount baseOutputCount set →
          best.utxos.length ≤ set.length ∧
          (best.utxos.length = set.length → valueSum best.utxos ≤ valueSum set ∧
            (16 < 2 + set.length + baseOutputCount + 1 →
              best.positionKey ≤ (selectionOf set).positionKey))) ∧
    ∀ k, k + baseOutputCount ≤ 13 → (∃ tree, amount.toNat ≤ topValue token utxos tree k) →
      (∀ j < k, ∀ tree, topValue token utxos tree j < amount.toNat) →
      ∃ best, bestUnshieldSelection utxos token amount baseOutputCount = some best ∧
        best.utxos.length = k := by
  refine ⟨fun hfew => ⟨fun tree inputCount hpos hinputs => ?_, ⟨fun hnone set hset => ?_,
    fun hnone => ?_⟩, fun best hbest => ?_⟩, fun k hroom htop hleast => ?_⟩
  · have htree := treeNotes_subperm token utxos tree
    exact (run_covers (coverSearch_small amount
      (lt_of_le_of_lt (valueSum_subperm htree) hsum) (hfew tree)
      (maxInputs_signature hpos hinputs))).2
  · obtain ⟨best, hbest, -⟩ := bestUnshieldSelection_best hdistinct hsum hamount hfew hset
    rw [hnone] at hbest
    cases hbest
  · cases hbest : bestUnshieldSelection utxos token amount baseOutputCount with
    | none => rfl
    | some best => exact absurd (bestUnshieldSelection_feasible hsum hbest).1 (hnone _)
  · obtain ⟨hfeasible, htotal⟩ := bestUnshieldSelection_feasible hsum hbest
    refine ⟨hfeasible, htotal, fun set hset => ?_⟩
    obtain ⟨other, hother, hbetter⟩ := bestUnshieldSelection_best hdistinct hsum hamount hfew hset
    rw [hbest, Option.some.injEq] at hother
    rw [hother]
    exact hbetter
  · exact bestUnshieldSelection_of_top hsum hamount hroom htop hleast

/-- Two notes of value five in different trees: one of them covers four. -/
theorem bestUnshieldSelection_optimal_twoTreeWallet :
    (∀ tree, (treeNotes 1 twoTreeWallet tree).length ≤ 13) ∧
      (∃ best, bestUnshieldSelection twoTreeWallet 1 4 1 = some best ∧
        best.utxos.length = 1) ∧
      bestUnshieldSelection twoTreeWallet 1 6 1 = none ∧
      ∀ set, ¬ Feasible twoTreeWallet 1 6 1 set := by
  have hfew : ∀ tree, (treeNotes 1 twoTreeWallet tree).length ≤ 13 := fun tree =>
    le_trans (treeNotes_subperm 1 twoTreeWallet tree).length_le (by decide)
  have hnone : bestUnshieldSelection twoTreeWallet 1 6 1 = none := by decide +kernel
  have hfour := bestUnshieldSelection_optimal twoTreeWallet 1 4 1 (by decide) (by decide)
    (by decide)
  have hsix := bestUnshieldSelection_optimal twoTreeWallet 1 6 1 (by decide) (by decide)
    (by decide)
  refine ⟨hfew, hfour.2 1 (by decide) ⟨0, by decide +kernel⟩ ?_, hnone,
    (hsix.1 hfew).2.1.mp hnone⟩
  intro j hj tree
  rw [Nat.lt_one_iff.mp hj]
  exact show 0 < 4 by decide

end Railgun
