import Mathlib.Data.Multiset.Powerset
import Railgun.Lib.TopList
import Railgun.Theory.LargestBatch
import Railgun.Theory.Selectable
import Railgun.Theory.SelectionOrder

/-!
# What a Partial Search Finds

A partial search walks over the sets of notes below an amount. It leaves out what
is not worth a visit: sets that reach the amount, and, once its list is full, sets
that would sort behind the last entry. With at most thirteen notes its visits
suffice for every set, so the list it ends with is the front of all sets in order,
and the best it ends with has the largest total.

A state accounts for a collection of sets if it is what looking at all of them
would have left. Every step of the search adds to the collection, whether it looks
at the sets or not.

## Main definitions

* `PartialSelectionSearch.below`: The sets that a call may add.

## Theorems

* `PartialSelectionSearch.below_split`: A set takes the next note or it does not.
* `PartialSelectionSearch.search_accounts`: A call accounts for its sets.
* `run_selections`, `run_best`: What a search of a small tree ends with.
* `partialSelections_top`: The searches of a wallet with small trees.
-/

namespace Railgun

open PartialSelectionSearch
open SelectedInputIdentity (fromUtxo)

namespace PartialSelectionSearch

variable {s : PartialSelectionSearch} {S T : Set UtxoSelection} {st : State}
  {slots start index : Nat} {total : U256} {selected : List Nat} {notes : List Utxo}

/-- A search over few notes, at distinct positions and by descending value. -/
structure Small (s : PartialSelectionSearch) : Prop where
  descending : Descending s.candidates
  distinct : (s.candidates.map fromUtxo).Nodup
  bounded : valueSum s.candidates < 2 ^ 256
  few : s.candidates.length ≤ maxCircuitInputs

/-- The sets below the amount that add to `notes` at most `slots` candidates from
    `start` on. -/
def below (s : PartialSelectionSearch) (slots start : Nat) (notes : List Utxo) :
    Set UtxoSelection :=
  {selection | ∃ chosen, chosen ≠ [] ∧ chosen.Sublist (s.candidates.drop start) ∧
    chosen.length ≤ slots ∧ noteTotal (notes ++ chosen) < s.amount ∧
    selection = selectionOf (notes ++ chosen)}

theorem below_zero : s.below 0 start notes = ∅ := by
  refine Set.eq_empty_iff_forall_notMem.mpr ?_
  rintro selection ⟨chosen, hne, -, hlen, -⟩
  exact hne (List.eq_nil_of_length_eq_zero (Nat.le_zero.mp hlen))

theorem below_end (h : s.candidates.length ≤ start) : s.below slots start notes = ∅ := by
  refine Set.eq_empty_iff_forall_notMem.mpr ?_
  rintro selection ⟨chosen, hne, hsub, -⟩
  rw [List.drop_eq_nil_of_le h, List.sublist_nil] at hsub
  exact hne hsub

/-- A set takes the next note, alone or with more, or it does not. -/
theorem below_split (hlt : index < s.candidates.length) :
    s.below (slots + 1) index notes
      = {selection | noteTotal (notes ++ [s.candidates[index]]) < s.amount ∧
            selection = selectionOf (notes ++ [s.candidates[index]])}
        ∪ s.below slots (index + 1) (notes ++ [s.candidates[index]])
        ∪ s.below (slots + 1) (index + 1) notes := by
  have hdrop := List.drop_eq_getElem_cons hlt
  ext selection
  constructor
  · rintro ⟨chosen, hne, hsub, hlen, hbelow, rfl⟩
    rw [hdrop, List.sublist_cons_iff] at hsub
    rcases hsub with hsub | ⟨rest, rfl, hsub⟩
    · exact Or.inr ⟨chosen, hne, hsub, hlen, hbelow, rfl⟩
    rw [List.append_cons notes s.candidates[index] rest] at hbelow ⊢
    by_cases hrest : rest = []
    · rw [hrest, List.append_nil] at hbelow ⊢
      exact Or.inl (Or.inl ⟨hbelow, rfl⟩)
    · exact Or.inl (Or.inr ⟨rest, hrest, hsub, Nat.le_of_succ_le_succ hlen, hbelow, rfl⟩)
  · rintro ((⟨hbelow, rfl⟩ | ⟨chosen, hne, hsub, hlen, hbelow, rfl⟩) |
      ⟨chosen, hne, hsub, hlen, hbelow, rfl⟩)
    · refine ⟨[s.candidates[index]], List.cons_ne_nil _ _, ?_, Nat.le_add_left 1 slots, hbelow, rfl⟩
      rw [hdrop]
      exact List.singleton_sublist.mpr List.mem_cons_self
    · rw [← List.append_cons] at hbelow ⊢
      refine ⟨s.candidates[index] :: chosen, List.cons_ne_nil _ _, ?_, Nat.succ_le_succ hlen,
        hbelow, rfl⟩
      rw [hdrop]
      exact hsub.cons_cons _
    · exact ⟨chosen, hne, hsub.trans (List.drop_sublist_drop_left _ (Nat.le_succ _)), hlen, hbelow,
        rfl⟩

/-- A note that reaches the amount starts no set. -/
theorem below_of_reached (hs : s.Small) (hlt : index < s.candidates.length)
    (hnotes : (notes ++ [s.candidates[index]]).Sublist (s.candidates.take (index + 1)))
    (hreached : s.amount ≤ noteTotal (notes ++ [s.candidates[index]])) :
    s.below (slots + 1) index notes = s.below (slots + 1) (index + 1) notes := by
  have hover : s.below slots (index + 1) (notes ++ [s.candidates[index]]) = ∅ := by
    refine Set.eq_empty_iff_forall_notMem.mpr ?_
    rintro selection ⟨chosen, -, hsub, -, hbelow, -⟩
    have hall := sublist_of_split hnotes hsub
    rw [BitVec.lt_def, toNat_noteTotal_sublist hs.bounded hall, valueSum_append] at hbelow
    rw [BitVec.le_def,
      toNat_noteTotal_sublist hs.bounded (hnotes.trans (List.take_sublist _ _))] at hreached
    omega
  have hself : {selection | noteTotal (notes ++ [s.candidates[index]]) < s.amount ∧
      selection = selectionOf (notes ++ [s.candidates[index]])} = ∅ := by
    refine Set.eq_empty_iff_forall_notMem.mpr ?_
    rintro selection ⟨hbelow, -⟩
    exact absurd hbelow (BitVec.not_lt.mpr hreached)
  rw [below_split hlt, hself, hover, Set.empty_union, Set.empty_union]

theorem below_total_le (hs : s.Small) (hnotes : notes.Sublist (s.candidates.take start)) :
    ∀ selection ∈ s.below slots start notes,
      selection.total ≤ noteTotal notes + maxPossibleFrom s.candidates start slots := by
  rintro selection ⟨chosen, -, hsub, hlen, -, rfl⟩
  have hdesc : Descending (s.candidates.drop start) := hs.descending.sublist (List.drop_sublist _ _)
  have hmost := valueSum_le_take hdesc hsub hlen
  have hall := sublist_of_split hnotes (List.take_sublist slots (s.candidates.drop start))
  rw [maxPossibleFrom, ← noteTotal_append, BitVec.le_def,
    toNat_noteTotal_sublist hs.bounded hall, selectionOf]
  rw [toNat_noteTotal_sublist hs.bounded (sublist_of_split hnotes hsub),
    valueSum_append, valueSum_append]
  omega

/-- What looking at all sets of a collection would have left: the first of them if
    several are wanted, one with the largest total if only the best is. -/
structure Accounts (s : PartialSelectionSearch) (S : Set UtxoSelection) (st : State) : Prop where
  notes : ∀ selection ∈ S, ∃ notes, notes.Sublist s.candidates ∧ selection = selectionOf notes
  top : 1 < s.selectionLimit → TopList selectionMaxOrder s.selectionLimit S st.selections
  best : s.selectionLimit ≤ 1 → ∀ selection ∈ S, ∃ b ∈ st.best, selection.total ≤ b.total

theorem Accounts.visit (h : s.Accounts S st) :
    s.Accounts S { st with visitsLeft := st.visitsLeft - 1 } := ⟨h.notes, h.top, h.best⟩

theorem eq_of_key (hs : s.Small) {a b : UtxoSelection}
    (ha : ∃ notes, notes.Sublist s.candidates ∧ a = selectionOf notes)
    (hb : ∃ notes, notes.Sublist s.candidates ∧ b = selectionOf notes)
    (h : a.positionKey = b.positionKey) : a = b := by
  obtain ⟨first, hfirst, rfl⟩ := ha
  obtain ⟨second, hsecond, rfl⟩ := hb
  exact selectionOf_eq_of_key hs.distinct hfirst.subset hsecond.subset h

theorem push_topList (hs : s.Small) {selections : List UtxoSelection} {candidate : UtxoSelection}
    (hlimit : 1 < s.selectionLimit)
    (hcandidate : ∃ notes, notes.Sublist s.candidates ∧ candidate = selectionOf notes)
    (hS : ∀ selection ∈ S, ∃ notes, notes.Sublist s.candidates ∧ selection = selectionOf notes)
    (h : TopList selectionMaxOrder s.selectionLimit S selections) :
    TopList selectionMaxOrder s.selectionLimit (S ∪ {candidate})
      (pushUniqueSelectionCandidate selections candidate s.selectionLimit) := by
  have hself : ∀ existing ∈ selections, existing.positionKey = candidate.positionKey →
      candidate ∈ selections := fun existing hmem hkey =>
    eq_of_key hs (hS existing (h.mem existing hmem)) hcandidate hkey ▸ hmem
  rw [pushUniqueSelectionCandidate]
  split_ifs with hfull hknown
  · -- A full list, and the candidate is not before its last entry.
    obtain ⟨last, hlast, hbehind⟩ := (Option.any_eq_true _ _).mp hfull.2
    refine h.union_behind hfull.1 fun other hother => ?_
    rw [Set.mem_singleton_iff.mp hother]
    have hmem := List.mem_of_getLast? hlast
    cases hcmp : selectionMaxOrder candidate last with
    | lt => exact absurd hcmp (of_decide_eq_true hbehind)
    | eq => exact Or.inl (hself last hmem (selectionMaxOrder_eq hcmp).2.symm)
    | gt => exact Or.inr (lt_of_getLast_lt h.sorted hlast (Std.OrientedCmp.gt_iff_lt.mp hcmp))
  · obtain ⟨existing, hmem, hkey⟩ := List.any_eq_true.mp (hknown.resolve_left (by omega))
    have hin := h.mem candidate (hself existing hmem (of_decide_eq_true hkey))
    rwa [Set.union_eq_self_of_subset_right (Set.singleton_subset_iff.mpr hin)]
  · refine h.push fun b hb htie => hknown (Or.inr ?_)
    exact List.any_eq_true.mpr ⟨b, hb, decide_eq_true (selectionMaxOrder_eq htie).2⟩

theorem record_visitsLeft : (s.record total selected st).visitsLeft = st.visitsLeft := rfl

theorem Accounts.record (hs : s.Small) (h : s.Accounts S st)
    (hnotes : (pick s.candidates selected).Sublist s.candidates)
    (htotal : total = noteTotal (pick s.candidates selected)) :
    s.Accounts (S ∪ {selectionOf (pick s.candidates selected)}) (s.record total selected st) := by
  have hselection : (⟨normalizeSelection (pick s.candidates selected), total⟩ : UtxoSelection)
      = selectionOf (pick s.candidates selected) := by rw [htotal, selectionOf]
  rw [PartialSelectionSearch.record, hselection]
  refine ⟨?_, fun hlimit => ?_, fun hlimit => ?_⟩
  · rintro selection (hold | hnew)
    · exact h.notes selection hold
    · exact ⟨_, hnotes, hnew⟩
  · exact push_topList hs hlimit ⟨_, hnotes, rfl⟩ h.notes (h.top hlimit)
  · -- The kept best is worth at least the old one and the new one.
    have hkept : ∀ c, st.best = some c ∨ some (selectionOf (pick s.candidates selected)) = some c →
        ∃ b ∈ keepBest UtxoSelection.isBetterMaxThan st.best
          (some (selectionOf (pick s.candidates selected))), c.total ≤ b.total := fun c hc =>
      keepBest_measure _ (·.total.toNat) (fun _ _ => isBetterMaxThan_total.1)
        (fun _ _ => isBetterMaxThan_total.2) hc
    rintro selection (hold | hnew)
    · obtain ⟨c, hc, hle⟩ := h.best hlimit selection hold
      obtain ⟨b, hb, hcb⟩ := hkept c (Or.inl hc)
      exact ⟨b, hb, BitVec.le_trans hle hcb⟩
    · exact hkept selection (Or.inr (congrArg some hnew.symm))

theorem below_notes (hnotes : notes.Sublist (s.candidates.take start)) :
    ∀ selection ∈ s.below slots start notes,
      ∃ notes, notes.Sublist s.candidates ∧ selection = selectionOf notes := by
  rintro selection ⟨chosen, -, hsub, -, -, rfl⟩
  exact ⟨_, sublist_of_split hnotes hsub, rfl⟩

theorem Accounts.prune_best (hs : s.Small) (h : s.Accounts S st)
    (hp : s.Path slots start total selected)
    (hbest : s.selectionLimit ≤ 1 ∧ st.best.any (fun best =>
      total + maxPossibleFrom s.candidates start slots ≤ best.total) = true) :
    s.Accounts (S ∪ s.below slots start (pick s.candidates selected)) st := by
  obtain ⟨hlimit, hany⟩ := hbest
  refine ⟨fun selection hmem => hmem.elim (h.notes selection) (below_notes hp.sublist selection),
    fun hmany => absurd hmany (Nat.not_lt.mpr hlimit), fun _ selection hmem => ?_⟩
  obtain ⟨b, hb, hmost⟩ := (Option.any_eq_true _ _).mp hany
  rw [decide_eq_true_eq, hp.total] at hmost
  rcases hmem with hold | hnew
  · exact h.best hlimit selection hold
  · exact ⟨b, hb, BitVec.le_trans (below_total_le hs hp.sublist selection hnew) hmost⟩

theorem Accounts.prune_top (hs : s.Small) (h : s.Accounts S st)
    (hp : s.Path slots start total selected)
    (htop : 1 < s.selectionLimit ∧ s.selectionLimit ≤ st.selections.length ∧
      st.selections.getLast?.any (fun selection =>
        total + maxPossibleFrom s.candidates start slots < selection.total) = true) :
    s.Accounts (S ∪ s.below slots start (pick s.candidates selected)) st := by
  obtain ⟨hlimit, hfull, hany⟩ := htop
  refine ⟨fun selection hmem => hmem.elim (h.notes selection) (below_notes hp.sublist selection),
    fun _ => (h.top hlimit).union_behind hfull fun selection hnew => Or.inr ?_,
    fun hone => absurd hlimit (Nat.not_lt.mpr hone)⟩
  obtain ⟨last, hlast, hmost⟩ := (Option.any_eq_true _ _).mp hany
  rw [decide_eq_true_eq, hp.total] at hmost
  have hle := below_total_le hs hp.sublist selection hnew
  exact lt_of_getLast_lt (h.top hlimit).sorted hlast
    (selectionMaxOrder_of_total (Nat.lt_of_le_of_lt hle hmost))

/-- What a call does to a state that accounts for `S`: it accounts for its own
    sets too, and spends at most a visit for each. -/
def Covers (s : PartialSelectionSearch) (count : Nat) (S : Set UtxoSelection) (st st' : State) :
    Prop :=
  s.Accounts S st' ∧ st.visitsLeft + 1 ≤ st'.visitsLeft + 2 ^ count

/-- What is shown of a call: it adds the sets it may add. -/
def CallAccounts (s : PartialSelectionSearch) (slots : Nat) : Prop :=
  ∀ start total selected st S, s.Path slots start total selected →
    s.Accounts S st → 2 ^ (s.candidates.length - start) ≤ st.visitsLeft + 1 →
    s.Covers (s.candidates.length - start)
      (S ∪ s.below slots start (pick s.candidates selected)) st
      (s.search slots start total selected st)

theorem searchLoop_accounts (hs : s.Small) (hp : s.Path (slots + 1) start total selected)
    (hdescend : s.CallAccounts slots) {count : Nat} (hstart : start ≤ index)
    (hend : index + count = s.candidates.length) (hst : s.Accounts S st)
    (hvisits : 2 ^ count ≤ st.visitsLeft + 1) :
    s.Covers count (S ∪ s.below (slots + 1) index (pick s.candidates selected)) st
      (s.searchLoop total selected (s.search slots) (List.range' index count) st) := by
  induction count generalizing index st S with
  | zero =>
    rw [below_end (by omega), Set.union_empty]
    exact ⟨hst, Nat.le_refl _⟩
  | succ count ih =>
    have hlt : index < s.candidates.length := by omega
    have hpos : 0 < 2 ^ count := Nat.two_pow_pos count
    have hstep := hp.step hstart hlt
    have hnotes := hstep.sublist
    have htotal := hstep.total
    rw [pick_append_singleton hlt] at hnotes htotal
    rw [List.range'_succ, searchLoop, if_neg (by omega)]
    dsimp only
    split_ifs with hreached
    · rw [htotal] at hreached
      rw [below_of_reached hs hlt hnotes hreached]
      obtain ⟨haccounts, hleft⟩ := ih (show start ≤ index + 1 by omega) (by omega)
        hst.visit (by dsimp only; omega)
      exact ⟨haccounts, by dsimp only at hleft; omega⟩
    · have hrecord := hst.visit.record hs (hstep.sublist.trans (List.take_sublist _ _)) hstep.total
      have hcount : s.candidates.length - (index + 1) = count := by omega
      obtain ⟨hdeep, hdeepLeft⟩ := hdescend _ _ _ _ _ hstep hrecord (by
        rw [record_visitsLeft, hcount]
        dsimp only
        omega)
      rw [record_visitsLeft, hcount] at hdeepLeft
      dsimp only at hdeepLeft
      obtain ⟨haccounts, hleft⟩ := ih (show start ≤ index + 1 by omega) (by omega) hdeep (by omega)
      refine ⟨?_, by omega⟩
      -- The set recorded, those below it, and those without the note.
      have hself : {selection | noteTotal (pick s.candidates selected ++ [s.candidates[index]])
          < s.amount ∧ selection
            = selectionOf (pick s.candidates selected ++ [s.candidates[index]])}
          = {selectionOf (pick s.candidates selected ++ [s.candidates[index]])} := by
        rw [htotal, BitVec.not_le] at hreached
        ext selection
        exact and_iff_right hreached
      rw [pick_append_singleton hlt] at haccounts
      rw [below_split hlt, hself, ← Set.union_assoc, ← Set.union_assoc]
      exact haccounts

/-- A call accounts for its sets. -/
theorem search_accounts (hs : s.Small) (slots : Nat) : s.CallAccounts slots := by
  induction slots with
  | zero =>
    intro start total selected st S _ hst _
    have hpos := Nat.two_pow_pos (s.candidates.length - start)
    rw [below_zero, Set.union_empty]
    exact ⟨hst, by rw [search]; omega⟩
  | succ slots ih =>
    intro start total selected st S hp hst hvisits
    have hpos := Nat.two_pow_pos (s.candidates.length - start)
    rw [search]
    split_ifs with hend hbest htop
    · rw [below_end hend, Set.union_empty]
      exact ⟨hst, by omega⟩
    · exact ⟨hst.prune_best hs hp hbest, by omega⟩
    · exact ⟨hst.prune_top hs hp htop, by omega⟩
    · exact searchLoop_accounts hs hp ih (le_refl _) (by omega) hst hvisits

theorem run_accounts (hs : s.Small) :
    s.Accounts (s.below s.maxInputCount 0 []) s.run ∧ 0 < s.run.visitsLeft := by
  have hempty : s.Accounts ∅ ⟨none, [], maxSelectionSearchVisits⟩ :=
    ⟨fun _ h => absurd h (Set.notMem_empty _), fun _ => TopList.empty,
      fun _ _ h => absurd h (Set.notMem_empty _)⟩
  have hpow : 2 ^ s.candidates.length ≤ maxSelectionSearchVisits :=
    Nat.pow_le_pow_right (by decide) hs.few
  obtain ⟨haccounts, hleft⟩ := search_accounts hs s.maxInputCount 0 0 [] _ ∅ (.start _ _)
    hempty (by dsimp only; rw [Nat.sub_zero]; omega)
  rw [Set.empty_union] at haccounts
  rw [Nat.sub_zero] at hleft
  exact ⟨haccounts, by dsimp only at hleft; rw [run]; omega⟩

end PartialSelectionSearch

/-- The nonempty sets of at most `maxInputs` notes worth less than an amount. -/
def subsetsBelow (notes : List Utxo) (amount : U256) (maxInputs : Nat) : List (List Utxo) :=
  notes.sublists.filter fun chosen =>
    chosen ≠ [] ∧ chosen.length ≤ maxInputs ∧ valueSum chosen < amount.toNat

variable {notes : List Utxo}

theorem mem_subsetsBelow {chosen : List Utxo} {amount : U256} {maxInputs : Nat} :
    chosen ∈ subsetsBelow notes amount maxInputs ↔ chosen.Sublist notes ∧ chosen ≠ [] ∧
      chosen.length ≤ maxInputs ∧ valueSum chosen < amount.toNat := by
  rw [subsetsBelow, List.mem_filter, List.mem_sublists, decide_eq_true_eq]

/-- No two sets of notes at distinct positions compare as equal. -/
theorem subsetsBelow_no_ties (amount : U256) (maxInputs : Nat)
    (hdistinct : (notes.map fromUtxo).Nodup) :
    ((subsetsBelow notes amount maxInputs).map selectionOf).Pairwise
      fun a b => selectionMaxOrder a b ≠ .eq := by
  have hsets : notes.sublists.Pairwise fun a b => ¬ a.Perm b := by
    have hnodup := Multiset.nodup_powerset.mpr (Multiset.coe_nodup.mpr hdistinct.of_map)
    exact (List.pairwise_map.mp hnodup).imp fun hne hperm => hne (Multiset.coe_eq_coe.mpr hperm)
  rw [List.pairwise_map]
  refine (hsets.sublist List.filter_sublist).imp_of_mem fun ha hb hne htie => hne ?_
  exact perm_of_key hdistinct (mem_subsetsBelow.mp ha).1.subset (mem_subsetsBelow.mp hb).1.subset
    (selectionMaxOrder_eq htie).2

section Notes

variable {amount : U256} {maxInputs limit : Nat} (hdistinct : (notes.map fromUtxo).Nodup)
  (hsum : valueSum notes < 2 ^ 256)
include hdistinct hsum

theorem small_of_notes (amount : U256) (maxInputs limit : Nat) (hfew : notes.length ≤ 13) :
    PartialSelectionSearch.Small ⟨sortSearchCandidates notes, amount, maxInputs, limit⟩ where
  descending := sortSearchCandidates_descending notes
  distinct := subperm_identities_nodup (sortSearchCandidates_perm notes).subperm hdistinct
  bounded := by rwa [valueSum_perm (sortSearchCandidates_perm notes)]
  few := by rwa [(sortSearchCandidates_perm notes).length_eq]

omit hdistinct in
/-- A set of sorted notes is a set of the notes, in another order. -/
theorem subset_of_sorted {chosen : List Utxo} (hne : chosen ≠ [])
    (hsub : chosen.Sublist (sortSearchCandidates notes)) (hlen : chosen.length ≤ maxInputs)
    (hbelow : noteTotal chosen < amount) :
    ∃ set ∈ subsetsBelow notes amount maxInputs, set.Perm chosen := by
  obtain ⟨set, hperm, hset⟩ := hsub.subperm.trans (sortSearchCandidates_perm notes).subperm
  refine ⟨set, mem_subsetsBelow.mpr ⟨hset, ?_, hperm.length_eq ▸ hlen, ?_⟩, hperm⟩
  · exact fun hnil => hne (List.perm_nil.mp (hnil ▸ hperm.symm))
  · rwa [BitVec.lt_def, noteTotal_perm hperm.symm, toNat_noteTotal_sublist hsum hset] at hbelow

theorem below_eq_subsets :
    below ⟨sortSearchCandidates notes, amount, maxInputs, limit⟩
      maxInputs 0 [] = {selection | selection ∈
        (subsetsBelow notes amount maxInputs).map selectionOf} := by
  ext selection
  rw [Set.mem_ofPred_eq, List.mem_map]
  constructor
  · rintro ⟨chosen, hne, hsub, hlen, hbelow, rfl⟩
    obtain ⟨set, hset, hperm⟩ := subset_of_sorted hsum hne hsub hlen hbelow
    refine ⟨set, hset, selectionOf_perm (subperm_identities_nodup ?_ hdistinct) hperm⟩
    exact (mem_subsetsBelow.mp hset).1.subperm
  · rintro ⟨set, hset, rfl⟩
    obtain ⟨hset, hne, hlen, hbelow⟩ := mem_subsetsBelow.mp hset
    obtain ⟨chosen, hperm, hsub⟩ :=
      hset.subperm.trans (sortSearchCandidates_perm notes).symm.subperm
    refine ⟨chosen, ?_, hsub, hperm.length_eq ▸ hlen, ?_, ?_⟩
    · exact fun hnil => hne (List.perm_nil.mp (hnil ▸ hperm.symm))
    · rwa [List.nil_append, BitVec.lt_def, noteTotal_perm hperm, toNat_noteTotal_sublist hsum hset]
    · exact selectionOf_perm (subperm_identities_nodup hset.subperm hdistinct) hperm.symm

/-- The list a search of a small tree ends with is the front of all its sets. -/
theorem run_selections (amount : U256) (maxInputs : Nat) (hfew : notes.length ≤ 13)
    (hlimit : 1 < limit) :
    (run ⟨sortSearchCandidates notes, amount, maxInputs, limit⟩).selections
      = (sortBy selectionMaxOrder
        ((subsetsBelow notes amount maxInputs).map selectionOf)).take limit := by
  have htop := (run_accounts
    (small_of_notes hdistinct hsum amount maxInputs limit hfew)).1.top hlimit
  rw [below_eq_subsets hdistinct hsum] at htop
  exact htop.eq_take_sort (subsetsBelow_no_ties amount maxInputs hdistinct)

/-- The best a search of a small tree ends with has the largest total of its sets. -/
theorem run_best (amount : U256) (maxInputs : Nat) (hfew : notes.length ≤ 13) :
    (∀ set ∈ subsetsBelow notes amount maxInputs, ∃ b ∈ (run
        ⟨sortSearchCandidates notes, amount, maxInputs, 1⟩).best,
        valueSum set ≤ b.total.toNat) ∧
      ∀ b ∈ (run
        ⟨sortSearchCandidates notes, amount, maxInputs, 1⟩).best,
        ∃ set ∈ subsetsBelow notes amount maxInputs, b.total.toNat = valueSum set := by
  have haccounts := (run_accounts (small_of_notes hdistinct hsum amount maxInputs 1 hfew)).1
  refine ⟨fun set hset => ?_, fun b hb => ?_⟩
  · have hmem : selectionOf set ∈ below
        ⟨sortSearchCandidates notes, amount, maxInputs, 1⟩ maxInputs 0 [] := by
      rw [below_eq_subsets hdistinct hsum]
      exact List.mem_map_of_mem hset
    obtain ⟨b, hb, hle⟩ := haccounts.best (le_refl 1) _ hmem
    rw [selectionOf, BitVec.le_def,
      toNat_noteTotal_sublist hsum (mem_subsetsBelow.mp hset).1] at hle
    exact ⟨b, hb, hle⟩
  · obtain ⟨⟨chosen, hsub, hne, hlen, hperm⟩, htotal, hbelow⟩ := (run_valid _).1 b hb
    rw [htotal, noteTotal_perm hperm] at hbelow ⊢
    obtain ⟨set, hset, hsetPerm⟩ := subset_of_sorted hsum hne hsub hlen hbelow
    refine ⟨set, hset, ?_⟩
    rw [noteTotal_perm hsetPerm.symm, toNat_noteTotal_sublist hsum (mem_subsetsBelow.mp hset).1]

end Notes

section Wallet

variable {utxos : List Utxo} {token : Address}

theorem treeNotes_distinct (tree : Nat)
    (hdistinct : (utxos.map fromUtxo).Nodup) :
    ((treeNotes token utxos tree).map fromUtxo).Nodup :=
  subperm_identities_nodup (treeNotes_subperm token utxos tree) hdistinct

theorem treeNotes_bounded (tree : Nat) (hsum : valueSum utxos < 2 ^ 256) :
    valueSum (treeNotes token utxos tree) < 2 ^ 256 :=
  lt_of_le_of_lt (valueSum_subperm (treeNotes_subperm token utxos tree)) hsum

theorem treeNotes_of_subset {tree : Nat} {amount : U256} {maxInputs : Nat} {set : List Utxo}
    (h : set ∈ subsetsBelow (treeNotes token utxos tree) amount maxInputs) :
    treeNotes token utxos tree ∈ treeGroups utxos token := by
  obtain ⟨hsub, hne, -⟩ := mem_subsetsBelow.mp h
  refine treeNotes_mem_treeGroups fun hnil => hne ?_
  rw [hnil] at hsub
  exact List.sublist_nil.mp hsub

/-- With small trees, the largest total below a limit is the largest of all sets
    of all trees. -/
theorem maxTreeTotalBelow_spec (limit : U256) (maxInputs : Nat)
    (hdistinct : (utxos.map fromUtxo).Nodup)
    (hsum : valueSum utxos < 2 ^ 256)
    (hfew : ∀ tree, (treeNotes token utxos tree).length ≤ 13) :
    (maxTreeTotalBelow utxos token limit maxInputs = none ↔
        ∀ tree, subsetsBelow (treeNotes token utxos tree) limit maxInputs = []) ∧
      ∀ total, maxTreeTotalBelow utxos token limit maxInputs = some total →
        IsGreatest {value | ∃ tree, ∃ set ∈ subsetsBelow (treeNotes token utxos tree) limit
          maxInputs, value = valueSum set} total.toNat := by
  have hbest := fun tree => run_best (@treeNotes_distinct utxos token tree hdistinct)
    (treeNotes_bounded tree hsum) limit maxInputs (hfew tree)
  rw [maxTreeTotalBelow]
  generalize htotals : (treeGroups utxos token).filterMap (fun candidates =>
    (run ⟨sortSearchCandidates candidates, limit, maxInputs, 1⟩).best.map
      (·.total)) = totals
  -- Every set is below a total that some search has found, and every total is that of a set.
  have hbelow : ∀ tree, ∀ set ∈ subsetsBelow (treeNotes token utxos tree) limit maxInputs,
      ∃ total ∈ totals, valueSum set ≤ total.toNat := by
    intro tree set hset
    obtain ⟨b, hb, hle⟩ := (hbest tree).1 set hset
    refine ⟨b.total, ?_, hle⟩
    rw [← htotals, List.mem_filterMap]
    exact ⟨_, treeNotes_of_subset hset, by rw [hb, Option.map_some]⟩
  have hreached : ∀ total ∈ totals, ∃ tree, ∃ set ∈ subsetsBelow (treeNotes token utxos tree)
      limit maxInputs, total.toNat = valueSum set := by
    intro total hmem
    rw [← htotals, List.mem_filterMap] at hmem
    obtain ⟨group, hgroup, hmap⟩ := hmem
    obtain ⟨tree, -, rfl⟩ := mem_treeGroups.mp hgroup
    obtain ⟨b, hb, rfl⟩ := Option.map_eq_some_iff.mp hmap
    obtain ⟨set, hset, hworth⟩ := (hbest tree).2 b hb
    exact ⟨tree, set, hset, hworth⟩
  refine ⟨⟨fun hnone tree => ?_, fun hempty => ?_⟩, fun total htotal => ⟨?_, ?_⟩⟩
  · refine List.eq_nil_iff_forall_not_mem.mpr fun set hset => ?_
    obtain ⟨total, hmem, -⟩ := hbelow tree set hset
    have hsome := maxTotal_isSome (List.ne_nil_of_mem hmem)
    rw [hnone] at hsome
    cases hsome
  · cases hmax : maxTotal totals with
    | none => rfl
    | some total =>
      obtain ⟨tree, set, hset, -⟩ := hreached total (maxTotal_mem hmax)
      rw [hempty tree] at hset
      cases hset
  · obtain ⟨tree, set, hset, hworth⟩ := hreached total (maxTotal_mem htotal)
    exact ⟨tree, set, hset, hworth⟩
  · rintro value ⟨tree, set, hset, rfl⟩
    obtain ⟨found, hmem, hle⟩ := hbelow tree set hset
    exact le_trans hle (le_maxTotal htotal found hmem)

end Wallet

/-- With at most thirteen notes in a tree, the list of a partial search is the
    front of all sets of the tree below the amount, and the largest total below a
    limit is the largest of all sets of all trees. -/
theorem partialSelections_top (utxos : List Utxo) (token : Address)
    (hdistinct : (utxos.map fromUtxo).Nodup)
    (hsum : valueSum utxos < 2 ^ 256) :
    (∀ tree, (treeNotes token utxos tree).length ≤ 13 → ∀ amount maxInputs limit, 1 < limit →
      (run
        { candidates := sortSearchCandidates (treeNotes token utxos tree), amount := amount,
          maxInputCount := maxInputs, selectionLimit := limit }).selections
        = (sortBy selectionMaxOrder ((subsetsBelow (treeNotes token utxos tree) amount
          maxInputs).map selectionOf)).take limit) ∧
      ((∀ tree, (treeNotes token utxos tree).length ≤ 13) → ∀ limit maxInputs,
        (maxTreeTotalBelow utxos token limit maxInputs = none ↔
          ∀ tree, subsetsBelow (treeNotes token utxos tree) limit maxInputs = []) ∧
        ∀ total, maxTreeTotalBelow utxos token limit maxInputs = some total →
          IsGreatest {value | ∃ tree, ∃ set ∈ subsetsBelow (treeNotes token utxos tree) limit
            maxInputs, value = valueSum set} total.toNat) :=
  ⟨fun tree hfew amount maxInputs _ hlimit => run_selections
      (treeNotes_distinct tree hdistinct) (treeNotes_bounded tree hsum) amount maxInputs hfew
        hlimit,
    fun hfew limit maxInputs => maxTreeTotalBelow_spec limit maxInputs hdistinct hsum hfew⟩

/-- Two notes of value five in different trees: the one set of a tree below six, and
    the largest total below it. -/
theorem partialSelections_top_twoTreeWallet :
    (treeNotes 1 twoTreeWallet 0).length ≤ 13 ∧
      (run
        { candidates := sortSearchCandidates (treeNotes 1 twoTreeWallet 0), amount := 6,
          maxInputCount := 2, selectionLimit := 4 }).selections
        = (sortBy selectionMaxOrder ((subsetsBelow (treeNotes 1 twoTreeWallet 0) 6 2).map
          selectionOf)).take 4 ∧
      ((sortBy selectionMaxOrder ((subsetsBelow (treeNotes 1 twoTreeWallet 0) 6 2).map
          selectionOf)).take 4).length = 1 ∧
      (∀ tree, (treeNotes 1 twoTreeWallet tree).length ≤ 13) ∧
      maxTreeTotalBelow twoTreeWallet 1 6 2 = some 5 ∧
      IsGreatest {value | ∃ tree, ∃ set ∈ subsetsBelow (treeNotes 1 twoTreeWallet tree) 6 2,
        value = valueSum set} 5 := by
  have hfew : ∀ tree, (treeNotes 1 twoTreeWallet tree).length ≤ 13 := fun tree =>
    le_trans (treeNotes_subperm 1 twoTreeWallet tree).length_le (by decide)
  have hmax : maxTreeTotalBelow twoTreeWallet 1 6 2 = some 5 := by decide +kernel
  obtain ⟨htop, hbelow⟩ := partialSelections_top twoTreeWallet 1 (by decide) (by decide)
  exact ⟨hfew 0, htop 0 (hfew 0) 6 2 4 (by decide), by decide +kernel, hfew, hmax,
    (hbelow hfew 6 2).2 5 hmax⟩

end Railgun
