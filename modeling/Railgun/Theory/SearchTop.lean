import Railgun.Lib.CompareAll
import Railgun.Lib.DescendingSum
import Railgun.Theory.SearchSound

/-!
# The First Path of a Search

A search tries the notes of a tree by descending value, so the first path it
follows takes the largest notes. That path is never pruned as long as it is
acceptable: nothing has been found yet, the largest remaining notes are exactly
the ones it takes, and the smallest remaining ones are not larger. It needs one
visit per note, so the visit budget cannot stop it, however many notes the tree
has.

## Main definitions

* `Descending`: Candidates by descending value.

## Theorems

* `sortSearchCandidates_descending`: The searches try notes by descending
  value.
* `valueSum_le_take`, `valueSum_drop_le`: The largest and the smallest choice
  of so many notes.
* `SearchPath.bounds`, `SearchPath.top`: What the sets below a call are worth, and
  what the first path has taken.
* `SelectionSearch.first_path_isSome`: The first path is found from every node
  on it.
-/

namespace Railgun

theorem compare_isLE_iff (a b : U256) : (compare a b).isLE = true ↔ a ≤ b := by
  have hcompare : compare a b = if a < b then .lt else if a = b then .eq else .gt := rfl
  rw [hcompare]
  split_ifs with hlt heq
  · exact iff_of_true rfl (BitVec.le_of_lt hlt)
  · exact iff_of_true rfl (heq ▸ BitVec.le_refl a)
  · exact iff_of_false nofun (by bv_omega)

theorem sortBy_pairwise {α : Type} (cmp : α → α → Ordering) [Std.TransCmp cmp] (l : List α) :
    (sortBy cmp l).Pairwise (fun a b => (cmp a b).isLE = true) :=
  insertionSort_pairwise cmp l

instance searchOrder_trans : Std.TransCmp searchOrder := by
  have hvalue : Std.TransCmp (fun a b : Utxo => compare b.note.value a.note.value) :=
    @Std.TransCmp.opposite _ (compareOn fun utxo : Utxo => utxo.note.value) _
  unfold searchOrder
  infer_instance

/-- Candidates by descending value. -/
def Descending (candidates : List Utxo) : Prop :=
  candidates.Pairwise fun a b => b.note.value.toNat ≤ a.note.value.toNat

theorem sortSearchCandidates_descending (candidates : List Utxo) :
    Descending (sortSearchCandidates candidates) := by
  refine (sortBy_pairwise searchOrder candidates).imp ?_
  intro a b h
  rw [searchOrder, compareLex, Ordering.isLE_then_iff_and] at h
  exact (compare_isLE_iff _ _).mp h.1

variable {candidates : List Utxo}

theorem descending_values (h : Descending candidates) :
    (candidates.map (·.note.value.toNat)).Pairwise (fun a b => b ≤ a) :=
  List.pairwise_map.mpr h

theorem valueSum_le_take {chosen : List Utxo} {k : Nat}
    (hdesc : Descending candidates) (hsub : chosen.Sublist candidates)
    (hlen : chosen.length ≤ k) : valueSum chosen ≤ valueSum (candidates.take k) := by
  rw [valueSum, valueSum, List.map_take]
  refine sum_le_sum_take (descending_values hdesc) (hsub.map _) ?_
  rw [List.length_map]
  exact hlen

theorem valueSum_drop_le {chosen : List Utxo} (hdesc : Descending candidates)
    (hsub : chosen.Sublist candidates) :
    valueSum (candidates.drop (candidates.length - chosen.length)) ≤ valueSum chosen := by
  have hbound := sum_drop_le_sum (descending_values hdesc) (hsub.map (·.note.value.toNat))
  rw [List.length_map, List.length_map, ← List.map_drop] at hbound
  exact hbound

theorem valueSum_sublist {a b : List Utxo} (h : a.Sublist b) : valueSum a ≤ valueSum b :=
  valueSum_subperm h.subperm

theorem sublist_of_split {before after : List Utxo} {start : Nat}
    (hbefore : before.Sublist (candidates.take start))
    (hafter : after.Sublist (candidates.drop start)) : (before ++ after).Sublist candidates := by
  have hboth := hbefore.append hafter
  rwa [List.take_append_drop] at hboth

/-- A list starts at one of the notes and goes on behind it. -/
theorem exists_of_cons_sublist {first : Utxo} {rest : List Utxo}
    (h : (first :: rest).Sublist candidates) :
    ∃ index, candidates[index]? = some first ∧ rest.Sublist (candidates.drop (index + 1)) := by
  induction candidates with
  | nil => exact absurd (List.sublist_nil.mp h) (List.cons_ne_nil _ _)
  | cons head tail ih =>
    cases h with
    | cons _ h =>
      obtain ⟨index, hget, hrest⟩ := ih h
      exact ⟨index + 1, hget, hrest⟩
    | cons_cons _ h => exact ⟨0, rfl, h⟩

/-- The total of some of the candidates does not wrap if that of all does not. -/
theorem toNat_noteTotal_sublist {chosen : List Utxo} (hbounded : valueSum candidates < 2 ^ 256)
    (hsub : chosen.Sublist candidates) : (noteTotal chosen).toNat = valueSum chosen :=
  toNat_noteTotal (lt_of_le_of_lt (valueSum_sublist hsub) hbounded)

section Path

variable {target remaining start index : Nat} {total : U256} {selected : List Nat}

/-- The total of a call is the true sum of its notes. -/
theorem SearchPath.toNat_total (hp : SearchPath candidates target remaining start total selected)
    (hbounded : valueSum candidates < 2 ^ 256) :
    total.toNat = valueSum (pick candidates selected) := by
  rw [hp.total, toNat_noteTotal_sublist hbounded (hp.sublist.trans (List.take_sublist _ _))]

/-- What a set of a call is worth: at least what it has and the smallest notes, at
    most what it has and the largest notes left. -/
theorem SearchPath.bounds (hp : SearchPath candidates target remaining start total selected)
    (hdesc : Descending candidates) (hbounded : valueSum candidates < 2 ^ 256)
    {chosen : List Utxo} (hsub : chosen.Sublist (candidates.drop start))
    (hlen : chosen.length = remaining) :
    total.toNat ≤ valueSum (pick candidates selected ++ chosen) ∧
      (total + minPossibleFrom candidates remaining).toNat
        ≤ valueSum (pick candidates selected ++ chosen) ∧
      valueSum (pick candidates selected ++ chosen)
        ≤ (total + maxPossibleFrom candidates start remaining).toNat := by
  have hsmallest := valueSum_drop_le hdesc (hsub.trans (List.drop_sublist _ _))
  have hlargest := valueSum_le_take (hdesc.sublist (List.drop_sublist start _)) hsub
    (Nat.le_of_eq hlen)
  have hlast := toNat_noteTotal_le
    (pick candidates selected ++ candidates.drop (candidates.length - remaining))
  have hfirst := toNat_noteTotal_sublist hbounded
    (sublist_of_split hp.sublist (List.take_sublist remaining (candidates.drop start)))
  rw [hlen] at hsmallest
  rw [valueSum_append] at hfirst hlast
  rw [hp.toNat_total hbounded, hp.total, minPossibleFrom, maxPossibleFrom, ← noteTotal_append,
    ← noteTotal_append, hfirst, valueSum_append]
  exact ⟨Nat.le_add_right _ _, le_trans hlast (Nat.add_le_add_left hsmallest _),
    Nat.add_le_add_left hlargest _⟩

/-- A path that has skipped no note has taken the largest ones. -/
theorem SearchPath.top (hp : SearchPath candidates target remaining start total selected)
    (hstart : start + remaining = target) (hlen : start ≤ candidates.length) :
    pick candidates selected = candidates.take start := by
  have hlength := hp.length
  refine hp.sublist.eq_of_length ?_
  rw [List.length_take, Nat.min_eq_left hlen]
  omega

end Path

namespace SelectionSearch

/-- A search in which taking the largest notes is acceptable. -/
structure TopAcceptable (s : SelectionSearch) : Prop where
  descending : Descending s.candidates
  bounded : valueSum s.candidates < 2 ^ 256
  enough : s.targetCount ≤ s.candidates.length
  covers : s.amount.toNat ≤ valueSum (s.candidates.take s.targetCount)
  exact : s.exactOnly = true → s.amount.toNat = valueSum (s.candidates.take s.targetCount)
  signature : 2 + s.targetCount + s.baseOutputCount ≤ maxSignatureInputs

variable {total : U256} {s : SelectionSearch} {selected : List Nat} {st : State}
  {remaining start : Nat}

theorem recordIfValid_isSome (h : st.best.isSome = true ∨ s.Accepts total) :
    (s.recordIfValid total selected st).best.isSome = true := by
  rcases s.recordIfValid_cases total selected st with ⟨hrejected, heq⟩ | ⟨-, heq⟩
  · rw [heq]
    exact h.resolve_right hrejected
  · rw [heq]
    dsimp only
    exact keepBest_isSome _ (Or.inr rfl)

/-- A best selection is never lost. -/
theorem search_isSome (hp : s.Path remaining start total selected)
    (h : st.best.isSome = true) :
    (s.search remaining start total selected st).best.isSome = true :=
  search_preserves s (fun st => st.best.isSome = true) (fun _ hst => hst)
    (fun _ _ _ _ _ hst => recordIfValid_isSome (Or.inl hst)) remaining start total selected st hp h

/-- The bounds of a path that has skipped no note, against the largest notes. -/
theorem top_bounds (hs : s.TopAcceptable) (hp : s.Path remaining start total selected)
    (hstart : start + remaining = s.targetCount) :
    total.toNat ≤ valueSum (s.candidates.take s.targetCount) ∧
      (total + minPossibleFrom s.candidates remaining).toNat
        ≤ valueSum (s.candidates.take s.targetCount) ∧
      valueSum (s.candidates.take s.targetCount)
        ≤ (total + maxPossibleFrom s.candidates start remaining).toNat := by
  have henough := hs.enough
  have hbounds := hp.bounds hs.descending hs.bounded (List.take_sublist remaining _)
    (by rw [List.length_take, List.length_drop]; omega)
  rwa [hp.top hstart (by omega), ← List.take_add, hstart] at hbounds

/-- The first path is found from every node on it. -/
theorem first_path_isSome (hs : s.TopAcceptable) (hp : s.Path remaining start total selected)
    (hstart : start + remaining = s.targetCount) (hbest : st.best = none)
    (hvisits : remaining ≤ st.visitsLeft) :
    (s.search remaining start total selected st).best.isSome = true := by
  have henough := hs.enough
  induction remaining generalizing start total selected st with
  | zero =>
    have htotal := hp.toNat_total hs.bounded
    rw [hp.top hstart (by omega), show start = s.targetCount from hstart] at htotal
    exact recordIfValid_isSome (Or.inr (accepts_of_covers hs.signature (htotal ▸ hs.covers)
      fun hexact => htotal.trans (hs.exact hexact).symm))
  | succ remaining ih =>
    have hstep := hp.step (le_refl start) (by omega)
    obtain ⟨-, hmin, hmax⟩ := top_bounds hs hp hstart
    have hnext := (top_bounds hs hstep (by omega)).1
    -- No pruning rule applies to a node of the first path.
    have hexactOnly : ∀ w : U256, w.toNat ≤ valueSum (s.candidates.take s.targetCount) →
        ¬ (s.exactOnly = true ∧ s.amount < w) := by
      rintro w hw ⟨hexact, hlt⟩
      rw [BitVec.lt_def, hs.exact hexact] at hlt
      omega
    have hnone : ∀ p : UtxoSelection → Bool,
        ¬ (¬ s.exactOnly = true ∧ Option.any p st.best = true) := by
      rintro p ⟨_, hany⟩
      rw [hbest] at hany
      cases hany
    rw [search, if_neg (by omega), if_neg (hexactOnly _ hmin), if_neg (hnone _), if_neg
      (BitVec.not_lt.mpr (le_trans hs.covers hmax)), if_neg (hnone _)]
    -- The first index of the level is the next note of the path.
    obtain ⟨count, hcount⟩ : ∃ count,
        s.candidates.length - (remaining + 1) + 1 - start = count + 1 :=
      ⟨s.candidates.length - (remaining + 1) - start, by omega⟩
    rw [hcount, List.range'_succ, searchLoop, if_neg (fun h => Nat.lt_irrefl _ h.1),
      if_neg (by omega)]
    dsimp only
    rw [if_neg (hexactOnly _ hnext), if_neg (hnone _)]
    refine searchLoop_preserves s (fun st => st.best.isSome = true) start total selected _
      (fun _ hst => hst) _ _ ?_
      (ih hstep (by omega) hbest (by dsimp only; omega))
    intro index hmem st' hst'
    rcases List.mem_range'.mp hmem with ⟨i, hi, hindex⟩
    exact search_isSome (hp.step (by omega) (by omega)) hst'

/-- A search whose largest notes are acceptable finds a selection, within any
    visit budget that admits one note per input. -/
theorem run_isSome_of_top (hs : s.TopAcceptable)
    (hvisits : s.targetCount ≤ maxSelectionSearchVisits) : s.run.isSome = true :=
  first_path_isSome hs (.start _ _) (Nat.zero_add _) rfl hvisits

end SelectionSearch

end Railgun
