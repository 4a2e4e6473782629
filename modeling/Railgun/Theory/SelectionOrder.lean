import Railgun.Lib.CompareAll
import Railgun.Theory.Candidates

/-!
# How Selections Compare

A search keeps the better of two selections, and a list of selections is sorted.
Both ways to compare are one order: by total, number of inputs and positions when
as much as possible is wanted, by number of inputs, excess and positions when an
amount is to be covered.

A selection of given notes lists them by position, so notes at distinct positions
make one selection in whatever order they were chosen, and its positions tell which
notes they were.

## Main definitions

* `selectionOf`: The selection of given notes.

## Theorems

* `isBetterMaxThan_iff`: Better at the maximum is smaller in the order of sorting.
* `isBetterForAmountThan_iff`: The same for covering an amount.
* `selectionMaxOrder_eq`: Selections that tie have the same positions.
* `selectionOf_perm`: The order of the choice does not matter.
* `selectionOf_eq_of_key`: The positions tell a selection.
* `positionKey_replace_le`: A note at a smaller position makes smaller positions.
-/

namespace Railgun

open SelectedInputIdentity (fromUtxo)

instance selectionMaxOrder_trans : Std.TransCmp selectionMaxOrder := by
  have htotal : Std.TransCmp (fun a b : UtxoSelection => compare b.total a.total) :=
    @Std.TransCmp.opposite _ (compareOn fun selection : UtxoSelection => selection.total) _
  unfold selectionMaxOrder
  infer_instance

instance selectionAmountOrder_trans (amount : U256) :
    Std.TransCmp (selectionAmountOrder amount) := by
  unfold selectionAmountOrder
  infer_instance

theorem then_test_iff {first second : Ordering} {test : Bool}
    (htest : test = true ↔ second = .lt) :
    ((match first with
      | .lt => true
      | .gt => false
      | .eq => test) = true) ↔ first.then second = .lt := by
  cases first with
  | lt => simp only [Ordering.then]
  | eq => exact htest
  | gt => simp only [Ordering.then, reduceCtorEq, Bool.false_eq_true]

theorem positionKey_test_iff (a b : UtxoSelection) :
    decide (a.positionKey < b.positionKey) = true ↔
      compareOn UtxoSelection.positionKey a b = .lt := by
  rw [decide_eq_true_eq]
  exact (compare_list_lt _ _).symm

/-- The test of the maximum search is an order. -/
theorem isBetterMaxThan_iff (selection best : UtxoSelection) :
    selection.isBetterMaxThan best = true ↔ selectionMaxOrder selection best = .lt := by
  have hswap : compare best.total selection.total
      = (compare selection.total best.total).swap := Std.OrientedCmp.eq_swap
  have hinputs := @then_test_iff (compare selection.utxos.length best.utxos.length) _ _
    (positionKey_test_iff selection best)
  rw [UtxoSelection.isBetterMaxThan, selectionMaxOrder, compareLex, hswap]
  cases compare selection.total best.total with
  | lt => simp [Ordering.swap, Ordering.then]
  | gt => simp only [Ordering.swap, Ordering.then]
  | eq => exact hinputs

/-- So is the test of the search for an amount. -/
theorem isBetterForAmountThan_iff (selection best : UtxoSelection) (amount : U256) :
    selection.isBetterForAmountThan best amount = true ↔
      selectionAmountOrder amount selection best = .lt :=
  then_test_iff (then_test_iff (positionKey_test_iff selection best))

theorem positionKey_of_compare_eq {a b : UtxoSelection}
    (h : compareOn UtxoSelection.positionKey a b = .eq) : a.positionKey = b.positionKey := by
  have hswap : compareOn UtxoSelection.positionKey b a = .eq := Std.OrientedCmp.eq_comm.mp h
  refine le_antisymm (not_lt.mp fun hlt => ?_) (not_lt.mp fun hlt => ?_)
  · have hcompare := (positionKey_test_iff b a).mp (decide_eq_true hlt)
    rw [hswap] at hcompare
    exact absurd hcompare (by decide)
  · have hcompare := (positionKey_test_iff a b).mp (decide_eq_true hlt)
    rw [h] at hcompare
    exact absurd hcompare (by decide)

theorem selectionMaxOrder_of_total {a b : UtxoSelection} (h : b.total < a.total) :
    selectionMaxOrder a b = .lt := by
  have hcompare : compare b.total a.total
      = if b.total < a.total then .lt else if b.total = a.total then .eq else .gt := rfl
  rw [selectionMaxOrder, compareLex, hcompare, if_pos h]
  rfl

/-- Selections that tie have the same total and the same places. -/
theorem selectionMaxOrder_eq {a b : UtxoSelection} (h : selectionMaxOrder a b = .eq) :
    compare b.total a.total = .eq ∧ a.positionKey = b.positionKey := by
  rw [selectionMaxOrder, compareLex_eq_eq, compareLex_eq_eq] at h
  exact ⟨h.1, positionKey_of_compare_eq h.2.2⟩

/-- The selection of some notes. -/
def selectionOf (notes : List Utxo) : UtxoSelection :=
  { utxos := normalizeSelection notes, total := noteTotal notes }

/-- A selection does not depend on the order of its notes. -/
theorem selectionOf_perm {a b : List Utxo}
    (hdistinct : (a.map fromUtxo).Nodup) (h : a.Perm b) :
    selectionOf a = selectionOf b := by
  have hsorted : normalizeSelection a = normalizeSelection b := by
    refine insertionSort_eq_of_perm h fun x hx y hy hxy => ?_
    rw [compareLex_eq_eq, compareOn, compareOn, compare_eq_iff_eq, compare_eq_iff_eq] at hxy
    refine List.inj_on_of_nodup_map hdistinct hx hy ?_
    rw [fromUtxo, fromUtxo, hxy.1, hxy.2]
  rw [selectionOf, selectionOf, hsorted, noteTotal_perm h]

theorem eq_of_map_eq {α β : Type} {f : α → β} {a b : List α} (h : a.map f = b.map f)
    (hinj : ∀ x ∈ a, ∀ y ∈ b, f x = f y → x = y) : a = b := by
  induction a generalizing b with
  | nil => exact (List.map_eq_nil_iff.mp h.symm).symm
  | cons x a ih =>
    cases b with
    | nil => cases h
    | cons y b =>
      rw [List.map_cons, List.map_cons, List.cons.injEq] at h
      rw [hinj x List.mem_cons_self y List.mem_cons_self h.1, ih h.2 fun x hx y hy =>
        hinj x (List.mem_cons_of_mem _ hx) y (List.mem_cons_of_mem _ hy)]

theorem normalize_eq_of_key {pool a b : List Utxo}
    (hdistinct : (pool.map fromUtxo).Nodup) (ha : a ⊆ pool) (hb : b ⊆ pool)
    (h : (selectionOf a).positionKey = (selectionOf b).positionKey) :
    normalizeSelection a = normalizeSelection b := by
  refine eq_of_map_eq h fun x hx y hy hxy => ?_
  refine List.inj_on_of_nodup_map hdistinct (ha ((normalizeSelection_perm a).subset hx))
    (hb ((normalizeSelection_perm b).subset hy)) ?_
  have hpositions := Prod.mk.inj (toLex_inj.mp hxy)
  rw [fromUtxo, fromUtxo, hpositions.1, hpositions.2]

/-- Where places are distinct, the places determine the notes. -/
theorem perm_of_key {pool a b : List Utxo}
    (hdistinct : (pool.map fromUtxo).Nodup) (ha : a ⊆ pool) (hb : b ⊆ pool)
    (h : (selectionOf a).positionKey = (selectionOf b).positionKey) : a.Perm b := by
  have hsorted := normalizeSelection_perm b
  rw [← normalize_eq_of_key hdistinct ha hb h] at hsorted
  exact (normalizeSelection_perm a).symm.trans hsorted

theorem selectionOf_eq_of_key {pool a b : List Utxo}
    (hdistinct : (pool.map fromUtxo).Nodup) (ha : a ⊆ pool) (hb : b ⊆ pool)
    (h : (selectionOf a).positionKey = (selectionOf b).positionKey) :
    selectionOf a = selectionOf b := by
  rw [selectionOf, selectionOf, normalize_eq_of_key hdistinct ha hb h,
    noteTotal_perm (perm_of_key hdistinct ha hb h)]

/-- Where a note is stored. -/
def noteKey (utxo : Utxo) : ℕ ×ₗ ℕ := toLex (utxo.tree, utxo.position)

theorem noteKey_le_iff (a b : Utxo) :
    (compareLex (compareOn fun utxo : Utxo => utxo.tree) (compareOn fun utxo : Utxo =>
      utxo.position) a b).isLE = true ↔ noteKey a ≤ noteKey b := by
  rw [compareLex, Ordering.isLE_then_iff_or, compareOn, compareOn, compare_lt_iff_lt,
    compare_eq_iff_eq, noteKey, noteKey, Prod.Lex.toLex_le_toLex]
  exact or_congr_right (and_congr_right fun _ => Nat.isLE_compare)

theorem positionKey_selectionOf (notes : List Utxo) :
    (selectionOf notes).positionKey = (notes.map noteKey).insertionSort (· ≤ ·) :=
  List.map_insertionSort _ _ noteKey notes fun a _ b _ => noteKey_le_iff a b

/-- A note at an earlier place makes the key smaller. -/
theorem positionKey_replace_le {before after : List Utxo} {note note' : Utxo}
    (h : noteKey note' ≤ noteKey note) :
    (selectionOf (before ++ note' :: after)).positionKey
      ≤ (selectionOf (before ++ note :: after)).positionKey := by
  have hfront : ∀ other : Utxo, ((before ++ other :: after).map noteKey).insertionSort (· ≤ ·)
      = (noteKey other :: (before ++ after).map noteKey).insertionSort (· ≤ ·) := by
    intro other
    rw [← List.map_cons]
    refine List.Perm.eq_of_pairwise (fun _ _ _ _ hab hba => le_antisymm hab hba)
      (List.pairwise_insertionSort _ _) (List.pairwise_insertionSort _ _) ?_
    exact (List.perm_insertionSort _ _).trans
      ((List.perm_middle.map noteKey).trans (List.perm_insertionSort _ _).symm)
  rw [positionKey_selectionOf, positionKey_selectionOf, hfront, hfront]
  exact insertionSort_cons_le _ h

end Railgun
