import Mathlib.Data.List.Lex
import Mathlib.Data.List.Sort

/-!
# Comparing Lists and Sorting Them

Lists are compared from the front. What is compared as smaller is put first by
sorting, so a sorted list does not depend on the order of what it was sorted from.

## Theorems

* `compare_list_lt`: Lists are compared from the front.
* `insertionSort_pairwise`: Sorting puts what compares as smaller first.
* `insertionSort_eq_of_perm`: Sorting forgets the order of the input.
* `insertionSort_cons_le`: A smaller element makes a smaller sorted list.
-/

namespace Railgun

section CompareAll

variable {α : Type}

theorem compare_list_lt [LinearOrder α] (a b : List α) : compare a b = .lt ↔ a < b := by
  rw [List.compare_eq_compareLex]
  induction a generalizing b with
  | nil =>
    cases b with
    | nil => simp only [List.compareLex_nil_nil, reduceCtorEq, lt_self_iff_false]
    | cons y ys => simp only [List.compareLex_nil_cons, List.nil_lt_cons]
  | cons x xs ih =>
    cases b with
    | nil => simp only [List.compareLex_cons_nil, reduceCtorEq, List.not_lt_nil]
    | cons y ys =>
      rw [List.compareLex_cons_cons, List.cons_lt_cons_iff, Ordering.then_eq_lt, ih,
        compare_lt_iff_lt, compare_eq_iff_eq]

theorem insertionSort_pairwise (cmp : α → α → Ordering) [Std.TransCmp cmp] (l : List α) :
    (l.insertionSort fun a b => (cmp a b).isLE = true).Pairwise
      (fun a b => (cmp a b).isLE = true) := by
  have htotal : Std.Total (fun a b => (cmp a b).isLE = true) := ⟨fun a b => by
    rcases Bool.eq_false_or_eq_true (cmp a b).isLE with h | h
    · exact Or.inl h
    · have hlt := Std.OrientedCmp.lt_of_not_isLE (Bool.eq_false_iff.mp h)
      exact Or.inr (by rw [hlt]; rfl)⟩
  have htrans : IsTrans α (fun a b => (cmp a b).isLE = true) :=
    ⟨fun _ _ _ hab hbc => Std.TransCmp.isLE_trans hab hbc⟩
  exact List.pairwise_insertionSort _ l

theorem insertionSort_eq_of_perm {cmp : α → α → Ordering} [Std.TransCmp cmp] {l l' : List α}
    (hperm : l.Perm l') (heq : ∀ a ∈ l, ∀ b ∈ l, cmp a b = .eq → a = b) :
    (l.insertionSort fun a b => (cmp a b).isLE = true) =
      l'.insertionSort fun a b => (cmp a b).isLE = true := by
  refine List.Perm.eq_of_pairwise (fun a b ha hb hab hba => ?_) (insertionSort_pairwise cmp l)
    (insertionSort_pairwise cmp l') ?_
  · rw [List.mem_insertionSort] at ha hb
    exact heq a ha b (hperm.mem_iff.mpr hb) (Std.OrientedCmp.isLE_antisymm hab hba)
  · exact (List.perm_insertionSort _ l).trans (hperm.trans (List.perm_insertionSort _ l').symm)

theorem cons_le_cons_of [LinearOrder α] {a b : α} {l m : List α}
    (h : a < b ∨ a = b ∧ l ≤ m) : a :: l ≤ b :: m := by
  rw [← not_lt, List.cons_lt_cons_iff]
  rintro (hlt | ⟨heq, hlt⟩)
  · exact h.elim (lt_asymm hlt) fun hle => hlt.ne hle.1.symm
  · exact h.elim (fun hlt => hlt.ne heq.symm) fun hle => not_lt.mpr hle.2 hlt

theorem orderedInsert_cons_of_ge [LinearOrder α] {a b : α} {l : List α}
    (hsorted : (b :: l).Pairwise (· ≤ ·)) (h : b ≤ a) :
    (b :: l).orderedInsert (· ≤ ·) a = b :: l.orderedInsert (· ≤ ·) a := by
  rcases lt_or_eq_of_le h with hlt | rfl
  · exact List.orderedInsert_of_not_le _ l (not_le.mpr hlt)
  · rw [List.orderedInsert_cons_of_le _ l (le_refl b)]
    cases l with
    | nil => rfl
    | cons c l =>
      have hbc := (List.pairwise_cons.mp hsorted).1 c List.mem_cons_self
      rw [List.orderedInsert_cons_of_le _ l hbc]

theorem orderedInsert_le_orderedInsert [LinearOrder α] {a a' : α} {l : List α}
    (hsorted : l.Pairwise (· ≤ ·)) (h : a' ≤ a) :
    l.orderedInsert (· ≤ ·) a' ≤ l.orderedInsert (· ≤ ·) a := by
  induction l with
  | nil => exact cons_le_cons_of ((lt_or_eq_of_le h).imp_right fun heq => ⟨heq, le_refl _⟩)
  | cons b l ih =>
    by_cases hb : b ≤ a'
    · rw [orderedInsert_cons_of_ge hsorted hb, orderedInsert_cons_of_ge hsorted (le_trans hb h)]
      exact cons_le_cons_of (Or.inr ⟨rfl, ih hsorted.of_cons⟩)
    · -- The smaller element comes first, before the other or before the list.
      rw [List.orderedInsert_cons_of_le _ l (le_of_not_ge hb), List.orderedInsert_cons]
      split
      · exact cons_le_cons_of ((lt_or_eq_of_le h).imp_right fun heq => ⟨heq, le_refl _⟩)
      · exact cons_le_cons_of (Or.inl (not_le.mp hb))

theorem insertionSort_cons_le [LinearOrder α] {a a' : α} (l : List α) (h : a' ≤ a) :
    (a' :: l).insertionSort (· ≤ ·) ≤ (a :: l).insertionSort (· ≤ ·) := by
  rw [List.insertionSort_cons, List.insertionSort_cons]
  exact orderedInsert_le_orderedInsert (List.pairwise_insertionSort _ l) h

end CompareAll

end Railgun
