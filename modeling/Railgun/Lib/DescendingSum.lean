import Mathlib.Algebra.Order.BigOperators.Group.List
import Mathlib.Algebra.Order.Monoid.Canonical.Defs

/-!
# Sums in a Descending List

In a list sorted by descending value, the first elements have the largest sum
of any choice of that many, and the last ones the smallest. These are the two
bounds a search over such a list can prune with.

The elements are values of an ordered monoid in which nothing is negative, so a
choice of fewer elements is bounded too.

## Theorems

* `sum_le_sum_take`: A choice of at most `k` elements is worth at most the
  first `k`.
-/

namespace Railgun

section DescendingSum

variable {α : Type} [AddCommMonoid α] [PartialOrder α] [IsOrderedAddMonoid α]

/-- A choice of at most `k` elements of a descending list is worth at most its
    first `k` elements. -/
theorem sum_le_sum_take [CanonicallyOrderedAdd α] {l t : List α} {k : Nat}
    (hdesc : l.Pairwise (fun a b => b ≤ a)) (hsub : t.Sublist l) (hlen : t.length ≤ k) :
    t.sum ≤ (l.take k).sum := by
  induction l generalizing t k with
  | nil =>
    rw [List.sublist_nil.mp hsub, List.sum_nil]
    exact zero_le
  | cons a l ih =>
    rcases List.pairwise_cons.mp hdesc with ⟨hhead, htail⟩
    cases t with
    | nil =>
      rw [List.sum_nil]
      exact zero_le
    | cons b t =>
      cases k with
      | zero => cases hlen
      | succ k =>
        rw [List.length_cons] at hlen
        rw [List.take_succ_cons, List.sum_cons, List.sum_cons]
        -- The chosen head is at most the list's head, wherever it stands.
        have hb : b ≤ a ∧ t.Sublist l := by
          cases hsub with
          | cons _ hskip =>
            exact ⟨hhead b (hskip.subset List.mem_cons_self),
              (List.sublist_cons_self b t).trans hskip⟩
          | cons_cons _ htake => exact ⟨le_refl _, htake⟩
        exact add_le_add hb.1 (ih htail hb.2 (by omega))

/-- A choice of elements of a descending list is worth at least as many of its
    last elements. -/
theorem sum_drop_le_sum {l t : List α} (hdesc : l.Pairwise (fun a b => b ≤ a))
    (hsub : t.Sublist l) : (l.drop (l.length - t.length)).sum ≤ t.sum := by
  induction l generalizing t with
  | nil =>
    rw [List.sublist_nil.mp hsub, List.drop_nil]
  | cons a l ih =>
    rcases List.pairwise_cons.mp hdesc with ⟨hhead, htail⟩
    cases hsub with
    | cons _ hskip =>
      have hlen := hskip.length_le
      rw [List.length_cons, show l.length + 1 - t.length = l.length - t.length + 1 by omega,
        List.drop_succ_cons]
      exact ih htail hskip
    | @cons_cons t _ _ htake =>
      rw [List.length_cons, List.length_cons, Nat.add_sub_add_right, List.sum_cons]
      have hrest := ih htail htake
      -- Unless everything is chosen, the last elements start one later, at
      -- an element that is at most the head.
      rcases Nat.eq_zero_or_pos (l.length - t.length) with hall | hsome
      · rw [hall, List.drop_zero, List.sum_cons]
        rw [hall, List.drop_zero] at hrest
        exact add_le_add (le_refl a) hrest
      · obtain ⟨m, hm⟩ : ∃ m, l.length - t.length = m + 1 :=
          ⟨l.length - t.length - 1, by omega⟩
        have hlt : m < l.length := by omega
        rw [hm] at hrest
        rw [hm, List.drop_succ_cons, List.drop_eq_getElem_cons hlt, List.sum_cons]
        exact add_le_add (hhead _ (List.getElem_mem hlt)) hrest

end DescendingSum

end Railgun
