import Mathlib.Data.List.Basic
import Mathlib.Order.Basic

/-!
# Pages of a Sorted List

A list in the order of its keys, and its first elements. What is left out of a
page has keys that are at least those in it, so a page that is cut back below
its last key is complete for the keys that are left.

## Theorems

* `key_le_of_mem_take_drop`: The keys in a page and those after it.
* `filter_take_eq_filter`: A page cut back below everything it misses.
* `key_le_of_mem_take`: A full page of small keys has only small keys.
* `lt_key_of_mem_drop`: After a page that has room for all small keys.
* `filter_append_filter_of_sorted`: Two consecutive ranges of keys.
-/

namespace Railgun

section SortedPage

variable {α : Type*} {key : α → Nat} {l : List α}

theorem key_le_of_mem_take_drop (hsorted : l.Pairwise fun a b => key a ≤ key b) {n : Nat} {a b : α}
    (ha : a ∈ l.take n) (hb : b ∈ l.drop n) : key a ≤ key b := by
  rw [← List.take_append_drop n l] at hsorted
  exact (List.pairwise_append.mp hsorted).2.2 a ha b hb

theorem filter_take_eq_filter {n c : Nat} (hdropped : ∀ b ∈ l.drop n, c < key b) :
    ((l.take n).filter fun a => key a ≤ c) = l.filter fun a => key a ≤ c := by
  have hnone : ((l.drop n).filter fun a => key a ≤ c) = [] := by
    refine List.filter_eq_nil_iff.mpr fun b hb hle => ?_
    exact Nat.not_lt.mpr (of_decide_eq_true hle) (hdropped b hb)
  conv => rhs; rw [← List.take_append_drop n l, List.filter_append, hnone, List.append_nil]

theorem key_le_of_mem_take (hsorted : l.Pairwise fun a b => key a ≤ key b) {n c : Nat}
    (hcount : n ≤ (l.filter fun a => key a ≤ c).length) {a : α} (ha : a ∈ l.take n) :
    key a ≤ c := by
  by_contra hlarge
  have hdropped : ∀ b ∈ l.drop n, c < key b := fun b hb =>
    Nat.lt_of_lt_of_le (Nat.not_le.mp hlarge) (key_le_of_mem_take_drop hsorted ha hb)
  have hless : ((l.take n).filter fun a => key a ≤ c).length < (l.take n).length :=
    List.length_filter_lt_length_iff_exists.mpr ⟨a, ha, by simpa using hlarge⟩
  rw [filter_take_eq_filter hdropped, List.length_take] at hless
  omega

theorem lt_key_of_mem_drop (hsorted : l.Pairwise fun a b => key a ≤ key b) {n c : Nat}
    (hcount : (l.filter fun a => key a ≤ c).length ≤ n) {b : α} (hb : b ∈ l.drop n) :
    c < key b := by
  by_contra hsmall
  have hpage : ((l.take n).filter fun a => key a ≤ c) = l.take n :=
    List.filter_eq_self.mpr fun a ha => decide_eq_true
      (Nat.le_trans (key_le_of_mem_take_drop hsorted ha hb) (Nat.not_lt.mp hsmall))
  have hmore : 0 < ((l.drop n).filter fun a => key a ≤ c).length :=
    List.length_pos_of_mem (List.mem_filter.mpr ⟨hb, decide_eq_true (Nat.not_lt.mp hsmall)⟩)
  have hlength : 0 < (l.drop n).length := List.length_pos_of_mem hb
  rw [← List.take_append_drop n l, List.filter_append, hpage, List.length_append,
    List.length_take] at hcount
  rw [List.length_drop] at hlength
  omega

theorem filter_append_filter_of_sorted (hsorted : l.Pairwise fun a b => key a ≤ key b) {c : Nat}
    {p q : α → Bool} (hp : ∀ a, p a → key a ≤ c) (hq : ∀ a, q a → c < key a) :
    l.filter p ++ l.filter q = l.filter fun a => p a || q a := by
  induction l with
  | nil => rfl
  | cons a l ih =>
    obtain ⟨hhead, htail⟩ := List.pairwise_cons.mp hsorted
    have hrest := ih htail
    cases hpa : p a with
    | true =>
      have hqa : q a = false := Bool.eq_false_iff.mpr fun hqa =>
        Nat.not_lt.mpr (hp a hpa) (hq a hqa)
      simp [hpa, hqa, hrest]
    | false =>
      cases hqa : q a with
      | false => simpa only [List.filter_cons, hpa, hqa, Bool.or_self, Bool.false_eq_true,
          if_false] using hrest
      | true =>
        -- Everything from here on is above the first range.
        have hnone : l.filter p = [] := List.filter_eq_nil_iff.mpr fun b hb hpb =>
          Nat.not_lt.mpr (hp b hpb) (Nat.lt_of_lt_of_le (hq a hqa) (hhead b hb))
        rw [hnone, List.nil_append] at hrest
        simp [hpa, hqa, hnone, hrest]

end SortedPage

end Railgun
