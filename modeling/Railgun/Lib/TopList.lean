import Mathlib.Data.Set.Insert
import Railgun.Lib.CompareAll

/-!
# The First Elements of a Set

A list that keeps the first so many elements of a set, in an order, while the set
is discovered element by element. It is sorted, it holds only elements of the set,
and an element of the set that it does not hold sorts behind all of a full list. A
set has one such list, so a loop that maintains it ends with what sorting the whole
set and cutting it off would give.

## Main definitions

* `TopList`: The first so many elements of a set.

## Theorems

* `TopList.union_behind`: Elements behind a full list need not be looked at.
* `TopList.push`: Sort in a new element and cut the list off.
* `TopList.eq_take_sort`: The list is the front of the sorted set.
-/

namespace Railgun

section TopList

variable {α : Type} {cmp : α → α → Ordering} {n : Nat} {S T : Set α} {top : List α} {a : α}

/-- The first `n` elements of a set: sorted, and what is missing sorts behind a
    full list. -/
structure TopList (cmp : α → α → Ordering) (n : Nat) (S : Set α) (top : List α) : Prop where
  sorted : top.Pairwise fun a b => cmp a b = .lt
  mem : ∀ a ∈ top, a ∈ S
  size : top.length ≤ n
  rest : ∀ a ∈ S, a ∈ top ∨ top.length = n ∧ ∀ b ∈ top, cmp b a = .lt

theorem TopList.empty : TopList cmp n ∅ [] :=
  ⟨List.Pairwise.nil, nofun, Nat.zero_le n,
    fun _ h => absurd h (Set.notMem_empty _)⟩

theorem TopList.union_behind (h : TopList cmp n S top) (hfull : n ≤ top.length)
    (hT : ∀ a ∈ T, a ∈ top ∨ ∀ b ∈ top, cmp b a = .lt) : TopList cmp n (S ∪ T) top where
  sorted := h.sorted
  mem := fun a ha => Or.inl (h.mem a ha)
  size := h.size
  rest := by
    rintro a (ha | ha)
    · exact h.rest a ha
    · exact (hT a ha).imp_right fun hbehind => ⟨Nat.le_antisymm h.size hfull, hbehind⟩

theorem take_lt_drop {l : List α} (hsorted : l.Pairwise fun a b => cmp a b = .lt) :
    ∀ a ∈ l.take n, ∀ b ∈ l.drop n, cmp a b = .lt := by
  rw [← List.take_append_drop n l, List.pairwise_append] at hsorted
  exact hsorted.2.2

theorem not_lt_self [Std.ReflCmp cmp] (a : α) : cmp a a ≠ .lt := by
  have hself : cmp a a = .eq := Std.ReflCmp.compare_self
  rw [hself]
  decide

theorem lt_of_getLast_lt [Std.TransCmp cmp] {last : α}
    (hsorted : top.Pairwise fun a b => cmp a b = .lt) (hlast : top.getLast? = some last)
    (h : cmp last a = .lt) : ∀ b ∈ top, cmp b a = .lt := by
  intro b hb
  obtain ⟨front, rfl⟩ := List.getLast?_eq_some_iff.mp hlast
  rcases List.mem_append.mp hb with hfront | hend
  · have hbefore := (List.pairwise_append.mp hsorted).2.2 b hfront last (List.mem_singleton_self _)
    exact Std.TransCmp.lt_trans hbefore h
  · rw [List.mem_singleton.mp hend]
    exact h

variable [Std.TransCmp cmp]

theorem insertionSort_pairwise_lt {l : List α} (h : l.Pairwise fun a b => cmp a b ≠ .eq) :
    (l.insertionSort fun a b => (cmp a b).isLE = true).Pairwise fun a b => cmp a b = .lt := by
  have hne : (l.insertionSort fun a b => (cmp a b).isLE = true).Pairwise
      fun a b => cmp a b ≠ .eq :=
    (List.perm_insertionSort _ l).symm.pairwise h fun hab hba =>
      hab (Std.OrientedCmp.eq_comm.mp hba)
  refine (insertionSort_pairwise cmp l).imp₂ (fun a b hle hneq => ?_) hne
  exact Ordering.isLE_iff_eq_lt_or_eq_eq.mp hle |>.resolve_right hneq

theorem topList_take_sort {l : List α} (h : l.Pairwise fun a b => cmp a b ≠ .eq) :
    TopList cmp n {a | a ∈ l} ((l.insertionSort fun a b => (cmp a b).isLE = true).take n) where
  sorted := (insertionSort_pairwise_lt h).sublist (List.take_sublist _ _)
  mem := fun a ha => (List.perm_insertionSort _ l).subset (List.mem_of_mem_take ha)
  size := List.length_take_le _ _
  rest := by
    intro a ha
    have hmem := (List.perm_insertionSort (fun a b => (cmp a b).isLE = true) l).symm.subset ha
    rw [← List.take_append_drop n (l.insertionSort _), List.mem_append] at hmem
    refine hmem.imp_right fun hdrop => ⟨?_, fun b hb =>
      take_lt_drop (insertionSort_pairwise_lt h) b hb a hdrop⟩
    have hpos := List.length_pos_of_mem hdrop
    rw [List.length_drop] at hpos
    rw [List.length_take]
    omega

theorem TopList.push (h : TopList cmp n S top) (ha : ∀ b ∈ top, cmp b a ≠ .eq) :
    TopList cmp n (S ∪ {a})
      (((top ++ [a]).insertionSort fun a b => (cmp a b).isLE = true).take n) := by
  have hties : (top ++ [a]).Pairwise fun a b => cmp a b ≠ .eq := by
    rw [List.pairwise_append]
    refine ⟨h.sorted.imp fun hlt heq => ?_, List.pairwise_singleton _ _, fun b hb c hc => ?_⟩
    · rw [hlt] at heq
      exact absurd heq (by decide)
    · rw [List.mem_singleton.mp hc]
      exact ha b hb
  have hfront := topList_take_sort (n := n) hties
  refine ⟨hfront.sorted, fun b hb => ?_, hfront.size, fun b hb => ?_⟩
  · rcases List.mem_append.mp (hfront.mem b hb) with hold | hnew
    · exact Or.inl (h.mem b hold)
    · exact Or.inr (List.mem_singleton.mp hnew)
  · rcases hb with hold | hnew
    · rcases h.rest b hold with hkept | ⟨hlen, hbehind⟩
      · exact hfront.rest b (List.mem_append_left _ hkept)
      · -- A full list loses one element, and nothing before it is behind what was missing.
        have hsize : ((top ++ [a]).insertionSort
            fun a b => (cmp a b).isLE = true).length = n + 1 := by
          rw [(List.perm_insertionSort _ _).length_eq, List.length_append, List.length_singleton,
            hlen]
        refine Or.inr ⟨by rw [List.length_take, hsize]; omega, fun c hc => ?_⟩
        rcases List.mem_append.mp (hfront.mem c hc) with hold | hnew
        · exact hbehind c hold
        · rw [List.mem_singleton] at hnew
          obtain ⟨cut, hcut⟩ : ∃ cut, cut ∈ ((top ++ [a]).insertionSort
              fun a b => (cmp a b).isLE = true).drop n := by
            refine List.exists_mem_of_ne_nil _ fun hnil => ?_
            rw [List.drop_eq_nil_iff, hsize] at hnil
            omega
          have hlt := take_lt_drop (insertionSort_pairwise_lt hties) c hc cut hcut
          rcases List.mem_append.mp ((List.perm_insertionSort _ _).subset
            (List.mem_of_mem_drop hcut)) with hold | hself
          · exact Std.TransCmp.lt_trans hlt (hbehind cut hold)
          · rw [hnew, List.mem_singleton.mp hself] at hlt
            exact absurd hlt (not_lt_self a)
    · rw [hnew]
      exact hfront.rest a (List.mem_append_right _ (List.mem_singleton_self _))

theorem TopList.nodup (h : TopList cmp n S top) : top.Nodup := by
  refine h.sorted.imp fun hlt heq => ?_
  rw [heq] at hlt
  exact not_lt_self _ hlt

theorem TopList.subset {other : List α} (h : TopList cmp n S top) (hother : TopList cmp n S other) :
    top ⊆ other := by
  intro a ha
  by_contra hmissing
  obtain ⟨hlen, hbehind⟩ := (hother.rest a (h.mem a ha)).resolve_left hmissing
  -- Then the other list is full and in front of the element, so the first list has it all.
  have hall : other ⊆ top := by
    intro b hb
    by_contra hout
    have hba := hbehind b hb
    have hab := ((h.rest b (hother.mem b hb)).resolve_left hout).2 a ha
    exact not_lt_self _ (Std.TransCmp.lt_trans hab hba)
  have hcons : (a :: other) ⊆ top := List.cons_subset.mpr ⟨ha, hall⟩
  have hsub := List.subperm_of_subset (List.nodup_cons.mpr ⟨hmissing, hother.nodup⟩) hcons
  have hle := hsub.length_le
  have hsize := h.size
  rw [List.length_cons] at hle
  omega

theorem TopList.eq_take_sort {l : List α} (h : TopList cmp n {a | a ∈ l} top)
    (hties : l.Pairwise fun a b => cmp a b ≠ .eq) :
    top = (l.insertionSort fun a b => (cmp a b).isLE = true).take n := by
  have hfront := topList_take_sort (n := n) hties
  refine List.Perm.eq_of_pairwise (fun a b _ _ hab hba => ?_) h.sorted hfront.sorted
    ((List.perm_ext_iff_of_nodup h.nodup hfront.nodup).mpr fun a =>
      ⟨fun ha => h.subset hfront ha, fun ha => hfront.subset h ha⟩)
  exact absurd (Std.TransCmp.lt_trans hab hba) (not_lt_self a)

end TopList

end Railgun
