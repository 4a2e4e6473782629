import Mathlib.Algebra.BigOperators.Group.Finset.Basic
import Mathlib.Algebra.Order.BigOperators.Group.Finset

/-!
# Greedy Choice of Blocks

Several sequences of blocks, each with its most valuable blocks first, and a run
that always takes the block worth most among the first blocks of all sequences.
Any other choice of as many blocks takes some number of first blocks of each
sequence, and is worth no more.

The sequences belong to a state that a step changes. A step is described by what
it does to the worth of any number of blocks of each sequence, so nothing is
assumed about how the blocks are stored.

## Main definitions

* `GreedyRun`: Steps one after another, with the worth of what they took.

## Theorems

* `GreedyRun.bound`: No choice of as many blocks is worth more than the run.
-/

namespace Railgun

section GreedyBlocks

variable {σ ι : Type} (worth : σ → ι → Nat → Nat)

/-- A step from one state to another that takes a block of the sequence `taken`:
    the blocks of that sequence move up, those of the others stay, and no further
    block of any sequence is worth more than the one taken. -/
structure GreedyStep (s : σ) (taken : ι) (gain : Nat) (s' : σ) : Prop where
  moved : ∀ count, worth s taken (count + 1) ≤ gain + worth s' taken count
  others : ∀ i, i ≠ taken → ∀ count, worth s i count ≤ worth s' i count
  best : ∀ i count, worth s i (count + 1) ≤ gain + worth s i count

/-- At most so many steps, with the worth of the blocks taken. A run may end
    before its last step only when nothing is left. -/
inductive GreedyRun : Nat → σ → Nat → Prop where
  | done (s : σ) : GreedyRun 0 s 0
  | exhausted {limit : Nat} {s : σ} : (∀ i count, worth s i count = 0) → GreedyRun limit s 0
  | step {limit : Nat} {s s' : σ} {taken : ι} {gain total : Nat} :
      GreedyStep worth s taken gain s' → GreedyRun limit s' total →
      GreedyRun (limit + 1) s (gain + total)

variable {worth} [DecidableEq ι]

/-- What is chosen can be exchanged for the block taken and a choice of one block
    fewer: a block of the same sequence if one was chosen there, and any other
    block if not. -/
theorem GreedyStep.exchange (hzero : ∀ s i, worth s i 0 = 0) {s s' : σ} {taken : ι} {gain : Nat}
    (h : GreedyStep worth s taken gain s') (I : Finset ι) (chosen : ι → Nat)
    (hchosen : ∃ i ∈ I, 0 < chosen i) :
    ∃ chosen' : ι → Nat, (∑ i ∈ I, chosen' i) + 1 = ∑ i ∈ I, chosen i ∧
      ∑ i ∈ I, worth s i (chosen i) ≤ gain + ∑ i ∈ I, worth s' i (chosen' i) := by
  -- The sequence that gives up a block.
  obtain ⟨j, hj, hpos, hgain, hrest⟩ : ∃ j ∈ I, 0 < chosen j ∧
      worth s j (chosen j) ≤ gain + worth s' j (chosen j - 1) ∧
      ∀ i ∈ I, i ≠ j → worth s i (chosen i) ≤ worth s' i (chosen i) := by
    by_cases htaken : taken ∈ I ∧ 0 < chosen taken
    · refine ⟨taken, htaken.1, htaken.2, ?_, fun i _ hne => h.others i hne _⟩
      have hmoved := h.moved (chosen taken - 1)
      rw [Nat.sub_add_cancel htaken.2] at hmoved
      exact hmoved
    · obtain ⟨j, hj, hpos⟩ := hchosen
      have hne : j ≠ taken := by
        rintro rfl
        exact htaken ⟨hj, hpos⟩
      refine ⟨j, hj, hpos, ?_, ?_⟩
      · have hbest := h.best j (chosen j - 1)
        rw [Nat.sub_add_cancel hpos] at hbest
        exact le_trans hbest (Nat.add_le_add_left (h.others j hne _) _)
      · intro i hi _
        by_cases heq : i = taken
        · subst heq
          have hnone : chosen i = 0 := Nat.eq_zero_of_not_pos fun hi' => htaken ⟨hi, hi'⟩
          rw [hnone, hzero]
          exact Nat.zero_le _
        · exact h.others i heq _
  refine ⟨Function.update chosen j (chosen j - 1), ?_, ?_⟩
  · rw [← Finset.add_sum_erase I _ hj, ← Finset.add_sum_erase I _ hj, Function.update_self]
    have hsame : ∑ i ∈ I.erase j, Function.update chosen j (chosen j - 1) i
        = ∑ i ∈ I.erase j, chosen i :=
      Finset.sum_congr rfl fun i hi => Function.update_of_ne (Finset.ne_of_mem_erase hi) _ _
    omega
  · rw [← Finset.add_sum_erase I _ hj, ← Finset.add_sum_erase I _ hj, Function.update_self,
      ← Nat.add_assoc]
    refine Nat.add_le_add hgain (Finset.sum_le_sum fun i hi => ?_)
    rw [Function.update_of_ne (Finset.ne_of_mem_erase hi)]
    exact hrest i (Finset.mem_of_mem_erase hi) (Finset.ne_of_mem_erase hi)

theorem GreedyRun.bound (hzero : ∀ s i, worth s i 0 = 0) {limit : Nat} {s : σ} {total : Nat}
    (h : GreedyRun worth limit s total) (I : Finset ι) (chosen : ι → Nat)
    (hchosen : ∑ i ∈ I, chosen i ≤ limit) : ∑ i ∈ I, worth s i (chosen i) ≤ total := by
  -- A choice of no blocks is worth nothing.
  have hnothing : ∀ (s : σ) (chosen : ι → Nat), ∑ i ∈ I, chosen i = 0 →
      ∑ i ∈ I, worth s i (chosen i) = 0 := by
    intro s chosen hsum
    refine Finset.sum_eq_zero fun i hi => ?_
    rw [Finset.sum_eq_zero_iff.mp hsum i hi, hzero]
  induction h generalizing chosen with
  | done s => rw [hnothing s chosen (Nat.le_zero.mp hchosen)]
  | exhausted hempty => rw [Finset.sum_eq_zero fun i _ => hempty i (chosen i)]
  | step hstep _ ih =>
    by_cases hsome : ∃ i ∈ I, 0 < chosen i
    · obtain ⟨chosen', hcount, hle⟩ := hstep.exchange hzero I chosen hsome
      have hrest := ih chosen' (by omega)
      omega
    · rw [hnothing]
      · exact Nat.zero_le _
      · refine Finset.sum_eq_zero fun i hi => ?_
        exact Nat.eq_zero_of_not_pos fun hpos => hsome ⟨i, hi, hpos⟩

end GreedyBlocks

end Railgun
