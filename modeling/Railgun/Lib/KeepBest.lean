import Mathlib.Order.Basic

/-!
# Keeping the Best

A loop that offers candidates one after another and keeps the best so far. A
candidate replaces the best when there is none yet or when it compares as
better.

What such a loop returns is one of the candidates offered, and it returns
something as soon as one candidate was there. If the comparison agrees with a
measure, the result has the largest measure of all.

## Main definitions

* `keepBest`: Offer one candidate.

## Theorems

* `foldl_keepBest_mem`: The result is the initial best or a candidate.
* `foldl_keepBest_isSome`: One candidate makes a result.
* `keepBest_measure`: What is kept has the larger measure.
* `keepBest_order`, `foldl_keepBest_order`: Nothing compares as smaller than what is
  kept.
-/

namespace Railgun

section KeepBest

variable {α β : Type} (better : β → β → Bool)

/-- Offer one candidate: it replaces the best when there is none, or when it
    is better. -/
def keepBest (best : Option β) (candidate : Option β) : Option β :=
  match candidate with
  | none => best
  | some b => if best.all (better b ·) then some b else best

/-- What is kept is the best so far or the candidate. -/
theorem keepBest_eq_or (best candidate : Option β) :
    keepBest better best candidate = best ∨ keepBest better best candidate = candidate := by
  cases candidate with
  | none => exact Or.inl rfl
  | some b => exact (ite_eq_or_eq _ _ _).symm

/-- What holds of the best and of the candidate holds of what is kept. -/
theorem keepBest_forall {P : β → Prop} {best candidate : Option β} (hbest : ∀ b ∈ best, P b)
    (hcandidate : ∀ b ∈ candidate, P b) : ∀ b ∈ keepBest better best candidate, P b := by
  rcases keepBest_eq_or better best candidate with h | h
  · rwa [h]
  · rwa [h]

/-- Something is kept if there was something. -/
theorem keepBest_isSome {best candidate : Option β}
    (h : best.isSome ∨ candidate.isSome) : (keepBest better best candidate).isSome := by
  cases candidate with
  | none => exact h.resolve_right Bool.false_ne_true
  | some b => cases best with grind [keepBest]

theorem foldl_keepBest_mem (f : α → Option β) (l : List α) (best : Option β) (b : β)
    (h : l.foldl (fun best a => keepBest better best (f a)) best = some b) :
    best = some b ∨ ∃ a ∈ l, f a = some b := by
  induction l generalizing best with
  | nil => exact Or.inl h
  | cons a l ih =>
    rw [List.foldl_cons] at h
    rcases ih _ h with hbest | ⟨a', hmem, ha'⟩
    · rcases keepBest_eq_or better best (f a) with hold | hnew
      · exact Or.inl (hold ▸ hbest)
      · exact Or.inr ⟨a, List.mem_cons_self, hnew ▸ hbest⟩
    · exact Or.inr ⟨a', List.mem_cons_of_mem _ hmem, ha'⟩

theorem foldl_keepBest_isSome_of_isSome (f : α → Option β) (l : List α) (best : Option β)
    (h : best.isSome) :
    (l.foldl (fun best a => keepBest better best (f a)) best).isSome := by
  induction l generalizing best with
  | nil => exact h
  | cons a l ih => exact ih _ (keepBest_isSome better (Or.inl h))

theorem foldl_keepBest_isSome (f : α → Option β) (l : List α) (best : Option β)
    (h : ∃ a ∈ l, (f a).isSome) :
    (l.foldl (fun best a => keepBest better best (f a)) best).isSome := by
  induction l generalizing best with
  | nil =>
    rcases h with ⟨a, hmem, _⟩
    cases hmem
  | cons a l ih =>
    rcases h with ⟨a', hmem, ha'⟩
    rw [List.foldl_cons]
    rcases List.mem_cons.mp hmem with hhead | htail
    · exact foldl_keepBest_isSome_of_isSome better f l _
        (keepBest_isSome better (Or.inr (hhead ▸ ha')))
    · exact ih _ ⟨a', htail, ha'⟩

/-- If the comparison agrees with a measure, what is kept has the larger measure. -/
theorem keepBest_measure {γ : Type} [Preorder γ] (μ : β → γ)
    (hbetter : ∀ b a, better b a = true → μ a ≤ μ b)
    (hworse : ∀ b a, better b a = false → μ b ≤ μ a) {best candidate : Option β} {c : β}
    (h : best = some c ∨ candidate = some c) :
    ∃ k, keepBest better best candidate = some k ∧ μ c ≤ μ k := by
  cases candidate with
  | none => exact ⟨c, h.resolve_right nofun, le_refl _⟩
  | some b => cases best with grind [keepBest]

/-- If the comparison agrees with a measure, the result has the largest
    measure of everything offered. -/
theorem foldl_keepBest_measure {γ : Type} [Preorder γ] (μ : β → γ)
    (hbetter : ∀ b a, better b a = true → μ a ≤ μ b)
    (hworse : ∀ b a, better b a = false → μ b ≤ μ a)
    (f : α → Option β) (l : List α) (best : Option β) (r : β)
    (h : l.foldl (fun best a => keepBest better best (f a)) best = some r) :
    (∀ b, best = some b → μ b ≤ μ r) ∧ ∀ a ∈ l, ∀ b, f a = some b → μ b ≤ μ r := by
  induction l generalizing best with
  | nil =>
    rw [List.foldl_nil] at h
    refine ⟨fun b hb => ?_, nofun⟩
    rw [h, Option.some.injEq] at hb
    rw [hb]
  | cons a l ih =>
    rw [List.foldl_cons] at h
    rcases ih _ h with ⟨hkept, hrest⟩
    -- Both the old best and the new candidate are below what is kept.
    have hboth : ∀ c, best = some c ∨ f a = some c → μ c ≤ μ r := by
      intro c hc
      rcases keepBest_measure better μ hbetter hworse hc with ⟨k, hk, hle⟩
      exact le_trans hle (hkept k hk)
    refine ⟨fun b hb => hboth b (Or.inl hb), fun a' hmem b hb => ?_⟩
    rcases List.mem_cons.mp hmem with hhead | htail
    · exact hboth b (Or.inr (hhead ▸ hb))
    · exact hrest a' htail b hb

section Order

variable {cmp : β → β → Ordering} [Std.TransCmp cmp]

/-- A comparison, read backwards, as a measure of the candidates by themselves. -/
@[reducible] def backwards (cmp : β → β → Ordering) [Std.TransCmp cmp] : Preorder β where
  le a b := (cmp b a).isLE = true
  le_refl _ := Std.ReflCmp.isLE_rfl
  le_trans _ _ _ hab hbc := Std.TransCmp.isLE_trans hbc hab

omit [Std.TransCmp cmp] in
theorem isLE_of_better (hbetter : ∀ b a, better b a = true ↔ cmp b a = .lt) (b a : β)
    (h : better b a = true) : (cmp b a).isLE = true := by
  rw [(hbetter b a).mp h]
  rfl

theorem isLE_of_not_better (hbetter : ∀ b a, better b a = true ↔ cmp b a = .lt) (b a : β)
    (h : better b a = false) : (cmp a b).isLE = true := by
  have hswap : cmp a b = (cmp b a).swap := Std.OrientedCmp.eq_swap
  rw [hswap]
  cases hcmp : cmp b a with
  | lt =>
    rw [(hbetter b a).mpr hcmp] at h
    exact absurd h.symm Bool.false_ne_true
  | eq => rfl
  | gt => rfl

/-- If better means smaller in an order, neither the old best nor the candidate is
    smaller than what is kept. -/
theorem keepBest_order (hbetter : ∀ b a, better b a = true ↔ cmp b a = .lt)
    {best candidate : Option β} {c : β} (h : best = some c ∨ candidate = some c) :
    ∃ k, keepBest better best candidate = some k ∧ (cmp k c).isLE = true := by
  have hup := isLE_of_better better hbetter
  have hdown := isLE_of_not_better better hbetter
  exact @keepBest_measure β better β (backwards cmp) id hup hdown best candidate c h

theorem foldl_keepBest_order (hbetter : ∀ b a, better b a = true ↔ cmp b a = .lt)
    (f : α → Option β) (l : List α) (r : β)
    (h : l.foldl (fun best a => keepBest better best (f a)) none = some r) :
    ∀ a ∈ l, ∀ b, f a = some b → (cmp r b).isLE = true := by
  have hup := isLE_of_better better hbetter
  have hdown := isLE_of_not_better better hbetter
  exact (@foldl_keepBest_measure α β better β (backwards cmp) id hup hdown f l none r h).2

end Order

end KeepBest

end Railgun
