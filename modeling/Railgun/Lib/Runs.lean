import Mathlib.Data.List.Basic

/-!
# Runs of a State Machine

A machine whose step is a function is run by a list of inputs. What is said of a
run is said of its steps: that each one is allowed, or that one of them is an
event. Both are asked of an input together with the state it is applied in.

Five rules take a fact about one step to a fact about a run. An invariant is
kept by every allowed step, and inputs that change nothing where it holds can be
left out. A fact that only an event can end lasts until there
is one. A fact that only an event can bring about holds because there has been
one. And events that use up a measure cannot be more than it.

## Main definitions

* `runAll`: The state after a list of inputs.
* `AllAllowed`: Every input is allowed where it is applied.
* `Occurs`: Some input is an event where it is applied.

## Theorems

* `runAll_keeps`: The rule of invariants.
* `runAll_filter`: The rule of inputs that change nothing.
* `runAll_until`: The rule of facts that last until an event.
-/

namespace Railgun

section Runs

variable {σ α : Type} (step : σ → α → σ)

/-- The state after all inputs. -/
def runAll (state : σ) (inputs : List α) : σ := inputs.foldl step state

/-- Every input is allowed when it comes. -/
def AllAllowed (allowed : σ → α → Prop) : σ → List α → Prop
  | _, [] => True
  | state, input :: inputs => allowed state input ∧ AllAllowed allowed (step state input) inputs

/-- Some input is such an event when it comes. -/
def Occurs (event : σ → α → Prop) : σ → List α → Prop
  | _, [] => False
  | state, input :: inputs => event state input ∨ Occurs event (step state input) inputs

/-- How many inputs are events in the state they are applied in. -/
def occurrences (event : σ → α → Bool) : σ → List α → Nat
  | _, [] => 0
  | state, input :: inputs =>
    (if event state input then 1 else 0) + occurrences event (step state input) inputs

variable {step} {allowed event : σ → α → Prop} {state : σ} {inputs : List α}

theorem runAll_keeps {I : σ → Prop} (hstep : ∀ s a, allowed s a → I s → I (step s a))
    (hallowed : AllAllowed step allowed state inputs) (hinit : I state) :
    I (runAll step state inputs) := by
  induction inputs generalizing state with
  | nil => exact hinit
  | cons input inputs ih => exact ih hallowed.2 (hstep state input hallowed.1 hinit)

theorem runAll_filter {I : σ → Prop} (hstep : ∀ s a, allowed s a → I s → I (step s a))
    {keep : α → Bool} (hskip : ∀ s a, allowed s a → I s → keep a = false → step s a = s)
    (hallowed : AllAllowed step allowed state inputs) (hinit : I state) :
    runAll step state (inputs.filter keep) = runAll step state inputs := by
  induction inputs generalizing state with
  | nil => rfl
  | cons input inputs ih =>
    have hrest := ih hallowed.2 (hstep state input hallowed.1 hinit)
    cases hkeep : keep input with
    | true =>
      rw [List.filter_cons_of_pos hkeep]
      exact hrest
    | false =>
      have hsame := hskip state input hallowed.1 hinit hkeep
      rw [hsame] at hrest
      rw [List.filter_cons_of_neg (Bool.eq_false_iff.mp hkeep), hrest, runAll, runAll,
        List.foldl_cons, hsame]

theorem runAll_until {P : σ → Prop} (hstep : ∀ s a, allowed s a → P s → P (step s a) ∨ event s a)
    (hallowed : AllAllowed step allowed state inputs) (hinit : P state) :
    P (runAll step state inputs) ∨ Occurs step event state inputs := by
  induction inputs generalizing state with
  | nil => exact .inl hinit
  | cons input inputs ih =>
    rcases hstep state input hallowed.1 hinit with hnext | hevent
    · exact (ih hallowed.2 hnext).imp_right .inr
    · exact .inr (.inl hevent)

/-- What an allowed step cannot bring about unless it is an event has held from
    the start, or there has been an event. -/
theorem runAll_since {P : σ → Prop} (hstep : ∀ s a, allowed s a → P (step s a) → P s ∨ event s a)
    (hallowed : AllAllowed step allowed state inputs) (hlast : P (runAll step state inputs)) :
    P state ∨ Occurs step event state inputs := by
  induction inputs generalizing state with
  | nil => exact .inl hlast
  | cons input inputs ih =>
    rcases ih hallowed.2 hlast with hnext | hlater
    · exact (hstep state input hallowed.1 hnext).imp_right .inl
    · exact .inr (.inr hlater)

/-- If every event makes a measure smaller, and no other input makes it larger,
    there are at most as many events as it measures. -/
theorem occurrences_le {counted : σ → α → Bool} {measure : σ → Nat}
    (hstep : ∀ s a, (if counted s a then 1 else 0) + measure (step s a) ≤ measure s)
    (state : σ) (inputs : List α) : occurrences step counted state inputs ≤ measure state := by
  induction inputs generalizing state with
  | nil => exact Nat.zero_le _
  | cons input inputs ih =>
    have hfirst := hstep state input
    have hrest := ih (step state input)
    rw [occurrences]
    omega

theorem occurs_or {event' : σ → α → Prop}
    (hoccurs : Occurs step (fun s a => event s a ∨ event' s a) state inputs) :
    Occurs step event state inputs ∨ Occurs step event' state inputs := by
  induction inputs generalizing state with
  | nil => exact .inl hoccurs
  | cons input inputs ih =>
    rcases hoccurs with (h | h) | hlater
    · exact .inl (.inl h)
    · exact .inr (.inl h)
    · exact (ih hlater).imp .inr .inr

end Runs

end Railgun
