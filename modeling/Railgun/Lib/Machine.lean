import Mathlib.Logic.Basic

/-!
# Machines that Halt

A machine goes from state to state until it halts with a result. `Yields` says that
it does and with which result, which is what composes: the result of a state is the
result of any state it goes to. `runMachine` runs it for a number of steps.

## Main definitions

* `StepResult`, `runMachine`: One step, and a number of steps.
* `Yields`, `StepResult.Leads`: The result that a state or a step leads to.

## Theorems

* `yields_iff_leads`: The result of a state is the one its step leads to.
* `exists_run_of_yields`: A machine that yields a result has it after enough steps.
-/

namespace Railgun

/-- A step leads to a state or to a result. -/
inductive StepResult (σ ρ : Type) where
  | next (state : σ)
  | halt (result : ρ)

section Machine

variable {σ ρ : Type} (step : σ → StepResult σ ρ)

/-- A run with fuel. -/
def runMachine : Nat → σ → Option ρ
  | 0, _ => none
  | fuel + 1, state =>
    match step state with
    | .next state => runMachine fuel state
    | .halt result => some result

/-- A run that halts. -/
inductive Yields : σ → ρ → Prop where
  | halt {state : σ} {result : ρ} (h : step state = .halt result) : Yields state result
  | next {state after : σ} {result : ρ} (h : step state = .next after)
      (hafter : Yields after result) : Yields state result

/-- What a step leads to in the end. -/
def StepResult.Leads (after : StepResult σ ρ) (result : ρ) : Prop :=
  match after with
  | .next state => Yields step state result
  | .halt halted => halted = result

variable {step} {state : σ} {result : ρ}

theorem yields_iff_leads : Yields step state result ↔ (step state).Leads step result := by
  constructor
  · intro hyields
    cases hyields with
    | halt hhalt => rw [hhalt, StepResult.Leads]
    | next hnext hafter =>
      rw [hnext]
      exact hafter
  · intro hleads
    cases hstep : step state with
    | next after =>
      rw [hstep] at hleads
      exact .next hstep hleads
    | halt halted =>
      rw [hstep] at hleads
      exact .halt (hstep.trans (congrArg StepResult.halt hleads))

theorem exists_run_of_yields (h : Yields step state result) :
    ∃ fuel, ∀ more, fuel ≤ more → runMachine step more state = some result := by
  induction h with
  | halt hhalt =>
    refine ⟨1, fun more hmore => ?_⟩
    obtain ⟨fuel, rfl⟩ := Nat.exists_eq_add_of_le' hmore
    rw [runMachine, hhalt]
  | next hnext _ ih =>
    obtain ⟨fuel, hfuel⟩ := ih
    refine ⟨fuel + 1, fun more hmore => ?_⟩
    obtain ⟨rest, rfl⟩ := Nat.exists_eq_add_of_le' hmore
    rw [← Nat.add_assoc, runMachine, hnext]
    exact hfuel _ (Nat.le_add_left _ _)

end Machine

end Railgun
