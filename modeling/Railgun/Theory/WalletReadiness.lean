import Railgun.Theory.WalletActor

/-!
# Readiness

A wallet that shows as ready is ready. Whatever has happened before, no reset is
pending, nothing is being synchronized, nothing has failed, and the wallet has
been scanned up to a target that a job of the current generation has completed.

The scanned blocks grow without a gap, by what jobs of the current generation
report, and only a rewind takes them back. What a job of another generation
reports changes nothing.

## Main definitions

* `CompletesTarget`: A change that completes a job with this target.

## Theorems

* `ready_inv`: What the readiness is derived from.
* `completedTarget_completed`: A completed target has been completed by a job.
* `readiness_honest`: What a ready wallet is, and what moves its cursor.
-/

namespace Railgun

open WalletActorState (applyMutation)

section Readiness

variable {state : WalletActorState}

theorem hasActiveKind_eq_false {kind : WalletActorJobKind}
    (hnone : state.hasActiveKind kind = false) {jobId : Nat} {job : WalletActorJob}
    (hjob : state.activeJobs[jobId]? = some job) : job.kind ≠ kind := by
  rw [WalletActorState.hasActiveKind, List.any_eq_false] at hnone
  have hmem := Std.ExtTreeMap.mem_toList_iff_getElem?_eq_some.mpr hjob
  simpa using hnone _ hmem

theorem hasPersistenceFailure_eq_false (hnone : state.hasPersistenceFailure = false) :
    state.poiPersistenceRequirements.isEmpty = true ∧
      state.resetReplayPersistenceRequirement = none ∧
        state.progressPersistenceRequirement = none ∧
          state.completionPersistenceRequirement = none := by
  simpa [WalletActorState.hasPersistenceFailure, Bool.or_eq_false_iff, and_assoc] using hnone

theorem ready_inv (hready : state.derivedReadiness = .ready) :
    state.hasPersistenceFailure = false ∧ state.jobFailures.toList = [] ∧
      state.pendingReset = none ∧ state.hasActiveKind .syncTarget = false ∧
        state.hasActiveKind .backfill = false ∧ state.hasActiveKind .indexedCatchUp = false ∧
          ∃ targetBlock, state.completedTargetBlock = some targetBlock ∧ 0 < targetBlock ∧
            targetBlock ≤ state.lastScanned := by
  unfold WalletActorState.derivedReadiness at hready
  split at hready
  · cases hready
  · split at hready
    · cases hready
    · next hwritten =>
      split at hready
      · cases hready
      · next hfailures =>
        split at hready
        · cases hready
        · next hreset =>
          split at hready
          · cases hready
          · next hjobs =>
            split at hready
            · next targetBlock hcompleted =>
              split at hready
              · next htarget =>
                simp only [Bool.or_eq_true, not_or, Bool.not_eq_true, Option.isSome_eq_false_iff,
                  Option.isNone_iff_eq_none] at hreset hjobs
                exact ⟨Bool.eq_false_iff.mpr hwritten, hfailures, hreset.1, hjobs.1.1, hjobs.1.2,
                  hjobs.2, targetBlock, hcompleted, htarget⟩
              · cases hready
            · cases hready

/-- A change that completes a backfill job of this generation with this
    target. -/
def CompletesTarget (generation targetBlock : Nat) (state : WalletActorState)
    (mutation : WalletActorMutation) : Prop :=
  ∃ token : WalletSyncToken, mutation = .completeBackfillJob token ∧
    token.resetGeneration = generation ∧ state.isActiveJob token .backfill = true ∧
      state.jobTarget token = some targetBlock

theorem completedAfter_cases (completed : Option Nat) (targetBlock : Nat) :
    completed = some (completedAfter completed targetBlock) ∨
      targetBlock = completedAfter completed targetBlock := by
  cases completed with
  | none => exact .inr rfl
  | some completed =>
    rcases max_choice completed targetBlock with h | h
    · exact .inl (congrArg some h.symm)
    · exact .inr h.symm

theorem ledgerStep_completed {mutation : WalletActorMutation} {ledger : WalletLedger}
    (hstep : LedgerStep state mutation ledger) {targetBlock : Nat}
    (hcompleted : ledger.completedTargetBlock = some targetBlock) :
    (state.completedTargetBlock = some targetBlock ∧
        state.resetGeneration = ledger.resetGeneration) ∨
      CompletesTarget ledger.resetGeneration targetBlock state mutation := by
  cases hstep with
  | @complete token completedBlock hactive htarget =>
    cases hcompleted
    rcases completedAfter_cases state.completedTargetBlock completedBlock with h | h
    · exact .inl ⟨h, rfl⟩
    · exact .inr ⟨token, rfl, isActiveJob_generation hactive, hactive, h ▸ htarget⟩
  | reset pending => cases hcompleted
  | frame | poiCommitted | poiFailed | progressFailed | progressCommitted | completionFailed
  | completionCommitted | rewound | shutdown => exact .inl ⟨hcompleted, rfl⟩

theorem completedTarget_completed {allowed : WalletActorState → WalletActorMutation → Prop}
    {mutations : List WalletActorMutation} {targetBlock : Nat}
    (hallowed : AllAllowed applyMutation allowed state mutations)
    (hfresh : state.completedTargetBlock = none)
    (hcompleted : (runAll applyMutation state mutations).completedTargetBlock = some targetBlock) :
    Occurs applyMutation
      (CompletesTarget (runAll applyMutation state mutations).resetGeneration
        targetBlock) state mutations := by
  generalize hgeneration :
    (runAll applyMutation state mutations).resetGeneration = generation
  have hsince : (state.completedTargetBlock = some targetBlock ∧
        state.resetGeneration = generation) ∨
      Occurs applyMutation (CompletesTarget generation targetBlock) state
        mutations :=
    runAll_since
      (P := fun state => state.completedTargetBlock = some targetBlock ∧
        state.resetGeneration = generation)
      (fun state mutation _ hnext => by
        obtain ⟨hcompleted, rfl⟩ := hnext
        exact ledgerStep_completed (applyMutation_ledgerStep state mutation) hcompleted)
      hallowed ⟨hcompleted, hgeneration⟩
  refine hsince.resolve_left fun h => ?_
  rw [hfresh] at h
  exact absurd h.1 nofun

/-- A change by which a backfill job of the current generation commits the blocks
    from right after the scanned ones on, up to this block. -/
def AdvancesCursor (lastScanned : Nat) (state : WalletActorState)
    (mutation : WalletActorMutation) : Prop :=
  ∃ token : WalletSyncToken, ∃ fromBlock : Nat,
    mutation = .durableSyncProgressCommitOk token fromBlock lastScanned ∧
      token.resetGeneration = state.resetGeneration ∧
        state.isActiveJob token .backfill = true ∧ fromBlock = state.lastScanned + 1 ∧
          fromBlock ≤ lastScanned

theorem ledgerStep_lastScanned {mutation : WalletActorMutation} {ledger : WalletLedger}
    (hissued : mutation.Issued state) (hsound : state.ledger.Sound)
    (hstep : LedgerStep state mutation ledger) (hmoved : ledger.lastScanned ≠ state.lastScanned) :
    AdvancesCursor ledger.lastScanned state mutation ∨
      mutation = .markPendingResetRewindCommitted ledger.lastScanned := by
  cases hstep with
  | progressCommitted haccepts =>
    obtain ⟨hle, hfrom, hactive⟩ := acceptsProgress_iff.mp haccepts
    refine .inl ⟨_, _, rfl, isActiveJob_generation hactive, hactive, ?_, hle⟩
    -- At the largest word the blocks would be the last scanned one again.
    have hword := hsound.lastScanned_lt
    have hto : _ < 2 ^ 64 := hissued
    change state.lastScanned < 2 ^ 64 at hword
    dsimp only at hmoved
    unfold saturatingAdd at hfrom
    omega
  | rewound lastScanned => exact .inr rfl
  | frame | complete | poiCommitted | poiFailed | progressFailed | completionFailed
  | completionCommitted | reset | shutdown => exact absurd rfl hmoved

/-- Readiness is honest. A ready wallet has no pending reset, no job that
    synchronizes it, nothing left to be written and no failed job, and has been
    scanned up to a target that a job of its generation has completed. Only the
    commit of the next blocks by a job of the current generation and a rewind
    move the cursor, and a change with a token of another generation is none. -/
theorem readiness_honest (chainId actorId resetGeneration highestAcceptedResetIntent : Nat)
    {lastScanned : Nat} (hword : lastScanned < 2 ^ 64) (pendingReset : Option PendingWalletReset)
    (poiCorpusRefreshPending : Bool) {initial state : WalletActorState}
    (hinitial : initial = .new chainId actorId resetGeneration lastScanned
      highestAcceptedResetIntent pendingReset poiCorpusRefreshPending)
    {mutations : List WalletActorMutation}
    (hissued : AllAllowed applyMutation
      (fun state mutation => mutation.Issued state) initial mutations)
    (hstate : state = runAll applyMutation initial mutations) :
    (state.derivedReadiness = .ready →
        state.pendingReset = none ∧
          (∀ (jobId : Nat) (job : WalletActorJob), state.activeJobs[jobId]? = some job →
            job.kind = .pendingOverlay) ∧
          (state.poiPersistenceRequirements.isEmpty = true ∧
            state.resetReplayPersistenceRequirement = none ∧
            state.progressPersistenceRequirement = none ∧
            state.completionPersistenceRequirement = none) ∧
          state.jobFailures.toList = [] ∧
          ∃ targetBlock, state.completedTargetBlock = some targetBlock ∧ 0 < targetBlock ∧
            targetBlock ≤ state.lastScanned ∧
            Occurs applyMutation
              (CompletesTarget state.resetGeneration targetBlock) initial mutations) ∧
      ∀ mutation : WalletActorMutation, mutation.Issued state →
        ((state.applyMutation mutation).lastScanned ≠ state.lastScanned →
          AdvancesCursor (state.applyMutation mutation).lastScanned state mutation ∨
            mutation =
              .markPendingResetRewindCommitted (state.applyMutation mutation).lastScanned) ∧
        ∀ generation, mutation.generation = some generation →
          generation ≠ state.resetGeneration → state.applyMutation mutation = state := by
  have hsound : state.ledger.Sound := by
    rw [hstate]
    refine runAll_sound hissued ?_
    rw [hinitial]
    exact new_sound _ _ _ _ hword _ _
  refine ⟨fun hready => ?_, fun mutation hmutation => ⟨fun hmoved => ?_, ?_⟩⟩
  · obtain ⟨hwritten, hfailures, hreset, hsync, hbackfill, hindexed, targetBlock, hcompleted, hpos,
      hle⟩ := ready_inv hready
    refine ⟨hreset, fun jobId job hjob => ?_, hasPersistenceFailure_eq_false hwritten, hfailures,
      targetBlock, hcompleted, hpos, hle, ?_⟩
    · have hnsync := hasActiveKind_eq_false hsync hjob
      have hnbackfill := hasActiveKind_eq_false hbackfill hjob
      have hnindexed := hasActiveKind_eq_false hindexed hjob
      cases hkind : job.kind with
      | syncTarget => exact absurd hkind hnsync
      | backfill => exact absurd hkind hnbackfill
      | pendingOverlay => rfl
      | indexedCatchUp => exact absurd hkind hnindexed
    · subst hstate
      refine completedTarget_completed hissued ?_ hcompleted
      rw [hinitial]
      rfl
  · exact ledgerStep_lastScanned hmutation hsound (applyMutation_ledgerStep state mutation) hmoved
  · intro generation hgeneration hstale
    exact applyMutation_stale hsound.tagged hmutation hgeneration hstale

end Readiness

/-- The token of a first backfill job. -/
def catchUpToken : WalletSyncToken := ⟨1, 1, 0, 1⟩

/-- A wallet that has been scanned up to block ten. -/
def scannedToTen : WalletActorState := .new 1 1 0 10 0 none false

/-- A job that scans ten blocks and completes. -/
def catchUp : List WalletActorMutation :=
  [.acceptTarget catchUpToken 20, .durableSyncProgressCommitOk catchUpToken 11 20,
    .completeBackfillJob catchUpToken]

theorem catchUp_issued : AllAllowed applyMutation
    (fun state mutation => mutation.Issued state) scannedToTen catchUp :=
  ⟨trivial, show 20 < 2 ^ 64 by decide, trivial, trivial⟩

/-- The catch-up ends ready, with the target it has completed. -/
theorem readiness_honest_catchUp :
    (runAll applyMutation scannedToTen catchUp).derivedReadiness = .ready ∧
      ∃ targetBlock, (runAll applyMutation scannedToTen
          catchUp).completedTargetBlock = some targetBlock ∧ 0 < targetBlock ∧
        targetBlock ≤ (runAll applyMutation scannedToTen catchUp).lastScanned ∧
        Occurs applyMutation
          (CompletesTarget (runAll applyMutation scannedToTen
            catchUp).resetGeneration targetBlock) scannedToTen catchUp := by
  have hready : (runAll applyMutation scannedToTen catchUp).derivedReadiness =
      .ready := by decide +kernel
  refine ⟨hready, ?_⟩
  exact ((readiness_honest 1 1 0 0 (by decide) none false rfl catchUp_issued rfl).1
    hready).2.2.2.2

/-- The wallet once it has been asked to start again from block five. -/
def resetToFive : WalletActorState :=
  runAll applyMutation scannedToTen [.acceptReset ⟨1, 5, 1, ⟨5, 20, false⟩⟩]

/-- A replay is admitted without a look at its token, so one from before a reset changes
    the state. -/
theorem stale_replay_admitted :
    (WalletActorMutation.setPendingResetReplayAdmitted (some (catchUpToken, 5))).generation =
        some 0 ∧
      0 < resetToFive.resetGeneration ∧
      resetToFive.applyMutation (.setPendingResetReplayAdmitted (some (catchUpToken, 5))) ≠
        resetToFive := by
  refine ⟨rfl, Nat.one_pos, fun hsame => ?_⟩
  have hadmitted := congrArg WalletActorState.pendingResetReplayAdmitted hsame
  exact Option.some_ne_none catchUpToken hadmitted

end Railgun
