import Railgun.Core.WalletActor
import Railgun.Lib.Runs

/-!
# What the Wallet Actor Can Do

Most changes of a wallet actor are about its jobs. What the readiness depends on
besides the jobs is its ledger: the generation, the scanned blocks, the
completed target, and what is still to be written. `LedgerStep` lists the
changes that touch the ledger and what each of them does to it, and every
invariant below is read off that list.

## Main definitions

* `WalletLedger`: The part of the state that jobs do not touch.
* `LedgerStep`: What a change does to the ledger.
* `WalletLedger.Tagged`: The required selections are of the current generation.

## Theorems

* `applyMutation_ledgerStep`: The list is complete.
* `applyMutation_stale`: A change with a token of another generation is none.
* `ledgerStep_tagged`: Selections stay tagged with the current generation.
-/

namespace Railgun

open WalletActorState WalletPoiPersistenceRequirements

/-- What an actor has scanned, completed and still has to persist. -/
structure WalletLedger where
  resetGeneration : Nat
  lastScanned : Nat
  completedTargetBlock : Option Nat
  poi : WalletPoiPersistenceRequirements
  progress : Option WalletProgressPersistenceRequirement
  completion : Option WalletCompletionPersistenceRequirement
  shutdown : Bool

namespace WalletActorState

/-- The ledger of a state. -/
def ledger (state : WalletActorState) : WalletLedger where
  resetGeneration := state.resetGeneration
  lastScanned := state.lastScanned
  completedTargetBlock := state.completedTargetBlock
  poi := state.poiPersistenceRequirements
  progress := state.progressPersistenceRequirement
  completion := state.completionPersistenceRequirement
  shutdown := state.shutdown

variable (state : WalletActorState) (token : WalletSyncToken)

/-- No change of the jobs touches the ledger. -/
@[simp] theorem acceptJob_ledger (kind : WalletActorJobKind) :
    (state.acceptJob token kind).2.ledger = state.ledger := by
  unfold acceptJob
  cases state.activeJobs[token.jobId]? <;> split_ifs <;> rfl

@[simp] theorem acceptJobWithTarget_ledger (targetBlock : Nat) (kind : WalletActorJobKind) :
    (state.acceptJobWithTarget token targetBlock kind).2.ledger = state.ledger := by
  unfold acceptJobWithTarget
  dsimp only
  split_ifs
  · rfl
  all_goals exact acceptJob_ledger state token kind

@[simp] theorem updateTarget_ledger (targetBlock : Nat) :
    (state.updateTarget token targetBlock).2.ledger = state.ledger := by
  unfold updateTarget
  split_ifs <;> rfl

@[simp] theorem acceptIndexedCatchUp_ledger :
    (state.acceptIndexedCatchUp token).2.ledger = state.ledger := by
  unfold acceptIndexedCatchUp
  split_ifs
  · rfl
  · exact acceptJob_ledger state token _

@[simp] theorem publishIndexedCatchUp_ledger (status : WalletIndexedCatchUpStatus) :
    (state.publishIndexedCatchUp token status).2.ledger = state.ledger := by
  unfold publishIndexedCatchUp
  split_ifs <;> rfl

@[simp] theorem acceptPendingOverlay_ledger (lastScanned : Nat) :
    (state.acceptPendingOverlay token lastScanned).2.ledger = state.ledger := by
  unfold acceptPendingOverlay
  split_ifs
  · exact acceptJob_ledger state token _
  · rfl

@[simp] theorem removeJob_ledger : (state.removeJob token).2.ledger = state.ledger := by
  unfold removeJob
  dsimp only
  split_ifs <;> rfl

@[simp] theorem retireJob_ledger : (state.retireJob token).2.ledger = state.ledger := by
  unfold retireJob
  split_ifs
  · rfl
  · exact removeJob_ledger state token

@[simp] theorem failJob_ledger (reason : WalletJobFailureReason) :
    (state.failJob token reason).2.ledger = state.ledger := by
  unfold failJob
  dsimp only
  split_ifs
  · rfl
  all_goals exact removeJob_ledger state token

@[simp] theorem backfillDispatchAdmitted_ledger :
    (state.backfillDispatchAdmitted token).2.ledger = state.ledger := by
  unfold backfillDispatchAdmitted
  cases state.jobTarget token <;> split_ifs <;> rfl

@[simp] theorem applyBackfillOwnerDisposition_ledger
    (disposition : WalletBackfillOwnerDisposition) :
    (state.applyBackfillOwnerDisposition token disposition).2.ledger = state.ledger := by
  cases disposition with
  | benignRetirement => exact retireJob_ledger state token
  | driverLost => exact failJob_ledger state token _

@[simp] theorem durableResetReplayCommitOk_ledger (intentId : Nat) :
    (state.durableResetReplayCommitOk intentId).ledger = state.ledger := by
  unfold durableResetReplayCommitOk
  split_ifs <;> rfl

end WalletActorState

/-- A completed target after another job has completed. -/
def completedAfter (completed : Option Nat) (targetBlock : Nat) : Nat :=
  completed.elim targetBlock fun completed => max completed targetBlock

/-- All ways in which a mutation changes the ledger. -/
inductive LedgerStep (state : WalletActorState) : WalletActorMutation → WalletLedger → Prop where
  | frame (mutation : WalletActorMutation) : LedgerStep state mutation state.ledger
  | complete {token : WalletSyncToken} {targetBlock : Nat} :
      state.isActiveJob token .backfill = true → state.jobTarget token = some targetBlock →
      LedgerStep state (.completeBackfillJob token)
        { state.ledger with
          completedTargetBlock := some (completedAfter state.completedTargetBlock targetBlock) }
  | poiCommitted (resetGeneration : Nat) (selection : WalletPoiRefreshSelection) :
      LedgerStep state (.durablePoiStatusCommitOk resetGeneration selection)
        { state.ledger with
          poi := state.poiPersistenceRequirements.remove resetGeneration selection }
  | poiFailed (selection : WalletPoiRefreshSelection) :
      LedgerStep state (.poiStatusPersistFailed state.resetGeneration selection)
        { state.ledger with
          poi := state.poiPersistenceRequirements.insert state.resetGeneration selection }
  | progressFailed {token : WalletSyncToken} {fromBlock toBlock : Nat} :
      state.acceptsProgress token fromBlock toBlock = true →
      LedgerStep state (.syncProgressPersistFailed token fromBlock toBlock)
        { state.ledger with
          progress := some (progressAfterFailure
            state.progressPersistenceRequirement token fromBlock toBlock) }
  | progressCommitted {token : WalletSyncToken} {fromBlock toBlock : Nat} :
      state.acceptsProgress token fromBlock toBlock = true →
      LedgerStep state (.durableSyncProgressCommitOk token fromBlock toBlock)
        { state.ledger with
          lastScanned := toBlock
          progress := progressAfterCommit state.progressPersistenceRequirement
            token toBlock }
  | completionFailed {token : WalletSyncToken} {targetBlock : Nat} :
      state.isActiveJob token .backfill = true → state.jobTarget token = some targetBlock →
      LedgerStep state (.backfillCompletionPersistFailed token)
        { state.ledger with
          completion := some (completionAfterFailure
            state.completionPersistenceRequirement token targetBlock) }
  | completionCommitted {token : WalletSyncToken} {targetBlock : Nat} :
      state.isActiveJob token .backfill = true → state.jobTarget token = some targetBlock →
      (∀ required ∈ state.completionPersistenceRequirement, required.targetBlock ≤ targetBlock) →
      LedgerStep state (.durableBackfillCompletionCommitOk token)
        { state.ledger with completion := none }
  | rewound (lastScanned : Nat) :
      LedgerStep state (.markPendingResetRewindCommitted lastScanned)
        { state.ledger with lastScanned }
  | reset (pending : PendingWalletReset) :
      LedgerStep state (.acceptReset pending)
        { state.ledger with
          resetGeneration := pending.resetGeneration
          completedTargetBlock := none
          poi := state.poiPersistenceRequirements.rebase pending.resetGeneration
          progress := none
          completion := none }
  | shutdown :
      LedgerStep state .transitionTerminalShutdown
        { state.ledger with poi := {}, progress := none, completion := none, shutdown := true }

section Changes

variable {state : WalletActorState}

/-- A mutation that leaves the ledger alone. -/
theorem LedgerStep.of_eq {mutation : WalletActorMutation} {ledger : WalletLedger}
    (h : ledger = state.ledger) : LedgerStep state mutation ledger := by
  rw [h]
  exact .frame mutation

theorem completeBackfillJob_ledgerStep (token : WalletSyncToken) :
    LedgerStep state (.completeBackfillJob token) (state.completeBackfillJob token).2.ledger := by
  unfold completeBackfillJob
  split_ifs with hactive
  · exact .frame _
  · cases htarget : state.jobTarget token with
    | none => exact .frame _
    | some targetBlock =>
      rw [retireJob_ledger]
      exact .complete (by simpa using hactive) htarget

theorem syncProgressPersistFailed_ledgerStep (token : WalletSyncToken) (fromBlock toBlock : Nat) :
    LedgerStep state (.syncProgressPersistFailed token fromBlock toBlock)
      (state.syncProgressPersistFailed token fromBlock toBlock).2.ledger := by
  unfold syncProgressPersistFailed
  split_ifs with haccepts
  · exact .frame _
  · exact .progressFailed (by simpa using haccepts)

/-- Progress that is durable moves the block that was scanned last. -/
theorem durableSyncProgressCommitOk_ledgerStep (token : WalletSyncToken)
    (fromBlock toBlock : Nat) :
    LedgerStep state (.durableSyncProgressCommitOk token fromBlock toBlock)
      (state.durableSyncProgressCommitOk token fromBlock toBlock).2.ledger := by
  unfold durableSyncProgressCommitOk
  split_ifs with haccepts
  · exact .frame _
  · exact .progressCommitted (by simpa using haccepts)

theorem backfillCompletionPersistFailed_ledgerStep (token : WalletSyncToken) :
    LedgerStep state (.backfillCompletionPersistFailed token)
      (state.backfillCompletionPersistFailed token).2.ledger := by
  unfold backfillCompletionPersistFailed
  split_ifs with hactive
  · exact .frame _
  · cases htarget : state.jobTarget token with
    | none => exact .frame _
    | some targetBlock => exact .completionFailed (by simpa using hactive) htarget

theorem durableBackfillCompletionCommitOk_ledgerStep (token : WalletSyncToken) :
    LedgerStep state (.durableBackfillCompletionCommitOk token)
      (state.durableBackfillCompletionCommitOk token).2.ledger := by
  unfold durableBackfillCompletionCommitOk
  split_ifs with hactive
  · exact .frame _
  · cases htarget : state.jobTarget token with
    | none => exact .frame _
    | some targetBlock =>
      dsimp only
      split_ifs with hcovered
      · exact .frame _
      · refine .completionCommitted (by simpa using hactive) htarget fun required hrequired => ?_
        rw [Option.mem_def.mp hrequired] at hcovered
        have hany : required.resetGeneration = token.resetGeneration ∧
            required.targetBlock ≤ targetBlock := by simpa using hcovered
        exact hany.2

/-- Every mutation changes the ledger in one of the ways listed. -/
theorem applyMutation_ledgerStep (state : WalletActorState) (mutation : WalletActorMutation) :
    LedgerStep state mutation (state.applyMutation mutation).ledger := by
  cases mutation with
  -- The changes of the jobs, and those of what is not in the ledger.
  | acceptTarget | acceptSyncTarget | updateTarget | acceptIndexedCatchUp
  | publishIndexedCatchUp | acceptPendingOverlay | retireJob | failJobBackfillUnavailable
  | failJobTargetNotReached | failJobApplyFailed | backfillDispatchAdmitted
  | applyBackfillOwnerDisposition | durableResetReplayCommitOk =>
    refine .of_eq ?_
    simp only [applyMutation, acceptTarget, acceptSyncTarget, failJobBackfillUnavailable,
      failJobTargetNotReached, failJobApplyFailed, acceptJobWithTarget_ledger,
      updateTarget_ledger, acceptIndexedCatchUp_ledger, publishIndexedCatchUp_ledger,
      acceptPendingOverlay_ledger, retireJob_ledger, failJob_ledger,
      backfillDispatchAdmitted_ledger, applyBackfillOwnerDisposition_ledger,
      durableResetReplayCommitOk_ledger]
  | resetReplayPersistFailed | setPoiCorpusRefreshPending | observePoiCorpusRevision
  | setPendingResetReplayAdmitted | clearPendingReset => exact .of_eq rfl
  | completeBackfillJob token => exact completeBackfillJob_ledgerStep token
  | durablePoiStatusCommitOk resetGeneration selection => exact .poiCommitted _ _
  | poiStatusPersistFailed resetGeneration selection =>
    by_cases hcurrent : resetGeneration = state.resetGeneration
    · subst hcurrent
      rw [applyMutation, poiStatusPersistFailed, if_pos rfl]
      exact .poiFailed selection
    · rw [applyMutation, poiStatusPersistFailed, if_neg hcurrent]
      exact .frame _
  | syncProgressPersistFailed token fromBlock toBlock =>
    exact syncProgressPersistFailed_ledgerStep token fromBlock toBlock
  | durableSyncProgressCommitOk token fromBlock toBlock =>
    exact durableSyncProgressCommitOk_ledgerStep token fromBlock toBlock
  | backfillCompletionPersistFailed token =>
    exact backfillCompletionPersistFailed_ledgerStep token
  | durableBackfillCompletionCommitOk token =>
    exact durableBackfillCompletionCommitOk_ledgerStep token
  | markPendingResetRewindCommitted lastScanned => exact .rewound lastScanned
  | acceptReset pending => exact .reset pending
  | transitionTerminalShutdown => exact .shutdown

end Changes

namespace WalletPoiPersistenceRequirements

/-- Requirements carry a generation, unless there are none. -/
def Tagged (requirements : WalletPoiPersistenceRequirements) (generation : Nat) : Prop :=
  requirements.resetGeneration = if requirements.isEmpty then none else some generation

variable {requirements : WalletPoiPersistenceRequirements} {generation : Nat}

theorem tagged_iff_none (hempty : requirements.isEmpty = true) :
    requirements.Tagged generation ↔ requirements.resetGeneration = none := by
  rw [Tagged, if_pos hempty]

theorem tagged_iff_some (hempty : requirements.isEmpty = false) :
    requirements.Tagged generation ↔ requirements.resetGeneration = some generation := by
  rw [Tagged, if_neg (Bool.eq_false_iff.mp hempty)]

theorem withSelection_isEmpty (requirements : WalletPoiPersistenceRequirements)
    (selection : WalletPoiRefreshSelection) :
    (requirements.withSelection selection).isEmpty = false := by
  cases selection <;> simp [withSelection, isEmpty]

theorem withSelection_resetGeneration (requirements : WalletPoiPersistenceRequirements)
    (selection : WalletPoiRefreshSelection) :
    (requirements.withSelection selection).resetGeneration = requirements.resetGeneration := by
  cases selection <;> rfl

theorem withoutSelection_resetGeneration (requirements : WalletPoiPersistenceRequirements)
    (selection : WalletPoiRefreshSelection) :
    (requirements.withoutSelection selection).resetGeneration =
      requirements.resetGeneration := by
  cases selection with
  | required | requiredOrRecoverable | recoverable => rfl
  | recoverableStale | corpusRevision =>
    rw [withoutSelection]
    split_ifs <;> rfl

/-- Requirements of the generation are extended, never replaced. -/
theorem insert_eq (htagged : requirements.Tagged generation)
    (selection : WalletPoiRefreshSelection) :
    requirements.insert generation selection =
      { requirements with resetGeneration := some generation }.withSelection selection := by
  unfold insert
  cases hempty : requirements.isEmpty with
  | true =>
    exact if_neg (not_not.mpr rfl)
  | false =>
    have htag := (tagged_iff_some hempty).mp htagged
    rw [if_neg Bool.false_ne_true, ← htag]
    exact if_neg (not_not.mpr rfl)

theorem insert_tagged (htagged : requirements.Tagged generation)
    (selection : WalletPoiRefreshSelection) :
    (requirements.insert generation selection).Tagged generation := by
  rw [insert_eq htagged, tagged_iff_some (withSelection_isEmpty _ _),
    withSelection_resetGeneration]

theorem remove_tagged (htagged : requirements.Tagged generation) (resetGeneration : Nat)
    (selection : WalletPoiRefreshSelection) :
    (requirements.remove resetGeneration selection).Tagged generation := by
  unfold remove
  dsimp only
  split_ifs with hsame hleft
  · exact htagged
  · exact (if_pos hleft).symm
  · cases hempty : requirements.isEmpty with
    | true =>
      have htag := (tagged_iff_none hempty).mp htagged
      exact absurd (htag.symm.trans (not_not.mp hsame)) nofun
    | false =>
      rw [tagged_iff_some (Bool.eq_false_iff.mpr hleft), withoutSelection_resetGeneration]
      exact (tagged_iff_some hempty).mp htagged

theorem rebase_tagged (htagged : requirements.Tagged generation) (resetGeneration : Nat) :
    (requirements.rebase resetGeneration).Tagged resetGeneration := by
  unfold rebase
  cases hempty : requirements.isEmpty with
  | true => exact (tagged_iff_none hempty).mpr ((tagged_iff_none hempty).mp htagged)
  | false => exact (if_neg (Bool.eq_false_iff.mp hempty)).symm

/-- A removal for another generation changes nothing. -/
theorem remove_stale (htagged : requirements.Tagged generation) {resetGeneration : Nat}
    (hne : resetGeneration ≠ generation) (selection : WalletPoiRefreshSelection) :
    requirements.remove resetGeneration selection = requirements := by
  refine if_pos ?_
  rw [htagged]
  split_ifs
  · nofun
  · exact fun heq => hne (Option.some.inj heq).symm

end WalletPoiPersistenceRequirements

/-- What the worker sees to when it makes a change. Block numbers are 64-bit
    words. A rewind goes back to the block before the reset, or to the last
    scanned block if that is earlier. And the token of a replay has just been
    minted for the generation the actor is in. -/
def WalletActorMutation.Issued (state : WalletActorState) : WalletActorMutation → Prop
  | .durableSyncProgressCommitOk _ _ toBlock => toBlock < 2 ^ 64
  | .markPendingResetRewindCommitted lastScanned => lastScanned ≤ state.lastScanned
  | .setPendingResetReplayAdmitted replay =>
    ∀ admitted ∈ replay, admitted.1.resetGeneration = state.resetGeneration
  | _ => True

/-- What holds of the ledger at any time. The scanned blocks end at a 64-bit
    word, selections are required in the current generation, and the blocks
    that are still to be written come after the scanned ones. -/
structure WalletLedger.Sound (ledger : WalletLedger) : Prop where
  lastScanned_lt : ledger.lastScanned < 2 ^ 64
  tagged : ledger.poi.Tagged ledger.resetGeneration
  progress_current : ∀ required ∈ ledger.progress,
    required.resetGeneration = ledger.resetGeneration ∧
      saturatingAdd ledger.lastScanned 1 ≤ required.range.fromBlock
  completion_current : ∀ required ∈ ledger.completion,
    required.resetGeneration = ledger.resetGeneration

section Runs

variable {state : WalletActorState} {token : WalletSyncToken}

/-- A new actor is sound. -/
theorem new_sound (chainId actorId resetGeneration highestAcceptedResetIntent : Nat)
    {lastScanned : Nat} (hlast : lastScanned < 2 ^ 64) (pendingReset : Option PendingWalletReset)
    (poiCorpusRefreshPending : Bool) :
    (WalletActorState.new chainId actorId resetGeneration lastScanned highestAcceptedResetIntent
      pendingReset poiCorpusRefreshPending).ledger.Sound :=
  ⟨hlast, rfl, nofun, nofun⟩

/-- A job that is active is of the generation of the actor. -/
theorem isActiveJob_generation {kind : WalletActorJobKind}
    (hactive : state.isActiveJob token kind = true) :
    token.resetGeneration = state.resetGeneration := by
  rw [isActiveJob, Bool.and_eq_true, isCurrentToken,
    decide_eq_true_eq] at hactive
  exact hactive.1.2.2

theorem acceptsProgress_iff {fromBlock toBlock : Nat} :
    state.acceptsProgress token fromBlock toBlock = true ↔
      fromBlock ≤ toBlock ∧ fromBlock = saturatingAdd state.lastScanned 1 ∧
        state.isActiveJob token .backfill = true := by
  rw [acceptsProgress, Bool.and_eq_true, decide_eq_true_eq, and_assoc]

theorem saturatingAdd_le {a b : Nat} (hle : a ≤ b) : saturatingAdd a 1 ≤ saturatingAdd b 1 := by
  unfold saturatingAdd
  omega

theorem saturatingAdd_le_of_lt {a b : Nat} (hlt : a < b) : saturatingAdd a 1 ≤ b :=
  (Nat.min_le_left _ _).trans hlt

/-- The blocks still to be written after a failure are of the current generation
    and start right after the scanned ones. -/
theorem progressAfterFailure_current {fromBlock toBlock : Nat} (hsound : state.ledger.Sound)
    (haccepts : state.acceptsProgress token fromBlock toBlock = true) :
    (progressAfterFailure state.progressPersistenceRequirement token fromBlock
        toBlock).resetGeneration = state.resetGeneration ∧
      saturatingAdd state.lastScanned 1 ≤
        (progressAfterFailure state.progressPersistenceRequirement token fromBlock
          toBlock).range.fromBlock := by
  obtain ⟨-, hfrom, hactive⟩ := acceptsProgress_iff.mp haccepts
  have htoken := isActiveJob_generation hactive
  unfold progressAfterFailure
  cases hfilter : state.progressPersistenceRequirement.filter fun required =>
      decide (required.resetGeneration = token.resetGeneration) with
  | none => exact ⟨htoken, hfrom.ge⟩
  | some required =>
    have hmem : required ∈ state.progressPersistenceRequirement :=
      (Option.filter_eq_some_iff.mp hfilter).1
    obtain ⟨hcurrent, hle⟩ := hsound.progress_current required hmem
    exact ⟨hcurrent, le_min hle hfrom.ge⟩

/-- A failed completion is of the current generation. -/
theorem completionAfterFailure_current (hsound : state.ledger.Sound)
    (hactive : state.isActiveJob token .backfill = true) (targetBlock : Nat) :
    (completionAfterFailure state.completionPersistenceRequirement token
      targetBlock).resetGeneration = state.resetGeneration := by
  have htoken := isActiveJob_generation hactive
  unfold completionAfterFailure
  cases hfilter : state.completionPersistenceRequirement.filter fun required =>
      decide (required.resetGeneration = token.resetGeneration) with
  | none => exact htoken
  | some required =>
    have hmem : required ∈ state.completionPersistenceRequirement :=
      (Option.filter_eq_some_iff.mp hfilter).1
    dsimp only [Option.elim]
    split_ifs
    · exact htoken
    · exact hsound.completion_current required hmem

theorem progressAfterCommit_current (hsound : state.ledger.Sound)
    (hactive : state.isActiveJob token .backfill = true) {toBlock : Nat}
    {left : WalletProgressPersistenceRequirement}
    (hleft : progressAfterCommit state.progressPersistenceRequirement token
      toBlock = some left) :
    left.resetGeneration = state.resetGeneration ∧
      saturatingAdd toBlock 1 ≤ left.range.fromBlock := by
  obtain ⟨required, hrequired, hleft⟩ := Option.bind_eq_some_iff.mp hleft
  obtain ⟨hcurrent, -⟩ := hsound.progress_current required hrequired
  rw [if_pos (hcurrent.trans (isActiveJob_generation hactive).symm)] at hleft
  split at hleft
  · cases hleft
  · cases hleft
    exact ⟨hcurrent, le_max_right _ _⟩

/-- Each way of changing the ledger keeps it sound. -/
theorem ledgerStep_sound {mutation : WalletActorMutation} {ledger : WalletLedger}
    (hissued : mutation.Issued state) (hsound : state.ledger.Sound)
    (hstep : LedgerStep state mutation ledger) : ledger.Sound := by
  cases hstep with
  | frame => exact hsound
  | complete => exact { hsound with }
  | poiCommitted resetGeneration selection =>
    exact { hsound with
      tagged := remove_tagged hsound.tagged _ _ }
  | poiFailed selection =>
    exact { hsound with
      tagged := insert_tagged hsound.tagged _ }
  | progressFailed haccepts =>
    refine { hsound with progress_current := fun required hrequired => ?_ }
    rw [← Option.some.inj hrequired]
    exact progressAfterFailure_current hsound haccepts
  | progressCommitted haccepts =>
    exact { hsound with
      lastScanned_lt := hissued
      progress_current := fun _ hleft =>
        progressAfterCommit_current hsound (acceptsProgress_iff.mp haccepts).2.2 hleft }
  | completionFailed hactive htarget =>
    refine { hsound with completion_current := fun required hrequired => ?_ }
    rw [← Option.some.inj hrequired]
    exact completionAfterFailure_current hsound hactive _
  | completionCommitted => exact { hsound with completion_current := nofun }
  | rewound lastScanned =>
    -- Going back leaves the blocks to be written after the scanned ones.
    exact { hsound with
      lastScanned_lt := lt_of_le_of_lt hissued hsound.lastScanned_lt
      progress_current := fun required hrequired =>
        ⟨(hsound.progress_current required hrequired).1,
          (saturatingAdd_le hissued).trans (hsound.progress_current required hrequired).2⟩ }
  | reset pending =>
    exact
      { lastScanned_lt := hsound.lastScanned_lt
        tagged := rebase_tagged hsound.tagged _
        progress_current := nofun
        completion_current := nofun }
  | shutdown =>
    exact { hsound with tagged := rfl, progress_current := nofun, completion_current := nofun }

/-- One mutation that has been issued keeps the ledger sound. -/
theorem applyMutation_sound (mutation : WalletActorMutation) (hissued : mutation.Issued state)
    (hsound : state.ledger.Sound) : (state.applyMutation mutation).ledger.Sound :=
  ledgerStep_sound hissued hsound (applyMutation_ledgerStep state mutation)

/-- By induction, so does a run of them. -/
theorem runAll_sound {mutations : List WalletActorMutation}
    (hissued : AllAllowed applyMutation
      (fun state mutation => mutation.Issued state) state mutations)
    (hsound : state.ledger.Sound) :
    (runAll applyMutation state mutations).ledger.Sound :=
  runAll_keeps (I := fun state => state.ledger.Sound)
    (fun _ mutation hissued hsound => applyMutation_sound mutation hissued hsound) hissued hsound

section Stale

variable (hstale : token.resetGeneration ≠ state.resetGeneration)

include hstale

theorem isCurrentToken_stale : state.isCurrentToken token = false := by
  refine decide_eq_false fun h => hstale h.2.2

/-- No job of another generation is active. -/
theorem isActiveJob_stale (kind : WalletActorJobKind) : state.isActiveJob token kind = false := by
  rw [isActiveJob, isCurrentToken_stale hstale, Bool.false_and]

theorem hasActiveJob_stale : state.hasActiveJob token = false := by
  rw [hasActiveJob, isCurrentToken_stale hstale, Bool.false_and]

theorem acceptsProgress_stale (fromBlock toBlock : Nat) :
    state.acceptsProgress token fromBlock toBlock = false := by
  rw [acceptsProgress, isActiveJob_stale hstale, Bool.and_false]

theorem acceptJob_stale (kind : WalletActorJobKind) :
    state.acceptJob token kind = (false, state) := by
  rw [acceptJob, isCurrentToken_stale hstale]
  rfl

end Stale

/-- A mutation of another generation changes nothing. -/
theorem applyMutation_stale (htagged : state.poiPersistenceRequirements.Tagged
      state.resetGeneration) {mutation : WalletActorMutation} (hissued : mutation.Issued state)
    {generation : Nat} (hgeneration : mutation.generation = some generation)
    (hstale : generation ≠ state.resetGeneration) : state.applyMutation mutation = state := by
  cases mutation with
  -- A change with a token first asks whether that is current.
  | acceptTarget token | acceptSyncTarget token | updateTarget token | acceptIndexedCatchUp token
  | publishIndexedCatchUp token | retireJob token | completeBackfillJob token
  | failJobBackfillUnavailable token | failJobTargetNotReached token | failJobApplyFailed token
  | backfillDispatchAdmitted token | syncProgressPersistFailed token
  | durableSyncProgressCommitOk token | backfillCompletionPersistFailed token
  | durableBackfillCompletionCommitOk token =>
    cases hgeneration
    simp [applyMutation, acceptTarget, acceptSyncTarget, acceptJobWithTarget, updateTarget,
      acceptIndexedCatchUp, publishIndexedCatchUp, retireJob, completeBackfillJob,
      failJobBackfillUnavailable, failJobTargetNotReached, failJobApplyFailed, failJob,
      backfillDispatchAdmitted, syncProgressPersistFailed, durableSyncProgressCommitOk,
      backfillCompletionPersistFailed, durableBackfillCompletionCommitOk,
      isActiveJob_stale hstale, hasActiveJob_stale hstale, acceptsProgress_stale hstale,
      acceptJob_stale hstale]
  | applyBackfillOwnerDisposition token disposition =>
    cases hgeneration
    cases disposition <;>
      simp [applyMutation, applyBackfillOwnerDisposition, retireJob, failJobBackfillUnavailable,
        failJob, hasActiveJob_stale hstale]
  | acceptPendingOverlay token lastScanned =>
    cases hgeneration
    exact congrArg Prod.snd (if_neg fun h => hstale h.1)
  | durablePoiStatusCommitOk resetGeneration selection =>
    cases hgeneration
    rw [applyMutation, durablePoiStatusCommitOk, remove_stale htagged hstale]
  | poiStatusPersistFailed resetGeneration selection =>
    cases hgeneration
    exact if_neg hstale
  | setPendingResetReplayAdmitted replay =>
    -- The token of a replay is always of the current generation.
    obtain ⟨admitted, hadmitted, rfl⟩ := Option.map_eq_some_iff.mp hgeneration
    exact absurd (hissued admitted hadmitted) hstale
  | durableResetReplayCommitOk | resetReplayPersistFailed | setPoiCorpusRefreshPending
  | observePoiCorpusRevision | markPendingResetRewindCommitted | clearPendingReset
  | acceptReset | transitionTerminalShutdown => cases hgeneration

end Runs

end Railgun
