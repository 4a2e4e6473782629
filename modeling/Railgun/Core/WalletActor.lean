import Railgun.Core.Types

/-!
# The Wallet Actor

The state a wallet actor keeps about its synchronization, every way it changes,
and the readiness that is derived from it.

Work on a wallet is done by jobs. A job is named by a token, which carries the
reset generation it was minted for, and what a job reports is taken only if the
token is of the current generation and names an active job. A reset starts a new
generation and drops the jobs of the old one.

What could not be written to disk is kept as a requirement: the status
selections of the proofs of innocence, the retirement of a reset's replay plan,
a range of scanned blocks, the completion of a job. As long as there is one, the
wallet is not ready.

The readiness is published after each change. The publisher itself, and the view
it publishes along with the readiness, are left out.

## Main definitions

* `WalletActorState`: The state, with a definition for each change.
* `WalletActorState.applyMutation`: One change.
-/

namespace Railgun

/-- What names a job. -/
structure WalletSyncToken where
  chainId : Nat
  actorId : Nat
  resetGeneration : Nat
  jobId : Nat
deriving DecidableEq, Repr

/-- Where a job of indexed catch-up takes its rows from. -/
inductive WalletIndexedCatchUpSource where
  | squid
  | indexedArtifacts
deriving DecidableEq, Repr

/-- How far a job of indexed catch-up has come. -/
structure WalletIndexedCatchUpStatus where
  source : WalletIndexedCatchUpSource
  fromBlock : Nat
  targetBlock : Nat
deriving DecidableEq, Repr

/-- What a job does. -/
inductive WalletActorJobKind where
  | syncTarget
  | backfill
  | pendingOverlay
  | indexedCatchUp
deriving DecidableEq, Repr

/-- A job that has been accepted and not yet retired. -/
structure WalletActorJob where
  resetGeneration : Nat
  kind : WalletActorJobKind
  targetBlock : Option Nat
  indexedStatus : Option WalletIndexedCatchUpStatus
deriving DecidableEq, Repr

/-- The blocks of a scan. -/
structure WalletRequiredPersistRange where
  fromBlock : Nat
  toBlock : Nat
deriving DecidableEq, Repr

/-- Scanned blocks that could not be written. -/
structure WalletProgressPersistenceRequirement where
  resetGeneration : Nat
  range : WalletRequiredPersistRange
deriving DecidableEq, Repr

/-- The completion of a job that could not be written. -/
structure WalletCompletionPersistenceRequirement where
  resetGeneration : Nat
  token : WalletSyncToken
  targetBlock : Nat
deriving DecidableEq, Repr

/-- Why a wallet is not ready. -/
inductive WalletReadinessError where
  | backfillUnavailable
  | targetNotReached (targetBlock : Nat)
  | persistenceFailed
  | applyFailed
deriving DecidableEq, Repr

/-- Whether a wallet can be used. -/
inductive WalletReadiness where
  | syncing
  | ready
  | failed (error : WalletReadinessError)
  | shutdown
deriving DecidableEq, Repr

/-- Why a job has failed. -/
inductive WalletJobFailureReason where
  | backfillUnavailable
  | targetNotReached (targetBlock : Nat)
  | applyFailed
deriving DecidableEq, Repr

/-- The error a failed job shows as. -/
def WalletJobFailureReason.readinessError : WalletJobFailureReason → WalletReadinessError
  | .backfillUnavailable => .backfillUnavailable
  | .targetNotReached targetBlock => .targetNotReached targetBlock
  | .applyFailed => .applyFailed

/-- A job that has failed. -/
structure WalletJobFailure where
  token : WalletSyncToken
  targetBlock : Nat
  reason : WalletJobFailureReason
deriving DecidableEq, Repr

/-- Which blocks a reset replays. -/
structure WalletResetReplayPlan where
  startBlock : Nat
  targetBlock : Nat
  followSafeHead : Bool
deriving DecidableEq, Repr

/-- A reset that has been accepted and not yet carried out. -/
structure PendingWalletReset where
  intentId : Nat
  fromBlock : Nat
  resetGeneration : Nat
  replayPlan : WalletResetReplayPlan
deriving DecidableEq, Repr

/-- What becomes of a job that has lost its owner. -/
inductive WalletBackfillOwnerDisposition where
  | benignRetirement
  | driverLost
deriving DecidableEq, Repr

/-- Which statuses of proofs of innocence a refresh asks for. -/
inductive WalletPoiRefreshSelection where
  | required
  | requiredOrRecoverable
  | recoverableStale (now : Nat)
  | recoverable
  | corpusRevision (blockedShieldsChanged : Bool)
deriving DecidableEq, Repr

/-- The refreshed statuses that could not be written, one entry for each kind of
    selection, and the generation they are required in. -/
structure WalletPoiPersistenceRequirements where
  resetGeneration : Option Nat := none
  required : Bool := false
  requiredOrRecoverable : Bool := false
  recoverableStale : Option Nat := none
  recoverable : Bool := false
  corpusRevision : Option Bool := none
deriving DecidableEq, Repr

namespace WalletPoiPersistenceRequirements

/-- Whether nothing is required. -/
def isEmpty (requirements : WalletPoiPersistenceRequirements) : Bool :=
  !requirements.required && !requirements.requiredOrRecoverable &&
    requirements.recoverableStale.isNone && !requirements.recoverable &&
    requirements.corpusRevision.isNone

/-- The selections with one more. Two stale selections are merged into the later
    one, two corpus revisions into one that asks for blocked shields if either
    does. -/
def withSelection (requirements : WalletPoiPersistenceRequirements) :
    WalletPoiRefreshSelection → WalletPoiPersistenceRequirements
  | .required => { requirements with required := true }
  | .requiredOrRecoverable => { requirements with requiredOrRecoverable := true }
  | .recoverableStale now =>
    { requirements with
      recoverableStale := some (requirements.recoverableStale.elim now fun old => max old now) }
  | .recoverable => { requirements with recoverable := true }
  | .corpusRevision blockedShieldsChanged =>
    { requirements with
      corpusRevision := some (requirements.corpusRevision.getD false || blockedShieldsChanged) }

/-- Require a selection. -/
def insert (requirements : WalletPoiPersistenceRequirements) (resetGeneration : Nat)
    (selection : WalletPoiRefreshSelection) : WalletPoiPersistenceRequirements :=
  let requirements :=
    if requirements.isEmpty then { requirements with resetGeneration := some resetGeneration }
    else requirements
  if requirements.resetGeneration ≠ some resetGeneration then requirements
  else requirements.withSelection selection

/-- What is left of the selections after one has been written. A stale selection
    or a corpus revision is only taken out if the written one asks for as
    much. -/
def withoutSelection (requirements : WalletPoiPersistenceRequirements) :
    WalletPoiRefreshSelection → WalletPoiPersistenceRequirements
  | .required => { requirements with required := false }
  | .requiredOrRecoverable => { requirements with requiredOrRecoverable := false }
  | .recoverableStale now =>
    if requirements.recoverableStale.any fun required => decide (required ≤ now) then
      { requirements with recoverableStale := none }
    else requirements
  | .recoverable => { requirements with recoverable := false }
  | .corpusRevision blockedShieldsChanged =>
    if requirements.corpusRevision.any fun required => !required || blockedShieldsChanged then
      { requirements with corpusRevision := none }
    else requirements

/-- Take out a selection that has been written. -/
def remove (requirements : WalletPoiPersistenceRequirements) (resetGeneration : Nat)
    (selection : WalletPoiRefreshSelection) : WalletPoiPersistenceRequirements :=
  if requirements.resetGeneration ≠ some resetGeneration then requirements
  else
    let requirements := requirements.withoutSelection selection
    if requirements.isEmpty then { requirements with resetGeneration := none } else requirements

/-- Require in a new generation what was required in the old one. -/
def rebase (requirements : WalletPoiPersistenceRequirements) (resetGeneration : Nat) :
    WalletPoiPersistenceRequirements :=
  if !requirements.isEmpty then { requirements with resetGeneration := some resetGeneration }
  else requirements

end WalletPoiPersistenceRequirements

/-- All that an actor knows. -/
structure WalletActorState where
  chainId : Nat
  actorId : Nat
  resetGeneration : Nat
  lastScanned : Nat
  completedTargetBlock : Option Nat := none
  poiPersistenceRequirements : WalletPoiPersistenceRequirements := {}
  resetReplayPersistenceRequirement : Option Nat := none
  progressPersistenceRequirement : Option WalletProgressPersistenceRequirement := none
  completionPersistenceRequirement : Option WalletCompletionPersistenceRequirement := none
  jobFailures : BTreeMap Nat WalletJobFailure := ∅
  poiCorpusRefreshPending : Bool
  shutdown : Bool := false
  highestAcceptedResetIntent : Nat
  pendingReset : Option PendingWalletReset
  pendingResetRewindCommitted : Bool := false
  pendingResetReplayAdmitted : Option WalletSyncToken := none
  pendingResetProgressStartBlock : Option Nat := none
  activeJobs : BTreeMap Nat WalletActorJob := ∅
  highestAcceptedBackfillJobId : Nat := 0
  latestPendingOverlayJob : Option Nat := none

namespace WalletActorState

/-- The state an actor starts in. -/
def new (chainId actorId resetGeneration lastScanned highestAcceptedResetIntent : Nat)
    (pendingReset : Option PendingWalletReset) (poiCorpusRefreshPending : Bool) :
    WalletActorState :=
  { chainId, actorId, resetGeneration, lastScanned, highestAcceptedResetIntent, pendingReset,
    poiCorpusRefreshPending }

/-- Whether something could not be written. -/
def hasPersistenceFailure (state : WalletActorState) : Bool :=
  !state.poiPersistenceRequirements.isEmpty || state.resetReplayPersistenceRequirement.isSome ||
    state.progressPersistenceRequirement.isSome || state.completionPersistenceRequirement.isSome

/-- Whether a job of a kind is active. -/
def hasActiveKind (state : WalletActorState) (kind : WalletActorJobKind) : Bool :=
  state.activeJobs.toList.any fun entry => entry.2.kind = kind

/-- The readiness. A failed write comes before a failed job, and the first
    failed job before the others. Overlays of pending transactions do not keep a
    wallet from being ready. -/
def derivedReadiness (state : WalletActorState) : WalletReadiness :=
  if state.shutdown then .shutdown
  else if state.hasPersistenceFailure then .failed .persistenceFailed
  else match state.jobFailures.toList with
    | (_, failure) :: _ => .failed failure.reason.readinessError
    | [] =>
      if state.pendingReset.isSome || state.poiCorpusRefreshPending then .syncing
      else if state.hasActiveKind .syncTarget || state.hasActiveKind .backfill ||
          state.hasActiveKind .indexedCatchUp then .syncing
      else match state.completedTargetBlock with
        | some targetBlock =>
          if 0 < targetBlock ∧ targetBlock ≤ state.lastScanned then .ready else .syncing
        | none => .syncing

/-- Whether a token is of this actor and of the current generation. -/
def isCurrentToken (state : WalletActorState) (token : WalletSyncToken) : Bool :=
  decide (token.chainId = state.chainId ∧ token.actorId = state.actorId ∧
    token.resetGeneration = state.resetGeneration)

/-- Whether a token names an active job of this kind. -/
def isActiveJob (state : WalletActorState) (token : WalletSyncToken) (kind : WalletActorJobKind) :
    Bool :=
  state.isCurrentToken token && state.activeJobs[token.jobId]?.any fun job =>
    job.resetGeneration = token.resetGeneration ∧ job.kind = kind

/-- Whether a token names an active job. -/
def hasActiveJob (state : WalletActorState) (token : WalletSyncToken) : Bool :=
  state.isCurrentToken token && state.activeJobs[token.jobId]?.any fun job =>
    job.resetGeneration = token.resetGeneration

/-- The block that an active job scans up to. -/
def jobTarget (state : WalletActorState) (token : WalletSyncToken) : Option Nat :=
  state.activeJobs[token.jobId]?.bind (·.targetBlock)

/-- Change an active job. -/
def modifyJob (state : WalletActorState) (token : WalletSyncToken)
    (change : WalletActorJob → WalletActorJob) : WalletActorState :=
  { state with activeJobs := state.activeJobs.modify token.jobId change }

/-! ## Accepting jobs

Each change answers whether it has been taken, with the state it leaves. -/

/-- Accept a job. A job that is active already is accepted again if it is of the
    same kind, and backfill jobs are accepted in the order of their ids. -/
def acceptJob (state : WalletActorState) (token : WalletSyncToken) (kind : WalletActorJobKind) :
    Bool × WalletActorState :=
  if !state.isCurrentToken token then (false, state)
  else match state.activeJobs[token.jobId]? with
    | some job =>
      (decide (job.kind = kind ∧ job.resetGeneration = token.resetGeneration), state)
    | none =>
      if kind = .backfill ∧ token.jobId ≤ state.highestAcceptedBackfillJobId then (false, state)
      else
        (true,
          { state with
            highestAcceptedBackfillJobId :=
              if kind = .backfill then token.jobId else state.highestAcceptedBackfillJobId
            activeJobs := state.activeJobs.insert token.jobId
              { resetGeneration := token.resetGeneration, kind, targetBlock := none,
                indexedStatus := none }
            latestPendingOverlayJob :=
              if kind = .pendingOverlay then some token.jobId else state.latestPendingOverlayJob })

/-- Accept a job, unless it is stale or one of its kind is active. -/
def acceptJobWithTarget (state : WalletActorState) (token : WalletSyncToken) (targetBlock : Nat)
    (kind : WalletActorJobKind) : Bool × WalletActorState :=
  if state.hasActiveJob token then (false, state)
  else
    let (accepted, state) := state.acceptJob token kind
    if !accepted then (false, state)
    else (true, state.modifyJob token fun job => { job with targetBlock := some targetBlock })

/-- Accept a backfill job. -/
def acceptTarget (state : WalletActorState) (token : WalletSyncToken) (targetBlock : Nat) :
    Bool × WalletActorState :=
  state.acceptJobWithTarget token targetBlock .backfill

/-- Accept a job that waits for a target. -/
def acceptSyncTarget (state : WalletActorState) (token : WalletSyncToken) (targetBlock : Nat) :
    Bool × WalletActorState :=
  state.acceptJobWithTarget token targetBlock .syncTarget

/-- Raise the target of a backfill job. -/
def updateTarget (state : WalletActorState) (token : WalletSyncToken) (targetBlock : Nat) :
    Option Nat × WalletActorState :=
  if !state.isActiveJob token .backfill then (none, state)
  else
    let targetBlock := (state.jobTarget token).elim targetBlock fun current =>
      max current targetBlock
    (some targetBlock,
      state.modifyJob token fun job => { job with targetBlock := some targetBlock })

/-- Accept a job of indexed catch-up, of which there is at most one. -/
def acceptIndexedCatchUp (state : WalletActorState) (token : WalletSyncToken) :
    Bool × WalletActorState :=
  if state.hasActiveKind .indexedCatchUp then (false, state)
  else state.acceptJob token .indexedCatchUp

/-- Store how far a job of indexed catch-up has come. -/
def publishIndexedCatchUp (state : WalletActorState) (token : WalletSyncToken)
    (status : WalletIndexedCatchUpStatus) : Bool × WalletActorState :=
  if !state.isActiveJob token .indexedCatchUp then (false, state)
  else (true, state.modifyJob token fun job => { job with indexedStatus := some status })

/-- Accept an overlay of pending transactions over the blocks scanned so far. -/
def acceptPendingOverlay (state : WalletActorState) (token : WalletSyncToken)
    (lastScanned : Nat) : Bool × WalletActorState :=
  if token.resetGeneration = state.resetGeneration ∧ lastScanned = state.lastScanned ∧
      (state.latestPendingOverlayJob.all fun latest => latest < token.jobId) = true then
    state.acceptJob token .pendingOverlay
  else (false, state)

/-- Remove a job, and the admission of a replay that it was. -/
def removeJob (state : WalletActorState) (token : WalletSyncToken) : Bool × WalletActorState :=
  let retired := state.activeJobs[token.jobId]?.isSome
  let state := { state with activeJobs := state.activeJobs.erase token.jobId }
  if retired ∧ state.pendingResetReplayAdmitted = some token then
    (retired,
      { state with pendingResetReplayAdmitted := none, pendingResetProgressStartBlock := none })
  else (retired, state)

/-- Retire a job that is active. -/
def retireJob (state : WalletActorState) (token : WalletSyncToken) : Bool × WalletActorState :=
  if !state.hasActiveJob token then (false, state)
  else state.removeJob token

/-- Retire a backfill job that has reached its target, which becomes the
    completed target if it is the highest. -/
def completeBackfillJob (state : WalletActorState) (token : WalletSyncToken) :
    Bool × WalletActorState :=
  if !state.isActiveJob token .backfill then (false, state)
  -- The target is taken from a backfill job, which the check has made sure of.
  else match state.jobTarget token with
    | none => (false, state)
    | some targetBlock =>
      { state with
        completedTargetBlock := some (state.completedTargetBlock.elim targetBlock fun completed =>
          max completed targetBlock) }.retireJob token

/-- Remove a job that has failed. The first failure of a job is the one kept. -/
def failJob (state : WalletActorState) (token : WalletSyncToken)
    (reason : WalletJobFailureReason) : Bool × WalletActorState :=
  if !state.hasActiveJob token then (false, state)
  else
    let targetBlock := (state.jobTarget token).getD state.lastScanned
    let (retired, state) := state.removeJob token
    if retired then
      (retired,
        { state with
          jobFailures := state.jobFailures.insertIfNew token.jobId ⟨token, targetBlock, reason⟩ })
    else (retired, state)

/-- A job could not be handed to the backfill. -/
def failJobBackfillUnavailable (state : WalletActorState) (token : WalletSyncToken) :
    Bool × WalletActorState :=
  state.failJob token .backfillUnavailable

/-- A job ended before its target. -/
def failJobTargetNotReached (state : WalletActorState) (token : WalletSyncToken)
    (targetBlock : Nat) : Bool × WalletActorState :=
  state.failJob token (.targetNotReached targetBlock)

/-- What a job scanned could not be applied. -/
def failJobApplyFailed (state : WalletActorState) (token : WalletSyncToken) :
    Bool × WalletActorState :=
  state.failJob token .applyFailed

/-- A backfill job has been handed on. Failures that it makes up for are
    forgotten. -/
def backfillDispatchAdmitted (state : WalletActorState) (token : WalletSyncToken) :
    Bool × WalletActorState :=
  if !state.isActiveJob token .backfill then (false, state)
  else match state.jobTarget token with
    | none => (false, state)
    | some targetBlock =>
      let jobFailures := state.jobFailures.filter fun _ failure =>
        failure.token.resetGeneration ≠ token.resetGeneration ∨
          targetBlock < failure.targetBlock
      (decide (jobFailures.size ≠ state.jobFailures.size), { state with jobFailures })

/-- A job has lost its owner. -/
def applyBackfillOwnerDisposition (state : WalletActorState) (token : WalletSyncToken) :
    WalletBackfillOwnerDisposition → Bool × WalletActorState
  | .benignRetirement => state.retireJob token
  | .driverLost => state.failJobBackfillUnavailable token

/-- The statuses of a selection have been written. -/
def durablePoiStatusCommitOk (state : WalletActorState) (resetGeneration : Nat)
    (selection : WalletPoiRefreshSelection) : WalletActorState :=
  { state with
    poiPersistenceRequirements :=
      state.poiPersistenceRequirements.remove resetGeneration selection }

/-- The statuses of a selection could not be written. -/
def poiStatusPersistFailed (state : WalletActorState) (resetGeneration : Nat)
    (selection : WalletPoiRefreshSelection) : WalletActorState :=
  if resetGeneration = state.resetGeneration then
    { state with
      poiPersistenceRequirements :=
        state.poiPersistenceRequirements.insert resetGeneration selection }
  else state

/-- The replay plan of a reset has been retired on disk. -/
def durableResetReplayCommitOk (state : WalletActorState) (intentId : Nat) : WalletActorState :=
  if state.resetReplayPersistenceRequirement = some intentId then
    { state with resetReplayPersistenceRequirement := none }
  else state

/-- The replay plan of a reset could not be retired on disk. -/
def resetReplayPersistFailed (state : WalletActorState) (intentId : Nat) : WalletActorState :=
  { state with resetReplayPersistenceRequirement := some intentId }

/-- Whether a job may report these blocks: they follow the scanned ones, and the
    job is an active backfill job. -/
def acceptsProgress (state : WalletActorState) (token : WalletSyncToken)
    (fromBlock toBlock : Nat) : Bool :=
  decide (fromBlock ≤ toBlock ∧ fromBlock = saturatingAdd state.lastScanned 1) &&
    state.isActiveJob token .backfill

/-- What is required once these blocks could not be written either. They are
    joined with those of the same generation that are required already. -/
def progressAfterFailure (required : Option WalletProgressPersistenceRequirement)
    (token : WalletSyncToken) (fromBlock toBlock : Nat) : WalletProgressPersistenceRequirement :=
  (required.filter fun required =>
      required.resetGeneration = token.resetGeneration).elim
    { resetGeneration := token.resetGeneration, range := ⟨fromBlock, toBlock⟩ }
    fun required =>
      { resetGeneration := required.resetGeneration
        range := ⟨min required.range.fromBlock fromBlock, max required.range.toBlock toBlock⟩ }

/-- Scanned blocks could not be written. -/
def syncProgressPersistFailed (state : WalletActorState) (token : WalletSyncToken)
    (fromBlock toBlock : Nat) : Bool × WalletActorState :=
  if !state.acceptsProgress token fromBlock toBlock then (false, state)
  else
    (true,
      { state with
        progressPersistenceRequirement :=
          some (progressAfterFailure state.progressPersistenceRequirement token fromBlock
            toBlock) })

/-- What is still required once the blocks up to `toBlock` have been written. -/
def progressAfterCommit (required : Option WalletProgressPersistenceRequirement)
    (token : WalletSyncToken) (toBlock : Nat) : Option WalletProgressPersistenceRequirement :=
  required.bind fun required =>
    if required.resetGeneration = token.resetGeneration then
      if required.range.toBlock ≤ toBlock then none
      else some { required with
        range :=
          { required.range with
            fromBlock := max required.range.fromBlock (saturatingAdd toBlock 1) } }
    else some required

/-- Scanned blocks have been written. -/
def durableSyncProgressCommitOk (state : WalletActorState) (token : WalletSyncToken)
    (fromBlock toBlock : Nat) : Bool × WalletActorState :=
  if !state.acceptsProgress token fromBlock toBlock then (false, state)
  else
    (true,
      { state with
        lastScanned := toBlock
        progressPersistenceRequirement :=
          progressAfterCommit state.progressPersistenceRequirement token toBlock })

/-- The completion that is required once this one could not be written either. Of
    two completions of a generation it is the one with the higher target, and of
    equal ones that of the older job. -/
def completionAfterFailure (required : Option WalletCompletionPersistenceRequirement)
    (token : WalletSyncToken) (targetBlock : Nat) : WalletCompletionPersistenceRequirement :=
  let incoming : WalletCompletionPersistenceRequirement :=
    { resetGeneration := token.resetGeneration, token, targetBlock }
  (required.filter fun required =>
      required.resetGeneration = token.resetGeneration).elim incoming fun required =>
    if required.targetBlock < incoming.targetBlock ∨
        (incoming.targetBlock = required.targetBlock ∧
          incoming.token.jobId < required.token.jobId) then incoming
    else required

/-- The completion of a job could not be written. -/
def backfillCompletionPersistFailed (state : WalletActorState) (token : WalletSyncToken) :
    Bool × WalletActorState :=
  if !state.isActiveJob token .backfill then (false, state)
  else match state.jobTarget token with
    | none => (false, state)
    | some targetBlock =>
      (true,
        { state with
          completionPersistenceRequirement :=
            some (completionAfterFailure state.completionPersistenceRequirement token
              targetBlock) })

/-- The completion of a job has been written. -/
def durableBackfillCompletionCommitOk (state : WalletActorState) (token : WalletSyncToken) :
    Bool × WalletActorState :=
  if !state.isActiveJob token .backfill then (false, state)
  else match state.jobTarget token with
    | none => (false, state)
    | some targetBlock =>
      if !(state.completionPersistenceRequirement.any fun required =>
          required.resetGeneration = token.resetGeneration ∧
            required.targetBlock ≤ targetBlock) then (false, state)
      else (true, { state with completionPersistenceRequirement := none })

/-- Set whether the corpus of the proofs of innocence is to be refreshed. -/
def setPoiCorpusRefreshPending (state : WalletActorState) (pending : Bool) : WalletActorState :=
  { state with poiCorpusRefreshPending := pending }

/-- Note that the corpus may have changed. -/
def observePoiCorpusRevision (state : WalletActorState) (changed : Bool) : WalletActorState :=
  { state with poiCorpusRefreshPending := state.poiCorpusRefreshPending || changed }

/-- The rewind of a reset has been written. -/
def markPendingResetRewindCommitted (state : WalletActorState) (lastScanned : Nat) :
    WalletActorState :=
  { state with pendingResetRewindCommitted := true, lastScanned }

/-- Set the job that replays a reset, and the block it starts from. -/
def setPendingResetReplayAdmitted (state : WalletActorState)
    (replay : Option (WalletSyncToken × Nat)) : WalletActorState :=
  { state with
    pendingResetReplayAdmitted := replay.map (·.1)
    pendingResetProgressStartBlock := replay.map (·.2) }

/-- A reset has been carried out. -/
def clearPendingReset (state : WalletActorState) : WalletActorState :=
  { state with pendingReset := none, pendingResetRewindCommitted := false }

/-- Accept a reset. The jobs and failures of the old generation are dropped, but
    the selections that are still to be written are required in the new one. The
    answer is whether a job of indexed catch-up was active. -/
def acceptReset (state : WalletActorState) (pending : PendingWalletReset) :
    Bool × WalletActorState :=
  (state.hasActiveKind .indexedCatchUp,
    { state with
      poiPersistenceRequirements :=
        state.poiPersistenceRequirements.rebase pending.resetGeneration
      resetReplayPersistenceRequirement := none
      progressPersistenceRequirement := none
      completionPersistenceRequirement := none
      jobFailures := ∅
      highestAcceptedResetIntent := pending.intentId
      pendingReset := some pending
      resetGeneration := pending.resetGeneration
      pendingResetRewindCommitted := false
      pendingResetReplayAdmitted := none
      pendingResetProgressStartBlock := none
      activeJobs := ∅
      latestPendingOverlayJob := none
      completedTargetBlock := none })

/-- Stop the actor. -/
def transitionTerminalShutdown (state : WalletActorState) : WalletActorState :=
  { state with
    shutdown := true
    activeJobs := ∅
    latestPendingOverlayJob := none
    pendingResetReplayAdmitted := none
    pendingResetProgressStartBlock := none
    poiPersistenceRequirements := {}
    resetReplayPersistenceRequirement := none
    progressPersistenceRequirement := none
    completionPersistenceRequirement := none
    jobFailures := ∅ }

end WalletActorState

/-- The changes a wallet actor can make to its state. -/
inductive WalletActorMutation where
  | acceptTarget (token : WalletSyncToken) (targetBlock : Nat)
  | acceptSyncTarget (token : WalletSyncToken) (targetBlock : Nat)
  | updateTarget (token : WalletSyncToken) (targetBlock : Nat)
  | acceptIndexedCatchUp (token : WalletSyncToken)
  | publishIndexedCatchUp (token : WalletSyncToken) (status : WalletIndexedCatchUpStatus)
  | acceptPendingOverlay (token : WalletSyncToken) (lastScanned : Nat)
  | retireJob (token : WalletSyncToken)
  | completeBackfillJob (token : WalletSyncToken)
  | failJobBackfillUnavailable (token : WalletSyncToken)
  | failJobTargetNotReached (token : WalletSyncToken) (targetBlock : Nat)
  | failJobApplyFailed (token : WalletSyncToken)
  | backfillDispatchAdmitted (token : WalletSyncToken)
  | applyBackfillOwnerDisposition (token : WalletSyncToken)
      (disposition : WalletBackfillOwnerDisposition)
  | durablePoiStatusCommitOk (resetGeneration : Nat) (selection : WalletPoiRefreshSelection)
  | poiStatusPersistFailed (resetGeneration : Nat) (selection : WalletPoiRefreshSelection)
  | durableResetReplayCommitOk (intentId : Nat)
  | resetReplayPersistFailed (intentId : Nat)
  | syncProgressPersistFailed (token : WalletSyncToken) (fromBlock toBlock : Nat)
  | durableSyncProgressCommitOk (token : WalletSyncToken) (fromBlock toBlock : Nat)
  | backfillCompletionPersistFailed (token : WalletSyncToken)
  | durableBackfillCompletionCommitOk (token : WalletSyncToken)
  | setPoiCorpusRefreshPending (pending : Bool)
  | observePoiCorpusRevision (changed : Bool)
  | markPendingResetRewindCommitted (lastScanned : Nat)
  | setPendingResetReplayAdmitted (replay : Option (WalletSyncToken × Nat))
  | clearPendingReset
  | acceptReset (pending : PendingWalletReset)
  | transitionTerminalShutdown
deriving DecidableEq, Repr

/-- The generation of the token that comes with a change. -/
def WalletActorMutation.generation : WalletActorMutation → Option Nat
  | .acceptTarget token _ | .acceptSyncTarget token _ | .updateTarget token _
  | .acceptIndexedCatchUp token | .publishIndexedCatchUp token _ | .acceptPendingOverlay token _
  | .retireJob token | .completeBackfillJob token | .failJobBackfillUnavailable token
  | .failJobTargetNotReached token _ | .failJobApplyFailed token | .backfillDispatchAdmitted token
  | .applyBackfillOwnerDisposition token _ | .syncProgressPersistFailed token _ _
  | .durableSyncProgressCommitOk token _ _ | .backfillCompletionPersistFailed token
  | .durableBackfillCompletionCommitOk token => some token.resetGeneration
  | .setPendingResetReplayAdmitted replay => replay.map (·.1.resetGeneration)
  | .durablePoiStatusCommitOk resetGeneration _ | .poiStatusPersistFailed resetGeneration _ =>
    some resetGeneration
  | .durableResetReplayCommitOk _ | .resetReplayPersistFailed _ | .setPoiCorpusRefreshPending _
  | .observePoiCorpusRevision _ | .markPendingResetRewindCommitted _ | .clearPendingReset
  | .acceptReset _ | .transitionTerminalShutdown => none

/-- What a mutation does. -/
def WalletActorState.applyMutation (state : WalletActorState) :
    WalletActorMutation → WalletActorState
  | .acceptTarget token targetBlock => (state.acceptTarget token targetBlock).2
  | .acceptSyncTarget token targetBlock => (state.acceptSyncTarget token targetBlock).2
  | .updateTarget token targetBlock => (state.updateTarget token targetBlock).2
  | .acceptIndexedCatchUp token => (state.acceptIndexedCatchUp token).2
  | .publishIndexedCatchUp token status => (state.publishIndexedCatchUp token status).2
  | .acceptPendingOverlay token lastScanned => (state.acceptPendingOverlay token lastScanned).2
  | .retireJob token => (state.retireJob token).2
  | .completeBackfillJob token => (state.completeBackfillJob token).2
  | .failJobBackfillUnavailable token => (state.failJobBackfillUnavailable token).2
  | .failJobTargetNotReached token targetBlock =>
    (state.failJobTargetNotReached token targetBlock).2
  | .failJobApplyFailed token => (state.failJobApplyFailed token).2
  | .backfillDispatchAdmitted token => (state.backfillDispatchAdmitted token).2
  | .applyBackfillOwnerDisposition token disposition =>
    (state.applyBackfillOwnerDisposition token disposition).2
  | .durablePoiStatusCommitOk resetGeneration selection =>
    state.durablePoiStatusCommitOk resetGeneration selection
  | .poiStatusPersistFailed resetGeneration selection =>
    state.poiStatusPersistFailed resetGeneration selection
  | .durableResetReplayCommitOk intentId => state.durableResetReplayCommitOk intentId
  | .resetReplayPersistFailed intentId => state.resetReplayPersistFailed intentId
  | .syncProgressPersistFailed token fromBlock toBlock =>
    (state.syncProgressPersistFailed token fromBlock toBlock).2
  | .durableSyncProgressCommitOk token fromBlock toBlock =>
    (state.durableSyncProgressCommitOk token fromBlock toBlock).2
  | .backfillCompletionPersistFailed token => (state.backfillCompletionPersistFailed token).2
  | .durableBackfillCompletionCommitOk token => (state.durableBackfillCompletionCommitOk token).2
  | .setPoiCorpusRefreshPending pending => state.setPoiCorpusRefreshPending pending
  | .observePoiCorpusRevision changed => state.observePoiCorpusRevision changed
  | .markPendingResetRewindCommitted lastScanned =>
    state.markPendingResetRewindCommitted lastScanned
  | .setPendingResetReplayAdmitted replay => state.setPendingResetReplayAdmitted replay
  | .clearPendingReset => state.clearPendingReset
  | .acceptReset pending => (state.acceptReset pending).2
  | .transitionTerminalShutdown => state.transitionTerminalShutdown

end Railgun
