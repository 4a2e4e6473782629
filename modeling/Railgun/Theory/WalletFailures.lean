import Railgun.Theory.WalletReadiness

/-!
# Failed Writes

A write that has failed is not forgotten. The wallet shows as failed until what
could not be written has been written in the current generation, or a reset or
the shutdown of the actor makes it pointless.

What is still to be written is merged when more of it fails, and shrinks when
some of it is written, so a failed range is followed block by block: each of its
blocks is required until a commit contains it. A completion is required until
one with a target as high is written, and a selection until one is written that
asks for as much. Selections survive resets.

## Main definitions

* `WalletPoiRefreshSelection.Covers`: One selection asks for as much as another.
* `WalletActorReachable`: The states an actor can get into.

## Theorems

* `persistence_failure_kept`: No failed write is forgotten.
-/

namespace Railgun

open WalletPoiPersistenceRequirements WalletActorState

/-- Writing the first selection settles what the second requires. -/
def WalletPoiRefreshSelection.Covers :
    WalletPoiRefreshSelection → WalletPoiRefreshSelection → Prop
  | .required, .required => True
  | .requiredOrRecoverable, .requiredOrRecoverable => True
  | .recoverableStale written, .recoverableStale now => now ≤ written
  | .recoverable, .recoverable => True
  | .corpusRevision written, .corpusRevision changed => changed = true → written = true
  | _, _ => False

namespace WalletPoiPersistenceRequirements

/-- What a selection asks for is still to be written. -/
def Requires (requirements : WalletPoiPersistenceRequirements) :
    WalletPoiRefreshSelection → Prop
  | .required => requirements.required = true
  | .requiredOrRecoverable => requirements.requiredOrRecoverable = true
  | .recoverableStale now => ∃ required ∈ requirements.recoverableStale, now ≤ required
  | .recoverable => requirements.recoverable = true
  | .corpusRevision changed =>
    ∃ required ∈ requirements.corpusRevision, changed = true → required = true

variable {requirements : WalletPoiPersistenceRequirements}
  {selection : WalletPoiRefreshSelection}

theorem requires_retag (tag : Option Nat) :
    { requirements with resetGeneration := tag }.Requires selection ↔
      requirements.Requires selection := by
  cases selection <;> exact Iff.rfl

theorem isEmpty_of_requires (hrequires : requirements.Requires selection) :
    requirements.isEmpty = false := by
  cases selection with
  | required => simp [isEmpty, show requirements.required = true from hrequires]
  | requiredOrRecoverable =>
    simp [isEmpty, show requirements.requiredOrRecoverable = true from hrequires]
  | recoverableStale now =>
    obtain ⟨required, hrequired, -⟩ := hrequires
    simp [isEmpty, Option.mem_def.mp hrequired]
  | recoverable => simp [isEmpty, show requirements.recoverable = true from hrequires]
  | corpusRevision changed =>
    obtain ⟨required, hrequired, -⟩ := hrequires
    simp [isEmpty, Option.mem_def.mp hrequired]

theorem withSelection_requires (requirements : WalletPoiPersistenceRequirements)
    (selection : WalletPoiRefreshSelection) :
    (requirements.withSelection selection).Requires selection := by
  cases selection with
  | required | requiredOrRecoverable | recoverable => exact rfl
  | recoverableStale now =>
    refine ⟨_, rfl, ?_⟩
    cases requirements.recoverableStale with
    | none => exact le_rfl
    | some old => exact le_max_right old now
  | corpusRevision changed =>
    refine ⟨_, rfl, fun hchanged => ?_⟩
    rw [hchanged, Bool.or_true]

theorem withSelection_keeps (hrequires : requirements.Requires selection)
    (added : WalletPoiRefreshSelection) :
    (requirements.withSelection added).Requires selection := by
  cases selection with
  | required | requiredOrRecoverable | recoverable =>
    cases added <;> first | exact rfl | exact hrequires
  | recoverableStale now =>
    obtain ⟨required, hrequired, hle⟩ := hrequires
    cases added with
    | recoverableStale later =>
      refine ⟨_, rfl, ?_⟩
      rw [Option.mem_def.mp hrequired]
      exact hle.trans (le_max_left required later)
    | required | requiredOrRecoverable | recoverable | corpusRevision =>
      exact ⟨required, hrequired, hle⟩
  | corpusRevision changed =>
    obtain ⟨required, hrequired, hle⟩ := hrequires
    cases added with
    | corpusRevision more =>
      refine ⟨_, rfl, fun hchanged => ?_⟩
      rw [Option.mem_def.mp hrequired, Option.getD_some, hle hchanged, Bool.true_or]
    | required | requiredOrRecoverable | recoverable | recoverableStale =>
      exact ⟨required, hrequired, hle⟩

theorem withoutSelection_keeps (hrequires : requirements.Requires selection)
    (written : WalletPoiRefreshSelection) :
    (requirements.withoutSelection written).Requires selection ∨ written.Covers selection := by
  cases written with
  | required | requiredOrRecoverable | recoverable =>
    cases selection <;> first | exact .inr trivial | exact .inl hrequires
  | recoverableStale now =>
    rw [withoutSelection]
    split
    · next hcovered =>
      cases selection with
      | recoverableStale earlier =>
        obtain ⟨required, hrequired, hle⟩ := hrequires
        rw [Option.mem_def.mp hrequired, Option.any_some, decide_eq_true_eq] at hcovered
        exact .inr (hle.trans hcovered)
      | required | requiredOrRecoverable | recoverable | corpusRevision =>
        exact .inl hrequires
    · exact .inl hrequires
  | corpusRevision changed =>
    rw [withoutSelection]
    split
    · next hcovered =>
      cases selection with
      | corpusRevision less =>
        obtain ⟨required, hrequired, hle⟩ := hrequires
        rw [Option.mem_def.mp hrequired, Option.any_some] at hcovered
        refine .inr fun hless => ?_
        rw [hle hless] at hcovered
        exact hcovered
      | required | requiredOrRecoverable | recoverable | recoverableStale =>
        exact .inl hrequires
    · exact .inl hrequires

section Tagged

variable {generation : Nat} (htagged : requirements.Tagged generation)

include htagged

theorem insert_requires (selection : WalletPoiRefreshSelection) :
    (requirements.insert generation selection).Requires selection := by
  rw [insert_eq htagged]
  exact withSelection_requires _ selection

theorem insert_keeps (hrequires : requirements.Requires selection)
    (added : WalletPoiRefreshSelection) :
    (requirements.insert generation added).Requires selection := by
  rw [insert_eq htagged]
  exact withSelection_keeps ((requires_retag _).mpr hrequires) added

theorem remove_keeps (hrequires : requirements.Requires selection) (resetGeneration : Nat)
    (written : WalletPoiRefreshSelection) :
    (requirements.remove resetGeneration written).Requires selection ∨
      (resetGeneration = generation ∧ written.Covers selection) := by
  by_cases hcurrent : resetGeneration = generation
  · subst hcurrent
    have htag := (tagged_iff_some (isEmpty_of_requires hrequires)).mp htagged
    rw [remove, if_neg (not_not.mpr htag)]
    rcases withoutSelection_keeps hrequires written with hkept | hcovers
    · refine .inl ?_
      rw [if_neg (Bool.eq_false_iff.mp (isEmpty_of_requires hkept))]
      exact hkept
    · exact .inr ⟨rfl, hcovers⟩
  · rw [remove_stale htagged hcurrent]
    exact .inl hrequires

end Tagged

theorem rebase_keeps (hrequires : requirements.Requires selection) (resetGeneration : Nat) :
    (requirements.rebase resetGeneration).Requires selection := by
  unfold rebase
  split
  · exact (requires_retag _).mpr hrequires
  · exact hrequires

end WalletPoiPersistenceRequirements

/-- A change by which a job of the current generation commits blocks, this one among
    them, and that is accepted. -/
def CommitsBlock (block : Nat) (state : WalletActorState) (mutation : WalletActorMutation) :
    Prop :=
  ∃ token : WalletSyncToken, ∃ fromBlock toBlock : Nat,
    mutation = .durableSyncProgressCommitOk token fromBlock toBlock ∧
      token.resetGeneration = state.resetGeneration ∧
        (state.durableSyncProgressCommitOk token fromBlock toBlock).1 = true ∧
          fromBlock ≤ block ∧ block ≤ toBlock

/-- A change by which a job of the current generation commits its completion, with a
    target that is not below this one, and that is accepted. -/
def CommitsCompletion (targetBlock : Nat) (state : WalletActorState)
    (mutation : WalletActorMutation) : Prop :=
  ∃ token : WalletSyncToken, ∃ committed : Nat,
    mutation = .durableBackfillCompletionCommitOk token ∧
      token.resetGeneration = state.resetGeneration ∧
        (state.durableBackfillCompletionCommitOk token).1 = true ∧
          state.jobTarget token = some committed ∧ targetBlock ≤ committed

/-- A change by which statuses are committed in the current generation, for a
    selection that asks for as much as this one. -/
def CommitsSelection (selection : WalletPoiRefreshSelection) (state : WalletActorState)
    (mutation : WalletActorMutation) : Prop :=
  ∃ written : WalletPoiRefreshSelection,
    mutation = .durablePoiStatusCommitOk state.resetGeneration written ∧ written.Covers selection

/-- A change that ends a generation. -/
def WalletActorMutation.EndsGeneration (mutation : WalletActorMutation) : Prop :=
  (∃ pending, mutation = .acceptReset pending) ∨ mutation = .transitionTerminalShutdown

/-- A block is among those that are still to be written. -/
def WalletLedger.RequiresBlock (ledger : WalletLedger) (block : Nat) : Prop :=
  ∃ required ∈ ledger.progress,
    required.range.fromBlock ≤ block ∧ block ≤ required.range.toBlock

/-- A completion with a target that is not below this one is still to be
    written. -/
def WalletLedger.RequiresCompletion (ledger : WalletLedger) (targetBlock : Nat) : Prop :=
  ∃ required ∈ ledger.completion, targetBlock ≤ required.targetBlock

section Requirements

variable {state : WalletActorState}

theorem progressAfterFailure_range (required : Option WalletProgressPersistenceRequirement)
    (token : WalletSyncToken) (fromBlock toBlock : Nat) :
    (progressAfterFailure required token fromBlock toBlock).range.fromBlock ≤
        fromBlock ∧
      toBlock ≤
        (progressAfterFailure required token fromBlock toBlock).range.toBlock := by
  unfold progressAfterFailure
  cases required.filter fun required =>
      decide (required.resetGeneration = token.resetGeneration) with
  | none => exact ⟨le_rfl, le_rfl⟩
  | some required => exact ⟨min_le_right _ _, le_max_right _ _⟩

variable {token : WalletSyncToken}

theorem progressAfterFailure_keeps {required : WalletProgressPersistenceRequirement}
    (hcurrent : required.resetGeneration = token.resetGeneration) (fromBlock toBlock : Nat) :
    (progressAfterFailure (some required) token fromBlock
        toBlock).range.fromBlock ≤ required.range.fromBlock ∧
      required.range.toBlock ≤ (progressAfterFailure (some required) token
        fromBlock toBlock).range.toBlock := by
  rw [progressAfterFailure, Option.filter_some, if_pos (decide_eq_true hcurrent)]
  exact ⟨min_le_left _ _, le_max_left _ _⟩

variable {mutation : WalletActorMutation} {ledger : WalletLedger}

/-- A block is required until it is committed in the current generation, or the
    generation ends. -/
theorem ledgerStep_block {block : Nat}
    (hsound : state.ledger.Sound) (hstep : LedgerStep state mutation ledger)
    (hrequires : state.ledger.RequiresBlock block) :
    ledger.RequiresBlock block ∨ CommitsBlock block state mutation ∨ mutation.EndsGeneration := by
  obtain ⟨required, hrequired, hfrom, hto⟩ := hrequires
  obtain ⟨hcurrent, hafter⟩ := hsound.progress_current required hrequired
  have hsome : state.progressPersistenceRequirement = some required := hrequired
  cases hstep with
  | progressFailed haccepts =>
    have htoken := isActiveJob_generation (acceptsProgress_iff.mp haccepts).2.2
    rw [hsome]
    obtain ⟨hfrom', hto'⟩ := progressAfterFailure_keeps (hcurrent.trans htoken.symm) _ _
    exact .inl ⟨_, rfl, hfrom'.trans hfrom, hto.trans hto'⟩
  | @progressCommitted token fromBlock toBlock haccepts =>
    obtain ⟨-, hstart, hactive⟩ := acceptsProgress_iff.mp haccepts
    have htoken := isActiveJob_generation hactive
    have haccepted : (state.durableSyncProgressCommitOk token fromBlock toBlock).1 = true := by
      rw [durableSyncProgressCommitOk, haccepts]
      rfl
    by_cases hblock : block ≤ toBlock
    · -- The committed blocks start before the required ones.
      refine .inr (.inl ⟨token, fromBlock, toBlock, rfl, htoken, haccepted, ?_, hblock⟩)
      rw [hstart]
      exact hafter.trans hfrom
    · refine .inl ⟨{ required with
        range := { required.range with
          fromBlock := max required.range.fromBlock (saturatingAdd toBlock 1) } }, ?_, ?_, hto⟩
      · rw [hsome, Option.mem_def, progressAfterCommit, Option.bind_some,
          if_pos (hcurrent.trans htoken.symm), if_neg (by omega)]
      · exact max_le hfrom (saturatingAdd_le_of_lt (Nat.not_le.mp hblock))
  | reset pending => exact .inr (.inr (.inl ⟨pending, rfl⟩))
  | shutdown => exact .inr (.inr (.inr rfl))
  | frame | complete | poiCommitted | poiFailed | completionFailed | completionCommitted
  | rewound => exact .inl ⟨required, hrequired, hfrom, hto⟩

theorem completionAfterFailure_target (required : Option WalletCompletionPersistenceRequirement)
    (token : WalletSyncToken) (targetBlock : Nat) :
    targetBlock ≤
      (completionAfterFailure required token targetBlock).targetBlock := by
  unfold completionAfterFailure
  cases required.filter fun required =>
      decide (required.resetGeneration = token.resetGeneration) with
  | none => exact le_rfl
  | some required =>
    dsimp only [Option.elim]
    split
    · exact le_rfl
    · next hnot => omega

theorem completionAfterFailure_keeps {required : WalletCompletionPersistenceRequirement}
    (hcurrent : required.resetGeneration = token.resetGeneration) (targetBlock : Nat) :
    required.targetBlock ≤ (completionAfterFailure (some required) token
      targetBlock).targetBlock := by
  rw [completionAfterFailure, Option.filter_some, if_pos (decide_eq_true hcurrent)]
  dsimp only [Option.elim]
  split
  · next hhigher =>
    dsimp only at hhigher ⊢
    omega
  · exact le_rfl

variable {targetBlock : Nat}

/-- A completion is required until one with a target as high is committed in the
    current generation, or the generation ends. -/
theorem ledgerStep_completion (hsound : state.ledger.Sound)
    (hstep : LedgerStep state mutation ledger)
    (hrequires : state.ledger.RequiresCompletion targetBlock) :
    ledger.RequiresCompletion targetBlock ∨ CommitsCompletion targetBlock state mutation ∨
      mutation.EndsGeneration := by
  obtain ⟨required, hrequired, hle⟩ := hrequires
  have hsome : state.completionPersistenceRequirement = some required := hrequired
  cases hstep with
  | completionFailed hactive htarget =>
    have hcurrent := (hsound.completion_current required hrequired).trans
      (isActiveJob_generation hactive).symm
    rw [hsome]
    exact .inl ⟨_, rfl, hle.trans (completionAfterFailure_keeps hcurrent _)⟩
  | @completionCommitted token committed hactive htarget hcovers =>
    have htoken := isActiveJob_generation hactive
    have hcovered := hcovers required hrequired
    have haccepted : (state.durableBackfillCompletionCommitOk token).1 = true := by
      have hcurrent := (hsound.completion_current required hrequired).trans htoken.symm
      rw [durableBackfillCompletionCommitOk, hactive, htarget, hsome]
      simp [hcurrent, hcovered]
    exact .inr (.inl ⟨token, committed, rfl, htoken, haccepted, htarget, hle.trans hcovered⟩)
  | reset pending => exact .inr (.inr (.inl ⟨pending, rfl⟩))
  | shutdown => exact .inr (.inr (.inr rfl))
  | frame | complete | poiCommitted | poiFailed | progressFailed | progressCommitted
  | rewound => exact .inl ⟨required, hrequired, hle⟩

/-- A selection is required until one that asks for as much is committed in the
    current generation, or the actor is shut down. -/
theorem ledgerStep_selection
    {selection : WalletPoiRefreshSelection} (hsound : state.ledger.Sound)
    (hstep : LedgerStep state mutation ledger) (hrequires : state.ledger.poi.Requires selection) :
    ledger.poi.Requires selection ∨ CommitsSelection selection state mutation ∨
      mutation = .transitionTerminalShutdown := by
  cases hstep with
  | poiCommitted resetGeneration written =>
    rcases remove_keeps hsound.tagged hrequires resetGeneration
      written with hkept | ⟨hcurrent, hcovers⟩
    · exact .inl hkept
    · exact .inr (.inl ⟨written, by rw [hcurrent]; rfl, hcovers⟩)
  | poiFailed added =>
    exact .inl (insert_keeps hsound.tagged hrequires added)
  | reset pending => exact .inl (rebase_keeps hrequires _)
  | shutdown => exact .inr (.inr rfl)
  | frame | complete | progressFailed | progressCommitted | completionFailed
  | completionCommitted | rewound => exact .inl hrequires

theorem ledgerStep_shutdown
    (hstep : LedgerStep state mutation ledger) (hopen : state.shutdown = false) :
    ledger.shutdown = false ∨ mutation = .transitionTerminalShutdown := by
  cases hstep with
  | shutdown => exact .inr rfl
  | frame | complete | poiCommitted | poiFailed | progressFailed | progressCommitted
  | completionFailed | completionCommitted | rewound | reset => exact .inl hopen

/-- The states of a run. -/
inductive WalletActorReachable : WalletActorState → Prop where
  | new (chainId actorId resetGeneration highestAcceptedResetIntent : Nat) {lastScanned : Nat}
      (hword : lastScanned < 2 ^ 64) (pendingReset : Option PendingWalletReset)
      (poiCorpusRefreshPending : Bool) :
      WalletActorReachable (.new chainId actorId resetGeneration lastScanned
        highestAcceptedResetIntent pendingReset poiCorpusRefreshPending)
  | next {state : WalletActorState} (mutation : WalletActorMutation) :
      WalletActorReachable state → mutation.Issued state →
      WalletActorReachable (state.applyMutation mutation)

theorem reachable_sound (hreachable : WalletActorReachable state) : state.ledger.Sound := by
  induction hreachable with
  | new chainId actorId resetGeneration highestAcceptedResetIntent hword pendingReset pending =>
    exact new_sound _ _ _ _ hword _ _
  | next mutation _ hissued ih =>
    exact applyMutation_sound mutation hissued ih

theorem derivedReadiness_failed (hopen : state.shutdown = false)
    (hfailure : state.hasPersistenceFailure = true) :
    state.derivedReadiness = .failed .persistenceFailed := by
  rw [derivedReadiness, hopen, hfailure]
  rfl

/-- A wallet shows as failed as long as something is required, if only commits
    and the end of what it is required in take the requirement away. -/
theorem failed_until (Required : WalletLedger → Prop)
    (commits : WalletActorState → WalletActorMutation → Prop) (ends : WalletActorMutation → Prop)
    (hends : ends .transitionTerminalShutdown)
    (hstep : ∀ {state mutation ledger}, state.ledger.Sound → LedgerStep state mutation ledger →
      Required state.ledger → Required ledger ∨ commits state mutation ∨ ends mutation)
    (hfailure : ∀ {state : WalletActorState}, Required state.ledger →
      state.hasPersistenceFailure = true)
    (hsound : state.ledger.Sound) (hopen : state.shutdown = false)
    (hrequired : Required state.ledger) {after : List WalletActorMutation}
    (hissued : AllAllowed applyMutation (fun state mutation => mutation.Issued state) state after) :
    Occurs applyMutation (fun _ mutation => ends mutation) state after ∨
      (runAll applyMutation state after).derivedReadiness = .failed .persistenceFailed ∨
      Occurs applyMutation commits state after := by
  have huntil : ((runAll applyMutation state after).ledger.Sound ∧
        (runAll applyMutation state after).shutdown = false ∧
        Required (runAll applyMutation state after).ledger) ∨
      Occurs applyMutation
        (fun state mutation => commits state mutation ∨ ends mutation) state after :=
    runAll_until
      (P := fun state => state.ledger.Sound ∧ state.shutdown = false ∧ Required state.ledger)
      (fun state mutation hissued ⟨hsound, hopen, hrequired⟩ => by
        have hledger := applyMutation_ledgerStep state mutation
        rcases hstep hsound hledger hrequired with hkept | hevent
        · rcases ledgerStep_shutdown hledger hopen with hstill | rfl
          · exact .inl ⟨applyMutation_sound mutation hissued hsound, hstill, hkept⟩
          · exact .inr (.inr hends)
        · exact .inr hevent)
      hissued ⟨hsound, hopen, hrequired⟩
  rcases huntil with ⟨-, hstill, hkept⟩ | hevent
  · exact .inr (.inl (derivedReadiness_failed hstill (hfailure hkept)))
  · rcases occurs_or hevent with hcommit | hend
    · exact .inr (.inr hcommit)
    · exact .inl hend

theorem hasPersistenceFailure_of_block {block : Nat}
    (hrequires : state.ledger.RequiresBlock block) : state.hasPersistenceFailure = true := by
  obtain ⟨required, hrequired, -⟩ := hrequires
  rw [hasPersistenceFailure,
    show state.progressPersistenceRequirement = some required from hrequired]
  simp

theorem hasPersistenceFailure_of_completion
    (hrequires : state.ledger.RequiresCompletion targetBlock) :
    state.hasPersistenceFailure = true := by
  obtain ⟨required, hrequired, -⟩ := hrequires
  rw [hasPersistenceFailure,
    show state.completionPersistenceRequirement = some required from hrequired]
  simp

theorem hasPersistenceFailure_of_selection {selection : WalletPoiRefreshSelection}
    (hrequires : state.ledger.poi.Requires selection) : state.hasPersistenceFailure = true := by
  rw [hasPersistenceFailure, show state.poiPersistenceRequirements.isEmpty = false
    from isEmpty_of_requires hrequires]
  simp

theorem syncProgressPersistFailed_requires {fromBlock toBlock : Nat}
    {failed : WalletActorState}
    (hfailed : state.syncProgressPersistFailed token fromBlock toBlock = (true, failed)) :
    failed = state.applyMutation (.syncProgressPersistFailed token fromBlock toBlock) ∧
      failed.shutdown = state.shutdown ∧
      ∀ block, fromBlock ≤ block → block ≤ toBlock → failed.ledger.RequiresBlock block := by
  refine ⟨(congrArg Prod.snd hfailed).symm, ?_⟩
  unfold syncProgressPersistFailed at hfailed
  split at hfailed
  · exact absurd (Prod.mk.inj hfailed).1 nofun
  · obtain rfl := (Prod.mk.inj hfailed).2
    obtain ⟨hfrom, hto⟩ := progressAfterFailure_range state.progressPersistenceRequirement token
      fromBlock toBlock
    exact ⟨rfl, fun block hge hle => ⟨_, rfl, hfrom.trans hge, hle.trans hto⟩⟩

theorem backfillCompletionPersistFailed_requires
    {failed : WalletActorState}
    (hfailed : state.backfillCompletionPersistFailed token = (true, failed))
    (htarget : state.jobTarget token = some targetBlock) :
    failed = state.applyMutation (.backfillCompletionPersistFailed token) ∧
      failed.shutdown = state.shutdown ∧ failed.ledger.RequiresCompletion targetBlock := by
  refine ⟨(congrArg Prod.snd hfailed).symm, ?_⟩
  rw [backfillCompletionPersistFailed, htarget] at hfailed
  split at hfailed
  · exact absurd (Prod.mk.inj hfailed).1 Bool.false_ne_true
  · obtain rfl := (Prod.mk.inj hfailed).2
    exact ⟨rfl, _, rfl, completionAfterFailure_target _ token targetBlock⟩

theorem poiStatusPersistFailed_requires (hsound : state.ledger.Sound)
    (selection : WalletPoiRefreshSelection) :
    (state.poiStatusPersistFailed state.resetGeneration selection).shutdown = state.shutdown ∧
      (state.poiStatusPersistFailed state.resetGeneration selection).ledger.poi.Requires
        selection := by
  rw [poiStatusPersistFailed, if_pos rfl]
  exact ⟨rfl, insert_requires hsound.tagged selection⟩

/-- No failed write is forgotten. Once blocks, a completion or a selection could
    not be written, the wallet shows as failed until each of the blocks, a
    completion with a target as high or a selection that asks for as much has
    been committed in the generation that is current then. Before that, only a
    reset or the shutdown ends it, and for a selection only the shutdown. -/
theorem persistence_failure_kept (hreachable : WalletActorReachable state)
    (hopen : state.shutdown = false) (after : List WalletActorMutation) :
    (∀ (token : WalletSyncToken) (fromBlock toBlock : Nat) (failed : WalletActorState),
      state.syncProgressPersistFailed token fromBlock toBlock = (true, failed) →
      AllAllowed applyMutation (fun state mutation => mutation.Issued state)
        failed after →
      Occurs applyMutation (fun _ mutation => mutation.EndsGeneration) failed
          after ∨
        (runAll applyMutation failed after).derivedReadiness = .failed .persistenceFailed ∨
        ∀ block, fromBlock ≤ block → block ≤ toBlock →
          Occurs applyMutation (CommitsBlock block) failed after) ∧
    (∀ (token : WalletSyncToken) (targetBlock : Nat) (failed : WalletActorState),
      state.backfillCompletionPersistFailed token = (true, failed) →
      state.jobTarget token = some targetBlock →
      AllAllowed applyMutation (fun state mutation => mutation.Issued state)
        failed after →
      Occurs applyMutation (fun _ mutation => mutation.EndsGeneration) failed
          after ∨
        (runAll applyMutation failed after).derivedReadiness = .failed .persistenceFailed ∨
        Occurs applyMutation (CommitsCompletion targetBlock) failed after) ∧
    (∀ (selection : WalletPoiRefreshSelection) (failed : WalletActorState),
      state.poiStatusPersistFailed state.resetGeneration selection = failed →
      AllAllowed applyMutation (fun state mutation => mutation.Issued state)
        failed after →
      Occurs applyMutation
          (fun _ mutation => mutation = .transitionTerminalShutdown) failed after ∨
        (runAll applyMutation failed after).derivedReadiness = .failed .persistenceFailed ∨
        Occurs applyMutation (CommitsSelection selection) failed after) := by
  have hsound := reachable_sound hreachable
  refine ⟨fun token fromBlock toBlock failed hfailed hissued => ?_,
    fun token targetBlock failed hfailed htarget hissued => ?_,
    fun selection failed hfailed hissued => ?_⟩
  · obtain ⟨rfl, hshutdown, hrequires⟩ := syncProgressPersistFailed_requires hfailed
    have hnext := applyMutation_sound (.syncProgressPersistFailed token fromBlock toBlock) trivial
      hsound
    rw [or_iff_not_imp_left, or_iff_not_imp_left]
    intro hgoing hready block hge hle
    have huntil := failed_until (·.RequiresBlock block) (CommitsBlock block)
      WalletActorMutation.EndsGeneration (.inr rfl) ledgerStep_block
      hasPersistenceFailure_of_block hnext (hshutdown.trans hopen) (hrequires block hge hle) hissued
    exact (huntil.resolve_left hgoing).resolve_left hready
  · obtain ⟨rfl, hshutdown, hrequires⟩ := backfillCompletionPersistFailed_requires hfailed htarget
    have hnext := applyMutation_sound (.backfillCompletionPersistFailed token) trivial hsound
    exact failed_until (·.RequiresCompletion targetBlock) (CommitsCompletion targetBlock)
      WalletActorMutation.EndsGeneration (.inr rfl) ledgerStep_completion
      hasPersistenceFailure_of_completion hnext (hshutdown.trans hopen) hrequires hissued
  · subst hfailed
    obtain ⟨hshutdown, hrequires⟩ := poiStatusPersistFailed_requires hsound selection
    have hnext := applyMutation_sound (.poiStatusPersistFailed state.resetGeneration selection)
      trivial hsound
    exact failed_until (·.poi.Requires selection) (CommitsSelection selection)
      (· = .transitionTerminalShutdown) rfl ledgerStep_selection
      hasPersistenceFailure_of_selection hnext (hshutdown.trans hopen) hrequires hissued

end Requirements

/-- A wallet with a backfill job for the blocks from eleven to twenty. -/
def fillingToTwenty : WalletActorState :=
  scannedToTen.applyMutation (.acceptTarget catchUpToken 20)

/-- The wallet once these blocks could not be written. -/
def failedToTwenty : WalletActorState :=
  (fillingToTwenty.syncProgressPersistFailed catchUpToken 11 20).2

/-- With half of the blocks committed the wallet still shows as failed. -/
theorem persistence_failure_kept_partly :
    (runAll applyMutation failedToTwenty
      [.durableSyncProgressCommitOk catchUpToken 11 15]).derivedReadiness =
        .failed .persistenceFailed := by
  have hreachable : WalletActorReachable fillingToTwenty :=
    .next (.acceptTarget catchUpToken 20) (.new 1 1 0 0 (by decide) none false) trivial
  have hkept := (persistence_failure_kept hreachable (by decide +kernel)
    [.durableSyncProgressCommitOk catchUpToken 11 15]).1 catchUpToken 11 20 failedToTwenty rfl
      ⟨show 15 < 2 ^ 64 by decide, trivial⟩
  rcases hkept with hends | hfailed | hcommitted
  · rcases hends with (⟨pending, hreset⟩ | hshutdown) | hlater
    · cases hreset
    · cases hshutdown
    · exact hlater.elim
  · exact hfailed
  · rcases hcommitted 20 (by decide) le_rfl with ⟨token, fromBlock, toBlock, hmutation, hcommit⟩ |
      hlater
    · cases hmutation
      exact absurd hcommit.2.2.2 (by decide)
    · exact hlater.elim

/-- The blocks committed in two parts, neither of which has all of them. -/
def partCommits : List WalletActorMutation :=
  [.durableSyncProgressCommitOk catchUpToken 11 15, .durableSyncProgressCommitOk catchUpToken 16 20]

/-- Commits that have the failed blocks only together clear the failure. -/
theorem persistence_failure_cleared_in_parts :
    failedToTwenty.derivedReadiness = .failed .persistenceFailed ∧
      (∀ token fromBlock toBlock,
        .durableSyncProgressCommitOk token fromBlock toBlock ∈ partCommits →
          ¬(fromBlock ≤ 11 ∧ 20 ≤ toBlock)) ∧
      (runAll applyMutation failedToTwenty partCommits).derivedReadiness = .syncing := by
  refine ⟨by decide +kernel, fun token fromBlock toBlock hmem hcovers => ?_, by decide +kernel⟩
  simp only [partCommits, List.mem_cons, WalletActorMutation.durableSyncProgressCommitOk.injEq,
    List.not_mem_nil, or_false] at hmem
  omega

end Railgun
