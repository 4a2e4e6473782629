import Railgun.Theory.ForestWorker

/-!
# Anchors over Whole Histories

What holds of the anchor files at any time, whatever the worker has done: pages
and candidates, restarts, lost files and failed writes, checks and resets.

A reset goes back to the newest anchor without comparing it with the block that
has left the chain. Writing a page can write the anchor of its last block, so
the newest anchor may be the orphaned block itself. And a start that falls back
to an anchor goes on writing to the file of that anchor.

## Main definitions

* `ForestStep.Sound`: What a step gets is as it should be.

## Theorems

* `run_consistent`: No snapshot has a leaf from above its block.
* `reorg_reset_drops_block`: When a reset drops the orphaned block.
* `anchors_immutable`: When anchor files keep the forest of their block.
-/

namespace Railgun

/-- What a step gets is as it should be. The logs of a page are from blocks up
    to its end, and so are the leaves that a page applied in part has left
    behind; a candidate has no leaf from above its target. -/
def ForestStep.Sound (config : ForestConfig) (service : ForestService) : ForestStep → Prop
  | .start _ _ _ winner => ∀ candidate ∈ winner, candidate.forest.UpTo candidate.target
  | .install _ candidate => candidate.forest.UpTo candidate.target
  | .page _ safeHead logs _ =>
    service.forest.UpTo (pageEnd config service safeHead) ∧
      ∀ log ∈ logs, log.blockNumber ≤ pageEnd config service safeHead
  | .check _ _ | .loseFile _ | .loseMeta => True

/-- The file the forest is written to in a step. A start takes the file it has
    loaded the forest from. -/
def ForestStep.path (config : ForestConfig) (service : ForestService) : ForestStep → SnapshotPath
  | .start io _ _ _ =>
    (loadNewestAnchor config io service.disk
      (loadMainSnapshot config io service.disk)).1.snapshotPath
  | .check _ _ | .install _ _ | .page _ _ _ _ | .loseFile _ | .loseMeta => service.snapshotPath

/-- A history of the worker from an empty disk, by the states it has been in
    before and the one it is in. -/
inductive ForestRun (config : ForestConfig) (allowed : ForestService → ForestStep → Prop) :
    List ForestService → ForestService → Prop where
  | initial : ForestRun config allowed [] (.initial config)
  | next {past : List ForestService} {service : ForestService} (step : ForestStep) :
      ForestRun config allowed past service → allowed service step →
      ForestRun config allowed (service :: past) (service.step config step)

section Histories

variable {config : ForestConfig}

theorem step_writes {service : ForestService} (hdisk : service.disk.Consistent) {step : ForestStep}
    (hsound : step.Sound config service) :
    Writes (step.path config service) service (service.step config step) := by
  cases step with
  | start io safeHead reads winner => exact loadOrInitializeForest_writes hsound
  | check io reads => exact checkForestReorg_writes hdisk reads
  | install io candidate => exact installLiveForestCandidate_writes hsound
  | page io safeHead logs toBlockHash => exact applyPage_writes hsound.1 hsound.2
  | loseFile path =>
    refine ⟨rfl, fun _ _ hread => .inl (read_remove hread), fun stored hstored => .inl ?_⟩
    cases path with
    | forestFile => exact hstored
    | anchor block => exact hstored
  | loseMeta =>
    refine ⟨rfl, fun _ _ hread => .inl hread, fun stored hstored => ?_⟩
    cases hstored

theorem run_consistent {allowed : ForestService → ForestStep → Prop}
    (hallowed : ∀ service step, allowed service step → step.Sound config service)
    {past : List ForestService} {service : ForestService}
    (hrun : ForestRun config allowed past service) : service.disk.Consistent := by
  induction hrun with
  | initial =>
    intro file snapshot hread
    cases file with
    | forestFile => cases hread
    | anchor block => cases hread
  | next step hrun hstep ih =>
    intro file snapshot hread
    rcases (step_writes ih (hallowed _ _ hstep)).files file snapshot hread with h | ⟨h, -⟩
    · exact ih file snapshot h
    · exact h

end Histories

/-- A check that reports a mismatch has gone back to the snapshot of the reset,
    from a block that is not below the deployment. -/
theorem checkForestReorg_mismatch {config : ForestConfig} {io : IoOutcomes} {reads : HashReads}
    {service reset : ForestService} {hash : Bytes32}
    (hcheck : (checkForestReorg config io reads).exec service = (.ok (.mismatch hash), reset)) :
    config.deploymentBlock ≤ service.lastProcessed ∧
      reset.lastProcessed = (resetSnapshot config io service.disk).lastProcessedBlock ∧
      reset.forest = (resetSnapshot config io service.disk).forest := by
  rcases checkForestReorg_cases config io reads service with
    ⟨result, hsame, hne⟩ | ⟨hdeployed, _, hreset⟩
  · rw [hsame] at hcheck
    exact absurd (Prod.mk.inj hcheck).1 (hne hash)
  · rw [hreset] at hcheck
    obtain ⟨hresult, rfl⟩ := Prod.mk.inj hcheck
    obtain ⟨lastProcessed, hwritten⟩ := resetForestState_written config io service
    refine ⟨hdeployed, ?_, hwritten.forest_eq⟩
    cases hexec : (resetForestState config io).exec service with
    | mk result reset =>
      cases result with
      | ok resetBlock => exact resetForestState_ok hexec
      | error error =>
        rw [hexec] at hresult
        cases hresult

/-- A reset that follows a mismatch goes below the orphaned block, and drops the
    leaves that were inserted from it, exactly when the newest anchor is from
    below that block. -/
theorem reorg_reset_drops_block {config : ForestConfig} {past : List ForestService}
    {service : ForestService}
    (hrun : ForestRun config (fun service step => step.Sound config service) past service)
    {io : IoOutcomes} {reads : HashReads} {hash : Bytes32} {reset : ForestService}
    (hcheck : (checkForestReorg config io reads).exec service = (.ok (.mismatch hash), reset)) :
    (reset.lastProcessed < service.lastProcessed ∧
        ¬ reset.forest.HasLeafFrom service.lastProcessed) ↔
      0 < service.lastProcessed ∧
        ∀ anchor ∈ newestAnchor config io service.disk,
          anchor.2.lastProcessedBlock < service.lastProcessed := by
  obtain ⟨hdeployed, hblock, hforest⟩ := checkForestReorg_mismatch hcheck
  have hdisk := run_consistent (fun _ _ h => h) hrun
  rw [hblock, hforest, resetSnapshot]
  cases hanchor : newestAnchor config io service.disk with
  | none =>
    -- Without an anchor the worker starts over with an empty forest.
    constructor
    · intro h
      refine ⟨by omega, fun _ hnone => absurd hnone ?_⟩
      simp only [Option.mem_def, reduceCtorEq, not_false_eq_true]
    · rintro ⟨hpos, -⟩
      refine ⟨by dsimp only; omega, fun hleaf => ?_⟩
      have := new_upTo 0 _ hleaf
      omega
  | some anchor =>
    have hconsistent := newestAnchor_consistent hdisk hanchor
    constructor
    · intro h
      refine ⟨by omega, fun other hother => ?_⟩
      rw [← Option.some.inj hother]
      exact h.1
    · rintro ⟨-, hbelow⟩
      have hlt := hbelow anchor rfl
      refine ⟨hlt, fun hleaf => ?_⟩
      have := hconsistent _ hleaf
      omega

/-- Pages of ten blocks, and an anchor every ten blocks. -/
def tenBlockConfig : ForestConfig where
  poseidon := fun left _ => left
  deploymentBlock := 1
  blockRange := 10
  anchorInterval := 10
  anchorRetention := 5

/-- The worker after a first page with one leaf, from the last block of the
    page. -/
def afterFirstPage : ForestService :=
  (ForestService.initial tenBlockConfig).step tenBlockConfig
    (.page {} 10 [⟨10, some [⟨0, 0, 7⟩]⟩] 1)

/-- The worker after a second, shorter page. -/
def afterSecondPage : ForestService :=
  afterFirstPage.step tenBlockConfig (.page {} 15 [⟨15, some [⟨0, 1, 8⟩]⟩] 1)

/-- Two reads of a hash that is not the stored one. -/
def otherHash : HashReads := ⟨.ok (some 2), .ok (some 2)⟩

theorem firstPage_sound :
    (ForestStep.page {} 10 [⟨10, some [⟨0, 0, 7⟩]⟩] 1).Sound tenBlockConfig
      (.initial tenBlockConfig) := by
  refine ⟨new_upTo _, fun log hlog => ?_⟩
  rw [List.mem_singleton.mp hlog]
  decide

theorem afterFirstPage_upTo {block : Nat} (h : 10 ≤ block) :
    afterFirstPage.forest.UpTo block := by
  rintro leafBlock ⟨treeNumber, position, horigin⟩
  change (if 0 = treeNumber ∧ 0 = position then some 10 else none) = some leafBlock at horigin
  split at horigin
  · rw [← Option.some.inj horigin]
    exact h
  · cases horigin

theorem secondPage_sound :
    (ForestStep.page {} 15 [⟨15, some [⟨0, 1, 8⟩]⟩] 1).Sound tenBlockConfig afterFirstPage := by
  refine ⟨afterFirstPage_upTo (by decide), fun log hlog => ?_⟩
  rw [List.mem_singleton.mp hlog]
  decide

theorem run_afterFirstPage :
    ForestRun tenBlockConfig (fun service step => step.Sound tenBlockConfig service)
      [.initial tenBlockConfig] afterFirstPage :=
  .next _ .initial firstPage_sound

theorem run_afterSecondPage :
    ForestRun tenBlockConfig (fun service step => step.Sound tenBlockConfig service)
      [afterFirstPage, .initial tenBlockConfig] afterSecondPage :=
  .next _ run_afterFirstPage secondPage_sound

-- Block 15 is orphaned, and the newest anchor is at block 10.
theorem reorg_reset_drops_block_afterSecondPage :
    ((checkForestReorg tenBlockConfig {} otherHash).exec afterSecondPage).1 = .ok (.mismatch 2) ∧
      (((checkForestReorg tenBlockConfig {} otherHash).exec afterSecondPage).2.lastProcessed < 15 ∧
        ¬ ((checkForestReorg tenBlockConfig {} otherHash).exec
          afterSecondPage).2.forest.HasLeafFrom 15) := by
  have hcheck : (checkForestReorg tenBlockConfig {} otherHash).exec afterSecondPage
      = (.ok (.mismatch 2),
        ((checkForestReorg tenBlockConfig {} otherHash).exec afterSecondPage).2) := rfl
  refine ⟨rfl, (reorg_reset_drops_block run_afterSecondPage hcheck).mpr ⟨by decide, ?_⟩⟩
  intro anchor hanchor
  rw [← Option.some.inj hanchor]
  decide

-- Block 10 is orphaned, and the newest anchor is block 10 itself.
theorem reorg_reset_keeps_block :
    ¬ ∀ (past : List ForestService) (service reset : ForestService) (hash : Bytes32),
      ForestRun tenBlockConfig (fun service step => step.Sound tenBlockConfig service) past
        service →
      (checkForestReorg tenBlockConfig {} otherHash).exec service
        = (.ok (.mismatch hash), reset) →
      reset.lastProcessed < service.lastProcessed ∧
        ¬ reset.forest.HasLeafFrom service.lastProcessed := by
  intro h
  have hreset := h _ afterFirstPage _ 2 run_afterFirstPage rfl
  exact hreset.2 ⟨0, 0, rfl⟩

/-- The step does not load an anchor in place of the snapshot that the metadata
    names. -/
def ForestStep.LoadsNoAnchor (config : ForestConfig) (service : ForestService) :
    ForestStep → Prop
  | .start io _ _ _ =>
    ∀ anchor ∈ newestAnchor config io service.disk,
      anchor.1 ≤ (loadMainSnapshot config io service.disk).lastProcessed
  | .check _ _ | .install _ _ | .page _ _ _ _ | .loseFile _ | .loseMeta => True

/-- The forest is written to the forest file, now and after a start from the
    metadata. -/
structure WritesForestFile (service : ForestService) : Prop where
  path_eq : service.snapshotPath = .forestFile
  metas : ∀ stored, service.disk.forestMeta = some stored → stored.path = .forestFile

section AnchorFiles

variable {config : ForestConfig}

theorem loadMainSnapshot_path {io : IoOutcomes} {disk : ForestDisk}
    (hmetas : ∀ stored, disk.forestMeta = some stored → stored.path = .forestFile) :
    (loadMainSnapshot config io disk).snapshotPath = .forestFile := by
  rw [loadMainSnapshot]
  cases hstored : if io.readMeta then disk.forestMeta else none with
  | none => rfl
  | some stored =>
    have hpath : stored.path = .forestFile := by
      split at hstored
      · exact hmetas stored hstored
      · cases hstored
    dsimp only
    split
    · exact hpath
    · rfl
    · rfl

theorem loadNewestAnchor_path {io : IoOutcomes} {disk : ForestDisk} {loaded : LoadedForest}
    (hanchor : ∀ anchor ∈ newestAnchor config io disk, anchor.1 ≤ loaded.lastProcessed) :
    (loadNewestAnchor config io disk loaded).1.snapshotPath = loaded.snapshotPath := by
  rw [loadNewestAnchor]
  cases hlatest : disk.findLatestAnchor io with
  | error error => rfl
  | ok latest =>
    cases latest with
    | none => rfl
    | some anchorBlock =>
      dsimp only
      split_ifs with hbehind
      · cases hload : disk.load config io (.anchor anchorBlock) with
        | error error => rfl
        | ok result =>
          cases result with
          | none => rfl
          | some snapshot =>
            have hfound : newestAnchor config io disk = some (anchorBlock, snapshot) := by
              rw [newestAnchor, hlatest]
              dsimp only
              rw [hload]
            exact absurd (hanchor _ hfound) (Nat.not_le.mpr hbehind)
      · rfl

variable {service : ForestService} {step : ForestStep}

theorem step_path_eq (h : WritesForestFile service)
    (hstep : step.LoadsNoAnchor config service) : step.path config service = .forestFile := by
  cases step with
  | start io safeHead reads winner =>
    exact (loadNewestAnchor_path hstep).trans (loadMainSnapshot_path h.metas)
  | check | install | page | loseFile | loseMeta => exact h.path_eq

theorem step_writesForestFile (h : WritesForestFile service)
    (hdisk : service.disk.Consistent) (hsound : step.Sound config service)
    (hstep : step.LoadsNoAnchor config service) :
    WritesForestFile (service.step config step) := by
  have hwrites := step_writes hdisk hsound
  rw [step_path_eq h hstep] at hwrites
  refine ⟨hwrites.path_eq, fun stored hstored => ?_⟩
  exact (hwrites.metas stored hstored).elim (h.metas stored) id

/-- A step writes to an anchor only the forest of the worker, when the worker
    has just reached the block of the anchor. -/
theorem step_anchor (h : WritesForestFile service)
    (hdisk : service.disk.Consistent) (hsound : step.Sound config service)
    (hstep : step.LoadsNoAnchor config service) {block : Nat} {snapshot : MerkleForestSnapshot}
    (hread : (service.step config step).disk.read (.anchor block) = some snapshot) :
    service.disk.read (.anchor block) = some snapshot ∨
      (service.step config step).lastProcessed = block ∧
        snapshot = ⟨block, (service.step config step).forest⟩ := by
  have hwrites := step_writes hdisk hsound
  rw [step_path_eq h hstep] at hwrites
  rcases hwrites.files _ _ hread with hbefore | ⟨-, hfile | ⟨hfile, hsnapshot⟩⟩
  · exact .inl hbefore
  · cases hfile
  · have hblock := SnapshotPath.anchor.inj hfile
    rw [← hblock] at hsnapshot
    exact .inr ⟨hblock.symm, hsnapshot⟩

theorem run_writesForestFile {past : List ForestService}
    (hrun : ForestRun config
      (fun service step => step.Sound config service ∧ step.LoadsNoAnchor config service) past
      service) : WritesForestFile service := by
  induction hrun with
  | initial => exact ⟨rfl, fun _ => nofun⟩
  | next step hrun hstep ih =>
    have hdisk := run_consistent (fun _ _ h => h.1) hrun
    exact step_writesForestFile ih hdisk hstep.1 hstep.2

theorem run_anchor {past : List ForestService}
    (hrun : ForestRun config
      (fun service step => step.Sound config service ∧ step.LoadsNoAnchor config service) past
      service) {block : Nat} {snapshot : MerkleForestSnapshot}
    (hread : service.disk.read (.anchor block) = some snapshot) :
    snapshot.lastProcessedBlock = block ∧
      ∃ earlier ∈ service :: past,
        earlier.lastProcessed = block ∧ earlier.forest = snapshot.forest := by
  induction hrun with
  | initial => cases hread
  | next step hrun hstep ih =>
    have hdisk := run_consistent (fun _ _ h => h.1) hrun
    rcases step_anchor (run_writesForestFile hrun) hdisk hstep.1 hstep.2 hread with
      hbefore | ⟨hblock, rfl⟩
    · obtain ⟨hlast, earlier, hmem, hearlier⟩ := ih hbefore
      exact ⟨hlast, earlier, List.mem_cons_of_mem _ hmem, hearlier⟩
    · exact ⟨rfl, _, List.mem_cons_self, hblock, rfl⟩

end AnchorFiles

/-- As long as no start loads an anchor in place of the snapshot that the
    metadata names, an anchor file holds the forest that the worker had when it
    reached the block of the anchor, and a step that changes the file writes the
    forest of that block again. -/
theorem anchors_immutable {config : ForestConfig} {past : List ForestService}
    {service : ForestService}
    (hrun : ForestRun config
      (fun service step => step.Sound config service ∧ step.LoadsNoAnchor config service) past
      service) :
    (∀ block snapshot, service.disk.read (.anchor block) = some snapshot →
      snapshot.lastProcessedBlock = block ∧ snapshot.forest.UpTo block ∧
        ∃ earlier ∈ service :: past,
          earlier.lastProcessed = block ∧ earlier.forest = snapshot.forest) ∧
    ∀ step : ForestStep, step.Sound config service → step.LoadsNoAnchor config service →
      ∀ block before after, service.disk.read (.anchor block) = some before →
        (service.step config step).disk.read (.anchor block) = some after →
        after = before ∨
          (service.step config step).lastProcessed = block ∧
            after = ⟨block, (service.step config step).forest⟩ := by
  have hdisk := run_consistent (fun _ _ h => h.1) hrun
  constructor
  · intro block snapshot hread
    obtain ⟨hlast, hearlier⟩ := run_anchor hrun hread
    have hconsistent := hdisk _ _ hread
    rw [MerkleForestSnapshot.Consistent, hlast] at hconsistent
    exact ⟨hlast, hconsistent, hearlier⟩
  · intro step hsound hstep block before after hbefore hafter
    refine (step_anchor (run_writesForestFile hrun) hdisk hsound hstep hafter).imp_left ?_
    intro hsame
    exact Option.some.inj (hsame.symm.trans hbefore)

-- The anchor of block 10 after the second page, which is written elsewhere.
theorem anchors_immutable_afterSecondPage :
    ∃ snapshot, afterSecondPage.disk.read (.anchor 10) = some snapshot ∧
      snapshot.lastProcessedBlock = 10 ∧ snapshot.forest.UpTo 10 ∧
      ∃ earlier ∈ [afterSecondPage, afterFirstPage, .initial tenBlockConfig],
        earlier.lastProcessed = 10 ∧ earlier.forest = snapshot.forest := by
  have hrun : ForestRun tenBlockConfig
      (fun service step =>
        step.Sound tenBlockConfig service ∧ step.LoadsNoAnchor tenBlockConfig service)
      [afterFirstPage, .initial tenBlockConfig] afterSecondPage :=
    .next _ (.next _ .initial ⟨firstPage_sound, trivial⟩) ⟨secondPage_sound, trivial⟩
  exact ⟨_, rfl, (anchors_immutable hrun).1 10 _ rfl⟩

/-- The worker is started again after the metadata is lost, and applies a page. -/
def afterFallback : ForestService :=
  ((afterFirstPage.step tenBlockConfig .loseMeta).step tenBlockConfig
    (.start {} 15 otherHash none)).step tenBlockConfig (.page {} 15 [] 1)

-- The start loads the anchor of block 10, and the page is written over it.
theorem anchor_overwritten :
    ¬ ∀ (past : List ForestService) (service : ForestService),
      ForestRun tenBlockConfig (fun service step => step.Sound tenBlockConfig service) past
        service →
      ∀ block snapshot, service.disk.read (.anchor block) = some snapshot →
        snapshot.lastProcessedBlock = block := by
  intro h
  have hrun : ForestRun tenBlockConfig (fun service step => step.Sound tenBlockConfig service) _
      afterFallback :=
    .next _ (.next _ (.next _ run_afterFirstPage trivial) (fun _ => nofun))
      ⟨afterFirstPage_upTo (by decide), fun _ => nofun⟩
  exact absurd (h _ _ hrun 10 _ rfl) (by decide)

end Railgun
