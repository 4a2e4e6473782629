import Railgun.Core.ForestWorker
import Railgun.Lib.KeyedList

/-!
# What the Live Forest Worker Writes

Every step of the worker is described once, by the files it writes: a snapshot
goes to the current snapshot file or to an anchor named by the block just
processed. Which snapshots there can be follows from that, for every history.

## Main definitions

* `resetSnapshot`: The snapshot a reset goes back to.

## Theorems

* `read_write`: What the files hold after a write.
* `resetForestState_written`, `resetForestState_ok`: What a reset does.
* `loadOrInitializeForest_writes`, `installLiveForestCandidate_writes`,
  `applyPage_writes`, `checkForestReorg_writes`: What each step writes.
-/

namespace Railgun

/-- A write changes one file. -/
theorem read_write (disk : ForestDisk) (path : SnapshotPath) (snapshot : MerkleForestSnapshot)
    (file : SnapshotPath) :
    (disk.write path snapshot).read file =
      if path = file then some snapshot else disk.read file := by
  cases path with
  | forestFile =>
    cases file with
    | forestFile => rw [if_pos rfl]; rfl
    | anchor block => rw [if_neg (by simp only [reduceCtorEq, not_false_eq_true])]; rfl
  | anchor written =>
    cases file with
    | forestFile => rw [if_neg (by simp only [reduceCtorEq, not_false_eq_true])]; rfl
    | anchor block =>
      rw [ForestDisk.write, ForestDisk.read, List.lookup_cons, ForestDisk.read,
        lookup_filter_key fun key => key != written]
      by_cases h : written = block
      · rw [h, beq_self_eq_true, if_pos rfl]
      · rw [beq_false_of_ne (Ne.symm h), if_neg (fun heq => h (SnapshotPath.anchor.inj heq))]
        exact if_pos (bne_iff_ne.mpr (Ne.symm h))

theorem forestMeta_write (disk : ForestDisk) (path : SnapshotPath)
    (snapshot : MerkleForestSnapshot) :
    (disk.write path snapshot).forestMeta = disk.forestMeta := by
  cases path with
  | forestFile => rfl
  | anchor block => rfl

variable {snapshot : MerkleForestSnapshot}

theorem read_filter {disk : ForestDisk} {p : Nat → Bool} {file : SnapshotPath}
    (h : ({ disk with anchors := disk.anchors.filter fun entry => p entry.1 }
      : ForestDisk).read file = some snapshot) :
    disk.read file = some snapshot := by
  cases file with
  | forestFile => exact h
  | anchor block =>
    rw [ForestDisk.read, lookup_filter_key] at h
    split at h
    · exact h
    · cases h

variable {path : SnapshotPath}

theorem read_remove {disk : ForestDisk} {file : SnapshotPath}
    (h : (disk.remove path).read file = some snapshot) : disk.read file = some snapshot := by
  cases path with
  | forestFile =>
    cases file with
    | forestFile => cases h
    | anchor block => exact h
  | anchor removed =>
    exact read_filter (p := fun key => key != removed) h

theorem new_upTo (block : Nat) : TracedForest.new.UpTo block := by
  rintro leafBlock ⟨treeNumber, position, h⟩
  cases h

variable {block : Nat} {forest : TracedForest}

theorem computeRoots_upTo {poseidon : U256 → U256 → U256}
    (h : forest.UpTo block) : (forest.computeRoots poseidon).UpTo block := h

/-- A leaf of an earlier block keeps a forest up to the block. -/
theorem insertLeaf_upTo {inserted : TracedForest} {leafBlock : Nat}
    {update : MerkleTreeUpdate} (h : forest.UpTo block) (hblock : leafBlock ≤ block)
    (hinsert : forest.insertLeaf leafBlock update = .ok inserted) : inserted.UpTo block := by
  rw [TracedForest.insertLeaf] at hinsert
  split at hinsert
  · rw [← Except.ok.inj hinsert]
    rintro b ⟨treeNumber, position, horigin⟩
    dsimp only at horigin
    split at horigin
    · rw [← Option.some.inj horigin]
      exact hblock
    · exact h b ⟨treeNumber, position, horigin⟩
  · cases hinsert

/-- The logs of a page insert leaves from blocks of the page only, whether they
    all apply or not. -/
theorem applyLogs_keeps {logs : List CommitmentLog}
    (hlogs : ∀ log ∈ logs, log.blockNumber ≤ block) :
    Keeps (TracedForest.UpTo · block) (applyCommitmentUpdatesFromLogs logs) := by
  refine keeps_foldlM _ (fun _ log hlog => ?_) _
  refine keeps_bind (keeps_ofExcept _) fun updates => ?_
  refine keeps_foldlM _ (fun _ update _ => ?_) _
  intro forest hforest
  rw [exec_bind, exec_get]
  cases hinsert : forest.insertLeaf log.blockNumber update with
  | error e =>
    simp only [hinsert, Except.mapError, exec_bind, exec_ofExcept]
    exact hforest
  | ok inserted =>
    simp only [hinsert, Except.mapError, exec_bind, exec_ofExcept]
    exact insertLeaf_upTo hforest (hlogs log hlog) hinsert

/-- Since a state of the disk, a worker has written one snapshot only, and only
    to files that were allowed; the rest of its state is given. -/
structure Written (before : ForestDisk) (allowed : SnapshotPath → Prop)
    (snapshot : MerkleForestSnapshot) (path : SnapshotPath) (lastProcessed : Nat)
    (service : ForestService) : Prop where
  path_eq : service.snapshotPath = path
  lastProcessed_eq : service.lastProcessed = lastProcessed
  forest_eq : service.forest = snapshot.forest
  files : ∀ file written, service.disk.read file = some written →
    before.read file = some written ∨ written = snapshot ∧ allowed file
  metas : ∀ stored, service.disk.forestMeta = some stored →
    before.forestMeta = some stored ∨ stored.path = path

section Written

variable {config : ForestConfig} {io : IoOutcomes} {before : ForestDisk}
  {allowed : SnapshotPath → Prop} {block : Nat} {forest : TracedForest} {path : SnapshotPath}
  {lastProcessed : Nat}

theorem Written.write {snapshot : MerkleForestSnapshot} {service : ForestService}
    (h : Written before allowed snapshot path lastProcessed service) {file : SnapshotPath}
    (hfile : allowed file) (anchorLast : Nat) :
    Written before allowed snapshot path lastProcessed
      { service with disk := service.disk.write file snapshot, anchorLast := anchorLast } where
  path_eq := h.path_eq
  lastProcessed_eq := h.lastProcessed_eq
  forest_eq := h.forest_eq
  files := by
    intro other written hread
    rw [read_write] at hread
    split_ifs at hread with hother
    · rw [← hother, ← Option.some.inj hread]
      exact .inr ⟨rfl, hfile⟩
    · exact h.files other written hread
  metas := by
    intro stored hstored
    rw [forestMeta_write] at hstored
    exact h.metas stored hstored

/-- Writing a snapshot to an allowed file keeps the others. -/
theorem writeSnapshot_keeps (hpath : allowed path) (succeeds : Bool) :
    Keeps (Written before allowed ⟨block, forest⟩ path lastProcessed)
      (writeSnapshot succeeds block) := by
  cases succeeds with
  | false => exact keeps_throw _
  | true =>
    refine keeps_modify fun service h => ?_
    have hdisk : service.disk.write service.snapshotPath ⟨block, service.forest⟩
        = service.disk.write path ⟨block, forest⟩ := by
      rw [h.path_eq, h.forest_eq]
    rw [hdisk]
    exact h.write hpath service.anchorLast

theorem updateMerkleForestMeta_keeps (lastBlock : Nat) (hash : Bytes32)
    (snapshot : MerkleForestSnapshot) :
    Keeps (Written before allowed snapshot path lastProcessed)
      (updateMerkleForestMeta io lastBlock hash) := by
  rw [updateMerkleForestMeta]
  split
  · refine keeps_modify fun service h =>
      ⟨h.path_eq, h.lastProcessed_eq, h.forest_eq, h.files, ?_⟩
    intro stored hstored
    rw [← Option.some.inj hstored]
    exact .inr h.path_eq
  · exact keeps_throw _

theorem pruneAnchorSnapshots_keeps (snapshot : MerkleForestSnapshot) :
    Keeps (Written before allowed snapshot path lastProcessed)
      (pruneAnchorSnapshots config io) := by
  intro service h
  rw [pruneAnchorSnapshots, exec_bind, exec_get]
  dsimp only
  split
  · exact h
  · split
    · exact h
    · split
      · exact h
      · exact ⟨h.path_eq, h.lastProcessed_eq, h.forest_eq,
          fun file written hread => h.files file written (read_filter hread), h.metas⟩

theorem maybeWriteAnchorSnapshot_keeps (config : ForestConfig) (io : IoOutcomes)
    (hanchor : allowed (.anchor block)) :
    Keeps (Written before allowed ⟨block, forest⟩ path lastProcessed)
      (maybeWriteAnchorSnapshot config io block) := by
  intro service h
  rw [maybeWriteAnchorSnapshot, exec_bind, exec_get]
  dsimp only
  split
  · exact h
  · split
    · exact h
    · split
      · exact h
      · refine keeps_bind (keeps_modify ?_) (fun _ =>
          keeps_tryCatch (pruneAnchorSnapshots_keeps _) fun _ => keeps_pure _) service h
        intro service h
        have hdisk : service.disk.write (.anchor block) ⟨block, service.forest⟩
            = service.disk.write (.anchor block) ⟨block, forest⟩ := by
          rw [h.forest_eq]
        rw [hdisk]
        exact h.write hanchor block

/-- So does writing it with its metadata and anchor, whatever fails. -/
theorem persistForestSnapshot_keeps (hpath : allowed path) (hanchor : allowed (.anchor block))
    (blockHash : Option Bytes32) :
    Keeps (Written before allowed ⟨block, forest⟩ path lastProcessed)
      (persistForestSnapshot config io block blockHash) :=
  keeps_bind (writeSnapshot_keeps hpath _) fun _ =>
    keeps_bind (updateMerkleForestMeta_keeps _ _ _) fun _ =>
      maybeWriteAnchorSnapshot_keeps config io hanchor

end Written

theorem written_refl (disk : ForestDisk) (allowed : SnapshotPath → Prop)
    (snapshot : MerkleForestSnapshot) (path : SnapshotPath) (lastProcessed anchorLast : Nat) :
    Written disk allowed snapshot path lastProcessed
      ⟨snapshot.forest, lastProcessed, path, anchorLast, disk⟩ where
  path_eq := rfl
  lastProcessed_eq := rfl
  forest_eq := rfl
  files := fun _ _ hread => .inl hread
  metas := fun _ hstored => .inl hstored

theorem persistForestCandidate_written (io : IoOutcomes) (disk : ForestDisk) (path : SnapshotPath)
    (candidate : ForestCandidate) (lastProcessed anchorLast : Nat) (allowed : SnapshotPath → Prop)
    (hpath : allowed path) :
    Written disk allowed ⟨candidate.target, candidate.forest⟩ path lastProcessed
      ⟨candidate.forest, lastProcessed, path, anchorLast,
        (persistForestCandidate io disk path candidate).2⟩ := by
  have hinitial := written_refl disk allowed ⟨candidate.target, candidate.forest⟩ path
    lastProcessed anchorLast
  rw [persistForestCandidate]
  cases io.writeSnapshot with
  | false => exact hinitial
  | true =>
    have hwritten := hinitial.write hpath anchorLast
    cases io.writeMeta with
    | false => exact hwritten
    | true =>
      refine ⟨rfl, rfl, rfl, hwritten.files, fun stored hstored => .inr ?_⟩
      rw [← Option.some.inj hstored]

/-- A snapshot has no leaf from after its block. -/
def MerkleForestSnapshot.Consistent (snapshot : MerkleForestSnapshot) : Prop :=
  snapshot.forest.UpTo snapshot.lastProcessedBlock

/-- Every snapshot on disk is consistent. -/
def ForestDisk.Consistent (disk : ForestDisk) : Prop :=
  ∀ file snapshot, disk.read file = some snapshot → snapshot.Consistent

/-- What a step writes to: consistent snapshots go to the given file, which is
    the snapshot file from then on, or to the anchor of the block the worker has
    reached, where it is the forest of the worker. -/
structure Writes (path : SnapshotPath) (before after : ForestService) : Prop where
  path_eq : after.snapshotPath = path
  files : ∀ file snapshot, after.disk.read file = some snapshot →
    before.disk.read file = some snapshot ∨
      snapshot.Consistent ∧ (file = path ∨
        file = .anchor after.lastProcessed ∧ snapshot = ⟨after.lastProcessed, after.forest⟩)
  metas : ∀ stored, after.disk.forestMeta = some stored →
    before.disk.forestMeta = some stored ∨ stored.path = path

variable {before after : ForestService}

theorem writes_of_disk_eq
    (hpath : after.snapshotPath = path) (hdisk : after.disk = before.disk) :
    Writes path before after where
  path_eq := hpath
  files := fun _ _ hread => .inl (hdisk ▸ hread)
  metas := fun _ hstored => .inl (hdisk ▸ hstored)

theorem Written.writes_path {service : ForestService} {lastProcessed : Nat}
    (h : Written before.disk (· = path) snapshot path lastProcessed service)
    (hsnapshot : snapshot.Consistent) (hdisk : after.disk = service.disk)
    (hpath : after.snapshotPath = path) : Writes path before after where
  path_eq := hpath
  files := by
    intro file written hread
    rw [hdisk] at hread
    rcases h.files file written hread with hbefore | ⟨rfl, hfile⟩
    · exact .inl hbefore
    · exact .inr ⟨hsnapshot, .inl hfile⟩
  metas := by
    intro stored hstored
    rw [hdisk] at hstored
    exact h.metas stored hstored

theorem Written.writes
    (h : Written before.disk (fun file => file = path ∨ file = .anchor block) ⟨block, forest⟩ path
      block after)
    (hforest : forest.UpTo block) : Writes path before after where
  path_eq := h.path_eq
  files := by
    intro file written hread
    rw [h.lastProcessed_eq, h.forest_eq]
    rcases h.files file written hread with hbefore | ⟨rfl, hfile⟩
    · exact .inl hbefore
    · exact .inr ⟨hforest, hfile.imp_right fun hanchor => ⟨hanchor, rfl⟩⟩
  metas := h.metas

section Steps

variable {config : ForestConfig} {io : IoOutcomes} {service : ForestService}

variable {disk : ForestDisk}

/-- What is loaded from a consistent disk is consistent. -/
theorem load_consistent (hdisk : disk.Consistent) {path : SnapshotPath}
    {snapshot : MerkleForestSnapshot} (h : disk.load config io path = .ok (some snapshot)) :
    snapshot.Consistent := by
  rw [ForestDisk.load] at h
  split at h
  · obtain ⟨stored, hstored, rfl⟩ := Option.map_eq_some_iff.mp (Except.ok.inj h)
    exact computeRoots_upTo (hdisk path stored hstored)
  · cases h

theorem newestAnchor_consistent (hdisk : disk.Consistent)
    {anchor : Nat × MerkleForestSnapshot} (h : newestAnchor config io disk = some anchor) :
    anchor.2.Consistent := by
  rw [newestAnchor] at h
  split at h
  · split at h
    · rw [← Option.some.inj h]
      exact load_consistent hdisk ‹_ = Except.ok (some _)›
    all_goals cases h
  all_goals cases h

/-- What a reset starts from: the newest anchor, or nothing. -/
def resetSnapshot (config : ForestConfig) (io : IoOutcomes) (disk : ForestDisk) :
    MerkleForestSnapshot :=
  match newestAnchor config io disk with
  | some anchor => anchor.2
  | none => ⟨config.deploymentBlock - 1, .new⟩

theorem resetSnapshot_consistent (hdisk : disk.Consistent) :
    (resetSnapshot config io disk).Consistent := by
  rw [resetSnapshot]
  cases hanchor : newestAnchor config io disk with
  | some anchor => exact newestAnchor_consistent hdisk hanchor
  | none => exact new_upTo _

theorem restoreForest_written (config : ForestConfig) (io : IoOutcomes)
    (service : ForestService) :
    Written service.disk (· = service.snapshotPath) (resetSnapshot config io service.disk)
      service.snapshotPath service.lastProcessed ((restoreForest config io).exec service).2 := by
  rw [restoreForest, exec_bind, exec_get, resetSnapshot]
  dsimp only
  cases newestAnchor config io service.disk with
  | none => exact written_refl service.disk _ ⟨config.deploymentBlock - 1, .new⟩ _ _ 0
  | some anchor =>
    have hrestored := written_refl service.disk (· = service.snapshotPath) anchor.2
      service.snapshotPath service.lastProcessed service.anchorLast
    have hwrite : Keeps (Written service.disk (· = service.snapshotPath) anchor.2
        service.snapshotPath service.lastProcessed)
        (writeSnapshot io.writeRestored anchor.2.lastProcessedBlock) := by
      apply writeSnapshot_keeps
      rfl
    refine keeps_bind hwrite (fun _ => keeps_bind (keeps_modify ?_) fun _ => keeps_pure _) _
      hrestored
    intro restored h
    exact ⟨h.path_eq, h.lastProcessed_eq, h.forest_eq, h.files, h.metas⟩

theorem restoreForest_ok {restored : ForestService} {resetBlock : Nat}
    (h : (restoreForest config io).exec service = (.ok resetBlock, restored)) :
    resetBlock = (resetSnapshot config io service.disk).lastProcessedBlock := by
  rw [restoreForest, exec_bind, exec_get] at h
  rw [resetSnapshot]
  dsimp only at h
  cases hanchor : newestAnchor config io service.disk with
  | none =>
    rw [hanchor] at h
    exact (Except.ok.inj (Prod.mk.inj h).1).symm
  | some anchor =>
    rw [hanchor] at h
    obtain ⟨_, _, _, h⟩ := exec_bind_eq_ok.mp h
    obtain ⟨_, _, _, h⟩ := exec_bind_eq_ok.mp h
    exact (exec_pure_eq_ok.mp h).1.symm

/-- Whether it succeeds or not, the reset writes the snapshot it goes back to,
    to the snapshot file, and takes its forest. -/
theorem resetForestState_written (config : ForestConfig) (io : IoOutcomes)
    (service : ForestService) :
    ∃ lastProcessed, Written service.disk (· = service.snapshotPath)
      (resetSnapshot config io service.disk) service.snapshotPath lastProcessed
      ((resetForestState config io).exec service).2 := by
  have hrestored := restoreForest_written config io service
  rw [resetForestState, exec_bind]
  cases hrestore : (restoreForest config io).exec service with
  | mk result restored =>
    rw [hrestore] at hrestored
    cases result with
    | error error => exact ⟨_, hrestored⟩
    | ok resetBlock =>
      rw [restoreForest_ok hrestore]
      have hwrite : ∀ lastProcessed, Keeps (Written service.disk (· = service.snapshotPath)
          (resetSnapshot config io service.disk) service.snapshotPath lastProcessed)
          (writeSnapshot io.writeSnapshot
            (resetSnapshot config io service.disk).lastProcessedBlock) := by
        intro lastProcessed
        apply writeSnapshot_keeps
        rfl
      refine keeps_bind (keeps_exists hwrite) (fun _ =>
        keeps_bind (keeps_exists fun _ => updateMerkleForestMeta_keeps _ _ _) fun _ =>
          keeps_bind (keeps_modify ?_) fun _ => keeps_pure _) restored ⟨_, hrestored⟩
      rintro reset ⟨lastProcessed, h⟩
      exact ⟨_, h.path_eq, rfl, h.forest_eq, h.files, h.metas⟩

theorem resetForestState_ok {reset : ForestService} {resetBlock : Nat}
    (h : (resetForestState config io).exec service = (.ok resetBlock, reset)) :
    reset.lastProcessed = (resetSnapshot config io service.disk).lastProcessedBlock := by
  obtain ⟨restoredBlock, restored, hrestore, h⟩ := exec_bind_eq_ok.mp h
  obtain ⟨_, _, _, h⟩ := exec_bind_eq_ok.mp h
  obtain ⟨_, last, hmodify, h⟩ := exec_bind_eq_ok.mp h
  rw [← (exec_pure_eq_ok.mp h).2, ← (Prod.mk.inj hmodify).2]
  exact restoreForest_ok hrestore

/-- A reset writes a consistent snapshot. -/
theorem resetForestState_writes (hdisk : service.disk.Consistent) :
    Writes service.snapshotPath service ((resetForestState config io).exec service).2 := by
  obtain ⟨lastProcessed, hwritten⟩ := resetForestState_written config io service
  exact hwritten.writes_path (resetSnapshot_consistent hdisk) rfl hwritten.path_eq

/-- The check leaves the worker alone and reports no mismatch, or the block has
    left the chain and it resets the worker. -/
theorem checkForestReorg_cases (config : ForestConfig) (io : IoOutcomes) (reads : HashReads)
    (service : ForestService) :
    (∃ result, (checkForestReorg config io reads).exec service = (result, service) ∧
        ∀ hash, result ≠ .ok (.mismatch hash)) ∨
      config.deploymentBlock ≤ service.lastProcessed ∧
        ∃ hash, (checkForestReorg config io reads).exec service
          = (((resetForestState config io).exec service).1.map fun _ => .mismatch hash,
            ((resetForestState config io).exec service).2) := by
  rw [checkForestReorg, exec_bind, exec_get]
  dsimp only
  split_ifs with hdeployed
  · exact .inl ⟨_, rfl, fun _ => nofun⟩
  · exact .inl ⟨_, rfl, fun _ => nofun⟩
  cases service.disk.forestMeta with
  | none => exact .inl ⟨_, rfl, fun _ => nofun⟩
  | some stored =>
    simp only [exec_bind, exec_ofExcept]
    cases checkForestMeta config reads stored.lastBlock stored.hash service.lastProcessed with
    | error error => exact .inl ⟨_, rfl, fun _ => nofun⟩
    | ok check =>
      cases check with
      | mismatch hash =>
        refine .inr ⟨Nat.le_of_not_lt hdeployed, hash, ?_⟩
        simp only [exec_bind]
        rcases (resetForestState config io).exec service with ⟨_ | _, reset⟩ <;> rfl
      | unchecked | staleMeta | unconfirmed | matched =>
        exact .inl ⟨_, rfl, fun _ => nofun⟩

theorem loadOrInitializeForest_writes {safeHead : Nat} {reads : HashReads}
    {winner : Option ForestCandidate}
    (hwinner : ∀ candidate ∈ winner, candidate.forest.UpTo candidate.target) :
    Writes
      (loadNewestAnchor config io service.disk
        (loadMainSnapshot config io service.disk)).1.snapshotPath
      service (loadOrInitializeForest config io service.disk safeHead reads winner) := by
  rw [loadOrInitializeForest]
  cases loadNewestAnchor config io service.disk (loadMainSnapshot config io service.disk) with
  | mk loaded lastAnchor =>
    dsimp only
    split
    · exact writes_of_disk_eq rfl rfl
    · split
      · exact writes_of_disk_eq rfl rfl
      · cases winner with
        | none => exact writes_of_disk_eq rfl rfl
        | some candidate =>
          have hwritten := persistForestCandidate_written io service.disk loaded.snapshotPath
            candidate loaded.lastProcessed lastAnchor (· = loaded.snapshotPath) rfl
          have hcandidate := hwinner candidate rfl
          dsimp only
          rcases hpersist : persistForestCandidate io service.disk loaded.snapshotPath candidate
            with ⟨_ | _, disk⟩ <;>
          · rw [hpersist] at hwritten
            exact hwritten.writes_path hcandidate rfl rfl

theorem installLiveForestCandidate_writes {candidate : ForestCandidate}
    (hcandidate : candidate.forest.UpTo candidate.target) :
    Writes service.snapshotPath service
      (installLiveForestCandidate config io candidate service) := by
  rw [installLiveForestCandidate]
  split
  · exact writes_of_disk_eq rfl rfl
  · cases hpersist : persistForestCandidate io service.disk service.snapshotPath candidate with
    | mk result disk =>
      cases result with
      | error error =>
        have hwritten := persistForestCandidate_written io service.disk service.snapshotPath
          candidate service.lastProcessed service.anchorLast (· = service.snapshotPath) rfl
        rw [hpersist] at hwritten
        exact hwritten.writes_path hcandidate rfl rfl
      | ok persisted =>
        have hwritten := persistForestCandidate_written io service.disk service.snapshotPath
          candidate service.lastProcessed service.anchorLast
          (fun file => file = service.snapshotPath ∨ file = .anchor candidate.target) (.inl rfl)
        rw [hpersist] at hwritten
        have hanchor := maybeWriteAnchorSnapshot_keeps config io (.inr rfl) _ hwritten
        exact Written.writes ⟨hanchor.path_eq, rfl, hanchor.forest_eq, hanchor.files,
          hanchor.metas⟩ hcandidate

/-- A page of logs writes consistent snapshots. -/
theorem applyPage_writes {safeHead : Nat} {logs : List CommitmentLog} {toBlockHash : Bytes32}
    (hforest : service.forest.UpTo (pageEnd config service safeHead))
    (hlogs : ∀ log ∈ logs, log.blockNumber ≤ pageEnd config service safeHead) :
    Writes service.snapshotPath service
      (applyPage config io safeHead logs toBlockHash service) := by
  rw [applyPage]
  split
  · exact writes_of_disk_eq rfl rfl
  · have happlied := applyLogs_keeps hlogs service.forest hforest
    cases happly : (applyCommitmentUpdatesFromLogs logs).exec service.forest with
    | mk result forest =>
      rw [happly] at happlied
      cases result with
      | error error => exact writes_of_disk_eq rfl rfl
      | ok applied =>
        have hinitial := written_refl service.disk (fun file => file = service.snapshotPath ∨
          file = .anchor (pageEnd config service safeHead))
          ⟨pageEnd config service safeHead, forest.computeRoots config.poseidon⟩
          service.snapshotPath (pageEnd config service safeHead) service.anchorLast
        exact (persistForestSnapshot_keeps (.inl rfl) (.inr rfl) _ _ hinitial).writes
          (computeRoots_upTo happlied)

theorem checkForestReorg_writes (hdisk : service.disk.Consistent) (reads : HashReads) :
    Writes service.snapshotPath service ((checkForestReorg config io reads).exec service).2 := by
  rcases checkForestReorg_cases config io reads service with ⟨_, hcheck, -⟩ | ⟨-, _, hcheck⟩
  · rw [hcheck]
    exact writes_of_disk_eq rfl rfl
  · rw [hcheck]
    exact resetForestState_writes hdisk

end Steps

end Railgun
