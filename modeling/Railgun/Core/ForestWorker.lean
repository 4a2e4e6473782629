import Railgun.Core.Merkle
import Railgun.Lib.Stateful

/-!
# The Live Forest Worker

The commitment forest of a chain as the sync service keeps it: loaded from disk
at start, caught up, extended page by page from the logs of the chain, written
back after each page, and taken back to an older snapshot when the chain has
reorganised.

The disk holds the forest file, the anchor files, which are snapshots named by
their block, and the metadata record. Every read, write and removal can fail;
`IoOutcomes` says which ones do. Snapshot files are replaced by a rename, so a
write that fails leaves the old file. What a chain client answers is an input as
well, as is the forest a catch-up source has built.

A leaf of a forest does not say where it comes from. `TracedForest` adds the
block of the log that inserted it, which the service does not store, to state
what a snapshot holds.

## Main definitions

* `ForestService`: The worker and its disk.
* `ForestService.step`: What the worker does next.
-/

namespace Railgun

/-- A forest with the block of the log each leaf was inserted from. Exactly the
    leaves of the forest have one. -/
structure TracedForest where
  forest : MerkleForest
  origin : Nat → Nat → Option Nat
  traced : ∀ treeNumber position,
    (forest.leafAt treeNumber position).isSome = (origin treeNumber position).isSome

namespace TracedForest

/-- The forest without leaves. -/
def new : TracedForest where
  forest := {}
  origin := fun _ _ => none
  traced := by
    intro treeNumber position
    rw [MerkleForest.leafAt, Std.ExtTreeMap.getElem?_empty]
    rfl

/-- Some leaf was inserted from a block. -/
def HasLeafFrom (forest : TracedForest) (block : Nat) : Prop :=
  ∃ treeNumber position, forest.origin treeNumber position = some block

/-- No leaf was inserted from a block above the given one. -/
def UpTo (forest : TracedForest) (block : Nat) : Prop :=
  ∀ leafBlock, forest.HasLeafFrom leafBlock → leafBlock ≤ block

/-- Store a leaf from a log of a block. -/
def insertLeaf (forest : TracedForest) (block : Nat) (update : MerkleTreeUpdate) :
    Except SyncError TracedForest :=
  if h : update.treePosition < treeLeafCount then
    .ok {
      forest := forest.forest.withLeaf update.treeNumber update.treePosition update.hash,
      origin := fun treeNumber position =>
        if update.treeNumber = treeNumber ∧ update.treePosition = position then some block
        else forest.origin treeNumber position,
      traced := by
        intro treeNumber position
        rw [leafAt_withLeaf]
        by_cases hplace : update.treeNumber = treeNumber ∧ update.treePosition = position
        · rw [if_pos hplace, if_pos hplace, Option.isSome_some, Option.isSome_some]
        · rw [if_neg hplace, if_neg hplace]
          exact forest.traced treeNumber position }
  else
    .error (.invalidTreePosition update.treePosition treeLeafCount)

/-- Compute and keep the root of every tree. -/
def computeRoots (poseidon : U256 → U256 → U256) (forest : TracedForest) : TracedForest where
  forest := forest.forest.computeRoots poseidon
  origin := forest.origin
  traced := by
    intro treeNumber position
    rw [leafAt_computeRoots]
    exact forest.traced treeNumber position

end TracedForest

/-- Why the logs of a page could not be applied. -/
inductive CommitmentUpdateError where
  | decode
  | sync (error : SyncError)
deriving DecidableEq, Repr

/-- A commitment log: its block, and the leaves it decodes to unless it does not
    decode. -/
structure CommitmentLog where
  blockNumber : Nat
  updates : Option (List MerkleTreeUpdate)
deriving DecidableEq, Repr

/-- Insert the leaves of the logs in order. A log that fails leaves the leaves
    before it in the forest. -/
def applyCommitmentUpdatesFromLogs (logs : List CommitmentLog) :
    Stateful TracedForest CommitmentUpdateError Unit :=
  logs.foldlM
    (fun _ log => do
      let updates ← ofExcept (match log.updates with
        | some updates => .ok updates
        | none => .error .decode)
      updates.foldlM
        (fun _ update => do
          let forest ← get
          let inserted ← ofExcept ((forest.insertLeaf log.blockNumber update).mapError .sync)
          set inserted)
        ())
    ()

/-- A snapshot file: the forest file, or the anchor named by a block. -/
inductive SnapshotPath where
  | forestFile
  | anchor (block : Nat)
deriving DecidableEq, Repr

/-- A forest and the last block it covers. -/
structure MerkleForestSnapshot where
  lastProcessedBlock : Nat
  forest : TracedForest

/-- Which snapshot is current, its block, and the hash of that block, zero if it
    is not known. -/
structure MerkleForestMeta where
  path : SnapshotPath
  lastBlock : Nat
  hash : Bytes32
deriving DecidableEq, Repr

/-- The files of the forest. The anchors are in directory order. -/
structure ForestDisk where
  forestFile : Option MerkleForestSnapshot := none
  anchors : List (Nat × MerkleForestSnapshot) := []
  forestMeta : Option MerkleForestMeta := none

/-- Which reads, writes and removals of a step succeed. -/
structure IoOutcomes where
  readMeta : Bool := true
  readSnapshot : SnapshotPath → Bool := fun _ => true
  listAnchors : Bool := true
  writeRestored : Bool := true
  writeSnapshot : Bool := true
  writeMeta : Bool := true
  writeAnchor : Bool := true
  listPruned : Bool := true
  removeAnchor : Nat → Bool := fun _ => true

/-- Why an operation of the worker fails. -/
inductive ChainError where
  | persist
  | db
  | rpc
deriving DecidableEq, Repr

/-- The settings of a chain. The two-input hash of the trees is one of them. -/
structure ForestConfig where
  poseidon : U256 → U256 → U256
  deploymentBlock : Nat
  blockRange : Nat
  anchorInterval : Nat
  anchorRetention : Nat

namespace ForestDisk

/-- The snapshot in a file, if the file exists. -/
def read (disk : ForestDisk) : SnapshotPath → Option MerkleForestSnapshot
  | .forestFile => disk.forestFile
  | .anchor block => disk.anchors.lookup block

/-- Put a snapshot in a file, in place of what was there. -/
def write (disk : ForestDisk) (path : SnapshotPath) (snapshot : MerkleForestSnapshot) :
    ForestDisk :=
  match path with
  | .forestFile => { disk with forestFile := some snapshot }
  | .anchor block =>
    { disk with
      anchors := (block, snapshot) :: disk.anchors.filter fun entry => entry.1 != block }

/-- Remove a file. -/
def remove (disk : ForestDisk) (path : SnapshotPath) : ForestDisk :=
  match path with
  | .forestFile => { disk with forestFile := none }
  | .anchor block =>
    { disk with anchors := disk.anchors.filter fun entry => entry.1 != block }

/-- The largest block an anchor file is named by. -/
def latestAnchor (disk : ForestDisk) : Option Nat :=
  disk.anchors.foldl
    (fun latest entry =>
      match latest with
      | some latestBlock => if entry.1 ≤ latestBlock then some latestBlock else some entry.1
      | none => some entry.1)
    none

/-- The block of the newest anchor. -/
def findLatestAnchor (disk : ForestDisk) (io : IoOutcomes) : Except ChainError (Option Nat) :=
  if io.listAnchors then .ok disk.latestAnchor else .error .persist

/-- Read a snapshot file and compute the roots of its forest. A missing file is
    no error. -/
def load (disk : ForestDisk) (config : ForestConfig) (io : IoOutcomes) (path : SnapshotPath) :
    Except ChainError (Option MerkleForestSnapshot) :=
  if io.readSnapshot path then
    .ok ((disk.read path).map fun snapshot =>
      { snapshot with forest := snapshot.forest.computeRoots config.poseidon })
  else
    .error .persist

end ForestDisk

/-- The forest in memory, its block, the file it is written to, the block of the
    last anchor, and the disk. -/
structure ForestService where
  forest : TracedForest
  lastProcessed : Nat
  snapshotPath : SnapshotPath
  anchorLast : Nat
  disk : ForestDisk

/-- Computations of the worker. -/
abbrev ForestM := Stateful ForestService ChainError

/-- A forest that a catch-up source has built, the block it covers and the hash
    of that block. -/
structure ForestCandidate where
  forest : TracedForest
  target : Nat
  targetHash : Bytes32

/-- What two reads of a block hash answer. The second is made only to confirm
    the first. -/
structure HashReads where
  first : Except ChainError (Option Bytes32)
  second : Except ChainError (Option Bytes32)

/-- What comparing the stored hash with the chain has shown. -/
inductive ForestMetaCheck where
  | unchecked
  | staleMeta
  | unconfirmed
  | matched
  | mismatch (currentHash : Bytes32)
deriving DecidableEq, Repr

section Worker

variable (config : ForestConfig) (io : IoOutcomes)

/-- Write the forest in memory to the snapshot file. -/
def writeSnapshot (succeeds : Bool) (lastBlock : Nat) : ForestM Unit := do
  if succeeds then
    modify fun service =>
      { service with disk := service.disk.write service.snapshotPath ⟨lastBlock, service.forest⟩ }
  else
    throw .persist

/-- Record the snapshot file, its block and the hash of the block. -/
def updateMerkleForestMeta (lastBlock : Nat) (hash : Bytes32) : ForestM Unit := do
  if io.writeMeta then
    modify fun service =>
      { service with
        disk := { service.disk with forestMeta := some ⟨service.snapshotPath, lastBlock, hash⟩ } }
  else
    throw .db

/-- An anchor is kept: it is one of the newest, it is the snapshot file, or it
    cannot be removed. -/
def keepsAnchor (service : ForestService) (block : Nat) : Bool :=
  let blocks := (service.disk.anchors.map Prod.fst).mergeSort
  (blocks.reverse.take config.anchorRetention).contains block
    || decide (service.snapshotPath = .anchor block) || !io.removeAnchor block

/-- Remove all but the newest anchors. -/
def pruneAnchorSnapshots : ForestM Unit := do
  let service ← get
  if config.anchorRetention = 0 then
    return
  if !io.listPruned then
    throw .persist
  if service.disk.anchors.length ≤ config.anchorRetention then
    return
  let kept := service.disk.anchors.filter fun entry => keepsAnchor config io service entry.1
  modify fun service => { service with disk := { service.disk with anchors := kept } }

/-- Write an anchor if the last one is far enough back. A failure to remove old
    anchors is not reported. -/
def maybeWriteAnchorSnapshot (lastBlock : Nat) : ForestM Unit := do
  let service ← get
  if config.anchorInterval = 0 then
    return
  if lastBlock < saturatingAdd service.anchorLast config.anchorInterval then
    return
  if !io.writeAnchor then
    throw .persist
  modify fun service =>
    { service with
      disk := service.disk.write (.anchor lastBlock) ⟨lastBlock, service.forest⟩,
      anchorLast := lastBlock }
  tryCatch (pruneAnchorSnapshots config io) fun _ => pure ()

/-- Write the forest in memory, the metadata and, if it is due, an anchor. -/
def persistForestSnapshot (lastBlock : Nat) (blockHash : Option Bytes32) : ForestM Unit := do
  writeSnapshot io.writeSnapshot lastBlock
  updateMerkleForestMeta io lastBlock (blockHash.getD 0)
  maybeWriteAnchorSnapshot config io lastBlock

/-- Write a candidate to the snapshot file, with its target and hash as the
    metadata. -/
def persistForestCandidate (disk : ForestDisk) (path : SnapshotPath)
    (candidate : ForestCandidate) : Except ChainError Unit × ForestDisk :=
  if io.writeSnapshot then
    let written := disk.write path ⟨candidate.target, candidate.forest⟩
    if io.writeMeta then
      (.ok (), { written with forestMeta := some ⟨path, candidate.target, candidate.targetHash⟩ })
    else
      (.error .db, written)
  else
    (.error .persist, disk)

/-- The newest anchor and its block, if it can be loaded. -/
def newestAnchor (disk : ForestDisk) : Option (Nat × MerkleForestSnapshot) :=
  match disk.findLatestAnchor io with
  | .ok (some anchorBlock) =>
    match disk.load config io (.anchor anchorBlock) with
    | .ok (some snapshot) => some (anchorBlock, snapshot)
    | .ok none => none
    | .error _ => none
  | .ok none => none
  | .error _ => none

/-- Take the forest of the newest anchor and write it to the snapshot file, or
    start over with an empty forest. The result is the block to go on from. -/
def restoreForest : ForestM Nat := do
  let service ← get
  match newestAnchor config io service.disk with
  | some (anchorBlock, snapshot) => do
    modify fun service => { service with forest := snapshot.forest }
    writeSnapshot io.writeRestored snapshot.lastProcessedBlock
    modify fun service => { service with anchorLast := anchorBlock }
    return snapshot.lastProcessedBlock
  | none => do
    modify fun service => { service with forest := .new, anchorLast := 0 }
    return config.deploymentBlock - 1

/-- Go back to the newest anchor, or to an empty forest if there is none or it
    cannot be loaded. No hash is recorded for the block gone back to. -/
def resetForestState : ForestM Nat := do
  let resetBlock ← restoreForest config io
  writeSnapshot io.writeSnapshot resetBlock
  updateMerkleForestMeta io resetBlock 0
  modify fun service => { service with lastProcessed := resetBlock }
  return resetBlock

/-- The first hash read, if a second read agrees. -/
def confirmBlockHash (firstHash : Bytes32) (second : Except ChainError (Option Bytes32)) :
    Except ChainError (Option Bytes32) := do
  match ← second with
  | none => return none
  | some secondHash => return if secondHash = firstHash then some firstHash else none

/-- Compare the stored hash of the last processed block with the chain. -/
def checkForestMeta (reads : HashReads) (metaLastBlock : Nat) (storedHash : Bytes32)
    (lastProcessed : Nat) : Except ChainError ForestMetaCheck :=
  if lastProcessed < config.deploymentBlock ∨ storedHash = 0 then
    .ok .unchecked
  else if metaLastBlock ≠ lastProcessed then
    .ok .staleMeta
  else do
    match ← reads.first with
    | none => return .unconfirmed
    | some firstHash =>
      if firstHash = storedHash then
        return .matched
      match ← confirmBlockHash firstHash reads.second with
      | none => return .unconfirmed
      | some currentHash =>
        return if currentHash = storedHash then .matched else .mismatch currentHash

/-- Check the stored hash and, if the block is no longer on the chain, go
    back. -/
def checkForestReorg (reads : HashReads) : ForestM ForestMetaCheck := do
  let service ← get
  if service.lastProcessed < config.deploymentBlock then
    return .unchecked
  if !io.readMeta then
    throw .db
  match service.disk.forestMeta with
  | none => return .unchecked
  | some stored =>
    let check ← ofExcept
      (checkForestMeta config reads stored.lastBlock stored.hash service.lastProcessed)
    match check with
    | .mismatch _ => do
      let _ ← resetForestState config io
      return check
    | _ => return check

/-- What the start reads from disk: the forest, its block, and the file it comes
    from. -/
structure LoadedForest where
  forest : TracedForest
  lastProcessed : Nat
  snapshotPath : SnapshotPath

/-- The forest of the snapshot that the metadata names, or an empty one. -/
def loadMainSnapshot (disk : ForestDisk) : LoadedForest :=
  let initial : LoadedForest := ⟨.new, config.deploymentBlock - 1, .forestFile⟩
  match if io.readMeta then disk.forestMeta else none with
  | none => initial
  | some stored =>
    match disk.load config io stored.path with
    | .ok (some snapshot) => ⟨snapshot.forest, snapshot.lastProcessedBlock, stored.path⟩
    | .ok none => initial
    | .error _ => initial

/-- The newest anchor in place of a forest that is behind it. -/
def loadNewestAnchor (disk : ForestDisk) (loaded : LoadedForest) : LoadedForest × Nat :=
  match disk.findLatestAnchor io with
  | .ok (some anchorBlock) =>
    if loaded.lastProcessed < anchorBlock then
      match disk.load config io (.anchor anchorBlock) with
      | .ok (some snapshot) =>
        (⟨snapshot.forest, snapshot.lastProcessedBlock, .anchor anchorBlock⟩, anchorBlock)
      | .ok none => (loaded, anchorBlock)
      | .error _ => (loaded, anchorBlock)
    else
      (loaded, anchorBlock)
  | .ok none => (loaded, 0)
  | .error _ => (loaded, 0)

/-- The hash recorded for the loaded forest is no longer on the chain. -/
def loadedForestReorged (disk : ForestDisk) (reads : HashReads) (lastProcessed : Nat) : Bool :=
  match if io.readMeta then disk.forestMeta else none with
  | none => false
  | some stored =>
    match checkForestMeta config reads stored.lastBlock stored.hash lastProcessed with
    | .ok (.mismatch _) => true
    | _ => false

/-- The tail is short enough to be left to the live loop. -/
def shouldSkipIndexedForestCatchUp (fromBlock safeHead : Nat) : Bool :=
  decide (safeHead < fromBlock) || decide (safeHead - fromBlock + 1 ≤ config.blockRange)

/-- Start from what is on disk, and catch up if a source has won the race. -/
def loadOrInitializeForest (disk : ForestDisk) (safeHead : Nat) (reads : HashReads)
    (winner : Option ForestCandidate) : ForestService :=
  let (loaded, lastAnchor) := loadNewestAnchor config io disk (loadMainSnapshot config io disk)
  let service : ForestService :=
    { forest := loaded.forest, lastProcessed := loaded.lastProcessed,
      snapshotPath := loaded.snapshotPath, anchorLast := lastAnchor, disk := disk }
  let fromBlock := max (saturatingAdd loaded.lastProcessed 1) config.deploymentBlock
  if shouldSkipIndexedForestCatchUp config fromBlock safeHead then
    service
  else if loadedForestReorged config io disk reads loaded.lastProcessed then
    service
  else
    match winner with
    | none => service
    | some candidate =>
      match persistForestCandidate io disk loaded.snapshotPath candidate with
      | (.ok _, disk) =>
        { service with
          forest := candidate.forest, lastProcessed := candidate.target, disk := disk }
      | (.error _, disk) => { service with disk := disk }

/-- Install a caught-up forest, unless the live one has got as far. -/
def installLiveForestCandidate (candidate : ForestCandidate) (service : ForestService) :
    ForestService :=
  if candidate.target ≤ service.lastProcessed then
    service
  else
    match persistForestCandidate io service.disk service.snapshotPath candidate with
    | (.error _, disk) => { service with disk := disk }
    | (.ok _, disk) =>
      let installed := { service with forest := candidate.forest, disk := disk }
      let written := ((maybeWriteAnchorSnapshot config io candidate.target).exec installed).2
      { written with lastProcessed := candidate.target }

/-- The last block of the next page. -/
def pageEnd (service : ForestService) (safeHead : Nat) : Nat :=
  min (saturatingAdd service.lastProcessed 1 + config.blockRange - 1) safeHead

/-- Apply the logs of the next page and write the result. A page that does not
    apply is not written, and what it has inserted stays. -/
def applyPage (safeHead : Nat) (logs : List CommitmentLog) (toBlockHash : Bytes32)
    (service : ForestService) : ForestService :=
  if safeHead ≤ service.lastProcessed then
    service
  else
    match (applyCommitmentUpdatesFromLogs logs).exec service.forest with
    | (.error _, forest) => { service with forest := forest }
    | (.ok _, forest) =>
      let toBlock := pageEnd config service safeHead
      let applied := { service with
        forest := forest.computeRoots config.poseidon, lastProcessed := toBlock }
      ((persistForestSnapshot config io toBlock (some toBlockHash)).exec applied).2

/-- What happens to the worker: it is started again, it checks for a
    reorganisation, it installs a candidate, it applies a page, or a file or the
    metadata is lost. -/
inductive ForestStep where
  | start (io : IoOutcomes) (safeHead : Nat) (reads : HashReads)
      (winner : Option ForestCandidate)
  | check (io : IoOutcomes) (reads : HashReads)
  | install (io : IoOutcomes) (candidate : ForestCandidate)
  | page (io : IoOutcomes) (safeHead : Nat) (logs : List CommitmentLog) (toBlockHash : Bytes32)
  | loseFile (path : SnapshotPath)
  | loseMeta

/-- The worker and its disk after a step. -/
def ForestService.step (service : ForestService) : ForestStep → ForestService
  | .start io safeHead reads winner =>
    loadOrInitializeForest config io service.disk safeHead reads winner
  | .check io reads => ((checkForestReorg config io reads).exec service).2
  | .install io candidate => installLiveForestCandidate config io candidate service
  | .page io safeHead logs toBlockHash => applyPage config io safeHead logs toBlockHash service
  | .loseFile path => { service with disk := service.disk.remove path }
  | .loseMeta => { service with disk := { service.disk with forestMeta := none } }

/-- The worker on an empty disk. -/
def ForestService.initial : ForestService :=
  { forest := .new, lastProcessed := config.deploymentBlock - 1, snapshotPath := .forestFile,
    anchorLast := 0, disk := {} }

end Worker

end Railgun
