import Railgun.Core.Merkle

/-!
# Quick Synchronization

The commitments of a chain, read page by page from an indexer. A page starts at
a block and holds at most so many commitments, in the order of their blocks. A
full page may have cut its last block in two, so that block is left for the next
page, which starts with it. Commitments that have been seen are passed over by
their identifiers.

The loop stops at a page that is not full, at a page that goes beyond the last
requested block, or once it has inserted the commitments of sixteen trees.

The indexer is a parameter. Its numbers are words that the client converts to
narrower ones, and that have the right size here already. The reports of
progress after each page are left out.

## Main definitions

* `Commitment`, `QuickSyncConfig`, `SyncProgress`: What is asked, answered and reported.
* `fetchList`: One request.
* `QuickSyncState`, `QuickSyncBatches`: The variables of the loop and of one page.
* `QuickSyncConfig.processThroughBlock`, `QuickSyncConfig.processPage`: One page.
* `QuickSyncConfig.syncLoop`, `runQuickSyncInto`: The loop over the pages.
-/

namespace Railgun

attribute [local instance] lexOrd

/-- A commitment as the indexer answers it. -/
structure Commitment where
  id : BitVec 512
  treeNumber : Nat
  treePosition : Nat
  batchStartTreePosition : Nat
  blockNumber : Nat
  hash : U256
  blockNumber_lt : blockNumber < 2 ^ 64
deriving DecidableEq

/-- What the synchronization has counted. -/
structure SyncProgress where
  latestBlock : Nat
  latestCommitmentBlock : Nat
  commitments : Nat
  nullifiers : Nat
  unshields : Nat
deriving DecidableEq, Repr

/-- Which blocks are requested, and how many commitments at a time. -/
structure QuickSyncConfig where
  startBlock : Nat
  endBlock : Option Nat
  pageSize : Nat
  pageSize_pos : 0 < pageSize

/-- The largest limit that a request can have. -/
def graphqlIntMax : Nat := 2 ^ 31 - 1

/-- Ask for the commitments from a block on. -/
def fetchList (post : Nat → Nat → Except SyncError (List Commitment)) (blockNumber pageSize : Nat) :
    Except SyncError (List Commitment) :=
  post blockNumber (min pageSize graphqlIntMax)

/-- The number of commitments after which the loop stops. -/
def maxCommitments : Nat := 16 * treeLeafCount

/-- What the loop has done so far. -/
structure QuickSyncState where
  forest : MerkleForest
  totalCommitments : Nat
  latestBlock : Nat
  latestCommitmentBlock : Nat
  commitmentIds : List (BitVec 512)

/-- The commitments of a page that are to be inserted, by batch. -/
structure QuickSyncBatches where
  maxProcessedBlock : Option Nat
  commitmentIds : List (BitVec 512)
  batchMap : BTreeMap (Nat × Nat) (List Commitment)

/-- Put a commitment into its batch. -/
def QuickSyncBatches.add (processThroughBlock : Nat) (batches : QuickSyncBatches)
    (commitment : Commitment) : QuickSyncBatches :=
  if processThroughBlock < commitment.blockNumber then batches
  else
    let maxProcessedBlock := some
      (max (batches.maxProcessedBlock.getD commitment.blockNumber) commitment.blockNumber)
    if commitment.id ∈ batches.commitmentIds then { batches with maxProcessedBlock }
    else
      let key := (commitment.treeNumber, commitment.batchStartTreePosition)
      { maxProcessedBlock,
        commitmentIds := commitment.id :: batches.commitmentIds,
        batchMap := batches.batchMap.insert key (batches.batchMap[key]?.getD [] ++ [commitment]) }

/-- The leaf of a commitment, at the position it refers to. -/
def Commitment.leaf (commitment : Commitment) : MerkleTreeUpdate :=
  let (treeNumber, treePosition) :=
    normalizeTreePosition commitment.treeNumber commitment.treePosition
  { treeNumber, treePosition, hash := commitment.hash }

namespace QuickSyncConfig

/-- The last block of a page that is known to be complete. -/
def processThroughBlock (config : QuickSyncConfig) (pageIsFull : Bool) (maxBlockSeen : Nat) : Nat :=
  let processThroughBlock :=
    if pageIsFull then maxBlockSeen - 1 else config.endBlock.getD (2 ^ 64 - 1)
  config.endBlock.elim processThroughBlock fun endBlock => min processThroughBlock endBlock

/-- Insert the commitments of a page up to a block, batch by batch. -/
def processPage (state : QuickSyncState) (processThroughBlock : Nat)
    (commitments : List Commitment) : Except SyncError QuickSyncState := do
  let batches := commitments.foldl (QuickSyncBatches.add processThroughBlock)
    { maxProcessedBlock := none, commitmentIds := state.commitmentIds, batchMap := ∅ }
  let inserted := batches.batchMap.toList.flatMap Prod.snd
  let forest ← inserted.foldlM (fun forest commitment => forest.insertLeaf commitment.leaf)
    state.forest
  return { forest,
           totalCommitments := state.totalCommitments + inserted.length,
           latestBlock := batches.maxProcessedBlock.elim state.latestBlock (max state.latestBlock),
           latestCommitmentBlock :=
             batches.maxProcessedBlock.elim state.latestCommitmentBlock
               (max state.latestCommitmentBlock),
           commitmentIds := batches.commitmentIds }

/-- The loop over the pages, with fuel. -/
def syncLoop (config : QuickSyncConfig) (post : Nat → Nat → Except SyncError (List Commitment)) :
    Nat → Nat → QuickSyncState → Option (Except SyncError QuickSyncState)
  | 0, _, _ => none
  | fuel + 1, commitmentCursor, state =>
    match fetchList post commitmentCursor config.pageSize with
    | .error error => some (.error error)
    | .ok commitments =>
      if commitments.isEmpty then some (.ok state)
      else
        let maxBlockSeen := commitments.foldl
          (fun maxBlockSeen commitment => max maxBlockSeen commitment.blockNumber) commitmentCursor
        let pageIsFull := decide (config.pageSize ≤ commitments.length)
        if pageIsFull ∧ maxBlockSeen = commitmentCursor then
          some (.error (.unexpectedFormat
            (s!"commitment quick-sync page did not advance past block {commitmentCursor}; " ++
              s!"page size {config.pageSize} may split one block")))
        else
          match processPage state (config.processThroughBlock pageIsFull maxBlockSeen)
              commitments with
          | .error error => some (.error error)
          | .ok state =>
            if !pageIsFull then some (.ok state)
            else if config.endBlock.any fun endBlock => decide (endBlock < maxBlockSeen) then
              some (.ok state)
            else if maxCommitments ≤ state.totalCommitments then some (.ok state)
            else syncLoop config post fuel maxBlockSeen state

end QuickSyncConfig

/-- Insert the commitments from the start block on into a forest. -/
def runQuickSyncInto (poseidon : U256 → U256 → U256) (config : QuickSyncConfig)
    (post : Nat → Nat → Except SyncError (List Commitment)) (fuel : Nat) (forest : MerkleForest) :
    Option (Except SyncError (MerkleForest × SyncProgress)) :=
  (config.syncLoop post fuel config.startBlock
    { forest, totalCommitments := 0, latestBlock := config.startBlock,
      latestCommitmentBlock := config.startBlock, commitmentIds := [] }).map fun result =>
    result.map fun state =>
      (state.forest.computeRoots poseidon,
        { latestBlock := config.endBlock.elim state.latestBlock (max state.latestBlock),
          latestCommitmentBlock :=
            config.endBlock.elim state.latestCommitmentBlock (max state.latestCommitmentBlock),
          commitments := state.totalCommitments,
          nullifiers := 0,
          unshields := 0 })

end Railgun
