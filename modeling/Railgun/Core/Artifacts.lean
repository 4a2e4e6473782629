import Railgun.Core.Merkle

/-!
# Indexed Artifacts

What a publisher says about the chunks of indexed chain data it publishes: which
blocks or positions a chunk covers, and what is known about its rows before it
is fetched. The wallet rows and the Merkle data of a chain are published this
way.

Only the fields that the catch-up reads are kept. Signatures, sizes, encodings
and the planning of what to fetch are left out.

## Main definitions

* `IndexedArtifactDescriptor`: A chunk or a catalog before it is fetched.
-/

namespace Railgun

/-- What a chunk is of. -/
inductive IndexedDatasetKind where
  | walletScan
  | commitments
  | merkleCheckpoint
  | publicTxid
deriving DecidableEq, Repr

/-- The kind of chain a chunk is of. -/
inductive ChainType where
  | evm
deriving DecidableEq, Repr

/-- The contract a chunk is of. -/
structure ChainScope where
  chainType : ChainType
  chainId : Nat
  railgunContract : Address
deriving DecidableEq, Repr

/-- What the range of a chunk counts. -/
inductive IndexedArtifactRangeKind where
  | block
  | txidIndex
  | treePosition
  | poiEventIndex
deriving DecidableEq, Repr

/-- A range of blocks or of positions, with both ends. -/
structure IndexedArtifactRange where
  kind : IndexedArtifactRangeKind
  start : Nat
  finish : Nat
deriving DecidableEq, Repr

/-- Whether a range and the one from `start` to `finish` have something in
    common. -/
def IndexedArtifactRange.intersects (range : IndexedArtifactRange) (start finish : Nat) : Bool :=
  decide (range.start ≤ range.finish ∧ start ≤ finish ∧ range.start ≤ finish ∧
    start ≤ range.finish)

/-- What is known about the rows of a chunk or of a catalog. -/
structure DatasetDescriptorMetadata where
  checkpointBlock : Option Nat := none
  treeNumber : Option Nat := none
  leafCount : Option Nat := none
  startBlock : Option Nat := none
  endBlock : Option Nat := none
  lastIndexedBlock : Option Nat := none
deriving DecidableEq, Repr

/-- A chunk or a catalog before it is fetched. Its content is named by its
    identifier. -/
structure IndexedArtifactDescriptor where
  datasetKind : IndexedDatasetKind
  scope : ChainScope
  range : IndexedArtifactRange
  cid : String
  metadata : DatasetDescriptorMetadata
deriving DecidableEq, Repr

/-- The content of a chunk. -/
structure IndexedArtifactEnvelope where
  datasetKind : IndexedDatasetKind
  chainType : ChainType
  rangeKind : IndexedArtifactRangeKind
  rowCount : Nat
  sections : List (Nat × List UInt8)
deriving DecidableEq, Repr

/-- A chunk that has been fetched and checked against its hash, with its content
    if it can be unpacked. -/
structure VerifiedIndexedArtifactChunk where
  descriptor : IndexedArtifactDescriptor
  envelope : Except SyncError IndexedArtifactEnvelope

end Railgun
