import Railgun.Core.PoiCache

/-!
# Manifests of POI Artifacts

What a publisher says about the events of a list. The history is cut into
chunks, each with its range of event indexes and the roots before and after it.
The older chunks are listed in a catalog, whose descriptor is in the manifest
entry, the newest one is the tail. Bridges are larger or smaller cuts of the end
of the catalog that were published before, for clients that are behind.

Every part has its own check. Sizes are words of 64 bits, so each sum is checked.
Bytes, hashes and signatures are left out: a catalog is what has been read from
the bytes that its descriptor names.

## Main definitions

* `EventArtifactDescriptor`, `CheckpointCatalogDescriptor`, `ManifestEntry`,
  `CheckpointCatalog`: What is published.
* `EventArtifactDescriptor.validate`, `CheckpointCatalog.validate`,
  `CheckpointCatalogDescriptor.verifyCatalog`, `ManifestEntry.validate`: The
  checks.
* `checkedEventPlanLimits`: What it takes to fetch some chunks.
-/

namespace Railgun

/-- The list, chain and version of the transactions that events belong to. -/
structure PoiScope where
  listKey : Bytes32
  chainType : Nat
  chainId : Nat
  txidVersion : String
deriving DecidableEq, Repr

/-- A range of event indexes, with both ends. -/
structure EventRange where
  startIndex : Nat
  endIndex : Nat
deriving DecidableEq, Repr

/-- How the bytes of an artifact are read. -/
inductive ArtifactEncoding where
  | canonicalJson
  | poiEventBinary
deriving DecidableEq, Repr

/-- How the bytes of an artifact are compressed. -/
inductive Compression where
  | identity
deriving DecidableEq, Repr

/-- What a chunk is for. -/
inductive EventArtifactKind where
  | checkpoint
  | currentTail
  | bridge
deriving DecidableEq, Repr

/-- Where the bytes of an artifact are, and how many there are. -/
structure ArtifactDescriptor where
  cid : String
  byteSize : Nat
  sha256 : Bytes32
deriving DecidableEq, Repr

/-- What is known about a chunk of events before it is fetched. -/
structure EventArtifactDescriptor where
  artifact : ArtifactDescriptor
  formatVersion : Nat
  scope : PoiScope
  kind : EventArtifactKind
  range : EventRange
  rowCount : Nat
  encoding : ArtifactEncoding
  compression : Compression
  startRoot : Option Bytes32
  endRoot : Bytes32
deriving DecidableEq, Repr

/-- What is known about a catalog before it is fetched. -/
structure CheckpointCatalogDescriptor where
  artifact : ArtifactDescriptor
  formatVersion : Nat
  scope : PoiScope
  range : Option EventRange
  rowCount : Nat
  chunkCount : Nat
  encoding : ArtifactEncoding
  compression : Compression
  checkpointRoot : Option Bytes32
deriving DecidableEq, Repr

/-- What is known about the blocked shields before they are fetched. -/
structure BlockedShieldsDescriptor where
  artifact : ArtifactDescriptor
  formatVersion : Nat
  scope : PoiScope
  rowCount : Nat
  encoding : ArtifactEncoding
  compression : Compression
deriving DecidableEq, Repr

/-- What the publisher says about a list: its events, catalog, tail and bridges. -/
structure ManifestEntry where
  scope : PoiScope
  eventCount : Nat
  currentTipIndex : Option Nat
  currentRoot : Option Bytes32
  checkpointCatalog : CheckpointCatalogDescriptor
  currentTail : Option EventArtifactDescriptor
  retainedBridges : List EventArtifactDescriptor
  blockedShields : BlockedShieldsDescriptor
deriving DecidableEq, Repr

/-- The older chunks of a list. -/
structure CheckpointCatalog where
  formatVersion : Nat
  scope : PoiScope
  range : Option EventRange
  rowCount : Nat
  checkpointRoot : Option Bytes32
  chunks : List EventArtifactDescriptor
deriving DecidableEq, Repr

/-- Why a part of a manifest is refused. -/
inductive PoiManifestError where
  | wrongFormat (version : Nat)
  | scopeMismatch
  | unsupportedEncoding
  | unsupportedCompression
  | invalidRange (startIndex endIndex : Nat)
  | rowCountMismatch (expected actual : Nat)
  | arithmeticOverflow
  | eventArtifactByteLimitExceeded (byteSize : Nat)
  | blockedShieldsArtifactByteLimitExceeded (byteSize : Nat)
  | eventDescriptorByteSizeMismatch (expected actual : Nat)
  | catalogDescriptorLimitExceeded (descriptorCount : Nat)
  | checkpointChunkCountMismatch (expected actual : Nat)
  | catalogByteLimitExceeded (encodedBytes decodedBytes : Nat)
  | invalidEmptyGraph
  | invalidNonemptyGraph
  | checkpointBeyondCurrentTip
  | invalidEmptyCheckpoint
  | invalidCheckpointAggregate
  | invalidCurrentTail
  | invalidBridgeChain
  | tooManyRetainedBridges (count : Nat)
  | rangeGapOrOverlap
  | invalidCheckpointChunk
  | partialCheckpointNotFinal
  | descriptorBodyMismatch
  | txidVersionTooLong
  | invalidStartRoot
deriving DecidableEq, Repr

/-- The version of manifests that is read. -/
def poiManifestFormatVersion : Nat := 4

/-- The number of events in a chunk of the catalog. -/
def checkpointEventSpan : Nat := 32768

/-- The largest chunk. -/
def eventArtifactMaxBytes : Nat := 4 * 1024 * 1024

/-- The largest list of blocked shields. -/
def blockedShieldsArtifactMaxBytes : Nat := 4 * 1024 * 1024

/-- The largest number of chunks in a catalog. -/
def catalogMaxDescriptors : Nat := 4096

/-- The largest catalog. -/
def catalogMaxBytes : Nat := 2 * 1024 * 1024

/-- The largest number of bridges. -/
def maxRetainedBridges : Nat := 7

/-- The largest number of blocks in a response. -/
def artifactCarMaxBlocks : Nat := 16384

/-- The size of a chunk's header without the version text. -/
def eventHeaderFixedBytes : Nat := 147

/-- The size of an event in a chunk. -/
def eventRecordBytes : Nat := 97

/-- The least allowance of a response for its framing. -/
def carMinOverheadBytes : Nat := 1024 * 1024

/-- An allowance of a response that does not depend on its size. -/
def carFixedOverheadBytes : Nat := 64 * 1024

/-- A sum that has to be a 64-bit word. -/
def checkedPoiAdd (left right : Nat) : Except PoiManifestError Nat :=
  if left + right < 2 ^ 64 then .ok (left + right) else .error .arithmeticOverflow

/-- The number of indexes in a range, which is not empty. -/
def EventRange.rowCount (range : EventRange) : Except PoiManifestError Nat :=
  if range.endIndex < range.startIndex ∨ 2 ^ 64 ≤ range.endIndex - range.startIndex + 1 then
    .error (.invalidRange range.startIndex range.endIndex)
  else .ok (range.endIndex - range.startIndex + 1)

/-- Only one version is read. -/
def requireFormatVersion (version : Nat) : Except PoiManifestError Unit :=
  if version ≠ poiManifestFormatVersion then .error (.wrongFormat version) else .ok ()

/-- A part is of the scope it is expected in. -/
def requireScope (expected actual : PoiScope) : Except PoiManifestError Unit :=
  if expected ≠ actual then .error .scopeMismatch else .ok ()

/-- A part is encoded as expected. -/
def requireEncoding (expected actual : ArtifactEncoding) : Except PoiManifestError Unit :=
  if actual ≠ expected then .error .unsupportedEncoding else .ok ()

/-- Nothing is compressed. -/
def requireCompression (compression : Compression) : Except PoiManifestError Unit :=
  if compression ≠ .identity then .error .unsupportedCompression else .ok ()

/-- Only the first chunk has no root before it. -/
def requireStartRoot (startIndex : Nat) (startRoot : Option Bytes32) :
    Except PoiManifestError Unit :=
  if decide (startIndex = 0) ≠ startRoot.isNone then .error .invalidStartRoot else .ok ()

/-- A chunk is not too large. -/
def requireEventArtifactSize (byteSize : Nat) : Except PoiManifestError Unit :=
  if eventArtifactMaxBytes < byteSize then .error (.eventArtifactByteLimitExceeded byteSize)
  else .ok ()

/-- A list of blocked shields is not too large. -/
def requireBlockedShieldsArtifactSize (byteSize : Nat) : Except PoiManifestError Unit :=
  if blockedShieldsArtifactMaxBytes < byteSize then
    .error (.blockedShieldsArtifactByteLimitExceeded byteSize)
  else .ok ()

/-- A catalog is not too large and has not too many chunks. -/
def validateCatalogLimits (encodedBytes decodedBytes descriptorCount : Nat) :
    Except PoiManifestError Unit :=
  if catalogMaxDescriptors < descriptorCount then
    .error (.catalogDescriptorLimitExceeded descriptorCount)
  else if catalogMaxBytes < encodedBytes ∨ catalogMaxBytes < decodedBytes then
    .error (.catalogByteLimitExceeded encodedBytes decodedBytes)
  else .ok ()

/-- The range and the root of a catalog say how many rows it has. -/
def validateAggregate (range : Option EventRange) (rowCount : Nat) (root : Option Bytes32) :
    Except PoiManifestError Unit :=
  if rowCount = 0 then
    if range.isSome ∨ root.isSome then .error .invalidCheckpointAggregate else .ok ()
  else
    match range with
    | none => .error .invalidCheckpointAggregate
    | some aggregate =>
      if aggregate.startIndex ≠ 0 then .error .invalidCheckpointAggregate
      else do
        let aggregateCount ← aggregate.rowCount
        if aggregateCount ≠ rowCount ∨ root.isNone then .error .invalidCheckpointAggregate
        else return

/-- The number of chunks that some rows are cut into. -/
def expectedCheckpointChunkCount (rowCount : Nat) : Except PoiManifestError Nat :=
  if rowCount = 0 then .ok 0 else checkedPoiAdd ((rowCount - 1) / checkpointEventSpan) 1

/-- A chunk of a catalog starts at a multiple of the span and is not longer. -/
def validateCheckpointRange (range : EventRange) (rowCount : Nat) :
    Except PoiManifestError Unit :=
  if range.startIndex % checkpointEventSpan ≠ 0 ∨ checkpointEventSpan < rowCount then
    .error .invalidCheckpointChunk
  else .ok ()

/-- A chunk starts where the one before it ends, with its root. -/
def requireContiguous (left right : EventArtifactDescriptor) : Except PoiManifestError Unit := do
  let next ← checkedPoiAdd left.range.endIndex 1
  if right.range.startIndex ≠ next ∨ right.startRoot ≠ some left.endRoot then
    .error .rangeGapOrOverlap
  else return

/-- The size of a chunk: a header with the version text, and the records. -/
def expectedEventArtifactSize (scope : PoiScope) (rowCount : Nat) :
    Except PoiManifestError Nat := do
  let txidLen := scope.txidVersion.utf8ByteSize
  let headerLen ← checkedPoiAdd eventHeaderFixedBytes txidLen
  if 2 ^ 16 - 1 < txidLen ∨ 2 ^ 16 - 1 < headerLen then .error .txidVersionTooLong
  else if 2 ^ 64 ≤ rowCount * eventRecordBytes then .error .arithmeticOverflow
  else
    let byteSize ← checkedPoiAdd headerLen (rowCount * eventRecordBytes)
    requireEventArtifactSize byteSize
    return byteSize

/-- The check of a chunk. -/
def EventArtifactDescriptor.validate (descriptor : EventArtifactDescriptor) :
    Except PoiManifestError Unit := do
  requireFormatVersion descriptor.formatVersion
  requireEncoding .poiEventBinary descriptor.encoding
  requireCompression descriptor.compression
  let rangeCount ← descriptor.range.rowCount
  if descriptor.rowCount = 0 ∨ descriptor.rowCount ≠ rangeCount then
    .error (.rowCountMismatch rangeCount descriptor.rowCount)
  else
    requireStartRoot descriptor.range.startIndex descriptor.startRoot
    requireEventArtifactSize descriptor.artifact.byteSize
    let expectedByteSize ← expectedEventArtifactSize descriptor.scope descriptor.rowCount
    if descriptor.artifact.byteSize ≠ expectedByteSize then
      .error (.eventDescriptorByteSizeMismatch expectedByteSize descriptor.artifact.byteSize)
    else if descriptor.kind = .checkpoint then
      validateCheckpointRange descriptor.range descriptor.rowCount
    else return

/-- The check of what is known about a catalog. -/
def CheckpointCatalogDescriptor.validate (descriptor : CheckpointCatalogDescriptor) :
    Except PoiManifestError Unit := do
  requireFormatVersion descriptor.formatVersion
  requireEncoding .canonicalJson descriptor.encoding
  requireCompression descriptor.compression
  validateCatalogLimits descriptor.artifact.byteSize descriptor.artifact.byteSize
    descriptor.chunkCount
  validateAggregate descriptor.range descriptor.rowCount descriptor.checkpointRoot
  let expected ← expectedCheckpointChunkCount descriptor.rowCount
  if descriptor.chunkCount ≠ expected then
    .error (.checkpointChunkCountMismatch expected descriptor.chunkCount)
  else return

/-- The check of what is known about the blocked shields. -/
def BlockedShieldsDescriptor.validate (descriptor : BlockedShieldsDescriptor) :
    Except PoiManifestError Unit := do
  requireFormatVersion descriptor.formatVersion
  requireEncoding .canonicalJson descriptor.encoding
  requireCompression descriptor.compression
  requireBlockedShieldsArtifactSize descriptor.artifact.byteSize

namespace CheckpointCatalog

/-- A chunk follows the one before it, or starts the history. -/
def requireFollows (previous : Option EventArtifactDescriptor) (chunk : EventArtifactDescriptor) :
    Except PoiManifestError Unit :=
  match previous with
  | none => if chunk.range.startIndex ≠ 0 then .error .rangeGapOrOverlap else .ok ()
  | some prior => requireContiguous prior chunk

/-- The chunks of a catalog one by one: the number of rows, and the last chunk. -/
def validateChunks (scope : PoiScope) : Option EventArtifactDescriptor → Nat →
    List EventArtifactDescriptor →
    Except PoiManifestError (Nat × Option EventArtifactDescriptor)
  | previous, totalRows, [] => .ok (totalRows, previous)
  | previous, totalRows, chunk :: chunks => do
    chunk.validate
    requireScope scope chunk.scope
    if chunk.kind ≠ .checkpoint then .error .invalidCheckpointChunk
    else
      requireFollows previous chunk
      if !chunks.isEmpty ∧ chunk.rowCount ≠ checkpointEventSpan then
        .error .partialCheckpointNotFinal
      else
        let totalRows ← checkedPoiAdd totalRows chunk.rowCount
        validateChunks scope (some chunk) totalRows chunks

/-- The check of a catalog. -/
def validate (catalog : CheckpointCatalog) : Except PoiManifestError Unit := do
  requireFormatVersion catalog.formatVersion
  validateCatalogLimits 0 0 catalog.chunks.length
  if catalog.chunks.isEmpty then
    if catalog.rowCount ≠ 0 ∨ catalog.range.isSome ∨ catalog.checkpointRoot.isSome then
      .error .invalidCheckpointAggregate
    else return
  else if catalog.rowCount = 0 then .error .invalidCheckpointAggregate
  else
    match ← validateChunks catalog.scope none 0 catalog.chunks with
    | (_, none) => .error .invalidCheckpointAggregate
    | (totalRows, some last) =>
      validateAggregate catalog.range catalog.rowCount catalog.checkpointRoot
      if totalRows ≠ catalog.rowCount ∨
          catalog.range ≠ some { startIndex := 0, endIndex := last.range.endIndex } ∨
          catalog.checkpointRoot ≠ some last.endRoot then
        .error .invalidCheckpointAggregate
      else return

end CheckpointCatalog

/-- A catalog that has been read is the one its descriptor describes. -/
def CheckpointCatalogDescriptor.verifyCatalog (descriptor : CheckpointCatalogDescriptor)
    (catalog : CheckpointCatalog) : Except PoiManifestError Unit := do
  descriptor.validate
  catalog.validate
  if catalog.formatVersion ≠ descriptor.formatVersion ∨ catalog.scope ≠ descriptor.scope ∨
      catalog.range ≠ descriptor.range ∨ catalog.rowCount ≠ descriptor.rowCount ∨
      catalog.chunks.length ≠ descriptor.chunkCount ∨
      catalog.checkpointRoot ≠ descriptor.checkpointRoot then
    .error .descriptorBodyMismatch
  else return

namespace ManifestEntry

/-- The bridges one by one: the last one. -/
def validateBridges (entry : ManifestEntry) : Option EventArtifactDescriptor →
    List EventArtifactDescriptor → Except PoiManifestError (Option EventArtifactDescriptor)
  | previous, [] => .ok previous
  | previous, bridge :: bridges => do
    bridge.validate
    requireScope entry.scope bridge.scope
    if bridge.kind ≠ .bridge ∨ entry.checkpointCatalog.rowCount ≤ bridge.range.endIndex then
      .error .invalidBridgeChain
    else
      match previous with
      | none => validateBridges entry (some bridge) bridges
      | some prior => do
        requireContiguous prior bridge
        validateBridges entry (some bridge) bridges

/-- The bridges end where the catalog ends. -/
def validateBridgeChain (entry : ManifestEntry) : Except PoiManifestError Unit :=
  if entry.retainedBridges.isEmpty then .ok ()
  else do
    match ← entry.validateBridges none entry.retainedBridges with
    | none => .error .invalidBridgeChain
    | some last =>
      if entry.checkpointCatalog.rowCount = 0 then .error .arithmeticOverflow
      else if last.range.endIndex ≠ entry.checkpointCatalog.rowCount - 1 ∨
          some last.endRoot ≠ entry.checkpointCatalog.checkpointRoot then
        .error .invalidBridgeChain
      else return

/-- What an entry without events may have. -/
def isEmptyGraph (entry : ManifestEntry) : Bool :=
  entry.currentTipIndex.isNone && entry.currentRoot.isNone &&
    entry.checkpointCatalog.rowCount == 0 && entry.checkpointCatalog.range.isNone &&
    entry.checkpointCatalog.checkpointRoot.isNone && entry.currentTail.isNone &&
    entry.retainedBridges.isEmpty

/-- The part of the entry that the catalog covers. -/
def validateCheckpoint (entry : ManifestEntry) : Except PoiManifestError Unit :=
  if entry.checkpointCatalog.rowCount = 0 then
    if entry.checkpointCatalog.range.isSome ∨ entry.checkpointCatalog.checkpointRoot.isSome ∨
        !entry.retainedBridges.isEmpty then
      .error .invalidEmptyCheckpoint
    else .ok ()
  else if entry.checkpointCatalog.range ≠
        some { startIndex := 0, endIndex := entry.checkpointCatalog.rowCount - 1 } ∨
      entry.checkpointCatalog.checkpointRoot.isNone then
    .error .invalidCheckpointAggregate
  else entry.validateBridgeChain

/-- The part of the entry after the catalog. -/
def validateTail (entry : ManifestEntry) (currentRoot : Bytes32) : Except PoiManifestError Unit :=
  if entry.checkpointCatalog.rowCount = entry.eventCount then
    if entry.currentTail.isSome ∨ entry.checkpointCatalog.checkpointRoot ≠ some currentRoot then
      .error .invalidCurrentTail
    else .ok ()
  else
    match entry.currentTail with
    | none => .error .invalidCurrentTail
    | some tail => do
      tail.validate
      requireScope entry.scope tail.scope
      if tail.kind ≠ .currentTail ∨
          tail.range.startIndex ≠ entry.checkpointCatalog.rowCount ∨
          tail.range.endIndex ≠ entry.eventCount - 1 ∨ tail.endRoot ≠ currentRoot ∨
          tail.startRoot ≠ entry.checkpointCatalog.checkpointRoot then
        .error .invalidCurrentTail
      else return

/-- The check of an entry. -/
def validate (entry : ManifestEntry) : Except PoiManifestError Unit := do
  entry.checkpointCatalog.validate
  entry.blockedShields.validate
  requireScope entry.scope entry.checkpointCatalog.scope
  requireScope entry.scope entry.blockedShields.scope
  if maxRetainedBridges < entry.retainedBridges.length then
    .error (.tooManyRetainedBridges entry.retainedBridges.length)
  else if entry.eventCount = 0 then
    if entry.isEmptyGraph then return else .error .invalidEmptyGraph
  else
    match entry.currentRoot with
    | none => .error .invalidNonemptyGraph
    | some currentRoot =>
      if entry.currentTipIndex ≠ some (entry.eventCount - 1) then .error .invalidNonemptyGraph
      else if entry.eventCount < entry.checkpointCatalog.rowCount then
        .error .checkpointBeyondCurrentTip
      else
        entry.validateCheckpoint
        entry.validateTail currentRoot

end ManifestEntry

/-- The largest response with so many bytes. -/
def checkedCarResponseLimit (reconstructedBytes : Nat) : Except PoiManifestError Nat := do
  let overhead ← checkedPoiAdd (max (reconstructedBytes / 8) carMinOverheadBytes)
    carFixedOverheadBytes
  checkedPoiAdd reconstructedBytes overhead

/-- What it takes to fetch a chunk. -/
structure RetrievalLimits where
  responseBytes : Nat
  carBlockCount : Nat
  reconstructedBytes : Nat
  decodedBytes : Nat
  recordCount : Nat
deriving DecidableEq, Repr

/-- What it takes to fetch a chunk that passes its check. -/
def RetrievalLimits.forEvent (descriptor : EventArtifactDescriptor) :
    Except PoiManifestError RetrievalLimits := do
  descriptor.validate
  let responseBytes ← checkedCarResponseLimit descriptor.artifact.byteSize
  return { responseBytes, carBlockCount := artifactCarMaxBlocks,
           reconstructedBytes := descriptor.artifact.byteSize,
           decodedBytes := descriptor.artifact.byteSize, recordCount := descriptor.rowCount }

/-- What it takes to fetch some chunks. -/
structure PlanLimits where
  descriptorCount : Nat := 0
  encodedBytes : Nat := 0
  responseBytes : Nat := 0
  reconstructedBytes : Nat := 0
  decodedBytes : Nat := 0
  recordCount : Nat := 0
  carBlockCount : Nat := 0
deriving DecidableEq, Repr

/-- The sums with one more chunk. -/
def PlanLimits.add (total : PlanLimits) (descriptor : EventArtifactDescriptor) :
    Except PoiManifestError PlanLimits := do
  let limits ← RetrievalLimits.forEvent descriptor
  let descriptorCount ← checkedPoiAdd total.descriptorCount 1
  let encodedBytes ← checkedPoiAdd total.encodedBytes descriptor.artifact.byteSize
  let responseBytes ← checkedPoiAdd total.responseBytes limits.responseBytes
  let reconstructedBytes ← checkedPoiAdd total.reconstructedBytes limits.reconstructedBytes
  let decodedBytes ← checkedPoiAdd total.decodedBytes limits.decodedBytes
  let recordCount ← checkedPoiAdd total.recordCount limits.recordCount
  let carBlockCount ← checkedPoiAdd total.carBlockCount limits.carBlockCount
  return { descriptorCount, encodedBytes, responseBytes, reconstructedBytes, decodedBytes,
           recordCount, carBlockCount }

/-- The sums over some chunks, if they are words. -/
def checkedEventPlanLimits (descriptors : List EventArtifactDescriptor) :
    Except PoiManifestError PlanLimits :=
  descriptors.foldlM PlanLimits.add {}

end Railgun
