import Railgun.Core.Artifacts
import Railgun.Core.WalletDelta
import Railgun.Lib.Stateful

/-!
# Wallet Catch-up from Artifacts

A wallet that is behind can take its rows from published chunks instead of the
chain. A session fetches the chunks for a range of blocks and decides how far
they can be trusted: up to the first gap in the coverage, or up to the
checkpoint of a range or a chunk that is not complete. The wallet then gets the
rows page by page.

A chunk is a list of sections of bytes, one for each kind of row. Rows are read
in full and checked against the bounds of the chunk, also those that the page
does not ask for. The decoding of the contract's structures belongs to the
interface library and is a parameter.

The source has one definition for each of the five kinds of rows; here the kind
is an argument. Row counts that are only logged are left out.

## Main definitions

* `walletScanArtifactTargetBlock`: How far a session can be trusted.
* `IndexedWalletPage.decodeFromChunk`: The rows of a chunk.
-/

namespace Railgun

/-- An artifact that is not as expected. -/
def walletArtifactFormat (message : String) : SyncError :=
  .unexpectedFormat ("indexed wallet artifact: " ++ message)

/-- Blocks that a publisher says it has indexed. -/
structure IndexedArtifactStreamCoverage where
  range : IndexedArtifactRange
  checkpointBlock : Option Nat
deriving DecidableEq, Repr

/-- Indexed blocks, of which those up to the checkpoint are complete. -/
structure WalletScanCoverageRange where
  start : Nat
  finish : Nat
  checkpointBlock : Nat
deriving DecidableEq, Repr

/-- The checkpoint of a range, which is its end if there is none, and is within
    the range. -/
def checkedCheckpointBlock (what : String) (range : IndexedArtifactRange)
    (checkpointBlock : Option Nat) : Except SyncError Nat :=
  let checkpointBlock := checkpointBlock.getD range.finish
  if range.finish < checkpointBlock then
    .error (walletArtifactFormat
      s!"wallet_scan {what} checkpoint block {checkpointBlock} exceeds range end {range.finish}")
  else if checkpointBlock < range.start then
    .error (walletArtifactFormat
      s!"wallet_scan {what} checkpoint block {checkpointBlock} is before range start {range.start}")
  else
    .ok checkpointBlock

/-- The checkpoint of indexed blocks. -/
def walletScanCoverageCheckpointBlock (coverage : IndexedArtifactStreamCoverage) :
    Except SyncError Nat :=
  checkedCheckpointBlock "coverage" coverage.range coverage.checkpointBlock

/-- The checkpoint of a chunk. -/
def walletScanDescriptorCheckpointBlock (descriptor : IndexedArtifactDescriptor)
    (descriptorKind : String) : Except SyncError Nat :=
  checkedCheckpointBlock descriptorKind descriptor.range descriptor.metadata.checkpointBlock

/-- Indexed blocks with their checkpoint. -/
def WalletScanCoverageRange.ofCoverage (coverage : IndexedArtifactStreamCoverage) :
    Except SyncError WalletScanCoverageRange := do
  let checkpointBlock ← walletScanCoverageCheckpointBlock coverage
  return { start := coverage.range.start, finish := coverage.range.finish, checkpointBlock }

/-- Whether the pair of ends of a range comes before that of another. -/
def endsLe (start finish start' finish' : Nat) : Bool :=
  decide (start < start' ∨ (start = start' ∧ finish ≤ finish'))

/-- The indexed ranges, in the order of their ends. -/
structure WalletScanArtifactCoverage where
  ranges : List WalletScanCoverageRange := []
deriving DecidableEq, Repr

/-- How far the coverage goes. It is exhausted if not even the first block that
    is still missing is complete. -/
inductive WalletScanCoverageStatus where
  | available (checkpointBlock : Nat)
  | exhausted (checkpointBlock : Nat)
deriving DecidableEq, Repr

/-- The last block that is complete. -/
def WalletScanCoverageStatus.checkpointBlock : WalletScanCoverageStatus → Nat
  | .available checkpointBlock | .exhausted checkpointBlock => checkpointBlock

namespace WalletScanArtifactCoverage

/-- Add indexed blocks. -/
def addRange (coverage : WalletScanArtifactCoverage) (range : IndexedArtifactStreamCoverage) :
    Except SyncError WalletScanArtifactCoverage := do
  let range ← WalletScanCoverageRange.ofCoverage range
  return ⟨(coverage.ranges ++ [range]).mergeSort fun a b =>
    endsLe a.start a.finish b.start b.finish⟩

/-- All blocks that a publisher says it has indexed. -/
def fromCoverage (coverageRanges : List IndexedArtifactStreamCoverage) :
    Except SyncError WalletScanArtifactCoverage :=
  coverageRanges.foldlM addRange {}

/-- What is answered when there is no further range. -/
def checkpointAfterRanges (fromBlock : Nat) (checkpoint : Option Nat) :
    Except SyncError WalletScanCoverageStatus :=
  match checkpoint with
  | none =>
    .error (walletArtifactFormat
      s!"wallet_scan artifact coverage does not include requested block {fromBlock}")
  | some checkpointBlock => .ok (.available checkpointBlock)

/-- The walk over the ranges. Everything before `nextStart` is covered. -/
def walkRanges (fromBlock targetBlock : Nat) :
    List WalletScanCoverageRange → Nat → Option Nat → Except SyncError WalletScanCoverageStatus
  | [], _, checkpoint => checkpointAfterRanges fromBlock checkpoint
  | range :: ranges, nextStart, checkpoint =>
    if range.finish < nextStart then walkRanges fromBlock targetBlock ranges nextStart checkpoint
    else if nextStart < range.start then checkpointAfterRanges fromBlock checkpoint
    else
      let rangeEnd := min range.finish targetBlock
      if range.checkpointBlock < nextStart then
        .ok (.exhausted (checkpoint.elim range.checkpointBlock fun current =>
          max current range.checkpointBlock))
      else
        let rangeCheckpoint := min range.checkpointBlock rangeEnd
        let checkpoint := checkpoint.elim rangeCheckpoint fun current => max current rangeCheckpoint
        if rangeCheckpoint < rangeEnd then .ok (.available rangeCheckpoint)
        else if targetBlock ≤ rangeEnd then .ok (.available targetBlock)
        else
          walkRanges fromBlock targetBlock ranges (saturatingAdd rangeEnd 1) (some checkpoint)

/-- How far the blocks of a range are covered without a gap. -/
def checkpointForRange (coverage : WalletScanArtifactCoverage) (fromBlock targetBlock : Nat) :
    Except SyncError WalletScanCoverageStatus :=
  walkRanges fromBlock targetBlock coverage.ranges fromBlock none

end WalletScanArtifactCoverage

/-- The blocks of a chunk, and the block it is complete up to. -/
structure WalletScanChunkBounds where
  rangeStart : Nat
  rangeEnd : Nat
  checkpointBlock : Nat
deriving DecidableEq, Repr

/-- The blocks a page asks for. -/
structure WalletScanRowBounds where
  fromBlock : Nat
  toBlock : Nat
deriving DecidableEq, Repr

/-- Whether something happened in the blocks a page asks for. -/
def WalletScanRowBounds.contains (bounds : WalletScanRowBounds) (source : UtxoSource) : Bool :=
  decide (bounds.fromBlock ≤ source.blockNumber ∧ source.blockNumber ≤ bounds.toBlock)

/-- Whether something happened in these blocks. -/
def sourceInRange (source : UtxoSource) (fromBlock toBlock : Nat) : Bool :=
  decide (fromBlock ≤ source.blockNumber ∧ source.blockNumber ≤ toBlock)

namespace WalletScanChunkBounds

/-- The blocks of a chunk with its checkpoint. -/
def ofDescriptor (descriptor : IndexedArtifactDescriptor) :
    Except SyncError WalletScanChunkBounds := do
  let checkpointBlock ← walletScanDescriptorCheckpointBlock descriptor "chunk"
  return { rangeStart := descriptor.range.start, rangeEnd := descriptor.range.finish,
           checkpointBlock }

/-- The check that a row is from the blocks of its chunk. -/
def validateSource (bounds : WalletScanChunkBounds) (source : UtxoSource) :
    Except SyncError Unit :=
  if !sourceInRange source bounds.rangeStart bounds.rangeEnd then
    .error (walletArtifactFormat
      (s!"wallet_scan row source block {source.blockNumber} is outside chunk block range " ++
        s!"{bounds.rangeStart}-{bounds.rangeEnd}"))
  else if bounds.checkpointBlock < source.blockNumber then
    .error (walletArtifactFormat
      (s!"wallet_scan row source block {source.blockNumber} exceeds checkpoint block " ++
        s!"{bounds.checkpointBlock}"))
  else
    .ok ()

end WalletScanChunkBounds

/-- The target of a session after the chunks. A chunk that is not complete stops
    it at its checkpoint, if the chunk is in the way. -/
def targetAfterChunks (fromBlock : Nat) :
    List IndexedArtifactDescriptor → Nat → Except SyncError Nat
  | [], targetBlock => .ok targetBlock
  | descriptor :: descriptors, targetBlock =>
    if !descriptor.range.intersects fromBlock targetBlock then
      targetAfterChunks fromBlock descriptors targetBlock
    else do
      let bounds ← WalletScanChunkBounds.ofDescriptor descriptor
      targetAfterChunks fromBlock descriptors
        (if bounds.checkpointBlock < bounds.rangeEnd then min targetBlock bounds.checkpointBlock
         else targetBlock)

/-- How far the chunks can be trusted, if at all. -/
def walletScanArtifactTargetBlock (coverage : WalletScanArtifactCoverage)
    (chunkDescriptors : List IndexedArtifactDescriptor) (fromBlock requestedTargetBlock : Nat) :
    Except SyncError (Option Nat) := do
  let status ← coverage.checkpointForRange fromBlock requestedTargetBlock
  if status.checkpointBlock < fromBlock then
    return none
  else
    let targetBlock ← targetAfterChunks fromBlock chunkDescriptors status.checkpointBlock
    return if fromBlock ≤ targetBlock then some targetBlock else none

/-- The kinds of rows. -/
inductive WalletRowKind where
  | transact
  | shield
  | nullifier
  | legacyEncrypted
  | legacyGenerated
deriving DecidableEq, Repr

/-- The kind of the rows of a section. -/
def WalletRowKind.ofSectionId : Nat → Option WalletRowKind
  | 1 => some .transact
  | 2 => some .shield
  | 3 => some .nullifier
  | 4 => some .legacyEncrypted
  | 5 => some .legacyGenerated
  | _ => none

/-- The structures of the contract, and how they are decoded. -/
structure WalletScanAbi where
  CommitmentCiphertext : Type
  CommitmentPreimage : Type
  ShieldCiphertext : Type
  LegacyCommitmentCiphertext : Type
  LegacyCommitmentPreimage : Type
  decodeCommitmentCiphertext : List UInt8 → Except String CommitmentCiphertext
  decodeCommitmentPreimage : List UInt8 → Except String CommitmentPreimage
  decodeShieldCiphertext : List UInt8 → Except String ShieldCiphertext
  decodeLegacyCommitmentCiphertext : List UInt8 → Except String LegacyCommitmentCiphertext
  decodeLegacyCommitmentPreimage : List UInt8 → Except String LegacyCommitmentPreimage

/-- A commitment of a private transaction. -/
structure IndexedTransactCommitmentInput (abi : WalletScanAbi) where
  treeNumber : Nat
  treePosition : Nat
  hash : U256
  ciphertext : abi.CommitmentCiphertext
  source : UtxoSource

/-- A commitment of a shield. -/
structure IndexedShieldCommitmentInput (abi : WalletScanAbi) where
  treeNumber : Nat
  treePosition : Nat
  preimage : abi.CommitmentPreimage
  shieldCiphertext : abi.ShieldCiphertext
  source : UtxoSource

/-- A published nullifier. -/
structure IndexedNullifierInput where
  treeNumber : Nat
  nullifier : U256
  source : UtxoSource

/-- A commitment of a private transaction of the first contract. -/
structure IndexedLegacyEncryptedCommitmentInput (abi : WalletScanAbi) where
  treeNumber : Nat
  treePosition : Nat
  hash : U256
  ciphertext : abi.LegacyCommitmentCiphertext
  source : UtxoSource

/-- A commitment of a shield of the first contract. -/
structure IndexedLegacyGeneratedCommitmentInput (abi : WalletScanAbi) where
  treeNumber : Nat
  treePosition : Nat
  preimage : abi.LegacyCommitmentPreimage
  encryptedRandom : List UInt8 × List UInt8
  source : UtxoSource

/-- The rows of a kind. -/
def WalletScanAbi.Row (abi : WalletScanAbi) : WalletRowKind → Type
  | .transact => IndexedTransactCommitmentInput abi
  | .shield => IndexedShieldCommitmentInput abi
  | .nullifier => IndexedNullifierInput
  | .legacyEncrypted => IndexedLegacyEncryptedCommitmentInput abi
  | .legacyGenerated => IndexedLegacyGeneratedCommitmentInput abi

/-- Where a row comes from. -/
def WalletScanAbi.rowSource (abi : WalletScanAbi) : (kind : WalletRowKind) → abi.Row kind →
    UtxoSource
  | .transact => IndexedTransactCommitmentInput.source
  | .shield => IndexedShieldCommitmentInput.source
  | .nullifier => IndexedNullifierInput.source
  | .legacyEncrypted => IndexedLegacyEncryptedCommitmentInput.source
  | .legacyGenerated => IndexedLegacyGeneratedCommitmentInput.source

/-- Reading from the bytes that are left of a section. -/
abbrev WalletScanArtifactCursor (α : Type) := Stateful (List UInt8) SyncError α

namespace WalletScanArtifactCursor

/-- Read so many bytes. -/
def readExact (length : Nat) (field : String) : WalletScanArtifactCursor (List UInt8) := do
  let bytes ← get
  if bytes.length < length then
    throw (walletArtifactFormat s!"wallet_scan artifact ended while reading {field}")
  modify (·.drop length)
  return bytes.take length

/-- The number with these bytes, the lowest first. -/
def fromLeBytes (bytes : List UInt8) : Nat :=
  bytes.foldr (fun byte value => byte.toNat + 256 * value) 0

/-- The number with these bytes, the highest first. -/
def fromBeBytes (bytes : List UInt8) : Nat :=
  bytes.foldl (fun value byte => 256 * value + byte.toNat) 0

/-- Read a number of four bytes. -/
def readU32 (field : String) : WalletScanArtifactCursor Nat := do
  return fromLeBytes (← readExact 4 field)

/-- Read a number of eight bytes. -/
def readU64 (field : String) : WalletScanArtifactCursor Nat := do
  return fromLeBytes (← readExact 8 field)

/-- Read a word of 32 bytes. -/
def readFixed32 (field : String) : WalletScanArtifactCursor Bytes32 := do
  return .ofNat 256 (fromBeBytes (← readExact 32 field))

/-- Read bytes after their number. -/
def readBytes (field : String) : WalletScanArtifactCursor (List UInt8) := do
  readExact (← readU32 field) field

/-- Read where a row comes from. -/
def readSource : WalletScanArtifactCursor UtxoSource := do
  let blockNumber ← readU64 "source block_number"
  let blockTimestamp ← readU64 "source block_timestamp"
  let txHash ← readFixed32 "source transaction_hash"
  return { txHash, blockNumber, blockTimestamp }

/-- Decode a structure of the contract. -/
def decodeAbi {α : Type} (decode : List UInt8 → Except String α) (what : String)
    (bytes : List UInt8) : WalletScanArtifactCursor α :=
  ofExcept ((decode bytes).mapError fun error => walletArtifactFormat s!"decode {what}: {error}")

variable (abi : WalletScanAbi)

/-- Read a commitment of a private transaction. -/
def readTransactRow : WalletScanArtifactCursor (IndexedTransactCommitmentInput abi) := do
  let source ← readSource
  let treeNumber ← readU32 "transact tree_number"
  let treePosition ← readU64 "transact tree_position"
  let hash ← readFixed32 "transact hash"
  let ciphertext ← decodeAbi abi.decodeCommitmentCiphertext "transact ciphertext"
    (← readBytes "transact ciphertext")
  return { treeNumber, treePosition, hash, ciphertext, source }

/-- Read a commitment of a shield. -/
def readShieldRow : WalletScanArtifactCursor (IndexedShieldCommitmentInput abi) := do
  let source ← readSource
  let treeNumber ← readU32 "shield tree_number"
  let treePosition ← readU64 "shield tree_position"
  let _hash ← readFixed32 "shield hash"
  let preimage ← decodeAbi abi.decodeCommitmentPreimage "shield preimage"
    (← readBytes "shield preimage")
  let shieldCiphertext ← decodeAbi abi.decodeShieldCiphertext "shield ciphertext"
    (← readBytes "shield ciphertext")
  return { treeNumber, treePosition, preimage, shieldCiphertext, source }

/-- Read a published nullifier. -/
def readNullifierRow : WalletScanArtifactCursor IndexedNullifierInput := do
  let source ← readSource
  let treeNumber ← readU32 "nullifier tree_number"
  let nullifier ← readFixed32 "nullifier"
  return { treeNumber, nullifier, source }

/-- Read a commitment of a private transaction of the first contract. -/
def readLegacyEncryptedRow :
    WalletScanArtifactCursor (IndexedLegacyEncryptedCommitmentInput abi) := do
  let source ← readSource
  let treeNumber ← readU32 "legacy encrypted tree_number"
  let treePosition ← readU64 "legacy encrypted tree_position"
  let hash ← readFixed32 "legacy encrypted hash"
  let ciphertext ← decodeAbi abi.decodeLegacyCommitmentCiphertext "legacy encrypted ciphertext"
    (← readBytes "legacy encrypted ciphertext")
  return { treeNumber, treePosition, hash, ciphertext, source }

/-- Read a commitment of a shield of the first contract. -/
def readLegacyGeneratedRow :
    WalletScanArtifactCursor (IndexedLegacyGeneratedCommitmentInput abi) := do
  let source ← readSource
  let treeNumber ← readU32 "legacy generated tree_number"
  let treePosition ← readU64 "legacy generated tree_position"
  let _hash ← readFixed32 "legacy generated hash"
  let preimage ← decodeAbi abi.decodeLegacyCommitmentPreimage "legacy generated preimage"
    (← readBytes "legacy generated preimage")
  let encryptedRandom ← readExact 64 "legacy generated encrypted_random"
  -- The sixteen bytes in between are not used.
  return { treeNumber, treePosition, preimage, source,
           encryptedRandom := (encryptedRandom.take 32, encryptedRandom.drop 48) }

/-- Read a row of a kind. -/
def readRow : (kind : WalletRowKind) → WalletScanArtifactCursor (abi.Row kind)
  | .transact => readTransactRow abi
  | .shield => readShieldRow abi
  | .nullifier => readNullifierRow
  | .legacyEncrypted => readLegacyEncryptedRow abi
  | .legacyGenerated => readLegacyGeneratedRow abi

/-- Whether a row is asked for. -/
def isWanted (bounds : Option WalletScanRowBounds) (source : UtxoSource) : Bool :=
  bounds.all (·.contains source)

/-- Read this many rows, and keep those that are asked for. -/
def readRowList (kind : WalletRowKind) (chunkBounds : WalletScanChunkBounds)
    (bounds : Option WalletScanRowBounds) :
    Nat → WalletScanArtifactCursor (List (abi.Row kind))
  | 0 => return []
  | count + 1 => do
    let row ← readRow abi kind
    ofExcept (chunkBounds.validateSource (abi.rowSource kind row))
    let rows ← readRowList kind chunkBounds bounds count
    return if isWanted bounds (abi.rowSource kind row) then row :: rows else rows

/-- What the number of rows of a kind is called. -/
def countField : WalletRowKind → String
  | .transact => "transact count"
  | .shield => "shield count"
  | .nullifier => "nullifier count"
  | .legacyEncrypted => "legacy encrypted count"
  | .legacyGenerated => "legacy generated count"

/-- Read the rows of a section, and how many there are in it. -/
def readRows (kind : WalletRowKind) (chunkBounds : WalletScanChunkBounds)
    (bounds : Option WalletScanRowBounds) :
    WalletScanArtifactCursor (List (abi.Row kind) × Nat) := do
  let count ← readU64 (countField kind)
  let rows ← readRowList abi kind chunkBounds bounds count
  return (rows, count)

/-- Nothing is left. -/
def expectEof (field : String) : WalletScanArtifactCursor Unit := do
  let bytes ← get
  if bytes ≠ [] then
    throw (walletArtifactFormat s!"{field} has {bytes.length} trailing bytes")

/-- Read a section to its end. -/
def readSection (kind : WalletRowKind) (chunkBounds : WalletScanChunkBounds)
    (bounds : Option WalletScanRowBounds) :
    WalletScanArtifactCursor (List (abi.Row kind) × Nat) := do
  let rows ← readRows abi kind chunkBounds bounds
  expectEof "wallet_scan section"
  return rows

end WalletScanArtifactCursor

/-- The bytes of a section, which has to be there. -/
def IndexedArtifactEnvelope.sectionPayload (envelope : IndexedArtifactEnvelope)
    (sectionId : Nat) : Except SyncError (List UInt8) :=
  match envelope.sections.lookup sectionId with
  | some payload => .ok payload
  | none => .error (walletArtifactFormat s!"missing section {sectionId}")

/-- The rows of some blocks, and the last block they are complete up to. -/
structure IndexedWalletPage (abi : WalletScanAbi) where
  rows : (kind : WalletRowKind) → List (abi.Row kind)
  checkpointBlock : Nat

namespace IndexedWalletPage

variable {abi : WalletScanAbi}

/-- A page without rows. -/
def empty (checkpointBlock : Nat) : IndexedWalletPage abi :=
  { rows := fun _ => [], checkpointBlock }

/-- Add the rows of a page that are from these blocks. -/
def extendFilteredFrom (page source : IndexedWalletPage abi) (fromBlock toBlock : Nat) :
    IndexedWalletPage abi :=
  { page with
    rows := fun kind => page.rows kind ++ (source.rows kind).filter fun row =>
      sourceInRange (abi.rowSource kind row) fromBlock toBlock }

/-- Read a section into a page. -/
def decodeSection (envelope : IndexedArtifactEnvelope) (chunkBounds : WalletScanChunkBounds)
    (bounds : Option WalletScanRowBounds) (decoded : IndexedWalletPage abi × Nat)
    (sectionId : Nat) : Except SyncError (IndexedWalletPage abi × Nat) := do
  let payload ← envelope.sectionPayload sectionId
  match WalletRowKind.ofSectionId sectionId with
  | none => .error (walletArtifactFormat s!"unknown wallet_scan section id {sectionId}")
  | some kind =>
    let (rows, decodedRows) ←
      ((WalletScanArtifactCursor.readSection abi kind chunkBounds bounds).exec payload).1
    return ({ decoded.1 with rows := Function.update decoded.1.rows kind rows },
      saturatingAdd decoded.2 decodedRows)

/-- The rows of a chunk, all of them or those that are asked for. -/
def decodeFromChunk (chunk : VerifiedIndexedArtifactChunk) (bounds : Option WalletScanRowBounds) :
    Except SyncError (IndexedWalletPage abi) := do
  let envelope ← chunk.envelope
  if envelope.datasetKind ≠ .walletScan then
    .error (walletArtifactFormat "chunk is not a wallet_scan artifact")
  else if envelope.chainType ≠ .evm then
    .error (walletArtifactFormat "chunk is not an EVM chain artifact")
  else if envelope.rangeKind ≠ .block then
    .error (walletArtifactFormat "wallet_scan range is not block scoped")
  else
    let chunkBounds ← WalletScanChunkBounds.ofDescriptor chunk.descriptor
    let decoded ← (envelope.sections.map (·.1)).foldlM
      (decodeSection envelope chunkBounds bounds) (empty chunkBounds.checkpointBlock, 0)
    if decoded.2 ≠ envelope.rowCount then
      .error (walletArtifactFormat
        s!"wallet_scan row count mismatch: expected {envelope.rowCount}, got {decoded.2}")
    else
      return decoded.1

/-- The rows of a chunk from these blocks. -/
def fromChunkForBlockRange (chunk : VerifiedIndexedArtifactChunk) (fromBlock toBlock : Nat) :
    Except SyncError (IndexedWalletPage abi) :=
  decodeFromChunk chunk (some ⟨fromBlock, toBlock⟩)

end IndexedWalletPage

/-- A fetched chunk of a session. -/
structure IndexedWalletArtifactChunk where
  descriptorIndex : Nat
  range : IndexedArtifactRange
  chunk : VerifiedIndexedArtifactChunk

/-- The chunks of a range of blocks, and how far they can be trusted. -/
structure IndexedWalletArtifactSession where
  targetBlock : Nat
  chunkDescriptors : List IndexedArtifactDescriptor
  chunks : List IndexedWalletArtifactChunk
  coverage : WalletScanArtifactCoverage

/-- What a session answers. -/
inductive IndexedWalletArtifactPageOutcome (abi : WalletScanAbi) where
  | page (page : IndexedWalletPage abi)
  | exhausted (checkpointBlock : Nat)

namespace IndexedWalletArtifactSession

/-- Fetch the chunks, those in the cache first, and put them in the order of
    their blocks. -/
def fetchChunks (cached : IndexedArtifactDescriptor → Bool)
    (content : IndexedArtifactDescriptor → Except SyncError IndexedArtifactEnvelope)
    (chunkDescriptors : List IndexedArtifactDescriptor) : List IndexedWalletArtifactChunk :=
  let indexed := chunkDescriptors.zipIdx
  let resolved := (indexed.filter fun entry => cached entry.1) ++
    (indexed.filter fun entry => !cached entry.1)
  (resolved.map fun entry =>
      { descriptorIndex := entry.2, range := entry.1.range,
        chunk := { descriptor := entry.1, envelope := content entry.1 } }).mergeSort
    fun a b => endsLe a.range.start a.range.finish b.range.start b.range.finish

/-- Start a session for the blocks up to the latest indexed one, from what has
    been planned to be fetched. There is none if these blocks are not indexed. -/
def prepare (coverageRanges : List IndexedArtifactStreamCoverage)
    (requiredCurrentChunks : List IndexedArtifactDescriptor)
    (cached : IndexedArtifactDescriptor → Bool)
    (content : IndexedArtifactDescriptor → Except SyncError IndexedArtifactEnvelope)
    (fromBlock toBlock latestIndexedBlock : Nat) :
    Except SyncError (Option IndexedWalletArtifactSession) :=
  let advertisedTargetBlock := min toBlock latestIndexedBlock
  if advertisedTargetBlock < fromBlock then .ok none
  else do
    let coverage ← WalletScanArtifactCoverage.fromCoverage coverageRanges
    match ← walletScanArtifactTargetBlock coverage requiredCurrentChunks fromBlock
        advertisedTargetBlock with
    | none => return none
    | some targetBlock =>
      let chunkDescriptors := requiredCurrentChunks.filter fun descriptor =>
        descriptor.range.intersects fromBlock targetBlock
      return some { targetBlock, chunkDescriptors, coverage,
                    chunks := fetchChunks cached content chunkDescriptors }

/-- The last block of a page after its chunks, as for a session. -/
def pageCheckpointAfterChunks (fromBlock : Nat) :
    List IndexedWalletArtifactChunk → Nat → Except SyncError Nat
  | [], pageCheckpoint => .ok pageCheckpoint
  | chunk :: chunks, pageCheckpoint =>
    if !chunk.range.intersects fromBlock pageCheckpoint then
      pageCheckpointAfterChunks fromBlock chunks pageCheckpoint
    else do
      let chunkBounds ← WalletScanChunkBounds.ofDescriptor chunk.chunk.descriptor
      pageCheckpointAfterChunks fromBlock chunks
        (if chunkBounds.checkpointBlock < chunk.range.finish then
          min pageCheckpoint chunkBounds.checkpointBlock
         else pageCheckpoint)

/-- Add the rows of a chunk to a page, if the chunk has blocks of it. -/
def extendFromChunk {abi : WalletScanAbi} (fromBlock pageCheckpoint : Nat)
    (page : IndexedWalletPage abi) (chunk : IndexedWalletArtifactChunk) :
    Except SyncError (IndexedWalletPage abi) :=
  if !chunk.range.intersects fromBlock pageCheckpoint then .ok page
  else do
    let chunkPage ← IndexedWalletPage.fromChunkForBlockRange chunk.chunk fromBlock pageCheckpoint
    return page.extendFilteredFrom chunkPage fromBlock pageCheckpoint

/-- The rows of some blocks. -/
def pageForBlockRange (abi : WalletScanAbi) (session : IndexedWalletArtifactSession)
    (fromBlock toBlock : Nat) : Except SyncError (IndexedWalletArtifactPageOutcome abi) :=
  let targetBlock := min toBlock session.targetBlock
  if targetBlock < fromBlock then .ok (.exhausted session.targetBlock)
  else do
    match ← session.coverage.checkpointForRange fromBlock targetBlock with
    | .exhausted checkpointBlock => return .exhausted checkpointBlock
    | .available checkpointBlock =>
      let neededIndices := (session.chunkDescriptors.zipIdx.filter fun entry =>
        entry.1.range.intersects fromBlock targetBlock).map (·.2)
      let cachedChunks := (neededIndices.filter fun neededIndex =>
        session.chunks.any fun chunk => chunk.descriptorIndex = neededIndex).length
      if cachedChunks ≠ neededIndices.length then
        .error (walletArtifactFormat "prepared wallet_scan artifact chunk missing")
      else
        let neededChunks := session.chunks.filter fun chunk =>
          chunk.descriptorIndex ∈ neededIndices
        let pageCheckpoint ← pageCheckpointAfterChunks fromBlock neededChunks checkpointBlock
        if pageCheckpoint < fromBlock then
          return .exhausted pageCheckpoint
        else
          let page ← neededChunks.foldlM (extendFromChunk fromBlock pageCheckpoint)
            (IndexedWalletPage.empty pageCheckpoint)
          return .page page

end IndexedWalletArtifactSession

/-- Pages do not mix rows of the first contract with those of the second. -/
inductive IndexedWalletPageKind where
  | legacy
  | modern
deriving DecidableEq, Repr

namespace IndexedWalletPageKind

/-- The kind of the page that starts at a block. -/
def forFromBlock (fromBlock v2StartBlock : Nat) : IndexedWalletPageKind :=
  if 0 < v2StartBlock ∧ fromBlock < v2StartBlock then .legacy else .modern

/-- The last block a page asks for. -/
def toBlock (kind : IndexedWalletPageKind)
    (fromBlock target v2StartBlock indexedWalletBlockRange : Nat) : Nat :=
  let rangeEnd := min (saturatingAdd fromBlock (indexedWalletBlockRange - 1)) target
  match kind with
  | .legacy => if 0 < v2StartBlock then min rangeEnd (v2StartBlock - 1) else rangeEnd
  | .modern => rangeEnd

end IndexedWalletPageKind

/-- What a wallet does with the rows of some blocks. -/
inductive WalletBackfillApplyResult where
  | committed (committedTo : Nat)
  | alreadyCovered (committedTo : Nat)
  | rejected
deriving DecidableEq, Repr

/-- How far the wallet has got, unless it has refused. -/
def WalletBackfillApplyResult.acceptedCommittedTo : WalletBackfillApplyResult → Option Nat
  | .committed committedTo | .alreadyCovered committedTo => some committedTo
  | .rejected => none

/-- How the loop over the pages ends. -/
inductive ArtifactCatchUpEnd where
  | completed
  | notCommitted
  | failed (error : SyncError)
  | outOfFuel
deriving DecidableEq, Repr

section CatchUp

variable (abi : WalletScanAbi) (v2StartBlock indexedWalletBlockRange : Nat)
  (apply : Nat → IndexedWalletPage abi → WalletBackfillApplyResult)
  (session : IndexedWalletArtifactSession)

/-- The loop over the pages of a session, up to the target of the session. It
    returns the pages that were handed to the wallet, each with its first
    block. -/
def artifactCatchUp : Nat → Nat → Nat → Nat →
    List (Nat × IndexedWalletPage abi) × ArtifactCatchUpEnd
  | 0, _, _, _ => ([], .outOfFuel)
  | fuel + 1, fromBlock, target, checkpoint =>
    if target < fromBlock then ([], .completed)
    else
      let toBlock := (IndexedWalletPageKind.forFromBlock fromBlock v2StartBlock).toBlock fromBlock
        target v2StartBlock indexedWalletBlockRange
      match session.pageForBlockRange abi fromBlock toBlock with
      | .error error => ([], .failed error)
      | .ok (.exhausted checkpointBlock) =>
        let checkpoint := max checkpoint checkpointBlock
        artifactCatchUp fuel (saturatingAdd checkpoint 1) checkpoint checkpoint
      | .ok (.page page) =>
        match (apply fromBlock page).acceptedCommittedTo with
        | none => ([(fromBlock, page)], .notCommitted)
        | some checkpoint =>
          let rest := artifactCatchUp fuel (saturatingAdd checkpoint 1) target checkpoint
          ((fromBlock, page) :: rest.1, rest.2)

end CatchUp

end Railgun
