import Railgun.Core.Notes

/-!
# Scanning for Notes of a Wallet

Commitments come as events of the contracts or as rows of an index, in four
kinds. A commitment of a transaction has a ciphertext, a shield shows its token
and value and has a ciphertext of the random only, and the first contract had
both kinds in another layout. The scanner tries each with the keys of a wallet,
and keeps what it can read.

Decoding a log is a parameter. The numbers of an event are those that have been
decoded, and the position of a commitment is counted from the first one of its
event in a 64-bit word. The order of the nullifiers of a delta is not fixed in the
source.

## Main definitions

* `ContractDecoders.abi`: The structures of the contracts in the rows of an index.
* `WalletScanInputRows.fromLogs`: The rows of some logs.
* `WalletScanDelta.fromRows`, `parseWalletDeltaFromLogs`: What is found.
-/

namespace Railgun

open WalletScanArtifactCursor (fromBeBytes)

/-- Decoding the structures of the contracts. -/
structure ContractDecoders where
  decodeCommitmentCiphertext : List UInt8 → Except String CommitmentCiphertext
  decodeCommitmentPreimage : List UInt8 → Except String CommitmentPreimage
  decodeShieldCiphertext : List UInt8 → Except String ShieldCiphertext
  decodeLegacyCommitmentCiphertext : List UInt8 → Except String LegacyCommitmentCiphertext
  decodeLegacyCommitmentPreimage : List UInt8 → Except String LegacyCommitmentPreimage

/-- The structures of the contract, and how they are decoded. -/
@[reducible]
def ContractDecoders.abi (decoders : ContractDecoders) : WalletScanAbi where
  CommitmentCiphertext := CommitmentCiphertext
  CommitmentPreimage := CommitmentPreimage
  ShieldCiphertext := ShieldCiphertext
  LegacyCommitmentCiphertext := LegacyCommitmentCiphertext
  LegacyCommitmentPreimage := LegacyCommitmentPreimage
  decodeCommitmentCiphertext := decoders.decodeCommitmentCiphertext
  decodeCommitmentPreimage := decoders.decodeCommitmentPreimage
  decodeShieldCiphertext := decoders.decodeShieldCiphertext
  decodeLegacyCommitmentCiphertext := decoders.decodeLegacyCommitmentCiphertext
  decodeLegacyCommitmentPreimage := decoders.decodeLegacyCommitmentPreimage

/-- The keys a wallet reads its notes with. -/
structure ViewingKeyData where
  viewingPrivateKey : Bytes32
  masterPublicKey : U256

/-- A commitment and its leaf. -/
structure CommitmentObservation where
  tree : Nat
  position : Nat
  commitment : U256
  source : UtxoSource
deriving DecidableEq, Repr

/-- A commitment that was seen, with its position normalized. -/
def commitmentObservation (treeNumber treePosition : Nat) (commitment : U256)
    (source : UtxoSource) : CommitmentObservation :=
  let (tree, position) := normalizeTreePosition treeNumber treePosition
  { tree, position, commitment, source }

/-- The rows that are scanned. -/
structure WalletScanInputRows (decoders : ContractDecoders) where
  transactCommitments : List (IndexedTransactCommitmentInput decoders.abi) := []
  shieldCommitments : List (IndexedShieldCommitmentInput decoders.abi) := []
  legacyEncryptedCommitments : List (IndexedLegacyEncryptedCommitmentInput decoders.abi) := []
  legacyGeneratedCommitments : List (IndexedLegacyGeneratedCommitmentInput decoders.abi) := []
  nullifiers : List IndexedNullifierInput := []
  commitmentObservations : List CommitmentObservation := []

/-- What is found in some rows. -/
structure WalletScanDelta extends WalletLogDelta where
  commitmentObservations : List CommitmentObservation

/-- A ciphertext as one string of bytes. -/
def CommitmentCiphertext.toBytes (ciphertext : CommitmentCiphertext) : List (BitVec 8) :=
  ((ciphertext.ciphertext.toList.flatMap Bytes32.toBytes) ++
    ciphertext.blindedSenderViewingKey.toBytes ++ ciphertext.blindedReceiverViewingKey.toBytes ++
    ciphertext.annotationData ++ ciphertext.memo).map UInt8.toBitVec

section Scan

variable (crypto : NoteCrypto) {decoders : ContractDecoders}

/-- A note that has been read, with its commitment. -/
def ScannedUtxo.new (note : Note) (tree position : Nat) (source : UtxoSource) : ScannedUtxo :=
  { note, tree, position, source, commitment := note.commitment crypto }

namespace IndexedTransactCommitmentInput

/-- What the sender has to know of an output. -/
def senderScanOutput (row : IndexedTransactCommitmentInput decoders.abi) : SenderScanOutput :=
  let (tree, position) := normalizeTreePosition row.treeNumber row.treePosition
  { tree, position, commitment := row.hash, ciphertext := row.ciphertext.toBytes,
    source := row.source }

/-- The note of a row, if the wallet can decrypt it. -/
def scan (row : IndexedTransactCommitmentInput decoders.abi) (keys : ViewingKeyData) :
    Option ScannedUtxo := do
  let (tree, position) := normalizeTreePosition row.treeNumber row.treePosition
  let sharedKey ← crypto.sharedSymmetricKey keys.viewingPrivateKey
    row.ciphertext.blindedSenderViewingKey
  let note ← (Note.decryptV2 crypto row.ciphertext.ciphertext row.ciphertext.memo sharedKey
    keys.masterPublicKey).toOption
  if note.commitment crypto ≠ row.hash then none
  else return ScannedUtxo.new crypto note tree position row.source

end IndexedTransactCommitmentInput

/-- A shield that can be decrypted. The public key of its note is not looked at. -/
def scanShieldCommitment (treeNumber treePosition : Nat) (preimage : CommitmentPreimage)
    (ciphertext : ShieldCiphertext) (source : UtxoSource) (keys : ViewingKeyData) :
    Option ScannedUtxo := do
  let (tree, position) := normalizeTreePosition treeNumber treePosition
  let sharedKey ← crypto.sharedSymmetricKey keys.viewingPrivateKey ciphertext.shieldKey
  let random ← (decryptShieldRandom crypto ciphertext.encryptedBundle sharedKey).toOption
  return ScannedUtxo.new crypto (preimage.noteWithRandom crypto random) tree position source

/-- The first two words of the memo of the first contract are not encrypted. -/
def IndexedLegacyEncryptedCommitmentInput.scan
    (row : IndexedLegacyEncryptedCommitmentInput decoders.abi) (keys : ViewingKeyData) :
    Option ScannedUtxo := do
  let memo := (row.ciphertext.memo.drop 2).flatMap Bytes32.toBytes
  let sharedKey ← crypto.sharedSymmetricKeyLegacy keys.viewingPrivateKey
    (row.ciphertext.ephemeralKeys.get 0)
  let (tree, position) := normalizeTreePosition row.treeNumber row.treePosition
  let note ← (Note.decryptV2 crypto row.ciphertext.ciphertext memo sharedKey
    keys.masterPublicKey).toOption
  if note.commitment crypto ≠ row.hash then none
  else return ScannedUtxo.new crypto note tree position row.source

/-- The note of a row, if it is for the wallet. -/
def IndexedLegacyGeneratedCommitmentInput.scan
    (row : IndexedLegacyGeneratedCommitmentInput decoders.abi) (keys : ViewingKeyData) :
    Option ScannedUtxo := do
  let random ← (decryptLegacyRandom crypto (.ofNat 256 (fromBeBytes row.encryptedRandom.1))
    row.encryptedRandom.2 keys.viewingPrivateKey).toOption
  let npk := Note.npkFor crypto keys.masterPublicKey random
  if npk ≠ row.preimage.npk then none
  else
    let (tree, position) := normalizeTreePosition row.treeNumber row.treePosition
    let note : Note :=
      { tokenHash := row.preimage.token.tokenId crypto, value := row.preimage.value.setWidth 256,
        random, npk := row.preimage.npk }
    return ScannedUtxo.new crypto note tree position row.source

/-- Try all rows with the keys of a wallet. -/
def WalletScanDelta.fromIndexedInputs
    (transactCommitments : List (IndexedTransactCommitmentInput decoders.abi))
    (shieldCommitments : List (IndexedShieldCommitmentInput decoders.abi))
    (legacyEncryptedCommitments : List (IndexedLegacyEncryptedCommitmentInput decoders.abi))
    (legacyGeneratedCommitments : List (IndexedLegacyGeneratedCommitmentInput decoders.abi))
    (indexedNullifiers : List IndexedNullifierInput)
    (extraCommitmentObservations : List CommitmentObservation) (keys : ViewingKeyData) :
    WalletScanDelta where
  utxos :=
    transactCommitments.filterMap (·.scan crypto keys) ++
    shieldCommitments.filterMap (fun row => scanShieldCommitment crypto row.treeNumber
      row.treePosition row.preimage row.shieldCiphertext row.source keys) ++
    legacyEncryptedCommitments.filterMap (·.scan crypto keys) ++
    legacyGeneratedCommitments.filterMap (·.scan crypto keys)
  nullifiers :=
    keepFirst (fun row : IndexedNullifierInput => (row.treeNumber, row.nullifier))
      (fun row => { tree := row.treeNumber, nullifier := row.nullifier, source := row.source }) []
      indexedNullifiers
  senderScanOutputs := transactCommitments.map (·.senderScanOutput)
  commitmentObservations :=
    extraCommitmentObservations ++
    transactCommitments.map (fun row =>
      commitmentObservation row.treeNumber row.treePosition row.hash row.source) ++
    shieldCommitments.map (fun row =>
      commitmentObservation row.treeNumber row.treePosition (row.preimage.hash crypto)
        row.source) ++
    legacyEncryptedCommitments.map (fun row =>
      commitmentObservation row.treeNumber row.treePosition row.hash row.source) ++
    legacyGeneratedCommitments.map (fun row =>
      commitmentObservation row.treeNumber row.treePosition (row.preimage.hash crypto) row.source)

/-- All that is found in rows. -/
def WalletScanDelta.fromRows (rows : WalletScanInputRows decoders) (keys : ViewingKeyData) :
    WalletScanDelta :=
  fromIndexedInputs crypto rows.transactCommitments rows.shieldCommitments
    rows.legacyEncryptedCommitments rows.legacyGeneratedCommitments rows.nullifiers
    rows.commitmentObservations keys

end Scan

/-- The events of the contracts that are scanned. -/
inductive RailgunEvent where
  | transact (treeNumber startPosition : Nat) (hash : List Bytes32)
      (ciphertext : List CommitmentCiphertext)
  | shield (treeNumber startPosition : Nat) (commitments : List CommitmentPreimage)
      (shieldCiphertext : List ShieldCiphertext)
  | legacyShield (treeNumber startPosition : Nat) (commitments : List CommitmentPreimage)
      (shieldCiphertext : List ShieldCiphertext)
  | nullifiers (treeNumber : Nat) (nullifier : List U256)
  | nullified (treeNumber : Nat) (nullifier : List Bytes32)
  | commitmentBatch (treeNumber startPosition : Nat) (hash : List U256)
      (ciphertext : List LegacyCommitmentCiphertext)
  | generatedCommitmentBatch (treeNumber startPosition : Nat)
      (commitments : List LegacyCommitmentPreimage) (encryptedRandom : List (U256 × U256))
deriving DecidableEq, Repr

/-- A log, as far as it is read. -/
structure ScanLog where
  topics : List Bytes32
  data : List UInt8
  blockNumber : Option Nat
  transactionHash : Option Bytes32
deriving DecidableEq, Repr

/-- Why logs cannot be scanned. -/
inductive WalletScanError where
  | decode (message : String)
  | missingLogMetadata (field : String)
deriving DecidableEq, Repr

/-- Where a log is from. -/
def sourceFromLog (log : ScanLog) (blockTimestamps : Nat → Option Nat) :
    Except WalletScanError UtxoSource :=
  match log.blockNumber with
  | none => .error (.missingLogMetadata "block_number")
  | some blockNumber =>
    match blockTimestamps blockNumber with
    | none => .error (.missingLogMetadata "block_timestamp")
    | some blockTimestamp =>
      match log.transactionHash with
      | none => .error (.missingLogMetadata "transaction_hash")
      | some txHash => .ok { txHash, blockNumber, blockTimestamp }

/-- The low half of the second word holds the random. -/
def encryptedRandomFromU256 (value : U256 × U256) : List UInt8 × List UInt8 :=
  (Bytes32.toBytes value.1, (Bytes32.toBytes value.2).drop 16)

section Logs

variable (crypto : NoteCrypto) {decoders : ContractDecoders}

/-- The position of a commitment of an event. -/
def eventPosition (startPosition index : Nat) : Nat := (startPosition + index) % 2 ^ 64

namespace WalletScanInputRows

/-- A shield without a ciphertext is only observed. -/
def pushShieldEventRows (rows : WalletScanInputRows decoders) (treeNumber startPosition : Nat)
    (commitments : List CommitmentPreimage) (shieldCiphertext : List ShieldCiphertext)
    (source : UtxoSource) : WalletScanInputRows decoders :=
  commitments.zipIdx.foldl
    (fun rows entry =>
      let treePosition := eventPosition startPosition entry.2
      match shieldCiphertext[entry.2]? with
      | some ciphertext =>
        { rows with
          shieldCommitments := rows.shieldCommitments ++
            [{ treeNumber, treePosition, preimage := entry.1, shieldCiphertext := ciphertext,
               source }] }
      | none =>
        { rows with
          commitmentObservations := rows.commitmentObservations ++
            [commitmentObservation treeNumber treePosition (entry.1.hash crypto) source] })
    rows

/-- The rows of an event. A commitment without its other half is skipped. -/
def pushEvent (rows : WalletScanInputRows decoders) (source : UtxoSource) :
    RailgunEvent → WalletScanInputRows decoders
  | .transact treeNumber startPosition hash ciphertext =>
    { rows with
      transactCommitments := rows.transactCommitments ++
        ciphertext.zipIdx.filterMap fun entry => hash[entry.2]?.map fun hash =>
          { treeNumber, treePosition := eventPosition startPosition entry.2, hash,
            ciphertext := entry.1, source } }
  | .shield treeNumber startPosition commitments shieldCiphertext =>
    rows.pushShieldEventRows crypto treeNumber startPosition commitments shieldCiphertext source
  | .legacyShield treeNumber startPosition commitments shieldCiphertext =>
    rows.pushShieldEventRows crypto treeNumber startPosition commitments shieldCiphertext source
  | .nullifiers treeNumber nullifier =>
    { rows with
      nullifiers := rows.nullifiers ++
        nullifier.map fun nullifier => { treeNumber, nullifier, source } }
  | .nullified treeNumber nullifier =>
    { rows with
      nullifiers := rows.nullifiers ++
        nullifier.map fun nullifier => { treeNumber, nullifier, source } }
  | .commitmentBatch treeNumber startPosition hash ciphertext =>
    { rows with
      legacyEncryptedCommitments := rows.legacyEncryptedCommitments ++
        ciphertext.zipIdx.filterMap fun entry => hash[entry.2]?.map fun hash =>
          { treeNumber, treePosition := eventPosition startPosition entry.2, hash,
            ciphertext := entry.1, source } }
  | .generatedCommitmentBatch treeNumber startPosition commitments encryptedRandom =>
    { rows with
      legacyGeneratedCommitments := rows.legacyGeneratedCommitments ++
        commitments.zipIdx.filterMap fun entry => encryptedRandom[entry.2]?.map fun random =>
          { treeNumber, treePosition := eventPosition startPosition entry.2,
            preimage := entry.1, encryptedRandom := encryptedRandomFromU256 random, source } }

/-- The rows of a log. A log of another event is skipped. -/
def pushLog (decodeLog : ScanLog → Except WalletScanError (Option RailgunEvent))
    (blockTimestamps : Nat → Option Nat) (rows : WalletScanInputRows decoders) (log : ScanLog) :
    Except WalletScanError (WalletScanInputRows decoders) := do
  match ← decodeLog log with
  | none => return rows
  | some event =>
    let source ← sourceFromLog log blockTimestamps
    return rows.pushEvent crypto source event

/-- The rows of logs. -/
def fromLogs (decodeLog : ScanLog → Except WalletScanError (Option RailgunEvent))
    (logs : List ScanLog) (blockTimestamps : Nat → Option Nat) :
    Except WalletScanError (WalletScanInputRows decoders) :=
  logs.foldlM (pushLog crypto decodeLog blockTimestamps) {}

end WalletScanInputRows

/-- All that is found in logs. -/
def parseWalletDeltaFromLogs (decoders : ContractDecoders)
    (decodeLog : ScanLog → Except WalletScanError (Option RailgunEvent)) (logs : List ScanLog)
    (blockTimestamps : Nat → Option Nat) (keys : ViewingKeyData) :
    Except WalletScanError WalletScanDelta := do
  let rows : WalletScanInputRows decoders ←
    WalletScanInputRows.fromLogs crypto decodeLog logs blockTimestamps
  return WalletScanDelta.fromRows crypto rows keys

end Logs

end Railgun
