import Railgun.Core.Types
import Railgun.Lib.KeyedList

/-!
# Wallet Deltas

What a range of blocks changes in a wallet: the notes it creates and the
nullifiers it publishes. A delta marks the notes of the wallet that it spends,
adds its own notes, and reports which outputs were spent and which transactions
the wallet may have sent. A rewind takes the wallet back to before a block.

The map of the nullifiers of a delta keeps the last source of a nullifier. The
metadata of a note about proofs of innocence is left out but for its
commitment, the hash of nullifiers is a parameter of the keys, and so is the
decryption of the notes a wallet has sent.

## Main definitions

* `UtxoSource`: The transaction and block something happened in.
* `ScannedUtxo`, `WalletUtxo`: A note with its source, and where it was spent.
* `WalletLogDelta`: What a range of blocks changes.
* `applyWalletDeltaToVecWithOutcome`: Applying a delta to the notes of a wallet.
-/

namespace Railgun

/-- Where a row is from. -/
structure UtxoSource where
  txHash : Bytes32
  blockNumber : Nat
  blockTimestamp : Nat
deriving DecidableEq, Repr

/-- A note that was found, with its source. -/
structure ScannedUtxo extends Utxo where
  source : UtxoSource
  commitment : Bytes32
deriving DecidableEq, Repr

/-- A note of the wallet, with the source of its nullifier if it is spent. -/
structure WalletUtxo where
  utxo : ScannedUtxo
  spent : Option UtxoSource
deriving DecidableEq, Repr

/-- A published nullifier. -/
structure SpentNullifier where
  tree : Nat
  nullifier : U256
  source : UtxoSource
deriving DecidableEq, Repr

/-- An output of a transaction that the wallet may have sent. -/
structure SenderScanOutput where
  tree : Nat
  position : Nat
  commitment : Bytes32
  ciphertext : List (BitVec 8)
  source : UtxoSource
deriving DecidableEq, Repr

/-- The notes and nullifiers of some blocks. -/
structure WalletLogDelta where
  utxos : List ScannedUtxo
  nullifiers : List SpentNullifier
  senderScanOutputs : List SenderScanOutput := []
deriving DecidableEq, Repr

/-- The keys a wallet scans with. -/
structure WalletScanKeys where
  nullifyingKey : U256
  poseidon : U256 → U256 → U256
  decryptSenderNote : List (BitVec 8) → Bytes32 → Option Note

/-- The leaf of a note. -/
def ScannedUtxo.place (utxo : ScannedUtxo) : Nat × Nat := (utxo.tree, utxo.position)

/-- A leaf as a key of a sort, by tree, then position, then commitment. -/
def placeKey (tree position : Nat) (commitment : Bytes32) : ℕ ×ₗ ℕ ×ₗ ℕ :=
  toLex (tree, toLex (position, commitment.toNat))

/-- The spend of a note of the wallet. -/
structure SenderScanWalletSpend where
  tree : Nat
  position : Nat
  commitment : Bytes32
deriving DecidableEq, Repr

/-- An output, with its note if it can be decrypted. -/
structure SenderScanCandidateOutput where
  tree : Nat
  position : Nat
  commitment : Bytes32
  note : Option Note
deriving DecidableEq, Repr

/-- A transaction that spends notes of the wallet. -/
structure SenderScanCandidateInput where
  source : UtxoSource
  walletSpends : List SenderScanWalletSpend
  outputs : List SenderScanCandidateOutput
deriving DecidableEq, Repr

/-- What applying a delta has changed. -/
structure WalletDeltaApplyOutcome where
  changed : Bool
  spentOutputCommitments : List Bytes32
  senderScanCandidates : List SenderScanCandidateInput

/-- What a rewind has changed. -/
structure WalletRewindOutcome where
  changed : Bool
  removedOutputCommitments : List Bytes32

section Delta

variable (keys : WalletScanKeys)

/-- The nullifier of a note, which depends on its position only. -/
def ScannedUtxo.nullifier (utxo : ScannedUtxo) : U256 :=
  keys.poseidon keys.nullifyingKey (BitVec.ofNat 256 utxo.position)

/-- The sources of the nullifiers by tree and nullifier. The last one counts. -/
def nullifierSources (nullifiers : List SpentNullifier) : List ((Nat × U256) × UtxoSource) :=
  (nullifiers.map fun spent => ((spent.tree, spent.nullifier), spent.source)).reverse

/-- Where a note is spent, if its nullifier is among the given ones. -/
def spentSourceForUtxo (utxo : ScannedUtxo) (sources : List ((Nat × U256) × UtxoSource)) :
    Option UtxoSource :=
  sources.lookup (utxo.tree, utxo.nullifier keys)

/-- Keep the first note of each leaf. -/
def dedupeWalletUtxos (utxos : List WalletUtxo) : List WalletUtxo :=
  keepFirst (fun entry => entry.utxo.place) id [] utxos

/-- The spends of the notes of the wallet, by transaction. -/
def walletSpendsByTx (walletUtxos : List WalletUtxo)
    (sources : List ((Nat × U256) × UtxoSource)) :
    BTreeMap Bytes32 (UtxoSource × List SenderScanWalletSpend) :=
  walletUtxos.foldl
    (fun spends entry =>
      match spentSourceForUtxo keys entry.utxo sources with
      | none => spends
      | some source =>
        let spend : SenderScanWalletSpend :=
          ⟨entry.utxo.tree, entry.utxo.position, entry.utxo.commitment⟩
        let known := (spends[source.txHash]?).getD (source, [])
        spends.insert source.txHash (known.1, known.2 ++ [spend]))
    ∅

/-- The transactions that spend notes of the wallet, with their outputs. -/
def senderScanCandidateInputs (walletUtxos : List WalletUtxo)
    (sources : List ((Nat × U256) × UtxoSource)) (outputs : List SenderScanOutput) :
    List SenderScanCandidateInput :=
  (walletSpendsByTx keys walletUtxos sources).toList.map fun entry =>
    let spends := entry.2.2.mergeSort fun a b =>
      placeKey a.tree a.position a.commitment ≤ placeKey b.tree b.position b.commitment
    let ofTx := (outputs.filter fun output => output.source.txHash == entry.1).mergeSort fun a b =>
      placeKey a.tree a.position a.commitment ≤ placeKey b.tree b.position b.commitment
    { source := entry.2.1,
      walletSpends := spends.destutter (· ≠ ·),
      outputs := ofTx.map fun output =>
        ⟨output.tree, output.position, output.commitment,
          keys.decryptSenderNote output.ciphertext output.commitment⟩ }

/-- Mark the notes that the nullifiers spend. A note that is already spent stays
    as it is. -/
def markSpent (sources : List ((Nat × U256) × UtxoSource)) (walletUtxos : List WalletUtxo) :
    List WalletUtxo :=
  walletUtxos.map fun entry =>
    match entry.spent with
    | some _ => entry
    | none => { entry with spent := spentSourceForUtxo keys entry.utxo sources }

/-- The commitments of the notes that the nullifiers spend. -/
def newlySpentCommitments (sources : List ((Nat × U256) × UtxoSource))
    (walletUtxos : List WalletUtxo) : List Bytes32 :=
  (walletUtxos.filter fun entry =>
    entry.spent.isNone && (spentSourceForUtxo keys entry.utxo sources).isSome).map
      fun entry => entry.utxo.commitment

/-- The notes of a delta whose leaves are not known, each with where it is
    spent. -/
def newWalletUtxos (sources : List ((Nat × U256) × UtxoSource)) (existing : List (Nat × Nat))
    (utxos : List ScannedUtxo) : List WalletUtxo :=
  keepFirst ScannedUtxo.place (fun utxo => ⟨utxo, spentSourceForUtxo keys utxo sources⟩) existing
    utxos

/-- Add notes, mark those spent, and say what has changed. -/
def applyWalletDeltaToVecWithOutcome (walletUtxos : List WalletUtxo) (delta : WalletLogDelta) :
    List WalletUtxo × WalletDeltaApplyOutcome :=
  let sources := nullifierSources delta.nullifiers
  let marked := markSpent keys sources walletUtxos
  let spentBefore := newlySpentCommitments keys sources walletUtxos
  let added := newWalletUtxos keys sources (marked.map fun entry => entry.utxo.place) delta.utxos
  let spentAdded := (added.filter fun entry => entry.spent.isSome).map
    fun entry => entry.utxo.commitment
  let all := marked ++ added
  let deduped := dedupeWalletUtxos all
  (deduped,
    { changed := !spentBefore.isEmpty || !added.isEmpty || deduped.length != all.length,
      spentOutputCommitments := spentBefore ++ spentAdded,
      senderScanCandidates :=
        senderScanCandidateInputs keys deduped sources delta.senderScanOutputs })

/-- The notes of a wallet after several deltas. -/
def applyWalletDeltas (walletUtxos : List WalletUtxo) (deltas : List WalletLogDelta) :
    List WalletUtxo :=
  deltas.foldl (fun utxos delta => (applyWalletDeltaToVecWithOutcome keys utxos delta).1)
    walletUtxos

end Delta

/-- Forget the notes created from a block on, and the spends from that block
    on. -/
def rewindWalletUtxos (walletUtxos : List WalletUtxo) (fromBlock : Nat) :
    List WalletUtxo × WalletRewindOutcome :=
  let kept := walletUtxos.filter fun entry => entry.utxo.source.blockNumber < fromBlock
  let removed := walletUtxos.filter fun entry =>
    !decide (entry.utxo.source.blockNumber < fromBlock)
  let undone := fun entry : WalletUtxo =>
    entry.spent.any fun spent => fromBlock ≤ spent.blockNumber
  (kept.map fun entry => if undone entry then { entry with spent := none } else entry,
    { changed := kept.length != walletUtxos.length || kept.any undone,
      removedOutputCommitments := removed.map fun entry => entry.utxo.commitment })

end Railgun
