import Railgun.Core.Notes
import Railgun.Core.TxidCache
import Mathlib.Data.Finset.Card

/-!
# Recovering Transactions that a Wallet has Sent

A candidate is an outer transaction that spends notes of the wallet, with the
notes spent and the outputs that the wallet can read. The public rows of the outer
transaction say which inner transaction spends which nullifiers and where its
outputs are. A row is the wallet's if all its nullifiers are those of notes of the
wallet, and foreign if none is. The rows of the wallet have to account for all
spends and all readable outputs of the candidate.

Chain and wallet of a candidate are not looked at here and are left out.

## Main definitions

* `SenderTransactionCandidate`, `SenderTransactionCandidate.validate`: Candidates.
* `qualifySenderRowInputs`: Whose row it is.
* `qualifySenderCandidate`: The rows of the wallet, if they account for everything.
-/

namespace Railgun

/-- A note of the wallet that is spent. -/
structure SenderTransactionCandidateSpend where
  tree : Nat
  position : Nat
  commitment : Bytes32
deriving DecidableEq, Repr

/-- A commitment that is created, with its note if the wallet can read it. -/
structure SenderTransactionCandidateOutput where
  tree : Nat
  position : Nat
  commitment : Bytes32
  note : Option Note
deriving DecidableEq, Repr

/-- The ids of transactions that unshield, and whether their outputs are handed off. -/
structure SenderTransactionCandidateUnshield where
  railgunTxids : List Bytes32
  outputsHandedOff : Bool
deriving DecidableEq, Repr

/-- A transaction that the wallet may have sent. Trees are 32-bit words. -/
structure SenderTransactionCandidate where
  formatVersion : Nat
  source : UtxoSource
  walletSpends : List SenderTransactionCandidateSpend
  outputs : List SenderTransactionCandidateOutput
  unshield : Option SenderTransactionCandidateUnshield
  outputs_tree_lt : ∀ output ∈ outputs, output.tree < 2 ^ 32
deriving DecidableEq, Repr

/-- What is wrong with a candidate. -/
inductive SenderTransactionCandidateError where
  | unsupportedFormatVersion
  | invalidWalletSpends
  | invalidOutputs
  | noteCommitmentMismatch
  | invalidUnshield
deriving DecidableEq, Repr

/-- The only version there is. -/
def senderTransactionCandidateFormatVersion : Nat := 1

/-- Where an output is, and its commitment. -/
abbrev OutputKey := Nat × Nat × Bytes32

/-- Where an output is. -/
def SenderTransactionCandidateOutput.outputKey (output : SenderTransactionCandidateOutput) :
    OutputKey :=
  (output.tree, output.position, output.commitment)

/-- Spends and outputs are ordered by tree, then position, then commitment. -/
def SenderTransactionCandidateSpend.sortKey (spend : SenderTransactionCandidateSpend) :
    ℕ ×ₗ ℕ ×ₗ ℕ :=
  placeKey spend.tree spend.position spend.commitment

/-- What outputs are sorted by. -/
def SenderTransactionCandidateOutput.sortKey (output : SenderTransactionCandidateOutput) :
    ℕ ×ₗ ℕ ×ₗ ℕ :=
  placeKey output.tree output.position output.commitment

/-- Every two neighbours are in order. -/
def windowsAll {A : Type} (le : A → A → Bool) : List A → Bool
  | a :: b :: l => le a b && windowsAll le (b :: l)
  | [_] => true
  | [] => true

namespace SenderTransactionCandidate

variable (crypto : NoteCrypto)

/-- Check an output against the one before it and all places and commitments seen. -/
def validateOutput (output : SenderTransactionCandidateOutput) :
    Option SenderTransactionCandidateOutput × Finset (Nat × Nat) × Finset Bytes32 →
    Except SenderTransactionCandidateError
      (Option SenderTransactionCandidateOutput × Finset (Nat × Nat) × Finset Bytes32)
  | (previous, positions, commitments) =>
    if previous.any fun previous => decide (output.sortKey ≤ previous.sortKey) then
      .error .invalidOutputs
    else if (output.tree, output.position) ∈ positions ∨ output.commitment ∈ commitments then
      .error .invalidOutputs
    else if output.note.any fun note => note.commitment crypto != output.commitment then
      .error .noteCommitmentMismatch
    else
      .ok (some output, insert (output.tree, output.position) positions,
        insert output.commitment commitments)

/-- A candidate is well formed and in order. -/
def validate (candidate : SenderTransactionCandidate) :
    Except SenderTransactionCandidateError Unit :=
  if candidate.formatVersion ≠ senderTransactionCandidateFormatVersion then
    .error .unsupportedFormatVersion
  else if candidate.walletSpends.isEmpty ∨
      !windowsAll (fun a b => a.sortKey < b.sortKey) candidate.walletSpends then
    .error .invalidWalletSpends
  else do
    let _ ← candidate.outputs.foldlM (fun seen output => validateOutput crypto output seen)
      (none, ∅, ∅)
    if candidate.unshield.any fun unshield => unshield.railgunTxids.isEmpty ||
        !windowsAll (fun a b => a < b) unshield.railgunTxids then
      .error .invalidUnshield
    else return

end SenderTransactionCandidate

/-- What a row has to do with the wallet. -/
inductive SenderRowQualification where
  | foreign
  | walletAuthored
deriving DecidableEq, Repr

/-- A row of the wallet, with the outputs it can read. -/
structure QualifiedSenderTransaction where
  txidIndex : Nat
  publicRow : TxidPublicCacheEntry
  outputStartGlobal : Nat
  outputs : List ScannedUtxo
  outputNotes : List Note
deriving DecidableEq, Repr

/-- The spend of a note of the wallet. -/
def WalletUtxo.candidateSpend (entry : WalletUtxo) : SenderTransactionCandidateSpend :=
  { tree := entry.utxo.tree, position := entry.utxo.position, commitment := entry.utxo.commitment }

section Qualify

variable (crypto : NoteCrypto) (keys : WalletScanKeys) (candidate : SenderTransactionCandidate)
  (walletUtxos : List WalletUtxo)

/-- Whether an entry is a note of this tree with this nullifier. -/
def isInput (tree : Nat) (nullifier : U256) (entry : WalletUtxo) : Bool :=
  entry.utxo.tree == tree && entry.utxo.nullifier keys == nullifier

/-- Look a nullifier of a row up: the nullifiers seen, and how many were found. -/
def resolveNullifier (inputTree : Nat) (found : Finset U256 × Nat) (nullifier : U256) :
    Except Unit (Finset U256 × Nat) :=
  if nullifier ∈ found.1 then .error ()
  else
    match walletUtxos.filter (isInput keys inputTree nullifier) with
    | [] => .ok (insert nullifier found.1, found.2)
    | [entry] =>
      if entry.spent ≠ some candidate.source ∨
          entry.candidateSpend ∉ candidate.walletSpends then .error ()
      else .ok (insert nullifier found.1, found.2 + 1)
    | _ :: _ :: _ => .error ()

/-- All inputs of a row are notes of the wallet, or none is. -/
def qualifySenderRowInputs (row : TxidPublicCacheEntry) : Except Unit SenderRowQualification :=
  if 2 ^ 32 ≤ row.transaction.utxoTreeIn then .error ()
  else do
    let found ← row.transaction.nullifiers.foldlM
      (resolveNullifier keys candidate walletUtxos row.transaction.utxoTreeIn) (∅, 0)
    if found.2 = 0 then return .foreign
    else if found.2 = row.transaction.nullifiers.length then return .walletAuthored
    else .error ()

/-- What the rows so far have accounted for. -/
structure QualifyState where
  qualified : List QualifiedSenderTransaction := []
  consumedOutputs : Finset OutputKey := ∅
  consumedSpends : Finset SenderTransactionCandidateSpend := ∅
  qualifiedNullifiers : Finset U256 := ∅

/-- Consume the note of a nullifier. A nullifier may be there only once in all
    rows. -/
def consumeInput (inputTree : Nat)
    (consumed : Finset U256 × Finset SenderTransactionCandidateSpend) (nullifier : U256) :
    Except Unit (Finset U256 × Finset SenderTransactionCandidateSpend) :=
  if nullifier ∈ consumed.1 then .error ()
  else
    match walletUtxos.find? (isInput keys inputTree nullifier) with
    | none => .error ()
    | some input => .ok (insert nullifier consumed.1, insert input.candidateSpend consumed.2)

/-- A commitment that is some places after a global position. -/
def outputAt (outputStartGlobal : Nat) (entry : U256 × Nat) : OutputKey :=
  ((outputStartGlobal + entry.2) / treeLeafCount, (outputStartGlobal + entry.2) % treeLeafCount,
    entry.1)

/-- The note of an output of the candidate. -/
def noteAt (key : OutputKey) : Option Note :=
  (candidate.outputs.find? fun output => output.outputKey == key).bind (·.note)

/-- A note that has been sent to a place. -/
def sentUtxo (key : OutputKey) (note : Note) : ScannedUtxo :=
  { note, tree := key.1, position := key.2.1, source := candidate.source,
    commitment := note.commitment crypto }

/-- Consume an output at its place. An output without a note is as bad as none. -/
def consumeOutput (outputStartGlobal : Nat)
    (consumed : Finset OutputKey × List ScannedUtxo × List Note) (entry : U256 × Nat) :
    Except Unit (Finset OutputKey × List ScannedUtxo × List Note) :=
  let key := outputAt outputStartGlobal entry
  if 2 ^ 128 ≤ outputStartGlobal + entry.2 ∨ 2 ^ 32 ≤ key.1 then .error ()
  else
    match noteAt candidate key with
    | none => .error ()
    | some note =>
      if key ∈ consumed.1 then .error ()
      else
        .ok (insert key consumed.1, consumed.2.1 ++ [sentUtxo crypto candidate key note],
          consumed.2.2 ++ [note])

/-- Add a row of the wallet. -/
def qualifyAuthoredRow (state : QualifyState) (row : TxidPublicCacheEntry) :
    Except Unit QualifyState :=
  let transaction := row.transaction
  if transaction.transactionHash ≠ candidate.source.txHash ∨
      transaction.blockNumber ≠ candidate.source.blockNumber ∨
      2 ^ 32 ≤ transaction.utxoTreeIn then .error ()
  else do
    let inputs ← transaction.nullifiers.foldlM
      (consumeInput keys walletUtxos transaction.utxoTreeIn)
      (state.qualifiedNullifiers, state.consumedSpends)
    if transaction.commitments.length < transaction.hasUnshield.toNat then .error ()
    else
      let privateOutputCount := transaction.commitments.length - transaction.hasUnshield.toNat
      if privateOutputCount = 0 ∧ ¬ transaction.hasUnshield then .error ()
      else
        let outputs ← ((transaction.commitments.take privateOutputCount).zipIdx).foldlM
          (consumeOutput crypto candidate transaction.outputStartGlobal)
          (state.consumedOutputs, [], [])
        return { qualified := state.qualified ++
                   [{ txidIndex := row.txidIndex, publicRow := row,
                      outputStartGlobal := transaction.outputStartGlobal, outputs := outputs.2.1,
                      outputNotes := outputs.2.2 }],
                 consumedOutputs := outputs.1, consumedSpends := inputs.2,
                 qualifiedNullifiers := inputs.1 }

/-- Take one row. Foreign rows are skipped. -/
def qualifyRow (state : QualifyState) (row : TxidPublicCacheEntry) : Except Unit QualifyState := do
  match ← qualifySenderRowInputs keys candidate walletUtxos row with
  | .foreign => return state
  | .walletAuthored => qualifyAuthoredRow crypto keys candidate walletUtxos state row

/-- The transactions of a candidate, if its rows account for all of it. -/
def qualifySenderCandidate (rows : List TxidPublicCacheEntry) :
    Except Unit (Option (List QualifiedSenderTransaction)) :=
  if candidate.validate crypto ≠ .ok () ∨ rows.isEmpty then .ok none
  else do
    let state ← rows.foldlM (qualifyRow crypto keys candidate walletUtxos) {}
    if state.qualified.isEmpty ∨
        state.consumedSpends.card ≠ candidate.walletSpends.length ∨
        (candidate.walletSpends.any fun spend => spend ∉ state.consumedSpends) ∨
        (candidate.outputs.any fun output =>
          output.note.isSome && decide (output.outputKey ∉ state.consumedOutputs)) then
      return none
    else return some state.qualified

end Qualify

end Railgun
