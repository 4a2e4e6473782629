import Railgun.Core.WalletArtifacts

/-!
# Wallet Catch-up from an Indexer

A wallet can also take its rows from an indexer, which answers a request with
one stream for each kind of row. Every stream is cut off at the page size on its
own, so a page goes only as far as all of its streams are complete: a stream
that fills its page may miss rows of the last block in it.

The loop asks for one page after another, each from the block after the
checkpoint of the one before. The switch to and from published chunks, the pages
that were fetched ahead, and cancellation are left out.

## Main definitions

* `completeStreamCheckpoint`: The last block that a stream is complete for.
* `IndexedWalletPage.fetch`: A page of an indexer.
-/

namespace Railgun

/-- The requests an indexer answers: first block, last block, page size. -/
structure IndexedWalletClient (abi : WalletScanAbi) where
  fetchIndexedWalletPage : Nat → Nat → Nat →
    Except SyncError ((kind : WalletRowKind) → List (abi.Row kind))
  fetchIndexedLegacyWalletPage : Nat → Nat → Nat →
    Except SyncError ((kind : WalletRowKind) → List (abi.Row kind))

/-- A stream that fills its page is complete up to the block before its last. -/
def completeStreamCheckpoint (rowCount pageSize targetBlock : Nat) (blockNumbers : List Nat) :
    Nat :=
  if rowCount < pageSize then targetBlock
  -- The subtraction stops at zero, as the source's does.
  else blockNumbers.max?.getD targetBlock - 1

/-- The block of a row. -/
def WalletScanAbi.rowBlock (abi : WalletScanAbi) (kind : WalletRowKind) (row : abi.Row kind) :
    Nat :=
  (abi.rowSource kind row).blockNumber

/-- The streams that a page is made of. -/
def IndexedWalletPageKind.streams : IndexedWalletPageKind → List WalletRowKind
  | .legacy => [.legacyEncrypted, .legacyGenerated, .nullifier]
  | .modern => [.transact, .shield, .nullifier]

namespace IndexedWalletPage

variable {abi : WalletScanAbi}

/-- Cut an answer back to the last block that its three streams are complete
    for. -/
def cutStreams (what : String) (first second third : WalletRowKind)
    (streams : (kind : WalletRowKind) → List (abi.Row kind)) (pageSize fromBlock toBlock : Nat) :
    Except SyncError (IndexedWalletPage abi) :=
  let checkpoint kind := completeStreamCheckpoint (streams kind).length pageSize toBlock
    ((streams kind).map (abi.rowBlock kind))
  let checkpointBlock := min (min (checkpoint first) (checkpoint second)) (checkpoint third)
  if checkpointBlock < fromBlock then
    .error (.unexpectedFormat (s!"{what} is incomplete at block {fromBlock}; " ++
      "reduce page range or increase page size"))
  else
    .ok {
      rows := fun kind =>
        if kind ∈ [first, second, third] then
          (streams kind).filter fun row => abi.rowBlock kind row ≤ checkpointBlock
        else [],
      checkpointBlock }

/-- A page of the current contract. -/
def fetchModern (client : IndexedWalletClient abi) (pageSize fromBlock toBlock : Nat) :
    Except SyncError (IndexedWalletPage abi) := do
  let page ← client.fetchIndexedWalletPage fromBlock toBlock pageSize
  cutStreams "indexed wallet page" .transact .shield .nullifier page pageSize fromBlock toBlock

/-- A page of the legacy contract. -/
def fetchLegacy (client : IndexedWalletClient abi) (pageSize fromBlock toBlock : Nat) :
    Except SyncError (IndexedWalletPage abi) := do
  let page ← client.fetchIndexedLegacyWalletPage fromBlock toBlock pageSize
  cutStreams "indexed legacy wallet page" .legacyEncrypted .legacyGenerated .nullifier page
    pageSize fromBlock toBlock

/-- A page of either. -/
def fetch (client : IndexedWalletClient abi) (pageSize : Nat) (pageKind : IndexedWalletPageKind)
    (fromBlock toBlock : Nat) : Except SyncError (IndexedWalletPage abi) :=
  match pageKind with
  | .legacy => fetchLegacy client pageSize fromBlock toBlock
  | .modern => fetchModern client pageSize fromBlock toBlock

end IndexedWalletPage

section CatchUp

variable {abi : WalletScanAbi} (client : IndexedWalletClient abi) (pageSize : Nat)
  (v2StartBlock indexedWalletBlockRange : Nat)
  (apply : Nat → IndexedWalletPage abi → WalletBackfillApplyResult) (target : Nat)

/-- The loop over the pages of an indexer. It returns the pages that were handed
    to the wallet, each with its first block. -/
def squidCatchUp : Nat → Nat → List (Nat × IndexedWalletPage abi) × ArtifactCatchUpEnd
  | 0, _ => ([], .outOfFuel)
  | fuel + 1, fromBlock =>
    if target < fromBlock then ([], .completed)
    else
      let pageKind := IndexedWalletPageKind.forFromBlock fromBlock v2StartBlock
      let toBlock := pageKind.toBlock fromBlock target v2StartBlock indexedWalletBlockRange
      match IndexedWalletPage.fetch client pageSize pageKind fromBlock toBlock with
      | .error error => ([], .failed error)
      | .ok page =>
        match (apply fromBlock page).acceptedCommittedTo with
        | none => ([(fromBlock, page)], .notCommitted)
        | some checkpoint =>
          let rest := squidCatchUp fuel (saturatingAdd checkpoint 1)
          ((fromBlock, page) :: rest.1, rest.2)

end CatchUp

end Railgun
