import Railgun.Core.Merkle

/-!
# Rows of the Public TXID Cache

The transactions that the lookup by the hash of the outer transaction answers,
with their indexes. The pages that the rows are kept in are left out.

## Main definitions

* `TxidPublicCacheTransaction`: A transaction as it is cached.
* `TxidPublicCacheEntry`: A row as the lookup answers it.
-/

namespace Railgun

/-- A transaction as an indexer has it. -/
structure TxidPublicCacheTransaction where
  id : String
  transactionHash : Bytes32
  blockNumber : Nat
  blockTimestamp : Nat
  nullifiers : List U256
  commitments : List U256
  boundParamsHash : U256
  hasUnshield : Bool
  unshieldPreimage : Option (List UInt8)
  utxoTreeIn : Nat
  utxoTreeOut : Nat
  utxoBatchStartPositionOut : Nat
deriving DecidableEq, Repr

/-- The global position of the first output. -/
def TxidPublicCacheTransaction.outputStartGlobal (transaction : TxidPublicCacheTransaction) : Nat :=
  transaction.utxoTreeOut * treeLeafCount + transaction.utxoBatchStartPositionOut

/-- A transaction and its place in the tree of ids. -/
structure TxidPublicCacheEntry where
  txidIndex : Nat
  transaction : TxidPublicCacheTransaction
deriving DecidableEq, Repr

end Railgun
