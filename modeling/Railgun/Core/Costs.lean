import Mathlib.Data.Nat.Size
import Railgun.Core.Merkle

/-!
# Fees and Gas

Two calculations a wallet makes before it signs. A shield takes a fee from what
is shielded, so the amount has to be larger than what the note should hold. An
operation is given enough gas, and how many hashes an insertion into the tree
takes depends on where the leaves come to stand.

Gas is counted in 64-bit words that saturate.

## Main definitions

* `minShieldAmount`: The amount to shield for a note of some value.
* `RailgunGasModel.transact`, `RailgunGasModel.shield`: The two estimates.
* `worstCaseTreeHashes`, `expectedTreeHashes`: The hashes of an insertion.
-/

namespace Railgun

/-- The whole, in basis points. -/
def feeBasisPoints : U256 := 10000

/-- Why there is no amount to shield. -/
inductive ShieldFeeError where
  | zeroMinimum
  | feeTooHigh
  | overflow
deriving DecidableEq, Repr

/-- The product, if it is a word. -/
def U256.checkedMul (a b : U256) : Option U256 :=
  if a.toNat * b.toNat < 2 ^ 256 then some (a * b) else none

/-- How many bits a word needs. -/
def U256.bitLen (a : U256) : Nat := a.toNat.size

/-- The smallest amount to shield that leaves `minNet` after the fee. -/
def minShieldAmount (minNet feeBp : U256) : Except ShieldFeeError U256 :=
  if minNet = 0 then .error .zeroMinimum
  else if feeBasisPoints ≤ feeBp then .error .feeTooHigh
  else match U256.checkedMul (minNet - 1) feeBasisPoints with
    | none => .error .overflow
    | some scaled =>
      let amount := scaled / (feeBasisPoints - feeBp) + 1
      if amount.bitLen > 120 then .error .overflow else .ok amount

/-- Whether an estimate is for sure, or what is expected. -/
inductive GasEstimateMode where
  | upperBound
  | expected
deriving DecidableEq, Repr

/-- The coefficients that the estimates of `transact` and `shield` read. -/
structure RailgunGasModel where
  transactCall : Nat
  transaction : Nat
  nullifier : Nat
  commitment : Nat
  leaf : Nat
  unshield : Nat
  treeUpdate : Nat
  treeHash : Nat
  treeWrite : Nat
  shieldCall : Nat
  shieldRequest : Nat
deriving DecidableEq, Repr

/-- The coefficients for Ethereum. -/
def ethereumGasModel : RailgunGasModel where
  transactCall := 14900
  transaction := 292900
  nullifier := 32000
  commitment := 12000
  leaf := 6000
  unshield := 135500
  treeUpdate := 193800
  treeHash := 30000
  treeWrite := 5000
  shieldCall := 19400
  shieldRequest := 104900

/-- The coefficients for Polygon. -/
def polygonGasModel : RailgunGasModel where
  transactCall := 211000
  transaction := 339000
  nullifier := 59800
  commitment := 12000
  leaf := 6000
  unshield := 183100
  treeUpdate := 263100
  treeHash := 30000
  treeWrite := 5000
  shieldCall := 75100
  shieldRequest := 110600

/-- What the gas of a call depends on. -/
structure TransactGasShape where
  transactions : Nat
  inputs : Nat
  outputs : Nat
  unshields : Nat
deriving DecidableEq, Repr

/-- Outputs that are unshielded are not inserted. -/
def TransactGasShape.insertedLeaves (shape : TransactGasShape) : Nat :=
  shape.outputs - shape.unshields

/-- Multiplication of 64-bit words that stops at the largest. -/
def saturatingMul (a b : Nat) : Nat := min (a * b) (2 ^ 64 - 1)

/-- The loop over the levels: a run of `nodes` nodes has at most `nodes / 2 + 1`
    parents. -/
def worstCaseLoop : (levels nodes hashes : Nat) → Nat
  | 0, _, hashes => hashes
  | levels + 1, nodes, hashes =>
    worstCaseLoop levels (nodes / 2 + 1) (saturatingAdd hashes (nodes / 2 + 1))

/-- A bound on the hashes of an insertion. -/
def worstCaseTreeHashes (leaves : Nat) : Nat :=
  if leaves = 0 then 0 else worstCaseLoop treeDepth leaves 0

/-- The hashes that an insertion is expected to take. -/
def expectedTreeHashes (leaves : Nat) : Nat :=
  if leaves = 0 then 0 else saturatingAdd leaves (treeDepth - 1)

/-- The nodes that it is expected to write. -/
def expectedTreeWrites (leaves : Nat) : Nat :=
  if leaves = 0 then 0
  else if leaves = 1 then 8
  else if leaves = 2 then 9
  else if leaves ≤ 8 then 10
  else if leaves ≤ 32 then 11
  else 12

namespace RailgunGasModel

/-- The larger of each coefficient. -/
def fieldwiseMax (a b : RailgunGasModel) : RailgunGasModel where
  transactCall := max a.transactCall b.transactCall
  transaction := max a.transaction b.transaction
  nullifier := max a.nullifier b.nullifier
  commitment := max a.commitment b.commitment
  leaf := max a.leaf b.leaf
  unshield := max a.unshield b.unshield
  treeUpdate := max a.treeUpdate b.treeUpdate
  treeHash := max a.treeHash b.treeHash
  treeWrite := max a.treeWrite b.treeWrite
  shieldCall := max a.shieldCall b.shieldCall
  shieldRequest := max a.shieldRequest b.shieldRequest

/-- The coefficients for a chain. A chain that is not known takes the larger ones. -/
def forChain (chainId : Nat) : RailgunGasModel :=
  match chainId with
  | 1 | 56 | 42161 => ethereumGasModel
  | 137 => polygonGasModel
  | _ => fieldwiseMax ethereumGasModel polygonGasModel

variable (model : RailgunGasModel)

/-- The gas of an insertion. -/
def tree (mode : GasEstimateMode) (leaves : Nat) : Nat :=
  if leaves = 0 then 0
  else match mode with
    | .upperBound =>
      saturatingAdd model.treeUpdate (saturatingMul model.treeHash (worstCaseTreeHashes leaves))
    | .expected =>
      saturatingAdd model.treeUpdate (saturatingMul model.treeHash (expectedTreeHashes leaves)) -
        saturatingMul model.treeWrite (treeDepth - expectedTreeWrites leaves)

/-- The gas of a call with transactions. -/
def transact (mode : GasEstimateMode) (shape : TransactGasShape) : Nat :=
  if shape.transactions = 0 then 0
  else
    let leaves := shape.insertedLeaves
    [saturatingMul model.transaction shape.transactions,
      saturatingMul model.nullifier shape.inputs,
      saturatingMul model.commitment shape.outputs,
      saturatingMul model.leaf leaves,
      saturatingMul model.unshield shape.unshields,
      model.tree mode leaves].foldl saturatingAdd model.transactCall

/-- The gas of a call with shields. -/
def shield (mode : GasEstimateMode) (requests : Nat) : Nat :=
  if requests = 0 then 0
  else [saturatingMul model.shieldRequest requests,
    model.tree mode requests].foldl saturatingAdd model.shieldCall

end RailgunGasModel

end Railgun
