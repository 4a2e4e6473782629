import Railgun.Core.Search

/-!
# Batched Note Selection

How an amount is split over several transactions. A single transaction covers
it when some tree has a set of notes that does; otherwise a greedy loop spends
the largest chunk it can, removes its notes, and goes on with what is still
owed. The candidate enumeration used for composite plans expands the same kind
of chunk sequences as a bounded search tree.

The loops over transactions are recursions on the transactions left. The
enumeration pushes a chunk before it recurses and pops it after, so its chunk
list is passed down and the threaded state is the candidates found so far and
the nodes left.

## Main definitions

* `BatchUtxoSelection`: The chunks of a batch, one per transaction.
* `maxTreeSelection`: The largest notes of one tree.
* `bestUnshieldSelection`: The best single transaction covering an amount.
* `bestPartialSelectionBelowAmount`: The largest one found below an amount.
* `maxBatchSelection`: The largest chunks, one after another.
* `greedyBatchedSelection`: The largest chunks until the rest fits.
* `selectBatchedUtxosWithLimit`: The selection the builder uses.
* `selectBatchedUtxoCandidatesWithLimit`: The selections a composite plan may
  try.
-/

namespace Railgun

/-- How many batches are kept as alternatives. -/
def maxAlternateBatchCandidates : Nat := 1024

/-- How many selections of a tree are kept. -/
def maxPartialSelectionCandidatesPerTree : Nat := 32

/-- Chunk sequences one candidate enumeration may expand. -/
def maxMultiTransactionSearchNodes : Nat := maxAlternateBatchCandidates

/-- A chunk for each transaction, and their total. -/
structure BatchUtxoSelection where
  chunks : List UtxoSelection
  total : U256
deriving DecidableEq, Repr

/-- The number of notes a batch spends. -/
def BatchUtxoSelection.inputCount (selection : BatchUtxoSelection) : Nat :=
  (selection.chunks.map (·.utxos.length)).sum

/-- Drop the notes stored at a selected position. -/
def removeSelectedUtxos (utxos selected : List Utxo) : List Utxo :=
  utxos.filter fun utxo =>
    !selected.any fun s => s.tree = utxo.tree ∧ s.position = utxo.position

/-- The outputs of the transaction at an index, before change. -/
def baseOutputCountAt (firstBaseOutputCount continuationBaseOutputCount index : Nat) : Nat :=
  if index = 0 then firstBaseOutputCount else continuationBaseOutputCount

/-- The fewest notes of one tree that cover an amount. -/
def bestTreeSelection (candidates : List Utxo) (amount : U256) (baseOutputCount : Nat) :
    Option UtxoSelection :=
  (List.range' 1 (maxInputsForBaseOutputs baseOutputCount)).findSome? fun inputCount =>
    SelectionSearch.run
      { candidates := sortSearchCandidates candidates, amount := amount,
        targetCount := inputCount, baseOutputCount := baseOutputCount }

/-- The best selection of one tree that covers the amount. -/
def bestUnshieldSelection (utxos : List Utxo) (token : Address) (amount : U256)
    (baseOutputCount : Nat) : Option UtxoSelection :=
  (treeGroups utxos token).foldl
    (fun best candidates =>
      keepBest (fun selection best => selection.isBetterForAmountThan best amount) best
        (bestTreeSelection candidates amount baseOutputCount))
    none

/-- The largest notes of a tree, unless they are worth nothing. -/
def maxTreeSelection (candidates : List Utxo) (maxInputCount : Nat) : Option UtxoSelection :=
  let candidates := (sortSearchCandidates candidates).take maxInputCount
  let total := noteTotal candidates
  if total = 0 then
    none
  else
    some { utxos := normalizeSelection candidates, total := total }

/-- The largest notes of one tree a transaction without change can spend. -/
def maxUnshieldSelectionWithOutputCount (utxos : List Utxo) (token : Address)
    (baseOutputCount : Nat) : Option UtxoSelection :=
  let maxInputCount := maxInputsForBaseOutputs baseOutputCount
  if maxInputCount = 0 then
    none
  else
    (treeGroups utxos token).foldl
      (fun best candidates =>
        keepBest UtxoSelection.isBetterMaxThan best (maxTreeSelection candidates maxInputCount))
      none

/-- Sets of notes of one tree below an amount, the largest first. -/
def partialTransactionSelectionCandidates (utxos : List Utxo) (token : Address) (amount : U256)
    (baseOutputCount : Nat) : List UtxoSelection :=
  -- Nothing worth spending is strictly below one.
  if amount ≤ 1 then
    []
  else
    let maxInputCount := maxInputsForBaseOutputs baseOutputCount
    if maxInputCount = 0 then
      []
    else
      let selections := (treeGroups utxos token).flatMap fun candidates =>
        (PartialSelectionSearch.run
          { candidates := sortSearchCandidates candidates, amount := amount,
            maxInputCount := maxInputCount,
            selectionLimit := maxPartialSelectionCandidatesPerTree }).selections
      (sortBy selectionMaxOrder selections).take maxAlternateBatchCandidates

/-- The largest selection that stays below the amount. -/
def bestPartialSelectionBelowAmount (utxos : List Utxo) (token : Address) (amount : U256)
    (baseOutputCount : Nat) : Option UtxoSelection :=
  (partialTransactionSelectionCandidates utxos token amount baseOutputCount).head?

/-- The largest of some totals. -/
def maxTotal (totals : List U256) : Option U256 :=
  totals.foldl (fun best total => some (best.elim total (U256.max · total))) none

/-- Largest total strictly below `limit` that at most `maxInputs` notes of one
    tree can spend. -/
def maxTreeTotalBelow (utxos : List Utxo) (token : Address) (limit : U256) (maxInputs : Nat) :
    Option U256 :=
  maxTotal ((treeGroups utxos token).filterMap fun candidates =>
    (PartialSelectionSearch.run
      { candidates := sortSearchCandidates candidates, amount := limit,
        maxInputCount := maxInputs, selectionLimit := 1 }).best.map (·.total))

/-- Spend the largest chunk, as long as there is one and a transaction is
    left. -/
def maxBatchLoop (token : Address) (firstBaseOutputCount continuationBaseOutputCount : Nat) :
    Nat → Nat → List Utxo → List UtxoSelection → U256 → List UtxoSelection × U256
  | 0, _, _, chunks, total => (chunks, total)
  | left + 1, index, remaining, chunks, total =>
    match maxUnshieldSelectionWithOutputCount remaining token
        (baseOutputCountAt firstBaseOutputCount continuationBaseOutputCount index) with
    | none => (chunks, total)
    | some selection =>
      if selection.total = 0 then
        (chunks, total)
      else
        maxBatchLoop token firstBaseOutputCount continuationBaseOutputCount left (index + 1)
          (removeSelectedUtxos remaining selection.utxos) (chunks ++ [selection])
          (total + selection.total)

/-- The largest batch. -/
def maxBatchSelection (utxos : List Utxo) (token : Address)
    (firstBaseOutputCount continuationBaseOutputCount maxTransactions : Nat) :
    Option BatchUtxoSelection :=
  let (chunks, total) := maxBatchLoop token firstBaseOutputCount continuationBaseOutputCount
    maxTransactions 0 utxos [] 0
  if chunks.isEmpty then none else some { chunks := chunks, total := total }

/-- The total a batch of so many transactions can spend. -/
def maxBatchSpendableWithLimit (utxos : List Utxo) (token : Address)
    (firstBaseOutputCount continuationBaseOutputCount maxTransactions : Nat) : U256 :=
  ((maxBatchSelection utxos token firstBaseOutputCount continuationBaseOutputCount
    maxTransactions).map (·.total)).getD 0

/-- The total a full batch can spend. -/
def maxBatchSpendable (utxos : List Utxo) (token : Address)
    (firstBaseOutputCount continuationBaseOutputCount : Nat) : U256 :=
  maxBatchSpendableWithLimit utxos token firstBaseOutputCount continuationBaseOutputCount
    maxBatchTransactions

/-- The most an unshield without a fee can spend. -/
def maxUnshieldSpendable (utxos : List Utxo) (token : Address) : U256 :=
  maxBatchSpendable utxos token 1 1

/-- The most a send without a fee can spend. -/
def maxSendSpendable (utxos : List Utxo) (token : Address) : U256 :=
  maxBatchSpendable utxos token 1 1

/-- Finish with a single transaction if one covers what is owed; otherwise
    spend a chunk that is strictly below it and go on. -/
def greedyLoop (token : Address) (firstBaseOutputCount continuationBaseOutputCount : Nat) :
    Nat → Nat → List Utxo → U256 → List UtxoSelection → U256 → Option BatchUtxoSelection
  | 0, _, _, _, _, _ => none
  | left + 1, index, remainingUtxos, remainingAmount, chunks, total =>
    let baseOutputCount :=
      baseOutputCountAt firstBaseOutputCount continuationBaseOutputCount index
    match bestUnshieldSelection remainingUtxos token remainingAmount baseOutputCount with
    | some selection =>
      some { chunks := chunks ++ [selection], total := total + selection.total }
    | none =>
      match maxUnshieldSelectionWithOutputCount remainingUtxos token baseOutputCount with
      | none => none
      | some selection =>
        if selection.total = 0 then
          none
        else
          -- A chunk has to leave something for the transactions after it.
          match (if selection.total < remainingAmount then some selection
            else bestPartialSelectionBelowAmount remainingUtxos token remainingAmount
              baseOutputCount) with
          | none => none
          | some selection =>
            greedyLoop token firstBaseOutputCount continuationBaseOutputCount left (index + 1)
              (removeSelectedUtxos remainingUtxos selection.utxos)
              (remainingAmount - selection.total) (chunks ++ [selection])
              (total + selection.total)

/-- A batch that covers the amount, one chunk after another. -/
def greedyBatchedSelection (utxos : List Utxo) (token : Address) (amount : U256)
    (firstBaseOutputCount continuationBaseOutputCount maxTransactions : Nat) :
    Option BatchUtxoSelection :=
  greedyLoop token firstBaseOutputCount continuationBaseOutputCount maxTransactions 0 utxos
    amount [] 0

/-- One transaction, or else a batch, or else all there is if that is allowed. -/
def selectBatchedUtxosWithLimit (utxos : List Utxo) (token : Address) (amount : U256)
    (spendUpTo : Bool) (firstBaseOutputCount continuationBaseOutputCount maxTransactions : Nat) :
    Except BuildError BatchUtxoSelection :=
  let maxSelection := maxBatchSelection utxos token firstBaseOutputCount
    continuationBaseOutputCount maxTransactions
  let maxSpendable := (maxSelection.map (·.total)).getD 0
  if amount = 0 then
    .error (.insufficientBalance maxSpendable)
  else
    match bestUnshieldSelection utxos token amount firstBaseOutputCount with
    | some selection => .ok { chunks := [selection], total := selection.total }
    | none =>
      match greedyBatchedSelection utxos token amount firstBaseOutputCount
          continuationBaseOutputCount maxTransactions with
      | some selection => .ok selection
      | none =>
        match maxSelection with
        | some selection =>
          -- Spending up to an amount only replaces a selection that does not exist.
          if spendUpTo ∧ selection.total ≠ 0 ∧ selection.total < amount then
            .ok selection
          else
            .error (.insufficientBalance maxSpendable)
        | none => .error (.insufficientBalance maxSpendable)

/-- The selection for a full batch. -/
def selectBatchedUtxos (utxos : List Utxo) (token : Address) (amount : U256) (spendUpTo : Bool)
    (firstBaseOutputCount continuationBaseOutputCount : Nat) :
    Except BuildError BatchUtxoSelection :=
  selectBatchedUtxosWithLimit utxos token amount spendUpTo firstBaseOutputCount
    continuationBaseOutputCount maxBatchTransactions

/-- Fewer inputs, then less excess over the amount, then smaller positions. -/
def selectionAmountOrder (amount : U256) : UtxoSelection → UtxoSelection → Ordering :=
  compareLex (compareOn (·.utxos.length))
    (compareLex (compareOn (·.total - amount)) (compareOn UtxoSelection.positionKey))

/-- The best covering set of exactly `inputCount` notes of every tree. -/
def unshieldSelectionCandidatesForInputCount (utxos : List Utxo) (token : Address)
    (amount : U256) (baseOutputCount inputCount : Nat) : List UtxoSelection :=
  sortBy (selectionAmountOrder amount) ((treeGroups utxos token).filterMap fun candidates =>
    SelectionSearch.run
      { candidates := sortSearchCandidates candidates, amount := amount,
        targetCount := inputCount, baseOutputCount := baseOutputCount })

/-- Collect the candidates of each input count until there are enough. -/
def singleCandidatesLoop (utxos : List Utxo) (token : Address) (amount : U256)
    (baseOutputCount : Nat) : List Nat → List UtxoSelection → List UtxoSelection
  | [], candidates => candidates
  | inputCount :: rest, candidates =>
    let candidates := candidates ++
      unshieldSelectionCandidatesForInputCount utxos token amount baseOutputCount inputCount
    if maxAlternateBatchCandidates ≤ candidates.length then
      candidates.take maxAlternateBatchCandidates
    else
      singleCandidatesLoop utxos token amount baseOutputCount rest candidates

/-- Selections for one transaction, those with fewer inputs first. -/
def singleTransactionSelectionCandidates (utxos : List Utxo) (token : Address) (amount : U256)
    (baseOutputCount : Nat) : List UtxoSelection :=
  singleCandidatesLoop utxos token amount baseOutputCount
    (List.range' 1 (maxInputsForBaseOutputs baseOutputCount)) []

/-- The positions of a batch, chunk by chunk. -/
def batchSelectionKey (selection : BatchUtxoSelection) : List (List (ℕ ×ₗ ℕ)) :=
  selection.chunks.map UtxoSelection.positionKey

/-- Add a batch unless one with the same positions is there. -/
def pushUniqueBatchCandidate (candidates : List BatchUtxoSelection)
    (candidate : BatchUtxoSelection) : List BatchUtxoSelection :=
  if candidates.any fun existing =>
      decide (batchSelectionKey existing = batchSelectionKey candidate) then
    candidates
  else
    candidates ++ [candidate]

/-- What the enumeration carries from one branch to the next. -/
structure MultiState where
  candidates : List BatchUtxoSelection
  nodesLeft : Nat

/-- Close the chunk sequence with each covering transaction, until there are
    enough candidates. -/
def closeLoop (chunks : List UtxoSelection) (selectedTotal : U256) :
    List UtxoSelection → List BatchUtxoSelection → List BatchUtxoSelection
  | [], candidates => candidates
  | selection :: rest, candidates =>
    let candidates := pushUniqueBatchCandidate candidates
      { chunks := chunks ++ [selection], total := selectedTotal + selection.total }
    if maxAlternateBatchCandidates ≤ candidates.length then
      candidates
    else
      closeLoop chunks selectedTotal rest candidates

/-- Extend the chunk sequence with each chunk below what is owed, until there
    are enough candidates or no nodes are left. -/
def extendLoop (utxos : List Utxo) (remainingAmount selectedTotal : U256)
    (chunks : List UtxoSelection)
    (descend : List Utxo → U256 → U256 → List UtxoSelection → MultiState → MultiState) :
    List UtxoSelection → MultiState → MultiState
  | [], st => st
  | selection :: rest, st =>
    let st := descend (removeSelectedUtxos utxos selection.utxos)
      (remainingAmount - selection.total) (selectedTotal + selection.total)
      (chunks ++ [selection]) st
    if maxAlternateBatchCandidates ≤ st.candidates.length ∨ st.nodesLeft = 0 then
      st
    else
      extendLoop utxos remainingAmount selectedTotal chunks descend rest st

/-- Enumerate chunk sequences, with so many transactions left to add. -/
def collectMultiTransactionSelectionCandidates (token : Address)
    (firstBaseOutputCount continuationBaseOutputCount : Nat) :
    Nat → List Utxo → U256 → U256 → List UtxoSelection → MultiState → MultiState
  | 0, _, _, _, _, st => st
  | left + 1, utxos, remainingAmount, selectedTotal, chunks, st =>
    if maxAlternateBatchCandidates ≤ st.candidates.length ∨ st.nodesLeft = 0 then
      st
    else
      let baseOutputCount :=
        if chunks.isEmpty then firstBaseOutputCount else continuationBaseOutputCount
      let candidates := closeLoop chunks selectedTotal
        (singleTransactionSelectionCandidates utxos token remainingAmount baseOutputCount)
        st.candidates
      let st : MultiState := { candidates := candidates, nodesLeft := st.nodesLeft - 1 }
      -- The source returns from inside the loop when it has filled the list,
      -- and after it when this chunk was the last one allowed.
      if maxAlternateBatchCandidates ≤ st.candidates.length ∨ left = 0 then
        st
      else
        extendLoop utxos remainingAmount selectedTotal chunks
          (collectMultiTransactionSelectionCandidates token firstBaseOutputCount
            continuationBaseOutputCount left)
          (partialTransactionSelectionCandidates utxos token remainingAmount baseOutputCount) st

/-- The batches of several transactions found for an amount. -/
def multiTransactionSelectionCandidates (utxos : List Utxo) (token : Address) (amount : U256)
    (firstBaseOutputCount continuationBaseOutputCount maxTransactions : Nat) :
    List BatchUtxoSelection :=
  if maxTransactions < 2 then
    []
  else
    (collectMultiTransactionSelectionCandidates token firstBaseOutputCount
      continuationBaseOutputCount maxTransactions utxos amount 0 []
      { candidates := [], nodesLeft := maxMultiTransactionSearchNodes }).candidates

/-- All batches that are considered, the preferred first. -/
def selectBatchedUtxoCandidatesWithLimit (utxos : List Utxo) (token : Address) (amount : U256)
    (spendUpTo : Bool) (firstBaseOutputCount continuationBaseOutputCount maxTransactions : Nat) :
    Except BuildError (List BatchUtxoSelection) := do
  let primary ← selectBatchedUtxosWithLimit utxos token amount spendUpTo firstBaseOutputCount
    continuationBaseOutputCount maxTransactions
  -- With no transaction left the alternatives are not looked for.
  if maxTransactions = 0 then
    return [primary]
  let candidates := (singleTransactionSelectionCandidates utxos token amount
      firstBaseOutputCount).foldl
    (fun candidates selection => pushUniqueBatchCandidate candidates
      { chunks := [selection], total := selection.total }) [primary]
  return (multiTransactionSelectionCandidates utxos token amount firstBaseOutputCount
      continuationBaseOutputCount maxTransactions).foldl pushUniqueBatchCandidate candidates

end Railgun
