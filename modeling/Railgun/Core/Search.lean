import Railgun.Core.Types
import Railgun.Lib.KeepBest
import Mathlib.Data.List.Sort
import Mathlib.Data.List.Lex

/-!
# Note Searches Within One Tree

A transaction spends notes of one tree only, so every selection starts from a
search over the notes of a token in one tree, sorted by descending value.

`SelectionSearch` looks for a fixed number of notes whose total covers an
amount; `PartialSelectionSearch` looks for at most so many notes whose total
stays strictly below one. Both are depth-first over increasing index lists and
both stop after a fixed number of examined candidates.

The source keeps the current index list in the search object, pushing before a
descent and popping after it. The model passes the list down instead, so the
state a search threads is what survives a descent: the best selection found,
the recorded selections and the visits left. For the same reason the partial
search recurses on the free slots, `max_input_count` less the length of the
list, and both loops take the recursive call as an argument.

## Main definitions

* `tokenUtxosByTree`: The nonzero notes of a token, grouped by tree.
* `sortSearchCandidates`: Descending value, then tree, then position.
* `noteTotal`: The wrapping sum of the notes' values.
* `UtxoSelection`: The inputs of one transaction and their total.
* `SelectionSearch`: The search for a covering set of notes.
* `PartialSelectionSearch`: The search for sets of notes below an amount.
-/

namespace Railgun

/-- A stable sort: equal elements keep their order. -/
def sortBy {α : Type} (cmp : α → α → Ordering) (l : List α) : List α :=
  l.insertionSort (fun a b => (cmp a b).isLE = true)

/-- The notes one search may examine before it keeps what it has found. -/
def maxSelectionSearchVisits : Nat := 2 ^ maxCircuitInputs

/-- Notes that are spent together, and what they are worth. -/
structure UtxoSelection where
  utxos : List Utxo
  total : U256
deriving DecidableEq, Repr

/-- The positions of a selection, in its order. -/
def UtxoSelection.positionKey (selection : UtxoSelection) : List (ℕ ×ₗ ℕ) :=
  selection.utxos.map fun utxo => toLex (utxo.tree, utxo.position)

/-- Fewer inputs, then less excess over the amount, then smaller positions. -/
def UtxoSelection.isBetterForAmountThan (selection best : UtxoSelection) (amount : U256) :
    Bool :=
  match compare selection.utxos.length best.utxos.length with
  | .lt => true
  | .gt => false
  | .eq =>
    match compare (selection.total - amount) (best.total - amount) with
    | .lt => true
    | .gt => false
    | .eq => selection.positionKey < best.positionKey

/-- Larger total, then fewer inputs, then smaller positions. -/
def UtxoSelection.isBetterMaxThan (selection best : UtxoSelection) : Bool :=
  match compare selection.total best.total with
  | .gt => true
  | .lt => false
  | .eq =>
    match compare selection.utxos.length best.utxos.length with
    | .lt => true
    | .gt => false
    | .eq => selection.positionKey < best.positionKey

/-- The notes of a token by their tree. -/
def tokenUtxosByTree (utxos : List Utxo) (token : Address) : BTreeMap Nat (List Utxo) :=
  (utxos.filter fun utxo =>
      utxo.note.tokenHash = tokenHash token ∧ utxo.note.value ≠ 0).foldl
    (fun byTree utxo => byTree.insert utxo.tree ((byTree[utxo.tree]?).getD [] ++ [utxo])) ∅

/-- The groups of `tokenUtxosByTree`, in tree order. -/
def treeGroups (utxos : List Utxo) (token : Address) : List (List Utxo) :=
  (tokenUtxosByTree utxos token).toList.map Prod.snd

/-- Descending value, then ascending tree and position. -/
def searchOrder : Utxo → Utxo → Ordering :=
  compareLex (fun a b => compare b.note.value a.note.value)
    (compareLex (compareOn (·.tree)) (compareOn (·.position)))

/-- The order in which a search tries the notes of a tree. -/
def sortSearchCandidates (candidates : List Utxo) : List Utxo := sortBy searchOrder candidates

/-- The order in which a selection lists its notes. -/
def normalizeSelection (utxos : List Utxo) : List Utxo :=
  sortBy (compareLex (compareOn (·.tree)) (compareOn (·.position))) utxos

/-- What notes are worth. The sum wraps. -/
def noteTotal (utxos : List Utxo) : U256 :=
  utxos.foldl (fun sum utxo => sum + utxo.note.value) 0

/-- The largest total of `remaining` notes from `start` on. -/
def maxPossibleFrom (candidates : List Utxo) (start remaining : Nat) : U256 :=
  noteTotal ((candidates.drop start).take remaining)

/-- The smallest total of `remaining` notes. -/
def minPossibleFrom (candidates : List Utxo) (remaining : Nat) : U256 :=
  noteTotal (candidates.drop (candidates.length - remaining))

/-- The value of the candidate at an index. The searches only ask below the
    number of candidates. -/
def valueAt (candidates : List Utxo) (index : Nat) : U256 :=
  ((candidates[index]?).map (·.note.value)).getD 0

/-- The candidates an index list stands for. -/
def pick (candidates : List Utxo) (selected : List Nat) : List Utxo :=
  selected.filterMap (candidates[·]?)

/-- The inputs a transaction may have beside so many outputs and no change. -/
def maxInputsForBaseOutputs (baseOutputCount : Nat) : Nat :=
  let signatureRoom := maxSignatureInputs - (2 + baseOutputCount)
  if signatureRoom < maxCircuitInputs then signatureRoom else maxCircuitInputs

/-- What a search for a cover is given. -/
structure SelectionSearch where
  candidates : List Utxo
  amount : U256
  targetCount : Nat
  baseOutputCount : Nat

namespace SelectionSearch

/-- What a search carries from one descent to the next. -/
structure State where
  best : Option UtxoSelection
  visitsLeft : Nat
deriving DecidableEq

/-- Whether a change output would no longer fit the signature. -/
def exactOnly (s : SelectionSearch) : Bool :=
  decide (2 + s.targetCount + s.baseOutputCount + 1 > maxSignatureInputs)

/-- Record a complete index list if it covers the amount and its outputs fit
    the signature. -/
def recordIfValid (s : SelectionSearch) (total : U256) (selected : List Nat) (st : State) :
    State :=
  if total < s.amount then
    st
  else
    -- An excess needs a change output, which takes part of the signature.
    let outputCount := s.baseOutputCount + (if s.amount < total then 1 else 0)
    if 2 + s.targetCount + outputCount > maxSignatureInputs then
      st
    else
      let selection : UtxoSelection :=
        { utxos := normalizeSelection (pick s.candidates selected), total := total }
      { st with
        best := keepBest (fun selection best => selection.isBetterForAmountThan best s.amount)
          st.best (some selection) }

/-- One level of the search: try each index as the next note. Equal values are
    tried once, at their first index. -/
def searchLoop (s : SelectionSearch) (start : Nat) (total : U256) (selected : List Nat)
    (descend : Nat → U256 → List Nat → State → State) : List Nat → State → State
  | [], st => st
  | index :: rest, st =>
    -- The list is sorted, so a note of the same value would only repeat the branch before it.
    if start < index ∧ valueAt s.candidates index = valueAt s.candidates (index - 1) then
      s.searchLoop start total selected descend rest st
    else if st.visitsLeft = 0 then
      st
    else
      let st : State := { st with visitsLeft := st.visitsLeft - 1 }
      let nextTotal := total + valueAt s.candidates index
      -- Without room for change an excess rules the note out; with room, a best that is no larger.
      if s.exactOnly ∧ s.amount < nextTotal then
        s.searchLoop start total selected descend rest st
      else if ¬ s.exactOnly ∧ st.best.any (fun best => best.total ≤ nextTotal) then
        s.searchLoop start total selected descend rest st
      else
        s.searchLoop start total selected descend rest
          (descend (index + 1) nextTotal (selected ++ [index]) st)

/-- Depth-first over increasing index lists, `remaining` notes still to
    choose. -/
def search (s : SelectionSearch) : Nat → Nat → U256 → List Nat → State → State
  | 0, _, total, selected, st => s.recordIfValid total selected st
  | remaining + 1, start, total, selected, st =>
    -- Too few notes are left.
    if s.candidates.length - start < remaining + 1 then
      st
    -- Even the smallest notes exceed an amount that has to be met exactly.
    else if s.exactOnly ∧ s.amount < total + minPossibleFrom s.candidates (remaining + 1) then
      st
    else if ¬ s.exactOnly ∧ st.best.any (fun best => best.total ≤ total) then
      st
    -- Even the largest notes do not cover the amount.
    else if total + maxPossibleFrom s.candidates start (remaining + 1) < s.amount then
      st
    else if ¬ s.exactOnly ∧ st.best.any (fun best =>
        best.total ≤ total + minPossibleFrom s.candidates (remaining + 1)) then
      st
    else
      s.searchLoop start total selected (s.search remaining)
        (List.range' start (s.candidates.length - (remaining + 1) + 1 - start)) st

/-- The best selection a whole search finds. -/
def run (s : SelectionSearch) : Option UtxoSelection :=
  (s.search s.targetCount 0 0 [] { best := none, visitsLeft := maxSelectionSearchVisits }).best

end SelectionSearch

/-- Larger total, then fewer inputs, then smaller positions. -/
def selectionMaxOrder : UtxoSelection → UtxoSelection → Ordering :=
  compareLex (fun a b => compare b.total a.total)
    (compareLex (compareOn (·.utxos.length)) (compareOn UtxoSelection.positionKey))

/-- Keep the best `limit` selections with distinct positions. -/
def pushUniqueSelectionCandidate (candidates : List UtxoSelection) (candidate : UtxoSelection)
    (limit : Nat) : List UtxoSelection :=
  -- A full list only admits a candidate that sorts before its last entry.
  if limit ≤ candidates.length ∧
      candidates.getLast?.any (fun last => selectionMaxOrder candidate last ≠ .lt) then
    candidates
  else if limit = 0 ∨
      candidates.any (fun existing => existing.positionKey = candidate.positionKey) then
    candidates
  else
    (sortBy selectionMaxOrder (candidates ++ [candidate])).take limit

/-- What a search below an amount is given. -/
structure PartialSelectionSearch where
  candidates : List Utxo
  amount : U256
  maxInputCount : Nat
  selectionLimit : Nat

namespace PartialSelectionSearch

/-- What a search carries from one descent to the next. -/
structure State where
  best : Option UtxoSelection
  selections : List UtxoSelection
  visitsLeft : Nat
deriving DecidableEq

/-- Record an index list, whatever its length. -/
def record (s : PartialSelectionSearch) (total : U256) (selected : List Nat) (st : State) :
    State :=
  let selection : UtxoSelection :=
    { utxos := normalizeSelection (pick s.candidates selected), total := total }
  { st with
    best := keepBest UtxoSelection.isBetterMaxThan st.best (some selection)
    selections := pushUniqueSelectionCandidate st.selections selection s.selectionLimit }

/-- One level of the search: record each longer list that stays below the
    amount, and descend from it. -/
def searchLoop (s : PartialSelectionSearch) (total : U256) (selected : List Nat)
    (descend : Nat → U256 → List Nat → State → State) : List Nat → State → State
  | [], st => st
  | index :: rest, st =>
    if st.visitsLeft = 0 then
      st
    else
      let st : State := { st with visitsLeft := st.visitsLeft - 1 }
      let nextTotal := total + valueAt s.candidates index
      -- The note is skipped, not the rest: later notes are smaller.
      if s.amount ≤ nextTotal then
        s.searchLoop total selected descend rest st
      else
        s.searchLoop total selected descend rest
          (descend (index + 1) nextTotal (selected ++ [index])
            (s.record nextTotal (selected ++ [index]) st))

/-- Depth-first over increasing index lists, with `slots` notes still
    allowed. -/
def search (s : PartialSelectionSearch) : Nat → Nat → U256 → List Nat → State → State
  | 0, _, _, _, st => st
  | slots + 1, start, total, selected, st =>
    -- No note is left to add.
    if s.candidates.length ≤ start then
      st
    -- Only the best is wanted, and no continuation beats it.
    else if s.selectionLimit ≤ 1 ∧ st.best.any (fun best =>
        total + maxPossibleFrom s.candidates start (slots + 1) ≤ best.total) then
      st
    -- The list is full, and every continuation would sort behind its last entry.
    else if 1 < s.selectionLimit ∧ s.selectionLimit ≤ st.selections.length ∧
        st.selections.getLast?.any (fun selection =>
          total + maxPossibleFrom s.candidates start (slots + 1) < selection.total) then
      st
    else
      s.searchLoop total selected (s.search slots)
        (List.range' start (s.candidates.length - start)) st

/-- Everything a whole search has found. -/
def run (s : PartialSelectionSearch) : State :=
  s.search s.maxInputCount 0 0 []
    { best := none, selections := [], visitsLeft := maxSelectionSearchVisits }

end PartialSelectionSearch

end Railgun
