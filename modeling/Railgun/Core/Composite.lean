import Railgun.Core.Selection

/-!
# Selections for Several Legs

A composite request has several legs that share one wallet and one transaction
limit, and at most one of them also pays the broadcaster fee. The search tries,
leg by leg, every placement of the fee and every candidate selection, removes
the notes a candidate uses, and backtracks when a later leg fails.

The source mutates a stack of selections and a marker for the fee leg, and
undoes both after a failed branch. The model threads them as a state that every
call returns, failed calls included, so that what a failing branch leaves
behind can be stated. The two loops of a call take the recursive call as an
argument.

## Main definitions

* `CompositeState`: The selections made so far and the leg that pays the fee.
* `selectCompositeLegSelectionsWithPolicy`: The selections for all legs.
-/

namespace Railgun

/-- The selections of the legs so far, and the leg that pays the fee. -/
structure CompositeState where
  selections : List BatchUtxoSelection
  embeddedFeeLegIndex : Option Nat
deriving DecidableEq, Repr

/-- The error to keep when a second one occurs: too many transactions before
    anything, then the larger spendable balance. -/
def retainPreferredSelectionError : Option BuildError → BuildError → BuildError
  | none, candidate => candidate
  | some _, .tooManyBatchTransactions requested max => .tooManyBatchTransactions requested max
  | some (.insufficientBalance currentMax), .insufficientBalance candidateMax =>
    .insufficientBalance (U256.max currentMax candidateMax)
  | some (.tooManyBatchTransactions requested max), .insufficientBalance _ =>
    .tooManyBatchTransactions requested max
  | some _, candidate => candidate

/-- The fee placements to try for a leg: with the fee first, as long as no
    earlier leg pays it and the tokens agree. -/
def legFeeOptions (leg : CompositeUnshieldLeg) (embeddedFee : Option BroadcasterFeeOutput)
    (embeddedFeeLegIndex : Option Nat) : List (Option BroadcasterFeeOutput) :=
  match embeddedFee with
  | none => [none]
  | some fee =>
    if embeddedFeeLegIndex.isNone ∧ leg.tokenAddress = fee.tokenAddress then
      [some fee, none]
    else
      [none]

/-- Drop the notes of every chunk of a batch. -/
def removeBatchUtxos (utxos : List Utxo) (selection : BatchUtxoSelection) : List Utxo :=
  selection.chunks.foldl (fun utxos chunk => removeSelectedUtxos utxos chunk.utxos) utxos

/-- Try the candidates for a leg one after another. `.ok` means that a
    candidate led to a complete selection, `.error` that all of them failed;
    then the last error is returned and the state is undone. -/
def compositeCandidateLoop (utxos : List Utxo) (legIndex usedTransactionCount : Nat)
    (legFee : Option BroadcasterFeeOutput)
    (descend : List Utxo → Nat → CompositeState → Except BuildError Unit × CompositeState) :
    List BatchUtxoSelection → Option BuildError → CompositeState →
      Except (Option BuildError) Unit × CompositeState
  | [], lastError, st => (.error lastError, st)
  | candidate :: rest, lastError, st =>
    let previousFeeLegIndex := st.embeddedFeeLegIndex
    match descend (removeBatchUtxos utxos candidate)
        (usedTransactionCount + candidate.chunks.length)
        { selections := st.selections ++ [candidate]
          embeddedFeeLegIndex := if legFee.isSome then some legIndex else previousFeeLegIndex } with
    | (.ok (), st) => (.ok (), st)
    | (.error error, st) =>
      compositeCandidateLoop utxos legIndex usedTransactionCount legFee descend rest
        (some (retainPreferredSelectionError lastError error))
        { selections := st.selections.dropLast, embeddedFeeLegIndex := previousFeeLegIndex }

/-- The error of a leg without candidates: if only the transactions left are
    too few, it says so. -/
def compositeSelectionError (utxos : List Utxo) (leg : CompositeUnshieldLeg)
    (targetAmount : U256) (spendUpTo : Bool)
    (firstBaseOutputCount remainingSlots usedTransactionCount : Nat) (error : BuildError) :
    BuildError :=
  if remainingSlots < maxBatchTransactions then
    match selectBatchedUtxosWithLimit utxos leg.tokenAddress targetAmount spendUpTo
        firstBaseOutputCount 1 maxBatchTransactions with
    | .ok required =>
      if remainingSlots < required.chunks.length then
        .tooManyBatchTransactions (usedTransactionCount + required.chunks.length)
          maxBatchTransactions
      else
        error
    | .error _ => error
  else
    error

/-- Try the fee placements for a leg one after another. -/
def compositeFeeLoop (utxos : List Utxo) (leg : CompositeUnshieldLeg) (spendUpTo : Bool)
    (legIndex remainingSlots usedTransactionCount : Nat)
    (descend : List Utxo → Nat → CompositeState → Except BuildError Unit × CompositeState) :
    List (Option BroadcasterFeeOutput) → Option BuildError → CompositeState →
      Except BuildError Unit × CompositeState
  | [], lastError, st => (.error (lastError.getD (.insufficientBalance 0)), st)
  | legFee :: options, lastError, st =>
    let firstBaseOutputCount := 1 + (if legFee.isSome then 1 else 0)
    let targetAmount := leg.amount + feeValue legFee
    match selectBatchedUtxoCandidatesWithLimit utxos leg.tokenAddress targetAmount spendUpTo
        firstBaseOutputCount 1 remainingSlots with
    | .error error =>
      compositeFeeLoop utxos leg spendUpTo legIndex remainingSlots usedTransactionCount descend
        options
        (some (retainPreferredSelectionError lastError
          (compositeSelectionError utxos leg targetAmount spendUpTo firstBaseOutputCount
            remainingSlots usedTransactionCount error))) st
    | .ok candidates =>
      match compositeCandidateLoop utxos legIndex usedTransactionCount legFee descend candidates
          lastError st with
      | (.ok (), st) => (.ok (), st)
      | (.error lastError, st) =>
        compositeFeeLoop utxos leg spendUpTo legIndex remainingSlots usedTransactionCount descend
          options lastError st

/-- Select for the legs from `legIndex` on. -/
def selectCompositeLegSelectionsInner (embeddedFee : Option BroadcasterFeeOutput)
    (spendUpToByLeg : List Bool) :
    List CompositeUnshieldLeg → Nat → List Utxo → Nat → CompositeState →
      Except BuildError Unit × CompositeState
  | [], _, _, _, st =>
    if embeddedFee.isSome ∧ st.embeddedFeeLegIndex.isNone then
      (.error (.insufficientBalance 0), st)
    else
      (.ok (), st)
  | leg :: legs, legIndex, utxos, usedTransactionCount, st =>
    let spendUpTo := (spendUpToByLeg[legIndex]?).getD false
    let remainingSlots := maxBatchTransactions - usedTransactionCount
    if remainingSlots = 0 then
      (.error (.tooManyBatchTransactions (usedTransactionCount + 1) maxBatchTransactions), st)
    else
      compositeFeeLoop utxos leg spendUpTo legIndex remainingSlots usedTransactionCount
        (selectCompositeLegSelectionsInner embeddedFee spendUpToByLeg legs (legIndex + 1))
        (legFeeOptions leg embeddedFee st.embeddedFeeLegIndex) none st

/-- A selection for every leg, and the leg that pays the fee. -/
def selectCompositeLegSelectionsWithPolicy (utxos : List Utxo)
    (legs : List CompositeUnshieldLeg) (embeddedFee : Option BroadcasterFeeOutput)
    (spendUpToByLeg : List Bool) (usedTransactionCount : Nat) :
    Except BuildError (List BatchUtxoSelection × Option Nat) :=
  match selectCompositeLegSelectionsInner embeddedFee spendUpToByLeg legs 0 utxos
      usedTransactionCount { selections := [], embeddedFeeLegIndex := none } with
  | (.ok (), st) => .ok (st.selections, st.embeddedFeeLegIndex)
  | (.error error, _) => .error error

end Railgun
