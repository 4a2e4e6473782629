import Railgun.Core.Mixed

/-!
# Sizing a Swap

A private swap unshields the sell token to an executor in a hook of the order,
and the order's app data document has to fit a byte budget. Its length depends
on the numbers of inputs and outputs of the hook's transactions, so an amount is
sized by previewing the mixed action that unshields it.

When an amount does not fit, the largest one that does is searched for: first
the maximum spends over one to eight transactions and then, where the next
transaction does not fit whole, that transaction with fewer inputs. The loops
break, continue and return early; the model writes each of them as a recursion
over the list of values its variable takes.

ABI encoding and JSON serialization are libraries of the source and parameters
here. The placeholder transactions the sizes are estimated from hold zeros only,
so the model keeps the lengths of their lists.

## Main definitions

* `sizeSwapPreHook`: The preview of an amount and its document's length.
-/

namespace Railgun

/-- The calls made after a swap. -/
structure SwapPostHookTemplate where
  calls : List Call
  gasLimit : UInt64
deriving DecidableEq, Repr

/-- The parts of the app data that do not depend on the selection. -/
structure SwapAppDataTemplate where
  appCode : String
  preHookGasLimit : UInt64
  postHook : Option SwapPostHookTemplate
deriving DecidableEq, Repr

/-- One hook call of an order. -/
structure AppDataHook where
  callData : List UInt8
  gasLimit : UInt64
  target : Address
deriving DecidableEq, Repr

/-- The hooks of an order. -/
structure AppDataHooks where
  post : List AppDataHook
  pre : List AppDataHook
  version : String
deriving DecidableEq, Repr

/-- The app data document of an order. -/
structure AppData where
  appCode : String
  hooks : AppDataHooks
  version : String
deriving DecidableEq, Repr

/-- The version of the document. -/
def appDataVersion : String := "1.1.0"

/-- The version of its hooks. -/
def appDataHooksVersion : String := "0.1.0"

/-- A document that carries only hooks. -/
def AppData.ofHooks (appCode : String) (pre post : List AppDataHook) : AppData where
  appCode := appCode
  hooks := { post := post, pre := pre, version := appDataHooksVersion }
  version := appDataVersion

/-- The numbers of nullifiers, commitments and ciphertexts of a transaction
    filled with zeros. -/
structure PlaceholderTransaction where
  nullifiers : Nat
  commitments : Nat
  ciphertexts : Nat
deriving DecidableEq, Repr

/-- An unshield output has no ciphertext. -/
def placeholderTransaction (shape : TransactionShape) : PlaceholderTransaction where
  nullifiers := shape.inputCount
  commitments := shape.outputCount
  ciphertexts := shape.outputCount - (if shape.hasUnshield then 1 else 0)

/-- The calls of the pre-hook. -/
structure RelayAdapt7702ActionData where
  requireSuccess : Bool
  minGasLimit : U256
  calls : List Call
deriving DecidableEq, Repr

/-- The encodings of the two hook calls and of the document. -/
structure HookEncoding where
  execute : List PlaceholderTransaction → RelayAdapt7702ActionData → U256 → List UInt8 →
    List UInt8
  multicall : Bool → List Call → U256 → List UInt8 → List UInt8
  document : AppData → Except CowError (List UInt8)

/-- Length of the owner signature both hooks carry. -/
def executorSignatureLen : Nat := 65

/-- The length of the document for a swap whose pre-hook spends such
    transactions. -/
def estimateSwapAppDataLen (encoding : HookEncoding) (template : SwapAppDataTemplate)
    (executor : Address) (preHookCalls : List Call) (transactions : List TransactionShape) :
    Except BuildError Nat := do
  let signature := List.replicate executorSignatureLen 0
  let preHook := encoding.execute (transactions.map placeholderTransaction)
    { requireSuccess := true, minGasLimit := 0, calls := preHookCalls } 0 signature
  let postHooks := template.postHook.toList.map fun postHook =>
    { callData := encoding.multicall true postHook.calls 0 signature
      gasLimit := postHook.gasLimit
      target := executor }
  let appData := AppData.ofHooks template.appCode
    [{ callData := preHook, gasLimit := template.preHookGasLimit, target := executor }] postHooks
  let document ← (encoding.document appData).mapError .appData
  return document.length

/-- An amount with the selection its plan will use and the estimated length of
    its document. -/
structure SwapPreHookSize where
  amount : U256
  preview : MixedPrivateActionPreview
  appDataLen : Nat
deriving DecidableEq, Repr

/-- Whether an amount fits. If it does not, `largest` is the largest amount
    found that does and is below it. -/
inductive SwapAmountCheck where
  | fits (size : SwapPreHookSize)
  | tooLarge (largest : SwapPreHookSize)
deriving DecidableEq, Repr

/-- A swap is one executor unshield to the executor and nothing else. -/
def swapLeg (request : MixedPrivateActionRequest) :
    Except BuildError (Address × CompositeUnshieldLeg) :=
  match request.adapter with
  | some (.executor context) =>
    match request.publicUnshields with
    | [leg] =>
      if leg.recipient = .relayAdapt ∧ request.privateSends = [] ∧
          request.relayActions = none ∧ request.rebuild = none then
        .ok (context.executor, leg)
      else
        .error .invalidSwapRequest
    | _ => .error .invalidSwapRequest
  | _ => .error .invalidExecutorContext

/-- The request with another amount of its first unshield. -/
def MixedPrivateActionRequest.withAmount (request : MixedPrivateActionRequest) (amount : U256) :
    MixedPrivateActionRequest :=
  { request with
    publicUnshields := request.publicUnshields.modifyHead fun leg => { leg with amount := amount } }

section Sizing

variable (encoding : HookEncoding) (builder : TransactionBuilder) (utxos : List Utxo)
  (request : MixedPrivateActionRequest) (template : SwapAppDataTemplate) (byteBudget : Nat)

/-- How large the document becomes with an amount. -/
def TransactionBuilder.sizeSwapPreHook (amount : U256) : Except BuildError SwapPreHookSize := do
  let (executor, _) ← swapLeg request
  let request := request.withAmount amount
  let preview ← builder.previewMixedPrivateActionPlan utxos request
  let appDataLen ← estimateSwapAppDataLen encoding template executor request.executorCalls
    preview.transactions
  return { amount := amount, preview := preview, appDataLen := appDataLen }

/-- A transaction that unshields without change. -/
def fullShape (inputCount : Nat) : TransactionShape :=
  { inputCount := inputCount, outputCount := 1, hasUnshield := true }

/-- The notes the full chunks leave. -/
def remainingUtxos (fullChunks : List UtxoSelection) : List Utxo :=
  fullChunks.foldl (fun remaining chunk => removeSelectedUtxos remaining chunk.utxos) utxos

/-- The values of a token's notes by tree, each tree's largest first. -/
def valuesByTree (remaining : List Utxo) (token : Address) : List (List U256) :=
  (treeGroups remaining token).map fun treeUtxos =>
    sortBy (fun a b => compare b a) (treeUtxos.map (·.note.value))

/-- The total the next transaction may spend with so many inputs: the largest
    notes of one tree or, with a bound, the largest total found below it. -/
def nextTotal (remaining : List Utxo) (token : Address) (below : Option U256)
    (fullTotal : U256) (inputCount : Nat) : Option U256 :=
  match below with
  | none => some ((maxTotal ((valuesByTree remaining token).map fun values =>
    (values.take inputCount).foldl (· + ·) 0)).getD 0)
  | some below =>
    maxTreeTotalBelow remaining token (U256.saturatingSub below fullTotal) inputCount

/-- Try the next transaction with each number of inputs. An amount that fits
    ends the search; otherwise the shortest document so far is returned. -/
def TransactionBuilder.fewerInputsLoop (executor : Address) (token : Address)
    (below : Option U256) (fullChunks : List UtxoSelection) (fullTotal : U256) :
    List Nat → Nat → Except BuildError (Option SwapPreHookSize × Nat)
  | [], smallestLen => .ok (none, smallestLen)
  | inputCount :: rest, smallestLen => do
    let len ← estimateSwapAppDataLen encoding template executor request.executorCalls
      (fullChunks.map (fun chunk => fullShape chunk.utxos.length) ++ [fullShape inputCount])
    if byteBudget < len then
      fewerInputsLoop executor token below fullChunks fullTotal rest len
    else
      match nextTotal (remainingUtxos utxos fullChunks) token below fullTotal inputCount with
      | none => fewerInputsLoop executor token below fullChunks fullTotal rest smallestLen
      | some nextTotal => do
        let size ← builder.sizeSwapPreHook encoding utxos request template (fullTotal + nextTotal)
        if size.appDataLen ≤ byteBudget then
          return (some size, smallestLen)
        else
          fewerInputsLoop executor token below fullChunks fullTotal rest size.appDataLen

/-- What the search answers after its loop. -/
def largestOrTooLarge (largest : Option SwapPreHookSize) (smallestLen : Nat) :
    Except BuildError SwapPreHookSize :=
  match largest with
  | some size => .ok size
  | none => .error (.swapAppDataTooLarge smallestLen byteBudget)

/-- The last chunk of a selection of so many. -/
def nextChunk (selection : BatchUtxoSelection) (limit : Nat) : UtxoSelection :=
  selection.chunks.getD (limit - 1) { utxos := [], total := 0 }

/-- Try the maximum spend of each number of transactions while it fits, and the
    first that does not with fewer inputs. -/
def TransactionBuilder.maxSwapLoop (executor : Address) (token : Address)
    (below : Option U256) :
    List Nat → Option SwapPreHookSize → Nat → Except BuildError SwapPreHookSize
  | [], largest, smallestLen => largestOrTooLarge byteBudget largest smallestLen
  | limit :: rest, largest, smallestLen =>
    match maxBatchSelection utxos token 1 1 limit with
    | none => .error (.insufficientBalance 0)
    | some selection =>
      if selection.chunks.length < limit then
        -- No notes remain for another transaction.
        largestOrTooLarge byteBudget largest smallestLen
      else do
        let size ← builder.sizeSwapPreHook encoding utxos request template selection.total
        let fitsBudget := decide (size.appDataLen ≤ byteBudget)
        if fitsBudget ∧ below.all (fun below => selection.total < below) then
          maxSwapLoop executor token below rest (some size) smallestLen
        else
          let smallestLen := if fitsBudget then smallestLen else size.appDataLen
          let fullChunks := selection.chunks.take (limit - 1)
          let fullTotal := selection.total - (nextChunk selection limit).total
          let wholeInputCount := (nextChunk selection limit).utxos.length
          -- A transaction rejected only by the bound fits with all its inputs.
          let firstInputCount := if fitsBudget then wholeInputCount else wholeInputCount - 1
          let (found, smallestLen) ← builder.fewerInputsLoop encoding utxos request template
            byteBudget executor token below fullChunks fullTotal
            (List.range' 1 firstInputCount).reverse smallestLen
          match found with
          | some size => return size
          | none => largestOrTooLarge byteBudget largest smallestLen

/-- The largest amount found that fits the batch limit and the budget and stays
    below a bound. -/
def TransactionBuilder.maxSwapPreHookBelow (below : Option U256) (overBudgetLen : Nat) :
    Except BuildError SwapPreHookSize := do
  let (executor, leg) ← swapLeg request
  builder.maxSwapLoop encoding utxos request template byteBudget executor leg.tokenAddress below
    (List.range' 1 maxBatchTransactions) none overBudgetLen

/-- An entered amount that was not selectable is reported as such when nothing
    below it was selectable either. -/
def unselectableError : BuildError → Option BuildError → BuildError
  | .swapAppDataTooLarge 0 _, some unselectable => unselectable
  | error, _ => error

/-- Whether the entered amount fits and, if it does not, the largest below it
    that does. -/
def TransactionBuilder.checkSwapPreHook : Except BuildError SwapAmountCheck := do
  let (_, leg) ← swapLeg request
  let search := fun (overBudgetLen : Nat) (unselectable : Option BuildError) => do
    let largest ← (builder.maxSwapPreHookBelow encoding utxos request template byteBudget
      (some leg.amount) overBudgetLen).mapError (unselectableError · unselectable)
    return SwapAmountCheck.tooLarge largest
  match builder.sizeSwapPreHook encoding utxos request template leg.amount with
  | .ok size =>
    if size.appDataLen ≤ byteBudget then return .fits size else search size.appDataLen none
  | .error (.insufficientBalance maxSpendable) =>
    if leg.amount = 0 then .error (.insufficientBalance maxSpendable)
    else search 0 (some (.insufficientBalance maxSpendable))
  | .error error => .error error

end Sizing

end Railgun
