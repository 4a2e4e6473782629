import Railgun.Core.Selection

/-!
# Spend Allocations and Previews

What the builder does with a selection. `spendAllocations` splits the amount
over the chunks, charges the whole broadcaster fee to the first one and leaves
the rest as change; `buildUnshieldOutputs` and `buildSendOutputs` turn one
allocation into output notes. The previews do neither: `batchShape` counts the
outputs from the totals alone.

The two loops run over the same chunks but are written differently.
`spendAllocations` stops with an error when a chunk has nothing left to send,
`batchShape` subtracts with saturation and goes on.

Unshield and send requests, and their previews, differ in the recipient and in
whether the main output is public, so each pair is one definition with a
parameter.

## Main definitions

* `SpendAllocation`, `spendAllocations`: What each transaction sends, keeps and
  pays.
* `buildAllocations`: What a build starts from.
* `batchShape`: The counts a preview promises.
-/

namespace Railgun

/-- A transfer out of the wallet. An unshield pays an account, a send pays a
    shielded address. -/
structure SpendRequest (R : Type) where
  tokenAddress : Address
  amount : U256
  recipient : R
  spendUpTo : Bool
  broadcasterFee : Option BroadcasterFeeOutput
  minGasPrice : Nat

/-- A transfer to an account. -/
abbrev UnshieldRequest := SpendRequest Address

namespace SpendRequest

variable {R : Type}

/-- The fee, if it is paid in the token of the transfer. -/
def sameTokenBroadcasterFee (request : SpendRequest R) : Option BroadcasterFeeOutput :=
  request.broadcasterFee.filter fun fee => fee.tokenAddress = request.tokenAddress

/-- What that fee adds to the amount. -/
def feeAmount (request : SpendRequest R) : U256 :=
  feeValue request.sameTokenBroadcasterFee

/-- What has to be selected, fee included. The sum wraps. -/
def targetAmount (request : SpendRequest R) : U256 := request.amount + request.feeAmount

/-- The outputs of the first transaction, change apart. -/
def baseOutputCount (request : SpendRequest R) : Nat :=
  1 + (if request.sameTokenBroadcasterFee.isSome then 1 else 0)

end SpendRequest

/-- What a transaction sends, keeps as change and pays as fee. -/
structure SpendAllocation where
  amount : U256
  change : U256
  fee : Option BroadcasterFeeOutput
deriving DecidableEq, Repr

/-- Allocate chunk after chunk. Returns the allocations and what is left of
    the amount. -/
def allocateLoop (selectionTotal : U256) (broadcasterFee : Option BroadcasterFeeOutput) :
    Nat → U256 → List UtxoSelection → Except BuildError (List SpendAllocation × U256)
  | _, remaining, [] => .ok ([], remaining)
  | index, remaining, chunk :: rest =>
    let fee := if index = 0 then broadcasterFee else none
    let chunkFee := feeValue fee
    if chunk.total ≤ chunkFee then
      .error (.insufficientBalance selectionTotal)
    else
      let spendable := chunk.total - chunkFee
      let amount := U256.min spendable remaining
      if amount = 0 then
        .error (.insufficientBalance selectionTotal)
      else do
        let (allocations, left) ←
          allocateLoop selectionTotal broadcasterFee (index + 1) (remaining - amount) rest
        return ({ amount := amount, change := spendable - amount, fee := fee } :: allocations,
          left)

/-- Split the requested amount over the chunks of a selection. -/
def spendAllocations (selection : BatchUtxoSelection) (requestedAmount feeAmount : U256)
    (broadcasterFee : Option BroadcasterFeeOutput) (spendUpTo : Bool) :
    Except BuildError (List SpendAllocation) :=
  if selection.total < feeAmount then
    .error (.insufficientBalance selection.total)
  else
    let spendableAfterFee := selection.total - feeAmount
    if ¬ spendUpTo ∧ spendableAfterFee < requestedAmount then
      .error (.insufficientBalance selection.total)
    else
      let amount :=
        if spendUpTo then U256.min spendableAfterFee requestedAmount else requestedAmount
      if amount = 0 then
        .error (.insufficientBalance selection.total)
      else do
        let (allocations, left) ←
          allocateLoop selection.total broadcasterFee 0 amount selection.chunks
        if left = 0 then .ok allocations else .error (.insufficientBalance selection.total)

/-- Select notes for a request and split its amount over them. -/
def buildAllocations {R : Type} (utxos : List Utxo) (request : SpendRequest R) :
    Except BuildError (BatchUtxoSelection × List SpendAllocation) := do
  let selection ← selectBatchedUtxos utxos request.tokenAddress request.targetAmount
    request.spendUpTo request.baseOutputCount 1
  let allocations ← spendAllocations selection request.amount request.feeAmount
    request.sameTokenBroadcasterFee request.spendUpTo
  return (selection, allocations)

/-- The counts of a batch. -/
structure BatchShape where
  transactionCount : Nat
  privateOutputCount : Nat
  publicOutputCount : Nat
deriving DecidableEq, Repr

/-- Count the outputs chunk after chunk. Returns the private and the public
    count. -/
def batchShapeLoop (feeAmount : U256) (hasFeeOutput send : Bool) :
    Nat → U256 → List UtxoSelection → Nat × Nat
  | _, _, [] => (0, 0)
  | index, remaining, chunk :: rest =>
    let chunkFee := if index = 0 then feeAmount else 0
    let spendable := U256.saturatingSub chunk.total chunkFee
    let amountOut := U256.min spendable remaining
    let change := U256.saturatingSub spendable amountOut
    let feeOutputs := if index = 0 ∧ hasFeeOutput then 1 else 0
    let (privateRest, publicRest) := batchShapeLoop feeAmount hasFeeOutput send (index + 1)
      (U256.saturatingSub remaining amountOut) rest
    ((if send then 1 else 0) + feeOutputs + (if change = 0 then 0 else 1) + privateRest,
      (if send then 0 else 1) + publicRest)

/-- The counts of a batch, from the totals of its chunks. -/
def batchShape (selection : BatchUtxoSelection) (amount feeAmount : U256)
    (hasFeeOutput send : Bool) : BatchShape :=
  let counts := batchShapeLoop feeAmount hasFeeOutput send 0
    (U256.min (U256.saturatingSub selection.total feeAmount) amount) selection.chunks
  { transactionCount := selection.chunks.length
    privateOutputCount := counts.1
    publicOutputCount := counts.2 }

/-- What a preview tells about a selection. -/
structure UnshieldSelectionInfo where
  total : U256
  inputCount : Nat
  transactionCount : Nat
  privateOutputCount : Nat
  publicOutputCount : Nat
  maxSpendable : U256
deriving DecidableEq, Repr

/-- The preview of a selection with so much spendable. -/
def infoOfShape (selection : BatchUtxoSelection) (shape : BatchShape) (maxSpendable : U256) :
    UnshieldSelectionInfo :=
  { total := selection.total
    inputCount := selection.inputCount
    transactionCount := shape.transactionCount
    privateOutputCount := shape.privateOutputCount
    publicOutputCount := shape.publicOutputCount
    maxSpendable := maxSpendable }

/-- An insufficient balance is reported without the fee. -/
def withMaxSpendable {α : Type} (maxSpendable : U256) : Except BuildError α → Except BuildError α
  | .error (.insufficientBalance _) => .error (.insufficientBalance maxSpendable)
  | other => other

/-- The preview with a fee paid in the same token. -/
def selectionInfoWithBroadcasterFee (send : Bool) (utxos : List Utxo) (tokenAddress : Address)
    (amount feeAmount : U256) (spendUpTo : Bool) : Except BuildError UnshieldSelectionInfo := do
  let targetAmount := amount + feeAmount
  let maxTotal := maxBatchSpendable utxos tokenAddress 2 1
  let maxSpendable := if feeAmount < maxTotal then maxTotal - feeAmount else 0
  let selection ← withMaxSpendable maxSpendable
    (selectBatchedUtxos utxos tokenAddress targetAmount spendUpTo 2 1)
  let shape := batchShape selection amount feeAmount true send
  return infoOfShape selection shape maxSpendable

/-- The preview of an unshield. -/
def unshieldSelectionInfoWithBroadcasterFee := selectionInfoWithBroadcasterFee false

/-- The preview of a send. -/
def sendSelectionInfoWithBroadcasterFee := selectionInfoWithBroadcasterFee true

/-- Randomness and encryption, as far as the builder sees them. The draws are
    numbered: `random` is the array drawn for a note, and encrypting a note
    under the wallet's viewing key draws randomness of its own. `C` is the type
    of the ciphertexts. -/
structure OutputEnv (C : Type) where
  npkFor : U256 → BitVec 128 → U256
  random : Nat → BitVec 128
  tryFromNote : Nat → Note → AddressData → AddressData → Except NoteError C

namespace OutputEnv

variable {C : Type}

/-- A note for the owner of a master public key. -/
def newChange (env : OutputEnv C) (masterPublicKey : U256) (tokenAddress : Address)
    (value : U256) (random : BitVec 128) : Note :=
  { tokenHash := tokenHash tokenAddress
    value := value
    random := random
    npk := env.npkFor masterPublicKey random }

/-- The ciphertext of a note, with its error as one of the builder. -/
def encrypt (env : OutputEnv C) (draw : Nat) (note : Note) (sender receiver : AddressData) :
    Except BuildError C :=
  (env.tryFromNote draw note sender receiver).mapError .encrypt

/-- Create and encrypt one note. -/
def sealedNote (env : OutputEnv C) (draw : Nat) (tokenAddress : Address) (value : U256)
    (sender receiver : AddressData) : Except BuildError (Note × C) := do
  let note := env.newChange receiver.masterPublicKey tokenAddress value (env.random draw)
  let ciphertext ← env.encrypt draw note sender receiver
  return (note, ciphertext)

/-- The fee note, if a fee is paid. -/
def broadcasterFeeOutput (env : OutputEnv C) (draw : Nat) (sender : AddressData) :
    Option BroadcasterFeeOutput → Except BuildError (Option (Note × C))
  | none => .ok none
  | some fee => do
    return some (← env.sealedNote draw fee.tokenAddress fee.amount sender fee.recipient)

/-- The change note, if there is change. -/
def changeOutput (env : OutputEnv C) (draw : Nat) (tokenAddress : Address) (change : U256)
    (owner : AddressData) : Except BuildError (Option (Note × C)) :=
  if change = 0 then
    .ok none
  else do
    return some (← env.sealedNote draw tokenAddress change owner owner)

end OutputEnv

/-- A note that is paid out to an account. -/
def Note.newUnshield (toAddress tokenAddress : Address) (value : U256) : Note :=
  { tokenHash := Railgun.tokenHash tokenAddress
    value := value
    random := 0
    npk := toAddress.setWidth 256 }

/-- The outputs of an unshield transaction. -/
structure UnshieldOutputs (C : Type) where
  outputs : List Note
  commitmentCiphertext : List C
  broadcasterFeeNote : Option Note
  unshieldNote : Note
  unshieldOutputIndex : Nat
  changeNote : Option Note

/-- The outputs of a send transaction. -/
structure SendOutputs (C : Type) where
  outputs : List Note
  commitmentCiphertext : List C
  broadcasterFeeNote : Option Note
  recipientNote : Note
  changeNote : Option Note

section Outputs

variable {C : Type}

/-- The fee note, then the change note, then the public note. -/
def buildUnshieldOutputs (env : OutputEnv C) (draw : Nat) (tokenAddress : Address)
    (unshieldAmount : U256) (unshieldTo : Address) (change : U256) (receiver : AddressData)
    (broadcasterFee : Option BroadcasterFeeOutput) : Except BuildError (UnshieldOutputs C) := do
  let fee ← env.broadcasterFeeOutput draw receiver broadcasterFee
  let changed ← env.changeOutput (draw + 2) tokenAddress change receiver
  let sealedNotes := fee.toList ++ changed.toList
  let unshieldNote := Note.newUnshield unshieldTo tokenAddress unshieldAmount
  return {
    outputs := sealedNotes.map Prod.fst ++ [unshieldNote]
    commitmentCiphertext := sealedNotes.map Prod.snd
    broadcasterFeeNote := fee.map Prod.fst
    unshieldNote := unshieldNote
    unshieldOutputIndex := sealedNotes.length
    changeNote := changed.map Prod.fst }

/-- The fee note, then the recipient's note, then the change note. -/
def buildSendOutputs (env : OutputEnv C) (draw : Nat) (tokenAddress : Address)
    (sendAmount change : U256) (sender recipient : AddressData)
    (broadcasterFee : Option BroadcasterFeeOutput) : Except BuildError (SendOutputs C) := do
  let fee ← env.broadcasterFeeOutput draw sender broadcasterFee
  let received ← env.sealedNote (draw + 1) tokenAddress sendAmount sender recipient
  let changed ← env.changeOutput (draw + 2) tokenAddress change sender
  let sealedNotes := fee.toList ++ received :: changed.toList
  return {
    outputs := sealedNotes.map Prod.fst
    commitmentCiphertext := sealedNotes.map Prod.snd
    broadcasterFeeNote := fee.map Prod.fst
    recipientNote := received.1
    changeNote := changed.map Prod.fst }

/-- The outputs of every transaction of an unshield batch. -/
def buildUnshieldBatchOutputs (env : OutputEnv C) (tokenAddress unshieldTo : Address)
    (receiver : AddressData) (allocations : List SpendAllocation) :
    Except BuildError (List (UnshieldOutputs C)) :=
  allocations.zipIdx.mapM fun (allocation, index) =>
    buildUnshieldOutputs env (3 * index) tokenAddress allocation.amount unshieldTo
      allocation.change receiver allocation.fee

/-- The outputs of every transaction of a send batch. -/
def buildSendBatchOutputs (env : OutputEnv C) (tokenAddress : Address)
    (sender recipient : AddressData) (allocations : List SpendAllocation) :
    Except BuildError (List (SendOutputs C)) :=
  allocations.zipIdx.mapM fun (allocation, index) =>
    buildSendOutputs env (3 * index) tokenAddress allocation.amount allocation.change sender
      recipient allocation.fee

end Outputs

end Railgun
