import Railgun.Core.Allocation
import Railgun.Core.Composite
import Railgun.Core.Merkle

/-!
# Mixed Private Actions

A mixed action settles private sends and public unshields in one call. It is
first selected, which yields the inputs to spend and a proofless preview, and
later built: every transaction's inputs are checked, its output notes created
and its inputs proved against the commitment trees. The preview and the build
are separate loops over the same selections, sends before unshields.

The build is modelled up to its assertions, that is until all transactions are
assembled and before any of them is proved. Of an assembled transaction the
model keeps the tree, the root, the inputs with their proofs, the output notes
and whether it unshields.

## Main definitions

* `TransactionPlanBuilder`: The inputs of one transaction, checked.
* `MixedAssembly.selectedInputs`, `MixedAssembly.shape`,
  `MixedAssembly.transactions`: What the build asserts to equal the preview.
-/

namespace Railgun

open SelectedInputIdentity

/-- How a plan is executed, given whether it needs an adapter. -/
def TransactionBuilder.compositeExecution (builder : TransactionBuilder) (usesAdapter : Bool)
    (adapter : Option CompositeAdapter) : Except BuildError CompositeExecution :=
  match usesAdapter, adapter with
  | false, none => .ok (.direct builder.railgunContract)
  | true, none => .error .missingCompositeAdapter
  | true, some (.relayAdapt contract) => .ok (.relayAdapt contract)
  | false, some (.relayAdapt _) => .error .unusedRelayAdapt
  | true, some (.executor context) =>
    if builder.chainType = 0 ∧ context.chainId = builder.chainId then
      .ok (.executor context)
    else
      .error .invalidExecutorContext
  | false, some (.executor _) => .error .invalidExecutorContext

/-- Whether the adapter is an executor. -/
def CompositeAdapter.isExecutor : CompositeAdapter → Bool
  | .relayAdapt _ => false
  | .executor _ => true

namespace MixedPrivateActionRequest

/-- Whether an executor settles the request. -/
def hasExecutor (request : MixedPrivateActionRequest) : Bool :=
  request.adapter.any (·.isExecutor)

/-- Whether an unshield goes to the adapter. -/
def hasRelayAdaptLeg (request : MixedPrivateActionRequest) : Bool :=
  request.publicUnshields.any (·.recipient.usesRelayAdapt)

/-- The calls made by executor and adapter. -/
def relayCallCount (request : MixedPrivateActionRequest) : Nat :=
  request.executorCalls.length + (request.relayActions.map (·.calls.length)).getD 0

/-- Executor plans settle through the adapter even with no calls, so that the
    executor's signature binds them too. -/
def usesRelayAdapt (request : MixedPrivateActionRequest) : Bool :=
  request.hasRelayAdaptLeg || decide (0 < request.relayCallCount) || request.hasExecutor

/-- Refuse empty requests and calls that do not fit the adapter. -/
def validate (request : MixedPrivateActionRequest) : Except BuildError Unit :=
  if request.privateSends = [] ∧ request.publicUnshields = [] then
    .error .emptyMixedPrivateActionRequest
  else if request.executorCalls ≠ [] ∧ ¬ request.hasExecutor then
    .error .invalidExecutorContext
  else if request.executorCalls ≠ [] ∧ request.relayActions.isSome then
    .error .conflictingExecutorActions
  else if request.hasRelayAdaptLeg ∧ request.relayCallCount = 0 then
    .error .missingCompositeRelayActions
  else
    .ok ()

/-- The legs to select for: unshields, then sends. -/
def selectionLegs (request : MixedPrivateActionRequest) : List CompositeUnshieldLeg :=
  request.publicUnshields ++ request.privateSends.map fun send =>
    { tokenAddress := send.tokenAddress
      amount := send.amount
      recipient := .publicAccount 0
      role := .other }

/-- Only sends may spend less than asked for. -/
def spendUpToByLeg (request : MixedPrivateActionRequest) : List Bool :=
  List.replicate request.publicUnshields.length false
    ++ List.replicate request.privateSends.length request.spendUpTo

end MixedPrivateActionRequest

/-- The note with an identity. Of several, the map of the source keeps the
    last. -/
def availableUtxo (utxos : List Utxo) (identity : SelectedInputIdentity) : Option Utxo :=
  utxos.reverse.find? fun utxo => fromUtxo utxo = identity

/-- The loop over the pinned inputs, with those seen. -/
def resolvePinnedLoop (utxos : List Utxo) :
    List SelectedInputIdentity → List SelectedInputIdentity → Except BuildError (List Utxo)
  | _, [] => .ok []
  | seen, identity :: rest =>
    if identity ∈ seen then
      .error (.duplicatePinnedInput identity.tree identity.position)
    else
      match availableUtxo utxos identity with
      | none => .error (.pinnedInputUnavailable identity.tree identity.position)
      | some utxo => do
        let pinned ← resolvePinnedLoop utxos (identity :: seen) rest
        return utxo :: pinned

/-- The pinned notes, in the order they are pinned. -/
def resolvePinnedUtxos (utxos : List Utxo) (pinnedInputs : List SelectedInputIdentity) :
    Except BuildError (List Utxo) :=
  resolvePinnedLoop utxos [] pinnedInputs

/-- Identities by tree and position. -/
def sortIdentities (identities : List SelectedInputIdentity) : List SelectedInputIdentity :=
  sortBy (compareOn SelectedInputIdentity.key) identities

/-- The selection at an index. There is one for every leg. -/
def selectionAt (selections : List BatchUtxoSelection) (index : Nat) : BatchUtxoSelection :=
  selections.getD index { chunks := [], total := 0 }

/-- The notes a request may spend. -/
def candidateUtxos (utxos : List Utxo) (request : MixedPrivateActionRequest) :
    Except BuildError (List Utxo) :=
  match request.rebuild with
  | none => .ok utxos
  | some constraint => resolvePinnedUtxos utxos constraint.selectedInputs

/-- With pinned inputs, an insufficient balance is one of the pinned inputs. -/
def pinnedSelectionError (rebuild : Bool) : BuildError → BuildError
  | .insufficientBalance max => if rebuild then .pinnedInputsInsufficient max
    else .insufficientBalance max
  | error => error

/-- The selections for all legs. -/
def mixedSelections (utxos : List Utxo) (request : MixedPrivateActionRequest) :
    Except BuildError (List BatchUtxoSelection) := do
  let (selections, _) ← (selectCompositeLegSelectionsWithPolicy utxos request.selectionLegs none
    request.spendUpToByLeg 0).mapError (pinnedSelectionError request.rebuild.isSome)
  return selections

/-- The shapes of the transactions of one leg. -/
def legTransactions (selection : BatchUtxoSelection) (amount : U256)
    (spendUpTo hasUnshield : Bool) : Except BuildError (List TransactionShape) := do
  let allocations ← spendAllocations selection amount 0 none spendUpTo
  return (selection.chunks.zip allocations).map fun (pair : UtxoSelection × SpendAllocation) =>
    { inputCount := pair.1.utxos.length
      outputCount := 1 + (if pair.2.change = 0 then 0 else 1)
      hasUnshield := hasUnshield }

/-- The shapes of all transactions, in the order they are built. -/
def mixedTransactions (request : MixedPrivateActionRequest)
    (selections : List BatchUtxoSelection) : Except BuildError (List TransactionShape) := do
  let sends ← request.privateSends.zipIdx.mapM fun (send, sendIndex) =>
    legTransactions (selectionAt selections (request.publicUnshields.length + sendIndex))
      send.amount request.spendUpTo false
  let unshields ← request.publicUnshields.zipIdx.mapM fun (leg, unshieldIndex) =>
    legTransactions (selectionAt selections unshieldIndex) leg.amount false true
  return sends.flatten ++ unshields.flatten

/-- The identities of all selected inputs, sorted. -/
def selectedInputsOf (selections : List BatchUtxoSelection) : List SelectedInputIdentity :=
  sortIdentities (((selections.flatMap (·.chunks)).flatMap (·.utxos)).map fromUtxo)

/-- The counts of a selected plan. -/
def mixedShape (execution : CompositeExecution) (request : MixedPrivateActionRequest)
    (selections : List BatchUtxoSelection) (transactions : List TransactionShape) :
    CompositePlanShape :=
  let publicOutputCount := (transactions.filter (·.hasUnshield)).length
  { execution := execution
    transactionCount := (selections.map (·.chunks.length)).sum
    inputCount := (selectedInputsOf selections).length
    privateOutputCount := (transactions.map (·.outputCount)).sum - publicOutputCount
    publicOutputCount := publicOutputCount
    relayCallCount := request.relayCallCount
    usesRelayAdapt := request.usesRelayAdapt }

/-- A rebuilt plan has the pinned inputs and the pinned shape. -/
def checkRebuild (request : MixedPrivateActionRequest)
    (selectedInputs : List SelectedInputIdentity) (shape : CompositePlanShape) :
    Except BuildError Unit :=
  match request.rebuild with
  | none => .ok ()
  | some constraint =>
    let expectedInputs := sortIdentities constraint.selectedInputs
    if selectedInputs ≠ expectedInputs then
      .error (.pinnedInputsChanged expectedInputs selectedInputs)
    else if shape ≠ constraint.expectedShape then
      .error (.compositePlanShapeChanged constraint.expectedShape shape)
    else
      .ok ()

/-- The selections of a request and its preview. -/
structure MixedPrivateActionSelectionPlan where
  selections : List BatchUtxoSelection
  preview : MixedPrivateActionPreview
deriving DecidableEq, Repr

/-- Select the inputs of a request and say what the plan will look like. -/
def TransactionBuilder.selectMixedPrivateActionPlan (builder : TransactionBuilder)
    (utxos : List Utxo) (request : MixedPrivateActionRequest) :
    Except BuildError MixedPrivateActionSelectionPlan := do
  request.validate
  let execution ← builder.compositeExecution request.usesRelayAdapt request.adapter
  let candidates ← candidateUtxos utxos request
  let selections ← mixedSelections candidates request
  let transactions ← mixedTransactions request selections
  let shape := mixedShape execution request selections transactions
  checkRebuild request (selectedInputsOf selections) shape
  return {
    selections := selections
    preview := {
      selectedInputs := selectedInputsOf selections
      shape := shape
      transactions := transactions } }

/-- The preview alone. -/
def TransactionBuilder.previewMixedPrivateActionPlan (builder : TransactionBuilder)
    (utxos : List Utxo) (request : MixedPrivateActionRequest) :
    Except BuildError MixedPrivateActionPreview := do
  let selected ← builder.selectMixedPrivateActionPlan utxos request
  return selected.preview

/-- A spent note and its proof. -/
structure InputWitness where
  utxo : Utxo
  merkleProof : MerkleProof
deriving DecidableEq, Repr

/-- A transaction before it is proved. -/
structure UnprovenTransactionPlan where
  treeNumber : Nat
  merkleRoot : U256
  inputs : List InputWitness
  outputs : List Note
  hasUnshield : Bool
deriving DecidableEq, Repr

/-- Checked inputs and their token. -/
structure TransactionPlanBuilder where
  inputs : List Utxo
  tokenAddress : Address
deriving DecidableEq, Repr

/-- The largest gas price that fits its 72-bit field. -/
def maxUint72 : Nat := 2 ^ 72 - 1

/-- The gas price fits its field. -/
def withMinGasPrice (minGasPrice : Nat) : Except BuildError Unit :=
  if maxUint72 < minGasPrice then .error (.minGasPriceTooLarge minGasPrice) else .ok ()

namespace TransactionPlanBuilder

/-- The inputs of a transaction are not too many and of one tree and token. -/
def new (inputs : List Utxo) (tokenAddress : Address) :
    Except BuildError TransactionPlanBuilder :=
  match inputs with
  | [] => .error (.insufficientBalance 0)
  | first :: _ =>
    if maxCircuitInputs < inputs.length then
      .error .tooManyInputs
    else if inputs.any (fun utxo => utxo.tree ≠ first.tree) then
      .error .mixedTrees
    else if inputs.any (fun utxo => utxo.note.tokenHash ≠ tokenHash tokenAddress) then
      .error .tokenMismatch
    else
      .ok { inputs := inputs, tokenAddress := tokenAddress }

/-- The tree of the first input. -/
def treeNumber (plan : TransactionPlanBuilder) : Nat :=
  (plan.inputs.head?.map (·.tree)).getD 0

/-- Inputs, outputs, root and bound parameters have to fit one signature. -/
def validateSignatureLimit (plan : TransactionPlanBuilder) (numOutputs : Nat) :
    Except BuildError Unit :=
  if maxSignatureInputs < 2 + plan.inputs.length + numOutputs then
    .error (.signatureInputLimit plan.inputs.length numOutputs)
  else
    .ok ()

section Poseidon

variable (poseidon : U256 → U256 → U256)

/-- The inputs with their proofs, and the cache after them. -/
def buildInputWitnesses (cache : InputWitnessProofCache) :
    List Utxo → Except BuildError (List InputWitness × InputWitnessProofCache)
  | [] => .ok ([], cache)
  | utxo :: utxos =>
    match cache.prove poseidon utxo.tree utxo.position with
    | (.error error, _) => .error error
    | (.ok proof, cache) => do
      let (witnesses, cache) ← buildInputWitnesses cache utxos
      return ({ utxo := utxo, merkleProof := proof } :: witnesses, cache)

/-- The inputs with their proofs, and the root of the first proof. -/
def buildInputWitnessesAndRoot (plan : TransactionPlanBuilder) (cache : InputWitnessProofCache) :
    Except BuildError ((List InputWitness × U256) × InputWitnessProofCache) := do
  let (inputs, cache) ← buildInputWitnesses poseidon cache plan.inputs
  match inputs with
  | [] => .error .missingRoot
  | input :: _ => .ok ((inputs, input.merkleProof.root), cache)

/-- Assemble a transaction from its checked inputs and its outputs. -/
def buildUnproven (hasUnshield : Bool) (plan : TransactionPlanBuilder) (minGasPrice : Nat)
    (outputs : List Note) (cache : InputWitnessProofCache) :
    Except BuildError (UnprovenTransactionPlan × InputWitnessProofCache) := do
  plan.validateSignatureLimit outputs.length
  let ((inputs, root), cache) ← buildInputWitnessesAndRoot poseidon plan cache
  withMinGasPrice minGasPrice
  return ({
    treeNumber := plan.treeNumber
    merkleRoot := root
    inputs := inputs
    outputs := outputs
    hasUnshield := hasUnshield }, cache)

/-- A send that is not proved yet. -/
def buildUnprovenSend := buildUnproven poseidon false

/-- An unshield that is not proved yet. -/
def buildUnprovenUnshield := buildUnproven poseidon true

end Poseidon

end TransactionPlanBuilder

/-- Whom a private output is for. -/
inductive MixedPrivateOutputRole where
  | recipient (role : MixedPrivateSendRole)
  | change
deriving DecidableEq, Repr

/-- The action a private output belongs to. -/
inductive MixedPrivateOutputSource where
  | send (index : Nat)
  | publicUnshield (index : Nat)
deriving DecidableEq, Repr

/-- A private output and where it is created. -/
structure MixedPrivatePlannedOutput where
  source : MixedPrivateOutputSource
  transactionIndex : Nat
  outputIndex : Nat
  tokenAddress : Address
  amount : U256
  role : MixedPrivateOutputRole
  note : Note
deriving DecidableEq, Repr

/-- An unshield and where it is created. -/
structure MixedPublicPlannedOutput where
  unshieldIndex : Nat
  transactionIndex : Nat
  outputIndex : Nat
  tokenAddress : Address
  amount : U256
  recipient : CompositeUnshieldRecipient
  role : CompositeUnshieldLegRole
  note : Note
deriving DecidableEq, Repr

/-- What has been assembled so far. -/
structure MixedAssembly where
  cache : InputWitnessProofCache
  unprovenPlans : List UnprovenTransactionPlan
  privateOutputs : List MixedPrivatePlannedOutput
  publicOutputs : List MixedPublicPlannedOutput

namespace MixedAssembly

/-- Nothing is assembled. -/
def new (forest : MerkleForest) : MixedAssembly :=
  { cache := InputWitnessProofCache.new forest
    unprovenPlans := []
    privateOutputs := []
    publicOutputs := [] }

/-- The identities of all inputs, sorted. -/
def selectedInputs (assembly : MixedAssembly) : List SelectedInputIdentity :=
  sortIdentities (assembly.unprovenPlans.flatMap fun plan =>
    plan.inputs.map fun input => fromUtxo input.utxo)

/-- The counts of what is assembled. -/
def shape (assembly : MixedAssembly) (execution : CompositeExecution) (relayCallCount : Nat)
    (usesRelayAdapt : Bool) : CompositePlanShape :=
  { execution := execution
    transactionCount := assembly.unprovenPlans.length
    inputCount := assembly.selectedInputs.length
    privateOutputCount := assembly.privateOutputs.length
    publicOutputCount := assembly.publicOutputs.length
    relayCallCount := relayCallCount
    usesRelayAdapt := usesRelayAdapt }

/-- The shape of each transaction. -/
def transactions (assembly : MixedAssembly) : List TransactionShape :=
  assembly.unprovenPlans.map fun plan =>
    { inputCount := plan.inputs.length
      outputCount := plan.outputs.length
      hasUnshield := plan.hasUnshield }

end MixedAssembly

section Assemble

variable {C : Type} (poseidon : U256 → U256 → U256) (env : OutputEnv C) (sender : AddressData)
  (request : MixedPrivateActionRequest)

/-- Assemble one transaction of a private send. -/
def assembleSendChunk (sendIndex : Nat) (send : MixedPrivateSend) (assembly : MixedAssembly)
    (chunk : UtxoSelection) (allocation : SpendAllocation) : Except BuildError MixedAssembly := do
  let transactionIndex := assembly.unprovenPlans.length
  let planBuilder ← TransactionPlanBuilder.new chunk.utxos send.tokenAddress
  let created ← buildSendOutputs env (3 * transactionIndex) send.tokenAddress allocation.amount
    allocation.change sender send.recipient none
  let recipientOutput : MixedPrivatePlannedOutput :=
    { source := .send sendIndex
      transactionIndex := transactionIndex
      outputIndex := 0
      tokenAddress := send.tokenAddress
      amount := allocation.amount
      role := .recipient send.role
      note := created.recipientNote }
  let changeOutput := created.changeNote.map fun note =>
    ({ source := .send sendIndex
       transactionIndex := transactionIndex
       outputIndex := 1
       tokenAddress := send.tokenAddress
       amount := allocation.change
       role := .change
       note := note } : MixedPrivatePlannedOutput)
  let (plan, cache) ← TransactionPlanBuilder.buildUnprovenSend poseidon planBuilder
    request.minGasPrice created.outputs assembly.cache
  return {
    cache := cache
    unprovenPlans := assembly.unprovenPlans ++ [plan]
    privateOutputs := assembly.privateOutputs ++ recipientOutput :: changeOutput.toList
    publicOutputs := assembly.publicOutputs }

/-- Assemble one transaction of a public unshield. -/
def assembleUnshieldChunk (account : Address) (unshieldIndex : Nat) (leg : CompositeUnshieldLeg)
    (assembly : MixedAssembly) (chunk : UtxoSelection) (allocation : SpendAllocation) :
    Except BuildError MixedAssembly := do
  let transactionIndex := assembly.unprovenPlans.length
  let planBuilder ← TransactionPlanBuilder.new chunk.utxos leg.tokenAddress
  let created ← buildUnshieldOutputs env (3 * transactionIndex) leg.tokenAddress
    allocation.amount (leg.recipient.unshieldTo account) allocation.change sender none
  let changeOutput := created.changeNote.map fun note =>
    ({ source := .publicUnshield unshieldIndex
       transactionIndex := transactionIndex
       outputIndex := 0
       tokenAddress := leg.tokenAddress
       amount := allocation.change
       role := .change
       note := note } : MixedPrivatePlannedOutput)
  let publicOutput : MixedPublicPlannedOutput :=
    { unshieldIndex := unshieldIndex
      transactionIndex := transactionIndex
      outputIndex := created.unshieldOutputIndex
      tokenAddress := leg.tokenAddress
      amount := allocation.amount
      recipient := leg.recipient
      role := leg.role
      note := created.unshieldNote }
  let (plan, cache) ← TransactionPlanBuilder.buildUnprovenUnshield poseidon planBuilder
    request.minGasPrice created.outputs assembly.cache
  return {
    cache := cache
    unprovenPlans := assembly.unprovenPlans ++ [plan]
    privateOutputs := assembly.privateOutputs ++ changeOutput.toList
    publicOutputs := assembly.publicOutputs ++ [publicOutput] }

/-- Assemble the transactions of a private send. -/
def assembleSend (selections : List BatchUtxoSelection) (assembly : MixedAssembly)
    (entry : MixedPrivateSend × Nat) : Except BuildError MixedAssembly := do
  let (send, sendIndex) := entry
  let selection := selectionAt selections (request.publicUnshields.length + sendIndex)
  let allocations ← spendAllocations selection send.amount 0 none request.spendUpTo
  (selection.chunks.zip allocations).foldlM
    (fun assembly pair => assembleSendChunk poseidon env sender request sendIndex send assembly
      pair.1 pair.2) assembly

/-- Assemble the transactions of a public unshield. -/
def assembleUnshield (account : Address) (selections : List BatchUtxoSelection)
    (assembly : MixedAssembly) (entry : CompositeUnshieldLeg × Nat) :
    Except BuildError MixedAssembly := do
  let (leg, unshieldIndex) := entry
  let selection := selectionAt selections unshieldIndex
  let allocations ← spendAllocations selection leg.amount 0 none false
  (selection.chunks.zip allocations).foldlM
    (fun assembly pair => assembleUnshieldChunk poseidon env sender request account unshieldIndex
      leg assembly pair.1 pair.2) assembly

/-- Assemble all transactions: private sends, then public unshields. -/
def assembleMixedTransactions (account : Address) (forest : MerkleForest)
    (selections : List BatchUtxoSelection) : Except BuildError MixedAssembly := do
  let assembly ← request.privateSends.zipIdx.foldlM
    (assembleSend poseidon env sender request selections) (MixedAssembly.new forest)
  request.publicUnshields.zipIdx.foldlM
    (assembleUnshield poseidon env sender request account selections) assembly

/-- Select a request and assemble its transactions. The build asserts that what
    it assembled has the inputs and shapes of the preview. -/
def TransactionBuilder.buildMixedPrivateActionPlanInner (builder : TransactionBuilder)
    (forest : MerkleForest) (utxos : List Utxo) :
    Except BuildError (MixedPrivateActionPreview × MixedAssembly) := do
  let selected ← builder.selectMixedPrivateActionPlan utxos request
  let assembly ← assembleMixedTransactions poseidon env sender request
    selected.preview.shape.execution.account forest selected.selections
  return (selected.preview, assembly)

end Assemble

end Railgun
