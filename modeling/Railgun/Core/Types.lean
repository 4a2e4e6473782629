import Mathlib.Data.BitVec
import Mathlib.Data.Prod.Lex
import Railgun.Lib.OrderedMap

/-!
# Wallet Data Types

The values the transaction builder passes around: 256-bit words, notes, UTXOs,
the requests it accepts and the errors it answers with.

Amounts are machine words, not naturals. The builder adds them with the
operators of its big-integer library, which wrap at `2 ^ 256` and never fail,
so `U256` is `BitVec 256` and `+` and `-` are the wrapping operations. The two
operations that do not wrap, saturating subtraction and the minimum, are
defined here together with their meaning on naturals.

Tree numbers and positions are only compared and divided by the tree size, so
they are naturals. A note's identity is its pair of tree and position.

## Main definitions

* `U256`, `Address`: Machine words of the token amounts and of the accounts.
* `U256.saturatingSub`, `U256.min`: The two operations that do not wrap.
* `Note`, `Utxo`: A note and the place it is stored at.
* `SelectedInputIdentity`: The identity of a spent note.
* `MixedPrivateActionRequest`: Private sends and public unshields in one call.
* `BuildError`: Every way the builder refuses a request.

## Theorems

* `U256.toNat_saturatingSub`: Saturating subtraction is truncated subtraction.
* `U256.toNat_min`: The minimum of two words is the minimum of their values.
-/

namespace Railgun

/-- A 256-bit word. Addition and subtraction wrap. -/
abbrev U256 := BitVec 256

/-- A 20-byte account or token address. -/
abbrev Address := BitVec 160

/-- Thirty-two bytes, read big-endian. -/
abbrev Bytes32 := BitVec 256

instance : Std.TransCmp (compare : Bytes32 → Bytes32 → Ordering) := inferInstance

/-- Addition of 64-bit words that stops at the largest. -/
def saturatingAdd (a b : Nat) : Nat := min (a + b) (2 ^ 64 - 1)

/-- Maximum number of UTXOs that can be inputs of a single transaction. -/
def maxCircuitInputs : Nat := 13

/-- Maximum inputs to the signature hash: inputs, outputs, root and bound
    parameters. -/
def maxSignatureInputs : Nat := 16

/-- Maximum number of inner transactions in one outer call. -/
def maxBatchTransactions : Nat := 8

namespace U256

/-- Subtraction that stops at zero. -/
def saturatingSub (a b : U256) : U256 := if b ≤ a then a - b else 0

/-- The smaller of two words. -/
def min (a b : U256) : U256 := if a ≤ b then a else b

/-- The larger of two words. -/
def max (a b : U256) : U256 := if a ≤ b then b else a

theorem toNat_saturatingSub (a b : U256) :
    (saturatingSub a b).toNat = a.toNat - b.toNat := by
  unfold saturatingSub
  split_ifs with h
  · exact BitVec.toNat_sub_of_le h
  · exact (Nat.sub_eq_zero_of_le (Nat.le_of_not_le h)).symm

theorem toNat_min (a b : U256) : (min a b).toNat = Nat.min a.toNat b.toNat := by
  unfold min
  split_ifs with h
  · exact (Nat.min_eq_left h).symm
  · exact (Nat.min_eq_right (Nat.le_of_not_le h)).symm

theorem toNat_max (a b : U256) : (max a b).toNat = Nat.max a.toNat b.toNat := by
  unfold max
  split_ifs with h
  · exact (Nat.max_eq_right h).symm
  · exact (Nat.max_eq_left (Nat.le_of_not_le h)).symm

theorem ne_zero_of_toNat_pos {a : U256} (h : 0 < a.toNat) : a ≠ 0 := by
  rintro rfl
  exact Nat.lt_irrefl 0 h

theorem saturatingSub_of_le {a b : U256} (h : b ≤ a) : saturatingSub a b = a - b := if_pos h

theorem min_le_left (a b : U256) : min a b ≤ a := by
  rw [BitVec.le_def, toNat_min]
  exact Nat.min_le_left _ _

theorem min_le_right (a b : U256) : min a b ≤ b := by
  rw [BitVec.le_def, toNat_min]
  exact Nat.min_le_right _ _

theorem min_eq_right {a b : U256} (h : b ≤ a) : min a b = b := by
  apply BitVec.eq_of_toNat_eq
  rw [toNat_min]
  exact Nat.min_eq_right h

end U256

/-- A note: the token it holds, its value, and the data its owner spends it
    with. -/
structure Note where
  tokenHash : U256
  value : U256
  random : BitVec 128
  npk : U256
deriving DecidableEq, Repr

/-- A note and where it is in the trees. -/
structure Utxo where
  note : Note
  tree : Nat
  position : Nat
deriving DecidableEq, Repr

/-- The token hash of an ERC-20 address: its bytes, left-padded to a word. -/
def tokenHash (token : Address) : U256 := token.setWidth 256

/-- The identity of a spent note, ordered by tree and then by position. -/
structure SelectedInputIdentity where
  tree : Nat
  position : Nat
deriving DecidableEq, Repr

/-- Where a note is. -/
def SelectedInputIdentity.fromUtxo (utxo : Utxo) : SelectedInputIdentity :=
  { tree := utxo.tree, position := utxo.position }

/-- The key identities are sorted by. -/
def SelectedInputIdentity.key (identity : SelectedInputIdentity) : ℕ ×ₗ ℕ :=
  toLex (identity.tree, identity.position)

/-- The public part of a shielded address. -/
structure AddressData where
  masterPublicKey : U256
  viewingPublicKey : BitVec 256
deriving DecidableEq, Repr

/-- The fee note a broadcaster asks for. -/
structure BroadcasterFeeOutput where
  recipient : AddressData
  tokenAddress : Address
  amount : U256
deriving DecidableEq, Repr

/-- What a fee is worth, if there is one. -/
def feeValue (fee : Option BroadcasterFeeOutput) : U256 := (fee.map (·.amount)).getD 0

@[simp] theorem feeValue_none : feeValue none = 0 := rfl

@[simp] theorem feeValue_some (fee : BroadcasterFeeOutput) : feeValue (some fee) = fee.amount := rfl

/-- The executor identity fixed before quoting and proving. -/
structure ExecutorContext where
  chainId : Nat
  executor : Address
  delegate : Address
  executionNonce : U256
deriving DecidableEq, Repr

/-- The adapter a composite request settles through. -/
inductive CompositeAdapter where
  | relayAdapt (contract : Address)
  | executor (context : ExecutorContext)
deriving DecidableEq, Repr

/-- How a composite plan is executed once its adapter has been checked. -/
inductive CompositeExecution where
  | direct (account : Address)
  | relayAdapt (account : Address)
  | executor (context : ExecutorContext)
deriving DecidableEq, Repr

/-- The account that executes a plan. -/
def CompositeExecution.account : CompositeExecution → Address
  | .direct account => account
  | .relayAdapt account => account
  | .executor context => context.executor

/-- Who receives an unshield leg. -/
inductive CompositeUnshieldRecipient where
  | publicAccount (recipient : Address)
  | relayAdapt
deriving DecidableEq, Repr

/-- The account an unshield leg is paid out to. -/
def CompositeUnshieldRecipient.unshieldTo (relayAdaptContract : Address) :
    CompositeUnshieldRecipient → Address
  | .publicAccount recipient => recipient
  | .relayAdapt => relayAdaptContract

/-- Whether the leg is paid to the adapter. -/
def CompositeUnshieldRecipient.usesRelayAdapt : CompositeUnshieldRecipient → Bool
  | .publicAccount _ => false
  | .relayAdapt => true

/-- What a leg is for. -/
inductive CompositeUnshieldLegRole where
  | primary
  | nativeTopUp
  | wrappedNativeOutput
  | sponsoredWrappedNative
  | other
deriving DecidableEq, Repr

/-- One public unshield of a composite request. -/
structure CompositeUnshieldLeg where
  tokenAddress : Address
  amount : U256
  recipient : CompositeUnshieldRecipient
  role : CompositeUnshieldLegRole
deriving DecidableEq, Repr

/-- The token an adapter action moves. -/
inductive CompositeRelayActionToken where
  | erc20 (token : Address)
  | baseNative
deriving DecidableEq, Repr

/-- One helper call of the adapter. -/
inductive CompositeRelayAction where
  | unwrapBase (amount : U256)
  | transfer (token : CompositeRelayActionToken) (recipient : Address) (amount : U256)
deriving DecidableEq, Repr

/-- The helper calls of a composite request. -/
structure CompositeRelayActions where
  minGasLimit : U256
  calls : List CompositeRelayAction
deriving DecidableEq, Repr

/-- A reviewed call of an executor operation. -/
structure Call where
  toAddress : Address
  data : List UInt8
  value : U256
deriving DecidableEq, Repr

/-- What a private send is for. -/
inductive MixedPrivateSendRole where
  | primary
  | other
deriving DecidableEq, Repr

/-- A private send. -/
structure MixedPrivateSend where
  tokenAddress : Address
  amount : U256
  recipient : AddressData
  role : MixedPrivateSendRole
deriving DecidableEq, Repr

/-- The counts of a composite plan, fixed before it is proved. -/
structure CompositePlanShape where
  execution : CompositeExecution
  transactionCount : Nat
  inputCount : Nat
  privateOutputCount : Nat
  publicOutputCount : Nat
  relayCallCount : Nat
  usesRelayAdapt : Bool
deriving DecidableEq, Repr

/-- The counts that fix one transaction's encoded length before proving. -/
structure TransactionShape where
  inputCount : Nat
  outputCount : Nat
  hasUnshield : Bool
deriving DecidableEq, Repr

/-- The inputs and the shape a rebuilt plan has to reproduce. -/
structure MixedPrivateActionRebuildConstraint where
  selectedInputs : List SelectedInputIdentity
  expectedShape : CompositePlanShape
deriving DecidableEq, Repr

/-- Private sends and public unshields to settle in one call. -/
structure MixedPrivateActionRequest where
  adapter : Option CompositeAdapter
  executorCalls : List Call
  privateSends : List MixedPrivateSend
  publicUnshields : List CompositeUnshieldLeg
  relayActions : Option CompositeRelayActions
  minGasPrice : Nat
  spendUpTo : Bool
  rebuild : Option MixedPrivateActionRebuildConstraint
deriving DecidableEq, Repr

/-- The proofless summary of a mixed plan. -/
structure MixedPrivateActionPreview where
  selectedInputs : List SelectedInputIdentity
  shape : CompositePlanShape
  transactions : List TransactionShape
deriving DecidableEq, Repr

/-- The chain a builder works for. -/
structure TransactionBuilder where
  chainType : Nat
  chainId : Nat
  railgunContract : Address
deriving DecidableEq, Repr

/-- Why an output note could not be encrypted. -/
inductive NoteError where
  | ciphertextTooShort
  | invalidIvTag
  | invalidKey
  | encryptFailed
  | decryptFailed
  | invalidViewingKey
deriving DecidableEq, Repr

/-- Why app data could not be serialized. -/
inductive CowError where
  | appData (message : String)
deriving DecidableEq, Repr

/-- Why the builder fails. -/
inductive BuildError where
  | insufficientBalance (maxSpendable : U256)
  | insufficientFeeTokenBalance (maxSpendable : U256)
  | tooManyInputs
  | mixedTrees
  | tokenMismatch
  | signatureInputLimit (inputs outputs : Nat)
  | missingRoot
  | emptyMixedPrivateActionRequest
  | missingCompositeRelayActions
  | missingCompositeAdapter
  | unusedRelayAdapt
  | invalidExecutorContext
  | conflictingExecutorActions
  | tooManyBatchTransactions (requested max : Nat)
  | duplicatePinnedInput (tree position : Nat)
  | pinnedInputUnavailable (tree position : Nat)
  | pinnedInputsInsufficient (maxSpendable : U256)
  | pinnedInputsChanged (expected actual : List SelectedInputIdentity)
  | compositePlanShapeChanged (expected actual : CompositePlanShape)
  | missingProof (tree position : Nat)
  | minGasPriceTooLarge (minGasPrice : Nat)
  | invalidSwapRequest
  | swapAppDataTooLarge (len budget : Nat)
  | appData (error : CowError)
  | encrypt (error : NoteError)
deriving DecidableEq, Repr

end Railgun
