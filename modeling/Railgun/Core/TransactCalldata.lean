import Railgun.Core.Notes
import Railgun.Core.Swap

/-!
# Reading the Calldata of a Broadcaster

A broadcaster is asked to send a call and is paid by its first output. The call is
decoded as one of four functions of the contracts. The first ciphertext of the
first transaction is decrypted with the key of the broadcaster, and the token and
the value in it are reported as the fee, together with the first commitment.

Decoding is a parameter, as are the encodings that are hashed.

## Main definitions

* `Transaction`: The parts of a transaction that are read.
* `CalldataAbi`: Decoding calls, and the encodings that are hashed.
* `parseTransactCalldata`: What is reported about a call.
-/

namespace Railgun

/-- What a proof is bound to beside its notes. -/
structure BoundParams where
  treeNumber : Nat
  minGasPrice : BitVec 72
  unshield : BitVec 8
  chainId : Nat
  adaptContract : Address
  adaptParams : Bytes32
  commitmentCiphertext : List CommitmentCiphertext
deriving DecidableEq, Repr

/-- A transaction as the contract takes it. -/
structure Transaction where
  nullifiers : List Bytes32
  commitments : List Bytes32
  boundParams : BoundParams
deriving DecidableEq, Repr

/-- The calls of an adapter. -/
structure ActionData where
  random : BitVec 248
  requireSuccess : Bool
  minGasLimit : U256
  calls : List Call
deriving DecidableEq, Repr

/-- How calls are encoded and decoded. -/
structure CalldataAbi where
  encodeBoundParams : BoundParams → List UInt8
  decodeTransact : List UInt8 → Option (List Transaction)
  decodeRelay : List UInt8 → Option (List Transaction × ActionData)
  decodeRelayAdapt7702Execute : List UInt8 → Option (List Transaction × RelayAdapt7702ActionData)
  decodeExecute : List UInt8 → Option (List Transaction × RelayAdapt7702ActionData)

/-- Why calldata is refused. -/
inductive TransactError where
  | invalidEd25519Pubkey
  | aesGcm (error : AesGcmError)
  | calldataTooShort (len : Nat)
  | unknownFunctionCall (selector : String)
  | missingTransactions
  | missingCommitment
  | missingCommitmentCiphertext
  | plaintextTooShort (len : Nat)
  | invalidTokenHash
  | unsupportedTxidVersion (txidVersion : String)
deriving DecidableEq, Repr

/-- What is read off a transaction. -/
structure ParsedTransactTransaction where
  railgunTxid : U256
  utxoTreeIn : Nat
  txNullifiersLen : Nat
  txCommitmentsOutLen : Nat
  hasUnshield : Bool
deriving DecidableEq, Repr

/-- What is reported about a call. -/
structure ParsedTransactCalldata where
  feeToken : Address
  feeAmount : U256
  railgunTxid : U256
  utxoTreeIn : Nat
  feeCommitment : Bytes32
  feeNoteNpk : Bytes32
  txNullifiersLen : Nat
  txCommitmentsOutLen : Nat
  transactions : List ParsedTransactTransaction
  actionData : Option ActionData
deriving DecidableEq, Repr

/-- Bytes as hexadecimal digits. -/
def hexEncode (bytes : List UInt8) : String :=
  String.ofList (bytes.flatMap fun byte =>
    [Nat.digitChar (byte.toNat / 16), Nat.digitChar (byte.toNat % 16)])

/-- The version if none is given. -/
def defaultTxidVersion : String := "V2_PoseidonMerkle"

/-- How many entries are hashed. -/
def railgunTxidPartsWidth : Nat := 13

/-- Fill up with zero leaves, or cut off. -/
def padWithMerkleZero (values : List U256) (target : Nat) : List U256 :=
  (values ++ List.replicate (target - values.length) merkleZeroValue).take target

/-- The version, which has to be the default. -/
def supportedTxidVersion (txidVersion : Option String) : Except TransactError String :=
  let version := txidVersion.getD defaultTxidVersion
  if version = defaultTxidVersion then .ok version else .error (.unsupportedTxidVersion version)

section Parse

variable (crypto : NoteCrypto) (abi : CalldataAbi)

/-- The id of a transaction, from its parts. -/
def computeRailgunTxidParts (nullifiers commitments : List U256) (boundParamsHash : U256) : U256 :=
  let nullifiersHash := crypto.poseidon (padWithMerkleZero nullifiers railgunTxidPartsWidth)
  let commitmentsHash := crypto.poseidon (padWithMerkleZero commitments railgunTxidPartsWidth)
  crypto.poseidon [nullifiersHash, commitmentsHash, boundParamsHash]

/-- The id of a transaction. -/
def computeRailgunTxid (transaction : Transaction) (txidVersion : Option String) :
    Except TransactError U256 := do
  let _ ← supportedTxidVersion txidVersion
  return computeRailgunTxidParts crypto transaction.nullifiers transaction.commitments
    (crypto.hashToScalar (abi.encodeBoundParams transaction.boundParams))

/-- Read a transaction. -/
def ParsedTransactTransaction.fromTransaction (transaction : Transaction)
    (txidVersion : Option String) : Except TransactError ParsedTransactTransaction := do
  let railgunTxid ← computeRailgunTxid crypto abi transaction txidVersion
  return { railgunTxid, utxoTreeIn := transaction.boundParams.treeNumber,
           txNullifiersLen := transaction.nullifiers.length,
           txCommitmentsOutLen := transaction.commitments.length,
           hasUnshield := transaction.boundParams.unshield != 0 }

/-- The transactions of a call. The functions are tried in turn, and the actions of
    the 7702 adapter get a random of zero. -/
def decodeTransactions (calldata : List UInt8) :
    Except TransactError (List Transaction × Option ActionData) :=
  match abi.decodeTransact calldata with
  | some transactions => .ok (transactions, none)
  | none =>
    match abi.decodeRelay calldata with
    | some (transactions, actionData) => .ok (transactions, some actionData)
    | none =>
      match (abi.decodeRelayAdapt7702Execute calldata).orElse fun _ =>
          abi.decodeExecute calldata with
      | some (transactions, actionData) =>
        .ok (transactions,
          some { random := 0, requireSuccess := actionData.requireSuccess,
                 minGasLimit := actionData.minGasLimit, calls := actionData.calls })
      | none => .error (.unknownFunctionCall (hexEncode (calldata.take 4)))

/-- Decrypt a ciphertext with the viewing key of the receiver. -/
def decryptFee (ciphertext : CommitmentCiphertext) (viewingPrivkey : Bytes32) :
    Except TransactError (List UInt8) :=
  let ivTag := ciphertextIvTag ciphertext.ciphertext
  let buffer := ciphertextBuffer ciphertext.ciphertext ciphertext.memo
  (crypto.sharedSymmetricKey viewingPrivkey ciphertext.blindedSenderViewingKey).elim
    (.error .invalidEd25519Pubkey)
    fun key => (crypto.decryptInPlace16bIv key ivTag.1 ivTag.2 buffer).mapError .aesGcm

/-- Read a call, and decrypt the note that pays the fee. -/
def parseTransactCalldata (calldata : List UInt8) (viewingPrivkey : Bytes32)
    (receiverMasterPublicKey : U256) (txidVersion : Option String) :
    Except TransactError ParsedTransactCalldata :=
  if calldata.length < 4 then .error (.calldataTooShort calldata.length)
  else do
    let (transactions, actionData) ← decodeTransactions abi calldata
    match transactions with
    | [] => .error .missingTransactions
    | tx0 :: _ =>
      let parsedTransactions ← transactions.mapM fun transaction =>
        ParsedTransactTransaction.fromTransaction crypto abi transaction txidVersion
      match parsedTransactions with
      | [] => .error .missingTransactions
      | metadata :: _ =>
        match tx0.commitments with
        | [] => .error .missingCommitment
        | feeCommitment :: _ =>
          match tx0.boundParams.commitmentCiphertext with
          | [] => .error .missingCommitmentCiphertext
          | ciphertext :: _ =>
            let plaintext ← decryptFee crypto ciphertext viewingPrivkey
            if plaintext.length < 96 then .error (.plaintextTooShort plaintext.length)
            else if slice plaintext 32 44 ≠ List.replicate 12 0 then .error .invalidTokenHash
            else
              return { feeToken := wordAt 160 plaintext 44 64,
                       feeAmount := wordAt 256 plaintext 80 96,
                       railgunTxid := metadata.railgunTxid,
                       utxoTreeIn := metadata.utxoTreeIn, feeCommitment,
                       feeNoteNpk :=
                         Note.npkFor crypto receiverMasterPublicKey (wordAt 128 plaintext 64 80),
                       txNullifiersLen := metadata.txNullifiersLen,
                       txCommitmentsOutLen := metadata.txCommitmentsOutLen,
                       transactions := parsedTransactions, actionData }

end Parse

end Railgun
