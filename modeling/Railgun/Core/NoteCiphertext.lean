import Railgun.Core.WalletScan

/-!
# Sending a Note

The sender of a note encrypts it under a key that both parties can compute. With
the note goes the master key of the receiver, for the sender to read the note
later. It is hidden with the key of the sender if the sender stays anonymous to
the receiver, and the sender does not record which.

## Main definitions

* `SenderCrypto`: The functions of other libraries.
-/

namespace Railgun

/-- The primitives that the sender uses. -/
structure SenderCrypto extends NoteCrypto where
  viewingPublicKey : (viewingPrivateKey : Bytes32) → Bytes32
  noteBlindingKeys : (senderViewingPublicKey receiverViewingPublicKey : Bytes32) →
    (sharedRandom : BitVec 128) → (senderRandom : BitVec 120) → Option (Bytes32 × Bytes32)
  encryptInPlaceWithIv : (key : Bytes32) → (iv : BitVec 128) → (buffer : List UInt8) →
    Except AesGcmError (BitVec 128 × List UInt8)

/-- Why a note cannot be encrypted. -/
inductive NoteEncryptError where
  | invalidKey
  | encryptFailed
  | invalidViewingKey
deriving DecidableEq, Repr

/-- An error of the cipher as one of the note. -/
def NoteEncryptError.ofAesGcm : AesGcmError → NoteEncryptError
  | .invalidKey => .invalidKey
  | _ => .encryptFailed

section Sender

variable (crypto : SenderCrypto)

/-- The address of the keys. -/
def ViewingKeyData.addressData (keys : ViewingKeyData) : AddressData where
  masterPublicKey := keys.masterPublicKey
  viewingPublicKey := crypto.viewingPublicKey keys.viewingPrivateKey

/-- What is encrypted. Only the lower half of the value is kept. -/
def v2Plaintext (encodedMpk : U256) (note : Note) : List UInt8 :=
  Bytes32.toBytes encodedMpk ++ Bytes32.toBytes note.tokenHash ++ toBeBytes 16 note.random.toNat ++
    (Bytes32.toBytes note.value).drop 16

/-- The encrypted words: nonce and tag, then the data. -/
def encryptV2Payload (iv : BitVec 128) (sharedKey : Bytes32) (encodedMpk : U256) (note : Note) :
    Except NoteEncryptError (Vector Bytes32 4) := do
  let (tag, buffer) ← (crypto.encryptInPlaceWithIv sharedKey iv
    (v2Plaintext encodedMpk note)).mapError .ofAesGcm
  return #v[iv ++ tag, wordAt 256 buffer 0 32, wordAt 256 buffer 32 64, wordAt 256 buffer 64 96]

/-- The random values that are drawn are arguments. -/
def tryFromNote (senderRandom : BitVec 120) (iv : BitVec 128) (note : Note)
    (sender receiver : AddressData) (senderViewingPrivateKey : Bytes32) :
    Except NoteEncryptError CommitmentCiphertext :=
  match crypto.noteBlindingKeys sender.viewingPublicKey receiver.viewingPublicKey note.random
      senderRandom with
  | none => .error .invalidViewingKey
  | some (blindedSender, blindedReceiver) =>
    match crypto.sharedSymmetricKey senderViewingPrivateKey blindedReceiver with
    | none => .error .invalidViewingKey
    | some sharedKey => do
      let encodedMpk := if senderRandom = 0 then
        receiver.masterPublicKey ^^^ sender.masterPublicKey else receiver.masterPublicKey
      let ciphertext ← encryptV2Payload crypto iv sharedKey encodedMpk note
      return { ciphertext, blindedSenderViewingKey := blindedSender,
               blindedReceiverViewingKey := blindedReceiver, annotationData := [], memo := [] }

/-- Both ways in which the key of the receiver may be hidden are tried. -/
def decryptSenderNote (ciphertext : CommitmentCiphertext) (expectedCommitment : U256)
    (scanKeys : ViewingKeyData) : Option Note :=
  if ciphertext.blindedReceiverViewingKey = 0 then none
  else do
    let sharedKey ← crypto.sharedSymmetricKey scanKeys.viewingPrivateKey
      ciphertext.blindedReceiverViewingKey
    let (iv, tag) := ciphertextIvTag ciphertext.ciphertext
    let plaintext ← (crypto.decryptInPlace16bIv sharedKey iv tag
      (ciphertextBuffer ciphertext.ciphertext ciphertext.memo)).toOption
    if plaintext.length < 96 then none
    else
      let encodedMpk : U256 := wordAt 256 plaintext 0 32
      ([encodedMpk ^^^ scanKeys.masterPublicKey, encodedMpk].map
        (Note.ofPlaintext crypto.toNoteCrypto plaintext)).find?
          fun note => note.commitment crypto.toNoteCrypto == expectedCommitment

end Sender

end Railgun
