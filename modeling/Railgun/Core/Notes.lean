import Railgun.Core.WalletArtifacts

/-!
# Notes

A note belongs to the wallet whose master public key, hashed with the random of
the note, is the public key of the note. Its commitment is the hash of that key,
the token and the value. A sender puts the token, the random and the value into a
ciphertext for the receiver, and what is in the ciphertext is up to the sender.

The hashes, the key agreement and the decryption are parameters.

## Main definitions

* `NoteCrypto`: The functions of other libraries.
* `CommitmentPreimage`, `CommitmentCiphertext`, `ShieldCiphertext`: Structures of
  the contract.
* `Note.commitment`, `Note.npkFor`: The hashes of a note.
* `Note.decryptV2`, `decryptShieldRandom`, `decryptLegacyRandom`: What the
  receiver of a ciphertext reads.
-/

namespace Railgun

open WalletScanArtifactCursor (fromBeBytes)

/-- The bytes of a number, the highest first. -/
def toBeBytes (count value : Nat) : List UInt8 :=
  (List.range count).map fun i => UInt8.ofNat (value / 256 ^ (count - 1 - i))

/-- The bytes of a word, the highest first. -/
def Bytes32.toBytes (word : Bytes32) : List UInt8 := toBeBytes 32 word.toNat

/-- The bytes from one position to another. -/
def slice (bytes : List UInt8) (start stop : Nat) : List UInt8 := (bytes.take stop).drop start

/-- The word whose bytes stand between two positions. -/
def wordAt (width : Nat) (bytes : List UInt8) (start stop : Nat) : BitVec width :=
  .ofNat width (fromBeBytes (slice bytes start stop))

/-- A token as the contract describes it. -/
structure TokenData where
  tokenType : Nat
  tokenAddress : Address
  tokenSubId : U256
deriving DecidableEq, Repr

/-- What a shield commits to. -/
structure CommitmentPreimage where
  npk : Bytes32
  token : TokenData
  value : BitVec 120
deriving DecidableEq, Repr

/-- What the recipient of a shield can decrypt. -/
structure ShieldCiphertext where
  encryptedBundle : Vector Bytes32 3
  shieldKey : Bytes32
deriving DecidableEq, Repr

/-- What sender and recipient of a note can decrypt. -/
structure CommitmentCiphertext where
  ciphertext : Vector Bytes32 4
  blindedSenderViewingKey : Bytes32
  blindedReceiverViewingKey : Bytes32
  annotationData : List UInt8
  memo : List UInt8
deriving DecidableEq, Repr

/-- What a shield of the legacy contract commits to. -/
structure LegacyCommitmentPreimage where
  npk : U256
  token : TokenData
  value : BitVec 120
deriving DecidableEq, Repr

/-- The ciphertext of the legacy contract. -/
structure LegacyCommitmentCiphertext where
  ciphertext : Vector Bytes32 4
  ephemeralKeys : Vector Bytes32 2
  memo : List Bytes32
deriving DecidableEq, Repr

/-- Why encryption or decryption fails. -/
inductive AesGcmError where
  | invalidKey
  | randomFailed
  | encryptFailed
  | decryptFailed
deriving DecidableEq, Repr

/-- Why a note could not be read. -/
inductive NoteDecryptError where
  | ciphertextTooShort
  | aesGcm (error : AesGcmError)
deriving DecidableEq, Repr

/-- The primitives that notes rest on. -/
structure NoteCrypto where
  poseidon : List U256 → U256
  hashToScalar : List UInt8 → U256
  encodeTokenData : TokenData → List UInt8
  sharedSymmetricKey : (viewingPrivateKey blindedPublicKey : Bytes32) → Option Bytes32
  sharedSymmetricKeyLegacy : (viewingPrivateKey blindedPublicKey : Bytes32) → Option Bytes32
  decryptInPlace16bIv : (key : Bytes32) → (iv tag : BitVec 128) → (buffer : List UInt8) →
    Except AesGcmError (List UInt8)

/-- The nonce and the tag of a word. -/
def splitIvTag (ivTag : Bytes32) : BitVec 128 × BitVec 128 :=
  (ivTag.extractLsb' 128 128, ivTag.extractLsb' 0 128)

/-- The first word of a ciphertext is its initialization vector and tag. -/
def ciphertextIvTag (ciphertext : Vector Bytes32 4) : BitVec 128 × BitVec 128 :=
  splitIvTag (ciphertext.get 0)

/-- The other words are encrypted, and so is the memo. -/
def ciphertextBuffer (ciphertext : Vector Bytes32 4) (memo : List UInt8) : List UInt8 :=
  (ciphertext.get 1).toBytes ++ (ciphertext.get 2).toBytes ++ (ciphertext.get 3).toBytes ++ memo

section Notes

variable (crypto : NoteCrypto)

/-- The token of a note: the address, or a hash for tokens that are not ERC-20. -/
def TokenData.tokenId (token : TokenData) : U256 :=
  if token.tokenType = 0 then tokenHash token.tokenAddress
  else crypto.hashToScalar (crypto.encodeTokenData token)

/-- The commitment of a shield. -/
def CommitmentPreimage.hash (preimage : CommitmentPreimage) : U256 :=
  crypto.poseidon [preimage.npk, preimage.token.tokenId crypto, preimage.value.setWidth 256]

/-- The note of a shield. -/
def CommitmentPreimage.noteWithRandom (preimage : CommitmentPreimage) (random : BitVec 128) :
    Note :=
  { tokenHash := preimage.token.tokenId crypto, value := preimage.value.setWidth 256, random,
    npk := preimage.npk }

/-- The commitment of a legacy shield. -/
def LegacyCommitmentPreimage.hash (preimage : LegacyCommitmentPreimage) : U256 :=
  crypto.poseidon [preimage.npk, preimage.token.tokenId crypto, preimage.value.setWidth 256]

namespace Note

/-- The commitment of a note. -/
def commitment (note : Note) : U256 := crypto.poseidon [note.npk, note.tokenHash, note.value]

/-- The public key of the notes of a wallet with some random. -/
def npkFor (masterPublicKey : U256) (random : BitVec 128) : U256 :=
  crypto.poseidon [masterPublicKey, random.setWidth 256]

/-- The note that a plaintext describes, if it is for the receiver. The first word
    is the key of the other party and is not looked at. -/
def ofPlaintext (plaintext : List UInt8) (receiverMpk : U256) : Note :=
  let random := wordAt 128 plaintext 64 80
  { tokenHash := wordAt 256 plaintext 32 64, value := wordAt 256 plaintext 80 96, random,
    npk := npkFor crypto receiverMpk random }

/-- The note in a ciphertext. -/
def decryptV2 (ciphertext : Vector Bytes32 4) (memo : List UInt8) (sharedKey : Bytes32)
    (receiverMpk : U256) : Except NoteDecryptError Note := do
  let (iv, tag) := ciphertextIvTag ciphertext
  let plaintext ← (crypto.decryptInPlace16bIv sharedKey iv tag
    (ciphertextBuffer ciphertext memo)).mapError .aesGcm
  if plaintext.length < 96 then .error .ciphertextTooShort
  else return ofPlaintext crypto plaintext receiverMpk

end Note

/-- The random value of a shield. -/
def decryptShieldRandom (encryptedBundle : Vector Bytes32 3) (sharedKey : Bytes32) :
    Except NoteDecryptError (BitVec 128) := do
  let (iv, tag) := splitIvTag (encryptedBundle.get 0)
  let plaintext ← (crypto.decryptInPlace16bIv sharedKey iv tag
    ((encryptedBundle.get 1).toBytes.take 16)).mapError .aesGcm
  if plaintext.length < 16 then .error .ciphertextTooShort
  else return wordAt 128 plaintext 0 16

/-- The random value of a legacy shield. -/
def decryptLegacyRandom (ivTag : Bytes32) (data : List UInt8) (viewingPrivateKey : Bytes32) :
    Except NoteDecryptError (BitVec 128) := do
  let (iv, tag) := splitIvTag ivTag
  let plaintext ← (crypto.decryptInPlace16bIv viewingPrivateKey iv tag data).mapError .aesGcm
  if plaintext.length < 16 then .error .ciphertextTooShort
  else return wordAt 128 plaintext 0 16

end Notes

/-- A stand-in: hashes are sums, and decryption leaves the bytes as they are. -/
def sampleCrypto : NoteCrypto where
  poseidon := fun values => values.sum
  hashToScalar := fun _ => 0
  encodeTokenData := fun _ => []
  sharedSymmetricKey := fun _ key => some key
  sharedSymmetricKeyLegacy := fun _ key => some key
  decryptInPlace16bIv := fun _ _ _ buffer => .ok buffer

end Railgun
