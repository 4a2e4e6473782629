import Railgun.Core.NoteCiphertext
import Railgun.Lib.Fallible
import Railgun.Theory.Bytes

/-!
# Notes Both Parties Can Read

The plaintext has its fields at fixed places, so that what is put in is read back
as long as the value fits in its field. The sender finds the key of the receiver
among the two candidates by the commitment.

## Main definitions

* `SenderCrypto.Lawful`: What is assumed of the other libraries.

## Theorems

* `ofPlaintext_v2Plaintext`: A note is read as it was written.
* `decryptSenderNote_commitment`: The sender gets the note that was asked for.
* `sent_note_recoverable`: Both parties read the note that was sent.
-/

namespace Railgun

open Note
open Bytes32 (toBytes)

theorem length_v2Plaintext (encodedMpk : U256) (note : Note) :
    (v2Plaintext encodedMpk note).length = 96 := by
  simp [v2Plaintext, toBytes, length_toBeBytes]

theorem ofPlaintext_v2Plaintext (crypto : NoteCrypto) (encodedMpk receiverMpk : U256) {note : Note}
    (hvalue : note.value.toNat < 2 ^ 128) :
    ofPlaintext crypto (v2Plaintext encodedMpk note) receiverMpk =
      { note with npk := npkFor crypto receiverMpk note.random } := by
  have hlow : (toBytes note.value).drop 16 = toBeBytes 16 note.value.toNat :=
    drop_toBeBytes 16 16 _
  have htoken : wordAt 256 (v2Plaintext encodedMpk note) 32 64 = note.tokenHash := by
    rw [v2Plaintext, List.append_assoc, List.append_assoc, toBytes, toBytes,
      wordAt_append note.tokenHash.isLt (length_toBeBytes ..) rfl, BitVec.ofNat_toNat,
      BitVec.setWidth_eq]
  have hrandom : wordAt 128 (v2Plaintext encodedMpk note) 64 80 = note.random := by
    rw [v2Plaintext, List.append_assoc, wordAt_append note.random.isLt (by
      simp only [toBytes, List.length_append, length_toBeBytes]) rfl, BitVec.ofNat_toNat,
      BitVec.setWidth_eq]
  have hword : wordAt 256 (v2Plaintext encodedMpk note) 80 96 = note.value := by
    rw [v2Plaintext, hlow, ← List.append_nil (toBeBytes 16 note.value.toNat),
      wordAt_append hvalue (by
        simp only [toBytes, List.length_append, length_toBeBytes]) rfl, BitVec.ofNat_toNat,
      BitVec.setWidth_eq]
  rw [ofPlaintext, htoken, hrandom, hword]

theorem wordAt_v2Plaintext (encodedMpk : U256) (note : Note) :
    wordAt 256 (v2Plaintext encodedMpk note) 0 32 = encodedMpk := by
  rw [v2Plaintext, List.append_assoc, List.append_assoc, toBytes,
    ← List.nil_append (toBeBytes 32 encodedMpk.toNat ++ _),
    wordAt_append encodedMpk.isLt List.length_nil (Nat.zero_add 32), BitVec.ofNat_toNat,
    BitVec.setWidth_eq]

theorem ciphertextBuffer_words {ivTag : Bytes32} {buffer : List UInt8} (h : buffer.length = 96) :
    ciphertextBuffer #v[ivTag, wordAt 256 buffer 0 32, wordAt 256 buffer 32 64,
      wordAt 256 buffer 64 96] [] = buffer := by
  change toBytes (wordAt 256 buffer 0 32) ++ toBytes (wordAt 256 buffer 32 64) ++
    toBytes (wordAt 256 buffer 64 96) ++ [] = _
  rw [toBytes_wordAt (by omega) rfl, toBytes_wordAt (by omega) rfl, toBytes_wordAt (by omega) rfl,
    ← slice_append (by omega) (by omega), ← slice_append (by omega) (by omega), List.append_nil,
    slice, List.drop_zero, List.take_of_length_le (Nat.le_of_eq h)]

theorem splitIvTag_append (iv tag : BitVec 128) : splitIvTag (iv ++ tag) = (iv, tag) :=
  Prod.ext BitVec.extractLsb'_append_eq_left BitVec.extractLsb'_append_eq_right

/-- What is assumed of the other libraries: each party finds the same key with its
    own private key and the blinded key of the other, and what is encrypted can be
    decrypted. -/
structure SenderCrypto.Lawful (crypto : SenderCrypto) : Prop where
  agree : ∀ {sender receiver sharedRandom senderRandom blindedSender blindedReceiver},
    crypto.noteBlindingKeys (crypto.viewingPublicKey sender) (crypto.viewingPublicKey receiver)
      sharedRandom senderRandom = some (blindedSender, blindedReceiver) →
    crypto.sharedSymmetricKey sender blindedReceiver =
      crypto.sharedSymmetricKey receiver blindedSender ∧ blindedReceiver ≠ 0
  roundTrip : ∀ key iv plaintext, plaintext.length = 96 → ∃ tag buffer,
    crypto.encryptInPlaceWithIv key iv plaintext = .ok (tag, buffer) ∧ buffer.length = 96 ∧
      crypto.decryptInPlace16bIv key iv tag buffer = .ok plaintext

section Recover

variable {crypto : SenderCrypto}

theorem decryptSenderNote_commitment {ciphertext : CommitmentCiphertext} {expectedCommitment : U256}
    {scanKeys : ViewingKeyData} {note : Note}
    (h : decryptSenderNote crypto ciphertext expectedCommitment scanKeys = some note) :
    note.commitment crypto.toNoteCrypto = expectedCommitment := by
  unfold decryptSenderNote at h
  split at h
  case isTrue => cases h
  obtain ⟨sharedKey, -, h⟩ := Option.bind_eq_some_iff.mp h
  obtain ⟨plaintext, -, h⟩ := Option.bind_eq_some_iff.mp h
  dsimp only at h
  split at h
  case isTrue => cases h
  have hfound := List.find?_some h
  exact eq_of_beq hfound

theorem encryptV2Payload_roundTrip (hcrypto : crypto.Lawful) (iv : BitVec 128) (sharedKey : Bytes32)
    (encodedMpk : U256) (note : Note) :
    ∃ ciphertext, encryptV2Payload crypto iv sharedKey encodedMpk note = .ok ciphertext ∧
      crypto.decryptInPlace16bIv sharedKey (ciphertextIvTag ciphertext).1
        (ciphertextIvTag ciphertext).2 (ciphertextBuffer ciphertext []) =
          .ok (v2Plaintext encodedMpk note) := by
  obtain ⟨tag, buffer, hencrypt, hlength, hdecrypt⟩ :=
    hcrypto.roundTrip sharedKey iv _ (length_v2Plaintext encodedMpk note)
  refine ⟨_, by rw [encryptV2Payload, hencrypt]; rfl, ?_⟩
  change crypto.decryptInPlace16bIv _ (splitIvTag (iv ++ tag)).1 (splitIvTag (iv ++ tag)).2 _ = _
  rw [splitIvTag_append, ciphertextBuffer_words hlength, hdecrypt]

theorem find?_candidates {encodedMpk senderMpk : U256} {note : Note} {receiverMpk : U256}
    (hnpk : note.npk = npkFor crypto.toNoteCrypto receiverMpk note.random)
    (hvalue : note.value.toNat < 2 ^ 128)
    (hencoded : encodedMpk = receiverMpk ^^^ senderMpk ∨ encodedMpk = receiverMpk)
    (hcollision : crypto.poseidon [npkFor crypto.toNoteCrypto (receiverMpk ^^^ senderMpk)
      note.random, note.tokenHash, note.value] = note.commitment crypto.toNoteCrypto →
      npkFor crypto.toNoteCrypto (receiverMpk ^^^ senderMpk) note.random = note.npk) :
    ([encodedMpk ^^^ senderMpk, encodedMpk].map
      (ofPlaintext crypto.toNoteCrypto (v2Plaintext encodedMpk note))).find?
        (fun candidate => candidate.commitment crypto.toNoteCrypto ==
          note.commitment crypto.toNoteCrypto) = some note := by
  have hnote : { note with npk := npkFor crypto.toNoteCrypto receiverMpk note.random } = note := by
    rw [← hnpk]
  simp only [List.map_cons, List.map_nil, ofPlaintext_v2Plaintext _ _ _ hvalue]
  obtain rfl | rfl := hencoded
  · rw [BitVec.xor_assoc, BitVec.xor_self, BitVec.xor_zero, hnote]
    simp only [List.find?_cons, beq_self_eq_true]
  · rw [hnote]
    by_cases hsame : commitment crypto.toNoteCrypto { note with
        npk := npkFor crypto.toNoteCrypto (encodedMpk ^^^ senderMpk) note.random } =
          note.commitment crypto.toNoteCrypto
    · simp only [List.find?_cons, beq_self_eq_true, hcollision hsame]
    · simp [beq_eq_false_iff_ne.mpr hsame]

/-- The receiver and the sender both read the note that was sent, whatever the
    random of the sender, and the sender never reads a note with another
    commitment. -/
theorem sent_note_recoverable (hcrypto : crypto.Lawful) (sender receiver : ViewingKeyData)
    (senderRandom : BitVec 120) (iv : BitVec 128) (note : Note)
    (hnpk : note.npk = npkFor crypto.toNoteCrypto receiver.masterPublicKey note.random)
    (hvalue : note.value.toNat < 2 ^ 128)
    (hcollision : crypto.poseidon [npkFor crypto.toNoteCrypto
      (receiver.masterPublicKey ^^^ sender.masterPublicKey) note.random, note.tokenHash,
      note.value] = note.commitment crypto.toNoteCrypto →
      npkFor crypto.toNoteCrypto (receiver.masterPublicKey ^^^ sender.masterPublicKey)
        note.random = note.npk)
    {blindedSender blindedReceiver sharedKey : Bytes32}
    (hblinding : crypto.noteBlindingKeys (sender.addressData crypto).viewingPublicKey
      (receiver.addressData crypto).viewingPublicKey note.random senderRandom =
        some (blindedSender, blindedReceiver))
    (hkey : crypto.sharedSymmetricKey sender.viewingPrivateKey blindedReceiver = some sharedKey) :
    (∃ ciphertext, tryFromNote crypto senderRandom iv note (sender.addressData crypto)
        (receiver.addressData crypto) sender.viewingPrivateKey = .ok ciphertext ∧
      (∃ key, crypto.sharedSymmetricKey receiver.viewingPrivateKey
          ciphertext.blindedSenderViewingKey = some key ∧
        decryptV2 crypto.toNoteCrypto ciphertext.ciphertext ciphertext.memo key
          receiver.masterPublicKey = .ok note) ∧
      decryptSenderNote crypto ciphertext (note.commitment crypto.toNoteCrypto) sender =
        some note) ∧
    ∀ ciphertext expectedCommitment scanKeys found,
      decryptSenderNote crypto ciphertext expectedCommitment scanKeys = some found →
        found.commitment crypto.toNoteCrypto = expectedCommitment := by
  refine ⟨?_, fun _ _ _ _ => decryptSenderNote_commitment⟩
  obtain ⟨hagree, hnonzero⟩ := hcrypto.agree hblinding
  have hlong (encodedMpk : U256) : ¬(v2Plaintext encodedMpk note).length < 96 :=
    Nat.not_lt.mpr (length_v2Plaintext ..).ge
  have hencoded : (if senderRandom = 0 then receiver.masterPublicKey ^^^ sender.masterPublicKey
      else receiver.masterPublicKey) = receiver.masterPublicKey ^^^ sender.masterPublicKey ∨
      (if senderRandom = 0 then receiver.masterPublicKey ^^^ sender.masterPublicKey
      else receiver.masterPublicKey) = receiver.masterPublicKey := ite_eq_or_eq ..
  generalize hmpk : (if senderRandom = 0 then receiver.masterPublicKey ^^^ sender.masterPublicKey
      else receiver.masterPublicKey) = encodedMpk at hencoded
  obtain ⟨ciphertext, hencrypt, hdecrypt⟩ :=
    encryptV2Payload_roundTrip hcrypto iv sharedKey encodedMpk note
  refine ⟨⟨ciphertext, blindedSender, blindedReceiver, [], []⟩, ?_,
    ⟨sharedKey, hagree ▸ hkey, ?_⟩, ?_⟩
  · simp only [tryFromNote, hblinding, hkey]
    dsimp only [ViewingKeyData.addressData]
    rw [hmpk, hencrypt]
    rfl
  · simp only [decryptV2, hdecrypt]
    change (if (v2Plaintext encodedMpk note).length < 96 then Except.error .ciphertextTooShort
      else .ok _) = _
    rw [if_neg (hlong encodedMpk), ofPlaintext_v2Plaintext _ _ _ hvalue, ← hnpk]
  · simp only [decryptSenderNote, if_neg hnonzero, hkey, Option.bind_eq_bind, Option.bind_some,
      hdecrypt]
    change (if (v2Plaintext encodedMpk note).length < 96 then none else _) = _
    rw [if_neg (hlong encodedMpk), wordAt_v2Plaintext]
    exact find?_candidates hnpk hvalue hencoded hcollision

end Recover

/-- A stand-in: keys are added, and encryption leaves the bytes as they are. -/
def sampleSenderCrypto : SenderCrypto where
  toNoteCrypto := { sampleCrypto with
    sharedSymmetricKey := fun privateKey publicKey => some (privateKey + publicKey) }
  viewingPublicKey := id
  noteBlindingKeys := fun sender receiver _ _ =>
    if receiver = 0 then none else some (sender, receiver)
  encryptInPlaceWithIv := fun _ _ buffer => .ok (0, buffer)

theorem sampleSenderCrypto_lawful : sampleSenderCrypto.Lawful where
  agree := by
    intro sender receiver _ _ blindedSender blindedReceiver h
    obtain ⟨hreceiver, heq⟩ := ite_eq_iff.mp h |>.resolve_left (fun h => nomatch h.2)
    cases heq
    exact ⟨congrArg some (BitVec.add_comm ..), hreceiver⟩
  roundTrip := fun _ _ plaintext h => ⟨0, plaintext, rfl, h, rfl⟩

/-- Both parties read the note, of an anonymous sender and of one that is not. -/
theorem sent_note_recoverable_sum :
    let sender : ViewingKeyData := { viewingPrivateKey := 1, masterPublicKey := 5 }
    let receiver : ViewingKeyData := { viewingPrivateKey := 2, masterPublicKey := 9 }
    let note : Note := { tokenHash := 7, value := 100, random := 3, npk := 12 }
    let recovers (senderRandom : BitVec 120) : Prop :=
      ∃ ciphertext, tryFromNote sampleSenderCrypto senderRandom 0 note
          (sender.addressData sampleSenderCrypto) (receiver.addressData sampleSenderCrypto)
          sender.viewingPrivateKey = .ok ciphertext ∧
        (∃ key, sampleSenderCrypto.sharedSymmetricKey receiver.viewingPrivateKey
            ciphertext.blindedSenderViewingKey = some key ∧
          decryptV2 sampleSenderCrypto.toNoteCrypto ciphertext.ciphertext ciphertext.memo key
            receiver.masterPublicKey = .ok note) ∧
        decryptSenderNote sampleSenderCrypto ciphertext 119 sender = some note
    recovers 0 ∧ recovers 1 := by
  intro sender receiver note recovers
  have hrecovers : ∀ senderRandom, recovers senderRandom := fun senderRandom =>
    (sent_note_recoverable sampleSenderCrypto_lawful sender receiver senderRandom 0 note
      (by decide) (by decide) (by decide) rfl rfl).1
  exact ⟨hrecovers 0, hrecovers 1⟩

end Railgun
