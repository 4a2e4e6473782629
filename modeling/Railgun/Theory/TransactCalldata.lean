import Railgun.Core.TransactCalldata
import Railgun.Lib.Fallible
import Railgun.Theory.Bytes

/-!
# The Fee that a Broadcaster Reads

The fee comes from the ciphertext, the commitment from the transaction, and the
two are not compared. The sender writes both. A call that shows a fee is reported
whatever its commitment is, so the reported fee is what the commitment pays exactly
if the sender has been honest about it.

## Main definitions

* `CarriesNote`: The note a plaintext describes.
* `ShowsFee`: A call shows a commitment and the plaintext of a fee.
* `HonestFee`: The commitment is that of a note which the plaintext describes.
* `Reports`: What a report says of a commitment and a plaintext.

## Theorems

* `tokenHash_wordAt`: The token in a plaintext.
* `parseTransactCalldata_eq_ok`: What is reported is what the call shows.
* `parseTransactCalldata_of_showsFee`: What a call shows is reported.
* `feeCommitment_iff`: When the fee is what the commitment pays.
* `feeCommitment_forged`: A report with a fee that nobody pays.
* `feeCommitment_iff_honest`: A sender who is honest.
-/

namespace Railgun

open WalletScanArtifactCursor (fromBeBytes)
open ParsedTransactTransaction (fromTransaction)

theorem tokenHash_wordAt {plaintext : List UInt8}
    (hzero : slice plaintext 32 44 = List.replicate 12 0) :
    tokenHash (wordAt 160 plaintext 44 64) = wordAt 256 plaintext 32 64 := by
  have hlow : fromBeBytes (slice plaintext 44 64) < 2 ^ 160 := by
    refine Nat.lt_of_lt_of_le (fromBeBytes_lt _) ?_
    have hlength : (slice plaintext 44 64).length ≤ 20 := by
      unfold slice
      rw [List.length_drop, List.length_take]
      omega
    calc 256 ^ (slice plaintext 44 64).length ≤ 256 ^ 20 := Nat.pow_le_pow_right (by omega) hlength
      _ = 2 ^ 160 := by norm_num
  have hvalue : fromBeBytes (slice plaintext 32 64) = fromBeBytes (slice plaintext 44 64) := by
    rw [slice_append (by omega : 32 ≤ 44) (by omega : 44 ≤ 64), fromBeBytes_append,
      hzero, show fromBeBytes (List.replicate 12 0) = 0 from rfl, Nat.zero_mul, Nat.zero_add]
  apply BitVec.eq_of_toNat_eq
  rw [tokenHash, wordAt, wordAt, BitVec.toNat_setWidth, BitVec.toNat_ofNat, BitVec.toNat_ofNat,
    hvalue, Nat.mod_eq_of_lt hlow]

/-- A plaintext has the fields of a note. -/
structure CarriesNote (plaintext : List UInt8) (note : Note) : Prop where
  tokenHash_eq : note.tokenHash = wordAt 256 plaintext 32 64
  random_eq : note.random = wordAt 128 plaintext 64 80
  value_eq : note.value = wordAt 256 plaintext 80 96

section Parse

variable (crypto : NoteCrypto) (abi : CalldataAbi)

/-- A call shows a fee: it calls a known function in a supported version, its first
    transaction has this commitment first, and the first ciphertext opens to a plaintext
    that names a token. -/
structure ShowsFee (calldata : List UInt8) (viewingPrivkey : Bytes32)
    (txidVersion : Option String) (commitment : Bytes32) (plaintext : List UInt8) : Prop where
  four_le_length : 4 ≤ calldata.length
  version_eq : txidVersion.getD defaultTxidVersion = defaultTxidVersion
  opens : ∃ transaction rest actionData ciphertext,
    decodeTransactions abi calldata = .ok (transaction :: rest, actionData) ∧
      transaction.commitments.head? = some commitment ∧
      transaction.boundParams.commitmentCiphertext.head? = some ciphertext ∧
      decryptFee crypto ciphertext viewingPrivkey = .ok plaintext
  length_plaintext : 96 ≤ plaintext.length
  token_eq : slice plaintext 32 44 = List.replicate 12 0

/-- If a call shows a fee, its first commitment is that of a note of the receiver, and
    the ciphertext carries this note. -/
def HonestFee (calldata : List UInt8) (viewingPrivkey : Bytes32) (receiverMasterPublicKey : U256)
    (txidVersion : Option String) : Prop :=
  ∀ commitment plaintext,
    ShowsFee crypto abi calldata viewingPrivkey txidVersion commitment plaintext →
    ∃ note : Note, note.npk = Note.npkFor crypto receiverMasterPublicKey note.random ∧
      CarriesNote plaintext note ∧ note.commitment crypto = commitment

/-- A report of this commitment and of the fee in this plaintext. -/
structure Reports (receiverMasterPublicKey : U256) (commitment : Bytes32) (plaintext : List UInt8)
    (parsed : ParsedTransactCalldata) : Prop where
  feeCommitment_eq : parsed.feeCommitment = commitment
  feeToken_eq : tokenHash parsed.feeToken = wordAt 256 plaintext 32 64
  feeAmount_eq : parsed.feeAmount = wordAt 256 plaintext 80 96
  feeNoteNpk_eq :
    parsed.feeNoteNpk = Note.npkFor crypto receiverMasterPublicKey (wordAt 128 plaintext 64 80)

variable {crypto abi} {calldata : List UInt8} {viewingPrivkey : Bytes32}
  {receiverMasterPublicKey : U256} {txidVersion : Option String}

/-- A transaction is parsed only in a supported version. -/
theorem fromTransaction_eq_ok {transaction : Transaction} {parsed : ParsedTransactTransaction}
    (h : fromTransaction crypto abi transaction txidVersion = .ok parsed) :
    txidVersion.getD defaultTxidVersion = defaultTxidVersion := by
  obtain ⟨_, hid, -⟩ := bind_eq_ok.mp h
  obtain ⟨_, hversion, -⟩ := bind_eq_ok.mp hid
  rw [supportedTxidVersion] at hversion
  split at hversion
  · next hsupported => exact hsupported
  · cases hversion

theorem exists_fromTransaction (crypto : NoteCrypto) (abi : CalldataAbi)
    (hversion : txidVersion.getD defaultTxidVersion = defaultTxidVersion)
    (transaction : Transaction) :
    ∃ parsed, fromTransaction crypto abi transaction txidVersion = .ok parsed := by
  rw [fromTransaction, computeRailgunTxid, supportedTxidVersion, if_pos hversion]
  exact ⟨_, rfl⟩

/-- What is reported is what the call shows. -/
theorem parseTransactCalldata_eq_ok {parsed : ParsedTransactCalldata}
    (h : parseTransactCalldata crypto abi calldata viewingPrivkey receiverMasterPublicKey
      txidVersion = .ok parsed) :
    ∃ plaintext,
      ShowsFee crypto abi calldata viewingPrivkey txidVersion parsed.feeCommitment plaintext ∧
        Reports crypto receiverMasterPublicKey parsed.feeCommitment plaintext parsed := by
  unfold parseTransactCalldata at h
  obtain ⟨hlength, h⟩ := ite_error_eq_ok.mp h
  obtain ⟨⟨transactions, actionData⟩, hdecode, h⟩ := bind_eq_ok.mp h
  cases transactions with
  | nil => cases h
  | cons transaction rest =>
    obtain ⟨parsedTransactions, hparsed, h⟩ := bind_eq_ok.mp h
    have hversion : txidVersion.getD defaultTxidVersion = defaultTxidVersion := by
      rw [List.mapM_cons] at hparsed
      obtain ⟨metadata, hmetadata, -⟩ := bind_eq_ok.mp hparsed
      exact fromTransaction_eq_ok hmetadata
    cases parsedTransactions with
    | nil => cases h
    | cons metadata others =>
      cases hcommitments : transaction.commitments with
      | nil =>
        simp only [hcommitments] at h
        cases h
      | cons commitment commitments =>
        cases hciphertexts : transaction.boundParams.commitmentCiphertext with
        | nil =>
          simp only [hcommitments, hciphertexts] at h
          cases h
        | cons ciphertext ciphertexts =>
          simp only [hcommitments, hciphertexts] at h
          obtain ⟨plaintext, hplaintext, h⟩ := bind_eq_ok.mp h
          obtain ⟨hlong, h⟩ := ite_error_eq_ok.mp h
          obtain ⟨hzero, h⟩ := ite_error_eq_ok.mp h
          cases h
          exact ⟨plaintext, ⟨Nat.not_lt.mp hlength, hversion,
              ⟨transaction, rest, actionData, ciphertext, hdecode, by rw [hcommitments]; rfl,
                by rw [hciphertexts]; rfl, hplaintext⟩,
              Nat.not_lt.mp hlong, not_not.mp hzero⟩,
            ⟨rfl, tokenHash_wordAt (not_not.mp hzero), rfl, rfl⟩⟩

/-- Whatever its first commitment is, a call that shows a fee is reported. -/
theorem parseTransactCalldata_of_showsFee {commitment : Bytes32} {plaintext : List UInt8}
    (h : ShowsFee crypto abi calldata viewingPrivkey txidVersion commitment plaintext)
    (receiverMasterPublicKey : U256) :
    ∃ parsed, parseTransactCalldata crypto abi calldata viewingPrivkey receiverMasterPublicKey
        txidVersion = .ok parsed ∧
      Reports crypto receiverMasterPublicKey commitment plaintext parsed := by
  obtain ⟨transaction, rest, actionData, ciphertext, hdecode, hcommitment, hciphertext,
    hplaintext⟩ := h.opens
  obtain ⟨commitments, hcommitments⟩ := List.head?_eq_some_iff.mp hcommitment
  obtain ⟨ciphertexts, hciphertexts⟩ := List.head?_eq_some_iff.mp hciphertext
  choose parse hparse using exists_fromTransaction crypto abi h.version_eq
  have hparsed : (transaction :: rest).mapM (fun transaction =>
      fromTransaction crypto abi transaction txidVersion) =
        .ok ((transaction :: rest).map parse) := by
    rw [funext hparse]
    exact List.mapM_pure
  rw [parseTransactCalldata, if_neg (Nat.not_lt.mpr h.four_le_length), hdecode]
  simp only [bind, Except.bind, hparsed, List.map_cons, hcommitments, hciphertexts, hplaintext]
  rw [if_neg (Nat.not_lt.mpr h.length_plaintext), if_neg (not_not.mpr h.token_eq)]
  exact ⟨_, rfl, rfl, tokenHash_wordAt h.token_eq, rfl, rfl⟩

/-- The reported fee is what the reported commitment pays to the receiver exactly
    if the sender is honest. -/
theorem feeCommitment_iff (crypto : NoteCrypto) (abi : CalldataAbi) (calldata : List UInt8)
    (viewingPrivkey : Bytes32) (receiverMasterPublicKey : U256) (txidVersion : Option String) :
    (∀ parsed, parseTransactCalldata crypto abi calldata viewingPrivkey receiverMasterPublicKey
        txidVersion = .ok parsed →
      parsed.feeCommitment =
        crypto.poseidon [parsed.feeNoteNpk, tokenHash parsed.feeToken, parsed.feeAmount]) ↔
      HonestFee crypto abi calldata viewingPrivkey receiverMasterPublicKey txidVersion := by
  constructor
  · intro hequal commitment plaintext hshows
    obtain ⟨parsed, hparsed, hreports⟩ :=
      parseTransactCalldata_of_showsFee hshows receiverMasterPublicKey
    have hpays := hequal parsed hparsed
    rw [hreports.feeCommitment_eq, hreports.feeNoteNpk_eq, hreports.feeToken_eq,
      hreports.feeAmount_eq] at hpays
    exact ⟨Note.ofPlaintext crypto plaintext receiverMasterPublicKey, rfl, ⟨rfl, rfl, rfl⟩,
      hpays.symm⟩
  · intro hhonest parsed hparsed
    obtain ⟨plaintext, hshows, hreports⟩ := parseTransactCalldata_eq_ok hparsed
    obtain ⟨note, hkey, hcarries, hnote⟩ := hhonest _ _ hshows
    rw [hreports.feeNoteNpk_eq, hreports.feeToken_eq, hreports.feeAmount_eq, ← hnote,
      Note.commitment, hkey, hcarries.tokenHash_eq, hcarries.random_eq, hcarries.value_eq]

end Parse

/-- A transaction with one output, whose ciphertext promises 1000 of token 2. -/
def sampleFeeTransaction (commitment : Bytes32) : Transaction where
  nullifiers := [7]
  commitments := [commitment]
  boundParams :=
    { treeNumber := 0, minGasPrice := 0, unshield := 0, chainId := 1, adaptContract := 0,
      adaptParams := 0,
      commitmentCiphertext :=
        [{ ciphertext := #v[0, 5, 2, 1000], blindedSenderViewingKey := 0,
           blindedReceiverViewingKey := 0, annotationData := [], memo := [] }] }

/-- Every call has one transaction with this commitment. -/
def sampleCalldataAbi (commitment : Bytes32) : CalldataAbi where
  encodeBoundParams := fun _ => []
  decodeTransact := fun _ => some [sampleFeeTransaction commitment]
  decodeRelay := fun _ => none
  decodeRelayAdapt7702Execute := fun _ => none
  decodeExecute := fun _ => none

/-- A commitment to nothing is reported with a fee of 1000. -/
theorem feeCommitment_forged :
    (parseTransactCalldata sampleCrypto (sampleCalldataAbi 0) [1, 2, 3, 4] 0 3 none).map
        (fun parsed => (parsed.feeCommitment, parsed.feeNoteNpk, parsed.feeToken,
          parsed.feeAmount)) = .ok (0, 3, 2, 1000) ∧
      (0 : U256) ≠ sampleCrypto.poseidon [3, tokenHash 2, 1000] := by
  decide +kernel

/-- An honest sender is believed rightly. -/
theorem feeCommitment_iff_honest :
    (∃ parsed, parseTransactCalldata sampleCrypto (sampleCalldataAbi 1005) [1, 2, 3, 4] 0 3 none =
      .ok parsed) ∧
    HonestFee sampleCrypto (sampleCalldataAbi 1005) [1, 2, 3, 4] 0 3 none := by
  refine ⟨⟨_, rfl⟩, (feeCommitment_iff _ _ _ _ _ _).mp fun parsed hparsed => ?_⟩
  cases hparsed
  decide +kernel

end Railgun
