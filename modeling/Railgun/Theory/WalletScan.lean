import Railgun.Core.WalletScan
import Railgun.Lib.Fallible

/-!
# Whose Notes the Scanner Finds

A note can be spent by the wallet if its public key belongs to the wallet and its
commitment is the one on chain. Three kinds of rows are checked: two recompute the
commitment of a note that has been built from the keys of the wallet, one compares
the public keys. A shield is taken as soon as its random can be decrypted. Whoever
shields can encrypt for one wallet and pay another, so the scanner is right about
shields exactly if nobody has done that.

## Main definitions

* `Leaf`, `SpendableAt`: A commitment on chain, and a note that the wallet can spend
  there.
* `HonestShield`: Who can decrypt a shield is who it belongs to.
* `RailgunEvent.leaves`: The commitments of an event.

## Theorems

* `utxos_fromRows`: The notes that are found are those of the rows.
* `mem_rows_fromLogs`: The rows are those of the events.
* `scan_spendable_iff`: When all notes that are found can be spent.
* `scanShield_forged`: A note that is found and belongs to somebody else.
-/

namespace Railgun

open WalletScanInputRows
open WalletScanArtifactCursor (fromBeBytes)
open WalletScanDelta (fromRows)

/-- A commitment on chain: where its row says it is, and its hash. -/
structure Leaf where
  treeNumber : Nat
  treePosition : Nat
  commitment : U256
deriving DecidableEq, Repr

section SpendableAt

variable (crypto : NoteCrypto) (keys : ViewingKeyData)

/-- A note of the wallet that is this leaf at its place. -/
structure SpendableAt (leaf : Leaf) (utxo : ScannedUtxo) : Prop where
  npk_eq : utxo.note.npk = Note.npkFor crypto keys.masterPublicKey utxo.note.random
  commitment_eq : utxo.note.commitment crypto = leaf.commitment
  place_eq : utxo.place = normalizeTreePosition leaf.treeNumber leaf.treePosition

/-- If the wallet can decrypt a shield, then it is for the wallet. -/
def HonestShield (preimage : CommitmentPreimage) (ciphertext : ShieldCiphertext) : Prop :=
  ∀ sharedKey random,
    crypto.sharedSymmetricKey keys.viewingPrivateKey ciphertext.shieldKey = some sharedKey →
    decryptShieldRandom crypto ciphertext.encryptedBundle sharedKey = .ok random →
    preimage.npk = Note.npkFor crypto keys.masterPublicKey random

end SpendableAt

/-- A row of any kind. -/
inductive ScanRow (decoders : ContractDecoders) where
  | transact (row : IndexedTransactCommitmentInput decoders.abi)
  | shield (row : IndexedShieldCommitmentInput decoders.abi)
  | legacyEncrypted (row : IndexedLegacyEncryptedCommitmentInput decoders.abi)
  | legacyGenerated (row : IndexedLegacyGeneratedCommitmentInput decoders.abi)

namespace ScanRow

variable (crypto : NoteCrypto) (keys : ViewingKeyData) {decoders : ContractDecoders}

/-- The note of a row. -/
def scan : ScanRow decoders → Option ScannedUtxo
  | transact row => row.scan crypto keys
  | shield row => scanShieldCommitment crypto row.treeNumber row.treePosition row.preimage
      row.shieldCiphertext row.source keys
  | legacyEncrypted row => row.scan crypto keys
  | legacyGenerated row => row.scan crypto keys

/-- The leaf of a row. -/
def leaf : ScanRow decoders → Leaf
  | transact row => ⟨row.treeNumber, row.treePosition, row.hash⟩
  | shield row => ⟨row.treeNumber, row.treePosition, row.preimage.hash crypto⟩
  | legacyEncrypted row => ⟨row.treeNumber, row.treePosition, row.hash⟩
  | legacyGenerated row => ⟨row.treeNumber, row.treePosition, row.preimage.hash crypto⟩

/-- A row that is not a shield is honest. -/
def Honest : ScanRow decoders → Prop
  | transact _ => True
  | shield row => HonestShield crypto keys row.preimage row.shieldCiphertext
  | legacyEncrypted _ => True
  | legacyGenerated _ => True

end ScanRow

section Rows

variable {crypto : NoteCrypto} {keys : ViewingKeyData} {decoders : ContractDecoders}

theorem decryptV2_npk {ciphertext : Vector Bytes32 4} {memo : List UInt8} {sharedKey : Bytes32}
    {receiverMpk : U256} {note : Note}
    (h : Note.decryptV2 crypto ciphertext memo sharedKey receiverMpk = .ok note) :
    note.npk = Note.npkFor crypto receiverMpk note.random := by
  obtain ⟨plaintext, -, h⟩ := bind_eq_ok.mp h
  obtain ⟨-, h⟩ := ite_error_eq_ok.mp h
  cases h
  rfl

/-- The two kinds of rows with a ciphertext of the whole note: the note has a key
    of the wallet, and its commitment has been compared. -/
theorem spendable_of_decryptV2 {ciphertext : Vector Bytes32 4} {memo : List UInt8}
    {sharedKey : Bytes32} {note : Note} {leaf : Leaf} {source : UtxoSource}
    (hnote : Note.decryptV2 crypto ciphertext memo sharedKey keys.masterPublicKey = .ok note)
    (hhash : ¬ note.commitment crypto ≠ leaf.commitment) :
    SpendableAt crypto keys leaf (ScannedUtxo.new crypto note
      (normalizeTreePosition leaf.treeNumber leaf.treePosition).1
      (normalizeTreePosition leaf.treeNumber leaf.treePosition).2 source) :=
  ⟨decryptV2_npk hnote, not_not.mp hhash, rfl⟩

/-- A note that is found can be spent, unless it is a shield whose public key is
    not the wallet's. -/
theorem ScanRow.scan_spec {row : ScanRow decoders} {utxo : ScannedUtxo}
    (h : row.scan crypto keys = some utxo) :
    (row.Honest crypto keys → SpendableAt crypto keys (row.leaf crypto) utxo) ∧
      (utxo.note.npk = Note.npkFor crypto keys.masterPublicKey utxo.note.random →
        row.Honest crypto keys) := by
  cases row with
  | transact row | legacyEncrypted row =>
    obtain ⟨sharedKey, -, h⟩ := Option.bind_eq_some_iff.mp h
    obtain ⟨note, hnote, h⟩ := Option.bind_eq_some_iff.mp h
    obtain ⟨hhash, h⟩ := Option.ite_none_left_eq_some.mp h
    cases h
    exact ⟨fun _ => spendable_of_decryptV2 (toOption_eq_some.mp hnote) hhash, fun _ => trivial⟩
  | shield row =>
    obtain ⟨sharedKey, hkey, h⟩ := Option.bind_eq_some_iff.mp h
    obtain ⟨random, hrandom, h⟩ := Option.bind_eq_some_iff.mp h
    cases h
    refine ⟨fun hhonest => ⟨hhonest sharedKey random hkey (toOption_eq_some.mp hrandom), rfl, rfl⟩,
      fun hnpk sharedKey' random' hkey' hrandom' => ?_⟩
    -- The key and the random are what the wallet computes, so they are unique.
    rw [hkey, Option.some.injEq] at hkey'
    rw [← hkey', toOption_eq_some.mp hrandom] at hrandom'
    rw [← Except.ok.inj hrandom']
    exact hnpk
  | legacyGenerated row =>
    obtain ⟨random, -, h⟩ := Option.bind_eq_some_iff.mp h
    obtain ⟨hnpk, h⟩ := Option.ite_none_left_eq_some.mp h
    cases h
    exact ⟨fun _ => ⟨(not_not.mp hnpk).symm, rfl, rfl⟩, fun _ => trivial⟩

theorem scan_of_not_honest {row : ScanRow decoders} (h : ¬ row.Honest crypto keys) :
    ∃ utxo, row.scan crypto keys = some utxo := by
  cases row with
  | transact row | legacyEncrypted row | legacyGenerated row => exact absurd trivial h
  | shield row =>
    simp only [ScanRow.Honest, HonestShield, not_forall] at h
    obtain ⟨sharedKey, random, hkey, hrandom, -⟩ := h
    exact ⟨_, Option.bind_eq_some_iff.mpr ⟨sharedKey, hkey,
      Option.bind_eq_some_iff.mpr ⟨random, toOption_eq_some.mpr hrandom, rfl⟩⟩⟩

/-- Rows of all kinds. -/
def WalletScanInputRows.all (rows : WalletScanInputRows decoders) : List (ScanRow decoders) :=
  rows.transactCommitments.map .transact ++ rows.shieldCommitments.map .shield ++
    rows.legacyEncryptedCommitments.map .legacyEncrypted ++
    rows.legacyGeneratedCommitments.map .legacyGenerated

theorem utxos_fromRows (rows : WalletScanInputRows decoders) :
    (fromRows crypto rows keys).utxos = rows.all.filterMap fun row => row.scan crypto keys := by
  simp only [WalletScanInputRows.all, List.filterMap_append, List.filterMap_map]
  rfl

theorem spendable_iff_honest {utxos : List ScannedUtxo} {rows : List (ScanRow decoders)}
    {leaves : Leaf → Prop} (hutxos : utxos = rows.filterMap fun row => row.scan crypto keys)
    (hleaves : ∀ row ∈ rows, ∃ leaf, leaves leaf ∧ leaf.commitment = (row.leaf crypto).commitment ∧
      normalizeTreePosition leaf.treeNumber leaf.treePosition =
        normalizeTreePosition (row.leaf crypto).treeNumber (row.leaf crypto).treePosition) :
    (∀ utxo ∈ utxos, ∃ leaf, leaves leaf ∧ SpendableAt crypto keys leaf utxo) ↔
      ∀ row ∈ rows, row.Honest crypto keys := by
  rw [hutxos]
  constructor
  · intro hall row hrow
    by_contra hforged
    obtain ⟨utxo, hscan⟩ := scan_of_not_honest hforged
    obtain ⟨leaf, -, hspendable⟩ := hall utxo (List.mem_filterMap.mpr ⟨row, hrow, hscan⟩)
    exact hforged ((ScanRow.scan_spec hscan).2 hspendable.npk_eq)
  · intro hhonest utxo hutxo
    obtain ⟨row, hrow, hscan⟩ := List.mem_filterMap.mp hutxo
    have hspendable := (ScanRow.scan_spec hscan).1 (hhonest row hrow)
    obtain ⟨leaf, hleaf, hcommitment, hplace⟩ := hleaves row hrow
    exact ⟨leaf, hleaf, hspendable.npk_eq, hspendable.commitment_eq.trans hcommitment.symm,
      hspendable.place_eq.trans hplace.symm⟩

end Rows

/-- The commitments of an event, counted from its first position on. -/
def RailgunEvent.leaves (crypto : NoteCrypto) : RailgunEvent → List Leaf
  | transact treeNumber startPosition hash _ =>
    hash.zipIdx.map fun entry => ⟨treeNumber, startPosition + entry.2, entry.1⟩
  | shield treeNumber startPosition commitments _ =>
    commitments.zipIdx.map fun entry => ⟨treeNumber, startPosition + entry.2, entry.1.hash crypto⟩
  | legacyShield treeNumber startPosition commitments _ =>
    commitments.zipIdx.map fun entry => ⟨treeNumber, startPosition + entry.2, entry.1.hash crypto⟩
  | nullifiers _ _ => []
  | nullified _ _ => []
  | commitmentBatch treeNumber startPosition hash _ =>
    hash.zipIdx.map fun entry => ⟨treeNumber, startPosition + entry.2, entry.1⟩
  | generatedCommitmentBatch treeNumber startPosition commitments _ =>
    commitments.zipIdx.map fun entry => ⟨treeNumber, startPosition + entry.2, entry.1.hash crypto⟩

/-- The shields of an event. -/
def RailgunEvent.shields : RailgunEvent → List (CommitmentPreimage × ShieldCiphertext)
  | shield _ _ commitments shieldCiphertext => commitments.zip shieldCiphertext
  | legacyShield _ _ commitments shieldCiphertext => commitments.zip shieldCiphertext
  | transact _ _ _ _ => []
  | nullifiers _ _ => []
  | nullified _ _ => []
  | commitmentBatch _ _ _ _ => []
  | generatedCommitmentBatch _ _ _ _ => []

/-- The rows of an event. -/
def RailgunEvent.rows {decoders : ContractDecoders} (source : UtxoSource) :
    RailgunEvent → List (ScanRow decoders)
  | transact treeNumber startPosition hash ciphertext =>
    (ciphertext.zip hash).zipIdx.map fun entry =>
      .transact ⟨treeNumber, eventPosition startPosition entry.2, entry.1.2, entry.1.1, source⟩
  | shield treeNumber startPosition commitments shieldCiphertext =>
    (commitments.zip shieldCiphertext).zipIdx.map fun entry =>
      .shield ⟨treeNumber, eventPosition startPosition entry.2, entry.1.1, entry.1.2, source⟩
  | legacyShield treeNumber startPosition commitments shieldCiphertext =>
    (commitments.zip shieldCiphertext).zipIdx.map fun entry =>
      .shield ⟨treeNumber, eventPosition startPosition entry.2, entry.1.1, entry.1.2, source⟩
  | nullifiers _ _ => []
  | nullified _ _ => []
  | commitmentBatch treeNumber startPosition hash ciphertext =>
    (ciphertext.zip hash).zipIdx.map fun entry => .legacyEncrypted
      ⟨treeNumber, eventPosition startPosition entry.2, entry.1.2, entry.1.1, source⟩
  | generatedCommitmentBatch treeNumber startPosition commitments encryptedRandom =>
    (commitments.zip encryptedRandom).zipIdx.map fun entry => .legacyGenerated
      ⟨treeNumber, eventPosition startPosition entry.2, entry.1.1,
        encryptedRandomFromU256 entry.1.2, source⟩

section Logs

variable {crypto : NoteCrypto} {keys : ViewingKeyData} {decoders : ContractDecoders}

theorem filterMap_zipIdx {A B C : Type} (first : List A) (second : List B) (f : A → B → Nat → C)
    (offset : Nat) (all : List B) (hall : all.drop offset = second) :
    ((first.zipIdx offset).filterMap fun entry => all[entry.2]?.map fun b => f entry.1 b entry.2) =
      ((first.zip second).zipIdx offset).map fun entry => f entry.1.1 entry.1.2 entry.2 := by
  induction first generalizing offset second with
  | nil => rfl
  | cons a first ih =>
    have hhead : all[offset]? = second.head? := by
      rw [← hall, List.head?_drop]
    rw [List.zipIdx_cons]
    cases second with
    | nil =>
      rw [List.filterMap_cons_none (by rw [hhead]; rfl), ih [] (offset + 1) ?_]
      · rw [List.zip_nil_right, List.zip_nil_right]
        rfl
      · rw [← List.drop_drop, hall]
        rfl
    | cons b second =>
      rw [List.filterMap_cons_some (by rw [hhead]; rfl), ih second (offset + 1) ?_]
      · rfl
      · rw [← List.drop_drop, hall]
        rfl

theorem normalizeTreePosition_eventPosition (treeNumber startPosition index : Nat) :
    normalizeTreePosition treeNumber (eventPosition startPosition index) =
      normalizeTreePosition treeNumber (startPosition + index) := by
  unfold normalizeTreePosition eventPosition treeLeafCount treeDepth
  generalize startPosition + index = position
  apply Prod.ext
  · show (treeNumber + position % 2 ^ 64 / 2 ^ 16 % 2 ^ 32) % 2 ^ 32 =
      (treeNumber + position / 2 ^ 16 % 2 ^ 32) % 2 ^ 32
    omega
  · show position % 2 ^ 64 % 2 ^ 16 = position % 2 ^ 16
    omega

theorem pushShieldEventRows_eq (rows : WalletScanInputRows decoders)
    (treeNumber startPosition : Nat) (commitments : List CommitmentPreimage)
    (shieldCiphertext : List ShieldCiphertext) (source : UtxoSource) :
    ∃ observations,
      rows.pushShieldEventRows crypto treeNumber startPosition commitments shieldCiphertext source =
        { rows with
          shieldCommitments := rows.shieldCommitments ++
            (commitments.zip shieldCiphertext).zipIdx.map fun entry =>
              ⟨treeNumber, eventPosition startPosition entry.2, entry.1.1, entry.1.2, source⟩
          commitmentObservations := observations } := by
  rw [← filterMap_zipIdx commitments shieldCiphertext (fun preimage ciphertext index =>
    (⟨treeNumber, eventPosition startPosition index, preimage, ciphertext, source⟩ :
      IndexedShieldCommitmentInput decoders.abi)) 0 shieldCiphertext rfl]
  unfold pushShieldEventRows
  generalize commitments.zipIdx = entries
  induction entries generalizing rows with
  | nil => exact ⟨rows.commitmentObservations, by rw [List.filterMap_nil, List.append_nil]; rfl⟩
  | cons entry entries ih =>
    rw [List.foldl_cons]
    cases hciphertext : shieldCiphertext[entry.2]? with
    | none =>
      rw [List.filterMap_cons_none (by rw [hciphertext]; rfl)]
      exact ih _
    | some ciphertext =>
      obtain ⟨observations, hrest⟩ := ih { rows with
        shieldCommitments := rows.shieldCommitments ++
          [⟨treeNumber, eventPosition startPosition entry.2, entry.1, ciphertext, source⟩] }
      refine ⟨observations, hrest.trans ?_⟩
      rw [List.filterMap_cons_some (by rw [hciphertext]; rfl), List.append_assoc]
      rfl

theorem mem_all_pushEvent {rows : WalletScanInputRows decoders} {source : UtxoSource}
    {event : RailgunEvent} {row : ScanRow decoders} :
    row ∈ (rows.pushEvent crypto source event).all ↔ row ∈ rows.all ∨ row ∈ event.rows source := by
  -- The rows of an event are all of one kind, so only one of the four lists grows.
  have hshield : ∀ treeNumber startPosition commitments shieldCiphertext,
      row ∈ (rows.pushShieldEventRows crypto treeNumber startPosition commitments shieldCiphertext
        source).all ↔ row ∈ rows.all ∨ row ∈
        (RailgunEvent.shield treeNumber startPosition commitments shieldCiphertext).rows
          source := by
    intro treeNumber startPosition commitments shieldCiphertext
    obtain ⟨observations, heq⟩ := @pushShieldEventRows_eq crypto decoders rows treeNumber
      startPosition commitments shieldCiphertext source
    rw [heq]
    simp only [WalletScanInputRows.all, RailgunEvent.rows, List.map_append, List.mem_append,
      List.map_map]
    tauto
  cases event with
  | transact treeNumber startPosition hash ciphertext =>
    have hpaired := filterMap_zipIdx ciphertext hash (fun ciphertext hash index =>
      (⟨treeNumber, eventPosition startPosition index, hash, ciphertext, source⟩ :
        IndexedTransactCommitmentInput decoders.abi)) 0 hash rfl
    simp only [pushEvent, WalletScanInputRows.all, RailgunEvent.rows, hpaired,
      List.map_append, List.mem_append, List.map_map]
    tauto
  | shield treeNumber startPosition commitments shieldCiphertext
  | legacyShield treeNumber startPosition commitments shieldCiphertext =>
    exact hshield treeNumber startPosition commitments shieldCiphertext
  | nullifiers _ _ | nullified _ _ => exact (or_iff_left List.not_mem_nil).symm
  | commitmentBatch treeNumber startPosition hash ciphertext =>
    have hpaired := filterMap_zipIdx ciphertext hash (fun ciphertext hash index =>
      (⟨treeNumber, eventPosition startPosition index, hash, ciphertext, source⟩ :
        IndexedLegacyEncryptedCommitmentInput decoders.abi)) 0 hash rfl
    simp only [pushEvent, WalletScanInputRows.all, RailgunEvent.rows, hpaired,
      List.map_append, List.mem_append, List.map_map]
    tauto
  | generatedCommitmentBatch treeNumber startPosition commitments encryptedRandom =>
    have hpaired := filterMap_zipIdx commitments encryptedRandom (fun preimage random index =>
      (⟨treeNumber, eventPosition startPosition index, preimage, encryptedRandomFromU256 random,
        source⟩ : IndexedLegacyGeneratedCommitmentInput decoders.abi)) 0 encryptedRandom rfl
    simp only [pushEvent, WalletScanInputRows.all, RailgunEvent.rows, hpaired,
      List.map_append, List.mem_append, List.map_map]
    tauto

theorem mem_rows_fromLogs {decodeLog : ScanLog → Except WalletScanError (Option RailgunEvent)}
    {blockTimestamps : Nat → Option Nat} {logs : List ScanLog}
    {before after : WalletScanInputRows decoders}
    (h : logs.foldlM (pushLog crypto decodeLog blockTimestamps) before = .ok after) :
    (∀ row, row ∈ after.all ↔ row ∈ before.all ∨ ∃ log ∈ logs, ∃ event source,
      decodeLog log = .ok (some event) ∧ sourceFromLog log blockTimestamps = .ok source ∧
        row ∈ event.rows source) ∧
      ∀ log ∈ logs, ∀ event, decodeLog log = .ok (some event) →
        ∃ source, sourceFromLog log blockTimestamps = .ok source := by
  induction logs generalizing before with
  | nil =>
    cases h
    simp only [List.not_mem_nil, false_and, exists_false, or_false, implies_true, false_imp_iff,
      and_self]
  | cons log logs ih =>
    obtain ⟨middle, hlog, h⟩ := bind_eq_ok.mp h
    obtain ⟨hrows, hsources⟩ := ih h
    obtain ⟨decoded, hdecode, hlog⟩ := bind_eq_ok.mp hlog
    simp only [List.exists_mem_cons_iff, List.forall_mem_cons, hdecode, Except.ok.injEq]
    cases decoded with
    | none =>
      cases hlog
      simp only [reduceCtorEq, false_and, exists_false, false_or, false_imp_iff, implies_true,
        true_and]
      exact ⟨hrows, hsources⟩
    | some event =>
      obtain ⟨source, hsource, hlog⟩ := bind_eq_ok.mp hlog
      cases hlog
      simp only [mem_all_pushEvent, or_assoc, exists_and_left] at hrows
      simp only [Option.some.injEq, hsource, Except.ok.injEq, exists_and_left, exists_eq_left',
        exists_eq', implies_true, true_and]
      exact ⟨hrows, hsources⟩

theorem mem_zipIdx_of_mem_zip {A B : Type} {first : List A} {second : List B}
    {entry : (A × B) × Nat} (h : entry ∈ (first.zip second).zipIdx) :
    (entry.1.1, entry.2) ∈ first.zipIdx ∧ (entry.1.2, entry.2) ∈ second.zipIdx := by
  rw [List.mem_zipIdx_iff_getElem?, List.getElem?_zip_eq_some] at h
  exact ⟨List.mem_zipIdx_iff_getElem?.mpr h.1, List.mem_zipIdx_iff_getElem?.mpr h.2⟩

theorem leaves_of_mem_rows {event : RailgunEvent} {source : UtxoSource} {row : ScanRow decoders}
    (h : row ∈ event.rows source) :
    ∃ leaf ∈ event.leaves crypto, leaf.commitment = (row.leaf crypto).commitment ∧
      normalizeTreePosition leaf.treeNumber leaf.treePosition =
        normalizeTreePosition (row.leaf crypto).treeNumber (row.leaf crypto).treePosition := by
  cases event with
  | nullifiers _ _ | nullified _ _ => cases h
  | transact _ _ _ _ | commitmentBatch _ _ _ _ =>
    obtain ⟨entry, hentry, rfl⟩ := List.mem_map.mp h
    exact ⟨_, List.mem_map_of_mem (mem_zipIdx_of_mem_zip hentry).2, rfl,
      (normalizeTreePosition_eventPosition _ _ _).symm⟩
  | shield _ _ _ _ | legacyShield _ _ _ _ | generatedCommitmentBatch _ _ _ _ =>
    obtain ⟨entry, hentry, rfl⟩ := List.mem_map.mp h
    exact ⟨_, List.mem_map_of_mem (mem_zipIdx_of_mem_zip hentry).1, rfl,
      (normalizeTreePosition_eventPosition _ _ _).symm⟩

theorem honest_rows_iff {event : RailgunEvent} {source : UtxoSource} :
    (∀ row : ScanRow decoders, row ∈ event.rows source → row.Honest crypto keys) ↔
      ∀ entry ∈ event.shields, HonestShield crypto keys entry.1 entry.2 := by
  have hshield : ∀ treeNumber startPosition commitments shieldCiphertext,
      (∀ row : ScanRow decoders, row ∈ (RailgunEvent.shield treeNumber startPosition commitments
        shieldCiphertext).rows source → row.Honest crypto keys) ↔
        ∀ entry ∈ commitments.zip shieldCiphertext, HonestShield crypto keys entry.1 entry.2 := by
    intro treeNumber startPosition commitments shieldCiphertext
    constructor
    · intro hall entry hentry
      obtain ⟨index, hindex⟩ := List.mem_iff_getElem?.mp hentry
      have hentry' : (entry, index) ∈ (commitments.zip shieldCiphertext).zipIdx :=
        List.mem_zipIdx_iff_getElem?.mpr hindex
      exact hall _ (List.mem_map_of_mem hentry')
    · intro hall row hrow
      obtain ⟨entry, hentry, rfl⟩ := List.mem_map.mp hrow
      exact hall entry.1 (List.mem_of_getElem? (List.mem_zipIdx_iff_getElem?.mp hentry))
  -- Rows of another kind are honest, and such an event has no shields.
  have hother : ∀ {C : Type} (entries : List C) (f : C → ScanRow decoders),
      event.rows source = entries.map f → event.shields = [] → (∀ c, (f c).Honest crypto keys) →
      ((∀ row : ScanRow decoders, row ∈ event.rows source → row.Honest crypto keys) ↔
        ∀ entry ∈ event.shields, HonestShield crypto keys entry.1 entry.2) := by
    intro C entries f hrows hnone hf
    rw [hrows, hnone]
    refine ⟨nofun, fun _ row hrow => ?_⟩
    obtain ⟨entry, -, rfl⟩ := List.mem_map.mp hrow
    exact hf entry
  cases event with
  | shield treeNumber startPosition commitments shieldCiphertext
  | legacyShield treeNumber startPosition commitments shieldCiphertext =>
    exact hshield treeNumber startPosition commitments shieldCiphertext
  | nullifiers _ _ | nullified _ _ => exact ⟨nofun, nofun⟩
  | transact _ _ _ _ | commitmentBatch _ _ _ _ | generatedCommitmentBatch _ _ _ _ =>
    exact hother _ _ rfl rfl fun _ => trivial

end Logs

/-- The commitments of some logs. -/
def LogLeaf (crypto : NoteCrypto)
    (decodeLog : ScanLog → Except WalletScanError (Option RailgunEvent)) (logs : List ScanLog)
    (leaf : Leaf) : Prop :=
  ∃ log ∈ logs, ∃ event, decodeLog log = .ok (some event) ∧ leaf ∈ event.leaves crypto

theorem honest_all_iff {crypto : NoteCrypto} {keys : ViewingKeyData} {decoders : ContractDecoders}
    {rows : WalletScanInputRows decoders} :
    (∀ row ∈ rows.all, row.Honest crypto keys) ↔ ∀ row ∈ rows.shieldCommitments,
      HonestShield crypto keys row.preimage row.shieldCiphertext := by
  simp only [WalletScanInputRows.all, List.forall_mem_append, List.forall_mem_map, ScanRow.Honest,
    implies_true, true_and, and_true]

-- A note that is found has the commitment and the place of its row in any case.
-- What can be wrong is the public key of a shield, and it is wrong exactly if
-- the shield is not honest.
/-- All notes that are found, in rows of an index or in logs, can be spent by the
    wallet exactly if all shields that it can decrypt are its own. -/
theorem scan_spendable_iff (crypto : NoteCrypto) (decoders : ContractDecoders)
    (keys : ViewingKeyData) :
    (∀ rows : WalletScanInputRows decoders, (∀ utxo ∈ (fromRows crypto rows keys).utxos,
        ∃ leaf, leaf ∈ rows.all.map (·.leaf crypto) ∧ SpendableAt crypto keys leaf utxo) ↔
      ∀ row ∈ rows.shieldCommitments,
        HonestShield crypto keys row.preimage row.shieldCiphertext) ∧
    ∀ decodeLog logs blockTimestamps delta,
      parseWalletDeltaFromLogs crypto decoders decodeLog logs blockTimestamps keys = .ok delta →
      ((∀ utxo ∈ delta.utxos,
        ∃ leaf, LogLeaf crypto decodeLog logs leaf ∧ SpendableAt crypto keys leaf utxo) ↔
      ∀ log ∈ logs, ∀ event, decodeLog log = .ok (some event) →
        ∀ entry ∈ event.shields, HonestShield crypto keys entry.1 entry.2) := by
  constructor
  · intro rows
    rw [← honest_all_iff]
    exact spendable_iff_honest (utxos_fromRows rows) fun row hrow =>
      ⟨row.leaf crypto, List.mem_map_of_mem hrow, rfl, rfl⟩
  · intro decodeLog logs blockTimestamps delta h
    obtain ⟨rows, hrows, h⟩ := bind_eq_ok.mp h
    cases h
    obtain ⟨hmem, hsources⟩ := mem_rows_fromLogs hrows
    have hempty : ∀ row : ScanRow decoders, row ∉ ({} : WalletScanInputRows decoders).all :=
      fun row => List.not_mem_nil
    refine (spendable_iff_honest (utxos_fromRows rows) fun row hrow => ?_).trans ?_
    · obtain ⟨log, hlog, event, source, hdecode, -, hevent⟩ :=
        ((hmem row).mp hrow).resolve_left (hempty row)
      obtain ⟨leaf, hleaf, hcommitment, hplace⟩ := leaves_of_mem_rows hevent
      exact ⟨leaf, ⟨log, hlog, event, hdecode, hleaf⟩, hcommitment, hplace⟩
    · constructor
      · intro hall log hlog event hdecode
        obtain ⟨source, hsource⟩ := hsources log hlog event hdecode
        exact honest_rows_iff.mp fun row hrow => hall row
          ((hmem row).mpr (.inr ⟨log, hlog, event, source, hdecode, hsource, hrow⟩))
      · intro hall row hrow
        obtain ⟨log, hlog, event, source, hdecode, -, hevent⟩ :=
          ((hmem row).mp hrow).resolve_left (hempty row)
        exact honest_rows_iff.mpr (hall log hlog event hdecode) row hevent

/-- Nothing is decoded. -/
def sampleDecoders : ContractDecoders where
  decodeCommitmentCiphertext := fun _ => .error "none"
  decodeCommitmentPreimage := fun _ => .error "none"
  decodeShieldCiphertext := fun _ => .error "none"
  decodeLegacyCommitmentCiphertext := fun _ => .error "none"
  decodeLegacyCommitmentPreimage := fun _ => .error "none"

/-- Two keys. -/
def sampleViewingKeys : ViewingKeyData := { viewingPrivateKey := 1, masterPublicKey := 3 }

/-- A shield of 50 of token 2 to a public key, with an encrypted random of zero. -/
def sampleShieldRows (npk : Bytes32) : WalletScanInputRows sampleDecoders :=
  { shieldCommitments :=
      [{ treeNumber := 0, treePosition := 65541,
         preimage := { npk, token := ⟨0, 2, 0⟩, value := 50 },
         shieldCiphertext := { encryptedBundle := #v[0, 0, 0], shieldKey := 4 },
         source := { txHash := 9, blockNumber := 1, blockTimestamp := 1 } }] }

/-- The wallet with the key 3 finds a note with the key 8, which is not its own. -/
theorem scanShield_forged :
    ((fromRows sampleCrypto (sampleShieldRows 8) sampleViewingKeys).utxos.map
      fun utxo => (utxo.note.npk, utxo.note.random, utxo.note.value, utxo.place)) =
        [(8, 0, 50, (1, 5))] ∧
      (8 : U256) ≠ Note.npkFor sampleCrypto sampleViewingKeys.masterPublicKey 0 := by
  decide +kernel

/-- A log with the same shield. -/
def sampleShieldLog : ScanLog :=
  { topics := [], data := [], blockNumber := some 1, transactionHash := some 9 }

/-- A shield of fifty. -/
def sampleShieldEvent (npk : Bytes32) : RailgunEvent :=
  .shield 0 65541 [{ npk, token := ⟨0, 2, 0⟩, value := 50 }]
    [{ encryptedBundle := #v[0, 0, 0], shieldKey := 4 }]

theorem sampleShield_honest (preimage : CommitmentPreimage) (hnpk : preimage.npk = 3) :
    HonestShield sampleCrypto sampleViewingKeys preimage
      { encryptedBundle := #v[0, 0, 0], shieldKey := 4 } := by
  intro sharedKey random hkey hrandom
  have hzero : decryptShieldRandom sampleCrypto #v[0, 0, 0] 4 = .ok 0 := by decide +kernel
  rw [← Except.ok.inj hrandom, hnpk]
  decide

/-- The wallet's own shield is found, in the rows and in the log. -/
theorem scan_spendable_iff_own :
    (∀ utxo ∈ (fromRows sampleCrypto (sampleShieldRows 3) sampleViewingKeys).utxos,
      ∃ leaf, leaf ∈ (sampleShieldRows 3).all.map (·.leaf sampleCrypto) ∧
        SpendableAt sampleCrypto sampleViewingKeys leaf utxo) ∧
    ∃ delta, parseWalletDeltaFromLogs sampleCrypto sampleDecoders
        (fun _ => .ok (some (sampleShieldEvent 3))) [sampleShieldLog] some sampleViewingKeys =
          .ok delta ∧ delta.utxos.length = 1 ∧
      ∀ utxo ∈ delta.utxos, ∃ leaf, LogLeaf sampleCrypto
        (fun _ => .ok (some (sampleShieldEvent 3))) [sampleShieldLog] leaf ∧
          SpendableAt sampleCrypto sampleViewingKeys leaf utxo := by
  have hspendable := scan_spendable_iff sampleCrypto sampleDecoders sampleViewingKeys
  have hrun : ∃ delta, parseWalletDeltaFromLogs sampleCrypto sampleDecoders
      (fun _ => .ok (some (sampleShieldEvent 3))) [sampleShieldLog] some sampleViewingKeys =
        .ok delta ∧ delta.utxos.length = 1 := ⟨_, rfl, by decide +kernel⟩
  obtain ⟨delta, hdelta, hlength⟩ := hrun
  refine ⟨(hspendable.1 (sampleShieldRows 3)).mpr fun row hrow => ?_, delta, hdelta, hlength,
    (hspendable.2 _ _ _ delta hdelta).mpr fun log hlog event hevent entry hentry => ?_⟩
  · rw [List.mem_singleton.mp hrow]
    exact sampleShield_honest _ rfl
  · rw [← Option.some.inj (Except.ok.inj hevent)] at hentry
    rw [List.mem_singleton.mp hentry]
    exact sampleShield_honest _ rfl

end Railgun
