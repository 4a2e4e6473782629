import Railgun.Core.SenderRecovery
import Railgun.Lib.Fresh

/-!
# What Qualifies a Candidate

The rows of the wallet qualify a candidate if they pass three loops: each row by
itself, the nullifiers of all rows, and the outputs of all rows. Each loop refuses
what it has seen before, so a run that succeeds says that there are no repetitions,
and the counts that are compared at the end then say that nothing is missing.

Nullifiers are compared by value. They depend on the position of a note in its
tree and not on the tree, so two notes at the same position of two trees cannot be
spent by one transaction that is to be recovered.

## Main definitions

* `inputsOf`, `isOwn`, `ownRows`, `foundCount`: The notes of the wallet that rows spend.
* `privateOutputs`, `rowSpends`, `qualifiedOf`: What a row accounts for.
* `GoodInput`, `GoodRow`, `AuthoredRow`, `Accounted`: What the loops check.
* `SoundlyQualified`: What a caller may rely on.
* `spentByCandidate`, `HonestBatch`, `DistinctInputs`: Transactions of the wallet.

## Theorems

* `resolveNullifier_eq_ok`, `consumeInput_eq_ok`, `consumeOutput_eq_ok`: One step of
  each loop.
* `foldl_count_eq`, `foldl_union_spends`, `foldl_append_outputs`: What the loops add up.
* `qualifySenderRowInputs_eq_ok`, `qualifyAuthoredRow_eq_ok`, `qualifyRow_eq_ok`: One row.
* `foldlM_qualifyRow_eq_ok`, `foldl_add_eq`: All rows.
* `qualifySenderCandidate_eq_some`: The loops and the final check.
* `foldlM_validateOutput`, `validate_eq_ok`, `noteAt_isSome_iff`: A valid candidate.
* `qualifySenderCandidate_sound`: What is known of a candidate that qualifies.
* `HonestBatch.exists_spent`, `HonestBatch.exists_row`, `HonestBatch.nullifiers_perm`: Each
  note that is spent is an input of a row.
* `HonestBatch.distinctInputs`, `HonestBatch.accounted`: What the loops accept.
* `qualifySenderCandidate_complete`: When a transaction of the wallet qualifies.
* `qualifySenderCandidate_same_position`: One that does not.
-/

namespace Railgun

section Qualify

variable (crypto : NoteCrypto) (keys : WalletScanKeys) (candidate : SenderTransactionCandidate)
  (walletUtxos : List WalletUtxo)

/-- The notes of the wallet in the input tree of a row that have a nullifier. -/
def inputsOf (row : TxidPublicCacheEntry) (nullifier : U256) : List WalletUtxo :=
  walletUtxos.filter (isInput keys row.transaction.utxoTreeIn nullifier)

/-- A row with a nullifier of a note of the wallet. -/
def isOwn (row : TxidPublicCacheEntry) : Bool :=
  row.transaction.nullifiers.any fun nullifier => !(inputsOf keys walletUtxos row nullifier).isEmpty

/-- The rows with a nullifier of a note of the wallet. -/
def ownRows (rows : List TxidPublicCacheEntry) : List TxidPublicCacheEntry :=
  rows.filter (isOwn keys walletUtxos)

/-- The number of outputs that are not the unshield. -/
def privateOutputCount (row : TxidPublicCacheEntry) : Nat :=
  row.transaction.commitments.length - row.transaction.hasUnshield.toNat

/-- The outputs of a row, counted from its first one. -/
def privateOutputs (row : TxidPublicCacheEntry) : List OutputKey :=
  ((row.transaction.commitments.take (privateOutputCount row)).zipIdx).map
    (outputAt row.transaction.outputStartGlobal)

/-- The notes that a row spends. -/
def rowSpends (row : TxidPublicCacheEntry) : List SenderTransactionCandidateSpend :=
  row.transaction.nullifiers.flatMap fun nullifier =>
    (inputsOf keys walletUtxos row nullifier).map WalletUtxo.candidateSpend

/-- The entry for a row of the wallet. -/
def qualifiedOf (row : TxidPublicCacheEntry) : QualifiedSenderTransaction where
  txidIndex := row.txidIndex
  publicRow := row
  outputStartGlobal := row.transaction.outputStartGlobal
  outputs := (privateOutputs row).filterMap fun key =>
    (noteAt candidate key).map (sentUtxo crypto candidate key)
  outputNotes := (privateOutputs row).filterMap (noteAt candidate)

/-- A nullifier is not that of a note of the wallet, or it is that of one note, which
    the transaction of the candidate has spent. -/
def GoodInput (row : TxidPublicCacheEntry) (nullifier : U256) : Prop :=
  inputsOf keys walletUtxos row nullifier = [] ∨
    ∃ entry, inputsOf keys walletUtxos row nullifier = [entry] ∧
      entry.spent = some candidate.source ∧ entry.candidateSpend ∈ candidate.walletSpends

/-- What is checked about every row. -/
@[mk_iff]
structure GoodRow (row : TxidPublicCacheEntry) : Prop where
  tree_lt : row.transaction.utxoTreeIn < 2 ^ 32
  nullifiers_nodup : row.transaction.nullifiers.Nodup
  inputs : ∀ nullifier ∈ row.transaction.nullifiers,
    GoodInput keys candidate walletUtxos row nullifier

/-- What is checked about a row of the wallet by itself. -/
structure AuthoredRow (row : TxidPublicCacheEntry) : Prop where
  inputs : ∀ nullifier ∈ row.transaction.nullifiers, inputsOf keys walletUtxos row nullifier ≠ []
  hash_eq : row.transaction.transactionHash = candidate.source.txHash
  block_eq : row.transaction.blockNumber = candidate.source.blockNumber
  commitments_ne : row.transaction.commitments ≠ []
  outputs : ∀ key ∈ privateOutputs row, key.1 < 2 ^ 32 ∧ (noteAt candidate key).isSome

/-- How many nullifiers of a row are those of notes of the wallet. -/
def foundCount (row : TxidPublicCacheEntry) : Nat :=
  row.transaction.nullifiers.countP fun nullifier =>
    !(inputsOf keys walletUtxos row nullifier).isEmpty

variable {keys candidate walletUtxos}

variable {row : TxidPublicCacheEntry}

/-- One step of the loop over the nullifiers of a row. -/
theorem resolveNullifier_eq_ok (nullifier : U256) (seen : Finset U256) (resolved : Nat)
    (after : Finset U256 × Nat) :
    resolveNullifier keys candidate walletUtxos row.transaction.utxoTreeIn (seen, resolved)
        nullifier = .ok after ↔
      nullifier ∉ seen ∧ GoodInput keys candidate walletUtxos row nullifier ∧
        after = (insert nullifier seen,
          resolved + (!(inputsOf keys walletUtxos row nullifier).isEmpty).toNat) := by
  unfold resolveNullifier GoodInput inputsOf
  rw [ite_error_eq_ok]
  refine and_congr_right fun _ => ?_
  rcases walletUtxos.filter (isInput keys row.transaction.utxoTreeIn nullifier) with
    _ | ⟨first, _ | ⟨second, rest⟩⟩
  · simp [eq_comm]
  · rw [ite_error_eq_ok]
    simp [eq_comm]
  · simp

/-- The loop counts the nullifiers that are found. -/
theorem foldl_count_eq {nullifiers : List U256} {resolved : Nat} :
    nullifiers.foldl (fun resolved nullifier => resolved +
        (!(inputsOf keys walletUtxos row nullifier).isEmpty).toNat) resolved =
      resolved + nullifiers.countP fun nullifier =>
        !(inputsOf keys walletUtxos row nullifier).isEmpty := by
  induction nullifiers generalizing resolved with
  | nil => rfl
  | cons nullifier nullifiers ih =>
    rw [List.foldl_cons, ih, List.countP_cons, Nat.add_assoc, Nat.add_comm (Bool.toNat _)]
    cases (inputsOf keys walletUtxos row nullifier).isEmpty <;> rfl

theorem foldl_foundCount :
    row.transaction.nullifiers.foldl (fun resolved nullifier => resolved +
      (!(inputsOf keys walletUtxos row nullifier).isEmpty).toNat) 0 =
        foundCount keys walletUtxos row :=
  foldl_count_eq.trans (Nat.zero_add _)

theorem foundCount_eq_zero_iff :
    foundCount keys walletUtxos row = 0 ↔ isOwn keys walletUtxos row = false := by
  rw [foundCount, List.countP_eq_zero, isOwn, List.any_eq_false]

theorem foundCount_eq_length_iff :
    foundCount keys walletUtxos row = row.transaction.nullifiers.length ↔
      ∀ nullifier ∈ row.transaction.nullifiers, inputsOf keys walletUtxos row nullifier ≠ [] := by
  simp [foundCount]

/-- A row is foreign if no nullifier is found, and the wallet's if all are. -/
theorem qualifySenderRowInputs_eq_ok {qualification : SenderRowQualification} :
    qualifySenderRowInputs keys candidate walletUtxos row = .ok qualification ↔
      GoodRow keys candidate walletUtxos row ∧
        ((qualification = .foreign ∧ isOwn keys walletUtxos row = false) ∨
          (qualification = .walletAuthored ∧ isOwn keys walletUtxos row = true ∧
            ∀ nullifier ∈ row.transaction.nullifiers,
              inputsOf keys walletUtxos row nullifier ≠ [])) := by
  unfold qualifySenderRowInputs
  simp only [ite_error_eq_ok, bind_eq_ok, foldlM_fresh_eq_ok fun nullifier _ =>
    resolveNullifier_eq_ok nullifier, List.map_id', fresh_empty, foldl_foundCount, goodRow_iff,
    Nat.not_le, and_assoc, exists_and_left, exists_eq_left]
  refine and_congr_right fun _ => and_congr_right fun _ => and_congr_right fun _ => ?_
  rw [← foundCount_eq_zero_iff, ← foundCount_eq_length_iff, ← Bool.not_eq_false,
    ← foundCount_eq_zero_iff]
  split_ifs with hnone hall
  · simp [pure_eq_ok, hnone]
  · rw [pure_eq_ok, or_iff_right fun h => hnone h.2, and_iff_left ⟨hnone, hall⟩]
  · simp [hnone, hall]

/-- One step of the loop over the inputs of a row, each of which is found once. -/
theorem consumeInput_eq_ok {nullifier : U256} {entry : WalletUtxo}
    (hentry : inputsOf keys walletUtxos row nullifier = [entry]) (seen : Finset U256)
    (spends : Finset SenderTransactionCandidateSpend)
    (after : Finset U256 × Finset SenderTransactionCandidateSpend) :
    consumeInput keys walletUtxos row.transaction.utxoTreeIn (seen, spends) nullifier = .ok after ↔
      nullifier ∉ seen ∧ True ∧ after = (insert nullifier seen, spends ∪
        ((inputsOf keys walletUtxos row nullifier).map WalletUtxo.candidateSpend).toFinset) := by
  have hfind : walletUtxos.find? (isInput keys row.transaction.utxoTreeIn nullifier) =
      some entry := by rw [← List.head?_filter, ← inputsOf, hentry, List.head?_cons]
  rw [consumeInput, ite_error_eq_ok, hfind, hentry]
  simp [eq_comm]

/-- The loop collects the spends of a row. -/
theorem foldl_union_spends {nullifiers : List U256}
    {consumed : Finset SenderTransactionCandidateSpend} :
    nullifiers.foldl (fun consumed nullifier => consumed ∪
        ((inputsOf keys walletUtxos row nullifier).map WalletUtxo.candidateSpend).toFinset)
          consumed =
      consumed ∪ (nullifiers.flatMap fun nullifier =>
        (inputsOf keys walletUtxos row nullifier).map WalletUtxo.candidateSpend).toFinset := by
  induction nullifiers generalizing consumed with
  | nil => simp
  | cons nullifier nullifiers ih =>
    rw [List.foldl_cons, ih, List.flatMap_cons, List.toFinset_append, Finset.union_assoc]

/-- One step of the loop over the outputs of a row. -/
theorem consumeOutput_eq_ok {outputStartGlobal : Nat} (entry : U256 × Nat) (seen : Finset OutputKey)
    (result : List ScannedUtxo × List Note)
    (after : Finset OutputKey × List ScannedUtxo × List Note) :
    let key := outputAt outputStartGlobal entry
    consumeOutput crypto candidate outputStartGlobal (seen, result) entry = .ok after ↔
      key ∉ seen ∧ (key.1 < 2 ^ 32 ∧ (noteAt candidate key).isSome) ∧
        after = (insert key seen,
          result.1 ++ ((noteAt candidate key).map (sentUtxo crypto candidate key)).toList,
          result.2 ++ (noteAt candidate key).toList) := by
  -- The two bounds are one, since a tree has 2 ^ 16 leaves.
  have hbound : ¬ (2 ^ 128 ≤ outputStartGlobal + entry.2 ∨
      2 ^ 32 ≤ (outputAt outputStartGlobal entry).1) ↔
        (outputAt outputStartGlobal entry).1 < 2 ^ 32 := by
    unfold outputAt treeLeafCount treeDepth
    omega
  dsimp only
  rw [consumeOutput, ite_error_eq_ok, hbound]
  cases noteAt candidate (outputAt outputStartGlobal entry) with
  | none => simp
  | some note =>
    rw [ite_error_eq_ok]
    simp [eq_comm, and_left_comm]

/-- The loop lists the notes of the outputs of a row. -/
theorem foldl_append_outputs {outputStartGlobal : Nat} {entries : List (U256 × Nat)}
    {result : List ScannedUtxo × List Note} :
    entries.foldl (fun result entry =>
        let key := outputAt outputStartGlobal entry
        (result.1 ++ ((noteAt candidate key).map (sentUtxo crypto candidate key)).toList,
          result.2 ++ (noteAt candidate key).toList)) result =
      (result.1 ++ (entries.map (outputAt outputStartGlobal)).filterMap fun key =>
          (noteAt candidate key).map (sentUtxo crypto candidate key),
        result.2 ++ (entries.map (outputAt outputStartGlobal)).filterMap (noteAt candidate)) := by
  induction entries generalizing result with
  | nil => simp
  | cons entry entries ih =>
    rw [List.foldl_cons, ih, List.map_cons]
    cases hnote : noteAt candidate (outputAt outputStartGlobal entry) <;> simp [hnote]

variable (keys candidate walletUtxos) in
/-- Account for a row. -/
def QualifyState.add (state : QualifyState) (row : TxidPublicCacheEntry) : QualifyState where
  qualified := state.qualified ++ [qualifiedOf crypto candidate row]
  consumedOutputs := state.consumedOutputs ∪ (privateOutputs row).toFinset
  consumedSpends := state.consumedSpends ∪ (rowSpends keys walletUtxos row).toFinset
  qualifiedNullifiers := state.qualifiedNullifiers ∪ row.transaction.nullifiers.toFinset

variable {crypto}

/-- The two checks of the number of outputs are one. -/
theorem commitments_ne_nil_iff (row : TxidPublicCacheEntry) :
    (¬ row.transaction.commitments.length < row.transaction.hasUnshield.toNat ∧
      ¬ (privateOutputCount row = 0 ∧ ¬ row.transaction.hasUnshield = true)) ↔
        row.transaction.commitments ≠ [] := by
  unfold privateOutputCount
  rw [← List.length_pos_iff]
  cases row.transaction.hasUnshield with
  | false =>
    rw [Bool.toNat_false]
    simp only [Bool.false_eq_true, not_false_eq_true, and_true]
    omega
  | true =>
    rw [Bool.toNat_true]
    simp only [not_true_eq_false, and_false, not_false_eq_true, and_true]
    omega

variable {state after : QualifyState}

/-- A row of the wallet is added if it is new and can be read. -/
theorem qualifyAuthoredRow_eq_ok (hgood : GoodRow keys candidate walletUtxos row)
    (hinputs : ∀ nullifier ∈ row.transaction.nullifiers,
      inputsOf keys walletUtxos row nullifier ≠ []) :
    qualifyAuthoredRow crypto keys candidate walletUtxos state row = .ok after ↔
      AuthoredRow keys candidate walletUtxos row ∧
        Fresh state.qualifiedNullifiers row.transaction.nullifiers ∧
        Fresh state.consumedOutputs (privateOutputs row) ∧
        after = state.add crypto keys candidate walletUtxos row := by
  have hinput : ∀ nullifier ∈ row.transaction.nullifiers, _ := fun nullifier hn =>
    consumeInput_eq_ok ((hgood.inputs nullifier hn).resolve_left
      (hinputs nullifier hn)).choose_spec.1
  unfold qualifyAuthoredRow
  simp only [ite_error_eq_ok, bind_eq_ok, foldlM_fresh_eq_ok hinput,
    foldlM_fresh_eq_ok fun entry _ => consumeOutput_eq_ok crypto entry, foldl_union_spends,
    foldl_append_outputs, List.map_id', List.nil_append, and_assoc, exists_and_left, exists_eq_left]
  constructor
  · rintro ⟨hsource, hnullifiers, -, hlength, hcount, houtputs, hall, h⟩
    rw [not_or, not_or, not_not, not_not] at hsource
    exact ⟨⟨hinputs, hsource.1, hsource.2.1, (commitments_ne_nil_iff row).mp ⟨hlength, hcount⟩,
      List.forall_mem_map.mpr hall⟩, hnullifiers, houtputs, (Except.ok.inj h).symm⟩
  · rintro ⟨hauthored, hnullifiers, houtputs, rfl⟩
    obtain ⟨hlength, hcount⟩ := (commitments_ne_nil_iff row).mpr hauthored.commitments_ne
    refine ⟨?_, hnullifiers, fun _ _ => trivial, hlength, hcount, houtputs,
      List.forall_mem_map.mp hauthored.outputs, rfl⟩
    rw [not_or, not_or, not_not, not_not]
    exact ⟨hauthored.hash_eq, hauthored.block_eq, Nat.not_le.mpr hgood.tree_lt⟩

/-- A foreign row changes nothing. -/
theorem qualifyRow_eq_ok :
    qualifyRow crypto keys candidate walletUtxos state row = .ok after ↔
      GoodRow keys candidate walletUtxos row ∧
        ((isOwn keys walletUtxos row = false ∧ after = state) ∨
          (isOwn keys walletUtxos row = true ∧ AuthoredRow keys candidate walletUtxos row ∧
            Fresh state.qualifiedNullifiers row.transaction.nullifiers ∧
            Fresh state.consumedOutputs (privateOutputs row) ∧
            after = state.add crypto keys candidate walletUtxos row)) := by
  unfold qualifyRow
  rw [bind_eq_ok]
  constructor
  · rintro ⟨qualification, hinputs, h⟩
    obtain ⟨hgood, ⟨rfl, hown⟩ | ⟨rfl, hown, hall⟩⟩ := qualifySenderRowInputs_eq_ok.mp hinputs
    · exact ⟨hgood, .inl ⟨hown, (Except.ok.inj h).symm⟩⟩
    · exact ⟨hgood, .inr ⟨hown, (qualifyAuthoredRow_eq_ok hgood hall).mp h⟩⟩
  · rintro ⟨hgood, ⟨hown, rfl⟩ | ⟨hown, hrow⟩⟩
    · exact ⟨.foreign, qualifySenderRowInputs_eq_ok.mpr ⟨hgood, .inl ⟨rfl, hown⟩⟩, rfl⟩
    · exact ⟨.walletAuthored,
        qualifySenderRowInputs_eq_ok.mpr ⟨hgood, .inr ⟨rfl, hown, hrow.1.inputs⟩⟩,
        (qualifyAuthoredRow_eq_ok hgood hrow.1.inputs).mpr hrow⟩

variable {rows : List TxidPublicCacheEntry}

/-- By induction over the rows, those of the wallet are added. -/
theorem foldlM_qualifyRow_eq_ok :
    rows.foldlM (qualifyRow crypto keys candidate walletUtxos) state = .ok after ↔
      (∀ row ∈ rows, GoodRow keys candidate walletUtxos row) ∧
        (∀ row ∈ ownRows keys walletUtxos rows, AuthoredRow keys candidate walletUtxos row) ∧
        Fresh state.qualifiedNullifiers
          ((ownRows keys walletUtxos rows).flatMap (·.transaction.nullifiers)) ∧
        Fresh state.consumedOutputs ((ownRows keys walletUtxos rows).flatMap privateOutputs) ∧
        after = (ownRows keys walletUtxos rows).foldl
          (QualifyState.add crypto keys candidate walletUtxos) state := by
  induction rows generalizing state with
  | nil => simp [ownRows, fresh_nil, pure_eq_ok]
  | cons row rows ih =>
    rw [List.foldlM_cons, bind_eq_ok, List.forall_mem_cons]
    simp only [qualifyRow_eq_ok, ih]
    cases hown : isOwn keys walletUtxos row with
    | false =>
      have hrows : ownRows keys walletUtxos (row :: rows) = ownRows keys walletUtxos rows :=
        List.filter_cons_of_neg (by rw [hown]; exact Bool.false_ne_true)
      simp [hrows, and_assoc]
    | true =>
      have hrows : ownRows keys walletUtxos (row :: rows) =
          row :: ownRows keys walletUtxos rows := List.filter_cons_of_pos hown
      -- The state after the row is known, so the run splits into the row and the rest.
      simp only [hrows, List.forall_mem_cons, List.flatMap_cons, fresh_append, List.foldl_cons,
        Bool.true_eq_false, false_and, false_or, true_and, and_assoc, exists_and_left,
        exists_eq_left]
      simp only [QualifyState.add]
      tauto

/-- What the rows of the wallet add up to. -/
theorem foldl_add_eq (rows : List TxidPublicCacheEntry) (state : QualifyState) :
    (rows.foldl (QualifyState.add crypto keys candidate walletUtxos) state).qualified =
        state.qualified ++ rows.map (qualifiedOf crypto candidate) ∧
      (rows.foldl (QualifyState.add crypto keys candidate walletUtxos) state).consumedOutputs =
        state.consumedOutputs ∪ (rows.flatMap privateOutputs).toFinset ∧
      (rows.foldl (QualifyState.add crypto keys candidate walletUtxos) state).consumedSpends =
        state.consumedSpends ∪ (rows.flatMap (rowSpends keys walletUtxos)).toFinset := by
  induction rows generalizing state with
  | nil =>
    simp
  | cons row rows ih =>
    obtain ⟨hqualified, houtputs, hspends⟩ :=
      ih (state.add crypto keys candidate walletUtxos row)
    rw [List.foldl_cons, hqualified, houtputs, hspends, List.map_cons, List.flatMap_cons,
      List.flatMap_cons, List.toFinset_append, List.toFinset_append]
    refine ⟨?_, Finset.union_assoc _ _ _, Finset.union_assoc _ _ _⟩
    rw [QualifyState.add, List.append_assoc, List.singleton_append]

variable (crypto keys candidate walletUtxos) in
/-- The rows of the wallet account for the whole candidate. -/
@[mk_iff]
structure Accounted (rows : List TxidPublicCacheEntry) : Prop where
  valid : candidate.validate crypto = .ok ()
  good : ∀ row ∈ rows, GoodRow keys candidate walletUtxos row
  authored : ∀ row ∈ ownRows keys walletUtxos rows, AuthoredRow keys candidate walletUtxos row
  nullifiers_nodup : ((ownRows keys walletUtxos rows).flatMap (·.transaction.nullifiers)).Nodup
  outputs_nodup : ((ownRows keys walletUtxos rows).flatMap privateOutputs).Nodup
  ownRows_ne : ownRows keys walletUtxos rows ≠ []
  spends_card :
    ((ownRows keys walletUtxos rows).flatMap (rowSpends keys walletUtxos)).toFinset.card =
    candidate.walletSpends.length
  spends_mem : ∀ spend ∈ candidate.walletSpends,
    spend ∈ (ownRows keys walletUtxos rows).flatMap (rowSpends keys walletUtxos)
  outputs_mem : ∀ output ∈ candidate.outputs, output.note.isSome = true →
    output.outputKey ∈ (ownRows keys walletUtxos rows).flatMap privateOutputs

/-- A candidate qualifies exactly if the rows of the wallet account for it. -/
theorem qualifySenderCandidate_eq_some {qualified : List QualifiedSenderTransaction} :
    qualifySenderCandidate crypto keys candidate walletUtxos rows = .ok (some qualified) ↔
      Accounted crypto keys candidate walletUtxos rows ∧
        qualified = (ownRows keys walletUtxos rows).map (qualifiedOf crypto candidate) := by
  obtain ⟨hqualified, houtputs, hspends⟩ := @foldl_add_eq crypto keys candidate walletUtxos
    (ownRows keys walletUtxos rows) {}
  rw [List.nil_append] at hqualified
  rw [Finset.empty_union] at houtputs hspends
  -- Without rows there are none of the wallet.
  have hrows : ownRows keys walletUtxos rows ≠ [] → rows ≠ [] := by
    rintro hne rfl
    exact hne rfl
  have hnone : (pure none : Except Unit (Option (List QualifiedSenderTransaction))) =
      .ok none := rfl
  rw [qualifySenderCandidate, ite_none_eq_ok, bind_eq_ok, accounted_iff]
  simp only [foldlM_qualifyRow_eq_ok, and_assoc, exists_and_left, exists_eq_left, hqualified,
    houtputs, hspends, fresh_empty]
  rw [hnone, ite_none_eq_ok, pure_eq_ok]
  simp only [not_or, not_not, List.isEmpty_iff, List.map_eq_nil_iff, List.any_eq_true, not_exists,
    not_and, decide_eq_true_eq, List.mem_toFinset, Bool.and_eq_true, Option.some.injEq, ne_eq]
  tauto

theorem pairwise_of_windowsAll {A : Type} {lt : A → A → Bool} {l : List A}
    (htrans : ∀ a b c, lt a b → lt b c → lt a c) (h : windowsAll lt l = true) :
    l.Pairwise fun a b => lt a b = true := by
  induction l with
  | nil => exact .nil
  | cons a l ih =>
    cases l with
    | nil => exact List.pairwise_singleton _ a
    | cons b l =>
      obtain ⟨hab, hrest⟩ := Bool.and_eq_true_iff.mp h
      have hpairwise := ih hrest
      refine .cons (fun c hc => ?_) hpairwise
      rcases List.mem_cons.mp hc with rfl | hc
      · exact hab
      · exact htrans a b c hab (List.rel_of_pairwise_cons hpairwise hc)

/-- Valid outputs are at different places, with the commitments of their notes. -/
theorem foldlM_validateOutput {outputs : List SenderTransactionCandidateOutput}
    {seen after : Option SenderTransactionCandidateOutput × Finset (Nat × Nat) × Finset Bytes32}
    (h : outputs.foldlM (fun seen output =>
      SenderTransactionCandidate.validateOutput crypto output seen) seen = .ok after) :
    Fresh seen.2.1 (outputs.map fun output => (output.tree, output.position)) ∧
      ∀ output ∈ outputs, ∀ note, output.note = some note →
        note.commitment crypto = output.commitment := by
  induction outputs generalizing seen with
  | nil => exact ⟨fresh_nil, nofun⟩
  | cons output outputs ih =>
    obtain ⟨middle, hmiddle, h⟩ := bind_eq_ok.mp h
    obtain ⟨-, hmiddle⟩ := ite_error_eq_ok.mp hmiddle
    obtain ⟨hnew, hmiddle⟩ := ite_error_eq_ok.mp hmiddle
    obtain ⟨hnote, hmiddle⟩ := ite_error_eq_ok.mp hmiddle
    cases hmiddle
    obtain ⟨hfresh, hnotes⟩ := ih h
    rw [List.map_cons, fresh_cons]
    refine ⟨⟨(not_or.mp hnew).1, hfresh⟩, fun other hother note hsome => ?_⟩
    rcases List.mem_cons.mp hother with rfl | hother
    · rw [hsome, Option.any_some, Bool.not_eq_true, bne_eq_false_iff_eq] at hnote
      exact hnote
    · exact hnotes other hother note hsome

/-- What is known of a valid candidate. -/
theorem validate_eq_ok (h : candidate.validate crypto = .ok ()) :
    candidate.walletSpends ≠ [] ∧ candidate.walletSpends.Nodup ∧
      (candidate.outputs.map (·.outputKey)).Nodup ∧
      ∀ output ∈ candidate.outputs, ∀ note, output.note = some note →
        note.commitment crypto = output.commitment := by
  obtain ⟨-, h⟩ := ite_error_eq_ok.mp h
  obtain ⟨hspends, h⟩ := ite_error_eq_ok.mp h
  obtain ⟨after, hafter, -⟩ := bind_eq_ok.mp h
  obtain ⟨hfresh, hnotes⟩ := foldlM_validateOutput hafter
  rw [not_or, List.isEmpty_iff, Bool.not_eq_true', Bool.not_eq_false] at hspends
  have htrans : ∀ a b c : SenderTransactionCandidateSpend, decide (a.sortKey < b.sortKey) = true →
      decide (b.sortKey < c.sortKey) = true → decide (a.sortKey < c.sortKey) = true :=
    fun a b c hab hbc => decide_eq_true (lt_trans (of_decide_eq_true hab) (of_decide_eq_true hbc))
  have hsorted := pairwise_of_windowsAll htrans hspends.2
  refine ⟨hspends.1, hsorted.imp fun hlt heq => ?_, ?_, hnotes⟩
  · rw [heq, decide_eq_true_eq] at hlt
    exact lt_irrefl _ hlt
  · -- The place is a part of the key, so different places are different keys.
    have hplaces : ((candidate.outputs.map (·.outputKey)).map fun key : OutputKey =>
        (key.1, key.2.1)).Nodup := by
      rw [List.map_map]
      exact hfresh.1
    exact hplaces.of_map _

/-- The outputs with a note are found by their keys. -/
theorem noteAt_isSome_iff (hkeys : (candidate.outputs.map (·.outputKey)).Nodup) {key : OutputKey} :
    (noteAt candidate key).isSome = true ↔
      key ∈ (candidate.outputs.filter (·.note.isSome)).map (·.outputKey) := by
  rw [noteAt, List.mem_map]
  constructor
  · intro h
    cases hfind : candidate.outputs.find? fun output => output.outputKey == key with
    | none =>
      rw [hfind] at h
      cases h
    | some output =>
      rw [hfind] at h
      exact ⟨output, List.mem_filter.mpr ⟨List.mem_of_find?_eq_some hfind, h⟩,
        beq_iff_eq.mp (List.find?_some hfind :)⟩
  · rintro ⟨output, houtput, rfl⟩
    obtain ⟨hmem, hnote⟩ := List.mem_filter.mp houtput
    cases hfind : candidate.outputs.find? fun other => other.outputKey == output.outputKey with
    | none =>
      exact absurd (beq_self_eq_true output.outputKey) (List.find?_eq_none.mp hfind output hmem)
    | some other =>
      have hother : other = output := List.inj_on_of_nodup_map hkeys
        (List.mem_of_find?_eq_some hfind) hmem (beq_iff_eq.mp (List.find?_some hfind :))
      rw [hother]
      exact hnote

variable (keys candidate walletUtxos) in
/-- What is known of the entries of a candidate that qualifies. -/
structure SoundlyQualified (rows : List TxidPublicCacheEntry)
    (qualified : List QualifiedSenderTransaction) : Prop where
  rows_eq : qualified.map (·.publicRow) = ownRows keys walletUtxos rows
  inputs : ∀ entry ∈ qualified, ∀ nullifier ∈ entry.publicRow.transaction.nullifiers,
    ∃ input, inputsOf keys walletUtxos entry.publicRow nullifier = [input] ∧
      input.spent = some candidate.source
  spends : ∀ spend, spend ∈ candidate.walletSpends ↔
    ∃ entry ∈ qualified, ∃ nullifier ∈ entry.publicRow.transaction.nullifiers,
      ∃ input ∈ inputsOf keys walletUtxos entry.publicRow nullifier, input.candidateSpend = spend
  source_eq : ∀ entry ∈ qualified,
    entry.publicRow.transaction.transactionHash = candidate.source.txHash ∧
      entry.publicRow.transaction.blockNumber = candidate.source.blockNumber
  outputs_perm : (qualified.flatMap fun entry => privateOutputs entry.publicRow).Perm
    ((candidate.outputs.filter (·.note.isSome)).map (·.outputKey))
  entry_eq : ∀ entry ∈ qualified, entry.txidIndex = entry.publicRow.txidIndex ∧
    entry.outputStartGlobal = entry.publicRow.transaction.outputStartGlobal ∧
    entry.outputNotes = entry.outputs.map (·.note) ∧
    entry.outputs.map (fun utxo => ((utxo.tree, utxo.position, utxo.commitment) : OutputKey)) =
      privateOutputs entry.publicRow

theorem mem_flatMap_rowSpends {spend : SenderTransactionCandidateSpend} :
    spend ∈ rows.flatMap (rowSpends keys walletUtxos) ↔
      ∃ row ∈ rows, ∃ nullifier ∈ row.transaction.nullifiers,
        ∃ input ∈ inputsOf keys walletUtxos row nullifier, input.candidateSpend = spend := by
  simp only [List.mem_flatMap, rowSpends, List.mem_map]

/-- The entry of a row lists its outputs in order. -/
theorem qualifiedOf_outputs
    (hnotes : ∀ output ∈ candidate.outputs, ∀ note, output.note = some note →
      note.commitment crypto = output.commitment)
    (hrow : AuthoredRow keys candidate walletUtxos row) :
    (qualifiedOf crypto candidate row).outputNotes =
        (qualifiedOf crypto candidate row).outputs.map (·.note) ∧
      (qualifiedOf crypto candidate row).outputs.map
        (fun utxo => ((utxo.tree, utxo.position, utxo.commitment) : OutputKey)) =
          privateOutputs row := by
  have hall := hrow.outputs
  unfold qualifiedOf
  generalize privateOutputs row = outputs at hall
  induction outputs with
  | nil => exact ⟨rfl, rfl⟩
  | cons key outputs ih =>
    obtain ⟨hnotesEq, hkeysEq⟩ := ih fun other hother => hall other (List.mem_cons_of_mem _ hother)
    obtain ⟨note, hnote⟩ := Option.isSome_iff_exists.mp (hall key List.mem_cons_self).2
    have hcommitment : note.commitment crypto = key.2.2 := by
      obtain ⟨output, hfind, hsome⟩ := Option.bind_eq_some_iff.mp hnote
      rw [hnotes output (List.mem_of_find?_eq_some hfind) note hsome,
        ← beq_iff_eq.mp (List.find?_some hfind :)]
      rfl
    have hsent : (noteAt candidate key).map (sentUtxo crypto candidate key) =
        some (sentUtxo crypto candidate key note) := by rw [hnote, Option.map_some]
    rw [List.filterMap_cons_some hnote, List.filterMap_cons, hsent, List.map_cons, List.map_cons,
      ← hnotesEq, hkeysEq, sentUtxo, hcommitment]
    exact ⟨rfl, rfl⟩

-- The entries are the rows of the wallet, which the loops have checked one by
-- one. Spends and outputs match as sets by the final check, and one by one since
-- the loops refuse repetitions.
/-- A candidate that qualifies has been sent by the wallet, with exactly these rows. -/
theorem qualifySenderCandidate_sound (crypto : NoteCrypto) (keys : WalletScanKeys)
    (candidate : SenderTransactionCandidate) (walletUtxos : List WalletUtxo)
    (rows : List TxidPublicCacheEntry) (qualified : List QualifiedSenderTransaction)
    (h : qualifySenderCandidate crypto keys candidate walletUtxos rows = .ok (some qualified)) :
    SoundlyQualified keys candidate walletUtxos rows qualified := by
  obtain ⟨haccounted, rfl⟩ := qualifySenderCandidate_eq_some.mp h
  obtain ⟨-, -, hkeys, hnotes⟩ := validate_eq_ok haccounted.valid
  have hrows : ((ownRows keys walletUtxos rows).map (qualifiedOf crypto candidate)).map
      (·.publicRow) = ownRows keys walletUtxos rows := by
    rw [List.map_map]
    exact List.map_id _
  have hgood : ∀ row ∈ ownRows keys walletUtxos rows, GoodRow keys candidate walletUtxos row :=
    fun row hrow => haccounted.good row (List.mem_filter.mp hrow).1
  have hinput : ∀ row ∈ ownRows keys walletUtxos rows, ∀ nullifier ∈ row.transaction.nullifiers,
      ∃ entry, inputsOf keys walletUtxos row nullifier = [entry] ∧
        entry.spent = some candidate.source ∧ entry.candidateSpend ∈ candidate.walletSpends :=
    fun row hrow nullifier hn => ((hgood row hrow).inputs nullifier hn).resolve_left
      ((haccounted.authored row hrow).inputs nullifier hn)
  refine ⟨hrows, ?_, fun spend => ⟨fun hspend => ?_, ?_⟩, ?_, ?_, ?_⟩
  · rintro entry hentry nullifier hn
    obtain ⟨row, hrow, rfl⟩ := List.mem_map.mp hentry
    obtain ⟨input, hsingle, hspent, -⟩ := hinput row hrow nullifier hn
    exact ⟨input, hsingle, hspent⟩
  · obtain ⟨row, hrow, hrest⟩ := mem_flatMap_rowSpends.mp (haccounted.spends_mem spend hspend)
    exact ⟨qualifiedOf crypto candidate row, List.mem_map_of_mem hrow, hrest⟩
  · rintro ⟨entry, hentry, nullifier, hn, input, hmem, rfl⟩
    obtain ⟨row, hrow, rfl⟩ := List.mem_map.mp hentry
    obtain ⟨input', hsingle, -, hspend⟩ := hinput row hrow nullifier hn
    rw [show inputsOf keys walletUtxos (qualifiedOf crypto candidate row).publicRow nullifier =
      [input'] from hsingle, List.mem_singleton] at hmem
    rw [hmem]
    exact hspend
  · intro entry hentry
    obtain ⟨row, hrow, rfl⟩ := List.mem_map.mp hentry
    exact ⟨(haccounted.authored row hrow).hash_eq, (haccounted.authored row hrow).block_eq⟩
  · have hflat : (((ownRows keys walletUtxos rows).map (qualifiedOf crypto candidate)).flatMap
        fun entry => privateOutputs entry.publicRow) =
          (ownRows keys walletUtxos rows).flatMap privateOutputs := List.flatMap_map _ _ _
    rw [hflat]
    refine (List.perm_ext_iff_of_nodup haccounted.outputs_nodup
      ((List.filter_sublist.map _).nodup hkeys)).mpr fun key => ⟨fun hkey => ?_, fun hkey => ?_⟩
    · obtain ⟨row, hrow, hkey⟩ := List.mem_flatMap.mp hkey
      exact (noteAt_isSome_iff hkeys).mp ((haccounted.authored row hrow).outputs key hkey).2
    · obtain ⟨output, houtput, rfl⟩ := List.mem_map.mp hkey
      obtain ⟨hmem, hnote⟩ := List.mem_filter.mp houtput
      exact haccounted.outputs_mem output hmem hnote
  · intro entry hentry
    obtain ⟨row, hrow, rfl⟩ := List.mem_map.mp hentry
    obtain ⟨hnotesEq, hkeysEq⟩ := qualifiedOf_outputs hnotes (haccounted.authored row hrow)
    exact ⟨rfl, rfl, hnotesEq, hkeysEq⟩

variable (candidate) in
/-- A note that the transaction of the candidate has spent. -/
def spentByCandidate (entry : WalletUtxo) : Bool := entry.spent == some candidate.source

variable (crypto keys candidate walletUtxos) in
/-- A transaction of the wallet with all its rows: each row is the wallet's or
    foreign, the rows of the wallet spend what the candidate says and what the
    wallet knows to be spent, and their outputs are those that it can read. -/
structure HonestBatch (rows : List TxidPublicCacheEntry) : Prop where
  valid : candidate.validate crypto = .ok ()
  source_eq : ∀ row ∈ rows, row.transaction.transactionHash = candidate.source.txHash ∧
    row.transaction.blockNumber = candidate.source.blockNumber
  unmixed : ∀ row ∈ rows,
    (∀ nullifier ∈ row.transaction.nullifiers, inputsOf keys walletUtxos row nullifier ≠ []) ∨
      ∀ nullifier ∈ row.transaction.nullifiers, inputsOf keys walletUtxos row nullifier = []
  spends : ((walletUtxos.filter (spentByCandidate candidate)).map WalletUtxo.candidateSpend).Perm
    candidate.walletSpends
  inputs : ((ownRows keys walletUtxos rows).flatMap fun row =>
      row.transaction.nullifiers.map fun nullifier => (row.transaction.utxoTreeIn, nullifier)).Perm
    ((walletUtxos.filter (spentByCandidate candidate)).map fun entry =>
      (entry.utxo.tree, entry.utxo.nullifier keys))
  outputs : ((candidate.outputs.filter (·.note.isSome)).map (·.outputKey)).Perm
    ((ownRows keys walletUtxos rows).flatMap privateOutputs)

variable (keys candidate walletUtxos) in
/-- The notes that are spent are at different positions, whatever their trees are,
    and the wallet has each of them once. Rows are as the contract makes them. -/
structure DistinctInputs (rows : List TxidPublicCacheEntry) : Prop where
  positions : ((walletUtxos.filter (spentByCandidate candidate)).map (·.utxo.position)).Nodup
  leaves : ∀ entry ∈ walletUtxos, spentByCandidate candidate entry = true →
    (walletUtxos.filter fun other => other.utxo.place == entry.utxo.place) = [entry]
  rows_wf : ∀ row ∈ rows, row.transaction.utxoTreeIn < 2 ^ 32 ∧ row.transaction.nullifiers.Nodup
  commitments_ne : ∀ row ∈ ownRows keys walletUtxos rows, row.transaction.commitments ≠ []

/-- Each input of a row of the wallet is a note that is spent. -/
theorem HonestBatch.exists_spent (h : HonestBatch crypto keys candidate walletUtxos rows)
    (hrow : row ∈ ownRows keys walletUtxos rows) {nullifier : U256}
    (hn : nullifier ∈ row.transaction.nullifiers) :
    ∃ entry ∈ walletUtxos, spentByCandidate candidate entry = true ∧
      row.transaction.utxoTreeIn = entry.utxo.tree ∧ nullifier = entry.utxo.nullifier keys := by
  have hmem : (row.transaction.utxoTreeIn, nullifier) ∈
      (walletUtxos.filter (spentByCandidate candidate)).map fun entry =>
        (entry.utxo.tree, entry.utxo.nullifier keys) :=
    h.inputs.subset (List.mem_flatMap.mpr ⟨row, hrow, List.mem_map_of_mem hn⟩)
  obtain ⟨entry, hentry, heq⟩ := List.mem_map.mp hmem
  obtain ⟨hmem, hspent⟩ := List.mem_filter.mp hentry
  obtain ⟨htree, hnullifier⟩ := Prod.mk.inj heq
  exact ⟨entry, hmem, hspent, htree.symm, hnullifier.symm⟩

/-- Each note that is spent is an input of a row of the wallet. -/
theorem HonestBatch.exists_row
    (h : HonestBatch crypto keys candidate walletUtxos rows) {entry : WalletUtxo}
    (hentry : entry ∈ walletUtxos) (hspent : spentByCandidate candidate entry = true) :
    ∃ row ∈ ownRows keys walletUtxos rows, row.transaction.utxoTreeIn = entry.utxo.tree ∧
      entry.utxo.nullifier keys ∈ row.transaction.nullifiers := by
  have hmem := h.inputs.symm.subset (List.mem_map_of_mem (f := fun entry : WalletUtxo =>
    (entry.utxo.tree, entry.utxo.nullifier keys)) (List.mem_filter.mpr ⟨hentry, hspent⟩))
  obtain ⟨row, hrow, hpair⟩ := List.mem_flatMap.mp hmem
  obtain ⟨nullifier, hn, heq⟩ := List.mem_map.mp hpair
  obtain ⟨htree, rfl⟩ := Prod.mk.inj heq
  exact ⟨row, hrow, htree, hn⟩

/-- The nullifiers in the rows of the wallet are those of the notes that are spent. -/
theorem HonestBatch.nullifiers_perm (h : HonestBatch crypto keys candidate walletUtxos rows) :
    ((ownRows keys walletUtxos rows).flatMap (·.transaction.nullifiers)).Perm
      ((walletUtxos.filter (spentByCandidate candidate)).map (·.utxo.nullifier keys)) := by
  have hsnd := h.inputs.map Prod.snd
  rw [List.map_flatMap, List.map_map] at hsnd
  have hrow : (fun row : TxidPublicCacheEntry => (row.transaction.nullifiers.map fun nullifier =>
      (row.transaction.utxoTreeIn, nullifier)).map Prod.snd) = (·.transaction.nullifiers) := by
    funext row
    rw [List.map_map]
    exact List.map_id _
  rw [hrow] at hsnd
  exact hsnd

section Complete

variable (hinjective : Set.InjOn (fun position : Nat =>
    keys.poseidon keys.nullifyingKey (.ofNat 256 position)) {position | position < 2 ^ 64})
  (hpositions : ∀ entry ∈ walletUtxos, entry.utxo.position < 2 ^ 64)

include hinjective hpositions

/-- The inputs with the nullifier of a note are the notes at its place. -/
theorem inputsOf_eq_filter_place {row : TxidPublicCacheEntry} {entry : WalletUtxo}
    (hentry : entry ∈ walletUtxos) (htree : row.transaction.utxoTreeIn = entry.utxo.tree) :
    inputsOf keys walletUtxos row (entry.utxo.nullifier keys) =
      walletUtxos.filter fun other => other.utxo.place == entry.utxo.place := by
  refine List.filter_congr fun other hother => ?_
  have hnullifier : other.utxo.nullifier keys = entry.utxo.nullifier keys ↔
      other.utxo.position = entry.utxo.position :=
    hinjective.eq_iff (hpositions other hother) (hpositions entry hentry)
  rw [Bool.eq_iff_iff, isInput, Bool.and_eq_true, beq_iff_eq, beq_iff_eq, beq_iff_eq, hnullifier,
    htree, ScannedUtxo.place, ScannedUtxo.place, Prod.mk.injEq]

theorem nullifiers_nodup_iff :
    ((walletUtxos.filter (spentByCandidate candidate)).map (·.utxo.nullifier keys)).Nodup ↔
      ((walletUtxos.filter (spentByCandidate candidate)).map (·.utxo.position)).Nodup := by
  have hmap : (walletUtxos.filter (spentByCandidate candidate)).map (·.utxo.nullifier keys) =
      ((walletUtxos.filter (spentByCandidate candidate)).map (·.utxo.position)).map fun position =>
        keys.poseidon keys.nullifyingKey (.ofNat 256 position) := by
    rw [List.map_map]
    rfl
  have hlt : ∀ position ∈ (walletUtxos.filter (spentByCandidate candidate)).map
      (·.utxo.position), position < 2 ^ 64 := by
    intro position hposition
    obtain ⟨entry, hentry, rfl⟩ := List.mem_map.mp hposition
    exact hpositions entry (List.mem_filter.mp hentry).1
  rw [hmap]
  exact ⟨fun h => h.of_map _, fun h => h.map_on fun a ha b hb heq =>
    hinjective (hlt a ha) (hlt b hb) heq⟩

variable (h : HonestBatch crypto keys candidate walletUtxos rows)

include h

/-- If the loops accept the rows, the notes that are spent can be told apart. -/
theorem HonestBatch.distinctInputs
    (haccounted : Accounted crypto keys candidate walletUtxos rows) :
    DistinctInputs keys candidate walletUtxos rows := by
  refine ⟨?_, fun entry hentry hspent => ?_, fun row hrow => ?_, fun row hrow =>
    (haccounted.authored row hrow).commitments_ne⟩
  · rw [← nullifiers_nodup_iff hinjective hpositions]
    exact h.nullifiers_perm.nodup haccounted.nullifiers_nodup
  · obtain ⟨row, hrow, htree, hn⟩ := h.exists_row hentry hspent
    obtain ⟨input, hsingle, -⟩ := ((haccounted.good row (List.mem_filter.mp hrow).1).inputs _
      hn).resolve_left ((haccounted.authored row hrow).inputs _ hn)
    rw [inputsOf_eq_filter_place hinjective hpositions hentry htree] at hsingle
    have hmem : entry ∈ walletUtxos.filter fun other => other.utxo.place == entry.utxo.place :=
      List.mem_filter.mpr ⟨hentry, beq_self_eq_true _⟩
    rw [hsingle, List.mem_singleton] at hmem
    rw [hsingle, ← hmem]
  · exact ⟨(haccounted.good row hrow).tree_lt, (haccounted.good row hrow).nullifiers_nodup⟩

variable (hdistinct : DistinctInputs keys candidate walletUtxos rows)

include hdistinct

/-- Each input of a row of the wallet is found once, and the candidate spends it. -/
theorem HonestBatch.exists_input (hrow : row ∈ ownRows keys walletUtxos rows) {nullifier : U256}
    (hn : nullifier ∈ row.transaction.nullifiers) :
    ∃ entry, inputsOf keys walletUtxos row nullifier = [entry] ∧
      entry.spent = some candidate.source ∧ entry.candidateSpend ∈ candidate.walletSpends := by
  obtain ⟨entry, hentry, hspent, htree, rfl⟩ := h.exists_spent hrow hn
  refine ⟨entry, ?_, beq_iff_eq.mp hspent, h.spends.subset
    (List.mem_map_of_mem (List.mem_filter.mpr ⟨hentry, hspent⟩))⟩
  rw [inputsOf_eq_filter_place hinjective hpositions hentry htree]
  exact hdistinct.leaves entry hentry hspent

/-- The rows of the wallet spend what the candidate says. -/
theorem HonestBatch.mem_rowSpends_iff (spend : SenderTransactionCandidateSpend) :
    spend ∈ (ownRows keys walletUtxos rows).flatMap (rowSpends keys walletUtxos) ↔
      spend ∈ candidate.walletSpends := by
  constructor
  · intro hspend
    obtain ⟨row, hrow, nullifier, hn, input, hmem, rfl⟩ := mem_flatMap_rowSpends.mp hspend
    obtain ⟨entry, hsingle, -, hspend⟩ := h.exists_input hinjective hpositions hdistinct hrow hn
    rw [hsingle, List.mem_singleton] at hmem
    rw [hmem]
    exact hspend
  · intro hspend
    obtain ⟨entry, hentry, rfl⟩ := List.mem_map.mp (h.spends.symm.subset hspend)
    obtain ⟨hmem, hspent⟩ := List.mem_filter.mp hentry
    obtain ⟨row, hrow, htree, hn⟩ := h.exists_row hmem hspent
    refine mem_flatMap_rowSpends.mpr ⟨row, hrow, _, hn, entry, ?_, rfl⟩
    rw [inputsOf_eq_filter_place hinjective hpositions hmem htree,
      hdistinct.leaves entry hmem hspent]
    exact List.mem_singleton_self entry

/-- Every row passes the checks of the loops: it is the wallet's or foreign. -/
theorem HonestBatch.goodRow (hrow : row ∈ rows) : GoodRow keys candidate walletUtxos row := by
  refine ⟨(hdistinct.rows_wf row hrow).1, (hdistinct.rows_wf row hrow).2, fun nullifier hn => ?_⟩
  by_cases hisOwn : isOwn keys walletUtxos row = true
  · exact .inr (h.exists_input hinjective hpositions hdistinct
      (List.mem_filter.mpr ⟨hrow, hisOwn⟩) hn)
  · rw [isOwn, List.any_eq_true, not_exists] at hisOwn
    have hempty := fun hne => hisOwn nullifier ⟨hn, hne⟩
    rw [Bool.not_eq_true', imp_false, Bool.not_eq_false, List.isEmpty_iff] at hempty
    exact .inl hempty

/-- A row of the wallet is of the candidate, with outputs that the candidate lists. -/
theorem HonestBatch.authoredRow (hrow : row ∈ ownRows keys walletUtxos rows) :
    AuthoredRow keys candidate walletUtxos row := by
  have hsource := h.source_eq row (List.mem_filter.mp hrow).1
  obtain ⟨-, -, hkeys, -⟩ := validate_eq_ok h.valid
  refine ⟨fun nullifier hn hnil => ?_, hsource.1, hsource.2, hdistinct.commitments_ne row hrow,
    fun key hkey => ?_⟩
  · obtain ⟨entry, hsingle, -⟩ := h.exists_input hinjective hpositions hdistinct hrow hn
    rw [hnil] at hsingle
    contradiction
  · have hmem := h.outputs.symm.subset (List.mem_flatMap.mpr ⟨row, hrow, hkey⟩)
    refine ⟨?_, (noteAt_isSome_iff hkeys).mpr hmem⟩
    obtain ⟨output, houtput, rfl⟩ := List.mem_map.mp hmem
    exact candidate.outputs_tree_lt output (List.mem_filter.mp houtput).1

/-- If the notes that are spent can be told apart, the loops accept the rows. -/
theorem HonestBatch.accounted : Accounted crypto keys candidate walletUtxos rows := by
  obtain ⟨hspendsNe, hspendsNodup, hkeys, -⟩ := validate_eq_ok h.valid
  have hspends := h.mem_rowSpends_iff hinjective hpositions hdistinct
  exact
    { valid := h.valid
      good := fun _ => h.goodRow hinjective hpositions hdistinct
      authored := fun _ => h.authoredRow hinjective hpositions hdistinct
      nullifiers_nodup := h.nullifiers_perm.symm.nodup
        ((nullifiers_nodup_iff hinjective hpositions).mpr hdistinct.positions)
      outputs_nodup := h.outputs.nodup ((List.filter_sublist.map _).nodup hkeys)
      ownRows_ne := fun hnil => by
        obtain ⟨spend, hspend⟩ := List.exists_mem_of_ne_nil _ hspendsNe
        have hmem := (hspends spend).mpr hspend
        rw [hnil] at hmem
        cases hmem
      spends_card := by
        rw [← List.toFinset_card_of_nodup hspendsNodup]
        congr 1
        ext spend
        rw [List.mem_toFinset, List.mem_toFinset, hspends]
      spends_mem := fun spend => (hspends spend).mpr
      outputs_mem := fun output houtput hnote => h.outputs.subset
        (List.mem_map_of_mem (List.mem_filter.mpr ⟨houtput, hnote⟩)) }

end Complete

-- From left to right each part is what one of the loops has checked. From right to
-- left every input of a row of the wallet is found once and is spent, so every row
-- passes, and the sets at the end are equal since the lists are permutations.
/-- A transaction of the wallet qualifies exactly if the notes that it spends are at
    different positions. -/
theorem qualifySenderCandidate_complete (crypto : NoteCrypto) (keys : WalletScanKeys)
    (candidate : SenderTransactionCandidate) (walletUtxos : List WalletUtxo)
    (rows : List TxidPublicCacheEntry)
    (hinjective : Set.InjOn (fun position : Nat =>
      keys.poseidon keys.nullifyingKey (.ofNat 256 position)) {position | position < 2 ^ 64})
    (hpositions : ∀ entry ∈ walletUtxos, entry.utxo.position < 2 ^ 64)
    (h : HonestBatch crypto keys candidate walletUtxos rows) :
    (∃ qualified, qualifySenderCandidate crypto keys candidate walletUtxos rows =
      .ok (some qualified)) ↔ DistinctInputs keys candidate walletUtxos rows := by
  constructor
  · rintro ⟨qualified, hqualified⟩
    exact h.distinctInputs hinjective hpositions (qualifySenderCandidate_eq_some.mp hqualified).1
  · intro hdistinct
    have haccounted := h.accounted hinjective hpositions hdistinct
    exact ⟨_, qualifySenderCandidate_eq_some.mpr ⟨haccounted, rfl⟩⟩

end Qualify

/-- A stand-in: the nullifier of a note is its position. -/
def sampleScanKeys : WalletScanKeys where
  nullifyingKey := 0
  poseidon := fun key position => key + position
  decryptSenderNote := fun _ _ => none

/-- The transaction that is to be recovered. -/
def sampleSenderSource : UtxoSource := { txHash := 7, blockNumber := 10, blockTimestamp := 100 }

/-- A note that it has sent. -/
def sampleSentNote (value : U256) : Note := { tokenHash := 1, value, random := 0, npk := 30 }

/-- A note of the wallet that the transaction spends. -/
def sampleSpentUtxo (tree position : Nat) : WalletUtxo :=
  { utxo := { note := { tokenHash := 1, value := 10, random := 0, npk := 10 }, tree, position,
              source := { txHash := 1, blockNumber := 1, blockTimestamp := 1 }, commitment := 21 },
    spent := some sampleSenderSource }

/-- A row that spends one note and has one output. -/
def sampleSenderRow (txidIndex tree position output : Nat) (commitment : U256) :
    TxidPublicCacheEntry :=
  { txidIndex,
    transaction :=
      { id := "row", transactionHash := 7, blockNumber := 10, blockTimestamp := 100,
        nullifiers := [.ofNat 256 position], commitments := [commitment], boundParamsHash := 0,
        hasUnshield := false, unshieldPreimage := none, utxoTreeIn := tree, utxoTreeOut := 1,
        utxoBatchStartPositionOut := output } }

/-- Position 5 of the first tree and some position of the second. -/
def sampleSenderUtxos (second : Nat) : List WalletUtxo :=
  [sampleSpentUtxo 0 5, sampleSpentUtxo 1 second]

/-- A row for each of the two notes. -/
def sampleSenderRows (second : Nat) : List TxidPublicCacheEntry :=
  [sampleSenderRow 8 0 5 8 41, sampleSenderRow 9 1 second 9 42]

/-- The candidate that the wallet has made of its notes. -/
def sampleSenderCandidate (second : Nat) : SenderTransactionCandidate where
  formatVersion := 1
  source := sampleSenderSource
  walletSpends := [⟨0, 5, 21⟩, ⟨1, second, 21⟩]
  outputs := [⟨1, 8, 41, some (sampleSentNote 10)⟩, ⟨1, 9, 42, some (sampleSentNote 11)⟩]
  unshield := none
  outputs_tree_lt := by simp only [List.mem_cons, List.not_mem_nil, or_false, forall_eq_or_imp,
    forall_eq, Nat.one_lt_pow_iff, ne_eq, OfNat.ofNat_ne_zero, not_false_eq_true, Nat.one_lt_ofNat,
    and_self]

theorem sampleSender_unmixed {second : Nat}
    (h : ((sampleSenderRows second).all fun row => row.transaction.nullifiers.all fun nullifier =>
      !(inputsOf sampleScanKeys (sampleSenderUtxos second) row nullifier).isEmpty) = true) :
    ∀ row ∈ sampleSenderRows second,
      (∀ nullifier ∈ row.transaction.nullifiers,
        inputsOf sampleScanKeys (sampleSenderUtxos second) row nullifier ≠ []) ∨
        ∀ nullifier ∈ row.transaction.nullifiers,
          inputsOf sampleScanKeys (sampleSenderUtxos second) row nullifier = [] := by
  intro row hrow
  refine .inl fun nullifier hn hnil => ?_
  have hfound := List.all_eq_true.mp (List.all_eq_true.mp h row hrow) nullifier hn
  rw [hnil] at hfound
  cases hfound

/-- The same position of two trees: the transaction is refused. -/
theorem qualifySenderCandidate_same_position :
    HonestBatch sampleCrypto sampleScanKeys (sampleSenderCandidate 5) (sampleSenderUtxos 5)
        (sampleSenderRows 5) ∧
      qualifySenderCandidate sampleCrypto sampleScanKeys (sampleSenderCandidate 5)
        (sampleSenderUtxos 5) (sampleSenderRows 5) = .error () := by
  refine ⟨⟨?_, ?_, sampleSender_unmixed (by decide +kernel), ?_, ?_, ?_⟩, ?_⟩ <;> decide +kernel

theorem sampleScanKeys_injective : Set.InjOn (fun position : Nat =>
    sampleScanKeys.poseidon sampleScanKeys.nullifyingKey (.ofNat 256 position))
      {position | position < 2 ^ 64} := by
  intro a (ha : a < 2 ^ 64) b (hb : b < 2 ^ 64) h
  have hsum : (0 : U256) + .ofNat 256 a = 0 + .ofNat 256 b := h
  have hwords := congrArg BitVec.toNat (add_left_cancel hsum)
  rw [BitVec.toNat_ofNat, BitVec.toNat_ofNat] at hwords
  omega

/-- Different positions: the transaction is recovered. -/
theorem qualifySenderCandidate_complete_sample :
    DistinctInputs sampleScanKeys (sampleSenderCandidate 6) (sampleSenderUtxos 6)
        (sampleSenderRows 6) ∧
      ∃ qualified, qualifySenderCandidate sampleCrypto sampleScanKeys (sampleSenderCandidate 6)
        (sampleSenderUtxos 6) (sampleSenderRows 6) = .ok (some qualified) := by
  have hdistinct : DistinctInputs sampleScanKeys (sampleSenderCandidate 6) (sampleSenderUtxos 6)
      (sampleSenderRows 6) := by
    refine ⟨?_, ?_, ?_, ?_⟩ <;> decide +kernel
  have hhonest : HonestBatch sampleCrypto sampleScanKeys (sampleSenderCandidate 6)
      (sampleSenderUtxos 6) (sampleSenderRows 6) := by
    refine ⟨?_, ?_, sampleSender_unmixed (by decide +kernel), ?_, ?_, ?_⟩ <;> decide +kernel
  exact ⟨hdistinct, (qualifySenderCandidate_complete _ _ _ _ _ sampleScanKeys_injective
    (by decide +kernel) hhonest).mpr hdistinct⟩

/-- A batch of two transactions that qualifies. -/
theorem qualifySenderCandidate_sound_sample : ∃ qualified,
    qualifySenderCandidate sampleCrypto sampleScanKeys (sampleSenderCandidate 6)
      (sampleSenderUtxos 6) (sampleSenderRows 6) = .ok (some qualified) ∧
    qualified.length = 2 ∧
    SoundlyQualified sampleScanKeys (sampleSenderCandidate 6) (sampleSenderUtxos 6)
      (sampleSenderRows 6) qualified := by
  have hrun : ∃ qualified, qualifySenderCandidate sampleCrypto sampleScanKeys
      (sampleSenderCandidate 6) (sampleSenderUtxos 6) (sampleSenderRows 6) =
        .ok (some qualified) ∧ qualified.length = 2 := ⟨_, rfl, rfl⟩
  obtain ⟨qualified, hqualified, hlength⟩ := hrun
  exact ⟨qualified, hqualified, hlength, qualifySenderCandidate_sound _ _ _ _ _ _ hqualified⟩

end Railgun
