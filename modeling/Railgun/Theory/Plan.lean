import Railgun.Theory.Split

/-!
# Spendable Plans

Every selection the builder works with is a plan it can carry out. The chunks
use disjoint notes of the wallet, each chunk is a valid transaction, and all
but the last are strictly below what is still owed, so they leave no change.

`Chain` is what a batch that settles an amount and a maximum selection have in
common: each chunk is spendable from the notes the earlier ones left. What the
chunks spend together, and what they are worth, follows from it alone.

## Main definitions

* `owedBefore`: What is still owed before a chunk.

## Theorems

* `chain_subperm`: The chunks together use notes of the pool, each once.
* `chain_spendable`: Every chunk is spendable from the whole pool.
* `chain_total`: The wrapping total of the chunks is the true one.
* `selection_spendablePlan`: Every selection and every candidate is a
  spendable plan.
-/

namespace Railgun

open SelectedInputIdentity (fromUtxo)

/-- Each chunk is spendable from the notes the earlier ones left. -/
inductive Chain (token : Address) (continuation : Nat) :
    Nat → List Utxo → List UtxoSelection → Prop
  | nil {baseOutputCount : Nat} {pool : List Utxo} :
      Chain token continuation baseOutputCount pool []
  | cons {baseOutputCount : Nat} {pool : List Utxo} {chunk : UtxoSelection}
      {rest : List UtxoSelection} :
      Spendable pool token baseOutputCount chunk →
      Chain token continuation continuation (removeSelectedUtxos pool chunk.utxos) rest →
      Chain token continuation baseOutputCount pool (chunk :: rest)

variable {pool : List Utxo} {chunks : List UtxoSelection} {owed : U256} {token : Address}
    {baseOutputCount continuation : Nat}

theorem Splits.chain (h : Splits token continuation baseOutputCount pool owed chunks) :
    Chain token continuation baseOutputCount pool chunks := by
  induction h with
  | last hspend _ => exact Chain.cons hspend Chain.nil
  | more hspend _ _ ih => exact Chain.cons hspend ih

theorem Draws.chain (h : Draws token continuation baseOutputCount pool chunks) :
    Chain token continuation baseOutputCount pool chunks := by
  induction h with
  | nil => exact Chain.nil
  | cons hmax _ ih => exact Chain.cons (maxUnshieldSelection_spec hmax).1 ih

theorem removeSelectedUtxos_sublist (utxos selected : List Utxo) :
    (removeSelectedUtxos utxos selected).Sublist utxos :=
  List.filter_sublist

/-- A chunk and what is drawn from the notes left are notes of the pool. -/
theorem subperm_append_of_removed {chosen rest : List Utxo} (hchosen : chosen.Subperm pool)
    (hrest : rest.Subperm (removeSelectedUtxos pool chosen)) : (chosen ++ rest).Subperm pool := by
  have hself : chosen.filter (fun utxo =>
      chosen.any fun s => s.tree = utxo.tree ∧ s.position = utxo.position) = chosen := by
    rw [List.filter_eq_self]
    intro utxo hmem
    exact List.any_eq_true.mpr ⟨utxo, hmem, by simp only [and_self, decide_true]⟩
  have hkept := hchosen.filter (fun utxo =>
    chosen.any fun s => s.tree = utxo.tree ∧ s.position = utxo.position)
  rw [hself] at hkept
  exact (hkept.append hrest).trans (List.filter_append_perm _ pool).subperm

/-- No note of the pool is spent twice. -/
theorem chain_subperm (h : Chain token continuation baseOutputCount pool chunks) :
    (chunks.flatMap (·.utxos)).Subperm pool := by
  induction h with
  | nil => exact List.nil_subperm
  | cons hspend _ ih =>
    exact subperm_append_of_removed hspend.subperm ih

variable {utxos : List Utxo}

theorem subperm_identities_nodup {chosen : List Utxo} (h : chosen.Subperm utxos)
    (hdistinct : (utxos.map fromUtxo).Nodup) :
    (chosen.map fromUtxo).Nodup := by
  rcases h with ⟨sub, hperm, hsublist⟩
  exact (hperm.map _).nodup_iff.mp ((hsublist.map _).nodup hdistinct)

variable {selection : UtxoSelection}

theorem Spendable.mono {pool' : List Utxo} (h : Spendable pool token baseOutputCount selection)
    (hsub : pool.Sublist pool') : Spendable pool' token baseOutputCount selection :=
  { h with subperm := h.subperm.trans hsub.subperm }

/-- Every chunk can be spent from the pool with the outputs of its index. -/
theorem chain_spendable (h : Chain token continuation baseOutputCount pool chunks) :
    ∀ index chunk, chunks[index]? = some chunk →
      Spendable pool token (baseOutputCountAt baseOutputCount continuation index) chunk := by
  induction h with
  | nil =>
    intro index chunk hget
    cases hget
  | @cons baseOutputCount pool head rest hspend _ ih =>
    intro index chunk hget
    cases index with
    | zero =>
      rw [List.getElem?_cons_zero, Option.some.injEq] at hget
      rw [← hget]
      exact hspend
    | succ index =>
      have htail := (ih index chunk hget).mono (removeSelectedUtxos_sublist _ _)
      rwa [baseOutputCountAt, ite_self] at htail

variable {chunk : UtxoSelection}

theorem chain_mem (h : Chain token continuation baseOutputCount pool chunks)
    (hmem : chunk ∈ chunks) :
    ∃ outputs, Spendable pool token outputs chunk := by
  rcases List.mem_iff_getElem?.mp hmem with ⟨index, hget⟩
  exact ⟨_, chain_spendable h index chunk hget⟩

/-- What chunks are worth, without wrapping. -/
def chunkSum (chunks : List UtxoSelection) : Nat := (chunks.map (·.total.toNat)).sum

@[simp] theorem chunkSum_nil : chunkSum [] = 0 := rfl

@[simp] theorem chunkSum_cons (chunk : UtxoSelection) (chunks : List UtxoSelection) :
    chunkSum (chunk :: chunks) = chunk.total.toNat + chunkSum chunks := by
  simp only [chunkSum, List.map_cons, List.sum_cons]

@[simp] theorem chunkSum_append (chunks chunks' : List UtxoSelection) :
    chunkSum (chunks ++ chunks') = chunkSum chunks + chunkSum chunks' := by
  simp only [chunkSum, List.map_append, List.sum_append]

theorem chain_chunkSum_le (h : Chain token continuation baseOutputCount pool chunks) :
    chunkSum chunks ≤ valueSum (chunks.flatMap (·.utxos)) := by
  induction h with
  | nil => exact Nat.zero_le _
  | cons hspend _ ih =>
    rw [chunkSum_cons, List.flatMap_cons, valueSum_append, hspend.total]
    exact Nat.add_le_add (toNat_noteTotal_le _) ih

theorem chain_chunkSum_le_pool (h : Chain token continuation baseOutputCount pool chunks) :
    chunkSum chunks ≤ valueSum pool :=
  le_trans (chain_chunkSum_le h) (valueSum_subperm (chain_subperm h))

theorem toNat_chunkTotal (h : chunkSum chunks < 2 ^ 256) :
    (chunkTotal chunks).toNat = chunkSum chunks := by
  induction chunks with
  | nil => rfl
  | cons chunk chunks ih =>
    rw [chunkSum_cons] at h
    have htail := ih (by omega)
    rw [chunkTotal_cons, BitVec.toNat_add_of_lt (by rw [htail]; exact h), htail, chunkSum_cons]

/-- The total does not wrap while the pool is worth less than a word. -/
theorem chain_total (h : Chain token continuation baseOutputCount pool chunks)
    (hsum : valueSum pool < 2 ^ 256) : (chunkTotal chunks).toNat = chunkSum chunks :=
  toNat_chunkTotal (lt_of_le_of_lt (chain_chunkSum_le_pool h) hsum)

theorem Spendable.toNat_total (h : Spendable pool token baseOutputCount selection)
    (hsum : valueSum pool < 2 ^ 256) : selection.total.toNat = valueSum selection.utxos := by
  rw [h.total]
  exact toNat_noteTotal (lt_of_le_of_lt (valueSum_subperm h.subperm) hsum)

theorem Spendable.total_ne_zero (h : Spendable pool token baseOutputCount selection)
    (hsum : valueSum pool < 2 ^ 256) : selection.total ≠ 0 := by
  rcases List.exists_mem_of_ne_nil _ h.nonempty with ⟨utxo, hmem⟩
  have hvalue : 0 < utxo.note.value.toNat :=
    BitVec.toNat_pos_of_ne_zero (h.nonzero utxo hmem)
  have hle : utxo.note.value.toNat ≤ valueSum selection.utxos :=
    List.single_le_sum (fun _ _ => Nat.zero_le _) _ (List.mem_map_of_mem hmem)
  refine U256.ne_zero_of_toNat_pos ?_
  rw [h.toNat_total hsum]
  omega

theorem maxInputsForBaseOutputs_eq (baseOutputCount : Nat) :
    maxInputsForBaseOutputs baseOutputCount
      = min (maxSignatureInputs - (2 + baseOutputCount)) maxCircuitInputs := by
  simp only [maxInputsForBaseOutputs]
  by_cases hroom : maxSignatureInputs - (2 + baseOutputCount) < maxCircuitInputs
  · rw [if_pos hroom]
    exact (Nat.min_eq_left (Nat.le_of_lt hroom)).symm
  · rw [if_neg hroom]
    exact (Nat.min_eq_right (Nat.le_of_not_lt hroom)).symm

theorem maxInputs_le_circuit (baseOutputCount : Nat) :
    maxInputsForBaseOutputs baseOutputCount ≤ maxCircuitInputs := by
  rw [maxInputsForBaseOutputs_eq]
  exact Nat.min_le_right _ _

theorem Spendable.signature (h : Spendable pool token baseOutputCount selection) :
    2 + selection.utxos.length + baseOutputCount ≤ maxSignatureInputs := by
  have hpos : 0 < selection.utxos.length := List.length_pos_iff.mpr h.nonempty
  have hle := h.inputs
  rw [maxInputsForBaseOutputs_eq] at hle
  omega

/-- What is owed when it is a chunk's turn. -/
def owedBefore (amount : U256) (chunks : List UtxoSelection) (index : Nat) : Nat :=
  amount.toNat - chunkSum (chunks.take index)

theorem owedBefore_zero (amount : U256) (chunks : List UtxoSelection) :
    owedBefore amount chunks 0 = amount.toNat := by
  rw [owedBefore, List.take_zero, chunkSum_nil, Nat.sub_zero]

variable {amount : U256}

theorem owedBefore_succ {rest : List UtxoSelection} (h : chunk.total ≤ amount) (index : Nat) :
    owedBefore amount (chunk :: rest) (index + 1) =
      owedBefore (amount - chunk.total) rest index := by
  rw [owedBefore, owedBefore, List.take_succ_cons, chunkSum_cons, BitVec.toNat_sub_of_le h,
    Nat.sub_sub]

/-- All chunks but the last are strictly below what is owed before them, and
    the signature has room for every chunk with the change it leaves. -/
theorem splits_owed (h : Splits token continuation baseOutputCount pool owed chunks) :
    ∀ index chunk, chunks[index]? = some chunk →
      (index + 1 < chunks.length → chunk.total.toNat < owedBefore owed chunks index) ∧
      2 + chunk.utxos.length + (baseOutputCountAt baseOutputCount continuation index +
        (if owedBefore owed chunks index < chunk.total.toNat then 1 else 0))
          ≤ maxSignatureInputs := by
  induction h with
  | @last baseOutputCount pool owed head hspend hcovers =>
    intro index chunk hget
    rcases List.getElem?_eq_some_iff.mp hget with ⟨hlt, hval⟩
    rw [List.length_singleton] at hlt
    have hzero : index = 0 := by omega
    subst hzero
    subst hval
    refine ⟨fun hlast => absurd hlast (by rw [List.length_singleton]; omega), ?_⟩
    exact hcovers.signature
  | @more baseOutputCount pool owed head rest hspend hbelow _ ih =>
    intro index chunk hget
    cases index with
    | zero =>
      rw [List.getElem?_cons_zero, Option.some.injEq] at hget
      subst hget
      rw [owedBefore_zero]
      have hlt : head.total.toNat < owed.toNat := hbelow
      refine ⟨fun _ => hlt, ?_⟩
      rw [if_neg (by omega), Nat.add_zero]
      exact hspend.signature
    | succ index =>
      rcases ih index chunk hget with ⟨hlt, hsig⟩
      rw [owedBefore_succ (BitVec.le_of_lt hbelow), baseOutputCountAt_succ]
      rw [baseOutputCountAt, ite_self] at hsig
      refine ⟨fun hlen => hlt ?_, hsig⟩
      rw [List.length_cons] at hlen
      omega

/-- The chunks cover what is owed. -/
theorem splits_covers (h : Splits token continuation baseOutputCount pool owed chunks) :
    owed.toNat ≤ chunkSum chunks := by
  induction h with
  | last _ hcovers =>
    exact hcovers.owed_le
  | more _ hbelow _ ih =>
    rw [BitVec.toNat_sub_of_le (BitVec.le_of_lt hbelow)] at ih
    rw [chunkSum_cons]
    omega

theorem splits_ne_nil
    (h : Splits token continuation baseOutputCount pool owed chunks) : chunks ≠ [] := by
  cases h with
  | last _ _ => exact List.cons_ne_nil _ _
  | more _ _ _ => exact List.cons_ne_nil _ _

theorem lt_owedBefore_of_chunkSum_lt (h : chunkSum chunks < amount.toNat) {index : Nat}
    (hget : chunks[index]? = some chunk) :
    chunk.total.toNat < owedBefore amount chunks index := by
  rcases List.getElem?_eq_some_iff.mp hget with ⟨hlt, hval⟩
  have hsplit : chunkSum chunks
      = chunkSum (chunks.take index) +
        (chunk.total.toNat + chunkSum (chunks.drop (index + 1))) := by
    rw [← hval, ← chunkSum_cons, ← List.drop_eq_getElem_cons hlt, ← chunkSum_append,
      List.take_append_drop]
  rw [owedBefore]
  omega

variable {first limit : Nat} {spendUpTo : Bool}

/-- Every selection spends its chunks one after another. -/
theorem selected_chain {selection : BatchUtxoSelection}
    (h : Selected utxos token amount spendUpTo first continuation limit selection) :
    Chain token continuation first utxos selection.chunks := by
  cases h with
  | split _ _ hsplits => exact hsplits.chain
  | maximum _ hmax _ _ => exact (maxBatchSelection_draws hmax).2.2.2.chain

/-- What a batch has to satisfy to be built: disjoint chunks of the wallet's
    notes, every chunk one valid transaction, no change before the last chunk,
    and the amount covered unless spending up to it was allowed. -/
structure SpendablePlan (utxos : List Utxo) (token : Address) (amount : U256)
    (spendUpTo : Bool) (first continuation limit : Nat) (selection : BatchUtxoSelection) :
    Prop where
  nonempty : selection.chunks ≠ []
  subperm : (selection.chunks.flatMap (·.utxos)).Subperm utxos
  distinct : ((selection.chunks.flatMap (·.utxos)).map fromUtxo).Nodup
  disjoint : selection.chunks.Pairwise fun a b => a.utxos.Disjoint b.utxos
  notes : ∀ chunk ∈ selection.chunks, ∀ utxo ∈ chunk.utxos,
    utxo.note.tokenHash = tokenHash token ∧ utxo.note.value ≠ 0
  oneTree : ∀ chunk ∈ selection.chunks, ∃ tree, ∀ utxo ∈ chunk.utxos, utxo.tree = tree
  inputs : ∀ chunk ∈ selection.chunks,
    chunk.utxos ≠ [] ∧ chunk.utxos.length ≤ maxCircuitInputs
  transactions : selection.chunks.length ≤ limit
  chunkTotals : ∀ chunk ∈ selection.chunks, chunk.total.toNat = valueSum chunk.utxos
  batchTotal : selection.total.toNat = valueSum (selection.chunks.flatMap (·.utxos))
  below : ∀ index chunk, selection.chunks[index]? = some chunk →
    index + 1 < selection.chunks.length →
    chunk.total.toNat < owedBefore amount selection.chunks index
  covers : amount ≤ selection.total ∨
    (spendUpTo = true ∧ selection.total < amount ∧
      maxBatchSelection utxos token first continuation limit = some selection)
  signature : ∀ index chunk, selection.chunks[index]? = some chunk →
    2 + chunk.utxos.length + (baseOutputCountAt first continuation index +
      (if owedBefore amount selection.chunks index < chunk.total.toNat then 1 else 0))
        ≤ maxSignatureInputs

theorem chunkSum_eq_valueSum (h : ∀ chunk ∈ chunks, chunk.total.toNat = valueSum chunk.utxos) :
    chunkSum chunks = valueSum (chunks.flatMap (·.utxos)) := by
  induction chunks with
  | nil => rfl
  | cons chunk chunks ih =>
    rw [chunkSum_cons, List.flatMap_cons, valueSum_append, h chunk List.mem_cons_self,
      ih (fun other hmem => h other (List.mem_cons_of_mem _ hmem))]

/-- The parts of a plan that follow from its chunks being spendable one after
    another; what is left are the parts that speak of the amount. -/
theorem spendablePlan_of_chain {selection : BatchUtxoSelection}
    (hdistinct : (utxos.map fromUtxo).Nodup) (hsum : valueSum utxos < 2 ^ 256)
    (hchain : Chain token continuation first utxos selection.chunks)
    (hne : selection.chunks ≠ []) (hlen : selection.chunks.length ≤ limit)
    (htotal : selection.total = chunkTotal selection.chunks)
    (howed : ∀ index chunk, selection.chunks[index]? = some chunk →
      (index + 1 < selection.chunks.length →
        chunk.total.toNat < owedBefore amount selection.chunks index) ∧
      2 + chunk.utxos.length + (baseOutputCountAt first continuation index +
        (if owedBefore amount selection.chunks index < chunk.total.toNat then 1 else 0))
          ≤ maxSignatureInputs)
    (hcovers : amount ≤ selection.total ∨
      (spendUpTo = true ∧ selection.total < amount ∧
        maxBatchSelection utxos token first continuation limit = some selection)) :
    SpendablePlan utxos token amount spendUpTo first continuation limit selection := by
  have hsub := chain_subperm hchain
  have hspend : ∀ chunk ∈ selection.chunks, ∃ outputs, Spendable utxos token outputs chunk :=
    fun chunk hmem => chain_mem hchain hmem
  have hchunks : ∀ chunk ∈ selection.chunks, chunk.total.toNat = valueSum chunk.utxos := by
    intro chunk hmem
    rcases hspend chunk hmem with ⟨outputs, hchunk⟩
    exact hchunk.toNat_total hsum
  have hident := subperm_identities_nodup hsub hdistinct
  refine ⟨hne, hsub, hident, ?_, ?_, ?_, ?_, hlen, hchunks, ?_,
    fun index chunk hget => (howed index chunk hget).1, hcovers,
    fun index chunk hget => (howed index chunk hget).2⟩
  · exact (List.nodup_flatMap.mp (List.Nodup.of_map _ hident)).2
  · intro chunk hmem utxo hu
    rcases hspend chunk hmem with ⟨outputs, hchunk⟩
    exact ⟨hchunk.token utxo hu, hchunk.nonzero utxo hu⟩
  · intro chunk hmem
    rcases hspend chunk hmem with ⟨outputs, hchunk⟩
    exact hchunk.oneTree
  · intro chunk hmem
    rcases hspend chunk hmem with ⟨outputs, hchunk⟩
    exact ⟨hchunk.nonempty, le_trans hchunk.inputs (maxInputs_le_circuit outputs)⟩
  · rw [htotal, chain_total hchain hsum]
    exact chunkSum_eq_valueSum hchunks

/-- A selection is a plan that can be spent. -/
theorem spendablePlan_of_selected {selection : BatchUtxoSelection}
    (hdistinct : (utxos.map fromUtxo).Nodup) (hsum : valueSum utxos < 2 ^ 256)
    (h : Selected utxos token amount spendUpTo first continuation limit selection) :
    SpendablePlan utxos token amount spendUpTo first continuation limit selection := by
  cases h with
  | split htotal hlen hsplits =>
    refine spendablePlan_of_chain hdistinct hsum hsplits.chain (splits_ne_nil hsplits) hlen
      htotal (splits_owed hsplits) (Or.inl ?_)
    rw [BitVec.le_def, htotal, chain_total hsplits.chain hsum]
    exact splits_covers hsplits
  | maximum hup hmax hzero hlt =>
    rcases maxBatchSelection_draws hmax with ⟨hne, htotal, hlen, hdraws⟩
    refine spendablePlan_of_chain hdistinct hsum hdraws.chain hne hlen htotal ?_
      (Or.inr ⟨hup, hlt, hmax⟩)
    -- The whole batch is below the amount, so every chunk is below what is
    -- owed before it, the last one included.
    have hbelow : chunkSum selection.chunks < amount.toNat := by
      rw [← chain_total hdraws.chain hsum, ← htotal]
      exact hlt
    intro index chunk hget
    have howed := lt_owedBefore_of_chunkSum_lt hbelow hget
    refine ⟨fun _ => howed, ?_⟩
    rw [if_neg (by omega), Nat.add_zero]
    exact (chain_spendable hdraws.chain index chunk hget).signature

/-- Every selection the builder makes and every candidate it may try instead
    is a spendable plan, for any number of outputs and transactions. -/
theorem selection_spendablePlan (utxos : List Utxo) (token : Address) (amount : U256)
    (spendUpTo : Bool) (first continuation limit : Nat)
    (hdistinct : (utxos.map fromUtxo).Nodup)
    (hsum : valueSum utxos < 2 ^ 256) (hlimit : 1 ≤ limit) :
    (∀ selection, selectBatchedUtxosWithLimit utxos token amount spendUpTo first continuation
        limit = .ok selection →
      SpendablePlan utxos token amount spendUpTo first continuation limit selection) ∧
    (∀ candidates, selectBatchedUtxoCandidatesWithLimit utxos token amount spendUpTo first
        continuation limit = .ok candidates →
      ∀ selection ∈ candidates,
        SpendablePlan utxos token amount spendUpTo first continuation limit selection) := by
  refine ⟨fun selection h => ?_, fun candidates h selection hmem => ?_⟩
  · exact spendablePlan_of_selected hdistinct hsum
      (selectBatchedUtxosWithLimit_selected hlimit h)
  · exact spendablePlan_of_selected hdistinct hsum
      (selectBatchedUtxoCandidatesWithLimit_selected hlimit h selection hmem)

/-- Two notes in different trees, neither of which covers the amount alone. -/
def twoTreeWallet : List Utxo :=
  [ { note := { tokenHash := 1, value := 5, random := 0, npk := 0 }, tree := 0, position := 3 },
    { note := { tokenHash := 1, value := 5, random := 0, npk := 0 }, tree := 1, position := 4 } ]

/-- Nine takes both notes, one chunk a tree. -/
theorem selection_spendablePlan_twoTreeWallet :
    (∀ selection, selectBatchedUtxosWithLimit twoTreeWallet 1 9 false 2 1 8 = .ok selection →
      SpendablePlan twoTreeWallet 1 9 false 2 1 8 selection) ∧
    (∃ selection, selectBatchedUtxosWithLimit twoTreeWallet 1 9 false 2 1 8 = .ok selection ∧
      selection.chunks.length = 2 ∧ SpendablePlan twoTreeWallet 1 9 false 2 1 8 selection) := by
  have hplan := (selection_spendablePlan twoTreeWallet 1 9 false 2 1 8 (by decide) (by decide)
    (by decide)).1
  refine ⟨hplan, ?_⟩
  have hok : (selectBatchedUtxosWithLimit twoTreeWallet 1 9 false 2 1 8).toOption.any
      (fun selection => selection.chunks.length = 2) = true := by
    decide +kernel
  cases hsel : selectBatchedUtxosWithLimit twoTreeWallet 1 9 false 2 1 8 with
  | error e =>
    rw [hsel] at hok
    cases hok
  | ok selection =>
    rw [hsel] at hok
    simp only [Except.toOption, Option.any_some, decide_eq_true_eq] at hok
    exact ⟨selection, rfl, hok, hplan selection hsel⟩

end Railgun
