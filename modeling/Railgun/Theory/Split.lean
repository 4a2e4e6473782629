import Railgun.Lib.Fallible
import Railgun.Theory.SearchSound

/-!
# Splitting an Amount Over Transactions

What the batch loops build, said without reference to how they search. A
`Spendable` chunk is a set of notes one transaction can spend; `Covers` says
that it settles what is owed and still fits the signature with the change it
leaves. `Splits` is the shape of a batch: every chunk but the last stays
strictly below what is owed before it, each is drawn from the notes the earlier
ones left, and the last one covers the rest. `Draws` is the shape of the
maximum selection, which owes nothing and takes the largest chunk each time.

Both are stated over machine words and hold for every pool of notes, with no
bound on the values and no assumption that positions are distinct. The greedy
loop, the candidate enumeration and the single-transaction searches all produce
a `Splits`, and `selectBatchedUtxoCandidatesWithLimit_selected` is the one place
where they are brought together.

## Main definitions

* `chunkTotal`: The wrapping sum of the chunks' totals.

## Theorems

* `bestUnshieldSelection_spec`, `maxUnshieldSelection_spec`,
  `partialTransactionSelectionCandidates_spec`: One transaction.
* `greedyLoop_splits`: The greedy loop splits the amount.
* `maxBatchSelection_draws`: The maximum selection draws its chunks.
* `selectBatchedUtxosWithLimit_selected`,
  `selectBatchedUtxoCandidatesWithLimit_selected`: Every selection splits the
  amount or is the maximum below it.
-/

namespace Railgun

/-- A set of notes of the pool that one transaction with so many outputs can
    spend. -/
structure Spendable (pool : List Utxo) (token : Address) (baseOutputCount : Nat)
    (selection : UtxoSelection) : Prop where
  nonempty : selection.utxos ≠ []
  subperm : selection.utxos.Subperm pool
  token : ∀ utxo ∈ selection.utxos, utxo.note.tokenHash = tokenHash token
  nonzero : ∀ utxo ∈ selection.utxos, utxo.note.value ≠ 0
  oneTree : ∃ tree, ∀ utxo ∈ selection.utxos, utxo.tree = tree
  inputs : selection.utxos.length ≤ maxInputsForBaseOutputs baseOutputCount
  total : selection.total = noteTotal selection.utxos

/-- The chunk settles what is owed, and its outputs with the change it leaves
    fit the signature. -/
structure Covers (owed : U256) (baseOutputCount : Nat) (selection : UtxoSelection) :
    Prop where
  owed_le : owed ≤ selection.total
  signature : 2 + selection.utxos.length + (baseOutputCount +
    (if owed < selection.total then 1 else 0)) ≤ maxSignatureInputs

variable {pool group : List Utxo} {token : Address} {baseOutputCount : Nat}
    {selection : UtxoSelection}

/-- Some of the sorted notes of a tree can be spent. -/
theorem spendable_of_chosen {chosen : List Utxo} (hgroup : group ∈ treeGroups pool token)
    (hsub : chosen.Sublist (sortSearchCandidates group)) (hne : chosen ≠ [])
    (hlen : chosen.length ≤ maxInputsForBaseOutputs baseOutputCount)
    (hperm : selection.utxos.Perm chosen) (htotal : selection.total = noteTotal selection.utxos) :
    Spendable pool token baseOutputCount selection := by
  rcases mem_treeGroups.mp hgroup with ⟨tree, _, hfilter⟩
  have hmem : ∀ utxo ∈ selection.utxos, utxo ∈ group := fun utxo hu =>
    (sortSearchCandidates_perm group).mem_iff.mp (hsub.subset (hperm.mem_iff.mp hu))
  have hnote : ∀ utxo ∈ selection.utxos, utxo ∈ tokenNotes pool token ∧ utxo.tree = tree := by
    intro utxo hu
    have hin := hmem utxo hu
    rw [hfilter, List.mem_filter, decide_eq_true_eq] at hin
    exact hin
  refine ⟨?_, ?_, ?_, ?_, ⟨tree, fun utxo hu => (hnote utxo hu).2⟩, ?_, htotal⟩
  · intro hnil
    rw [hnil] at hperm
    exact hne (List.nil_perm.mp hperm)
  · exact hperm.subperm.trans (hsub.subperm.trans
      ((sortSearchCandidates_perm group).subperm.trans (treeGroup_sublist hgroup).subperm))
  · exact fun utxo hu => (mem_tokenNotes.mp (hnote utxo hu).1).2.1
  · exact fun utxo hu => (mem_tokenNotes.mp (hnote utxo hu).1).2.2
  · rw [hperm.length_eq]
    exact hlen

variable {amount : U256}

theorem spendable_of_valid {inputCount : Nat} (hgroup : group ∈ treeGroups pool token)
    (hcount : inputCount ∈ List.range' 1 (maxInputsForBaseOutputs baseOutputCount))
    (hvalid : SelectionSearch.Valid
      { candidates := sortSearchCandidates group, amount := amount, targetCount := inputCount,
        baseOutputCount := baseOutputCount } selection) :
    Spendable pool token baseOutputCount selection ∧ Covers amount baseOutputCount selection := by
  rcases List.mem_range'.mp hcount with ⟨i, hi, hinput⟩
  rcases hvalid.chosen with ⟨chosen, hsub, hlen, hperm⟩
  dsimp only at hsub hlen
  have hne : chosen ≠ [] := by
    intro hnil
    rw [hnil, List.length_nil] at hlen
    omega
  refine ⟨spendable_of_chosen hgroup hsub hne (by omega) hperm hvalid.total, hvalid.covers, ?_⟩
  rw [hperm.length_eq, hlen]
  exact hvalid.signature

variable {utxos : List Utxo}

/-- What the search finds can be spent and covers the amount. -/
theorem bestUnshieldSelection_spec
    (h : bestUnshieldSelection utxos token amount baseOutputCount = some selection) :
    Spendable utxos token baseOutputCount selection ∧
      Covers amount baseOutputCount selection := by
  rcases foldl_keepBest_mem _ _ _ _ _ h with hnone | ⟨group, hgroup, hbest⟩
  · cases hnone
  · rcases List.exists_of_findSome?_eq_some hbest with ⟨inputCount, hcount, hrun⟩
    exact spendable_of_valid hgroup hcount (SelectionSearch.run_valid hrun)

theorem maxTreeSelection_eq {maxInputCount : Nat}
    (h : maxTreeSelection group maxInputCount = some selection) :
    selection.total ≠ 0 ∧
      selection.total = noteTotal ((sortSearchCandidates group).take maxInputCount) ∧
      selection.utxos = normalizeSelection ((sortSearchCandidates group).take maxInputCount) := by
  rw [maxTreeSelection, Option.ite_none_left_eq_some, Option.some.injEq] at h
  obtain ⟨hzero, rfl⟩ := h
  exact ⟨hzero, rfl, rfl⟩

theorem maxUnshieldSelection_mem
    (h : maxUnshieldSelectionWithOutputCount utxos token baseOutputCount = some selection) :
    ∃ group ∈ treeGroups utxos token,
      maxTreeSelection group (maxInputsForBaseOutputs baseOutputCount) = some selection := by
  rw [maxUnshieldSelectionWithOutputCount, Option.ite_none_left_eq_some] at h
  exact (foldl_keepBest_mem _ _ _ _ _ h.2).resolve_left nofun

/-- So can the largest selection, which is worth something. -/
theorem maxUnshieldSelection_spec
    (h : maxUnshieldSelectionWithOutputCount utxos token baseOutputCount = some selection) :
    Spendable utxos token baseOutputCount selection ∧ selection.total ≠ 0 := by
  rcases maxUnshieldSelection_mem h with ⟨group, hgroup, hmax⟩
  rcases maxTreeSelection_eq hmax with ⟨hzero, htotal, hutxos⟩
  have hperm : selection.utxos.Perm
      ((sortSearchCandidates group).take (maxInputsForBaseOutputs baseOutputCount)) := by
    rw [hutxos]
    exact normalizeSelection_perm _
  have hne : (sortSearchCandidates group).take (maxInputsForBaseOutputs baseOutputCount) ≠ [] := by
    intro hnil
    rw [hnil, noteTotal_nil] at htotal
    exact hzero htotal
  refine ⟨spendable_of_chosen hgroup (List.take_sublist _ _) hne (List.length_take_le _ _)
    hperm ?_, hzero⟩
  rw [noteTotal_perm hperm]
  exact htotal

theorem maxUnshieldSelectionWithOutputCount_cases (utxos : List Utxo) (token : Address)
    (baseOutputCount : Nat) :
    maxUnshieldSelectionWithOutputCount utxos token baseOutputCount = none ∨
      ∃ largest, maxUnshieldSelectionWithOutputCount utxos token baseOutputCount = some largest ∧
        largest.total ≠ 0 := by
  cases hmax : maxUnshieldSelectionWithOutputCount utxos token baseOutputCount with
  | none => exact Or.inl rfl
  | some largest => exact Or.inr ⟨largest, rfl, (maxUnshieldSelection_spec hmax).2⟩

/-- Every partial selection stays below the amount. -/
theorem partialTransactionSelectionCandidates_spec
    (h : selection ∈ partialTransactionSelectionCandidates utxos token amount
      baseOutputCount) :
    Spendable utxos token baseOutputCount selection ∧ selection.total < amount := by
  rw [partialTransactionSelectionCandidates] at h
  split at h
  · cases h
  · dsimp only at h
    split at h
    · cases h
    · have hmem := (sortBy_perm _ _).mem_iff.mp (List.mem_of_mem_take h)
      rcases List.mem_flatMap.mp hmem with ⟨group, hgroup, hsel⟩
      have hvalid := (PartialSelectionSearch.run_valid _).2 selection hsel
      rcases hvalid.chosen with ⟨chosen, hsub, hne, hlen, hperm⟩
      exact ⟨spendable_of_chosen hgroup hsub hne hlen hperm hvalid.total, hvalid.below⟩

theorem bestPartialSelectionBelowAmount_spec
    (h : bestPartialSelectionBelowAmount utxos token amount baseOutputCount = some selection) :
    Spendable utxos token baseOutputCount selection ∧ selection.total < amount :=
  partialTransactionSelectionCandidates_spec (List.mem_of_head? h)

theorem singleCandidatesLoop_spec {P : UtxoSelection → Prop} {counts : List Nat}
    {candidates : List UtxoSelection}
    (hcounts : ∀ inputCount ∈ counts, ∀ selection ∈ unshieldSelectionCandidatesForInputCount utxos
      token amount baseOutputCount inputCount, P selection)
    (hcands : ∀ selection ∈ candidates, P selection) :
    ∀ selection ∈ singleCandidatesLoop utxos token amount baseOutputCount counts candidates,
      P selection := by
  induction counts generalizing candidates with
  | nil => exact hcands
  | cons inputCount rest ih =>
    rw [List.forall_mem_cons] at hcounts
    have hboth := List.forall_mem_append.mpr ⟨hcands, hcounts.1⟩
    rw [singleCandidatesLoop]
    split
    · exact fun selection hmem => hboth selection (List.mem_of_mem_take hmem)
    · exact ih hcounts.2 hboth

/-- Every single transaction covers the amount. -/
theorem singleTransactionSelectionCandidates_spec
    (h : selection ∈ singleTransactionSelectionCandidates utxos token amount
      baseOutputCount) :
    Spendable utxos token baseOutputCount selection ∧
      Covers amount baseOutputCount selection := by
  refine singleCandidatesLoop_spec (P := fun selection =>
    Spendable utxos token baseOutputCount selection ∧ Covers amount baseOutputCount selection)
    ?_ (List.forall_mem_nil _) selection h
  intro inputCount hcount selection hmem
  rcases List.mem_filterMap.mp ((sortBy_perm _ _).mem_iff.mp hmem) with ⟨group, hgroup, hrun⟩
  exact spendable_of_valid hgroup hcount (SelectionSearch.run_valid hrun)

/-- What chunks are worth. The sum wraps. -/
def chunkTotal (chunks : List UtxoSelection) : U256 := (chunks.map (·.total)).sum

@[simp] theorem chunkTotal_nil : chunkTotal [] = 0 := rfl

@[simp] theorem chunkTotal_cons (chunk : UtxoSelection) (chunks : List UtxoSelection) :
    chunkTotal (chunk :: chunks) = chunk.total + chunkTotal chunks := by
  simp only [chunkTotal, List.map_cons, List.sum_cons]

/-- The chunks of a batch that settles what is owed: every chunk but the last
    stays strictly below it, and the last one covers the rest. -/
inductive Splits (token : Address) (continuation : Nat) :
    Nat → List Utxo → U256 → List UtxoSelection → Prop
  | last {baseOutputCount : Nat} {pool : List Utxo} {owed : U256} {chunk : UtxoSelection} :
      Spendable pool token baseOutputCount chunk → Covers owed baseOutputCount chunk →
      Splits token continuation baseOutputCount pool owed [chunk]
  | more {baseOutputCount : Nat} {pool : List Utxo} {owed : U256} {chunk : UtxoSelection}
      {rest : List UtxoSelection} :
      Spendable pool token baseOutputCount chunk → chunk.total < owed →
      Splits token continuation continuation (removeSelectedUtxos pool chunk.utxos)
        (owed - chunk.total) rest →
      Splits token continuation baseOutputCount pool owed (chunk :: rest)

/-- The chunks of a maximum selection: the largest single transaction, drawn
    again and again. -/
inductive Draws (token : Address) (continuation : Nat) :
    Nat → List Utxo → List UtxoSelection → Prop
  | nil {baseOutputCount : Nat} {pool : List Utxo} :
      Draws token continuation baseOutputCount pool []
  | cons {baseOutputCount : Nat} {pool : List Utxo} {chunk : UtxoSelection}
      {rest : List UtxoSelection} :
      maxUnshieldSelectionWithOutputCount pool token baseOutputCount = some chunk →
      Draws token continuation continuation (removeSelectedUtxos pool chunk.utxos) rest →
      Draws token continuation baseOutputCount pool (chunk :: rest)

theorem baseOutputCountAt_succ (first continuation index : Nat) :
    baseOutputCountAt first continuation (index + 1) = continuation := by
  rw [baseOutputCountAt, if_neg (Nat.succ_ne_zero index)]

/-- The chunk the greedy loop spends when no single transaction covers what is
    owed: the largest one or, if that is too much, the largest found below. -/
def splitChunk (pool : List Utxo) (token : Address) (owed : U256) (baseOutputCount : Nat) :
    Option UtxoSelection :=
  match maxUnshieldSelectionWithOutputCount pool token baseOutputCount with
  | none => none
  | some largest =>
    if largest.total < owed then some largest
    else bestPartialSelectionBelowAmount pool token owed baseOutputCount

variable {chunk : UtxoSelection}

variable {owed : U256}

theorem splitChunk_of_lt
    (hmax : maxUnshieldSelectionWithOutputCount pool token baseOutputCount = some chunk)
    (hlt : chunk.total < owed) : splitChunk pool token owed baseOutputCount = some chunk := by
  rw [splitChunk, hmax]
  exact if_pos hlt

theorem splitChunk_spec (h : splitChunk pool token owed baseOutputCount = some chunk) :
    Spendable pool token baseOutputCount chunk ∧ chunk.total < owed := by
  cases hmax : maxUnshieldSelectionWithOutputCount pool token baseOutputCount with
  | none =>
    rw [splitChunk, hmax] at h
    cases h
  | some largest =>
    by_cases hlt : largest.total < owed
    · obtain rfl := Option.some.inj ((splitChunk_of_lt hmax hlt).symm.trans h)
      exact ⟨(maxUnshieldSelection_spec hmax).1, hlt⟩
    · rw [splitChunk, hmax] at h
      exact bestPartialSelectionBelowAmount_spec ((if_neg hlt).symm.trans h)

/-- One round of the greedy loop: close with a single transaction, or spend a
    chunk and go on. -/
theorem greedyLoop_succ (token : Address) (first continuation left index : Nat)
    (pool : List Utxo) (owed : U256) (chunks : List UtxoSelection) (total : U256) :
    greedyLoop token first continuation (left + 1) index pool owed chunks total
      = match bestUnshieldSelection pool token owed
          (baseOutputCountAt first continuation index) with
        | some chunk => some { chunks := chunks ++ [chunk], total := total + chunk.total }
        | none =>
          match splitChunk pool token owed (baseOutputCountAt first continuation index) with
          | none => none
          | some chunk =>
            greedyLoop token first continuation left (index + 1)
              (removeSelectedUtxos pool chunk.utxos) (owed - chunk.total) (chunks ++ [chunk])
              (total + chunk.total) := by
  rw [greedyLoop, splitChunk]
  cases bestUnshieldSelection pool token owed (baseOutputCountAt first continuation index) with
  | some chunk => rfl
  | none =>
    -- A largest selection is never worth zero, so the test for it is never taken.
    rcases maxUnshieldSelectionWithOutputCount_cases pool token
      (baseOutputCountAt first continuation index) with hnone | ⟨largest, hmax, hzero⟩
    · rw [hnone]
    · rw [hmax]
      cases (if largest.total < owed then some largest
        else bestPartialSelectionBelowAmount pool token owed
          (baseOutputCountAt first continuation index)) with
      | none => exact if_neg hzero
      | some chunk => exact if_neg hzero

variable {first limit continuation : Nat}

variable {selection : BatchUtxoSelection}

/-- By induction over the rounds that are left. -/
theorem greedyLoop_splits {left index : Nat} {chunks : List UtxoSelection} {total : U256}
    (h : greedyLoop token first continuation left index pool owed chunks total
      = some selection) :
    ∃ rest, selection.chunks = chunks ++ rest ∧ selection.total = total + chunkTotal rest ∧
      rest.length ≤ left ∧
      Splits token continuation (baseOutputCountAt first continuation index) pool owed rest := by
  induction left generalizing index pool owed chunks total with
  | zero => cases h
  | succ left ih =>
    rw [greedyLoop_succ] at h
    cases hbest : bestUnshieldSelection pool token owed
        (baseOutputCountAt first continuation index) with
    | some chunk =>
      rw [hbest] at h
      simp only [Option.some.injEq] at h
      rcases bestUnshieldSelection_spec hbest with ⟨hspend, hcovers⟩
      refine ⟨[chunk], ?_, ?_, Nat.le_add_left 1 left, Splits.last hspend hcovers⟩
      · rw [← h]
      · rw [← h, chunkTotal_cons, chunkTotal_nil, add_zero]
    | none =>
      cases hchunk : splitChunk pool token owed (baseOutputCountAt first continuation index) with
      | none =>
        rw [hbest, hchunk] at h
        cases h
      | some chunk =>
        rw [hbest, hchunk] at h
        rcases splitChunk_spec hchunk with ⟨hspend, hlt⟩
        rcases ih h with ⟨rest, hchunks, htotal, hlen, hsplits⟩
        refine ⟨chunk :: rest, ?_, ?_, Nat.succ_le_succ hlen, Splits.more hspend hlt hsplits⟩
        · rw [hchunks, List.append_assoc, List.singleton_append]
        · rw [htotal, chunkTotal_cons, add_assoc]

theorem greedyBatchedSelection_splits
    (h : greedyBatchedSelection utxos token amount first continuation limit = some selection) :
    selection.total = chunkTotal selection.chunks ∧ selection.chunks.length ≤ limit ∧
      Splits token continuation first utxos amount selection.chunks := by
  rcases greedyLoop_splits h with ⟨rest, hchunks, htotal, hlen, hsplits⟩
  rw [zero_add] at htotal
  rw [hchunks]
  exact ⟨htotal, hlen, hsplits⟩

/-- Each round draws the largest chunk of the notes left. -/
theorem maxBatchLoop_draws (token : Address) (first continuation left index : Nat)
    (pool : List Utxo) (chunks : List UtxoSelection) (total : U256) :
    ∃ rest, maxBatchLoop token first continuation left index pool chunks total
        = (chunks ++ rest, total + chunkTotal rest) ∧ rest.length ≤ left ∧
      Draws token continuation (baseOutputCountAt first continuation index) pool rest := by
  induction left generalizing index pool chunks total with
  | zero =>
    refine ⟨[], ?_, le_refl _, Draws.nil⟩
    rw [maxBatchLoop, List.append_nil, chunkTotal_nil, add_zero]
  | succ left ih =>
    rw [maxBatchLoop]
    cases hmax : maxUnshieldSelectionWithOutputCount pool token
        (baseOutputCountAt first continuation index) with
    | none =>
      refine ⟨[], ?_, Nat.zero_le _, Draws.nil⟩
      rw [List.append_nil, chunkTotal_nil, add_zero]
    | some chunk =>
      dsimp only
      rw [if_neg (maxUnshieldSelection_spec hmax).2]
      rcases ih (index + 1) (removeSelectedUtxos pool chunk.utxos) (chunks ++ [chunk])
        (total + chunk.total) with ⟨rest, hloop, hlen, hdraws⟩
      refine ⟨chunk :: rest, ?_, Nat.succ_le_succ hlen, Draws.cons hmax hdraws⟩
      rw [hloop, List.append_assoc, List.singleton_append, chunkTotal_cons, add_assoc]

theorem maxBatchSelection_draws
    (h : maxBatchSelection utxos token first continuation limit = some selection) :
    selection.chunks ≠ [] ∧ selection.total = chunkTotal selection.chunks ∧
      selection.chunks.length ≤ limit ∧
      Draws token continuation first utxos selection.chunks := by
  rcases maxBatchLoop_draws token first continuation limit 0 utxos [] 0 with
    ⟨rest, hloop, hlen, hdraws⟩
  rw [maxBatchSelection, hloop] at h
  simp only [List.nil_append, zero_add, Option.ite_none_left_eq_some, Option.some.injEq] at h
  obtain ⟨hempty, rfl⟩ := h
  exact ⟨fun hnil => hempty (List.isEmpty_iff.mpr hnil), rfl, hlen, hdraws⟩

theorem mem_pushUniqueBatchCandidate {candidates : List BatchUtxoSelection}
    {candidate : BatchUtxoSelection}
    (h : selection ∈ pushUniqueBatchCandidate candidates candidate) :
    selection ∈ candidates ∨ selection = candidate := by
  rw [pushUniqueBatchCandidate] at h
  split at h
  · exact Or.inl h
  · rw [List.mem_append, List.mem_singleton] at h
    exact h

theorem mem_foldl_pushUniqueBatchCandidate {α : Type} {f : α → BatchUtxoSelection} {l : List α}
    {candidates : List BatchUtxoSelection}
    (h : selection ∈ l.foldl (fun candidates a => pushUniqueBatchCandidate candidates (f a))
      candidates) : selection ∈ candidates ∨ ∃ a ∈ l, selection = f a := by
  induction l generalizing candidates with
  | nil => exact Or.inl h
  | cons a l ih =>
    rcases ih h with hold | ⟨a', hmem, ha'⟩
    · rcases mem_pushUniqueBatchCandidate hold with hcand | hnew
      · exact Or.inl hcand
      · exact Or.inr ⟨a, List.mem_cons_self, hnew⟩
    · exact Or.inr ⟨a', List.mem_cons_of_mem _ hmem, ha'⟩

theorem mem_closeLoop {chunks closing : List UtxoSelection} {selectedTotal : U256}
    {candidates : List BatchUtxoSelection}
    (h : selection ∈ closeLoop chunks selectedTotal closing candidates) :
    selection ∈ candidates ∨ ∃ chunk ∈ closing,
      selection.chunks = chunks ++ [chunk] ∧ selection.total = selectedTotal + chunk.total := by
  induction closing generalizing candidates with
  | nil => exact Or.inl h
  | cons chunk rest ih =>
    rw [closeLoop] at h
    have hcases : selection ∈ pushUniqueBatchCandidate candidates
        { chunks := chunks ++ [chunk], total := selectedTotal + chunk.total } ∨
        ∃ other ∈ rest, selection.chunks = chunks ++ [other] ∧
          selection.total = selectedTotal + other.total := by
      split at h
      · exact Or.inl h
      · exact ih h
    rcases hcases with hpush | ⟨other, hmem, hother⟩
    · rcases mem_pushUniqueBatchCandidate hpush with hold | rfl
      · exact Or.inl hold
      · exact Or.inr ⟨chunk, List.mem_cons_self, rfl, rfl⟩
    · exact Or.inr ⟨other, List.mem_cons_of_mem _ hmem, hother⟩

theorem extendLoop_preserves {P : BatchUtxoSelection → Prop} {remainingAmount selectedTotal : U256}
    {chunks extending : List UtxoSelection}
    {descend : List Utxo → U256 → U256 → List UtxoSelection → MultiState → MultiState}
    (hdesc : ∀ chunk ∈ extending, ∀ st, (∀ selection ∈ st.candidates, P selection) →
      ∀ selection ∈ (descend (removeSelectedUtxos utxos chunk.utxos)
        (remainingAmount - chunk.total) (selectedTotal + chunk.total) (chunks ++ [chunk])
        st).candidates, P selection)
    {st : MultiState} (hst : ∀ selection ∈ st.candidates, P selection) :
    ∀ selection ∈ (extendLoop utxos remainingAmount selectedTotal chunks descend extending
      st).candidates, P selection := by
  induction extending generalizing st with
  | nil => exact hst
  | cons chunk rest ih =>
    rw [List.forall_mem_cons] at hdesc
    have hhead := hdesc.1 st hst
    rw [extendLoop]
    split
    · exact hhead
    · exact ih hdesc.2 hhead

/-- The base outputs of the chunk that follows a chunk sequence. -/
def nextBaseOutputCount (first continuation : Nat) (chunks : List UtxoSelection) : Nat :=
  if chunks.isEmpty then first else continuation

theorem nextBaseOutputCount_append (first continuation : Nat) (chunks : List UtxoSelection)
    (chunk : UtxoSelection) :
    nextBaseOutputCount first continuation (chunks ++ [chunk]) = continuation := by
  rw [nextBaseOutputCount, if_neg]
  simp

/-- A batch that extends a chunk sequence by a split of what is still owed. -/
def Extends (token : Address) (first continuation left : Nat) (pool : List Utxo)
    (owed selectedTotal : U256) (chunks : List UtxoSelection)
    (selection : BatchUtxoSelection) : Prop :=
  ∃ rest, selection.chunks = chunks ++ rest ∧
    selection.total = selectedTotal + chunkTotal rest ∧ rest.length ≤ left ∧
    Splits token continuation (nextBaseOutputCount first continuation chunks) pool owed rest

/-- A chunk in front of a split of the rest. -/
theorem extends_more {left : Nat} {owed selectedTotal : U256} {chunks : List UtxoSelection}
    (hspend : Spendable pool token (nextBaseOutputCount first continuation chunks) chunk)
    (hlt : chunk.total < owed)
    (h : Extends token first continuation left (removeSelectedUtxos pool chunk.utxos)
      (owed - chunk.total) (selectedTotal + chunk.total) (chunks ++ [chunk]) selection) :
    Extends token first continuation (left + 1) pool owed selectedTotal chunks selection := by
  rcases h with ⟨rest, hchunks, htotal, hlen, hsplits⟩
  rw [nextBaseOutputCount_append] at hsplits
  refine ⟨chunk :: rest, ?_, ?_, Nat.succ_le_succ hlen, Splits.more hspend hlt hsplits⟩
  · rw [hchunks, List.append_assoc, List.singleton_append]
  · rw [htotal, chunkTotal_cons, add_assoc]

/-- Every batch the enumeration adds extends the chunk sequence it was called
    with. The property `P` stands for what is known of the candidates that were
    there before. -/
theorem collectMultiTransactionSelectionCandidates_splits {left : Nat} {selectedTotal : U256}
    {chunks : List UtxoSelection} {P : BatchUtxoSelection → Prop}
    (hext : ∀ selection, Extends token first continuation left pool owed selectedTotal chunks
      selection → P selection)
    {st : MultiState} (hst : ∀ selection ∈ st.candidates, P selection) :
    ∀ selection ∈ (collectMultiTransactionSelectionCandidates token first continuation left
      pool owed selectedTotal chunks st).candidates, P selection := by
  induction left generalizing pool owed selectedTotal chunks st with
  | zero => exact hst
  | succ left ih =>
    rw [collectMultiTransactionSelectionCandidates]
    split
    · exact hst
    dsimp only
    rw [← nextBaseOutputCount]
    -- Closing the sequence with one covering transaction.
    have hclosed : ∀ selection ∈ closeLoop chunks selectedTotal
        (singleTransactionSelectionCandidates pool token owed
          (nextBaseOutputCount first continuation chunks)) st.candidates, P selection := by
      intro selection hmem
      rcases mem_closeLoop hmem with hold | ⟨chunk, hchunk, hchunks, htotal⟩
      · exact hst selection hold
      · rcases singleTransactionSelectionCandidates_spec hchunk with ⟨hspend, hcovers⟩
        refine hext selection ⟨[chunk], hchunks, ?_, Nat.le_add_left 1 left,
          Splits.last hspend hcovers⟩
        rw [htotal, chunkTotal_cons, chunkTotal_nil, add_zero]
    split
    · exact hclosed
    · -- Extending it with a chunk below what is owed.
      refine extendLoop_preserves ?_ hclosed
      intro chunk hchunk st' hst'
      rcases partialTransactionSelectionCandidates_spec hchunk with ⟨hspend, hlt⟩
      exact ih (fun selection hsel => hext selection (extends_more hspend hlt hsel)) hst'

theorem multiTransactionSelectionCandidates_splits
    (h : selection ∈ multiTransactionSelectionCandidates utxos token amount first continuation
      limit) :
    selection.total = chunkTotal selection.chunks ∧ selection.chunks.length ≤ limit ∧
      Splits token continuation first utxos amount selection.chunks := by
  rw [multiTransactionSelectionCandidates] at h
  split at h
  · cases h
  · refine collectMultiTransactionSelectionCandidates_splits
      (P := fun selection => selection.total = chunkTotal selection.chunks ∧
        selection.chunks.length ≤ limit ∧
        Splits token continuation first utxos amount selection.chunks)
      ?_ (List.forall_mem_nil _) selection h
    rintro selection ⟨rest, hchunks, htotal, hlen, hsplits⟩
    rw [zero_add] at htotal
    rw [hchunks]
    exact ⟨htotal, hlen, hsplits⟩

/-- A successful selection splits the amount over at most `limit` transactions
    or, when spending up to the amount was allowed, is the maximum selection
    below it. -/
inductive Selected (utxos : List Utxo) (token : Address) (amount : U256) (spendUpTo : Bool)
    (first continuation limit : Nat) (selection : BatchUtxoSelection) : Prop
  | split : selection.total = chunkTotal selection.chunks → selection.chunks.length ≤ limit →
      Splits token continuation first utxos amount selection.chunks →
      Selected utxos token amount spendUpTo first continuation limit selection
  | maximum : spendUpTo = true →
      maxBatchSelection utxos token first continuation limit = some selection →
      selection.total ≠ 0 → selection.total < amount →
      Selected utxos token amount spendUpTo first continuation limit selection

variable {spendUpTo : Bool}

theorem selected_single (hlimit : 1 ≤ limit) (hspend : Spendable utxos token first chunk)
    (hcovers : Covers amount first chunk) :
    Selected utxos token amount spendUpTo first continuation limit
      { chunks := [chunk], total := chunk.total } := by
  refine Selected.split ?_ ?_ (Splits.last hspend hcovers)
  · rw [chunkTotal_cons, chunkTotal_nil, add_zero]
  · exact hlimit

/-- The ways in which a selection is made, in the order in which they are tried. -/
theorem selectBatchedUtxosWithLimit_cases
    (h : selectBatchedUtxosWithLimit utxos token amount spendUpTo first continuation limit
      = .ok selection) :
    (∃ chunk, bestUnshieldSelection utxos token amount first = some chunk ∧
      selection = { chunks := [chunk], total := chunk.total }) ∨
    bestUnshieldSelection utxos token amount first = none ∧
      (greedyBatchedSelection utxos token amount first continuation limit = some selection ∨
        spendUpTo = true ∧
          maxBatchSelection utxos token first continuation limit = some selection ∧
          selection.total ≠ 0 ∧ selection.total < amount) := by
  obtain ⟨-, h⟩ := ite_error_eq_ok.mp h
  cases hbest : bestUnshieldSelection utxos token amount first with
  | some chunk =>
    rw [hbest] at h
    exact Or.inl ⟨chunk, rfl, (Except.ok.inj h).symm⟩
  | none =>
    refine Or.inr ⟨rfl, ?_⟩
    rw [hbest] at h
    cases hgreedy : greedyBatchedSelection utxos token amount first continuation limit with
    | some batch =>
      rw [hgreedy] at h
      exact Or.inl (congrArg some (Except.ok.inj h))
    | none =>
      rw [hgreedy] at h
      cases hmax : maxBatchSelection utxos token first continuation limit with
      | none =>
        rw [hmax] at h
        cases h
      | some largest =>
        rw [hmax] at h
        dsimp only at h
        split_ifs at h with hup
        obtain rfl := Except.ok.inj h
        exact Or.inr ⟨hup.1, rfl, hup.2⟩

/-- Every way of selecting gives a split or the maximum. -/
theorem selectBatchedUtxosWithLimit_selected (hlimit : 1 ≤ limit)
    (h : selectBatchedUtxosWithLimit utxos token amount spendUpTo first continuation limit
      = .ok selection) :
    Selected utxos token amount spendUpTo first continuation limit selection := by
  rcases selectBatchedUtxosWithLimit_cases h with
    ⟨chunk, hbest, rfl⟩ | ⟨-, hgreedy | ⟨hup, hmax, hzero, hlt⟩⟩
  · rcases bestUnshieldSelection_spec hbest with ⟨hspend, hcovers⟩
    exact selected_single hlimit hspend hcovers
  · rcases greedyBatchedSelection_splits hgreedy with ⟨htotal, hlen, hsplits⟩
    exact Selected.split htotal hlen hsplits
  · exact Selected.maximum hup hmax hzero hlt

theorem selectBatchedUtxoCandidatesWithLimit_selected
    {candidates : List BatchUtxoSelection} (hlimit : 1 ≤ limit)
    (h : selectBatchedUtxoCandidatesWithLimit utxos token amount spendUpTo first continuation
      limit = .ok candidates) :
    ∀ selection ∈ candidates,
      Selected utxos token amount spendUpTo first continuation limit selection := by
  rw [selectBatchedUtxoCandidatesWithLimit] at h
  cases hprimary : selectBatchedUtxosWithLimit utxos token amount spendUpTo first continuation
      limit with
  | error e =>
    rw [hprimary] at h
    cases h
  | ok primary =>
    rw [hprimary] at h
    simp only [bind, Except.bind, pure, Except.pure] at h
    rw [if_neg (by omega), Except.ok.injEq] at h
    intro selection hmem
    rw [← h] at hmem
    rcases mem_foldl_pushUniqueBatchCandidate (f := id) hmem with hold | ⟨batch, hbatch, heq⟩
    · rcases mem_foldl_pushUniqueBatchCandidate hold with hfirst | ⟨chunk, hchunk, heq⟩
      · rw [List.mem_singleton] at hfirst
        rw [hfirst]
        exact selectBatchedUtxosWithLimit_selected hlimit hprimary
      · rw [heq]
        rcases singleTransactionSelectionCandidates_spec hchunk with ⟨hspend, hcovers⟩
        exact selected_single hlimit hspend hcovers
    · rw [heq]
      rcases multiTransactionSelectionCandidates_splits hbatch with ⟨htotal, hlen, hsplits⟩
      exact Selected.split htotal hlen hsplits

end Railgun
