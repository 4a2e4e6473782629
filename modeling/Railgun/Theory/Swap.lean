import Railgun.Theory.Mixed
import Railgun.Theory.Selectable

/-!
# The Largest Swap That Fits

The search for the largest swap probes amounts one after another and passes on
the first error a probe makes. For a valid request no probe fails: each amount
is the maximum over some transactions, or the full chunks with a total the next
transaction can spend, and both can be selected. So a wallet that holds the sell
token gets an amount, or is told that no document is short enough.

## Main definitions

* `HookEncoding.Total`: Encodings that never fail.

## Theorems

* `preview_of_selectable`: A valid swap of a selectable amount has a preview.
* `fewerInputsLoop_ends`, `maxSwapLoop_ends`: What the two loops return.
* `swapPreHook_sound`: The search returns amounts that fit, and fails only for
  the length of the document.
-/

namespace Railgun

open TransactionBuilder
open MixedPrivateActionRequest (hasRelayAdaptLeg validate usesRelayAdapt)

/-- Every document can be encoded. -/
def HookEncoding.Total (encoding : HookEncoding) : Prop :=
  ∀ appData, ∃ bytes, encoding.document appData = .ok bytes

/-- A swap request whose executor and calls pass the checks made before
    selection. -/
structure ValidSwapRequest (builder : TransactionBuilder) (request : MixedPrivateActionRequest)
    (executor : Address) (leg : CompositeUnshieldLeg) : Prop where
  isSwap : swapLeg request = .ok (executor, leg)
  validates : request.validate = .ok ()
  executes : ∃ execution,
    builder.compositeExecution request.usesRelayAdapt request.adapter = .ok execution

theorem swapLeg_eq_ok {request : MixedPrivateActionRequest} {executor : Address}
    {leg : CompositeUnshieldLeg} (h : swapLeg request = .ok (executor, leg)) :
    request.publicUnshields = [leg] ∧ request.privateSends = [] ∧
      request.rebuild = none := by
  rw [swapLeg] at h
  split at h
  · split at h
    · split_ifs at h with hswap
      rw [Except.ok.injEq, Prod.mk.injEq] at h
      exact ⟨h.2 ▸ ‹request.publicUnshields = _›, hswap.2.1, hswap.2.2.2⟩
    · cases h
  · cases h

theorem pushUniqueBatchCandidate_ne_nil {candidates : List BatchUtxoSelection}
    (h : candidates ≠ []) (candidate : BatchUtxoSelection) :
    pushUniqueBatchCandidate candidates candidate ≠ [] := by
  rw [pushUniqueBatchCandidate]
  split_ifs
  · exact h
  · exact List.append_ne_nil_of_left_ne_nil h _

theorem foldl_pushUniqueBatchCandidate_ne_nil {α : Type} (f : α → BatchUtxoSelection)
    (l : List α) {candidates : List BatchUtxoSelection} (h : candidates ≠ []) :
    l.foldl (fun candidates a => pushUniqueBatchCandidate candidates (f a)) candidates ≠ [] := by
  induction l generalizing candidates with
  | nil => exact h
  | cons a l ih => exact ih (pushUniqueBatchCandidate_ne_nil h (f a))

theorem candidates_of_selectable {utxos : List Utxo} {token : Address} {amount : U256}
    {spendUpTo : Bool} {first continuation limit : Nat} {primary : BatchUtxoSelection}
    (h : selectBatchedUtxosWithLimit utxos token amount spendUpTo first continuation limit
      = .ok primary) :
    ∃ candidate rest, selectBatchedUtxoCandidatesWithLimit utxos token amount spendUpTo first
      continuation limit = .ok (candidate :: rest) := by
  rw [selectBatchedUtxoCandidatesWithLimit, h]
  simp only [bind, Except.bind, pure, Except.pure]
  split_ifs
  · exact ⟨primary, [], rfl⟩
  · have hne := foldl_pushUniqueBatchCandidate_ne_nil id
      (multiTransactionSelectionCandidates utxos token amount first continuation limit)
      (foldl_pushUniqueBatchCandidate_ne_nil
        (fun selection => { chunks := [selection], total := selection.total })
        (singleTransactionSelectionCandidates utxos token amount first)
        (List.cons_ne_nil primary []))
    obtain ⟨candidate, rest, hcandidates⟩ := List.exists_cons_of_ne_nil hne
    exact ⟨candidate, rest, congrArg Except.ok hcandidates⟩

theorem singleLeg_selects {utxos : List Utxo} {leg : CompositeUnshieldLeg}
    {primary : BatchUtxoSelection}
    (h : selectBatchedUtxosWithLimit utxos leg.tokenAddress leg.amount false 1 1
      maxBatchTransactions = .ok primary) :
    ∃ selection, selectCompositeLegSelectionsWithPolicy utxos [leg] none [false] 0
        = .ok ([selection], none) ∧
      Selected utxos leg.tokenAddress leg.amount false 1 1 maxBatchTransactions selection := by
  obtain ⟨candidate, rest, hcandidates⟩ := candidates_of_selectable h
  have hselected := selectBatchedUtxoCandidatesWithLimit_selected (by decide) hcandidates
    candidate List.mem_cons_self
  refine ⟨candidate, ?_, hselected⟩
  have hslots : maxBatchTransactions - 0 ≠ 0 := by decide
  have hinner : selectCompositeLegSelectionsInner none [false] [leg] 0 utxos 0
      { selections := [], embeddedFeeLegIndex := none }
      = (.ok (), { selections := [candidate], embeddedFeeLegIndex := none }) := by
    rw [selectCompositeLegSelectionsInner]
    rw [if_neg hslots, legFeeOptions, compositeFeeLoop]
    have hspend : (([false] : List Bool)[0]?).getD false = false := rfl
    have hbase : 1 + (if (none : Option BroadcasterFeeOutput).isSome = true then 1 else 0) = 1 :=
      rfl
    rw [hspend, hbase, feeValue_none, add_zero, Nat.sub_zero, hcandidates]
    rfl
  rw [selectCompositeLegSelectionsWithPolicy, hinner]

theorem selected_allocates {utxos : List Utxo} {token : Address} {amount : U256}
    {limit : Nat} {selection : BatchUtxoSelection} (hsum : valueSum utxos < 2 ^ 256)
    (hamount : amount ≠ 0)
    (h : Selected utxos token amount false 1 1 limit selection) :
    ∃ allocations, spendAllocations selection amount 0 none false = .ok allocations := by
  have hchain := selected_chain h
  cases h with
  | split htotal _ hsplits =>
    have hcovers := splits_covers hsplits
    rw [← chain_total hchain hsum, ← htotal] at hcovers
    have henough : amount ≤ selection.total - 0 := by rwa [sub_zero]
    obtain ⟨chunk, rest, hchunks⟩ := List.exists_cons_of_ne_nil (splits_ne_nil hsplits)
    have hnonzero : ∀ other ∈ chunk :: rest, other.total ≠ 0 := fun other hmem => by
      obtain ⟨outputs, hspend⟩ := chain_mem hchain (hchunks ▸ hmem)
      exact hspend.total_ne_zero hsum
    obtain ⟨hfirst, hrest⟩ := List.forall_mem_cons.mp hnonzero
    obtain ⟨allocations, hrun⟩ : ∃ allocations,
        Allocates none 0 amount selection.chunks allocations 0 := by
      rw [hchunks]
      exact settles_allocates hamount hrest ((BitVec.pos_iff_ne_zero _).mpr hfirst)
        (hchunks ▸ splits_settles hamount hsplits)
    refine ⟨allocations, spendAllocations_eq_ok.mpr ⟨Nat.zero_le _, fun _ => henough, ?_, ?_⟩⟩
    · rwa [U256.min_eq_right henough]
    · rwa [U256.min_eq_right henough]
  | maximum hup _ _ _ => cases hup

section Swap

variable {encoding : HookEncoding} {builder : TransactionBuilder} {utxos : List Utxo}
  {request : MixedPrivateActionRequest} {template : SwapAppDataTemplate} {byteBudget : Nat}
  {executor : Address} {leg : CompositeUnshieldLeg} {below : Option U256}

theorem withAmount_publicUnshields (hunshields : request.publicUnshields = [leg])
    (amount : U256) :
    (request.withAmount amount).publicUnshields = [{ leg with amount := amount }] := by
  rw [MixedPrivateActionRequest.withAmount, hunshields]
  rfl

theorem withAmount_checks (hunshields : request.publicUnshields = [leg]) (amount : U256) :
    (request.withAmount amount).validate = request.validate ∧
      (request.withAmount amount).usesRelayAdapt = request.usesRelayAdapt := by
  have hlegs : (request.withAmount amount).hasRelayAdaptLeg = request.hasRelayAdaptLeg := by
    rw [hasRelayAdaptLeg, hasRelayAdaptLeg, withAmount_publicUnshields hunshields, hunshields]
    rfl
  constructor
  · rw [validate, validate, hlegs, withAmount_publicUnshields hunshields, hunshields]
    simp only [List.cons_ne_nil, and_false, if_false]
    rfl
  · rw [usesRelayAdapt, usesRelayAdapt, hlegs]
    rfl

theorem preview_of_selectable (hvalid : ValidSwapRequest builder request executor leg)
    (hsum : valueSum utxos < 2 ^ 256) {amount : U256} (hamount : amount ≠ 0)
    {primary : BatchUtxoSelection}
    (h : selectBatchedUtxosWithLimit utxos leg.tokenAddress amount false 1 1
      maxBatchTransactions = .ok primary) :
    ∃ preview, builder.previewMixedPrivateActionPlan utxos (request.withAmount amount)
      = .ok preview := by
  obtain ⟨hunshields, hsends, hrebuild⟩ := swapLeg_eq_ok hvalid.isSwap
  obtain ⟨execution, hexecution⟩ := hvalid.executes
  obtain ⟨hvalidate, huses⟩ := withAmount_checks hunshields amount
  have hpublic := withAmount_publicUnshields hunshields amount
  have hprivate : (request.withAmount amount).privateSends = [] := hsends
  have hnoRebuild : (request.withAmount amount).rebuild = none := hrebuild
  obtain ⟨selection, hselections, hselected⟩ :=
    @singleLeg_selects utxos { leg with amount := amount } primary h
  obtain ⟨allocations, hallocations⟩ := selected_allocates hsum hamount hselected
  have hmixed : mixedSelections utxos (request.withAmount amount) = .ok [selection] := by
    rw [mixedSelections, MixedPrivateActionRequest.selectionLegs,
      MixedPrivateActionRequest.spendUpToByLeg, hpublic, hprivate]
    simp only [List.map_nil, List.append_nil, List.length_singleton, List.length_nil,
      List.replicate_zero, List.replicate_succ]
    rw [hselections]
    rfl
  have htransactions : ∃ transactions,
      mixedTransactions (request.withAmount amount) [selection] = .ok transactions := by
    have hleg : ∃ shapes, legTransactions selection amount false true = .ok shapes := by
      rw [legTransactions, hallocations]
      exact ⟨_, rfl⟩
    obtain ⟨shapes, hshapes⟩ := hleg
    have hat : selectionAt [selection] 0 = selection := rfl
    rw [mixedTransactions, hpublic, hprivate]
    simp only [List.zipIdx_nil, List.mapM_nil, List.zipIdx_cons, List.mapM_cons, hat, hshapes]
    exact ⟨_, rfl⟩
  obtain ⟨transactions, htransactions⟩ := htransactions
  rw [previewMixedPrivateActionPlan,
    selectMixedPrivateActionPlan, hvalidate, hvalid.validates, huses]
  have hadapter : (request.withAmount amount).adapter = request.adapter := rfl
  rw [hadapter, hexecution, candidateUtxos, hnoRebuild]
  simp only [bind, Except.bind, hmixed, htransactions]
  rw [checkRebuild, hnoRebuild]
  exact ⟨_, rfl⟩

/-- A size of an amount is the preview of that amount. -/
def Sized (builder : TransactionBuilder) (utxos : List Utxo)
    (request : MixedPrivateActionRequest) (amount : U256) (size : SwapPreHookSize) : Prop :=
  size.amount = amount ∧
    builder.previewMixedPrivateActionPlan utxos (request.withAmount amount) = .ok size.preview

variable (builder utxos request byteBudget below) in
/-- The amount fits the budget, stays below the bound and has this preview. -/
def FitsBelow (size : SwapPreHookSize) : Prop :=
  size.appDataLen ≤ byteBudget ∧ (∀ bound ∈ below, size.amount < bound) ∧
    builder.previewMixedPrivateActionPlan utxos (request.withAmount size.amount)
      = .ok size.preview

variable (utxos byteBudget leg) in
/-- The error of a search that a wallet with the token has to expect. -/
def OnlyTooLarge (error : BuildError) : Prop :=
  tokenNotes utxos leg.tokenAddress ≠ [] → ∃ len, error = .swapAppDataTooLarge len byteBudget

theorem estimate_ends (hencoding : encoding.Total) (calls : List Call)
    (transactions : List TransactionShape) :
    Ends (fun _ => True) (fun _ => False)
      (estimateSwapAppDataLen encoding template executor calls transactions) := by
  have hdocument : ∀ appData, Ends (fun _ => True) (fun _ => False)
      ((encoding.document appData).mapError BuildError.appData) := by
    intro appData
    obtain ⟨bytes, hbytes⟩ := hencoding appData
    rw [hbytes]
    exact True.intro
  exact (hdocument _).bind fun _ _ => True.intro

variable (hvalid : ValidSwapRequest builder request executor leg) (hencoding : encoding.Total)
  (hsum : valueSum utxos < 2 ^ 256)

include hvalid hencoding hsum

theorem sizeSwapPreHook_ends {amount : U256} (hamount : amount ≠ 0)
    (h : ∃ selection, selectBatchedUtxosWithLimit utxos leg.tokenAddress amount false 1 1
      maxBatchTransactions = .ok selection) :
    Ends (Sized builder utxos request amount) (fun _ => False)
      (builder.sizeSwapPreHook encoding utxos request template amount) := by
  obtain ⟨primary, hprimary⟩ := h
  obtain ⟨preview, hpreview⟩ := preview_of_selectable hvalid hsum hamount hprimary
  have hsized : Ends (fun _ => True) (fun _ => False) (estimateSwapAppDataLen encoding template
      executor (request.withAmount amount).executorCalls preview.transactions) :=
    estimate_ends hencoding _ _
  rw [sizeSwapPreHook, hvalid.isSwap]
  simp only [bind, Except.bind, hpreview]
  exact hsized.bind fun _ _ => ⟨rfl, hpreview⟩

omit hvalid hencoding hsum in
theorem maxBatchSelection_full {token : Address} {limit : Nat} {selection : BatchUtxoSelection}
    (hsum : valueSum utxos < 2 ^ 256) (hlimit : 0 < limit)
    (h : maxBatchSelection utxos token 1 1 limit = some selection)
    (hlength : ¬ selection.chunks.length < limit) :
    Draws token 1 1 utxos (selection.chunks.take (limit - 1)) ∧
      maxUnshieldSelectionWithOutputCount
        (remainingUtxos utxos (selection.chunks.take (limit - 1))) token 1
        = some (nextChunk selection limit) ∧
      (selection.total - (nextChunk selection limit).total).toNat
        = chunkSum (selection.chunks.take (limit - 1)) := by
  obtain ⟨_, htotal, _, hdraws⟩ := maxBatchSelection_draws h
  have hworth : selection.total.toNat = chunkSum selection.chunks := by
    rw [htotal]
    exact chain_total hdraws.chain hsum
  have hlast : selection.chunks[limit - 1]? = some (nextChunk selection limit) := by
    rw [nextChunk, List.getD_eq_getElem?_getD, List.getElem?_eq_getElem (by omega),
      Option.getD_some]
  have hsplit : selection.chunks
      = selection.chunks.take (limit - 1) ++ [nextChunk selection limit] := by
    nth_rewrite 1 [← List.take_of_length_le (show selection.chunks.length ≤ limit - 1 + 1 by omega)]
    rw [List.take_add_one, hlast]
    rfl
  rw [chunkSum_eq_take_add hlast (by omega)] at hworth
  rw [hsplit] at hdraws
  obtain ⟨hfull, hrest⟩ := draws_append hdraws
  cases hrest with
  | cons hmax _ =>
    refine ⟨hfull, hmax, ?_⟩
    rw [BitVec.toNat_sub_of_le (BitVec.le_def.mpr (by omega))]
    omega

/-- A probe beyond the full chunks is sized and cannot fail. -/
theorem probe_ends {full : List UtxoSelection} {fullTotal next : U256}
    (hlength : full.length < maxBatchTransactions)
    (hdraws : Draws leg.tokenAddress 1 1 utxos full)
    (hfull : fullTotal.toNat = chunkSum full) (hnext : next ≠ 0)
    (hclose : (bestUnshieldSelection (remainingUtxos utxos full) leg.tokenAddress next 1).isSome
      = true) :
    (fullTotal + next).toNat = fullTotal.toNat + next.toNat ∧
      Ends (Sized builder utxos request (fullTotal + next)) (fun _ => False)
        (builder.sizeSwapPreHook encoding utxos request template (fullTotal + next)) := by
  obtain ⟨htotal, hselectable⟩ :=
    fullChunks_selectable hsum hlength hdraws hfull hnext hclose
  have hpositive := BitVec.toNat_pos_of_ne_zero hnext
  exact ⟨htotal, sizeSwapPreHook_ends hvalid hencoding hsum
    (U256.ne_zero_of_toNat_pos (by omega)) hselectable⟩

theorem fewerInputsLoop_ends {full : List UtxoSelection} {fullTotal : U256}
    (hlength : full.length < maxBatchTransactions)
    (hdraws : Draws leg.tokenAddress 1 1 utxos full)
    (hfull : fullTotal.toNat = chunkSum full)
    (hgroups : treeGroups (remainingUtxos utxos full) leg.tokenAddress ≠ [])
    (inputCounts : List Nat) (smallestLen : Nat)
    (hcounts : ∀ inputCount ∈ inputCounts,
      0 < inputCount ∧ inputCount ≤ maxInputsForBaseOutputs 1) :
    Ends (fun found => ∀ size ∈ found.1,
        FitsBelow builder utxos request byteBudget below size) (fun _ => False)
      (builder.fewerInputsLoop encoding utxos request template byteBudget executor
        leg.tokenAddress below full fullTotal inputCounts smallestLen) := by
  have hremaining : valueSum (remainingUtxos utxos full) < 2 ^ 256 :=
    lt_of_le_of_lt (valueSum_sublist (remainingUtxos_sublist full utxos)) hsum
  induction inputCounts generalizing smallestLen with
  | nil =>
    intro size hsize
    cases hsize
  | cons inputCount rest ih =>
    obtain ⟨⟨hpositive, hinputs⟩, hrest⟩ := List.forall_mem_cons.mp hcounts
    refine (estimate_ends hencoding _ _).bind ?_
    intro len _
    refine ends_ite (fun _ => ih len hrest) (fun _ => ?_)
    cases hnext : nextTotal (remainingUtxos utxos full) leg.tokenAddress below fullTotal
        inputCount with
    | none => exact ih smallestLen hrest
    | some next =>
      obtain ⟨hnonzero, hclose, hbelow⟩ :=
        nextTotal_spec hremaining hgroups hpositive hinputs hnext
      obtain ⟨htotal, hprobe⟩ := probe_ends hvalid hencoding hsum hlength hdraws hfull
        hnonzero hclose
      refine hprobe.bind ?_
      rintro size ⟨hamount, hpreview⟩
      refine ends_ite (fun hfits => ?_) (fun _ => ih size.appDataLen hrest)
      · rintro found ⟨⟩
        refine ⟨hfits, fun bound hbound => ?_, by rwa [hamount]⟩
        rw [hamount, BitVec.lt_def, htotal]
        exact hbelow bound hbound

omit hvalid hencoding hsum in
theorem largestOrTooLarge_ends {largest : Option SwapPreHookSize} {P : SwapPreHookSize → Prop}
    (h : ∀ size ∈ largest, P size) (smallestLen : Nat) :
    Ends P (OnlyTooLarge utxos byteBudget leg)
      (largestOrTooLarge byteBudget largest smallestLen) := by
  cases largest with
  | some size => exact h size rfl
  | none => exact fun _ => ⟨smallestLen, rfl⟩

omit hvalid hencoding in
theorem maxBatchSelection_isSome {token : Address} {limit : Nat} (hlimit : 0 < limit)
    (hnotes : tokenNotes utxos token ≠ []) :
    (maxBatchSelection utxos token 1 1 limit).isSome = true := by
  obtain ⟨utxo, hutxo⟩ := List.exists_mem_of_ne_nil _ hnotes
  have hfirst : baseOutputCountAt 1 1 0 = 1 := rfl
  obtain ⟨largest, hlargest⟩ := Option.isSome_iff_exists.mp
    (maxUnshieldSelection_isSome hsum hutxo (show 0 < maxInputsForBaseOutputs 1 by decide))
  obtain ⟨left, rfl⟩ : ∃ m, limit = m + 1 := ⟨limit - 1, by omega⟩
  obtain ⟨rest, hloop, _⟩ := maxBatchLoop_draws token 1 1 left 1
    (removeSelectedUtxos utxos largest.utxos) [largest] (0 + largest.total)
  rw [maxBatchSelection, maxBatchLoop, hfirst, hlargest]
  simp only [(maxUnshieldSelection_spec hlargest).2, if_false, List.nil_append, Nat.zero_add,
    hloop]
  rfl

/-- Every amount the search returns fits, and a wallet with the token only gets
    told that the document is too long. -/
theorem maxSwapLoop_ends (limits : List Nat) (largest : Option SwapPreHookSize)
    (smallestLen : Nat) (hlimits : ∀ limit ∈ limits, 0 < limit ∧ limit ≤ maxBatchTransactions)
    (hlargest : ∀ size ∈ largest, FitsBelow builder utxos request byteBudget below size) :
    Ends (FitsBelow builder utxos request byteBudget below) (OnlyTooLarge utxos byteBudget leg)
      (builder.maxSwapLoop encoding utxos request template byteBudget executor
        leg.tokenAddress below limits largest smallestLen) := by
  induction limits generalizing largest smallestLen with
  | nil => exact largestOrTooLarge_ends hlargest smallestLen
  | cons limit rest ih =>
    obtain ⟨⟨hpositive, hlimit⟩, hrest⟩ := List.forall_mem_cons.mp hlimits
    rw [maxSwapLoop]
    cases hmax : maxBatchSelection utxos leg.tokenAddress 1 1 limit with
    | none =>
      intro hnotes
      have hsome := maxBatchSelection_isSome hsum hpositive hnotes
      rw [hmax] at hsome
      cases hsome
    | some selection =>
      refine ends_ite (fun _ => largestOrTooLarge_ends hlargest smallestLen) (fun hlength => ?_)
      obtain ⟨hdraws, hnext, hfull⟩ := maxBatchSelection_full hsum hpositive hmax hlength
      have hfullLength : (selection.chunks.take (limit - 1)).length < maxBatchTransactions := by
        rw [List.length_take]
        omega
      have hspend := (maxUnshieldSelection_spec hnext).1
      have hremaining : valueSum
          (remainingUtxos utxos (selection.chunks.take (limit - 1))) < 2 ^ 256 :=
        lt_of_le_of_lt (valueSum_sublist (remainingUtxos_sublist _ utxos)) hsum
      -- The whole selection is the full chunks and the next one.
      obtain ⟨_, hprobe⟩ := probe_ends hvalid hencoding hsum hfullLength hdraws hfull
        (maxUnshieldSelection_spec hnext).2
        (bestUnshieldSelection_max_isSome hremaining hnext)
      rw [sub_add_cancel] at hprobe
      refine (hprobe.mono (fun _ => id) (fun _ => False.elim)).bind ?_
      rintro size ⟨hamount, hpreview⟩
      refine ends_ite (fun hfits => ?_) (fun _ => ?_)
      · refine ih (some size) smallestLen hrest ?_
        rintro found ⟨⟩
        refine ⟨of_decide_eq_true hfits.1, fun bound hbound => ?_, by rwa [hamount]⟩
        have hall := hfits.2
        rw [hbound, Option.all_some] at hall
        rw [hamount]
        exact of_decide_eq_true hall
      · obtain ⟨group, hgroup, _⟩ := maxUnshieldSelection_mem hnext
        refine ((fewerInputsLoop_ends hvalid hencoding hsum hfullLength hdraws hfull
          (List.ne_nil_of_mem hgroup) _ _ ?_).mono (fun _ => id) (fun _ => False.elim)).bind ?_
        · intro inputCount hmem
          have hinputs := hspend.inputs
          rw [List.mem_reverse, List.mem_range'] at hmem
          obtain ⟨i, hi, hcount⟩ := hmem
          split_ifs at hi
          · exact ⟨by omega, by omega⟩
          · exact ⟨by omega, by omega⟩
        · rintro ⟨found, len⟩ hfound
          cases found with
          | some size => exact hfound size rfl
          | none => exact largestOrTooLarge_ends hlargest len

omit hsum in
theorem maxSwapPreHookBelow_ends (hsum : valueSum utxos < 2 ^ 256) (overBudgetLen : Nat) :
    Ends (FitsBelow builder utxos request byteBudget below) (OnlyTooLarge utxos byteBudget leg)
      (builder.maxSwapPreHookBelow encoding utxos request template byteBudget below
        overBudgetLen) := by
  rw [maxSwapPreHookBelow, hvalid.isSwap]
  refine maxSwapLoop_ends hvalid hencoding hsum _ _ _ ?_ ?_
  · intro limit hmem
    rw [List.mem_range'] at hmem
    obtain ⟨i, hi, hlimit⟩ := hmem
    exact ⟨by omega, by omega⟩
  · exact nofun

omit hencoding hsum in
/-- An answer that it is too large comes from the search below. -/
theorem checkSwapPreHook_tooLarge {largest : SwapPreHookSize}
    (h : builder.checkSwapPreHook encoding utxos request template byteBudget
      = .ok (.tooLarge largest)) :
    ∃ overBudgetLen, builder.maxSwapPreHookBelow encoding utxos request template byteBudget
      (some leg.amount) overBudgetLen = .ok largest := by
  have hsearch : ∀ (overBudgetLen : Nat) (unselectable : Option BuildError),
      ((builder.maxSwapPreHookBelow encoding utxos request template byteBudget
          (some leg.amount) overBudgetLen).mapError (unselectableError · unselectable) >>=
        fun largest => pure (SwapAmountCheck.tooLarge largest)) = .ok (.tooLarge largest) →
      builder.maxSwapPreHookBelow encoding utxos request template byteBudget
        (some leg.amount) overBudgetLen = .ok largest := by
    intro overBudgetLen unselectable hfound
    obtain ⟨found, hok, hret⟩ := bind_eq_ok.mp hfound
    rw [← SwapAmountCheck.tooLarge.inj (Except.ok.inj hret)]
    exact mapError_eq_ok.mp hok
  rw [checkSwapPreHook, hvalid.isSwap] at h
  obtain ⟨_, hleg, h⟩ := bind_eq_ok.mp h
  rw [← Except.ok.inj hleg] at h
  dsimp only at h
  split at h
  · split at h
    · cases h
    · exact ⟨_, hsearch _ _ h⟩
  · split at h
    · cases h
    · exact ⟨_, hsearch _ _ h⟩
  · cases h

end Swap

/-- An amount the search returns fits the budget, stays below the bound and has
    the preview of the mixed action that unshields it. A wallet with a nonzero
    note of the sell token is never told that its balance is insufficient: the
    search only fails because every document is too long. So an amount that is
    too large is answered with a smaller one that fits. -/
theorem swapPreHook_sound (encoding : HookEncoding) (builder : TransactionBuilder)
    (utxos : List Utxo) (request : MixedPrivateActionRequest) (template : SwapAppDataTemplate)
    (byteBudget : Nat) (executor : Address) (leg : CompositeUnshieldLeg) (below : Option U256)
    (overBudgetLen : Nat) (hvalid : ValidSwapRequest builder request executor leg)
    (hencoding : encoding.Total) (hsum : valueSum utxos < 2 ^ 256) :
    (∀ size, builder.maxSwapPreHookBelow encoding utxos request template byteBudget below
        overBudgetLen = .ok size →
      size.appDataLen ≤ byteBudget ∧ (∀ bound ∈ below, size.amount < bound) ∧
        builder.previewMixedPrivateActionPlan utxos (request.withAmount size.amount)
          = .ok size.preview) ∧
    ((∃ utxo ∈ utxos, utxo.note.tokenHash = tokenHash leg.tokenAddress ∧ utxo.note.value ≠ 0) →
      ∀ error, builder.maxSwapPreHookBelow encoding utxos request template byteBudget below
        overBudgetLen = .error error → ∃ len, error = .swapAppDataTooLarge len byteBudget) ∧
    (∀ largest, builder.checkSwapPreHook encoding utxos request template byteBudget
        = .ok (.tooLarge largest) →
      largest.amount < leg.amount ∧ largest.appDataLen ≤ byteBudget ∧
        builder.previewMixedPrivateActionPlan utxos (request.withAmount largest.amount)
          = .ok largest.preview) := by
  have hends := fun (below : Option U256) (overBudgetLen : Nat) =>
    @maxSwapPreHookBelow_ends encoding builder utxos request template byteBudget executor leg
      below hvalid hencoding hsum overBudgetLen
  refine ⟨?_, ?_, ?_⟩
  · intro size hsize
    have hfits := hends below overBudgetLen
    rw [hsize] at hfits
    exact hfits
  · rintro ⟨utxo, hmem, hnote⟩ error herror
    have hfails := hends below overBudgetLen
    rw [herror] at hfails
    exact hfails (List.ne_nil_of_mem (mem_tokenNotes.mpr ⟨hmem, hnote⟩))
  · intro largest hlargest
    obtain ⟨overBudgetLen, hfound⟩ := checkSwapPreHook_tooLarge hvalid hlargest
    have hfits := hends (some leg.amount) overBudgetLen
    rw [hfound] at hfits
    exact ⟨hfits.2.1 leg.amount rfl, hfits.1, hfits.2.2⟩

/-- Three notes of one tree. -/
def oneTreeWallet : List Utxo :=
  [ { note := { tokenHash := 1, value := 5, random := 0, npk := 0 }, tree := 0, position := 3 },
    { note := { tokenHash := 1, value := 3, random := 0, npk := 0 }, tree := 0, position := 4 },
    { note := { tokenHash := 1, value := 2, random := 0, npk := 0 }, tree := 0, position := 6 } ]

/-- A swap of nine through executor seven. -/
def swapOfNine : MixedPrivateActionRequest where
  adapter := some (.executor { chainId := 1, executor := 7, delegate := 8, executionNonce := 0 })
  executorCalls := [{ toAddress := 6, data := [], value := 0 }]
  privateSends := []
  publicUnshields := [{ tokenAddress := 1, amount := 9, recipient := .relayAdapt,
                        role := .primary }]
  relayActions := none
  minGasPrice := 0
  spendUpTo := false
  rebuild := none

/-- An encoding with one byte for each nullifier. -/
def nullifierBytes : HookEncoding where
  execute := fun transactions _ _ _ =>
    transactions.flatMap fun transaction => List.replicate transaction.nullifiers 0
  multicall := fun _ _ _ _ => []
  document := fun appData => .ok (appData.hooks.pre.flatMap (·.callData))

/-- Nine needs three inputs. Where only two fit, eight is the largest amount. -/
theorem swapPreHook_sound_swapOfNine :
    ∃ largest, checkSwapPreHook nullifierBytes
        { chainType := 0, chainId := 1, railgunContract := 9 } oneTreeWallet swapOfNine
        { appCode := "swap", preHookGasLimit := 0, postHook := none } 2
        = .ok (.tooLarge largest) ∧
      largest.amount = 8 ∧ largest.amount < 9 ∧ largest.appDataLen ≤ 2 := by
  have hok : (match checkSwapPreHook nullifierBytes
        { chainType := 0, chainId := 1, railgunContract := 9 } oneTreeWallet swapOfNine
        { appCode := "swap", preHookGasLimit := 0, postHook := none } 2 with
      | .ok (.tooLarge largest) => some largest.amount
      | .ok (.fits _) => none
      | .error _ => none) = some 8 := by
    decide +kernel
  rcases hcheck : checkSwapPreHook nullifierBytes
      { chainType := 0, chainId := 1, railgunContract := 9 } oneTreeWallet swapOfNine
      { appCode := "swap", preHookGasLimit := 0, postHook := none } 2 with error | (size | largest)
  all_goals rw [hcheck] at hok
  · cases hok
  · cases hok
  · have hsound := (swapPreHook_sound nullifierBytes
      { chainType := 0, chainId := 1, railgunContract := 9 } oneTreeWallet swapOfNine
      { appCode := "swap", preHookGasLimit := 0, postHook := none } 2 7
      { tokenAddress := 1, amount := 9, recipient := .relayAdapt, role := .primary } none 0
      ⟨rfl, rfl, ⟨_, rfl⟩⟩ (fun appData => ⟨_, rfl⟩) (by decide)).2.2 largest hcheck
    exact ⟨largest, rfl, Option.some.inj hok, hsound.1, hsound.2.1⟩

end Railgun
