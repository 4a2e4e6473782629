import Railgun.Core.Composite
import Railgun.Lib.Fallible
import Railgun.Theory.Plan

/-!
# Soundness of the Composite Search

A successful search makes one selection per leg, each sound for its leg and
drawn from the notes the earlier legs left, and places the fee on exactly one
leg of its token. A failed call leaves the state it was given, at every depth:
`inner_restores` is proved for every call, so it holds on every branch the
search backtracks over.

`LegSelections` is what a successful search has gone through, leg by leg. The
facts about notes, transactions and the fee are read off it by induction; the
search itself is only looked at in `inner_spec`.

## Main definitions

* `legFee`, `legPool`, `legUsed`: What is paid, left and used at a leg.

## Theorems

* `inner_restores`: A failed call returns the state it was given.
* `inner_spec`: A call fails or extends the state by sound selections.
* `legSelections_subperm`: All legs together use each note at most once.
* `legSelections_count`: All legs together stay within the limit.
* `legSelections_leg`: Every leg's selection is sound for it.
* `compositeSelection_sound`: The search as a whole.
-/

namespace Railgun

/-- A call that leaves the state it was given when it fails. -/
def Restores (descend : List Utxo → Nat → CompositeState →
    Except BuildError Unit × CompositeState) : Prop :=
  ∀ utxos used st error st', descend utxos used st = (.error error, st') → st' = st

theorem restores_of_spec {descend : List Utxo → Nat → CompositeState →
      Except BuildError Unit × CompositeState}
    (h : ∀ utxos used st, (∃ error, descend utxos used st = (.error error, st)) ∨
      ∃ st', descend utxos used st = (.ok (), st')) : Restores descend := by
  intro utxos used st error st' hcall
  rcases h utxos used st with ⟨_, hfailed⟩ | ⟨_, hok⟩
  · exact (Prod.mk.inj (hcall.symm.trans hfailed)).2
  · cases hcall.symm.trans hok

/-- The outputs of a leg's first transaction, before change. -/
def legBaseOutputCount (legFee : Option BroadcasterFeeOutput) : Nat :=
  1 + (if legFee.isSome then 1 else 0)

/-- The selections of a successful search, from a leg on: the marker of the fee
    leg before and after, and for each leg the fee it pays and a selection for
    its target from the notes and transactions left. -/
inductive LegSelections (embeddedFee : Option BroadcasterFeeOutput) (spendUpToByLeg : List Bool) :
    List CompositeUnshieldLeg → Nat → List Utxo → Nat → Option Nat →
      List BatchUtxoSelection → Option Nat → Prop
  | nil {legIndex used : Nat} {pool : List Utxo} {marker : Option Nat} :
      ¬ (embeddedFee.isSome = true ∧ marker.isNone = true) →
      LegSelections embeddedFee spendUpToByLeg [] legIndex pool used marker [] marker
  | cons {leg : CompositeUnshieldLeg} {legs : List CompositeUnshieldLeg} {legIndex used : Nat}
      {pool : List Utxo} {marker marker' : Option Nat} {legFee : Option BroadcasterFeeOutput}
      {selection : BatchUtxoSelection} {selections : List BatchUtxoSelection} :
      legFee ∈ legFeeOptions leg embeddedFee marker → used < maxBatchTransactions →
      Selected pool leg.tokenAddress (leg.amount + feeValue legFee)
        ((spendUpToByLeg[legIndex]?).getD false) (legBaseOutputCount legFee) 1
        (maxBatchTransactions - used) selection →
      LegSelections embeddedFee spendUpToByLeg legs (legIndex + 1)
        (removeBatchUtxos pool selection) (used + selection.chunks.length)
        (if legFee.isSome then some legIndex else marker) selections marker' →
      LegSelections embeddedFee spendUpToByLeg (leg :: legs) legIndex pool used marker
        (selection :: selections) marker'

/-- A state with one more selection, at a leg that pays the fee or does not. -/
def CompositeState.push (st : CompositeState) (legIndex : Nat)
    (legFee : Option BroadcasterFeeOutput) (selection : BatchUtxoSelection) : CompositeState where
  selections := st.selections ++ [selection]
  embeddedFeeLegIndex := if legFee.isSome then some legIndex else st.embeddedFeeLegIndex

section Loops

variable (utxos : List Utxo) (legIndex used : Nat)
  {descend : List Utxo → Nat → CompositeState → Except BuildError Unit × CompositeState}
  (hdescend : Restores descend) (st : CompositeState)
include hdescend

/-- The loop over candidates fails and returns the state it was given, or returns
    what the branch of one of them does. -/
theorem candidateLoop_spec (legFee : Option BroadcasterFeeOutput)
    (candidates : List BatchUtxoSelection) (lastError : Option BuildError) :
    (∃ error, compositeCandidateLoop utxos legIndex used legFee descend candidates lastError st
        = (.error error, st)) ∨
      ∃ candidate ∈ candidates, ∃ st',
        compositeCandidateLoop utxos legIndex used legFee descend candidates lastError st
          = (.ok (), st') ∧
        descend (removeBatchUtxos utxos candidate) (used + candidate.chunks.length)
          (st.push legIndex legFee candidate) = (.ok (), st') := by
  induction candidates generalizing lastError with
  | nil => exact Or.inl ⟨lastError, rfl⟩
  | cons candidate rest ih =>
    rw [compositeCandidateLoop]
    rcases hbranch : descend (removeBatchUtxos utxos candidate) (used + candidate.chunks.length)
      (st.push legIndex legFee candidate) with ⟨failure | ⟨⟩, st'⟩
    · -- The branch returned what it was given, so undoing the push is exact.
      obtain rfl := hdescend _ _ _ _ _ hbranch
      rw [CompositeState.push] at hbranch
      simp only [hbranch, List.dropLast_concat]
      exact (ih _).imp_right fun ⟨other, hmem, hother⟩ =>
        ⟨other, List.mem_cons_of_mem _ hmem, hother⟩
    · refine Or.inr ⟨candidate, List.mem_cons_self, st', ?_, hbranch⟩
      rw [CompositeState.push] at hbranch
      simp only [hbranch]

/-- The loop over fee placements fails and returns the state it was given, or
    returns what the branch of a sound selection does. -/
theorem feeLoop_spec {leg : CompositeUnshieldLeg} {spendUpTo : Bool} {slots : Nat}
    (hslots : 1 ≤ slots) (options : List (Option BroadcasterFeeOutput))
    (lastError : Option BuildError) :
    (∃ error, compositeFeeLoop utxos leg spendUpTo legIndex slots used descend options lastError st
        = (.error error, st)) ∨
      ∃ legFee ∈ options, ∃ candidate st',
        compositeFeeLoop utxos leg spendUpTo legIndex slots used descend options lastError st
          = (.ok (), st') ∧
        Selected utxos leg.tokenAddress (leg.amount + feeValue legFee) spendUpTo
          (legBaseOutputCount legFee) 1 slots candidate ∧
        descend (removeBatchUtxos utxos candidate) (used + candidate.chunks.length)
          (st.push legIndex legFee candidate) = (.ok (), st') := by
  induction options generalizing lastError with
  | nil => exact Or.inl ⟨_, rfl⟩
  | cons legFee options ih =>
    rw [compositeFeeLoop]
    cases hcandidates : selectBatchedUtxoCandidatesWithLimit utxos leg.tokenAddress
        (leg.amount + feeValue legFee) spendUpTo (1 + if legFee.isSome then 1 else 0) 1 slots with
    | error error =>
      exact (ih _).imp_right fun ⟨other, hmem, hother⟩ =>
        ⟨other, List.mem_cons_of_mem _ hmem, hother⟩
    | ok candidates =>
      rcases candidateLoop_spec utxos legIndex used hdescend st legFee candidates
        lastError with
        ⟨error, hfailed⟩ | ⟨candidate, hmem, st', hok, hbranch⟩
      · simp only [hfailed]
        exact (ih error).imp_right fun ⟨other, hmem, hother⟩ =>
          ⟨other, List.mem_cons_of_mem _ hmem, hother⟩
      · simp only [hok]
        exact Or.inr ⟨legFee, List.mem_cons_self, candidate, st', rfl,
          selectBatchedUtxoCandidatesWithLimit_selected hslots hcandidates candidate hmem, hbranch⟩

end Loops

/-- A call fails and returns the state it was given, or extends it by sound
    selections. -/
theorem inner_spec (embeddedFee : Option BroadcasterFeeOutput) (spendUpToByLeg : List Bool)
    (legs : List CompositeUnshieldLeg) (legIndex : Nat) (utxos : List Utxo) (used : Nat)
    (st : CompositeState) :
    (∃ error, selectCompositeLegSelectionsInner embeddedFee spendUpToByLeg legs legIndex utxos used
        st = (.error error, st)) ∨
      ∃ selections st', selectCompositeLegSelectionsInner embeddedFee spendUpToByLeg legs legIndex
          utxos used st = (.ok (), st') ∧
        st'.selections = st.selections ++ selections ∧
        LegSelections embeddedFee spendUpToByLeg legs legIndex utxos used
          st.embeddedFeeLegIndex selections st'.embeddedFeeLegIndex := by
  induction legs generalizing legIndex utxos used st with
  | nil =>
    rw [selectCompositeLegSelectionsInner]
    split_ifs with hunplaced
    · exact Or.inl ⟨_, rfl⟩
    · exact Or.inr ⟨[], st, rfl, (List.append_nil _).symm, LegSelections.nil hunplaced⟩
  | cons leg legs ih =>
    have hrestores := restores_of_spec fun utxos used st =>
      (ih (legIndex + 1) utxos used st).imp_right fun ⟨_, st', h, _⟩ => ⟨st', h⟩
    rw [selectCompositeLegSelectionsInner]
    split_ifs with hslots
    · exact Or.inl ⟨_, rfl⟩
    rcases feeLoop_spec utxos legIndex used hrestores st
      (Nat.one_le_iff_ne_zero.mpr hslots) (legFeeOptions leg embeddedFee st.embeddedFeeLegIndex)
      none with
      hfailed | ⟨legFee, hoption, selection, st', hok, hselected, hbranch⟩
    · exact Or.inl hfailed
    rcases ih (legIndex + 1) _ _ _ with ⟨_, hfailed⟩ | ⟨selections, _, hsame, hselections, hlegs⟩
    · cases hfailed.symm.trans hbranch
    obtain rfl := (Prod.mk.inj (hsame.symm.trans hbranch)).2
    refine Or.inr ⟨selection :: selections, _, hok, ?_,
      LegSelections.cons hoption (by omega) hselected hlegs⟩
    rw [hselections, CompositeState.push, List.append_assoc, List.singleton_append]

theorem inner_restores (embeddedFee : Option BroadcasterFeeOutput) (spendUpToByLeg : List Bool)
    (legs : List CompositeUnshieldLeg) (legIndex : Nat) :
    Restores (selectCompositeLegSelectionsInner embeddedFee spendUpToByLeg legs legIndex) :=
  restores_of_spec fun utxos used st =>
    (inner_spec embeddedFee spendUpToByLeg legs legIndex utxos used st).imp_right
      fun ⟨_, st', h, _⟩ => ⟨st', h⟩

theorem mem_legFeeOptions {leg : CompositeUnshieldLeg}
    {embeddedFee legFee : Option BroadcasterFeeOutput} {marker : Option Nat}
    (h : legFee ∈ legFeeOptions leg embeddedFee marker) :
    legFee = none ∨ (legFee = embeddedFee ∧ marker = none ∧
      ∃ fee, embeddedFee = some fee ∧ leg.tokenAddress = fee.tokenAddress) := by
  cases embeddedFee with
  | none => exact Or.inl (List.mem_singleton.mp h)
  | some fee =>
    rw [legFeeOptions] at h
    split_ifs at h with hplace
    · rw [List.mem_cons, List.mem_singleton] at h
      exact h.symm.imp_right fun hpays =>
        ⟨hpays, Option.isNone_iff_eq_none.mp hplace.1, fee, rfl, hplace.2⟩
    · exact Or.inl (List.mem_singleton.mp h)

/-- The fee a leg pays. -/
def legFee (embeddedFee : Option BroadcasterFeeOutput) (feeLeg : Option Nat) (index : Nat) :
    Option BroadcasterFeeOutput :=
  if feeLeg = some index then embeddedFee else none

/-- The notes left at a leg. -/
def legPool (utxos : List Utxo) (selections : List BatchUtxoSelection) (index : Nat) :
    List Utxo :=
  (selections.take index).foldl removeBatchUtxos utxos

/-- The transactions used at a leg. -/
def legUsed (used : Nat) (selections : List BatchUtxoSelection) (index : Nat) : Nat :=
  used + ((selections.take index).map (·.chunks.length)).sum

theorem legPool_succ (utxos : List Utxo) (selection : BatchUtxoSelection)
    (selections : List BatchUtxoSelection) (index : Nat) :
    legPool utxos (selection :: selections) (index + 1)
      = legPool (removeBatchUtxos utxos selection) selections index := by
  rw [legPool, List.take_succ_cons, List.foldl_cons, legPool]

theorem legUsed_succ (used : Nat) (selection : BatchUtxoSelection)
    (selections : List BatchUtxoSelection) (index : Nat) :
    legUsed used (selection :: selections) (index + 1)
      = legUsed (used + selection.chunks.length) selections index := by
  rw [legUsed, List.take_succ_cons, List.map_cons, List.sum_cons, ← Nat.add_assoc, legUsed]

theorem chain_subperm_append {token : Address} {continuation baseOutputCount : Nat}
    {pool rest : List Utxo} {chunks : List UtxoSelection}
    (h : Chain token continuation baseOutputCount pool chunks)
    (hrest : rest.Subperm
      (chunks.foldl (fun utxos chunk => removeSelectedUtxos utxos chunk.utxos) pool)) :
    (chunks.flatMap (·.utxos) ++ rest).Subperm pool := by
  induction h with
  | nil => exact hrest
  | cons hspend _ ih =>
    rw [List.flatMap_cons, List.append_assoc]
    exact subperm_append_of_removed hspend.subperm (ih hrest)

theorem selected_length {utxos : List Utxo} {token : Address} {amount : U256}
    {spendUpTo : Bool} {first continuation limit : Nat} {selection : BatchUtxoSelection}
    (h : Selected utxos token amount spendUpTo first continuation limit selection) :
    selection.chunks.length ≤ limit := by
  cases h with
  | split _ hlen _ => exact hlen
  | maximum _ hmax _ _ => exact (maxBatchSelection_draws hmax).2.2.1

section LegSelections

variable {embeddedFee : Option BroadcasterFeeOutput} {spendUpToByLeg : List Bool}
  {legs : List CompositeUnshieldLeg} {legIndex used : Nat} {pool : List Utxo}
  {marker marker' : Option Nat} {selections : List BatchUtxoSelection}
  (h : LegSelections embeddedFee spendUpToByLeg legs legIndex pool used marker selections
    marker')
include h

theorem legSelections_marker_stays {index : Nat} (hmarker : marker = some index) :
    marker' = some index := by
  induction h with
  | nil _ => exact hmarker
  | cons hoption _ _ _ ih =>
    rcases mem_legFeeOptions hoption with hnone | ⟨_, hfree, _⟩
    · rw [hnone, Option.isSome_none, if_neg Bool.false_ne_true] at ih
      exact ih hmarker
    · rw [hmarker] at hfree
      cases hfree

theorem legSelections_marker {index : Nat} (hmarker : marker' = some index) :
    marker = some index ∨ ∃ k leg fee, index = legIndex + k ∧ legs[k]? = some leg ∧
      embeddedFee = some fee ∧ leg.tokenAddress = fee.tokenAddress := by
  induction h with
  | nil _ => exact Or.inl hmarker
  | @cons leg legs legIndex used pool marker marker' legFee selection selections hoption _ _ _ ih =>
    rcases ih hmarker with hbefore | ⟨k, other, fee, hindex, hget, hfee, htoken⟩
    · rcases mem_legFeeOptions hoption with hnone | ⟨hpays, _, fee, hfee, htoken⟩
      · rw [hnone, Option.isSome_none, if_neg Bool.false_ne_true] at hbefore
        exact Or.inl hbefore
      · rw [hpays, hfee, Option.isSome_some, if_pos rfl, Option.some.injEq] at hbefore
        exact Or.inr ⟨0, leg, fee, hbefore.symm, rfl, hfee, htoken⟩
    · exact Or.inr ⟨k + 1, other, fee, by omega, hget, hfee, htoken⟩

theorem legSelections_marker_isSome (hfee : embeddedFee.isSome = true) : marker'.isSome = true := by
  induction h with
  | nil hmarked => 
    exact Option.ne_none_iff_isSome.mp fun hnone =>
      hmarked ⟨hfee, Option.isNone_iff_eq_none.mpr hnone⟩
  | cons _ _ _ _ ih => exact ih

theorem legSelections_length : selections.length = legs.length := by
  induction h with
  | nil _ => rfl
  | cons _ _ _ _ ih => rw [List.length_cons, List.length_cons, ih]

theorem legSelections_subperm :
    ((selections.flatMap (·.chunks)).flatMap (·.utxos)).Subperm pool := by
  induction h with
  | nil _ => exact List.nil_subperm
  | cons _ _ hselected _ ih =>
    rw [List.flatMap_cons, List.flatMap_append]
    exact chain_subperm_append (selected_chain hselected) ih

theorem legSelections_count (hused : legs ≠ [] ∨ used ≤ maxBatchTransactions) :
    used + (selections.flatMap (·.chunks)).length ≤ maxBatchTransactions := by
  induction h with
  | nil _ => exact hused.resolve_left fun hlegs => hlegs rfl
  | cons _ hslots hselected _ ih =>
    have hlen := selected_length hselected
    rw [List.flatMap_cons, List.length_append]
    omega

theorem legSelections_leg (hbefore : ∀ index, marker = some index → index < legIndex) :
    ∀ k leg selection, legs[k]? = some leg → selections[k]? = some selection →
      Selected (legPool pool selections k) leg.tokenAddress
        (leg.amount + feeValue (legFee embeddedFee marker' (legIndex + k)))
        ((spendUpToByLeg[legIndex + k]?).getD false)
        (legBaseOutputCount (legFee embeddedFee marker' (legIndex + k))) 1
        (maxBatchTransactions - legUsed used selections k) selection := by
  induction h with
  | nil _ =>
    intro k leg selection hleg
    cases hleg
  | @cons leg legs legIndex used pool marker marker' paid selection selections hoption _ hselected
      hrest ih =>
      have hmarker : ∀ index, (if paid.isSome then some legIndex else marker) = some index →
          index < legIndex + 1 := by
        intro index hindex
        split_ifs at hindex
        · exact Nat.lt_succ_of_le (Option.some.inj hindex).ge
        · exact Nat.lt_succ_of_lt (hbefore index hindex)
      intro k other chosen hleg hchosen
      cases k with
      | zero =>
        rw [List.getElem?_cons_zero, Option.some.injEq] at hleg hchosen
        rw [← hleg, ← hchosen, Nat.add_zero]
        -- The fee this leg paid is the one the final marker says it pays.
        have hpaid : legFee embeddedFee marker' legIndex = paid := by
          rw [legFee]
          rcases mem_legFeeOptions hoption with hnone | ⟨hpays, _, fee, hfee, _⟩
          · rw [hnone, Option.isSome_none, if_neg Bool.false_ne_true] at hrest
            rw [hnone, if_neg]
            intro hfinal
            rcases legSelections_marker hrest hfinal with hearly | ⟨j, _, _, hindex, _⟩
            · exact Nat.lt_irrefl _ (hbefore _ hearly)
            · omega
          · rw [hpays, hfee, Option.isSome_some, if_pos rfl] at hrest
            rw [if_pos (legSelections_marker_stays hrest rfl), hpays]
        rw [hpaid]
        exact hselected
      | succ k =>
        have hleg' := ih hmarker k other chosen hleg hchosen
        rw [show legIndex + 1 + k = legIndex + (k + 1) by omega] at hleg'
        rw [legPool_succ, legUsed_succ]
        exact hleg'

end LegSelections

/-- A selection that can be built for an amount: chunks spendable one after
    another within the limit, which cover the amount with no change before the
    last, or are the maximum selection below it. -/
structure SoundSelection (pool : List Utxo) (token : Address) (amount : U256)
    (spendUpTo : Bool) (first continuation limit : Nat) (selection : BatchUtxoSelection) :
    Prop where
  nonempty : selection.chunks ≠ []
  subperm : (selection.chunks.flatMap (·.utxos)).Subperm pool
  spendable : ∀ index chunk, selection.chunks[index]? = some chunk →
    Spendable pool token (baseOutputCountAt first continuation index) chunk
  transactions : selection.chunks.length ≤ limit
  total : selection.total = chunkTotal selection.chunks
  covers :
    (amount.toNat ≤ chunkSum selection.chunks ∧
      ∀ index chunk, selection.chunks[index]? = some chunk →
        (index + 1 < selection.chunks.length →
          chunk.total.toNat < owedBefore amount selection.chunks index) ∧
        2 + chunk.utxos.length + (baseOutputCountAt first continuation index +
          (if owedBefore amount selection.chunks index < chunk.total.toNat then 1 else 0))
            ≤ maxSignatureInputs) ∨
    (spendUpTo = true ∧ selection.total < amount ∧
      maxBatchSelection pool token first continuation limit = some selection)

theorem selected_sound {pool : List Utxo} {token : Address} {amount : U256} {spendUpTo : Bool}
    {first continuation limit : Nat} {selection : BatchUtxoSelection}
    (h : Selected pool token amount spendUpTo first continuation limit selection) :
    SoundSelection pool token amount spendUpTo first continuation limit selection := by
  have hchain := selected_chain h
  have hlen := selected_length h
  cases h with
  | split htotal _ hsplits =>
    exact ⟨splits_ne_nil hsplits, chain_subperm hchain, chain_spendable hchain, hlen, htotal,
      Or.inl ⟨splits_covers hsplits, splits_owed hsplits⟩⟩
  | maximum hup hmax _ hlt =>
    rcases maxBatchSelection_draws hmax with ⟨hne, htotal, _, _⟩
    exact ⟨hne, chain_subperm hchain, chain_spendable hchain, hlen, htotal,
      Or.inr ⟨hup, hlt, hmax⟩⟩

/-- What the selections for several legs have to satisfy. -/
structure CompositeSound (utxos : List Utxo) (legs : List CompositeUnshieldLeg)
    (embeddedFee : Option BroadcasterFeeOutput) (spendUpToByLeg : List Bool) (used : Nat)
    (selections : List BatchUtxoSelection) (feeLeg : Option Nat) : Prop where
  length : selections.length = legs.length
  subperm : ((selections.flatMap (·.chunks)).flatMap (·.utxos)).Subperm utxos
  distinct : (utxos.map SelectedInputIdentity.fromUtxo).Nodup →
    (((selections.flatMap (·.chunks)).flatMap (·.utxos)).map
      SelectedInputIdentity.fromUtxo).Nodup
  transactions : legs ≠ [] ∨ used ≤ maxBatchTransactions →
    used + (selections.flatMap (·.chunks)).length ≤ maxBatchTransactions
  sound : ∀ index leg selection, legs[index]? = some leg → selections[index]? = some selection →
    SoundSelection (legPool utxos selections index) leg.tokenAddress
      (leg.amount + feeValue (legFee embeddedFee feeLeg index))
      ((spendUpToByLeg[index]?).getD false)
      (legBaseOutputCount (legFee embeddedFee feeLeg index)) 1
      (maxBatchTransactions - legUsed used selections index) selection
  feePlaced : feeLeg.isSome = embeddedFee.isSome
  feeToken : ∀ index, feeLeg = some index → ∃ leg fee, legs[index]? = some leg ∧
    embeddedFee = some fee ∧ leg.tokenAddress = fee.tokenAddress

theorem legSelections_sound {utxos : List Utxo} {legs : List CompositeUnshieldLeg}
    {embeddedFee : Option BroadcasterFeeOutput} {spendUpToByLeg : List Bool} {used : Nat}
    {selections : List BatchUtxoSelection} {feeLeg : Option Nat}
    (h : LegSelections embeddedFee spendUpToByLeg legs 0 utxos used none selections feeLeg) :
    CompositeSound utxos legs embeddedFee spendUpToByLeg used selections feeLeg := by
  have hsub := legSelections_subperm h
  have hfeeLeg : ∀ index, feeLeg = some index → ∃ leg fee, legs[index]? = some leg ∧
      embeddedFee = some fee ∧ leg.tokenAddress = fee.tokenAddress := by
    intro index hindex
    rcases legSelections_marker h hindex with hnone | ⟨k, leg, fee, hk, hleg, hfee, htoken⟩
    · cases hnone
    · rw [hk, Nat.zero_add]
      exact ⟨leg, fee, hleg, hfee, htoken⟩
  refine ⟨legSelections_length h, hsub, subperm_identities_nodup hsub, legSelections_count h, ?_,
    ?_, hfeeLeg⟩
  · intro index leg selection hleg hselection
    have hmade := legSelections_leg h nofun index leg selection hleg hselection
    rw [Nat.zero_add] at hmade
    exact selected_sound hmade
  · cases hplaced : feeLeg with
    | none =>
      cases hfee : embeddedFee with
      | none => rfl
      | some fee =>
        have hsome := legSelections_marker_isSome h (by rw [hfee]; rfl)
        rw [hplaced] at hsome
        cases hsome
    | some index =>
      rcases hfeeLeg index hplaced with ⟨_, fee, _, hfee, _⟩
      rw [hfee]
      rfl

theorem selectCompositeLegSelectionsWithPolicy_eq_ok {utxos : List Utxo}
    {legs : List CompositeUnshieldLeg} {embeddedFee : Option BroadcasterFeeOutput}
    {spendUpToByLeg : List Bool} {used : Nat} {selections : List BatchUtxoSelection}
    {feeLeg : Option Nat}
    (h : selectCompositeLegSelectionsWithPolicy utxos legs embeddedFee spendUpToByLeg used
      = .ok (selections, feeLeg)) :
    CompositeSound utxos legs embeddedFee spendUpToByLeg used selections feeLeg := by
  rw [selectCompositeLegSelectionsWithPolicy] at h
  rcases inner_spec embeddedFee spendUpToByLeg legs 0 utxos used ⟨[], none⟩ with
    ⟨error, hfailed⟩ | ⟨made, st, hok, hmade, hlegs⟩
  · rw [hfailed] at h
    cases h
  · rw [hok, Except.ok.injEq, Prod.mk.injEq] at h
    rw [← h.1, ← h.2, hmade]
    exact legSelections_sound hlegs

/-- A successful search selects soundly for every leg within the transaction
    limit, and every failed call, at any depth, leaves the selections and the
    fee leg as it found them. -/
theorem compositeSelection_sound (embeddedFee : Option BroadcasterFeeOutput)
    (spendUpToByLeg : List Bool) :
    (∀ (utxos : List Utxo) (legs : List CompositeUnshieldLeg) (used : Nat)
      (selections : List BatchUtxoSelection) (feeLeg : Option Nat),
      selectCompositeLegSelectionsWithPolicy utxos legs embeddedFee spendUpToByLeg used
        = .ok (selections, feeLeg) →
      CompositeSound utxos legs embeddedFee spendUpToByLeg used selections feeLeg) ∧
    (∀ (legs : List CompositeUnshieldLeg) (legIndex : Nat) (utxos : List Utxo) (used : Nat)
      (st : CompositeState) (error : BuildError) (st' : CompositeState),
      selectCompositeLegSelectionsInner embeddedFee spendUpToByLeg legs legIndex utxos used st
        = (.error error, st') → st' = st) :=
  ⟨fun _ _ _ _ _ h => selectCompositeLegSelectionsWithPolicy_eq_ok h,
    fun legs legIndex => inner_restores embeddedFee spendUpToByLeg legs legIndex⟩

/-- A leg that pays out so much of token one. -/
def payoutLeg (amount : U256) : CompositeUnshieldLeg :=
  { tokenAddress := 1, amount := amount, recipient := .publicAccount 7, role := .other }

/-- A fee of so much of token one. -/
def tokenFee (amount : U256) : BroadcasterFeeOutput :=
  { recipient := { masterPublicKey := 0, viewingPublicKey := 0 }, tokenAddress := 1
    amount := amount }

/-- The fee goes to the second leg, whose note has room for it. -/
theorem compositeSelection_sound_two_legs :
    ∃ selections feeLeg,
      selectCompositeLegSelectionsWithPolicy twoTreeWallet [payoutLeg 5, payoutLeg 4]
        (some (tokenFee 1)) [false, false] 0 = .ok (selections, feeLeg) ∧
      feeLeg = some 1 ∧
      CompositeSound twoTreeWallet [payoutLeg 5, payoutLeg 4] (some (tokenFee 1)) [false, false] 0
        selections feeLeg := by
  have hok : (selectCompositeLegSelectionsWithPolicy twoTreeWallet [payoutLeg 5, payoutLeg 4]
      (some (tokenFee 1)) [false, false] 0).toOption.map Prod.snd = some (some 1) := by
    decide +kernel
  rcases Option.map_eq_some_iff.mp hok with ⟨⟨selections, feeLeg⟩, hsome, hfeeLeg⟩
  have hselected := toOption_eq_some.mp hsome
  exact ⟨selections, feeLeg, hselected, hfeeLeg,
    (compositeSelection_sound (some (tokenFee 1)) [false, false]).1 _ _ _ _ _ hselected⟩

/-- Without a leg, nothing checks the transactions already used; a position
    listed twice is spent twice; and an amount and a fee whose sum wraps are
    settled by the wrapped sum. -/
theorem compositeSelection_unsound :
    selectCompositeLegSelectionsWithPolicy [] [] none [] 9 = .ok ([], none) ∧
    (selectCompositeLegSelectionsWithPolicy (twoTreeWallet.take 1 ++ twoTreeWallet.take 1)
      [payoutLeg 8] none [false] 0).toOption.any (fun found =>
        ¬ ((found.1.flatMap (·.chunks)).flatMap (·.utxos)).Nodup) = true ∧
    (selectCompositeLegSelectionsWithPolicy twoTreeWallet
      [payoutLeg (BitVec.ofNat 256 (2 ^ 256 - 1))] (some (tokenFee 2)) [false] 0).toOption.any
        (fun found => found.1.map (·.total) = [5]) = true := by
  refine ⟨rfl, ?_, ?_⟩
  · decide +kernel
  · decide +kernel

end Railgun
