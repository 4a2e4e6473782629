import Railgun.Theory.Allocation

/-!
# Previews and Builds

A preview selects notes and counts outputs; the build selects the same notes
and allocates the amount over them. This module says what the allocation
guarantees, and when it exists.

A batch `Settles` what is owed when its chunks but the last stay below it and
all together cover it. That is what the selections have in common, and it
decides the allocation: after the first chunk nothing can go wrong, and the
first chunk succeeds exactly when it is worth more than the fee. The preview
does not make that test, so it can promise a transfer whose first transaction
cannot pay the fee.

## Main definitions

* `Settles`: The chunks but the last stay below what is owed, all cover it.

## Theorems

* `spendAllocations_eq_ok`: When an allocation succeeds.
* `settles_allocates`: A batch that settles what is owed can be allocated.
* `allocation_exact`: Allocations conserve value and previews count exactly.
* `feePreview_build_iff`: When a preview with a fee can be built.
-/

namespace Railgun

variable {broadcasterFee : Option BroadcasterFeeOutput} {allocations : List SpendAllocation}
    {spendUpTo : Bool} {selection : BatchUtxoSelection}

theorem spendAllocations_eq_ok {requestedAmount feeAmount : U256} :
    spendAllocations selection requestedAmount feeAmount broadcasterFee spendUpTo
        = .ok allocations ↔
      feeAmount ≤ selection.total ∧
      (spendUpTo = false → requestedAmount ≤ selection.total - feeAmount) ∧
      U256.min (selection.total - feeAmount) requestedAmount ≠ 0 ∧
      Allocates broadcasterFee 0 (U256.min (selection.total - feeAmount) requestedAmount)
        selection.chunks allocations 0 := by
  rw [spendAllocations]
  dsimp only
  rw [ite_error_eq_ok, ite_error_eq_ok, ite_error_eq_ok, bind_eq_ok, BitVec.not_lt]
  -- Unless spending up to the amount is allowed, the amount is the smaller one.
  rw [not_and, Bool.not_eq_true, BitVec.not_lt]
  refine and_congr_right fun _ => and_congr_right fun henough => ?_
  have hamount : (if spendUpTo = true then U256.min (selection.total - feeAmount) requestedAmount
      else requestedAmount) = U256.min (selection.total - feeAmount) requestedAmount := by
    split_ifs with hup
    · rfl
    · rw [U256.min_eq_right (henough (Bool.eq_false_iff.mpr hup))]
  rw [hamount]
  refine and_congr_right fun _ => ?_
  constructor
  · rintro ⟨⟨result, left⟩, hloop, hleft⟩
    dsimp only at hleft
    split_ifs at hleft with hzero
    cases hleft
    exact hzero ▸ allocateLoop_eq_ok.mp hloop
  · exact fun hrun => ⟨(allocations, 0), allocateLoop_eq_ok.mpr hrun, if_pos rfl⟩

/-- What a successful allocation guarantees: every chunk's total is sent, kept
    or paid as fee, the fee is paid once, the amounts add up, and only the last
    chunk keeps change. -/
structure ExactAllocation (selection : BatchUtxoSelection) (amount : U256)
    (broadcasterFee : Option BroadcasterFeeOutput) (allocations : List SpendAllocation) :
    Prop where
  length : allocations.length = selection.chunks.length
  conserved : ∀ index chunk allocation, selection.chunks[index]? = some chunk →
    allocations[index]? = some allocation →
    chunk.total.toNat = allocation.amount.toNat + allocation.change.toNat
      + (if index = 0 then (feeValue broadcasterFee).toNat else 0)
  fee : ∀ index allocation, allocations[index]? = some allocation →
    allocation.fee = if index = 0 then broadcasterFee else none
  sum : (allocations.map (·.amount.toNat)).sum
    = min amount.toNat (selection.total.toNat - (feeValue broadcasterFee).toNat)
  change : ∀ index allocation, allocations[index]? = some allocation →
    index + 1 < allocations.length → allocation.change = 0

variable {amount : U256}

theorem exactAllocation_of_ok
    (h : spendAllocations selection amount (feeValue broadcasterFee) broadcasterFee spendUpTo
      = .ok allocations) :
    ExactAllocation selection amount broadcasterFee allocations := by
  rcases spendAllocations_eq_ok.mp h with ⟨hfee, _, _, hrun⟩
  have hlength := allocates_length hrun
  refine ⟨hlength, ?_, ?_, ?_, allocates_change hrun⟩
  · intro index chunk allocation hchunk hallocation
    rcases allocates_value hrun index chunk allocation hchunk hallocation with ⟨hvalue, hpays, _⟩
    rw [hvalue, hpays, Nat.zero_add, chunkFeeAt]
    split_ifs <;> rfl
  · intro index allocation hallocation
    rcases List.getElem?_eq_some_iff.mp hallocation with ⟨hlt, _⟩
    rw [hlength] at hlt
    have hpays := (allocates_value hrun index _ allocation (List.getElem?_eq_getElem hlt)
      hallocation).2.1
    rwa [Nat.zero_add, chunkFeeAt] at hpays
  · have hsum := allocates_sum hrun
    rw [U256.toNat_min, BitVec.toNat_sub_of_le hfee] at hsum
    exact hsum.trans (Nat.min_comm _ _)

theorem batchShape_eq (send : Bool)
    (h : spendAllocations selection amount (feeValue broadcasterFee) broadcasterFee spendUpTo
      = .ok allocations) :
    batchShape selection amount (feeValue broadcasterFee) broadcasterFee.isSome send
      = { transactionCount := allocations.length
          privateOutputCount := (allocations.map (privateNoteCount send)).sum
          publicOutputCount := (allocations.map (fun _ => if send then 0 else 1)).sum } := by
  rcases spendAllocations_eq_ok.mp h with ⟨hfee, _, _, hrun⟩
  simp only [batchShape, U256.saturatingSub_of_le hfee, batchShapeLoop_eq send hrun,
    allocates_length hrun]

section Batch

variable {C : Type}

/-- What the builder says of each transaction, it says of the whole batch. -/
theorem batch_ends {B : Type} {f : SpendAllocation × Nat → Except BuildError B}
    {E : BuildError → Prop} {count : SpendAllocation → Nat} {notes : B → Nat} {P : B → Prop}
    (h : ∀ pair, Ends (fun one => P one ∧ notes one = count pair.1) E (f pair)) :
    Ends (fun created => created.map notes = allocations.map count ∧
      created.length = allocations.length ∧ ∀ one ∈ created, P one) E
      (allocations.zipIdx.mapM f) := by
  refine (ends_mapM h).mono (fun created hall => ⟨?_, ?_, fun one hone => ?_⟩)
    fun _ herror => herror
  · rw [← List.zipIdx_map_fst 0 allocations, List.map_map]
    exact (map_eq_of_forall₂ (hall.imp fun _ _ hone => hone.2.symm)).symm
  · rw [← hall.length_eq, List.length_zipIdx]
  · obtain ⟨pair, -, hpair⟩ := forall₂_exists_left hall hone
    exact hpair.1

end Batch

variable {utxos : List Utxo}

theorem buildAllocations_eq_ok {R : Type} {request : SpendRequest R} :
    buildAllocations utxos request = .ok (selection, allocations) ↔
      selectBatchedUtxos utxos request.tokenAddress request.targetAmount request.spendUpTo
        request.baseOutputCount 1 = .ok selection ∧
      spendAllocations selection request.amount (feeValue request.sameTokenBroadcasterFee)
        request.sameTokenBroadcasterFee request.spendUpTo = .ok allocations := by
  simp only [buildAllocations, bind_eq_ok]
  constructor
  · rintro ⟨chosen, hchosen, allocated, hallocated, ⟨⟩⟩
    exact ⟨hchosen, hallocated⟩
  · rintro ⟨hselection, hallocations⟩
    exact ⟨selection, hselection, allocations, hallocations, rfl⟩

/-- Whenever the selection of a build can be allocated, the allocation conserves
    value chunk by chunk, and the preview's shape counts the notes that are created
    for it, unless one of them cannot be encrypted. -/
theorem allocation_exact {C R : Type} (utxos : List Utxo) (request : SpendRequest R)
    (selection : BatchUtxoSelection) (allocations : List SpendAllocation)
    (hbuild : buildAllocations utxos request = .ok (selection, allocations)) :
    ExactAllocation selection request.amount request.sameTokenBroadcasterFee allocations ∧
    (∀ chunk ∈ selection.chunks, chunk.total = noteTotal chunk.utxos ∧
      (valueSum utxos < 2 ^ 256 → chunk.total.toNat = valueSum chunk.utxos)) ∧
    (∀ (env : OutputEnv C) (account : Address) (owner : AddressData),
      Ends (fun created => (created.map (·.privateNotes.length)).sum
            = (batchShape selection request.amount request.feeAmount
                request.sameTokenBroadcasterFee.isSome false).privateOutputCount ∧
          created.length = (batchShape selection request.amount request.feeAmount
                request.sameTokenBroadcasterFee.isSome false).publicOutputCount ∧
          ∀ one ∈ created, one.outputs = one.privateNotes ++ [one.unshieldNote])
        (EncryptFails env)
        (buildUnshieldBatchOutputs env request.tokenAddress account owner allocations)) ∧
    (∀ (env : OutputEnv C) (sender recipient : AddressData),
      Ends (fun created => (created.map (·.privateNotes.length)).sum
            = (batchShape selection request.amount request.feeAmount
                request.sameTokenBroadcasterFee.isSome true).privateOutputCount ∧
          0 = (batchShape selection request.amount request.feeAmount
                request.sameTokenBroadcasterFee.isSome true).publicOutputCount ∧
          ∀ one ∈ created, one.outputs = one.privateNotes)
        (EncryptFails env)
        (buildSendBatchOutputs env request.tokenAddress sender recipient allocations)) := by
  rcases buildAllocations_eq_ok.mp hbuild with ⟨hselect, hallocate⟩
  have hchain := selected_chain (selectBatchedUtxosWithLimit_selected (by decide) hselect)
  refine ⟨exactAllocation_of_ok hallocate, ?_, ?_, ?_⟩
  · intro chunk hmem
    rcases chain_mem hchain hmem with ⟨outputs, hspend⟩
    exact ⟨hspend.total, hspend.toNat_total⟩
  · intro env account owner
    refine (batch_ends fun pair => (buildUnshieldOutputs_ends (3 * pair.2) request.tokenAddress
      account owner pair.1).mono (fun one hone => ⟨hone.1, hone.2.1⟩) fun _ herror => herror).mono
      (fun created ⟨hnotes, hlength, houtputs⟩ => ?_) fun _ herror => herror
    rw [SpendRequest.feeAmount, batchShape_eq false hallocate]
    refine ⟨by rw [hnotes], ?_, houtputs⟩
    simp only [Bool.false_eq_true, if_false, List.map_const', List.sum_replicate_nat,
      Nat.mul_one]
    exact hlength
  · intro env sender recipient
    refine (batch_ends fun pair => (buildSendOutputs_ends (3 * pair.2) request.tokenAddress
      sender recipient pair.1).mono (fun one hone => ⟨hone.1, hone.2.1⟩)
        fun _ herror => herror).mono
      (fun created ⟨hnotes, _, houtputs⟩ => ?_) fun _ herror => herror
    rw [SpendRequest.feeAmount, batchShape_eq true hallocate]
    refine ⟨by rw [hnotes], ?_, houtputs⟩
    simp only [if_true, List.map_const', List.sum_replicate_nat, Nat.mul_zero]

/-- A fee of one. -/
def oneFee : BroadcasterFeeOutput :=
  { recipient := { masterPublicKey := 0, viewingPublicKey := 0 }, tokenAddress := 1, amount := 1 }

/-- A transfer of eight with that fee, from two notes worth five each. -/
def twoTreeRequest : UnshieldRequest :=
  { tokenAddress := 1, amount := 8, recipient := 7, spendUpTo := false
    broadcasterFee := some oneFee, minGasPrice := 0 }

/-- Notes are not encrypted, and every array that is drawn is zero. -/
def plainOutputs : OutputEnv Unit :=
  { npkFor := fun _ _ => 0, random := fun _ => 0, tryFromNote := fun _ _ _ _ => .ok () }

theorem plainOutputs_ends {α : Type} {P : α → Prop} {x : Except BuildError α}
    (h : Ends P (EncryptFails plainOutputs) x) : ∃ a, x = .ok a ∧ P a := by
  cases x with
  | ok a => exact ⟨a, rfl, h⟩
  | error e =>
    obtain ⟨_, _, _, _, _, hnote, -⟩ := h
    cases hnote

/-- One transaction pays the fee and the other keeps the change, so that two private
    notes are created beside the two public ones. -/
theorem allocation_exact_twoTreeRequest :
    ∃ selection allocations created,
      buildAllocations twoTreeWallet twoTreeRequest = .ok (selection, allocations) ∧
      allocations.map (·.change) = [0, 1] ∧
      ExactAllocation selection 8 twoTreeRequest.sameTokenBroadcasterFee allocations ∧
      buildUnshieldBatchOutputs plainOutputs 1 7 oneFee.recipient allocations = .ok created ∧
      (created.map (·.privateNotes.length)).sum = 2 ∧ created.length = 2 := by
  have hok : ((buildAllocations twoTreeWallet twoTreeRequest).toOption.map fun built =>
      (built.2.map (·.change), batchShape built.1 8 1 true false)) = some ([0, 1], ⟨2, 2, 2⟩) := by
    decide +kernel
  rcases Option.map_eq_some_iff.mp hok with ⟨⟨selection, allocations⟩, hsome, hbuilt⟩
  obtain ⟨hchange, hshape⟩ := Prod.mk.inj hbuilt
  have hbuild := toOption_eq_some.mp hsome
  obtain ⟨hexact, -, hunshield, -⟩ :=
    allocation_exact twoTreeWallet twoTreeRequest selection allocations hbuild
  obtain ⟨created, hcreated, hprivate, hpublic, -⟩ :=
    plainOutputs_ends (hunshield plainOutputs 7 oneFee.recipient)
  refine ⟨selection, allocations, created, hbuild, hchange, hexact, hcreated, hprivate.trans ?_,
    hpublic.trans ?_⟩
  · exact congrArg BatchShape.privateOutputCount hshape
  · exact congrArg BatchShape.publicOutputCount hshape

/-- The chunks but the last stay below what is owed, and all together cover
    it. -/
def Settles (owed : Nat) (chunks : List UtxoSelection) : Prop :=
  chunkSum chunks.dropLast < owed ∧ owed ≤ chunkSum chunks

variable {chunk : UtxoSelection} {rest : List UtxoSelection}

theorem settles_tail {owed : Nat} {next : UtxoSelection}
    (h : Settles owed (chunk :: next :: rest)) :
    chunk.total.toNat < owed ∧ Settles (owed - chunk.total.toNat) (next :: rest) := by
  rcases h with ⟨hbelow, hcovers⟩
  rw [List.dropLast_cons_cons, chunkSum_cons] at hbelow
  rw [chunkSum_cons] at hcovers
  exact ⟨by omega, by omega, by omega⟩

/-- A batch that settles the amount and the fee of its first chunk can be allocated, if
    that chunk is worth more than its fee. -/
theorem settles_allocates {index : Nat} {owed : U256} (howed : owed ≠ 0)
    (hnonzero : ∀ other ∈ rest, other.total ≠ 0)
    (hpays : feeValue (chunkFeeAt broadcasterFee index) < chunk.total)
    (hsettles : Settles (owed.toNat + (feeValue (chunkFeeAt broadcasterFee index)).toNat)
      (chunk :: rest)) :
    ∃ allocations, Allocates broadcasterFee index owed (chunk :: rest) allocations 0 := by
  induction rest generalizing index owed chunk with
  | nil =>
    -- The last chunk covers what is owed.
    have hle : owed ≤ chunk.total - feeValue (chunkFeeAt broadcasterFee index) := by
      have hcovers := hsettles.2
      rw [chunkSum_cons, chunkSum_nil] at hcovers
      rw [BitVec.le_def, BitVec.toNat_sub_of_le (BitVec.le_of_lt hpays)]
      omega
    have hdone : Allocates broadcasterFee (index + 1) (owed - owed) [] [] 0 := by
      rw [sub_self]
      exact Allocates.nil
    exact ⟨_, Allocates.cons hpays (U256.min_eq_right hle).symm howed hdone⟩
  | cons next rest ih =>
    -- The chunk is spent, and no later one pays a fee.
    obtain ⟨hlt, hrest⟩ := settles_tail hsettles
    obtain ⟨hnext, hnonzero⟩ := List.forall_mem_cons.mp hnonzero
    have hspend := BitVec.toNat_sub_of_le (BitVec.le_of_lt hpays)
    rw [BitVec.lt_def] at hpays
    have hle : chunk.total - feeValue (chunkFeeAt broadcasterFee index) ≤ owed := by
      rw [BitVec.le_def, hspend]
      omega
    have hleft : (owed - (chunk.total - feeValue (chunkFeeAt broadcasterFee index))).toNat
        = owed.toNat + (feeValue (chunkFeeAt broadcasterFee index)).toNat - chunk.total.toNat := by
      rw [BitVec.toNat_sub_of_le hle, hspend]
      omega
    have hfree : feeValue (chunkFeeAt broadcasterFee (index + 1)) = 0 := by
      rw [chunkFeeAt, if_neg (Nat.succ_ne_zero index), feeValue_none]
    obtain ⟨allocations, hrun⟩ := @ih next (index + 1)
      (owed - (chunk.total - feeValue (chunkFeeAt broadcasterFee index)))
      (U256.ne_zero_of_toNat_pos (by omega)) hnonzero
      (by rw [hfree]; exact (BitVec.pos_iff_ne_zero _).mpr hnext)
      (by rw [hfree, hleft]; exact hrest)
    exact ⟨_, Allocates.cons hpays (if_pos hle).symm
      (U256.ne_zero_of_toNat_pos (by omega)) hrun⟩

theorem settles_allocates_first {fee : BroadcasterFeeOutput}
    (hnonzero : ∀ other ∈ rest, other.total ≠ 0) (hamount : amount ≠ 0)
    (hsettles : Settles (amount.toNat + fee.amount.toNat) (chunk :: rest)) :
    (∃ allocations, Allocates (some fee) 0 amount (chunk :: rest) allocations 0) ↔
      fee.amount < chunk.total := by
  constructor
  · rintro ⟨allocations, hrun⟩
    cases hrun with
    | cons hpays _ _ _ => exact hpays
  · exact fun hpays => settles_allocates hamount hnonzero hpays hsettles

variable {token : Address} {continuation : Nat}

theorem splits_settles {baseOutputCount : Nat}
    {pool : List Utxo} {owed : U256} {chunks : List UtxoSelection} (howed : owed ≠ 0)
    (h : Splits token continuation baseOutputCount pool owed chunks) :
    Settles owed.toNat chunks := by
  refine ⟨?_, splits_covers h⟩
  induction h with
  | last _ _ =>
    exact BitVec.toNat_pos_of_ne_zero howed
  | @more baseOutputCount pool owed chunk rest _ hbelow hrest ih =>
    have hsub := BitVec.toNat_sub_of_le (BitVec.le_of_lt hbelow)
    rw [BitVec.lt_def] at hbelow
    rw [List.dropLast_cons_of_ne_nil (splits_ne_nil hrest), chunkSum_cons]
    have htail := ih (U256.ne_zero_of_toNat_pos (by omega))
    omega

theorem chunkSum_dropLast_lt {chunks : List UtxoSelection} (hne : chunks ≠ [])
    (hnonzero : ∀ chunk ∈ chunks, chunk.total ≠ 0) :
    chunkSum chunks.dropLast < chunkSum chunks := by
  have hlast : 0 < (chunks.getLast hne).total.toNat :=
    BitVec.toNat_pos_of_ne_zero (hnonzero _ (List.getLast_mem hne))
  have hsplit : chunkSum chunks = chunkSum chunks.dropLast + (chunks.getLast hne).total.toNat := by
    nth_rewrite 1 [← List.dropLast_append_getLast hne]
    rw [chunkSum_append, chunkSum_cons, chunkSum_nil, Nat.add_zero]
  omega

/-- A selection made for an amount and a fee can be allocated exactly when its
    first chunk is worth more than the fee. -/
theorem selected_allocates_iff {fee : BroadcasterFeeOutput} {first limit : Nat}
    (hsum : valueSum utxos < 2 ^ 256) (hamount : amount ≠ 0)
    (hfits : amount.toNat + fee.amount.toNat < 2 ^ 256)
    (h : Selected utxos token (amount + fee.amount) spendUpTo first continuation limit selection)
    (hchunks : selection.chunks = chunk :: rest) :
    (∃ allocations, spendAllocations selection amount fee.amount (some fee) spendUpTo
      = .ok allocations) ↔ fee.amount < chunk.total := by
  have hchain := selected_chain h
  have htarget : (amount + fee.amount).toNat = amount.toNat + fee.amount.toNat :=
    BitVec.toNat_add_of_lt hfits
  have hpositive : 0 < amount.toNat := BitVec.toNat_pos_of_ne_zero hamount
  have hnonzero : ∀ other ∈ selection.chunks, other.total ≠ 0 := by
    intro other hmem
    rcases chain_mem hchain hmem with ⟨outputs, hspend⟩
    exact hspend.total_ne_zero hsum
  have hrest := (List.forall_mem_cons.mp (hchunks ▸ hnonzero)).2
  have hhead : chunk.total.toNat ≤ chunkSum selection.chunks := by
    rw [hchunks, chunkSum_cons]
    omega
  cases h with
  | split htotal _ hsplits =>
    have hcovers := splits_covers hsplits
    rw [htarget, ← chain_total hchain hsum, ← htotal] at hcovers
    have hfee : fee.amount ≤ selection.total := by
      rw [BitVec.le_def]
      omega
    have henough : amount ≤ selection.total - fee.amount := by
      rw [BitVec.le_def, BitVec.toNat_sub_of_le hfee]
      omega
    have hsettles := splits_settles (U256.ne_zero_of_toNat_pos (by omega)) hsplits
    rw [htarget, hchunks] at hsettles
    rw [← settles_allocates_first hrest hamount hsettles]
    simp only [spendAllocations_eq_ok, U256.min_eq_right henough, hchunks, hfee, henough,
      implies_true, ne_eq, hamount, not_false_eq_true, true_and]
  | maximum hup hmax _ hlt =>
    rcases maxBatchSelection_draws hmax with ⟨hne, htotal, _, _⟩
    have hworth : selection.total.toNat = chunkSum selection.chunks := by
      rw [htotal]
      exact chain_total hchain hsum
    rw [BitVec.lt_def, htarget] at hlt
    -- Everything left after the fee is spent, so the batch settles its own
    -- total.
    have hmin : fee.amount ≤ selection.total →
        U256.min (selection.total - fee.amount) amount = selection.total - fee.amount := by
      intro hfee
      refine if_pos ?_
      rw [BitVec.le_def, BitVec.toNat_sub_of_le hfee]
      omega
    have hsettles : ∀ (hfee : fee.amount ≤ selection.total),
        Settles ((selection.total - fee.amount).toNat + fee.amount.toNat) (chunk :: rest) := by
      intro hfee
      rw [BitVec.toNat_sub_of_le hfee, ← hchunks]
      rw [BitVec.le_def] at hfee
      have hlast := chunkSum_dropLast_lt hne hnonzero
      exact ⟨by omega, by omega⟩
    simp only [spendAllocations_eq_ok]
    constructor
    · rintro ⟨allocations, hfee, _, hzero, hrun⟩
      rw [hmin hfee] at hzero hrun
      rw [hchunks] at hrun
      exact (settles_allocates_first hrest hzero (hsettles hfee)).mp ⟨allocations, hrun⟩
    · intro hpays
      rw [BitVec.lt_def] at hpays
      have hfee : fee.amount ≤ selection.total := by
        rw [BitVec.le_def]
        omega
      have hzero : selection.total - fee.amount ≠ 0 := by
        have hsub := BitVec.toNat_sub_of_le hfee
        exact U256.ne_zero_of_toNat_pos (by omega)
      rcases (settles_allocates_first hrest hzero (hsettles hfee)).mpr hpays with
        ⟨allocations, hrun⟩
      rw [hmin hfee, hchunks, hup]
      exact ⟨allocations, hfee, fun hdown => absurd hdown (by decide), hzero, hrun⟩

/-- The first chunk of a selection: the covering transaction or, when there is
    none, the chunk the amount is split off with. -/
theorem selectBatchedUtxosWithLimit_first {first limit : Nat} (hsum : valueSum utxos < 2 ^ 256)
    (h : selectBatchedUtxosWithLimit utxos token amount spendUpTo first continuation limit
      = .ok selection) :
    ∃ chunk rest, selection.chunks = chunk :: rest ∧
      (bestUnshieldSelection utxos token amount first = some chunk ∨
        (bestUnshieldSelection utxos token amount first = none ∧
          splitChunk utxos token amount first = some chunk)) := by
  rcases selectBatchedUtxosWithLimit_cases h with
    ⟨chunk, hbest, rfl⟩ | ⟨hbest, hgreedy | ⟨-, hmax, -, hbelow⟩⟩
  · exact ⟨chunk, [], rfl, Or.inl hbest⟩
  · cases limit with
    | zero => cases hgreedy
    | succ limit =>
      have hfirst : baseOutputCountAt first continuation 0 = first := rfl
      rw [greedyBatchedSelection, greedyLoop_succ, hfirst, hbest] at hgreedy
      cases hchunk : splitChunk utxos token amount first with
      | none =>
        rw [hchunk] at hgreedy
        cases hgreedy
      | some chunk =>
        rw [hchunk] at hgreedy
        rcases greedyLoop_splits hgreedy with ⟨rest, hrest, _⟩
        exact ⟨chunk, rest, hrest, Or.inr ⟨hbest, rfl⟩⟩
  · rcases maxBatchSelection_draws hmax with ⟨hne, htotal, _, hdraws⟩
    have hworth := chain_total hdraws.chain hsum
    rw [← htotal] at hworth
    rw [BitVec.lt_def] at hbelow
    cases hchunks : selection.chunks with
    | nil => exact absurd hchunks hne
    | cons chunk rest =>
      rw [hchunks, chunkSum_cons] at hworth
      rw [hchunks] at hdraws
      cases hdraws with
      | cons hlargest _ =>
        exact ⟨chunk, rest, rfl, Or.inr ⟨hbest, splitChunk_of_lt hlargest
          (by rw [BitVec.lt_def]; omega)⟩⟩

/-- The first transaction of the batch can pay the fee: one transaction covers
    the amount and the fee, or the chunk they are split off with is worth more
    than the fee. -/
def FeeFitsFirstTransaction (utxos : List Utxo) (token : Address) (amount fee : U256) : Prop :=
  (bestUnshieldSelection utxos token (amount + fee) 2).isSome = true ∨
    ∃ chunk, splitChunk utxos token (amount + fee) 2 = some chunk ∧ fee < chunk.total

theorem withMaxSpendable_eq_ok {α : Type} {maxSpendable : U256} {x : Except BuildError α} {a : α}
    (h : withMaxSpendable maxSpendable x = .ok a) : x = .ok a := by
  cases x with
  | ok b => exact h
  | error e =>
    cases e <;> cases h

theorem selectionInfoWithBroadcasterFee_selects {send : Bool} {feeAmount : U256}
    {info : UnshieldSelectionInfo}
    (h : selectionInfoWithBroadcasterFee send utxos token amount feeAmount spendUpTo
      = .ok info) :
    ∃ selection, selectBatchedUtxos utxos token (amount + feeAmount) spendUpTo 2 1
      = .ok selection := by
  rcases bind_eq_ok.mp h with ⟨selection, hselection, _⟩
  exact ⟨selection, withMaxSpendable_eq_ok hselection⟩

/-- When a preview with a same-token fee succeeds, the build can allocate the
    transfer exactly when the first transaction of the batch can pay the
    fee. -/
theorem feePreview_build_iff {R : Type} (utxos : List Utxo) (request : SpendRequest R)
    (fee : BroadcasterFeeOutput) (hfee : request.sameTokenBroadcasterFee = some fee)
    (hsum : valueSum utxos < 2 ^ 256) (hamount : request.amount ≠ 0)
    (hfits : request.amount.toNat + fee.amount.toNat < 2 ^ 256) (hpreview :
      (∃ info, unshieldSelectionInfoWithBroadcasterFee utxos request.tokenAddress
        request.amount fee.amount request.spendUpTo = .ok info) ∨
      (∃ info, sendSelectionInfoWithBroadcasterFee utxos request.tokenAddress
        request.amount fee.amount request.spendUpTo = .ok info)) :
    (∃ built, buildAllocations utxos request = .ok built) ↔
      FeeFitsFirstTransaction utxos request.tokenAddress request.amount fee.amount := by
  have hselect : ∃ selection, selectBatchedUtxos utxos request.tokenAddress
      (request.amount + fee.amount) request.spendUpTo 2 1 = .ok selection := by
    rcases hpreview with ⟨info, hinfo⟩ | ⟨info, hinfo⟩ <;>
      exact selectionInfoWithBroadcasterFee_selects hinfo
  rcases hselect with ⟨selection, hselection⟩
  have hselected := selectBatchedUtxosWithLimit_selected (by decide) hselection
  rcases selectBatchedUtxosWithLimit_first hsum hselection with ⟨chunk, rest, hchunks, hfirst⟩
  have hbuild : (∃ built, buildAllocations utxos request = .ok built) ↔
      fee.amount < chunk.total := by
    rw [← selected_allocates_iff hsum hamount hfits hselected hchunks]
    have htarget : request.targetAmount = request.amount + fee.amount := by
      simp [SpendRequest.targetAmount, SpendRequest.feeAmount, hfee, feeValue_some]
    have hbase : request.baseOutputCount = 2 := by
      simp [SpendRequest.baseOutputCount, hfee]
    simp [Prod.exists, buildAllocations_eq_ok, htarget, hbase, hfee, hselection, feeValue_some]
  rw [hbuild, FeeFitsFirstTransaction]
  rcases hfirst with hcovering | ⟨hnone, hsplit⟩
  · -- A covering transaction is worth more than the fee.
    have hcovers := (bestUnshieldSelection_spec hcovering).2.owed_le
    have hpositive : 0 < request.amount.toNat := BitVec.toNat_pos_of_ne_zero hamount
    rw [BitVec.le_def, BitVec.toNat_add_of_lt hfits] at hcovers
    refine iff_of_true ?_ (Or.inl (by rw [hcovering]; rfl))
    rw [BitVec.lt_def]
    omega
  · simp [hnone, hsplit]

/-- The build succeeds, so the first of its two transactions pays the fee. -/
theorem feePreview_build_iff_twoTreeRequest :
    (∃ built, buildAllocations twoTreeWallet twoTreeRequest = .ok built) ∧
      FeeFitsFirstTransaction twoTreeWallet twoTreeRequest.tokenAddress twoTreeRequest.amount
        oneFee.amount := by
  have hpreview : (unshieldSelectionInfoWithBroadcasterFee twoTreeWallet
      twoTreeRequest.tokenAddress twoTreeRequest.amount oneFee.amount
      twoTreeRequest.spendUpTo).toOption.isSome = true := by
    decide +kernel
  have hbuild : (buildAllocations twoTreeWallet twoTreeRequest).toOption.isSome = true := by
    decide +kernel
  rcases Option.isSome_iff_exists.mp hpreview with ⟨info, hinfo⟩
  rcases Option.isSome_iff_exists.mp hbuild with ⟨built, hbuilt⟩
  have hsome : ∃ built, buildAllocations twoTreeWallet twoTreeRequest = .ok built :=
    ⟨built, toOption_eq_some.mp hbuilt⟩
  exact ⟨hsome, (feePreview_build_iff twoTreeWallet twoTreeRequest oneFee (by decide) (by decide)
    (by decide) (by decide) (Or.inl ⟨info, toOption_eq_some.mp hinfo⟩)).mp hsome⟩

/-- A transfer of four and a fee of five, from the same two notes. -/
def unpayableFeeRequest : UnshieldRequest :=
  { twoTreeRequest with amount := 4, broadcasterFee := some { oneFee with amount := 5 } }

/-- The two notes hold the amount and the fee, and both previews say so, but
    neither note is worth more than the fee and the build refuses. -/
theorem feePreview_without_build :
    (twoTreeWallet.map SelectedInputIdentity.fromUtxo).Nodup ∧
    valueSum twoTreeWallet < 2 ^ 256 ∧
    (unshieldSelectionInfoWithBroadcasterFee twoTreeWallet 1 4 5 false).toOption.isSome = true ∧
    (sendSelectionInfoWithBroadcasterFee twoTreeWallet 1 4 5 false).toOption.isSome = true ∧
    buildAllocations twoTreeWallet unpayableFeeRequest = .error (.insufficientBalance 10) := by
  refine ⟨by decide, by decide, ?_, ?_, ?_⟩
  · decide +kernel
  · decide +kernel
  · decide +kernel

end Railgun
