import Railgun.Core.Allocation
import Railgun.Lib.Fallible
import Railgun.Theory.Plan

/-!
# Allocations Conserve Value

What a successful allocation says about the chunks, whatever selection it was
run on. `Allocates` is the meaning of the loop: every chunk's total is sent,
kept or paid as fee, nothing is sent that was not asked for, and a chunk with
change takes all that was still to be sent, so no chunk can follow it.

## Main definitions

* `SpendAllocation.feePaid`: What an allocation pays as fee.

## Theorems

* `allocateLoop_eq_ok`: The loop succeeds exactly when there is such a run.
* `allocates_sum`: What is allocated and what is left make up the amount.
* `allocates_value`: Each chunk's total is accounted for.
* `allocates_change`: Only the last chunk has change.
* `batchShapeLoop_eq`: The preview counts what the run creates.
-/

namespace Railgun

/-- The fee that a chunk pays. The first pays all of it. -/
def chunkFeeAt (broadcasterFee : Option BroadcasterFeeOutput) (index : Nat) :
    Option BroadcasterFeeOutput :=
  if index = 0 then broadcasterFee else none

/-- A run of the allocation loop that succeeds, with what it leaves of the
    amount. -/
inductive Allocates (broadcasterFee : Option BroadcasterFeeOutput) :
    Nat → U256 → List UtxoSelection → List SpendAllocation → U256 → Prop
  | nil {index : Nat} {remaining : U256} : Allocates broadcasterFee index remaining [] [] remaining
  | cons {index : Nat} {remaining left amount : U256} {chunk : UtxoSelection}
      {chunks : List UtxoSelection} {allocations : List SpendAllocation} :
      feeValue (chunkFeeAt broadcasterFee index) < chunk.total →
      amount = U256.min (chunk.total - feeValue (chunkFeeAt broadcasterFee index)) remaining →
      amount ≠ 0 →
      Allocates broadcasterFee (index + 1) (remaining - amount) chunks allocations left →
      Allocates broadcasterFee index remaining (chunk :: chunks)
        ({ amount := amount
           change := chunk.total - feeValue (chunkFeeAt broadcasterFee index) - amount
           fee := chunkFeeAt broadcasterFee index } :: allocations) left

variable {broadcasterFee : Option BroadcasterFeeOutput}

variable {chunks : List UtxoSelection} {remaining left : U256} {index : Nat}
    {allocations : List SpendAllocation}

/-- The loop succeeds exactly when there is such a run. -/
theorem allocateLoop_eq_ok {selectionTotal : U256} :
    allocateLoop selectionTotal broadcasterFee index remaining chunks = .ok (allocations, left) ↔
      Allocates broadcasterFee index remaining chunks allocations left := by
  induction chunks generalizing index remaining left allocations with
  | nil =>
    constructor
    · rintro ⟨⟩
      exact Allocates.nil
    · rintro ⟨⟩
      rfl
  | cons chunk chunks ih =>
    rw [allocateLoop]
    rw [← chunkFeeAt, ite_error_eq_ok, ite_error_eq_ok, bind_eq_ok]
    constructor
    · rintro ⟨hfee, hamount, ⟨rest, rleft⟩, hrest, ⟨⟩⟩
      exact Allocates.cons (BitVec.not_le.mp hfee) rfl hamount (ih.mp hrest)
    · intro hrun
      cases hrun with
      | @cons _ _ _ amount _ _ allocations hfee hamount hnonzero hrest =>
        subst hamount
        exact ⟨BitVec.not_le.mpr hfee, hnonzero, (allocations, left), ih.mpr hrest, rfl⟩

theorem allocates_length (h : Allocates broadcasterFee index remaining chunks allocations left) :
    allocations.length = chunks.length := by
  induction h with
  | nil => rfl
  | cons _ _ _ _ ih => rw [List.length_cons, List.length_cons, ih]

/-- The allocations and what is left are what there was to allocate. -/
theorem allocates_sum (h : Allocates broadcasterFee index remaining chunks allocations left) :
    (allocations.map (·.amount.toNat)).sum + left.toNat = remaining.toNat := by
  induction h with
  | nil => simp only [List.map_nil, List.sum_nil, Nat.zero_add]
  | @cons index remaining left amount chunk chunks allocations _ hamount _ _ ih =>
    have hle : amount ≤ remaining := hamount ▸ U256.min_le_right _ _
    rw [BitVec.toNat_sub_of_le hle] at ih
    rw [BitVec.le_def] at hle
    simp only [List.map_cons, List.sum_cons]
    omega

/-- Each chunk is worth its amount, its change and its fee. -/
theorem allocates_value (h : Allocates broadcasterFee index remaining chunks allocations left) :
    ∀ i chunk allocation, chunks[i]? = some chunk → allocations[i]? = some allocation →
      chunk.total.toNat = allocation.amount.toNat + allocation.change.toNat
        + (feeValue allocation.fee).toNat ∧
      allocation.fee = chunkFeeAt broadcasterFee (index + i) ∧ allocation.amount ≠ 0 := by
  induction h with
  | nil =>
    intro i chunk allocation hget
    cases hget
  | @cons index remaining left amount head chunks allocations hfee hamount hnonzero _ ih =>
    intro i chunk allocation hchunk hallocation
    cases i with
    | zero =>
      rw [List.getElem?_cons_zero, Option.some.injEq] at hchunk hallocation
      rw [← hchunk, ← hallocation]
      refine ⟨?_, rfl, hnonzero⟩
      have hle : amount ≤ head.total - feeValue (chunkFeeAt broadcasterFee index) :=
        hamount ▸ U256.min_le_left _ _
      have hsub := BitVec.toNat_sub_of_le (BitVec.le_of_lt hfee)
      rw [BitVec.toNat_sub_of_le hle, hsub]
      rw [BitVec.le_def, hsub] at hle
      rw [BitVec.lt_def] at hfee
      dsimp only
      omega
    | succ i =>
      rw [show index + (i + 1) = index + 1 + i by omega]
      exact ih i chunk allocation hchunk hallocation

theorem allocates_zero
    (h : Allocates broadcasterFee index 0 chunks allocations left) : chunks = [] := by
  cases h with
  | nil => rfl
  | cons _ hamount hnonzero _ =>
    exact absurd (BitVec.le_zero_iff.mp (hamount ▸ U256.min_le_right _ _)) hnonzero

/-- Only the last allocation has change. -/
theorem allocates_change (h : Allocates broadcasterFee index remaining chunks allocations left) :
    ∀ i allocation, allocations[i]? = some allocation → i + 1 < allocations.length →
      allocation.change = 0 := by
  induction h with
  | nil =>
    intro i allocation hget
    cases hget
  | @cons index remaining left amount head chunks allocations hfee hamount hnonzero hrest ih =>
    intro i allocation hget hlen
    rw [List.length_cons] at hlen
    cases i with
    | zero =>
      rw [List.getElem?_cons_zero, Option.some.injEq] at hget
      rw [← hget]
      -- With change, the amount would be all that remained.
      by_cases hle : head.total - feeValue (chunkFeeAt broadcasterFee index) ≤ remaining
      · rw [U256.min, if_pos hle] at hamount
        rw [hamount, sub_self]
      · rw [U256.min, if_neg hle] at hamount
        rw [hamount, sub_self] at hrest
        have hlength := allocates_length hrest
        rw [allocates_zero hrest, List.length_nil] at hlength
        omega
    | succ i =>
      exact ih i allocation hget (by omega)

/-- The private notes an allocation needs. -/
def privateNoteCount (send : Bool) (allocation : SpendAllocation) : Nat :=
  (if send then 1 else 0) + (if allocation.fee.isSome then 1 else 0)
    + (if allocation.change = 0 then 0 else 1)

/-- The shape that is announced is that of the allocations. -/
theorem batchShapeLoop_eq
    (send : Bool) (h : Allocates broadcasterFee index remaining chunks allocations left) :
    batchShapeLoop (feeValue broadcasterFee) broadcasterFee.isSome send index remaining chunks
      = ((allocations.map (privateNoteCount send)).sum,
          (allocations.map (fun _ => if send then 0 else 1)).sum) := by
  induction h with
  | nil => rfl
  | @cons index remaining left amount head chunks allocations hfee hamount _ _ ih =>
    -- No subtraction of the preview saturates on a successful run.
    have hchunkFee : (if index = 0 then feeValue broadcasterFee else 0)
        = feeValue (chunkFeeAt broadcasterFee index) := by
      rw [chunkFeeAt]
      split_ifs <;> rfl
    have hfeeOutput : (if index = 0 ∧ broadcasterFee.isSome = true then 1 else 0)
        = if (chunkFeeAt broadcasterFee index).isSome then 1 else 0 := by
      rw [chunkFeeAt]
      by_cases hindex : index = 0
      · simp only [hindex, true_and, if_true]
      · simp [hindex]
    have hspend : amount ≤ head.total - feeValue (chunkFeeAt broadcasterFee index) :=
      hamount ▸ U256.min_le_left _ _
    have hremain : amount ≤ remaining := hamount ▸ U256.min_le_right _ _
    rw [batchShapeLoop]
    simp only [hchunkFee, hfeeOutput, U256.saturatingSub_of_le (BitVec.le_of_lt hfee),
      ← hamount, U256.saturatingSub_of_le hspend, U256.saturatingSub_of_le hremain, ih,
      List.map_cons, List.sum_cons, privateNoteCount]

section Notes

variable {C : Type}

/-- The notes of an unshield transaction that stay private. -/
def UnshieldOutputs.privateNotes (created : UnshieldOutputs C) : List Note :=
  created.broadcasterFeeNote.toList ++ created.changeNote.toList

/-- The notes of a send transaction, all of them private. -/
def SendOutputs.privateNotes (created : SendOutputs C) : List Note :=
  created.broadcasterFeeNote.toList ++ created.recipientNote :: created.changeNote.toList

/-- The one way in which the outputs can fail: a note cannot be encrypted. -/
def EncryptFails (env : OutputEnv C) (failure : BuildError) : Prop :=
  ∃ draw note owner receiver error, env.tryFromNote draw note owner receiver = .error error ∧
    failure = .encrypt error

variable {env : OutputEnv C}

theorem sealedNote_ends (draw : Nat) (token : Address) (value : U256)
    (owner receiver : AddressData) :
    Ends (fun _ => True) (EncryptFails env) (env.sealedNote draw token value owner receiver) := by
  have hencrypt : ∀ note, Ends (fun _ => True) (EncryptFails env)
      (env.encrypt draw note owner receiver) := by
    intro note
    rw [OutputEnv.encrypt]
    cases hnote : env.tryFromNote draw note owner receiver with
    | ok ciphertext => exact trivial
    | error error => exact ⟨draw, note, owner, receiver, error, hnote, rfl⟩
  exact (hencrypt _).bind fun _ _ => trivial

theorem broadcasterFeeOutput_ends (draw : Nat) (sender : AddressData)
    (fee : Option BroadcasterFeeOutput) :
    Ends (fun created => created.toList.length = if fee.isSome then 1 else 0) (EncryptFails env)
      (env.broadcasterFeeOutput draw sender fee) := by
  cases fee with
  | none => exact rfl
  | some fee => exact (sealedNote_ends draw _ _ sender fee.recipient).bind fun _ _ => rfl

theorem changeOutput_ends (draw : Nat) (token : Address) (change : U256) (owner : AddressData) :
    Ends (fun created => created.toList.length = if change = 0 then 0 else 1) (EncryptFails env)
      (env.changeOutput draw token change owner) := by
  rw [OutputEnv.changeOutput]
  split_ifs
  · exact rfl
  · exact (sealedNote_ends draw token change owner owner).bind fun _ _ => rfl

theorem buildUnshieldOutputs_ends (draw : Nat) (token account : Address) (owner : AddressData)
    (allocation : SpendAllocation) :
    Ends (fun created : UnshieldOutputs C =>
        created.outputs = created.privateNotes ++ [created.unshieldNote] ∧
        created.privateNotes.length = privateNoteCount false allocation ∧
        created.changeNote.toList.length = if allocation.change = 0 then 0 else 1)
      (EncryptFails env)
      (buildUnshieldOutputs env draw token allocation.amount account allocation.change owner
        allocation.fee) := by
  refine (broadcasterFeeOutput_ends draw owner allocation.fee).bind fun fee hfee => ?_
  refine (changeOutput_ends (draw + 2) token allocation.change owner).bind
    fun changed hchanged => ?_
  refine ⟨?_, ?_, ?_⟩
  · simp only [UnshieldOutputs.privateNotes, List.map_append, Option.toList_map]
  · simp only [UnshieldOutputs.privateNotes, List.length_append, Option.toList_map,
      List.length_map, hfee, hchanged, privateNoteCount, Bool.false_eq_true, if_false,
      Nat.zero_add]
  · rw [Option.toList_map, List.length_map, hchanged]

/-- A send has its notes and no other outputs. -/
theorem buildSendOutputs_ends (draw : Nat) (token : Address) (sender recipient : AddressData)
    (allocation : SpendAllocation) :
    Ends (fun created : SendOutputs C => created.outputs = created.privateNotes ∧
        created.privateNotes.length = privateNoteCount true allocation ∧
        created.changeNote.toList.length = if allocation.change = 0 then 0 else 1)
      (EncryptFails env)
      (buildSendOutputs env draw token allocation.amount allocation.change sender recipient
        allocation.fee) := by
  refine (broadcasterFeeOutput_ends draw sender allocation.fee).bind fun fee hfee => ?_
  refine (sealedNote_ends (draw + 1) token _ sender recipient).bind fun received _ => ?_
  refine (changeOutput_ends (draw + 2) token allocation.change sender).bind
    fun changed hchanged => ?_
  refine ⟨?_, ?_, ?_⟩
  · simp only [SendOutputs.privateNotes, List.map_append, List.map_cons, Option.toList_map]
  · simp only [SendOutputs.privateNotes, List.length_append, List.length_cons,
      Option.toList_map, List.length_map, hfee, hchanged, privateNoteCount, if_true]
    omega
  · rw [Option.toList_map, List.length_map, hchanged]

end Notes

end Railgun
