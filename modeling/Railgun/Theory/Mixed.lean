import Railgun.Core.Mixed
import Railgun.Theory.Composite
import Railgun.Theory.Merkle
import Railgun.Theory.Preview
import Railgun.Theory.SearchTop

/-!
# The Preview of a Mixed Action

A preview is exact: what the build assembles from the same selections has the
inputs, the counts and the shapes the preview has promised. The two go over the
selections in different orders, so the inputs agree up to order and are
compared sorted.

The build goes on to check each transaction, to encrypt its output notes and to
prove its inputs. The checks never fail for a selected plan, since every chunk
is spendable and only the last chunk of a leg can have change. Encryption,
missing trees and the gas price are not up to the selection, and
`ExternalFailure` lists them with their cause. `Ends` carries both outcomes
through the loops: what has been assembled so far matches the transactions
planned so far, or the build has stopped for one of these causes.

## Main definitions

* `ExternalFailure`: The errors a selected plan can still run into.

## Theorems

* `sound_signature`: Every transaction of a leg fits the signature.
* `assembleSendChunk_ends`, `assembleUnshieldChunk_ends`: One transaction.
* `assembleMixedTransactions_ends`: All transactions.
* `mixedPreview_exact`: The preview is exact and a rebuilt plan is pinned.
-/

namespace Railgun

open TransactionPlanBuilder (validateSignatureLimit buildInputWitnesses buildUnproven)
open MixedPrivateActionRequest (selectionLegs spendUpToByLeg)
open SelectedInputIdentity (fromUtxo)

theorem toNat_chunkTotal_mod (chunks : List UtxoSelection) :
    (chunkTotal chunks).toNat = chunkSum chunks % 2 ^ 256 := by
  induction chunks with
  | nil => rfl
  | cons chunk chunks ih =>
    rw [chunkTotal_cons, BitVec.toNat_add, ih, chunkSum_cons, Nat.add_mod_mod]

variable {index : Nat}

/-- Every change is zero or what the chunks hold too much. -/
theorem allocates_excess {remaining left : U256} {chunks : List UtxoSelection}
    {allocations : List SpendAllocation}
    (h : Allocates none index remaining chunks allocations left) :
    ∃ excess : U256, chunkSum chunks + left.toNat = remaining.toNat + excess.toNat ∧
      ∀ allocation ∈ allocations, allocation.change = 0 ∨ allocation.change = excess := by
  induction h with
  | nil => exact ⟨0, Nat.add_comm _ _, List.forall_mem_nil _⟩
  | @cons index remaining left amount chunk chunks allocations _ hamount hnonzero hrest ih =>
    have hfee : feeValue (chunkFeeAt none index) = 0 := by
      rw [chunkFeeAt, ite_self, feeValue_none]
    rw [hfee, sub_zero] at hamount
    rw [hfee, sub_zero]
    by_cases hle : chunk.total ≤ remaining
    · -- All of the chunk is sent, and the rest is as before.
      rw [U256.min, if_pos hle] at hamount
      obtain ⟨excess, hsum, hchange⟩ := ih
      rw [hamount, BitVec.toNat_sub_of_le hle] at hsum
      rw [BitVec.le_def] at hle
      refine ⟨excess, by rw [chunkSum_cons]; omega, List.forall_mem_cons.mpr ⟨.inl ?_, hchange⟩⟩
      rw [hamount, sub_self]
    · -- The chunk has change, so nothing is left to send.
      rw [U256.min, if_neg hle] at hamount
      rw [hamount, sub_self] at hrest
      obtain rfl := allocates_zero hrest
      cases hrest
      have hge : remaining ≤ chunk.total := BitVec.le_of_lt (BitVec.not_le.mp hle)
      refine ⟨chunk.total - remaining, ?_, ?_⟩
      · rw [chunkSum_cons, chunkSum_nil, BitVec.toNat_sub_of_le hge]
        exact (Nat.add_sub_of_le hge).symm
      · rw [List.forall_mem_singleton, hamount]
        exact .inr rfl

theorem chunkSum_eq_take_add {chunks : List UtxoSelection} {chunk : UtxoSelection}
    (hget : chunks[index]? = some chunk) (hlast : index + 1 = chunks.length) :
    chunkSum chunks = chunkSum (chunks.take index) + chunk.total.toNat := by
  have htake : chunks = chunks.take index ++ [chunk] := by
    nth_rewrite 1 [← List.take_length (l := chunks)]
    rw [← hlast, List.take_add_one, hget]
    rfl
  nth_rewrite 1 [htake]
  rw [chunkSum_append, chunkSum_cons, chunkSum_nil, Nat.add_zero]

section Leg

variable {pool : List Utxo} {token : Address} {amount : U256} {spendUpTo : Bool} {limit : Nat}
  {selection : BatchUtxoSelection} {allocations : List SpendAllocation}

theorem amount_le_of_change (htotal : selection.total = chunkTotal selection.chunks)
    (h : spendAllocations selection amount 0 none spendUpTo = .ok allocations)
    {allocation : SpendAllocation} (hmem : allocation ∈ allocations)
    (hchange : allocation.change ≠ 0) :
    amount ≤ selection.total ∧
      chunkSum selection.chunks = amount.toNat + allocation.change.toNat := by
  rcases spendAllocations_eq_ok.mp h with ⟨_, _, _, hrun⟩
  rw [sub_zero] at hrun
  obtain ⟨excess, hsum, hall⟩ := allocates_excess hrun
  have hexcess : allocation.change = excess := (hall allocation hmem).resolve_left hchange
  have hz : (0 : U256).toNat = 0 := rfl
  rw [← hexcess, hz, Nat.add_zero] at hsum
  by_cases hle : amount ≤ selection.total
  · rw [U256.min_eq_right hle] at hsum
    exact ⟨hle, hsum⟩
  · -- Otherwise the whole total is sent, and there is no change up to wrapping.
    have hmin : U256.min selection.total amount = selection.total := by
      rw [U256.min, if_pos (BitVec.le_of_lt (BitVec.not_le.mp hle))]
    have hmod := toNat_chunkTotal_mod selection.chunks
    rw [← htotal, hsum, hmin, Nat.add_mod] at hmod
    have hself := selection.total.isLt
    have hlt := allocation.change.isLt
    have hpos : 0 < allocation.change.toNat := BitVec.toNat_pos_of_ne_zero hchange
    omega

/-- A planned chunk fits the signature with its change. -/
theorem sound_signature (hsound : SoundSelection pool token amount spendUpTo 1 1 limit selection)
    (h : spendAllocations selection amount 0 none spendUpTo = .ok allocations)
    {chunk : UtxoSelection} {allocation : SpendAllocation}
    (hmem : (chunk, allocation) ∈ selection.chunks.zip allocations) :
    2 + chunk.utxos.length + (1 + (if allocation.change = 0 then 0 else 1))
      ≤ maxSignatureInputs := by
  obtain ⟨index, hpair⟩ := List.mem_iff_getElem?.mp hmem
  obtain ⟨hchunk, hallocation⟩ := List.getElem?_zip_eq_some.mp hpair
  dsimp only at hchunk hallocation
  have hbase : baseOutputCountAt 1 1 index = 1 := by rw [baseOutputCountAt, ite_self]
  by_cases hchange : allocation.change = 0
  · have hfits := (hsound.spendable index chunk hchunk).signature
    rw [hbase] at hfits
    rw [if_pos hchange]
    exact hfits
  · have hexact : ExactAllocation selection amount none allocations := exactAllocation_of_ok h
    have hlast : index + 1 = selection.chunks.length := by
      have hindex := (List.getElem?_eq_some_iff.mp hallocation).1
      have hlength := hexact.length
      by_contra hne
      exact hchange (hexact.change index allocation hallocation (by omega))
    obtain ⟨hle, hsum⟩ := amount_le_of_change hsound.total h (List.mem_of_getElem? hallocation)
      hchange
    have hvalue := hexact.conserved index chunk allocation hchunk hallocation
    have hpos : 0 < allocation.change.toNat := BitVec.toNat_pos_of_ne_zero hchange
    rcases hsound.covers with ⟨_, howed⟩ | ⟨_, hbelow, _⟩
    · have hfits := (howed index chunk hchunk).2
      rw [chunkSum_eq_take_add hchunk hlast] at hsum
      have hless : owedBefore amount selection.chunks index < chunk.total.toNat := by
        rw [owedBefore]
        omega
      rw [if_pos hless, hbase] at hfits
      rw [if_neg hchange]
      exact hfits
    · exact absurd hle (BitVec.not_le.mpr hbelow)

end Leg

/-- A transaction of a selected plan: the token and the notes it spends, and
    the shape the preview gives it. -/
structure PlannedTransaction where
  token : Address
  inputs : List Utxo
  shape : TransactionShape

/-- The builder accepts the inputs of a transaction, with as many outputs as
    its shape says. -/
def PassesChecks (tx : PlannedTransaction) : Prop :=
  TransactionPlanBuilder.new tx.inputs tx.token
      = .ok { inputs := tx.inputs, tokenAddress := tx.token } ∧
    validateSignatureLimit
      { inputs := tx.inputs, tokenAddress := tx.token } tx.shape.outputCount = .ok ()

/-- The transaction of a chunk and its allocation. -/
def plannedChunk (token : Address) (hasUnshield : Bool) (chunk : UtxoSelection)
    (allocation : SpendAllocation) : PlannedTransaction where
  token := token
  inputs := chunk.utxos
  shape := {
    inputCount := chunk.utxos.length
    outputCount := 1 + (if allocation.change = 0 then 0 else 1)
    hasUnshield := hasUnshield }

/-- The transactions of a leg, one for each chunk and its allocation. -/
def legPlan (token : Address) (hasUnshield : Bool) (selection : BatchUtxoSelection)
    (allocations : List SpendAllocation) : List PlannedTransaction :=
  (selection.chunks.zip allocations).map fun pair =>
    plannedChunk token hasUnshield pair.1 pair.2

variable {token : Address}

theorem new_eq_ok {inputs : List Utxo} (hne : inputs ≠ [])
    (hlen : inputs.length ≤ maxCircuitInputs) (htree : ∃ tree, ∀ utxo ∈ inputs, utxo.tree = tree)
    (htoken : ∀ utxo ∈ inputs, utxo.note.tokenHash = tokenHash token) :
    TransactionPlanBuilder.new inputs token = .ok { inputs := inputs, tokenAddress := token } := by
  cases inputs with
  | nil => exact absurd rfl hne
  | cons first rest =>
    obtain ⟨tree, hsame⟩ := htree
    rw [TransactionPlanBuilder.new, if_neg (by omega), if_neg, if_neg] <;>
      simp only [List.any_eq_true, decide_eq_true_eq, ne_eq, not_exists, not_and, not_not]
    · exact htoken
    · exact fun utxo hmem => (hsame utxo hmem).trans (hsame first List.mem_cons_self).symm

variable {amount : U256} {spendUpTo : Bool}

section Assembly

variable {C : Type} (poseidon : U256 → U256 → U256) (env : OutputEnv C) (sender : AddressData)
  (request : MixedPrivateActionRequest) (forest : MerkleForest)

/-- The errors a selected plan can still run into, each with its cause: an
    output note cannot be encrypted, a spent note is not in the trees, or the
    gas price does not fit its field. -/
inductive ExternalFailure (utxos : List Utxo) : BuildError → Prop
  | encrypt {draw : Nat} {note : Note} {owner receiver : AddressData} {error : NoteError} :
      env.tryFromNote draw note owner receiver = .error error →
      ExternalFailure utxos (.encrypt error)
  | missingProof {utxo : Utxo} : utxo ∈ utxos →
      forest.prove poseidon utxo.tree utxo.position = none →
      ExternalFailure utxos (.missingProof utxo.tree utxo.position)
  | minGasPrice : maxUint72 < request.minGasPrice →
      ExternalFailure utxos (.minGasPriceTooLarge request.minGasPrice)

/-- What has been assembled has the inputs, the shapes and the counts of the
    transactions planned so far, and the proof cache is current. -/
structure Assembled (planned : List PlannedTransaction) (assembly : MixedAssembly) : Prop where
  forest_eq : assembly.cache.forest = forest
  current : DenseTreesCurrent poseidon assembly.cache
  inputs : assembly.unprovenPlans.map (fun plan => plan.inputs.map (·.utxo))
    = planned.map (·.inputs)
  transactions : assembly.transactions = planned.map (·.shape)
  outputs : assembly.privateOutputs.length + assembly.publicOutputs.length
    = (planned.map (·.shape.outputCount)).sum
  unshields : assembly.publicOutputs.length
    = ((planned.map (·.shape)).filter (·.hasUnshield)).length

theorem assembled_new : Assembled poseidon forest [] (MixedAssembly.new forest) :=
  ⟨rfl, new_denseTreesCurrent poseidon forest, rfl, rfl, rfl, rfl⟩

variable {poseidon env sender request forest} {utxos : List Utxo}

theorem EncryptFails.external {failure : BuildError} (h : EncryptFails env failure) :
    ExternalFailure poseidon env request forest utxos failure := by
  obtain ⟨draw, note, owner, receiver, error, hnote, rfl⟩ := h
  exact ExternalFailure.encrypt hnote

/-- The inputs are proved from the forest, or one of them is not in it. -/
theorem buildInputWitnesses_ends {inputs : List Utxo} {cache : InputWitnessProofCache}
    (hsub : inputs ⊆ utxos) (hforest : cache.forest = forest)
    (hcurrent : DenseTreesCurrent poseidon cache) :
    Ends (fun built => built.1.map (·.utxo) = inputs ∧ built.2.forest = forest ∧
        DenseTreesCurrent poseidon built.2)
      (ExternalFailure poseidon env request forest utxos)
      (buildInputWitnesses poseidon cache inputs) := by
  induction inputs generalizing cache with
  | nil => exact ⟨rfl, hforest, hcurrent⟩
  | cons utxo inputs ih =>
    obtain ⟨hhead, htail⟩ := List.cons_subset.mp hsub
    obtain ⟨hanswer, hkeeps, hnext⟩ :=
      cache_prove_spec poseidon hcurrent utxo.tree utxo.position
    rw [buildInputWitnesses]
    rw [hforest, forestAnswer] at hanswer
    generalize cache.prove poseidon utxo.tree utxo.position = proved at hanswer hkeeps hnext ⊢
    obtain ⟨answer, cache'⟩ := proved
    rw [hforest] at hkeeps
    cases hproof : forest.prove poseidon utxo.tree utxo.position with
    | none =>
      rw [hproof] at hanswer
      subst hanswer
      exact ExternalFailure.missingProof hhead hproof
    | some proof =>
      rw [hproof] at hanswer
      subst hanswer
      refine (ih htail hkeeps hnext).bind ?_
      rintro ⟨witnesses, cache''⟩ ⟨hmap, hbuilt⟩
      exact ⟨by rw [List.map_cons, hmap], hbuilt⟩

/-- A planned transaction is built, unless an external part fails. -/
theorem buildUnproven_ends {tx : PlannedTransaction} {outputs : List Note}
    {cache : InputWitnessProofCache} (hpasses : PassesChecks tx) (hsub : tx.inputs ⊆ utxos)
    (houtputs : outputs.length = tx.shape.outputCount) (hforest : cache.forest = forest)
    (hcurrent : DenseTreesCurrent poseidon cache) (hasUnshield : Bool) :
    Ends (fun built => built.1.inputs.map (·.utxo) = tx.inputs ∧ built.1.outputs = outputs ∧
        built.1.hasUnshield = hasUnshield ∧ built.2.forest = forest ∧
        DenseTreesCurrent poseidon built.2)
      (ExternalFailure poseidon env request forest utxos)
      (buildUnproven poseidon hasUnshield
        { inputs := tx.inputs, tokenAddress := tx.token } request.minGasPrice outputs cache) := by
  have hne : tx.inputs ≠ [] := fun hnil => by
    have hnew := hpasses.1
    rw [hnil, TransactionPlanBuilder.new] at hnew
    cases hnew
  rw [buildUnproven, houtputs, hpasses.2]
  have hroot : Ends (fun built => built.1.1.map (·.utxo) = tx.inputs ∧ built.2.forest = forest ∧
        DenseTreesCurrent poseidon built.2)
      (ExternalFailure poseidon env request forest utxos)
      (TransactionPlanBuilder.buildInputWitnessesAndRoot poseidon
        { inputs := tx.inputs, tokenAddress := tx.token } cache) := by
    refine (buildInputWitnesses_ends hsub hforest hcurrent).bind ?_
    rintro ⟨witnesses, cache'⟩ hbuilt
    cases witnesses with
    | nil => exact absurd hbuilt.1.symm hne
    | cons witness witnesses => exact hbuilt
  refine hroot.bind ?_
  rintro ⟨⟨inputs, root⟩, cache'⟩ ⟨hinputs, hforest', hcurrent'⟩
  rw [withMinGasPrice]
  split_ifs with hprice
  · exact ExternalFailure.minGasPrice hprice
  · exact ⟨hinputs, rfl, rfl, hforest', hcurrent'⟩

/-- One more transaction of the plan. -/
theorem Assembled.append {planned : List PlannedTransaction} {assembly : MixedAssembly}
    (h : Assembled poseidon forest planned assembly) {tx : PlannedTransaction}
    {plan : UnprovenTransactionPlan} {cache : InputWitnessProofCache}
    {privateOutputs : List MixedPrivatePlannedOutput}
    {publicOutputs : List MixedPublicPlannedOutput}
    (hforest : cache.forest = forest) (hcurrent : DenseTreesCurrent poseidon cache)
    (hinputs : plan.inputs.map (·.utxo) = tx.inputs)
    (hshape : { inputCount := tx.inputs.length
                outputCount := plan.outputs.length
                hasUnshield := plan.hasUnshield } = tx.shape)
    (houtputs : privateOutputs.length + publicOutputs.length = tx.shape.outputCount)
    (hunshields : publicOutputs.length = if tx.shape.hasUnshield then 1 else 0) :
    Assembled poseidon forest (planned ++ [tx])
      { cache := cache
        unprovenPlans := assembly.unprovenPlans ++ [plan]
        privateOutputs := assembly.privateOutputs ++ privateOutputs
        publicOutputs := assembly.publicOutputs ++ publicOutputs } := by
  refine ⟨hforest, hcurrent, ?_, ?_, ?_, ?_⟩
  · simp [h.inputs, hinputs]
  · have hbefore := h.transactions
    simp only [MixedAssembly.transactions, List.map_append, List.map_singleton] at hbefore ⊢
    rw [hbefore, ← hshape, ← hinputs, List.length_map]
  · have hbefore := h.outputs
    simp only [List.length_append, List.map_append, List.sum_append, List.map_singleton,
      List.sum_singleton]
    omega
  · rw [List.length_append, h.unshields, hunshields, List.map_append, List.filter_append,
      List.length_append, List.map_singleton, List.filter_singleton]
    cases tx.shape.hasUnshield <;> rfl

variable {planned : List PlannedTransaction} {assembly : MixedAssembly} {chunk : UtxoSelection}
  {allocation : SpendAllocation}

/-- A chunk of a send adds its transaction. -/
theorem assembleSendChunk_ends {send : MixedPrivateSend} (sendIndex : Nat)
    (hpasses : PassesChecks (plannedChunk send.tokenAddress false chunk allocation))
    (hsub : chunk.utxos ⊆ utxos) (h : Assembled poseidon forest planned assembly) :
    Ends (Assembled poseidon forest
        (planned ++ [plannedChunk send.tokenAddress false chunk allocation]))
      (ExternalFailure poseidon env request forest utxos)
      (assembleSendChunk poseidon env sender request sendIndex send assembly chunk
        allocation) := by
  have hnew : TransactionPlanBuilder.new chunk.utxos send.tokenAddress = .ok _ := hpasses.1
  rw [assembleSendChunk, hnew]
  refine ((buildSendOutputs_ends _ send.tokenAddress sender send.recipient
    { allocation with fee := none }).mono (fun _ hone => hone) fun _ => EncryptFails.external).bind
    fun created ⟨hnotes, hcount, hchange⟩ => ?_
  have hlength : created.outputs.length = _ := (congrArg List.length hnotes).trans hcount
  refine (buildUnproven_ends hpasses hsub hlength h.forest_eq h.current false).bind ?_
  rintro ⟨plan, cache⟩ ⟨hinputs, houtputs, hunshield, hforest, hcurrent⟩
  rw [← List.append_nil assembly.publicOutputs]
  refine h.append hforest hcurrent hinputs ?_ ?_ rfl
  · rw [houtputs, hlength, hunshield]
    rfl
  · rw [List.length_cons, Option.toList_map, List.length_map, hchange, List.length_nil,
      Nat.add_zero, Nat.add_comm]
    rfl

/-- So does a chunk of an unshield. -/
theorem assembleUnshieldChunk_ends {leg : CompositeUnshieldLeg} (account : Address)
    (unshieldIndex : Nat)
    (hpasses : PassesChecks (plannedChunk leg.tokenAddress true chunk allocation))
    (hsub : chunk.utxos ⊆ utxos) (h : Assembled poseidon forest planned assembly) :
    Ends (Assembled poseidon forest
        (planned ++ [plannedChunk leg.tokenAddress true chunk allocation]))
      (ExternalFailure poseidon env request forest utxos)
      (assembleUnshieldChunk poseidon env sender request account unshieldIndex leg assembly chunk
        allocation) := by
  have hnew : TransactionPlanBuilder.new chunk.utxos leg.tokenAddress = .ok _ := hpasses.1
  rw [assembleUnshieldChunk, hnew]
  refine ((buildUnshieldOutputs_ends _ leg.tokenAddress _ sender
    { allocation with fee := none }).mono (fun _ hone => hone) fun _ => EncryptFails.external).bind
    fun created ⟨hnotes, hcount, hchange⟩ => ?_
  have hlength : created.outputs.length = 1 + if allocation.change = 0 then 0 else 1 := by
    simp [hnotes, hcount, privateNoteCount, Nat.add_comm]
  refine (buildUnproven_ends hpasses hsub hlength h.forest_eq h.current true).bind ?_
  rintro ⟨plan, cache⟩ ⟨hinputs, houtputs, hunshield, hforest, hcurrent⟩
  refine h.append hforest hcurrent hinputs ?_ ?_ rfl
  · rw [houtputs, hlength, hunshield]
    rfl
  · rw [Option.toList_map, List.length_map, hchange, List.length_singleton, Nat.add_comm]
    rfl

theorem legChunks_ends {token : Address} {hasUnshield : Bool}
    {step : MixedAssembly → UtxoSelection → SpendAllocation → Except BuildError MixedAssembly}
    {selection : BatchUtxoSelection} {allocations : List SpendAllocation}
    (hpasses : ∀ tx ∈ legPlan token hasUnshield selection allocations, PassesChecks tx)
    (hsub : ∀ chunk ∈ selection.chunks, chunk.utxos ⊆ utxos)
    (hstep : ∀ {planned assembly chunk allocation},
      PassesChecks (plannedChunk token hasUnshield chunk allocation) → chunk.utxos ⊆ utxos →
      Assembled poseidon forest planned assembly →
      Ends (Assembled poseidon forest
          (planned ++ [plannedChunk token hasUnshield chunk allocation]))
        (ExternalFailure poseidon env request forest utxos) (step assembly chunk allocation))
    (h : Assembled poseidon forest planned assembly) :
    Ends (Assembled poseidon forest
        (planned ++ legPlan token hasUnshield selection allocations))
      (ExternalFailure poseidon env request forest utxos)
      ((selection.chunks.zip allocations).foldlM
        (fun assembly pair => step assembly pair.1 pair.2) assembly) := by
  have hparts : legPlan token hasUnshield selection allocations
      = ((selection.chunks.zip allocations).map fun pair =>
          [plannedChunk token hasUnshield pair.1 pair.2]).flatten := by
    rw [legPlan, List.map_eq_flatMap, List.flatMap_def]
  rw [hparts]
  refine ends_foldlM ?_ h
  rw [List.forall₂_map_right_iff, List.forall₂_same]
  rintro ⟨chunk, allocation⟩ hmem done s hs
  exact hstep (hpasses _ (List.mem_map_of_mem hmem)) (hsub chunk (List.of_mem_zip hmem).1) hs

/-- A leg's part of the plan: its selection can be allocated, and the
    allocation gives its transactions. -/
def LegPlanned (selections : List BatchUtxoSelection) (token : Address) (amount : U256)
    (spendUpTo hasUnshield : Bool) (index : Nat) (part : List PlannedTransaction) : Prop :=
  ∃ allocations,
    spendAllocations (selectionAt selections index) amount 0 none spendUpTo = .ok allocations ∧
    part = legPlan token hasUnshield (selectionAt selections index) allocations

/-- The transactions of a leg with a sound selection pass the checks. -/
theorem legPlanned_passes {selections : List BatchUtxoSelection} {hasUnshield : Bool}
    {part : List PlannedTransaction}
    (hsound : ∃ pool limit, SoundSelection pool token amount spendUpTo 1 1 limit
      (selectionAt selections index))
    (h : LegPlanned selections token amount spendUpTo hasUnshield index part) :
    ∀ tx ∈ part, PassesChecks tx := by
  obtain ⟨pool, limit, hsound⟩ := hsound
  obtain ⟨allocations, hallocations, rfl⟩ := h
  rw [legPlan, List.forall_mem_map]
  rintro ⟨chunk, allocation⟩ hpair
  obtain ⟨index, hchunk⟩ := List.mem_iff_getElem?.mp (List.of_mem_zip hpair).1
  have hspend := hsound.spendable index chunk hchunk
  have hcircuit := le_trans hspend.inputs (maxInputs_le_circuit _)
  refine ⟨new_eq_ok hspend.nonempty hcircuit hspend.oneTree hspend.token, ?_⟩
  rw [validateSignatureLimit, if_neg]
  exact Nat.not_lt.mpr (sound_signature hsound hallocations hpair)

/-- The parts of the sends and of the unshields. -/
structure MixedPlanned (request : MixedPrivateActionRequest)
    (selections : List BatchUtxoSelection) (sends unshields : List (List PlannedTransaction)) :
    Prop where
  sends_planned : List.Forall₂ (fun entry part => LegPlanned selections entry.1.tokenAddress
    entry.1.amount request.spendUpTo false (request.publicUnshields.length + entry.2) part)
    request.privateSends.zipIdx sends
  unshields_planned : List.Forall₂ (fun entry part => LegPlanned selections
    entry.1.tokenAddress entry.1.amount false true entry.2 part)
    request.publicUnshields.zipIdx unshields

/-- Every leg's selection is sound, and its notes are of the wallet. -/
structure MixedSound (utxos : List Utxo) (request : MixedPrivateActionRequest)
    (selections : List BatchUtxoSelection) : Prop where
  length : selections.length = request.publicUnshields.length + request.privateSends.length
  sends : ∀ entry ∈ request.privateSends.zipIdx, ∃ pool limit,
    SoundSelection pool entry.1.tokenAddress entry.1.amount request.spendUpTo 1 1 limit
      (selectionAt selections (request.publicUnshields.length + entry.2))
  unshields : ∀ entry ∈ request.publicUnshields.zipIdx, ∃ pool limit,
    SoundSelection pool entry.1.tokenAddress entry.1.amount false 1 1 limit
      (selectionAt selections entry.2)
  inputs : ∀ index, ∀ chunk ∈ (selectionAt selections index).chunks, chunk.utxos ⊆ utxos

/-- Every transaction of a sound plan passes the checks. -/
theorem mixedPlanned_passes {selections : List BatchUtxoSelection}
    {sends unshields : List (List PlannedTransaction)}
    (hsound : MixedSound utxos request selections)
    (hplanned : MixedPlanned request selections sends unshields) :
    ∀ tx ∈ sends.flatten ++ unshields.flatten, PassesChecks tx := by
  simp only [List.mem_append, List.mem_flatten]
  rintro tx (⟨part, hpart, htx⟩ | ⟨part, hpart, htx⟩)
  · obtain ⟨entry, hentry, hleg⟩ := forall₂_exists_left hplanned.sends_planned hpart
    exact legPlanned_passes (hsound.sends entry hentry) hleg tx htx
  · obtain ⟨entry, hentry, hleg⟩ := forall₂_exists_left hplanned.unshields_planned hpart
    exact legPlanned_passes (hsound.unshields entry hentry) hleg tx htx

/-- All planned transactions are assembled in order. -/
theorem assembleMixedTransactions_ends {selections : List BatchUtxoSelection}
    {sends unshields : List (List PlannedTransaction)} (account : Address)
    (hsound : MixedSound utxos request selections)
    (hplanned : MixedPlanned request selections sends unshields) :
    Ends (Assembled poseidon forest (sends.flatten ++ unshields.flatten))
      (ExternalFailure poseidon env request forest utxos)
      (assembleMixedTransactions poseidon env sender request account forest selections) := by
  have hpasses := mixedPlanned_passes hsound hplanned
  have hsends : Ends (Assembled poseidon forest ([] ++ sends.flatten))
      (ExternalFailure poseidon env request forest utxos)
      (request.privateSends.zipIdx.foldlM
        (assembleSend poseidon env sender request selections) (MixedAssembly.new forest)) := by
    refine ends_foldlM ?_ (assembled_new poseidon forest)
    refine forall₂_imp_mem hplanned.sends_planned ?_
    rintro ⟨send, sendIndex⟩ part _ hpart ⟨allocations, hallocations, rfl⟩ done assembly hdone
    rw [assembleSend, hallocations]
    refine legChunks_ends ?_ (hsound.inputs _) (assembleSendChunk_ends sendIndex) hdone
    exact fun tx htx => hpasses tx (List.mem_append_left _ (List.mem_flatten_of_mem hpart htx))
  refine hsends.bind fun assembly hassembled => ?_
  refine ends_foldlM ?_ hassembled
  refine forall₂_imp_mem hplanned.unshields_planned ?_
  rintro ⟨leg, unshieldIndex⟩ part _ hpart ⟨allocations, hallocations, rfl⟩ done assembly hdone
  rw [assembleUnshield, hallocations]
  refine legChunks_ends ?_ (hsound.inputs _) (assembleUnshieldChunk_ends account unshieldIndex)
    hdone
  exact fun tx htx => hpasses tx (List.mem_append_right _ (List.mem_flatten_of_mem hpart htx))

end Assembly

theorem sortIdentities_perm (identities : List SelectedInputIdentity) :
    (sortIdentities identities).Perm identities :=
  sortBy_perm _ identities

theorem sortIdentities_congr {l l' : List SelectedInputIdentity} (h : l.Perm l') :
    sortIdentities l = sortIdentities l' := by
  have hperm : (sortIdentities l).Perm (sortIdentities l') :=
    (sortIdentities_perm l).trans (h.trans (sortIdentities_perm l').symm)
  refine hperm.eq_of_pairwise ?_ (sortBy_pairwise _ l) (sortBy_pairwise _ l')
  rintro ⟨tree, position⟩ ⟨tree', position'⟩ - - hab hba
  have hkey := compare_eq_iff_eq.mp (Std.OrientedCmp.isLE_antisymm hab hba)
  simpa [SelectedInputIdentity.key] using hkey

variable {utxos : List Utxo}

theorem availableUtxo_mem {identity : SelectedInputIdentity} {utxo : Utxo}
    (h : availableUtxo utxos identity = some utxo) : utxo ∈ utxos :=
  List.mem_reverse.mp (List.mem_of_find?_eq_some h)

theorem resolvePinnedLoop_subset {pinnedInputs seen : List SelectedInputIdentity}
    {pinned : List Utxo} (h : resolvePinnedLoop utxos seen pinnedInputs = .ok pinned) :
    pinned ⊆ utxos := by
  induction pinnedInputs generalizing seen pinned with
  | nil =>
    rw [← Except.ok.inj h]
    exact List.nil_subset _
  | cons identity rest ih =>
    rw [resolvePinnedLoop, ite_error_eq_ok] at h
    replace h := h.2
    cases havailable : availableUtxo utxos identity with
    | none =>
      rw [havailable] at h
      cases h
    | some utxo =>
      rw [havailable] at h
      obtain ⟨others, hothers, hret⟩ := bind_eq_ok.mp h
      rw [← Except.ok.inj hret]
      exact List.cons_subset.mpr ⟨availableUtxo_mem havailable, ih hothers⟩

variable {request : MixedPrivateActionRequest}

theorem candidateUtxos_subset {candidates : List Utxo}
    (h : candidateUtxos utxos request = .ok candidates) : candidates ⊆ utxos := by
  rw [candidateUtxos] at h
  split at h
  · rw [← Except.ok.inj h]
    exact List.Subset.refl _
  · exact resolvePinnedLoop_subset h

variable {selections : List BatchUtxoSelection}

theorem mixedSelections_eq_ok (h : mixedSelections utxos request = .ok selections) :
    ∃ feeLeg, CompositeSound utxos request.selectionLegs none request.spendUpToByLeg 0 selections
      feeLeg := by
  obtain ⟨⟨found, feeLeg⟩, hfound, hret⟩ := bind_eq_ok.mp h
  rw [← Except.ok.inj hret]
  exact ⟨feeLeg, selectCompositeLegSelectionsWithPolicy_eq_ok (mapError_eq_ok.mp hfound)⟩

theorem selectionAt_eq (h : index < selections.length) :
    selections[index]? = some (selectionAt selections index) := by
  rw [selectionAt, List.getD_eq_getElem?_getD, List.getElem?_eq_getElem h, Option.getD_some]

theorem compositeSound_leg {feeLeg : Option Nat}
    (h : CompositeSound utxos request.selectionLegs none request.spendUpToByLeg 0 selections feeLeg)
    {leg : CompositeUnshieldLeg} (hleg : request.selectionLegs[index]? = some leg)
    (hspend : request.spendUpToByLeg[index]? = some spendUpTo) :
    ∃ pool limit, SoundSelection pool leg.tokenAddress leg.amount spendUpTo 1 1 limit
      (selectionAt selections index) := by
  have hlt : index < selections.length := by
    rw [h.length]
    exact (List.getElem?_eq_some_iff.mp hleg).1
  have hsound := h.sound index leg _ hleg (selectionAt_eq hlt)
  have hfee : legFee none feeLeg index = none := ite_self _
  rw [hfee, hspend, feeValue_none, add_zero] at hsound
  exact ⟨_, _, hsound⟩

theorem mixedSound_of_composite {candidates : List Utxo}
    {feeLeg : Option Nat} (hsub : candidates ⊆ utxos)
    (h : CompositeSound candidates request.selectionLegs none request.spendUpToByLeg 0 selections
      feeLeg) : MixedSound utxos request selections := by
  refine ⟨?_, ?_, ?_, ?_⟩
  · rw [h.length, selectionLegs, List.length_append, List.length_map]
  · rintro ⟨send, sendIndex⟩ hmem
    have hget := List.mem_zipIdx_iff_getElem?.mp hmem
    have hlt := (List.getElem?_eq_some_iff.mp hget).1
    have hleg : request.selectionLegs[request.publicUnshields.length + sendIndex]?
        = some { tokenAddress := send.tokenAddress, amount := send.amount,
                 recipient := .publicAccount 0, role := .other } := by
      simp [selectionLegs, List.getElem?_append, hget]
    refine compositeSound_leg h hleg ?_
    simp [spendUpToByLeg, List.getElem?_append, List.getElem?_replicate_of_lt hlt]
  · rintro ⟨leg, unshieldIndex⟩ hmem
    have hget := List.mem_zipIdx_iff_getElem?.mp hmem
    have hlt := (List.getElem?_eq_some_iff.mp hget).1
    refine compositeSound_leg h ((List.getElem?_append_left hlt).trans hget) ?_
    simp [spendUpToByLeg, List.getElem?_append, hlt]
  · intro index chunk hchunk utxo hutxo
    refine hsub (h.subperm.subset (List.mem_flatMap.mpr ⟨chunk, ?_, hutxo⟩))
    refine List.mem_flatMap.mpr ⟨selectionAt selections index, ?_, hchunk⟩
    by_cases hlt : index < selections.length
    · exact List.mem_of_getElem? (selectionAt_eq hlt)
    · rw [selectionAt, List.getD_eq_getElem?_getD, List.getElem?_eq_none (by omega)] at hchunk
      cases hchunk

theorem legTransactions_eq_ok {hasUnshield : Bool} {shapes : List TransactionShape}
    (token : Address)
    (h : legTransactions (selectionAt selections index) amount spendUpTo hasUnshield
      = .ok shapes) :
    ∃ part, LegPlanned selections token amount spendUpTo hasUnshield index part ∧
      shapes = part.map (·.shape) := by
  obtain ⟨allocations, hallocations, hret⟩ := bind_eq_ok.mp h
  refine ⟨_, ⟨allocations, hallocations, rfl⟩, ?_⟩
  rw [← Except.ok.inj hret, legPlan, List.map_map]
  rfl

theorem mixedTransactions_eq_ok {transactions : List TransactionShape}
    (h : mixedTransactions request selections = .ok transactions) :
    ∃ sends unshields, MixedPlanned request selections sends unshields ∧
      transactions = (sends.flatten ++ unshields.flatten).map (·.shape) := by
  obtain ⟨sendShapes, hsends, hrest⟩ := bind_eq_ok.mp h
  obtain ⟨unshieldShapes, hunshields, hret⟩ := bind_eq_ok.mp hrest
  obtain ⟨sends, hsendsPlanned, hsendShapes⟩ := forall₂_factor (mapM_eq_ok.mp hsends)
    fun entry _ hshapes => legTransactions_eq_ok entry.1.tokenAddress hshapes
  obtain ⟨unshields, hunshieldsPlanned, hunshieldShapes⟩ :=
    forall₂_factor (mapM_eq_ok.mp hunshields)
      fun entry _ hshapes => legTransactions_eq_ok entry.1.tokenAddress hshapes
  refine ⟨sends, unshields, ⟨hsendsPlanned, hunshieldsPlanned⟩, ?_⟩
  rw [← Except.ok.inj hret, hsendShapes, hunshieldShapes, List.map_append, List.map_flatten,
    List.map_flatten]

theorem selectMixedPrivateActionPlan_eq_ok {builder : TransactionBuilder}
    {plan : MixedPrivateActionSelectionPlan}
    (h : builder.selectMixedPrivateActionPlan utxos request = .ok plan) :
    ∃ candidates execution,
      candidateUtxos utxos request = .ok candidates ∧
      mixedSelections candidates request = .ok plan.selections ∧
      mixedTransactions request plan.selections = .ok plan.preview.transactions ∧
      plan.preview.selectedInputs = selectedInputsOf plan.selections ∧
      plan.preview.shape
        = mixedShape execution request plan.selections plan.preview.transactions ∧
      checkRebuild request plan.preview.selectedInputs plan.preview.shape = .ok () := by
  obtain ⟨_, _, h⟩ := bind_eq_ok.mp h
  obtain ⟨execution, _, h⟩ := bind_eq_ok.mp h
  obtain ⟨candidates, hcandidates, h⟩ := bind_eq_ok.mp h
  obtain ⟨selections, hselections, h⟩ := bind_eq_ok.mp h
  obtain ⟨transactions, htransactions, h⟩ := bind_eq_ok.mp h
  obtain ⟨_, hrebuild, hret⟩ := bind_eq_ok.mp h
  rw [← Except.ok.inj hret]
  exact ⟨candidates, execution, hcandidates, hselections, htransactions, rfl, rfl, hrebuild⟩

theorem legPlanned_inputs {hasUnshield : Bool} {part : List PlannedTransaction}
    (h : LegPlanned selections token amount spendUpTo hasUnshield index part) :
    part.map (·.inputs) = (selectionAt selections index).chunks.map (·.utxos) := by
  obtain ⟨allocations, hallocations, rfl⟩ := h
  have hexact : ExactAllocation _ amount none allocations := exactAllocation_of_ok hallocations
  have hlength := hexact.length
  have hchunks : ((selectionAt selections index).chunks.zip allocations).map Prod.fst
      = (selectionAt selections index).chunks := List.map_fst_zip (by omega)
  rw [legPlan, List.map_map]
  nth_rewrite 2 [← hchunks]
  rw [List.map_map]
  rfl

theorem parts_inputs {α : Type} {l : List α} (offset : Nat) {parts : List (List PlannedTransaction)}
    (h : List.Forall₂ (fun (entry : α × Nat) part =>
      part.map (·.inputs) = (selectionAt selections (offset + entry.2)).chunks.map (·.utxos))
      l.zipIdx parts) (hlength : offset + l.length ≤ selections.length) :
    parts.flatten.map (·.inputs)
      = (((selections.drop offset).take l.length).flatMap (·.chunks)).map (·.utxos) := by
  have hparts : l.zipIdx.map
        (fun entry => (selectionAt selections (offset + entry.2)).chunks.map (·.utxos))
      = parts.map fun part => part.map (·.inputs) :=
    map_eq_of_forall₂ (h.imp fun _ _ heq => heq.symm)
  have hselections : l.zipIdx.map
        (fun entry => (selectionAt selections (offset + entry.2)).chunks.map (·.utxos))
      = ((selections.drop offset).take l.length).map fun selection =>
          selection.chunks.map (·.utxos) := by
    refine List.ext_getElem? fun i => ?_
    rw [List.getElem?_map, List.getElem?_map, List.getElem?_zipIdx, List.getElem?_take,
      List.getElem?_drop]
    by_cases hi : i < l.length
    · rw [List.getElem?_eq_getElem hi, if_pos hi, selectionAt_eq (by omega)]
      simp only [Option.map_some, Nat.zero_add]
    · rw [List.getElem?_eq_none (by omega), if_neg hi]
      rfl
  rw [List.map_flatten, ← hparts, hselections, List.flatMap_def, List.map_flatten, List.map_map]
  rfl

/-- A plan spends the notes that were selected. -/
theorem mixedPlanned_inputs {sends unshields : List (List PlannedTransaction)}
    (hsound : MixedSound utxos request selections)
    (hplanned : MixedPlanned request selections sends unshields) :
    ((sends.flatten ++ unshields.flatten).map (·.inputs)).Perm
      ((selections.flatMap (·.chunks)).map (·.utxos)) := by
  have hlength := hsound.length
  have hsends := parts_inputs request.publicUnshields.length
    (hplanned.sends_planned.imp fun _ _ => legPlanned_inputs) (by omega)
  have hunshields := parts_inputs 0
    (hplanned.unshields_planned.imp fun entry _ hpart => by
      rw [Nat.zero_add]
      exact legPlanned_inputs hpart) (by omega)
  rw [List.take_of_length_le (by rw [List.length_drop]; omega)] at hsends
  rw [List.map_append, hsends, hunshields]
  nth_rewrite 3 [← List.take_append_drop request.publicUnshields.length selections]
  rw [List.flatMap_append, List.map_append]
  exact List.perm_append_comm

section Exact

variable {C : Type} {poseidon : U256 → U256 → U256} {forest : MerkleForest}
  {request : MixedPrivateActionRequest} {selections : List BatchUtxoSelection}
  {planned : List PlannedTransaction} {assembly : MixedAssembly}

theorem assembled_selectedInputs (h : Assembled poseidon forest planned assembly)
    (hperm : (planned.map (·.inputs)).Perm ((selections.flatMap (·.chunks)).map (·.utxos))) :
    assembly.selectedInputs = selectedInputsOf selections := by
  have hidentities : (assembly.unprovenPlans.flatMap fun plan =>
        plan.inputs.map fun input => fromUtxo input.utxo)
      = (planned.map (·.inputs)).flatten.map fromUtxo := by
    rw [← h.inputs, List.flatMap_def, List.map_flatten, List.map_map]
    simp only [Function.comp_def, List.map_map]
  rw [MixedAssembly.selectedInputs, hidentities, selectedInputsOf]
  exact sortIdentities_congr ((hperm.flatten).map _)

/-- What is assembled has the shape that was previewed. -/
theorem assembled_shape (h : Assembled poseidon forest planned assembly)
    (hperm : (planned.map (·.inputs)).Perm ((selections.flatMap (·.chunks)).map (·.utxos)))
    (execution : CompositeExecution) :
    assembly.shape execution request.relayCallCount request.usesRelayAdapt
      = mixedShape execution request selections (planned.map (·.shape)) := by
  have hcount := (congrArg List.length h.inputs).trans hperm.length_eq
  simp only [List.length_map, List.length_flatMap] at hcount
  rw [MixedAssembly.shape, mixedShape, hcount, assembled_selectedInputs h hperm, ← h.unshields,
    List.map_map, Function.comp_def, ← h.outputs, Nat.add_sub_cancel]

/-- A rebuild has the inputs and the shape it is held to. -/
theorem checkRebuild_eq_ok {selectedInputs : List SelectedInputIdentity}
    {shape : CompositePlanShape} {constraint : MixedPrivateActionRebuildConstraint}
    (hrebuild : request.rebuild = some constraint)
    (h : checkRebuild request selectedInputs shape = .ok ()) :
    selectedInputs = sortIdentities constraint.selectedInputs ∧
      shape = constraint.expectedShape := by
  rw [checkRebuild, hrebuild] at h
  rw [ite_error_eq_ok, ite_error_eq_ok] at h
  exact ⟨not_not.mp h.1, not_not.mp h.2.1⟩

/-- The preview of an accepted request is exact. Its transactions pass the
    checks of the builder; the build assembles them with the promised inputs,
    counts and shapes, unless encryption, a missing tree or the gas price stops
    it; and a request with a rebuild constraint spends exactly the pinned inputs
    in exactly the pinned shape. -/
theorem mixedPreview_exact (poseidon : U256 → U256 → U256) (env : OutputEnv C)
    (sender : AddressData) (builder : TransactionBuilder) (forest : MerkleForest)
    (utxos : List Utxo) (request : MixedPrivateActionRequest)
    (plan : MixedPrivateActionSelectionPlan)
    (h : builder.selectMixedPrivateActionPlan utxos request = .ok plan) :
    (∃ planned : List PlannedTransaction,
      plan.preview.transactions = planned.map (·.shape) ∧
      (planned.map (·.inputs)).Perm ((plan.selections.flatMap (·.chunks)).map (·.utxos)) ∧
      (∀ tx ∈ planned, PassesChecks tx) ∧
      Ends (fun built : MixedPrivateActionPreview × MixedAssembly =>
          built.1 = plan.preview ∧
          built.2.unprovenPlans.map (fun unproven => unproven.inputs.map (·.utxo))
            = planned.map (·.inputs) ∧
          built.2.selectedInputs = plan.preview.selectedInputs ∧
          built.2.shape plan.preview.shape.execution plan.preview.shape.relayCallCount
            plan.preview.shape.usesRelayAdapt = plan.preview.shape ∧
          built.2.transactions = plan.preview.transactions)
        (ExternalFailure poseidon env request forest utxos)
        (builder.buildMixedPrivateActionPlanInner poseidon env sender request forest utxos)) ∧
    ∀ constraint, request.rebuild = some constraint →
      (((plan.selections.flatMap (·.chunks)).flatMap (·.utxos)).map
        fromUtxo).Perm constraint.selectedInputs ∧
      plan.preview.selectedInputs = sortIdentities constraint.selectedInputs ∧
      plan.preview.shape = constraint.expectedShape := by
  obtain ⟨candidates, execution, hcandidates, hselections, htransactions, hinputs, hshape,
    hcheck⟩ := selectMixedPrivateActionPlan_eq_ok h
  obtain ⟨feeLeg, hcomposite⟩ := mixedSelections_eq_ok hselections
  have hsound := mixedSound_of_composite (candidateUtxos_subset hcandidates) hcomposite
  obtain ⟨sends, unshields, hplanned, hshapes⟩ := mixedTransactions_eq_ok htransactions
  have hperm := mixedPlanned_inputs hsound hplanned
  refine ⟨⟨_, hshapes, hperm, mixedPlanned_passes hsound hplanned, ?_⟩, ?_⟩
  · rw [TransactionBuilder.buildMixedPrivateActionPlanInner, h]
    refine (assembleMixedTransactions_ends _ hsound hplanned).bind fun assembly hassembled => ?_
    refine ⟨rfl, hassembled.inputs, ?_, ?_, hassembled.transactions.trans hshapes.symm⟩
    · rw [assembled_selectedInputs hassembled hperm, hinputs]
    · rw [hshape, hshapes]
      exact assembled_shape hassembled hperm execution
  · intro constraint hrebuild
    obtain ⟨hpinned, hpinnedShape⟩ := checkRebuild_eq_ok hrebuild hcheck
    refine ⟨?_, hpinned, hpinnedShape⟩
    rw [hinputs, selectedInputsOf] at hpinned
    have hsorted := (sortIdentities_perm (((plan.selections.flatMap (·.chunks)).flatMap
      (·.utxos)).map fromUtxo)).symm
    rw [hpinned] at hsorted
    exact hsorted.trans (sortIdentities_perm _)

/-- A send of three and an unshield of four of one token. -/
def sendAndUnshield : MixedPrivateActionRequest where
  adapter := none
  executorCalls := []
  privateSends := [{ tokenAddress := 1, amount := 3,
                     recipient := { masterPublicKey := 5, viewingPublicKey := 6 },
                     role := .primary }]
  publicUnshields := [payoutLeg 4]
  relayActions := none
  minGasPrice := 0
  spendUpTo := false
  rebuild := some {
    selectedInputs := [{ tree := 1, position := 4 }, { tree := 0, position := 3 }]
    expectedShape := {
      execution := .direct 9
      transactionCount := 2
      inputCount := 2
      privateOutputCount := 3
      publicOutputCount := 1
      relayCallCount := 0
      usesRelayAdapt := false } }

/-- A forest that holds the two notes. -/
def spentForest : MerkleForest := (MerkleForest.withLeaf {} 0 3 7).withLeaf 1 4 7

/-- A builder whose contract has address nine. -/
def nineBuilder : TransactionBuilder := { chainType := 0, chainId := 1, railgunContract := 9 }

/-- A rebuilt plan with two legs is accepted and pinned, and the build keeps what its
    preview has promised. -/
theorem mixedPreview_exact_sendAndUnshield :
    ∃ plan built, nineBuilder.selectMixedPrivateActionPlan twoTreeWallet sendAndUnshield
        = .ok plan ∧
      plan.preview.transactions.map (·.hasUnshield) = [false, true] ∧
      nineBuilder.buildMixedPrivateActionPlanInner (fun a b => a + 2 * b) plainOutputs
        oneFee.recipient sendAndUnshield spentForest twoTreeWallet = .ok built ∧
      built.1 = plan.preview ∧ built.2.transactions = plan.preview.transactions ∧
      (((plan.selections.flatMap (·.chunks)).flatMap (·.utxos)).map fromUtxo).Perm
        [{ tree := 1, position := 4 }, { tree := 0, position := 3 }] := by
  have hselect : ((nineBuilder.selectMixedPrivateActionPlan twoTreeWallet
      sendAndUnshield).toOption.map fun plan => plan.preview.transactions.map (·.hasUnshield))
      = some [false, true] := by
    decide +kernel
  have hbuild : (nineBuilder.buildMixedPrivateActionPlanInner (fun a b => a + 2 * b) plainOutputs
      oneFee.recipient sendAndUnshield spentForest twoTreeWallet).toOption.isSome = true := by
    decide +kernel
  rcases Option.map_eq_some_iff.mp hselect with ⟨plan, hplan, hshapes⟩
  rcases Option.isSome_iff_exists.mp hbuild with ⟨built, hbuilt⟩
  rw [toOption_eq_some] at hplan hbuilt
  obtain ⟨⟨planned, -, -, -, hends⟩, hpinned⟩ := mixedPreview_exact (fun a b => a + 2 * b)
    plainOutputs oneFee.recipient nineBuilder spentForest twoTreeWallet sendAndUnshield plan hplan
  rw [hbuilt] at hends
  obtain ⟨hpreview, -, -, -, htransactions⟩ := hends
  exact ⟨plan, built, hplan, hshapes, hbuilt, hpreview, htransactions, (hpinned _ rfl).1⟩

end Exact

end Railgun
