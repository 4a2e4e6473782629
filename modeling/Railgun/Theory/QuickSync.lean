import Mathlib.Logic.Relation
import Railgun.Core.QuickSync
import Railgun.Lib.Fallible
import Railgun.Lib.KeyedList

/-!
# Completeness of the Quick Synchronization

An honest indexer answers each request with the first commitments from a block
on. Then every page gives exactly the commitments of the blocks that it
completes, and the loop has inserted all commitments before its cursor, each of
them once. Where it stops, it has inserted everything up to the last requested
block, except at the limit on the number of commitments: there the blocks from
the cursor on are missing, but the last requested block is reported as reached.

The cursors are the blocks at which full pages end, so whether the limit is hit
can be read off the commitments without running the loop.

## Main definitions

* `highestBlock`, `pageAt`, `NextCursor`: The pages and the blocks at which they end.
* `HonestIndexer`: Requests are answered with the first commitments.
* `QuickSyncState.Records`: What the state says about the inserted commitments.
* `commitmentsBefore`, `requestedCommitments`, `StoppedAt`: What has been inserted when
  the loop stops.
* `QuickSyncComplete`, `BelowCommitmentLimit`, `QuickSyncState.Reported`: What is reported.

## Theorems

* `le_highestBlock`, `highestBlock_le_iff`, `highestBlock_eq`, `highestBlock_perm`: The
  highest block.
* `foldl_add_spec`, `processPage_spec`: What one page does.
* `mem_pageAt`, `filter_pageAt`, `cursors_le`: What the pages of an honest indexer have.
* `syncLoop_page`: One round of the loop.
* `page_step`: One page keeps the invariant.
* `stoppedAt_of_last`, `StoppedAt.of_next`: The loop stops where its last round does.
* `le_processThroughBlock_last`, `le_processThroughBlock_full`: What a page completes.
* `syncLoop_spec`: What the loop has inserted when it stops.
* `syncLoop_isSome`: The loop stops.
* `complete_iff_of_requested`, `complete_of_limit`, `not_complete_of_limit`: Where it is
  complete.
* `quickSync_complete_iff`: When the synchronization is complete.
* `quickSync_incomplete_crowded`: One that is not.
-/

namespace Railgun

open QuickSyncConfig (processPage syncLoop processThroughBlock)

attribute [local instance] lexOrd

theorem leaf_treePosition_lt (commitment : Commitment) :
    commitment.leaf.treePosition < treeLeafCount :=
  Nat.mod_lt _ (by decide)

/-- All commitments fit into their trees. -/
theorem insertCommitments_eq_ok (commitments : List Commitment) (forest : MerkleForest) :
    ∃ forest', commitments.foldlM
      (fun forest commitment => forest.insertLeaf commitment.leaf) forest = .ok forest' := by
  induction commitments generalizing forest with
  | nil => exact ⟨forest, rfl⟩
  | cons commitment commitments ih =>
    rw [List.foldlM_cons, forest_insertLeaf_eq_ok forest (leaf_treePosition_lt commitment)]
    exact ih _

/-- The highest block of some commitments, if it is above the given one. -/
def highestBlock (block : Nat) (commitments : List Commitment) : Nat :=
  commitments.foldl (fun highest commitment => max highest commitment.blockNumber) block

theorem le_highestBlock (commitments : List Commitment) (block : Nat) :
    block ≤ highestBlock block commitments := by
  induction commitments generalizing block with
  | nil => exact le_refl block
  | cons commitment commitments ih =>
    exact le_trans (Nat.le_max_left _ _) (ih (max block commitment.blockNumber))

variable {commitments : List Commitment}

theorem highestBlock_cons {block : Nat} {commitment : Commitment} :
    highestBlock block (commitment :: commitments) =
      highestBlock (max block commitment.blockNumber) commitments := rfl

theorem highestBlock_le_iff {block bound : Nat} :
    highestBlock block commitments ≤ bound ↔
      block ≤ bound ∧ ∀ commitment ∈ commitments, commitment.blockNumber ≤ bound := by
  induction commitments generalizing block with
  | nil => simp [highestBlock]
  | cons commitment commitments ih =>
    rw [highestBlock_cons, ih, Nat.max_le, List.forall_mem_cons, and_assoc]

theorem highestBlock_eq (commitments : List Commitment) (block : Nat) :
    highestBlock block commitments = block ∨
      ∃ commitment ∈ commitments, commitment.blockNumber = highestBlock block commitments := by
  induction commitments generalizing block with
  | nil => exact Or.inl rfl
  | cons commitment commitments ih =>
    rw [highestBlock_cons]
    rcases ih (max block commitment.blockNumber) with hsame | ⟨other, hmem, hblock⟩
    · rw [hsame]
      rcases Nat.le_total block commitment.blockNumber with hle | hle
      · exact Or.inr ⟨commitment, List.mem_cons_self, (Nat.max_eq_right hle).symm⟩
      · exact Or.inl (Nat.max_eq_left hle)
    · exact Or.inr ⟨other, List.mem_cons_of_mem _ hmem, hblock⟩

/-- What the batches hold after the commitments of a page: those up to the given
    block, if none of them has been seen before. -/
theorem foldl_add_spec (through : Nat) (hids : (commitments.map Commitment.id).Nodup) :
    ∀ batches : QuickSyncBatches,
      (∀ commitment ∈ commitments, commitment.id ∉ batches.commitmentIds) →
      let kept := commitments.filter fun commitment => commitment.blockNumber ≤ through
      let result := commitments.foldl (QuickSyncBatches.add through) batches
      (result.batchMap.toList.flatMap Prod.snd).Perm
          (batches.batchMap.toList.flatMap Prod.snd ++ kept) ∧
        (∀ id, id ∈ result.commitmentIds ↔
          id ∈ batches.commitmentIds ∨ id ∈ kept.map Commitment.id) ∧
        ∀ block, result.maxProcessedBlock.elim block (max block) =
          highestBlock (batches.maxProcessedBlock.elim block (max block)) kept := by
  induction commitments with
  | nil =>
    intro batches _
    refine ⟨?_, fun id => ?_, fun _ => rfl⟩
    · rw [List.filter_nil, List.append_nil]
      exact List.Perm.refl _
    · rw [List.filter_nil, List.map_nil, or_iff_left List.not_mem_nil]
      rfl
  | cons commitment commitments ih =>
    intro batches hfresh
    rw [List.map_cons, List.nodup_cons] at hids
    have hfreshTail : ∀ other ∈ commitments, other.id ∉ batches.commitmentIds :=
      fun other hmem => hfresh other (List.mem_cons_of_mem _ hmem)
    rw [List.foldl_cons, QuickSyncBatches.add]
    by_cases hthrough : through < commitment.blockNumber
    · rw [if_pos hthrough, List.filter_cons, if_neg (by rw [decide_eq_true_eq]; omega)]
      exact ih hids.2 batches hfreshTail
    · -- The commitment goes to its batch and becomes known.
      rw [if_neg hthrough, if_neg (hfresh commitment List.mem_cons_self), List.filter_cons,
        if_pos (decide_eq_true (Nat.le_of_not_lt hthrough))]
      obtain ⟨hperm, hknown, hmax⟩ := ih hids.2
        { maxProcessedBlock := some (max
            (batches.maxProcessedBlock.getD commitment.blockNumber) commitment.blockNumber),
          commitmentIds := commitment.id :: batches.commitmentIds,
          batchMap := batches.batchMap.insert
            (commitment.treeNumber, commitment.batchStartTreePosition)
            (batches.batchMap[(commitment.treeNumber,
              commitment.batchStartTreePosition)]?.getD [] ++ [commitment]) }
        (fun other hmem hknown => by
          rcases List.mem_cons.mp hknown with heq | hold
          · exact hids.1 (List.mem_map.mpr ⟨other, hmem, heq⟩)
          · exact hfreshTail other hmem hold)
      refine ⟨hperm.trans ?_, ?_, ?_⟩
      · refine ((flatMap_insert_group _ _ _).append_right _).trans ?_
        rw [List.append_assoc, List.singleton_append]
      · intro id
        rw [hknown, List.mem_cons, List.map_cons, List.mem_cons, or_assoc, or_left_comm]
      · intro block
        rw [hmax, highestBlock_cons]
        cases batches.maxProcessedBlock with
        | none => simp
        | some highest =>
          simp only [Option.getD_some, Option.elim_some, Nat.max_assoc]

/-- What the state says about the commitments that have been inserted. -/
structure QuickSyncState.Records (state : QuickSyncState) (forest : MerkleForest)
    (startBlock : Nat) (inserted : List Commitment) : Prop where
  forest_eq : inserted.foldlM (fun forest commitment => forest.insertLeaf commitment.leaf)
    forest = .ok state.forest
  total_eq : state.totalCommitments = inserted.length
  mem_ids : ∀ id, id ∈ state.commitmentIds ↔ id ∈ inserted.map Commitment.id
  latest_eq : state.latestBlock = highestBlock startBlock inserted

theorem highestBlock_append (block : Nat) (first second : List Commitment) :
    highestBlock block (first ++ second) = highestBlock (highestBlock block first) second :=
  List.foldl_append

theorem highestBlock_perm {block : Nat} {first second : List Commitment}
    (h : first.Perm second) : highestBlock block first = highestBlock block second := by
  refine le_antisymm (highestBlock_le_iff.mpr ?_) (highestBlock_le_iff.mpr ?_)
  · obtain ⟨hblock, hall⟩ := highestBlock_le_iff.mp (le_refl (highestBlock block second))
    exact ⟨hblock, fun c hc => hall c (h.mem_iff.mp hc)⟩
  · obtain ⟨hblock, hall⟩ := highestBlock_le_iff.mp (le_refl (highestBlock block first))
    exact ⟨hblock, fun c hc => hall c (h.mem_iff.mpr hc)⟩

/-- A page inserts those of its commitments that are up to the given block. -/
theorem processPage_spec {state state' : QuickSyncState} {forest : MerkleForest} {startBlock : Nat}
    {inserted : List Commitment} (hstate : state.Records forest startBlock inserted)
    (hids : (commitments.map Commitment.id).Nodup)
    (hfresh : ∀ commitment ∈ commitments, commitment.id ∉ state.commitmentIds) {through : Nat}
    (hprocess : processPage state through commitments = .ok state') :
    ∃ added, added.Perm (commitments.filter fun commitment => commitment.blockNumber ≤ through) ∧
      state'.Records forest startBlock (inserted ++ added) := by
  obtain ⟨hperm, hknown, hmax⟩ := foldl_add_spec through hids
    { maxProcessedBlock := none, commitmentIds := state.commitmentIds, batchMap := ∅ } hfresh
  obtain ⟨forest', hforest, hstate'⟩ := bind_eq_ok.mp hprocess
  cases hstate'
  refine ⟨_, hperm, ?_, ?_, ?_, ?_⟩
  · rw [List.foldlM_append, hstate.forest_eq]
    exact hforest
  · rw [List.length_append, ← hstate.total_eq]
  · intro id
    rw [hknown, hstate.mem_ids, List.map_append, List.mem_append, (hperm.map _).mem_iff]
    rfl
  · rw [hmax, hstate.latest_eq, highestBlock_append, highestBlock_perm hperm]
    rfl

/-- The first commitments from a block on. -/
def pageAt (commitments : List Commitment) (pageSize cursor : Nat) : List Commitment :=
  (commitments.filter fun commitment => cursor ≤ commitment.blockNumber).take pageSize

/-- An indexer of some commitments, in the order of their blocks and positions,
    that answers a request with the first ones from a block on, if it answers. -/
structure HonestIndexer (commitments : List Commitment) (pageSize : Nat)
    (post : Nat → Nat → Except SyncError (List Commitment)) : Prop where
  sorted : commitments.Pairwise fun a b => a.blockNumber < b.blockNumber ∨
    (a.blockNumber = b.blockNumber ∧ a.treePosition ≤ b.treePosition)
  ids_distinct : (commitments.map Commitment.id).Nodup
  answers : ∀ cursor page, fetchList post cursor pageSize = .ok page →
    page = pageAt commitments pageSize cursor

section Pages

variable {commitments : List Commitment} {pageSize cursor : Nat}
  {post : Nat → Nat → Except SyncError (List Commitment)}

theorem mem_pageAt {commitment : Commitment} (h : commitment ∈ pageAt commitments pageSize cursor) :
    commitment ∈ commitments ∧ cursor ≤ commitment.blockNumber := by
  have hmem := List.mem_filter.mp (List.mem_of_mem_take h)
  exact ⟨hmem.1, of_decide_eq_true hmem.2⟩

theorem pageAt_ids_distinct (honest : HonestIndexer commitments pageSize post) :
    ((pageAt commitments pageSize cursor).map Commitment.id).Nodup :=
  (((List.take_sublist _ _).trans List.filter_sublist).map _).nodup honest.ids_distinct

/-- A page has all commitments from its blocks up to one that it completes: up
    to any block if it is not full, and before its highest block otherwise. -/
theorem filter_pageAt (honest : HonestIndexer commitments pageSize post) {through : Nat}
    (hthrough : (pageAt commitments pageSize cursor).length < pageSize ∨
      through < highestBlock cursor (pageAt commitments pageSize cursor)) :
    ((pageAt commitments pageSize cursor).filter fun commitment =>
        commitment.blockNumber ≤ through) =
      commitments.filter fun commitment =>
        cursor ≤ commitment.blockNumber ∧ commitment.blockNumber ≤ through := by
  have hall : (commitments.filter fun commitment =>
        cursor ≤ commitment.blockNumber ∧ commitment.blockNumber ≤ through) =
      (commitments.filter fun commitment =>
        cursor ≤ commitment.blockNumber).filter fun commitment =>
          commitment.blockNumber ≤ through := by
    rw [List.filter_filter]
    refine List.filter_congr fun commitment _ => ?_
    rw [Bool.decide_and, Bool.and_comm]
  rw [hall, pageAt]
  rw [pageAt] at hthrough
  have hsorted := honest.sorted.filter fun commitment =>
    cursor ≤ commitment.blockNumber
  have hfrom : ∀ commitment ∈ commitments.filter fun commitment =>
      decide (cursor ≤ commitment.blockNumber), cursor ≤ commitment.blockNumber :=
    fun commitment hmem => of_decide_eq_true (List.mem_filter.mp hmem).2
  generalize commitments.filter (fun commitment => cursor ≤ commitment.blockNumber) =
    available at hsorted hthrough hfrom
  rw [← List.take_append_drop pageSize available] at hsorted
  have hrest : ((available.drop pageSize).filter fun commitment =>
      commitment.blockNumber ≤ through) = [] := by
    rcases hthrough with hshort | hbelow
    · rw [List.length_take] at hshort
      rw [List.drop_eq_nil_of_le (by omega), List.filter_nil]
    · -- What is not in the page is not below its highest block.
      refine List.filter_eq_nil_iff.mpr fun commitment hmem hle => ?_
      have hhighest : highestBlock cursor (available.take pageSize) ≤ commitment.blockNumber := by
        refine highestBlock_le_iff.mpr ⟨hfrom _ (List.mem_of_mem_drop hmem), fun other hother => ?_⟩
        have := (List.pairwise_append.mp hsorted).2.2 other hother commitment hmem
        omega
      have := of_decide_eq_true hle
      omega
  conv => rhs; rw [← List.take_append_drop pageSize available]
  rw [List.filter_append, hrest, List.append_nil]

/-- From the start of a full page to its highest block, where the next page
    starts. -/
def NextCursor (commitments : List Commitment) (pageSize cursor next : Nat) : Prop :=
  (pageAt commitments pageSize cursor).length = pageSize ∧
    next = highestBlock cursor (pageAt commitments pageSize cursor)

theorem cursors_le {cursor last : Nat}
    (h : Relation.ReflTransGen (NextCursor commitments pageSize) cursor last) :
    cursor ≤ last := by
  induction h with
  | refl => exact le_refl cursor
  | tail _ hnext ih =>
    rw [hnext.2]
    exact le_trans ih (le_highestBlock _ _)

end Pages

section Round

variable {config : QuickSyncConfig} {post : Nat → Nat → Except SyncError (List Commitment)}
  {cursor : Nat} {page : List Commitment}

/-- A block is not beyond the last requested one. -/
abbrev QuickSyncConfig.Within (config : QuickSyncConfig) (block : Nat) : Prop :=
  ∀ endBlock ∈ config.endBlock, block ≤ endBlock

theorem any_endBlock_iff {block : Nat} :
    (config.endBlock.any fun endBlock => endBlock < block) = true ↔ ¬ config.Within block := by
  rw [QuickSyncConfig.Within]
  cases config.endBlock <;> simp

theorem syncLoop_error {error : SyncError}
    (hfetch : fetchList post cursor config.pageSize = .error error) (fuel : Nat)
    (state : QuickSyncState) :
    config.syncLoop post (fuel + 1) cursor state = some (.error error) := by
  rw [syncLoop, hfetch]

theorem processPage_eq_ok (state : QuickSyncState) (through : Nat) (page : List Commitment) :
    ∃ state', processPage state through page = .ok state' := by
  obtain ⟨forest', hforest⟩ := insertCommitments_eq_ok _ state.forest
  exact ⟨_, bind_eq_ok.mpr ⟨forest', hforest, rfl⟩⟩

/-- What the loop does with a page: it fails if the page has only one block and may not
    have all of it, it ends after a page that is not full, and after a full page it goes
    on with the highest block, unless that is beyond the end or the limit is reached. -/
theorem syncLoop_page (hfetch : fetchList post cursor config.pageSize = .ok page) (fuel : Nat)
    (state : QuickSyncState) :
    let highest := highestBlock cursor page
    (highest = cursor ∧ ∃ error,
      config.syncLoop post (fuel + 1) cursor state = some (.error error)) ∨
    (page.length < config.pageSize ∧ ∃ state',
      processPage state (config.processThroughBlock false highest) page = .ok state' ∧
      config.syncLoop post (fuel + 1) cursor state = some (.ok state')) ∨
    (config.pageSize ≤ page.length ∧ cursor < highest ∧ ∃ state',
      processPage state (config.processThroughBlock true highest) page = .ok state' ∧
      config.syncLoop post (fuel + 1) cursor state =
        if ¬ config.Within highest ∨ maxCommitments ≤ state'.totalCommitments then some (.ok state')
        else config.syncLoop post fuel highest state') := by
  intro highest
  have hpos := config.pageSize_pos
  rw [syncLoop, hfetch]
  dsimp only
  rw [← highestBlock]
  obtain _ | ⟨first, rest⟩ := page
  · -- An empty page is one that is not full, and changes nothing.
    exact .inr (.inl ⟨hpos, state, rfl, rfl⟩)
  rw [if_neg (by simp)]
  by_cases hfull : config.pageSize ≤ (first :: rest).length
  · obtain ⟨state', hprocess⟩ := processPage_eq_ok state
      (config.processThroughBlock true highest) (first :: rest)
    by_cases hstuck : highest = cursor
    · rw [decide_eq_true hfull, if_pos ⟨rfl, hstuck⟩]
      exact .inl ⟨hstuck, _, rfl⟩
    · rw [decide_eq_true hfull, if_neg fun h => hstuck h.2, hprocess]
      refine .inr (.inr ⟨hfull, Nat.lt_of_le_of_ne (le_highestBlock _ _) (Ne.symm hstuck), state',
        rfl, ?_⟩)
      dsimp only
      rw [Bool.not_true, if_neg Bool.false_ne_true]
      simp only [any_endBlock_iff, ite_or]
      rfl
  · obtain ⟨state', hprocess⟩ := processPage_eq_ok state
      (config.processThroughBlock false highest) (first :: rest)
    rw [decide_eq_false hfull, if_neg fun h => Bool.false_ne_true h.1, hprocess]
    exact .inr (.inl ⟨Nat.lt_of_not_le hfull, state', rfl, rfl⟩)

end Round

/-- The commitments from the start block on that are before a block. -/
def commitmentsBefore (commitments : List Commitment) (startBlock block : Nat) : List Commitment :=
  commitments.filter fun commitment =>
    startBlock ≤ commitment.blockNumber ∧ commitment.blockNumber < block

/-- The commitments of the requested blocks. -/
def requestedCommitments (commitments : List Commitment) (config : QuickSyncConfig) :
    List Commitment :=
  commitments.filter fun commitment =>
    config.startBlock ≤ commitment.blockNumber ∧ config.Within commitment.blockNumber

section Loop

variable {commitments : List Commitment} {config : QuickSyncConfig}
  {post : Nat → Nat → Except SyncError (List Commitment)} {forest : MerkleForest}

variable {cursor : Nat} {inserted : List Commitment}

/-- One page adds what it completes to what has been inserted before its cursor. -/
theorem page_step (honest : HonestIndexer commitments config.pageSize post)
    (hcursor : config.startBlock ≤ cursor) {state : QuickSyncState}
    (hstate : state.Records forest config.startBlock inserted)
    (hinserted : inserted.Perm (commitmentsBefore commitments config.startBlock cursor))
    {through : Nat} {state' : QuickSyncState}
    (hprocess : processPage state through (pageAt commitments config.pageSize cursor) = .ok state')
    (hthrough : (pageAt commitments config.pageSize cursor).length < config.pageSize ∨
      through < highestBlock cursor (pageAt commitments config.pageSize cursor)) :
    ∃ inserted', state'.Records forest config.startBlock inserted' ∧
      inserted'.Perm (commitments.filter fun commitment =>
        config.startBlock ≤ commitment.blockNumber ∧
          (commitment.blockNumber < cursor ∨ commitment.blockNumber ≤ through)) := by
  have hfresh : ∀ commitment ∈ pageAt commitments config.pageSize cursor,
      commitment.id ∉ state.commitmentIds := by
    intro commitment hmem hknown
    obtain ⟨hcommitment, hfrom⟩ := mem_pageAt hmem
    obtain ⟨other, hother, hid⟩ := List.mem_map.mp ((hstate.mem_ids _).mp hknown)
    rw [hinserted.mem_iff, commitmentsBefore, List.mem_filter, decide_eq_true_eq] at hother
    -- Identifiers are distinct, so a known one would be of an earlier block.
    have hsame := List.inj_on_of_nodup_map honest.ids_distinct hother.1 hcommitment hid
    rw [hsame] at hother
    omega
  obtain ⟨added, hadded, hrecords⟩ :=
    processPage_spec hstate (pageAt_ids_distinct honest) hfresh hprocess
  rw [filter_pageAt honest hthrough] at hadded
  refine ⟨inserted ++ added, hrecords, (hinserted.append hadded).trans ?_⟩
  refine filter_append_filter_perm (fun commitment => ?_) (fun commitment hbefore => ?_)
  · rw [← Bool.decide_or]
    exact decide_eq_decide.mpr (by omega)
  · rw [decide_eq_true_eq] at hbefore
    exact decide_eq_false (by omega)

/-- How the loop can stop: with all requested commitments, or at the limit. -/
def StoppedAt (commitments : List Commitment) (config : QuickSyncConfig) (cursor : Nat)
    (inserted : List Commitment) : Prop :=
  (inserted.Perm (requestedCommitments commitments config) ∧
    ∀ endBlock ∈ config.endBlock, ∀ block,
      Relation.ReflTransGen (NextCursor commitments config.pageSize) cursor block →
      block ≤ endBlock →
      (commitmentsBefore commitments config.startBlock block).length < maxCommitments) ∨
  ∃ next, Relation.ReflTransGen (NextCursor commitments config.pageSize) cursor next ∧
    config.startBlock < next ∧ (∀ endBlock ∈ config.endBlock, next ≤ endBlock) ∧
    (∃ commitment ∈ commitments, commitment.blockNumber = next) ∧
    inserted.Perm (commitmentsBefore commitments config.startBlock next) ∧
    maxCommitments ≤ inserted.length

/-- The loop stops at a page after which there is none within the requested blocks. -/
theorem stoppedAt_of_last (hinserted : inserted.Perm (requestedCommitments commitments config))
    (hlimit : (commitmentsBefore commitments config.startBlock cursor).length < maxCommitments)
    (hlast : ∀ endBlock ∈ config.endBlock, ∀ next,
      NextCursor commitments config.pageSize cursor next → endBlock < next) :
    StoppedAt commitments config cursor inserted := by
  refine Or.inl ⟨hinserted, fun endBlock hend block hcursors hle => ?_⟩
  rcases Relation.ReflTransGen.cases_head hcursors with rfl | ⟨next, hnext, hrest⟩
  · exact hlimit
  · have hbeyond := hlast endBlock hend next hnext
    have := cursors_le hrest
    omega

/-- Where the loop stops from the next page on is where it stops. -/
theorem StoppedAt.of_next {next : Nat}
    (hlimit : (commitmentsBefore commitments config.startBlock cursor).length < maxCommitments)
    (hnext : NextCursor commitments config.pageSize cursor next)
    (h : StoppedAt commitments config next inserted) :
    StoppedAt commitments config cursor inserted := by
  rcases h with ⟨hinserted, hbelow⟩ | ⟨last, hcursors, hstopped⟩
  · refine Or.inl ⟨hinserted, fun endBlock hend block hcursors hle => ?_⟩
    rcases Relation.ReflTransGen.cases_head hcursors with rfl | ⟨other, hother, hrest⟩
    · exact hlimit
    · rw [hother.2, ← hnext.2] at hrest
      exact hbelow endBlock hend block hrest hle
  · exact Or.inr ⟨last, Relation.ReflTransGen.head hnext hcursors, hstopped⟩

/-- The last page is processed up to the last requested block. -/
theorem le_processThroughBlock_last (commitment : Commitment) (maxBlockSeen : Nat) :
    commitment.blockNumber ≤ config.processThroughBlock false maxBlockSeen ↔
      config.Within commitment.blockNumber := by
  rw [processThroughBlock, QuickSyncConfig.Within]
  have hword := commitment.blockNumber_lt
  cases config.endBlock with
  | none =>
    simp only [Bool.false_eq_true, if_false, Option.getD_none, Option.elim_none,
      Option.not_mem_none, IsEmpty.forall_iff, implies_true, iff_true]
    omega
  | some endBlock =>
    simp

/-- A full page is processed up to the block before its highest one. -/
theorem le_processThroughBlock_full {block maxBlockSeen : Nat} (hpos : 0 < maxBlockSeen) :
    block ≤ config.processThroughBlock true maxBlockSeen ↔
      block < maxBlockSeen ∧ config.Within block := by
  rw [processThroughBlock, if_pos rfl, QuickSyncConfig.Within]
  cases config.endBlock with
  | none =>
    simp only [Option.elim_none, Option.not_mem_none, IsEmpty.forall_iff, implies_true, and_true]
    omega
  | some endBlock =>
    simp only [Option.elim_some, Option.mem_some_iff, forall_eq', Nat.le_min]
    omega

theorem processThroughBlock_full_lt {maxBlockSeen : Nat} (hpos : 0 < maxBlockSeen) :
    config.processThroughBlock true maxBlockSeen < maxBlockSeen :=
  ((le_processThroughBlock_full hpos).mp le_rfl).1

theorem within_of_lt_cursor
    (hend : ∀ endBlock ∈ config.endBlock, cursor ≤ endBlock ∨ cursor = config.startBlock)
    {block : Nat} (hstart : config.startBlock ≤ block) (hbefore : block < cursor) :
    config.Within block := by
  intro endBlock hblock
  have := hend endBlock hblock
  omega

/-- If a page completes the requested blocks, all requested commitments are
    those from before its cursor and those that it adds. -/
theorem requestedCommitments_eq {through : Nat}
    (hend : ∀ endBlock ∈ config.endBlock, cursor ≤ endBlock ∨ cursor = config.startBlock)
    (hthrough : ∀ commitment ∈ commitments,
      (commitment.blockNumber ≤ through ↔ config.Within commitment.blockNumber)) :
    (commitments.filter fun commitment => config.startBlock ≤ commitment.blockNumber ∧
        (commitment.blockNumber < cursor ∨ commitment.blockNumber ≤ through)) =
      requestedCommitments commitments config := by
  refine List.filter_congr fun commitment hmem => decide_eq_decide.mpr
    (and_congr_right fun hstart => ?_)
  rw [hthrough commitment hmem]
  exact ⟨fun h => h.elim (within_of_lt_cursor hend hstart) id, Or.inr⟩

theorem commitmentsBefore_eq {highest : Nat} (hadvance : cursor < highest)
    (hend : ∀ endBlock ∈ config.endBlock, highest ≤ endBlock) :
    (commitments.filter fun commitment =>
      config.startBlock ≤ commitment.blockNumber ∧
        (commitment.blockNumber < cursor ∨
          commitment.blockNumber ≤ config.processThroughBlock true highest)) =
      commitmentsBefore commitments config.startBlock highest := by
  refine List.filter_congr fun commitment _ => decide_eq_decide.mpr
    (and_congr_right fun hstart => ?_)
  rw [le_processThroughBlock_full (by omega)]
  constructor
  · rintro (hbefore | ⟨hbefore, -⟩) <;> omega
  · exact fun hbefore => Or.inr ⟨hbefore, within_of_lt_cursor
      (fun endBlock hblock => Or.inl (hend endBlock hblock)) hstart hbefore⟩

-- The invariant says that everything before the cursor has been inserted. A
-- page either completes the requested blocks, or moves the cursor to its
-- highest block and completes the blocks before it.
/-- What has been inserted when the loop stops. -/
theorem syncLoop_spec (honest : HonestIndexer commitments config.pageSize post) {fuel : Nat}
    {state final : QuickSyncState} (hcursor : config.startBlock ≤ cursor)
    (hend : ∀ endBlock ∈ config.endBlock, cursor ≤ endBlock ∨ cursor = config.startBlock)
    (hstate : state.Records forest config.startBlock inserted)
    (hinserted : inserted.Perm (commitmentsBefore commitments config.startBlock cursor))
    (hlimit : inserted.length < maxCommitments)
    (hloop : config.syncLoop post fuel cursor state = some (.ok final)) :
    ∃ all, final.Records forest config.startBlock all ∧
      StoppedAt commitments config cursor all := by
  induction fuel generalizing cursor state inserted with
  | zero => cases hloop
  | succ fuel ih =>
    rw [hinserted.length_eq] at hlimit
    cases hfetch : fetchList post cursor config.pageSize with
    | error error =>
      rw [syncLoop_error hfetch] at hloop
      cases hloop
    | ok page =>
      have hround := syncLoop_page hfetch fuel state
      rw [honest.answers cursor page hfetch] at hround
      rcases hround with ⟨-, error, herror⟩ | ⟨hshort, state', hprocess, hlast⟩ |
        ⟨hfull, hadvance, state', hprocess, hgo⟩
      · rw [herror] at hloop
        cases hloop
      · -- The page is the last one.
        rw [hlast] at hloop
        cases hloop
        obtain ⟨inserted', hrecords, hperm⟩ :=
          page_step honest hcursor hstate hinserted hprocess (Or.inl hshort)
        rw [requestedCommitments_eq hend
          fun commitment _ => le_processThroughBlock_last commitment _] at hperm
        exact ⟨inserted', hrecords, stoppedAt_of_last hperm hlimit
          fun _ _ _ hnext => absurd hnext.1 hshort.ne⟩
      have hpos := Nat.zero_lt_of_lt hadvance
      obtain ⟨inserted', hrecords, hperm⟩ := page_step honest hcursor hstate hinserted hprocess
        (Or.inr (processThroughBlock_full_lt hpos))
      have hnext : NextCursor commitments config.pageSize cursor _ :=
        ⟨le_antisymm (List.length_take_le _ _) hfull, rfl⟩
      generalize highestBlock cursor (pageAt commitments config.pageSize cursor) = highest at *
      rw [hgo, hrecords.total_eq] at hloop
      by_cases hwithin : config.Within highest
      · rw [commitmentsBefore_eq hadvance hwithin] at hperm
        split_ifs at hloop with hmax
        · cases hloop
          obtain ⟨commitment, hmem, hblock⟩ :=
            (highestBlock_eq _ cursor).resolve_left (hnext.2 ▸ hadvance.ne')
          exact ⟨inserted', hrecords, Or.inr ⟨_, Relation.ReflTransGen.single hnext, by omega,
            hwithin, ⟨commitment, (mem_pageAt hmem).1, hblock.trans hnext.2.symm⟩, hperm,
            hmax.resolve_left (not_not.mpr hwithin)⟩⟩
        · obtain ⟨all, hall, hstopped⟩ := ih (by omega)
            (fun endBlock hblock => Or.inl (hwithin endBlock hblock)) hrecords hperm
            (Nat.lt_of_not_le (not_or.mp hmax).2) hloop
          exact ⟨all, hall, hstopped.of_next hlimit hnext⟩
      · -- The page goes beyond the last requested block.
        rw [if_pos (Or.inl hwithin)] at hloop
        cases hloop
        obtain ⟨endBlock, hblock, hlt⟩ : ∃ endBlock ∈ config.endBlock, endBlock < highest := by
          simpa [QuickSyncConfig.Within] using hwithin
        have hthrough : ∀ commitment ∈ commitments,
            (commitment.blockNumber ≤ config.processThroughBlock true highest ↔
              config.Within commitment.blockNumber) := by
          intro commitment _
          rw [le_processThroughBlock_full hpos, and_iff_right_iff_imp]
          exact fun hwithin => lt_of_le_of_lt (hwithin endBlock hblock) hlt
        rw [requestedCommitments_eq hend hthrough] at hperm
        refine ⟨inserted', hrecords, stoppedAt_of_last hperm hlimit
          fun other hother next hcursors => ?_⟩
        cases Option.mem_unique hother hblock
        rw [hcursors.2, ← hnext.2]
        exact hlt

/-- There are fewer commitments beyond a later block at which there is one. -/
theorem length_beyond_lt {commitment : Commitment} (hmem : commitment ∈ commitments)
    (hlt : cursor < commitment.blockNumber) :
    (commitments.filter fun other => commitment.blockNumber < other.blockNumber).length <
      (commitments.filter fun other => cursor < other.blockNumber).length := by
  have hbeyond : (commitments.filter fun other => commitment.blockNumber < other.blockNumber) =
      (commitments.filter fun other => cursor < other.blockNumber).filter fun other =>
        commitment.blockNumber < other.blockNumber := by
    rw [List.filter_filter]
    refine List.filter_congr fun other _ => ?_
    rw [← Bool.decide_and]
    exact decide_eq_decide.mpr (by omega)
  rw [hbeyond]
  refine List.length_filter_lt_length_iff_exists.mpr ⟨commitment,
    List.mem_filter.mpr ⟨hmem, decide_eq_true hlt⟩, ?_⟩
  simp

-- Each round but the last moves the cursor to a block with a commitment, so
-- there are fewer commitments beyond the cursor than before.
/-- The loop ends if there is fuel for every commitment. -/
theorem syncLoop_isSome (honest : HonestIndexer commitments config.pageSize post) {fuel : Nat}
    (state : QuickSyncState) (hfuel :
      (commitments.filter fun commitment => cursor < commitment.blockNumber).length < fuel) :
    (config.syncLoop post fuel cursor state).isSome = true := by
  induction fuel generalizing cursor state with
  | zero => omega
  | succ fuel ih =>
    cases hfetch : fetchList post cursor config.pageSize with
    | error error => rw [syncLoop_error hfetch, Option.isSome_some]
    | ok page =>
      rcases syncLoop_page hfetch fuel state with
        ⟨-, _, h⟩ | ⟨-, _, -, h⟩ | ⟨-, hadvance, state', -, h⟩
      · rw [h, Option.isSome_some]
      · rw [h, Option.isSome_some]
      · obtain ⟨commitment, hmem, hblock⟩ := (highestBlock_eq page cursor).resolve_left hadvance.ne'
        rw [honest.answers cursor page hfetch] at hmem
        rw [h]
        split_ifs
        · rfl
        · have hfewer := length_beyond_lt (mem_pageAt hmem).1 (hblock ▸ hadvance)
          rw [hblock] at hfewer
          exact ih state' (by omega)

end Loop

/-- Everything up to the reported block is in the forest: the inserted
    commitments are distinct and requested, and none is missing. -/
def QuickSyncComplete (poseidon : U256 → U256 → U256) (config : QuickSyncConfig)
    (commitments : List Commitment) (forest : MerkleForest)
    (result : MerkleForest × SyncProgress) : Prop :=
  ∃ (inserted : List Commitment) (forest' : MerkleForest),
    inserted.Nodup ∧
    inserted.foldlM (fun forest commitment => forest.insertLeaf commitment.leaf) forest =
      .ok forest' ∧
    result.1 = forest'.computeRoots poseidon ∧
    result.2.commitments = inserted.length ∧
    (∀ commitment ∈ inserted, commitment ∈ commitments ∧
      config.startBlock ≤ commitment.blockNumber ∧
      ∀ endBlock ∈ config.endBlock, commitment.blockNumber ≤ endBlock) ∧
    ∀ commitment ∈ commitments, config.startBlock ≤ commitment.blockNumber →
      commitment.blockNumber ≤ result.2.latestBlock → commitment ∈ inserted

/-- No page within the requested blocks ends at the limit, and the start block
    is not beyond the last requested one, unless it is without commitments. -/
def BelowCommitmentLimit (config : QuickSyncConfig) (commitments : List Commitment) : Prop :=
  ∀ endBlock ∈ config.endBlock,
    (config.startBlock ≤ endBlock ∨
      ∀ commitment ∈ commitments, commitment.blockNumber ≠ config.startBlock) ∧
    ∀ block, Relation.ReflTransGen (NextCursor commitments config.pageSize)
        config.startBlock block → block ≤ endBlock →
      (commitmentsBefore commitments config.startBlock block).length < maxCommitments

/-- What is reported about the last state of the loop. -/
structure QuickSyncState.Reported (poseidon : U256 → U256 → U256) (config : QuickSyncConfig)
    (state : QuickSyncState) (result : MerkleForest × SyncProgress) : Prop where
  forest_eq : result.1 = state.forest.computeRoots poseidon
  commitments_eq : result.2.commitments = state.totalCommitments
  latest_eq : result.2.latestBlock =
    config.endBlock.elim state.latestBlock (max state.latestBlock)

/-- The state in which the loop starts. -/
def initialState (forest : MerkleForest) (startBlock : Nat) : QuickSyncState where
  forest
  totalCommitments := 0
  latestBlock := startBlock
  latestCommitmentBlock := startBlock
  commitmentIds := []

section Completeness

variable {poseidon : U256 → U256 → U256} {config : QuickSyncConfig}
  {post : Nat → Nat → Except SyncError (List Commitment)} {forest : MerkleForest}
  {commitments : List Commitment}

variable {result : MerkleForest × SyncProgress}

theorem runQuickSyncInto_eq_ok {fuel : Nat}
    (h : runQuickSyncInto poseidon config post fuel forest = some (.ok result)) :
    ∃ final, config.syncLoop post fuel config.startBlock (initialState forest config.startBlock) =
      some (.ok final) ∧ final.Reported poseidon config result := by
  rw [runQuickSyncInto, Option.map_eq_some_iff] at h
  obtain ⟨loop, hloop, hresult⟩ := h
  cases loop with
  | error error =>
    cases hresult
  | ok final =>
    cases hresult
    exact ⟨final, hloop, rfl, rfl, rfl⟩

theorem initial_records (forest : MerkleForest) (startBlock : Nat) :
    (initialState forest startBlock).Records forest startBlock [] where
  forest_eq := rfl
  total_eq := rfl
  mem_ids := fun _ => Iff.rfl
  latest_eq := rfl

theorem commitmentsBefore_start (startBlock : Nat) :
    commitmentsBefore commitments startBlock startBlock = [] := by
  refine List.filter_eq_nil_iff.mpr fun commitment _ h => ?_
  rw [decide_eq_true_eq] at h
  omega

theorem mem_requestedCommitments {commitment : Commitment} :
    commitment ∈ requestedCommitments commitments config ↔
      commitment ∈ commitments ∧ config.startBlock ≤ commitment.blockNumber ∧
        config.Within commitment.blockNumber := by
  rw [requestedCommitments, List.mem_filter, decide_eq_true_eq]

variable {final : QuickSyncState} {inserted : List Commitment}
  (hids : (commitments.map Commitment.id).Nodup)
  (hfinal : final.Records forest config.startBlock inserted)
  (hresult : final.Reported poseidon config result)

include hids hfinal hresult

/-- With all requested commitments the synchronization is complete, unless the start
    block has been reported without being requested. -/
theorem complete_iff_of_requested
    (hinserted : inserted.Perm (requestedCommitments commitments config)) :
    QuickSyncComplete poseidon config commitments forest result ↔
      ∀ endBlock ∈ config.endBlock, config.startBlock ≤ endBlock ∨
        ∀ commitment ∈ commitments, commitment.blockNumber ≠ config.startBlock := by
  have hmem : ∀ commitment, commitment ∈ inserted ↔ commitment ∈ commitments ∧
      config.startBlock ≤ commitment.blockNumber ∧
        ∀ endBlock ∈ config.endBlock, commitment.blockNumber ≤ endBlock :=
    fun commitment => hinserted.mem_iff.trans mem_requestedCommitments
  have hlatest := hresult.latest_eq
  constructor
  · rintro ⟨others, -, -, -, -, -, hothers, hall⟩ endBlock hend
    by_contra hnot
    rw [not_or, not_forall] at hnot
    obtain ⟨hbefore, commitment, hcommitment⟩ := hnot
    rw [Classical.not_imp, not_not] at hcommitment
    -- The start block is reported, but it has not been requested.
    have hreported : config.startBlock ≤ result.2.latestBlock := by
      rw [hlatest, hfinal.latest_eq]
      cases config.endBlock with
      | none => exact le_highestBlock inserted config.startBlock
      | some _ => exact le_trans (le_highestBlock inserted config.startBlock) (Nat.le_max_left _ _)
    have := (hothers commitment (hall commitment hcommitment.1 (by omega) (by omega))).2.2
      endBlock hend
    omega
  · intro hstart
    refine ⟨inserted, final.forest, hinserted.nodup_iff.mpr (hids.of_map _ |>.filter _),
      hfinal.forest_eq, hresult.forest_eq, hresult.commitments_eq.trans hfinal.total_eq,
      fun commitment h => (hmem commitment).mp h, fun commitment hcommitment hfrom hle => ?_⟩
    refine (hmem commitment).mpr ⟨hcommitment, hfrom, fun endBlock hend => ?_⟩
    have hstart := hstart endBlock hend
    rw [hlatest, hend, Option.elim_some, hfinal.latest_eq] at hle
    have hwithin : highestBlock config.startBlock inserted ≤ max config.startBlock endBlock :=
      highestBlock_le_iff.mpr ⟨Nat.le_max_left _ _, fun other hother =>
        le_trans (((hmem other).mp hother).2.2 endBlock hend) (Nat.le_max_right _ _)⟩
    rcases hstart with hle' | hnone
    · omega
    · have := hnone commitment hcommitment
      omega

/-- Without a last block only those before the limit are reported. -/
theorem complete_of_limit (hend : config.endBlock = none) {next : Nat}
    (hnext : config.startBlock < next)
    (hinserted : inserted.Perm (commitmentsBefore commitments config.startBlock next)) :
    QuickSyncComplete poseidon config commitments forest result := by
  have hmem : ∀ commitment, commitment ∈ inserted ↔ commitment ∈ commitments ∧
      config.startBlock ≤ commitment.blockNumber ∧ commitment.blockNumber < next := by
    intro commitment
    rw [hinserted.mem_iff, commitmentsBefore, List.mem_filter, decide_eq_true_eq]
  refine ⟨inserted, final.forest, hinserted.nodup_iff.mpr (hids.of_map _ |>.filter _),
    hfinal.forest_eq, hresult.forest_eq, hresult.commitments_eq.trans hfinal.total_eq,
    fun commitment h => ?_, fun commitment hcommitment hfrom hle => ?_⟩
  · obtain ⟨hcommitment, hfrom, -⟩ := (hmem commitment).mp h
    refine ⟨hcommitment, hfrom, fun endBlock hblock => ?_⟩
    rw [hend] at hblock
    exact absurd hblock (Option.not_mem_none _)
  · refine (hmem commitment).mpr ⟨hcommitment, hfrom, ?_⟩
    rw [hresult.latest_eq, hend, Option.elim_none, hfinal.latest_eq] at hle
    have hbelow : highestBlock config.startBlock inserted ≤ next - 1 := by
      refine highestBlock_le_iff.mpr ⟨by omega, fun other hother => ?_⟩
      have := ((hmem other).mp hother).2.2
      omega
    omega

/-- With a last block, those from the limit on are missing. -/
theorem not_complete_of_limit {endBlock : Nat} (hend : config.endBlock = some endBlock)
    {next : Nat} (hnext : config.startBlock ≤ next) (hle : next ≤ endBlock)
    (hinserted : inserted.Perm (commitmentsBefore commitments config.startBlock next))
    (hmissing : ∃ commitment ∈ commitments, commitment.blockNumber = next) :
    ¬ QuickSyncComplete poseidon config commitments forest result := by
  rintro ⟨others, forest', -, -, -, hcount, -, hall⟩
  obtain ⟨commitment, hcommitment, hblock⟩ := hmissing
  have hlatest : endBlock ≤ result.2.latestBlock := by
    rw [hresult.latest_eq, hend]
    exact Nat.le_max_right _ _
  -- There would be one more commitment than has been counted.
  have hdistinct : (commitment :: inserted).Nodup := by
    refine List.nodup_cons.mpr ⟨fun hmem => ?_, hinserted.nodup_iff.mpr (hids.of_map _ |>.filter _)⟩
    rw [hinserted.mem_iff, commitmentsBefore, List.mem_filter, decide_eq_true_eq] at hmem
    omega
  have hsubset : commitment :: inserted ⊆ others := by
    refine List.cons_subset.mpr ⟨hall commitment hcommitment (by omega) (by omega),
      fun other h => ?_⟩
    rw [hinserted.mem_iff, commitmentsBefore, List.mem_filter, decide_eq_true_eq] at h
    exact hall other h.1 h.2.1 (by omega)
  have hlength := (hdistinct.subperm hsubset).length_le
  rw [List.length_cons] at hlength
  rw [hresult.commitments_eq, hfinal.total_eq] at hcount
  omega

omit hids hfinal hresult

-- The loop ends, and where it stops is known from `syncLoop_spec`. With all
-- requested commitments inserted, no page has ended at the limit. If it has
-- stopped at the limit, the next page is the one that violates the condition.
/-- The synchronization ends, and it is complete exactly if no page within the requested
    blocks ends at the limit. -/
theorem quickSync_complete_iff (poseidon : U256 → U256 → U256) (config : QuickSyncConfig)
    (commitments : List Commitment) (post : Nat → Nat → Except SyncError (List Commitment))
    (honest : HonestIndexer commitments config.pageSize post) (forest : MerkleForest) :
    (∀ fuel, commitments.length < fuel →
      (runQuickSyncInto poseidon config post fuel forest).isSome = true) ∧
    ∀ fuel result, runQuickSyncInto poseidon config post fuel forest = some (.ok result) →
      (QuickSyncComplete poseidon config commitments forest result ↔
        BelowCommitmentLimit config commitments) := by
  refine ⟨fun fuel hfuel => ?_, fun fuel result hrun => ?_⟩
  · rw [runQuickSyncInto, Option.isSome_map]
    exact syncLoop_isSome honest _ (Nat.lt_of_le_of_lt (List.length_filter_le _ _) hfuel)
  · obtain ⟨final, hloop, hresult⟩ := runQuickSyncInto_eq_ok hrun
    obtain ⟨inserted, hfinal, hstopped⟩ := syncLoop_spec honest
      (le_refl _) (fun _ _ => Or.inr rfl) (initial_records forest config.startBlock)
      (.of_eq (commitmentsBefore_start config.startBlock).symm) (by decide) hloop
    rcases hstopped with ⟨hinserted, hbelow⟩ | ⟨next, hcursors, hstart, hend, hmissing, hinserted,
      hmax⟩
    · rw [complete_iff_of_requested honest.ids_distinct hfinal hresult hinserted]
      exact ⟨fun h endBlock hend => ⟨h endBlock hend, hbelow endBlock hend⟩,
        fun h endBlock hend => (h endBlock hend).1⟩
    · cases hblock : config.endBlock with
      | none =>
        refine iff_of_true (complete_of_limit honest.ids_distinct hfinal hresult hblock hstart
          hinserted) fun endBlock hmem => ?_
        rw [hblock] at hmem
        exact absurd hmem (Option.not_mem_none _)
      | some endBlock =>
        have hle := hend endBlock hblock
        refine iff_of_false (not_complete_of_limit honest.ids_distinct hfinal hresult hblock
          hstart.le hle hinserted hmissing) fun h => ?_
        have hlt := (h endBlock hblock).2 next hcursors hle
        rw [hinserted.length_eq] at hmax
        omega

end Completeness

/-! ### A synchronization that is complete, and one that is not -/

/-- A commitment in one of sixteen trees. -/
def sampleCommitment (number block : Nat) (hblock : block < 2 ^ 64) : Commitment :=
  { id := BitVec.ofNat 512 number, treeNumber := number % 16, treePosition := number / 16,
    batchStartTreePosition := 0, blockNumber := block, hash := BitVec.ofNat 256 number,
    blockNumber_lt := hblock }

/-- An indexer that always answers. -/
def sampleIndexer (commitments : List Commitment) (blockNumber limit : Nat) :
    Except SyncError (List Commitment) :=
  .ok (pageAt commitments limit blockNumber)

/-- Four commitments in three blocks. -/
def fewCommitments : List Commitment :=
  [sampleCommitment 0 1 (by decide), sampleCommitment 1 2 (by decide),
    sampleCommitment 2 2 (by decide), sampleCommitment 3 4 (by decide)]

/-- Three commitments at a time. -/
def fewConfig : QuickSyncConfig :=
  { startBlock := 1, endBlock := some 4, pageSize := 3, pageSize_pos := by decide }

theorem fewCommitments_honest :
    HonestIndexer fewCommitments fewConfig.pageSize (sampleIndexer fewCommitments) where
  sorted := by decide
  ids_distinct := by decide +kernel
  answers := fun _ _ h => (Except.ok.inj h).symm

/-- All four commitments are inserted. -/
theorem quickSync_complete_few :
    ∃ result, runQuickSyncInto (fun a b => a + b) fewConfig (sampleIndexer fewCommitments) 5
        { trees := ∅ } = some (.ok result) ∧
      QuickSyncComplete (fun a b => a + b) fewConfig fewCommitments { trees := ∅ } result := by
  have hlimit : BelowCommitmentLimit fewConfig fewCommitments := fun endBlock hend =>
    ⟨Or.inl (by rw [← Option.some.inj hend]; decide), fun _ _ _ =>
      Nat.lt_of_le_of_lt (List.length_filter_le _ _) (by decide)⟩
  obtain ⟨-, hcomplete⟩ := quickSync_complete_iff (fun a b => a + b) fewConfig fewCommitments
    (sampleIndexer fewCommitments) fewCommitments_honest { trees := ∅ }
  have hok : ((runQuickSyncInto (fun a b => a + b) fewConfig (sampleIndexer fewCommitments) 5
      { trees := ∅ }).any fun result => result.isOk) = true := by
    decide +kernel
  cases hrun : runQuickSyncInto (fun a b => a + b) fewConfig (sampleIndexer fewCommitments) 5
      { trees := ∅ } with
  | none =>
    rw [hrun] at hok
    cases hok
  | some run =>
    cases run with
    | error error =>
      rw [hrun] at hok
      cases hok
    | ok result => exact ⟨result, rfl, (hcomplete 5 result hrun).mpr hlimit⟩

/-- So many commitments in the first block that the limit is reached, and one in
    the second. -/
def crowdedCommitments : List Commitment :=
  (List.range maxCommitments).map (fun number => sampleCommitment number 1 (by decide)) ++
    [sampleCommitment maxCommitments 2 (by decide)]

/-- All of them on one page, which is full. -/
def crowdedConfig : QuickSyncConfig :=
  { startBlock := 1, endBlock := some 2, pageSize := maxCommitments + 1,
    pageSize_pos := Nat.succ_pos _ }

theorem ofNat_inj_of_lt {width a b : Nat} (ha : a < 2 ^ width) (hb : b < 2 ^ width)
    (h : BitVec.ofNat width a = BitVec.ofNat width b) : a = b := by
  have hnat := congrArg BitVec.toNat h
  rwa [BitVec.toNat_ofNat, BitVec.toNat_ofNat, Nat.mod_eq_of_lt ha, Nat.mod_eq_of_lt hb] at hnat

theorem crowdedCommitments_honest :
    HonestIndexer crowdedCommitments crowdedConfig.pageSize
      (sampleIndexer crowdedCommitments) where
  sorted := by
    refine List.pairwise_append.mpr ⟨?_, List.pairwise_singleton _ _, fun a ha b hb => ?_⟩
    · refine List.pairwise_map.mpr (List.pairwise_lt_range.imp fun {a b} hlt => Or.inr ⟨rfl, ?_⟩)
      exact Nat.div_le_div_right hlt.le
    · obtain ⟨number, -, rfl⟩ := List.mem_map.mp ha
      rw [List.mem_singleton] at hb
      subst hb
      exact Or.inl (by decide : 1 < 2)
  ids_distinct := by
    have hids : crowdedCommitments.map Commitment.id =
        (List.range (maxCommitments + 1)).map (BitVec.ofNat 512) := by
      rw [crowdedCommitments, List.map_append, List.map_map, List.range_succ, List.map_append]
      rfl
    rw [hids]
    refine List.Nodup.map_on (fun a ha b hb hab => ?_) List.nodup_range
    have hbound : maxCommitments + 1 ≤ 2 ^ 512 := by decide +kernel
    exact ofNat_inj_of_lt (Nat.lt_of_lt_of_le (List.mem_range.mp ha) hbound)
      (Nat.lt_of_lt_of_le (List.mem_range.mp hb) hbound) hab
  answers := fun _ _ h => (Except.ok.inj h).symm

theorem mem_crowdedCommitments {commitment : Commitment} (h : commitment ∈ crowdedCommitments) :
    1 ≤ commitment.blockNumber ∧ commitment.blockNumber ≤ 2 := by
  rcases List.mem_append.mp h with hfirst | hlast
  · obtain ⟨number, -, rfl⟩ := List.mem_map.mp hfirst
    exact (by decide : 1 ≤ 1 ∧ 1 ≤ 2)
  · rw [List.mem_singleton] at hlast
    subst hlast
    exact (by decide : 1 ≤ 2 ∧ 2 ≤ 2)

theorem last_mem_crowdedCommitments :
    sampleCommitment maxCommitments 2 (by decide) ∈ crowdedCommitments :=
  List.mem_append_right _ (List.mem_singleton_self _)

theorem length_crowdedCommitments : crowdedCommitments.length = maxCommitments + 1 := by
  rw [crowdedCommitments, List.length_append, List.length_map, List.length_range,
    List.length_singleton]

theorem length_crowdedCommitmentsBefore :
    (commitmentsBefore crowdedCommitments 1 2).length = maxCommitments := by
  rw [commitmentsBefore, crowdedCommitments, List.filter_append, List.length_append]
  rw [List.filter_eq_self.mpr, List.length_map, List.length_range, List.filter_eq_nil_iff.mpr,
    List.length_nil, Nat.add_zero]
  · intro commitment hmem
    rw [List.mem_singleton] at hmem
    subst hmem
    exact (by decide : ¬ decide (1 ≤ 2 ∧ 2 < 2) = true)
  · intro commitment hmem
    obtain ⟨number, -, rfl⟩ := List.mem_map.mp hmem
    exact (by decide : decide (1 ≤ 1 ∧ 1 < 2) = true)

theorem pageAt_crowdedCommitments :
    pageAt crowdedCommitments (maxCommitments + 1) 1 = crowdedCommitments := by
  rw [pageAt, List.filter_eq_self.mpr fun commitment hmem =>
    decide_eq_true (mem_crowdedCommitments hmem).1]
  exact List.take_of_length_le length_crowdedCommitments.le

theorem highestBlock_crowdedCommitments : highestBlock 1 crowdedCommitments = 2 :=
  le_antisymm
    (highestBlock_le_iff.mpr ⟨by decide, fun _ hmem => (mem_crowdedCommitments hmem).2⟩)
    ((highestBlock_le_iff.mp (le_refl (highestBlock 1 crowdedCommitments))).2 _
      last_mem_crowdedCommitments)

/-- One page reaches the limit within the first block. The second block is
    reported, but its commitment is missing. -/
theorem quickSync_incomplete_crowded :
    HonestIndexer crowdedCommitments crowdedConfig.pageSize (sampleIndexer crowdedCommitments) ∧
      ∃ result, runQuickSyncInto (fun a b => a + b) crowdedConfig
          (sampleIndexer crowdedCommitments) 1 { trees := ∅ } = some (.ok result) ∧
        result.2.latestBlock = 2 ∧ result.2.commitments = maxCommitments ∧
        ¬ QuickSyncComplete (fun a b => a + b) crowdedConfig crowdedCommitments { trees := ∅ }
          result := by
  refine ⟨crowdedCommitments_honest, ?_⟩
  have hfetch : fetchList (sampleIndexer crowdedCommitments) 1 crowdedConfig.pageSize =
      .ok crowdedCommitments := by
    rw [fetchList, show min crowdedConfig.pageSize graphqlIntMax = maxCommitments + 1 by decide,
      sampleIndexer, pageAt_crowdedCommitments]
  have hpage : pageAt crowdedCommitments crowdedConfig.pageSize crowdedConfig.startBlock =
      crowdedCommitments := pageAt_crowdedCommitments
  have hhighest : highestBlock crowdedConfig.startBlock crowdedCommitments = 2 :=
    highestBlock_crowdedCommitments
  have hround := syncLoop_page hfetch 0
    (initialState { trees := ∅ } crowdedConfig.startBlock)
  rw [highestBlock_crowdedCommitments] at hround
  rcases hround with ⟨hstuck, -⟩ | ⟨hshort, -⟩ | ⟨-, -, state, hprocess, hloop⟩
  · cases hstuck
  · exact absurd length_crowdedCommitments hshort.ne
  rw [← hhighest, ← hpage] at hprocess
  obtain ⟨inserted, hrecords, hperm⟩ := page_step crowdedCommitments_honest
    (le_refl crowdedConfig.startBlock) (initial_records { trees := ∅ } crowdedConfig.startBlock)
    (.of_eq (commitmentsBefore_start crowdedConfig.startBlock).symm) hprocess
    (Or.inr (processThroughBlock_full_lt (by rw [hpage, hhighest]; decide)))
  rw [hpage, hhighest,
    commitmentsBefore_eq (by decide) (fun endBlock hend => (Option.some.inj hend).le)] at hperm
  have htotal : state.totalCommitments = maxCommitments := by
    rw [hrecords.total_eq, hperm.length_eq]
    exact length_crowdedCommitmentsBefore
  rw [if_pos (Or.inr htotal.ge)] at hloop
  have hlatest : state.latestBlock ≤ 2 := by
    rw [hrecords.latest_eq]
    refine highestBlock_le_iff.mpr ⟨by decide, fun commitment hmem => ?_⟩
    exact (mem_crowdedCommitments (List.mem_filter.mp (hperm.mem_iff.mp hmem)).1).2
  refine ⟨(state.forest.computeRoots fun a b => a + b,
    { latestBlock := max state.latestBlock 2,
      latestCommitmentBlock := max state.latestCommitmentBlock 2,
      commitments := state.totalCommitments, nullifiers := 0, unshields := 0 }), ?_,
    Nat.max_eq_right hlatest, htotal,
    not_complete_of_limit crowdedCommitments_honest.ids_distinct hrecords ⟨rfl, rfl, rfl⟩ rfl
      (by decide) (le_refl 2) hperm ⟨_, last_mem_crowdedCommitments, rfl⟩⟩
  exact congrArg (Option.map _) hloop

end Railgun
