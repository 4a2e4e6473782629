import Railgun.Core.IndexedWallet
import Railgun.Lib.SortedPage
import Railgun.Theory.WalletCatchUp

/-!
# Pages of an Indexer

An honest indexer answers with the first rows of every stream. A page goes as
far as the slowest of its streams is complete, and is refused if that is not
even its first block. So it hands on all rows up to its checkpoint, with one
exception: before block zero there is no block to go back to, and a page that is
cut off within it is taken as complete.

Without such a page the loop hands on every row of the blocks it gets through,
once and in order. It gets through all of them unless a block alone fills a
page. If the target is the last block number it does not end on its own.

## Main definitions

* `HonestWalletIndexer`: An indexer that answers with the first rows.

## Theorems

* `pageOf_cut`: A stream is complete up to its checkpoint.
* `fetch_spec`: What a page is cut back to.
* `indexed_wallet_paging`: When pages and loop are exact.
-/

namespace Railgun

open IndexedWalletPage
open IndexedWalletPageKind (forFromBlock)

section Stream

variable {α : Type} (block : α → Nat) (rows : List α) (pageSize fromBlock toBlock : Nat)

/-- The rows of a stream from some blocks. -/
def blocksIn : List α :=
  rows.filter fun row => fromBlock ≤ block row ∧ block row ≤ toBlock

/-- The first of these rows. -/
def pageOf : List α :=
  (blocksIn block rows fromBlock toBlock).take pageSize

/-- How far these rows are complete. -/
def streamCheckpoint : Nat :=
  completeStreamCheckpoint (pageOf block rows pageSize fromBlock toBlock).length pageSize toBlock
    ((pageOf block rows pageSize fromBlock toBlock).map block)

/-- How many rows of a stream are from a block. -/
def rowsInBlock (blockNumber : Nat) : Nat :=
  (rows.filter fun row => block row = blockNumber).length

/-- A page that is not full is complete. A full one is complete up to the block before
    its last. -/
theorem streamCheckpoint_cases (hsize : 0 < pageSize) :
    ((blocksIn block rows fromBlock toBlock).length < pageSize ∧
      streamCheckpoint block rows pageSize fromBlock toBlock = toBlock) ∨
    (pageSize ≤ (blocksIn block rows fromBlock toBlock).length ∧
      ∃ last ∈ pageOf block rows pageSize fromBlock toBlock,
        (∀ row ∈ pageOf block rows pageSize fromBlock toBlock, block row ≤ block last) ∧
        streamCheckpoint block rows pageSize fromBlock toBlock = block last - 1) := by
  have hlength : (pageOf block rows pageSize fromBlock toBlock).length =
      min pageSize (blocksIn block rows fromBlock toBlock).length := List.length_take
  by_cases hshort : (blocksIn block rows fromBlock toBlock).length < pageSize
  · refine Or.inl ⟨hshort, ?_⟩
    rw [streamCheckpoint, completeStreamCheckpoint, if_pos (by omega)]
  · refine Or.inr ⟨Nat.not_lt.mp hshort, ?_⟩
    have hne : (pageOf block rows pageSize fromBlock toBlock).map block ≠ [] :=
      List.ne_nil_of_length_pos (by rw [List.length_map]; omega)
    obtain ⟨largest, hlargest⟩ := Option.isSome_iff_exists.mp (List.isSome_max?_iff.mpr hne)
    obtain ⟨hmem, hmax⟩ := List.max?_eq_some_iff.mp hlargest
    obtain ⟨last, hlast, rfl⟩ := List.mem_map.mp hmem
    refine ⟨last, hlast, fun row hrow => hmax _ (List.mem_map_of_mem hrow), ?_⟩
    rw [streamCheckpoint, completeStreamCheckpoint, if_neg (by omega), hlargest, Option.getD_some]

variable {block rows pageSize fromBlock toBlock}

theorem mem_blocksIn {row : α} : row ∈ blocksIn block rows fromBlock toBlock ↔
    row ∈ rows ∧ fromBlock ≤ block row ∧ block row ≤ toBlock := by
  rw [blocksIn, List.mem_filter, decide_eq_true_iff]

theorem mem_blocksIn_of_pageOf {row : α}
    (hrow : row ∈ pageOf block rows pageSize fromBlock toBlock) :
    row ∈ blocksIn block rows fromBlock toBlock :=
  List.mem_of_mem_take hrow

theorem blocksIn_filter {c : Nat} (hc : c ≤ toBlock) :
    ((blocksIn block rows fromBlock toBlock).filter fun row => block row ≤ c) =
      blocksIn block rows fromBlock c := by
  rw [blocksIn, blocksIn, List.filter_filter]
  refine List.filter_congr fun row _ => ?_
  rw [← Bool.decide_and, decide_eq_decide]
  omega

theorem rowsInBlock_eq (blockNumber : Nat) :
    rowsInBlock block rows blockNumber = (blocksIn block rows blockNumber blockNumber).length := by
  refine congrArg List.length (List.filter_congr fun row _ => ?_)
  rw [decide_eq_decide]
  omega

theorem rowsInBlock_le_blocksIn {blockNumber : Nat} (hfrom : fromBlock ≤ blockNumber) :
    rowsInBlock block rows blockNumber ≤ (blocksIn block rows fromBlock blockNumber).length := by
  refine (List.monotone_filter_right rows fun row hrow => ?_).length_le
  have := of_decide_eq_true hrow
  exact decide_eq_true (by omega)

section Sized

variable (hsize : 0 < pageSize)

include hsize

theorem streamCheckpoint_le : streamCheckpoint block rows pageSize fromBlock toBlock ≤ toBlock := by
  rcases streamCheckpoint_cases block rows pageSize fromBlock toBlock hsize with
    ⟨_, heq⟩ | ⟨_, last, hlast, _, heq⟩
  · exact heq.le
  · have := (mem_blocksIn.mp (mem_blocksIn_of_pageOf hlast)).2.2
    omega

/-- A page that its first block does not fill gets past it. -/
theorem le_streamCheckpoint (hle : fromBlock ≤ toBlock)
    (hsparse : 0 < fromBlock → rowsInBlock block rows fromBlock < pageSize) :
    fromBlock ≤ streamCheckpoint block rows pageSize fromBlock toBlock := by
  rcases streamCheckpoint_cases block rows pageSize fromBlock toBlock hsize with
    ⟨_, heq⟩ | ⟨hfull, last, hlast, hmax, heq⟩
  · omega
  · by_contra hnot
    -- Then all rows of the page are from its first block.
    have hall : ((pageOf block rows pageSize fromBlock toBlock).filter fun row =>
        block row = fromBlock) = pageOf block rows pageSize fromBlock toBlock := by
      refine List.filter_eq_self.mpr fun row hrow => decide_eq_true ?_
      have hlow := (mem_blocksIn.mp (mem_blocksIn_of_pageOf hrow)).2.1
      have hhigh := hmax row hrow
      omega
    have hsub : (pageOf block rows pageSize fromBlock toBlock).Sublist rows :=
      (List.take_sublist _ _).trans List.filter_sublist
    have hcount := (hsub.filter fun row => block row = fromBlock).length_le
    rw [hall, pageOf, List.length_take, Nat.min_eq_left hfull] at hcount
    exact Nat.not_lt.mpr hcount (hsparse (by omega))

variable (hsorted : rows.Pairwise fun a b => block a ≤ block b)

include hsorted

/-- Cut back to its checkpoint, a page has all rows up to there. -/
theorem pageOf_cut (hzero : fromBlock = 0 → rowsInBlock block rows 0 ≤ pageSize) {c : Nat}
    (hc : c ≤ streamCheckpoint block rows pageSize fromBlock toBlock) :
    ((pageOf block rows pageSize fromBlock toBlock).filter fun row => block row ≤ c) =
      blocksIn block rows fromBlock c := by
  refine (filter_take_eq_filter fun row hrow => ?_).trans
    (blocksIn_filter (hc.trans (streamCheckpoint_le hsize)))
  rcases streamCheckpoint_cases block rows pageSize fromBlock toBlock hsize with
    ⟨hshort, _⟩ | ⟨hfull, last, hlast, hmax, heq⟩
  · rw [List.drop_eq_nil_of_le hshort.le] at hrow
    cases hrow
  · have hle : block last ≤ block row :=
      key_le_of_mem_take_drop (hsorted.filter _) hlast hrow
    rcases Nat.eq_zero_or_pos (block last) with hlastzero | hpos
    · -- There is no block before block zero to go back to.
      have hstart : fromBlock = 0 := by
        have := (mem_blocksIn.mp (mem_blocksIn_of_pageOf hlast)).2.1
        omega
      have hczero : c = 0 := by omega
      refine lt_key_of_mem_drop (hsorted.filter _) ?_ hrow
      rw [← blocksIn, blocksIn_filter (by omega), hczero, hstart, ← rowsInBlock_eq]
      exact hzero hstart
    · omega

/-- No page gets past a block that fills it. -/
theorem streamCheckpoint_lt_of_crowded {blockNumber : Nat} (hpos : 0 < blockNumber)
    (hfrom : fromBlock ≤ blockNumber) (hto : blockNumber ≤ toBlock)
    (hcrowded : pageSize ≤ rowsInBlock block rows blockNumber) :
    streamCheckpoint block rows pageSize fromBlock toBlock < blockNumber := by
  have hcount : pageSize ≤ (blocksIn block rows fromBlock blockNumber).length :=
    hcrowded.trans (rowsInBlock_le_blocksIn hfrom)
  rw [← blocksIn_filter hto] at hcount
  rcases streamCheckpoint_cases block rows pageSize fromBlock toBlock hsize with
    ⟨hshort, _⟩ | ⟨_, last, hlast, _, heq⟩
  · have := List.length_filter_le (fun row => block row ≤ blockNumber)
      (blocksIn block rows fromBlock toBlock)
    omega
  · have := key_le_of_mem_take (hsorted.filter _) hcount hlast
    omega

/-- A page that is cut off within block zero is taken as complete for it. -/
theorem streamCheckpoint_zero (hcrowded : pageSize < rowsInBlock block rows 0) :
    streamCheckpoint block rows pageSize 0 toBlock = 0 ∧
      ((pageOf block rows pageSize 0 toBlock).filter fun row => block row ≤ 0).length =
        pageSize := by
  have hcount : pageSize ≤ ((blocksIn block rows 0 toBlock).filter fun row =>
      block row ≤ 0).length := by
    rw [blocksIn_filter (Nat.zero_le _), ← rowsInBlock_eq]
    exact hcrowded.le
  have hall : ∀ row ∈ pageOf block rows pageSize 0 toBlock, block row ≤ 0 := fun row hrow =>
    key_le_of_mem_take (hsorted.filter _) hcount hrow
  have hfull := hcount.trans (List.length_filter_le _ _)
  refine ⟨?_, ?_⟩
  · rcases streamCheckpoint_cases block rows pageSize 0 toBlock hsize with
      ⟨hshort, _⟩ | ⟨_, last, hlast, _, heq⟩
    · omega
    · have := hall last hlast
      omega
  · rw [List.filter_eq_self.mpr fun row hrow => decide_eq_true (hall row hrow), pageOf,
      List.length_take, Nat.min_eq_left hfull]

end Sized

end Stream

section Page

variable {abi : WalletScanAbi}

/-- An indexer that has rows in the order of their blocks, and answers with the
    first of those that are asked for. -/
structure HonestWalletIndexer (client : IndexedWalletClient abi)
    (rows : (kind : WalletRowKind) → List (abi.Row kind)) : Prop where
  sorted : ∀ kind, (rows kind).Pairwise fun a b => abi.rowBlock kind a ≤ abi.rowBlock kind b
  modern : ∀ fromBlock toBlock pageSize, ∃ streams,
    client.fetchIndexedWalletPage fromBlock toBlock pageSize = .ok streams ∧
    ∀ kind ∈ IndexedWalletPageKind.modern.streams,
      streams kind = pageOf (abi.rowBlock kind) (rows kind) pageSize fromBlock toBlock
  legacy : ∀ fromBlock toBlock pageSize, ∃ streams,
    client.fetchIndexedLegacyWalletPage fromBlock toBlock pageSize = .ok streams ∧
    ∀ kind ∈ IndexedWalletPageKind.legacy.streams,
      streams kind = pageOf (abi.rowBlock kind) (rows kind) pageSize fromBlock toBlock

variable (rows : (kind : WalletRowKind) → List (abi.Row kind)) (pageSize : Nat)
  (pageKind : IndexedWalletPageKind) (fromBlock toBlock : Nat)

/-- A page that, if there is one, has all rows of its streams up to its
    checkpoint. -/
def ExactPage (result : Except SyncError (IndexedWalletPage abi)) : Prop :=
  ∀ page, result = .ok page → fromBlock ≤ page.checkpointBlock ∧ page.checkpointBlock ≤ toBlock ∧
    ∀ kind, page.rows kind =
      if kind ∈ pageKind.streams then
        blocksIn (abi.rowBlock kind) (rows kind) fromBlock page.checkpointBlock
      else []

/-- If a page starts at block zero, that block fits on it. -/
abbrev FirstBlockFits : Prop :=
  fromBlock = 0 → ∀ kind ∈ pageKind.streams,
    rowsInBlock (abi.rowBlock kind) (rows kind) 0 ≤ pageSize

/-- How far a stream of a page is complete. -/
def kindCheckpoint (kind : WalletRowKind) : Nat :=
  streamCheckpoint (abi.rowBlock kind) (rows kind) pageSize fromBlock toBlock

/-- A page of first rows, up to its checkpoint. -/
def cutPage (checkpointBlock : Nat) : IndexedWalletPage abi where
  rows kind :=
    if kind ∈ pageKind.streams then
      (pageOf (abi.rowBlock kind) (rows kind) pageSize fromBlock toBlock).filter fun row =>
        abi.rowBlock kind row ≤ checkpointBlock
    else []
  checkpointBlock := checkpointBlock

variable {rows pageSize pageKind fromBlock toBlock}

/-- A page that goes as far as its slowest stream, or is refused if that is before its
    start. -/
structure CutBack (rows : (kind : WalletRowKind) → List (abi.Row kind)) (pageSize : Nat)
    (pageKind : IndexedWalletPageKind) (fromBlock toBlock : Nat)
    (result : Except SyncError (IndexedWalletPage abi)) (checkpointBlock : Nat) : Prop where
  within : ∀ kind ∈ pageKind.streams,
    checkpointBlock ≤ kindCheckpoint rows pageSize fromBlock toBlock kind
  slowest : ∃ kind ∈ pageKind.streams,
    checkpointBlock = kindCheckpoint rows pageSize fromBlock toBlock kind
  refused : checkpointBlock < fromBlock → ∃ error, result = .error error
  accepted : fromBlock ≤ checkpointBlock →
    result = .ok (cutPage rows pageSize pageKind fromBlock toBlock checkpointBlock)

theorem cutStreams_spec {what : String} {first second third : WalletRowKind}
    {streams : (kind : WalletRowKind) → List (abi.Row kind)}
    (hkinds : pageKind.streams = [first, second, third])
    (hstreams : ∀ kind ∈ pageKind.streams,
      streams kind = pageOf (abi.rowBlock kind) (rows kind) pageSize fromBlock toBlock) :
    ∃ checkpointBlock, CutBack rows pageSize pageKind fromBlock toBlock
      (cutStreams what first second third streams pageSize fromBlock toBlock) checkpointBlock := by
  have hcheckpoint : ∀ kind ∈ pageKind.streams, completeStreamCheckpoint (streams kind).length
      pageSize toBlock ((streams kind).map (abi.rowBlock kind)) =
        kindCheckpoint rows pageSize fromBlock toBlock kind := fun kind hkind => by
    rw [hstreams kind hkind]
    rfl
  simp only [hkinds, List.forall_mem_cons, List.not_mem_nil, false_implies, implies_true,
    and_true] at hcheckpoint
  obtain ⟨hfirst, hsecond, hthird⟩ := hcheckpoint
  refine ⟨min (min (kindCheckpoint rows pageSize fromBlock toBlock first)
    (kindCheckpoint rows pageSize fromBlock toBlock second))
    (kindCheckpoint rows pageSize fromBlock toBlock third), ?_, ?_, fun hlt => ?_, fun hle => ?_⟩
  · simp only [hkinds, List.forall_mem_cons, List.not_mem_nil, false_implies, implies_true,
      and_true]
    omega
  · simp only [hkinds, List.exists_mem_cons_iff, List.not_mem_nil, false_and, exists_false,
      or_false]
    omega
  · simp only [cutStreams, hfirst, hsecond, hthird, if_pos hlt]
    exact ⟨_, rfl⟩
  · simp only [cutStreams, hfirst, hsecond, hthird, if_neg (Nat.not_lt.mpr hle), cutPage, ← hkinds]
    congr 2
    funext kind
    split_ifs with hkind
    · rw [hstreams kind hkind]
    · rfl

variable {client : IndexedWalletClient abi}

/-- A page of an honest indexer is cut back to its slowest stream. -/
theorem fetch_spec (hhonest : HonestWalletIndexer client rows) (pageSize : Nat)
    (pageKind : IndexedWalletPageKind) (fromBlock toBlock : Nat) :
    ∃ checkpointBlock, CutBack rows pageSize pageKind fromBlock toBlock
      (fetch client pageSize pageKind fromBlock toBlock) checkpointBlock := by
  cases pageKind with
  | legacy =>
    obtain ⟨streams, hanswer, hstreams⟩ := hhonest.legacy fromBlock toBlock pageSize
    simp only [fetch, fetchLegacy, hanswer]
    exact cutStreams_spec rfl hstreams
  | modern =>
    obtain ⟨streams, hanswer, hstreams⟩ := hhonest.modern fromBlock toBlock pageSize
    simp only [fetch, fetchModern, hanswer]
    exact cutStreams_spec rfl hstreams

theorem cutPage_rows (hhonest : HonestWalletIndexer client rows) (hsize : 0 < pageSize)
    (hzero : FirstBlockFits rows pageSize pageKind fromBlock) {checkpointBlock : Nat}
    (hall : ∀ kind ∈ pageKind.streams,
      checkpointBlock ≤ kindCheckpoint rows pageSize fromBlock toBlock kind)
    (kind : WalletRowKind) :
    (cutPage rows pageSize pageKind fromBlock toBlock checkpointBlock).rows kind =
      if kind ∈ pageKind.streams then
        blocksIn (abi.rowBlock kind) (rows kind) fromBlock checkpointBlock
      else [] := by
  rw [cutPage]
  dsimp only
  split_ifs with hkind
  · exact pageOf_cut hsize (hhonest.sorted kind) (fun hstart => hzero hstart kind hkind)
      (hall kind hkind)
  · rfl

theorem fetch_zero (hhonest : HonestWalletIndexer client rows) (hsize : 0 < pageSize)
    {kind : WalletRowKind} (hkind : kind ∈ pageKind.streams)
    (hcrowded : pageSize < rowsInBlock (abi.rowBlock kind) (rows kind) 0) :
    ∃ page, fetch client pageSize pageKind 0 toBlock = .ok page ∧
      page.checkpointBlock = 0 ∧ (page.rows kind).length = pageSize := by
  obtain ⟨checkpointBlock, hall, _, _, hok⟩ := fetch_spec hhonest pageSize pageKind 0 toBlock
  obtain ⟨hcheckpoint, hlength⟩ := @streamCheckpoint_zero _ _ _ _ toBlock hsize
    (hhonest.sorted kind) hcrowded
  have hzero : checkpointBlock = 0 := Nat.le_zero.mp ((hall kind hkind).trans_eq hcheckpoint)
  refine ⟨_, hok (Nat.zero_le _), hzero, ?_⟩
  simp only [cutPage, if_pos hkind, hzero]
  exact hlength

theorem fetch_exact_iff (hhonest : HonestWalletIndexer client rows) (hsize : 0 < pageSize) :
    ExactPage rows pageKind fromBlock toBlock
      (fetch client pageSize pageKind fromBlock toBlock) ↔
    FirstBlockFits rows pageSize pageKind fromBlock := by
  constructor
  · rintro hexact rfl kind hkind
    by_contra hcrowded
    obtain ⟨page, hfetch, hcheckpoint, hlength⟩ :=
      @fetch_zero _ _ _ _ toBlock _ hhonest hsize _ hkind (Nat.not_le.mp hcrowded)
    have hrows := (hexact page hfetch).2.2 kind
    rw [if_pos hkind, hcheckpoint] at hrows
    have := congrArg List.length hrows
    rw [hlength, ← rowsInBlock_eq] at this
    omega
  · intro hzero page hpage
    obtain ⟨checkpointBlock, hall, ⟨slowest, _, hslowest⟩, herror, hok⟩ :=
      fetch_spec hhonest pageSize pageKind fromBlock toBlock
    rcases Nat.lt_or_ge checkpointBlock fromBlock with hlt | hle
    · obtain ⟨error, hfetch⟩ := herror hlt
      rw [hfetch] at hpage
      cases hpage
    · rw [hok hle] at hpage
      cases hpage
      exact ⟨hle, hslowest.trans_le (streamCheckpoint_le hsize),
        cutPage_rows hhonest hsize hzero hall⟩

end Page

section CatchUp

variable {abi : WalletScanAbi}

/-- Pages that follow each other without a gap, from a block up to right before
    another. -/
def PagesReach (reached : Nat) : Nat → List (Nat × IndexedWalletPage abi) → Prop
  | nextBlock, [] => nextBlock = reached
  | nextBlock, (pageFrom, page) :: pages =>
    pageFrom = nextBlock ∧ nextBlock ≤ page.checkpointBlock ∧
      PagesReach reached (page.checkpointBlock + 1) pages

theorem PagesReach.le {reached : Nat} {nextBlock : Nat}
    {pages : List (Nat × IndexedWalletPage abi)} (hreach : PagesReach reached nextBlock pages) :
    nextBlock ≤ reached := by
  induction pages generalizing nextBlock with
  | nil => exact Nat.le_of_eq hreach
  | cons entry pages ih =>
    obtain ⟨_, hle, hrest⟩ := hreach
    have := ih hrest
    omega

variable (rows : (kind : WalletRowKind) → List (abi.Row kind)) (v2StartBlock : Nat)

/-- The rows of a kind from some blocks, as far as the contract of their block
    has such rows. -/
def expectedRows (kind : WalletRowKind) (fromBlock endBlock : Nat) : List (abi.Row kind) :=
  (rows kind).filter fun row => fromBlock ≤ abi.rowBlock kind row ∧
    abi.rowBlock kind row < endBlock ∧
    kind ∈ (forFromBlock (abi.rowBlock kind row) v2StartBlock).streams

/-- A loop that ends, and hands on all rows of the blocks it gets through, once
    and in order. These are all blocks, or those before a page that failed. -/
def ExactCatchUp (run : Nat → List (Nat × IndexedWalletPage abi) × ArtifactCatchUpEnd)
    (fromBlock target : Nat) : Prop :=
  ∃ pages ended reached bound, (∀ fuel, bound ≤ fuel → run fuel = (pages, ended)) ∧
    PagesReach reached fromBlock pages ∧
    ((ended = .completed ∧ reached = max fromBlock (target + 1)) ∨
      ((∃ error, ended = .failed error) ∧ reached ≤ target)) ∧
    ∀ kind, (pages.flatMap fun entry => entry.2.rows kind) =
      expectedRows rows v2StartBlock kind fromBlock reached

/-- A block that alone fills a page. -/
def CrowdedBlock (pageSize blockNumber : Nat) : Prop :=
  0 < blockNumber ∧ ∃ kind ∈ (forFromBlock blockNumber v2StartBlock).streams,
    pageSize ≤ rowsInBlock (abi.rowBlock kind) (rows kind) blockNumber

variable {rows v2StartBlock}

theorem forFromBlock_of_page {fromBlock target indexedWalletBlockRange blockNumber : Nat}
    (hfrom : fromBlock ≤ blockNumber)
    (hto : blockNumber ≤ (forFromBlock fromBlock v2StartBlock).toBlock
      fromBlock target v2StartBlock indexedWalletBlockRange) :
    forFromBlock blockNumber v2StartBlock = forFromBlock fromBlock v2StartBlock := by
  by_cases hlegacy : 0 < v2StartBlock ∧ fromBlock < v2StartBlock
  · rw [forFromBlock, if_pos hlegacy] at hto
    simp only [IndexedWalletPageKind.toBlock, if_pos hlegacy.1] at hto
    rw [forFromBlock, forFromBlock, if_pos hlegacy, if_pos (by omega)]
  · rw [forFromBlock, forFromBlock, if_neg hlegacy, if_neg (by omega)]

theorem blocksIn_append_expectedRows {kind : WalletRowKind}
    (hsorted : (rows kind).Pairwise fun a b => abi.rowBlock kind a ≤ abi.rowBlock kind b)
    {fromBlock checkpointBlock endBlock : Nat} (hfrom : fromBlock ≤ checkpointBlock)
    (hend : checkpointBlock + 1 ≤ endBlock)
    (hkind : ∀ blockNumber, fromBlock ≤ blockNumber → blockNumber ≤ checkpointBlock →
      forFromBlock blockNumber v2StartBlock = forFromBlock fromBlock v2StartBlock) :
    (if kind ∈ (forFromBlock fromBlock v2StartBlock).streams then
        blocksIn (abi.rowBlock kind) (rows kind) fromBlock checkpointBlock
      else []) ++ expectedRows rows v2StartBlock kind (checkpointBlock + 1) endBlock =
      expectedRows rows v2StartBlock kind fromBlock endBlock := by
  have hpage : (if kind ∈ (forFromBlock fromBlock v2StartBlock).streams then
        blocksIn (abi.rowBlock kind) (rows kind) fromBlock checkpointBlock
      else []) = expectedRows rows v2StartBlock kind fromBlock (checkpointBlock + 1) := by
    have hsame : ∀ row ∈ rows kind, decide (fromBlock ≤ abi.rowBlock kind row ∧
        abi.rowBlock kind row < checkpointBlock + 1 ∧ kind ∈
          (forFromBlock (abi.rowBlock kind row) v2StartBlock).streams) =
        decide ((fromBlock ≤ abi.rowBlock kind row ∧ abi.rowBlock kind row ≤ checkpointBlock) ∧
          kind ∈ (forFromBlock fromBlock v2StartBlock).streams) := by
      intro row _
      rw [decide_eq_decide, and_assoc, Nat.lt_succ_iff]
      refine and_congr_right fun hlow => and_congr_right fun hhigh => ?_
      rw [hkind _ hlow hhigh]
    rw [expectedRows, List.filter_congr hsame, blocksIn]
    split_ifs with hmem
    · simp only [hmem, and_true]
    · simp only [hmem, and_false, decide_false, List.filter_false]
  rw [hpage, expectedRows, expectedRows, expectedRows,
    filter_append_filter_of_sorted hsorted (c := checkpointBlock)]
  · refine List.filter_congr fun row _ => ?_
    rw [← Bool.decide_or, decide_eq_decide]
    by_cases hmem : kind ∈ (forFromBlock (abi.rowBlock kind row) v2StartBlock).streams
    · simp only [hmem, and_true]
      omega
    · simp only [hmem, and_false, or_self]
  all_goals
    intro row hrow
    have := of_decide_eq_true hrow
    omega

section Loop

/-- The page that the loop asks for next. -/
def fetchNext (client : IndexedWalletClient abi) (pageSize v2StartBlock indexedWalletBlockRange
    target fromBlock : Nat) : Except SyncError (IndexedWalletPage abi) :=
  fetch client pageSize (.forFromBlock fromBlock v2StartBlock) fromBlock
    ((forFromBlock fromBlock v2StartBlock).toBlock fromBlock target v2StartBlock
      indexedWalletBlockRange)

variable {client : IndexedWalletClient abi} {pageSize indexedWalletBlockRange target : Nat}
  {apply : Nat → IndexedWalletPage abi → WalletBackfillApplyResult}

/-- A page that is fetched is handed on, and the loop goes on after it. -/
theorem squidCatchUp_page
    (happly : ∀ pageFrom page, apply pageFrom page = .committed page.checkpointBlock)
    {fromBlock : Nat} (hle : fromBlock ≤ target) {page : IndexedWalletPage abi}
    (hfetch : fetchNext client pageSize v2StartBlock indexedWalletBlockRange target fromBlock
      = .ok page) (fuel : Nat) :
    squidCatchUp client pageSize v2StartBlock indexedWalletBlockRange apply target (fuel + 1)
        fromBlock =
      ((fromBlock, page) :: (squidCatchUp client pageSize v2StartBlock indexedWalletBlockRange apply
          target fuel (saturatingAdd page.checkpointBlock 1)).1,
        (squidCatchUp client pageSize v2StartBlock indexedWalletBlockRange apply target fuel
          (saturatingAdd page.checkpointBlock 1)).2) := by
  rw [fetchNext] at hfetch
  rw [squidCatchUp, if_neg (Nat.not_lt.mpr hle)]
  simp [hfetch, happly, WalletBackfillApplyResult.acceptedCommittedTo]

/-- What a page of the loop is like. -/
structure RoundPage (rows : (kind : WalletRowKind) → List (abi.Row kind))
    (v2StartBlock pageSize fromBlock target : Nat) (page : IndexedWalletPage abi) : Prop where
  start : fromBlock ≤ page.checkpointBlock
  within : page.checkpointBlock ≤ target
  uniform : ∀ blockNumber, fromBlock ≤ blockNumber → blockNumber ≤ page.checkpointBlock →
    forFromBlock blockNumber v2StartBlock = forFromBlock fromBlock v2StartBlock
  before : ∀ blockNumber, fromBlock ≤ blockNumber →
    CrowdedBlock rows v2StartBlock pageSize blockNumber → page.checkpointBlock < blockNumber
  complete : FirstBlockFits rows pageSize (forFromBlock 0 v2StartBlock) fromBlock →
    ∀ kind, page.rows kind = if kind ∈ (forFromBlock fromBlock v2StartBlock).streams then
        blocksIn (abi.rowBlock kind) (rows kind) fromBlock page.checkpointBlock
      else []
  later : ∀ kind, ∀ row ∈ page.rows kind, fromBlock ≤ abi.rowBlock kind row

theorem expectedRows_self (kind : WalletRowKind) (blockNumber : Nat) :
    expectedRows rows v2StartBlock kind blockNumber blockNumber = [] := by
  refine List.filter_eq_nil_iff.mpr fun row _ hin => ?_
  have := of_decide_eq_true hin
  omega

section Honest

variable (hhonest : HonestWalletIndexer client rows) (hsize : 0 < pageSize)

include hhonest hsize

/-- The next page fails at a block that fills it, or is as it should be. -/
theorem fetch_round (htarget : target < 2 ^ 64) {fromBlock : Nat} (hle : fromBlock ≤ target)
    (v2StartBlock indexedWalletBlockRange : Nat) :
    (CrowdedBlock rows v2StartBlock pageSize fromBlock ∧
      ∃ error, fetchNext client pageSize v2StartBlock indexedWalletBlockRange target fromBlock
        = .error error) ∨
    ∃ page, fetchNext client pageSize v2StartBlock indexedWalletBlockRange target fromBlock
        = .ok page ∧
      RoundPage rows v2StartBlock pageSize fromBlock target page := by
  rw [fetchNext]
  obtain ⟨hstart, hend⟩ := toBlock_bounds hle htarget v2StartBlock indexedWalletBlockRange
  generalize hto : (forFromBlock fromBlock v2StartBlock).toBlock fromBlock
    target v2StartBlock indexedWalletBlockRange = toBlock at hstart hend ⊢
  obtain ⟨checkpointBlock, hall, ⟨slowest, hslowest, heq⟩, herror, hok⟩ := fetch_spec hhonest
    pageSize (.forFromBlock fromBlock v2StartBlock) fromBlock toBlock
  have hbound : checkpointBlock ≤ toBlock := heq.trans_le (streamCheckpoint_le hsize)
  by_cases hlt : checkpointBlock < fromBlock
  · refine Or.inl ⟨⟨by omega, slowest, hslowest, ?_⟩, herror hlt⟩
    by_contra hsparse
    have : fromBlock ≤ kindCheckpoint rows pageSize fromBlock toBlock slowest :=
      le_streamCheckpoint hsize hstart fun _ => Nat.not_le.mp hsparse
    omega
  · have huniform : ∀ blockNumber, fromBlock ≤ blockNumber → blockNumber ≤ toBlock →
        forFromBlock blockNumber v2StartBlock =
          forFromBlock fromBlock v2StartBlock := fun blockNumber hlow hhigh =>
      forFromBlock_of_page hlow (hto ▸ hhigh)
    refine Or.inr ⟨_, hok (Nat.not_lt.mp hlt), Nat.not_lt.mp hlt, hbound.trans hend,
      fun blockNumber hlow hhigh => huniform blockNumber hlow (hhigh.trans hbound), ?_,
      fun hzero => cutPage_rows hhonest hsize (fun hfirst => by rw [hfirst]; exact hzero hfirst)
        hall,
      ?_⟩
    · -- A crowded block within the page would have cut it off before.
      rintro blockNumber hlow ⟨hpos, kind, hkind, hcount⟩
      by_contra hnot
      have hwithin : blockNumber ≤ toBlock := (Nat.not_lt.mp hnot).trans hbound
      rw [huniform blockNumber hlow hwithin] at hkind
      have hbefore := streamCheckpoint_lt_of_crowded hsize (hhonest.sorted kind) hpos hlow hwithin
        hcount
      exact hnot ((hall kind hkind).trans_lt hbefore)
    · intro kind row hrow
      simp only [cutPage] at hrow
      split at hrow
      · exact (mem_blocksIn.mp (mem_blocksIn_of_pageOf (List.mem_of_mem_filter hrow))).2.1
      · cases hrow

variable (happly : ∀ pageFrom page, apply pageFrom page = .committed page.checkpointBlock)

include happly

/-- The loop ends, and hands on every row of the blocks it gets through. It ends
    because there is a block after the target, or because a page fails at a
    block that fills it. -/
theorem squidCatchUp_exact (htarget : target < 2 ^ 64) {fromBlock : Nat}
    (hzero : FirstBlockFits rows pageSize (forFromBlock 0 v2StartBlock) fromBlock)
    (hstop : target = 2 ^ 64 - 1 → ∃ blockNumber, fromBlock ≤ blockNumber ∧ blockNumber ≤ target ∧
      CrowdedBlock rows v2StartBlock pageSize blockNumber) :
    ExactCatchUp rows v2StartBlock (fun fuel => squidCatchUp client pageSize v2StartBlock
      indexedWalletBlockRange apply target fuel fromBlock) fromBlock target := by
  induction hleft : target + 1 - fromBlock using Nat.strong_induction_on generalizing fromBlock with
  | _ left ih =>
    by_cases hdone : target < fromBlock
    · refine ⟨[], .completed, fromBlock, 1, fun fuel hfuel => ?_, rfl, Or.inl ⟨rfl, by omega⟩,
        fun kind => (expectedRows_self kind fromBlock).symm⟩
      obtain ⟨fuel, rfl⟩ := Nat.exists_eq_add_of_le' hfuel
      simp only [squidCatchUp, if_pos hdone]
    · have hle : fromBlock ≤ target := Nat.not_lt.mp hdone
      rcases fetch_round hhonest hsize htarget hle v2StartBlock indexedWalletBlockRange with
        ⟨_, error, hfetch⟩ | ⟨page, hfetch, hpage⟩
      · refine ⟨[], .failed error, fromBlock, 1, fun fuel hfuel => ?_, rfl,
          Or.inr ⟨⟨error, rfl⟩, hle⟩, fun kind => (expectedRows_self kind fromBlock).symm⟩
        obtain ⟨fuel, rfl⟩ := Nat.exists_eq_add_of_le' hfuel
        rw [fetchNext] at hfetch
        simp only [squidCatchUp, if_neg hdone, hfetch]
      · obtain ⟨hstart, hwithin, huniform, hbefore, hcomplete, _⟩ := hpage
        -- A crowded block is never passed.
        have hahead : target = 2 ^ 64 - 1 → ∃ blockNumber, page.checkpointBlock + 1 ≤ blockNumber ∧
            blockNumber ≤ target ∧ CrowdedBlock rows v2StartBlock pageSize blockNumber := by
          intro hlast
          obtain ⟨blockNumber, hlow, hhigh, hcrowded⟩ := hstop hlast
          exact ⟨blockNumber, hbefore blockNumber hlow hcrowded, hhigh, hcrowded⟩
        have hnext : saturatingAdd page.checkpointBlock 1 = page.checkpointBlock + 1 := by
          refine min_eq_left ?_
          by_cases hlast : target = 2 ^ 64 - 1 <;> omega
        obtain ⟨pages, ended, reached, bound, hrun, hreach, hended, hrows⟩ :=
          @ih (target + 1 - (page.checkpointBlock + 1)) (by omega) (page.checkpointBlock + 1)
            (by omega) hahead rfl
        refine ⟨(fromBlock, page) :: pages, ended, reached, bound + 1, fun fuel hfuel => ?_,
          ⟨rfl, hstart, hreach⟩, hended.imp_left fun hcompleted => ⟨hcompleted.1, by omega⟩,
          fun kind => ?_⟩
        · obtain ⟨fuel, rfl⟩ := Nat.exists_eq_add_of_le' (Nat.le_of_add_left_le hfuel)
          simp [squidCatchUp_page happly hle hfetch, hnext, hrun fuel (by omega)]
        · rw [List.flatMap_cons, hrows, hcomplete hzero]
          exact blocksIn_append_expectedRows (hhonest.sorted kind) hstart hreach.le huniform

/-- Up to the last block number and with no block that fills a page, the loop goes on. -/
theorem squidCatchUp_outOfFuel {fromBlock : Nat} (hle : fromBlock ≤ 2 ^ 64 - 1)
    (hsparse : ∀ blockNumber, fromBlock ≤ blockNumber → blockNumber ≤ 2 ^ 64 - 1 →
      ¬CrowdedBlock rows v2StartBlock pageSize blockNumber) (fuel : Nat) :
    (squidCatchUp client pageSize v2StartBlock indexedWalletBlockRange apply (2 ^ 64 - 1) fuel
      fromBlock).2 = .outOfFuel := by
  induction fuel generalizing fromBlock with
  | zero => rfl
  | succ fuel ih =>
    rcases fetch_round hhonest hsize (by decide) hle v2StartBlock indexedWalletBlockRange with
      ⟨hcrowded, _⟩ | ⟨page, hfetch, hpage⟩
    · exact absurd hcrowded (hsparse fromBlock le_rfl hle)
    · rw [squidCatchUp_page happly hle hfetch]
      -- The next page does not start before this one, nor after the last block.
      have hstart := hpage.start
      refine ih (min_le_right _ _) fun blockNumber hlow hhigh => hsparse blockNumber ?_ hhigh
      simp only [saturatingAdd] at hlow
      omega

/-- No row that is handed on is from before the first block. -/
theorem squidCatchUp_later (htarget : target < 2 ^ 64) (fuel : Nat) {fromBlock : Nat}
    (hword : fromBlock < 2 ^ 64) :
    ∀ entry ∈ (squidCatchUp client pageSize v2StartBlock indexedWalletBlockRange apply target fuel
      fromBlock).1, ∀ kind, ∀ row ∈ entry.2.rows kind, fromBlock ≤ abi.rowBlock kind row := by
  induction fuel generalizing fromBlock with
  | zero => simp only [squidCatchUp, List.not_mem_nil, false_implies, implies_true]
  | succ fuel ih =>
    by_cases hdone : target < fromBlock
    · simp [squidCatchUp, if_pos hdone]
    · have hle : fromBlock ≤ target := Nat.not_lt.mp hdone
      rcases fetch_round hhonest hsize htarget hle v2StartBlock indexedWalletBlockRange with
        ⟨_, error, hfetch⟩ | ⟨page, hfetch, hpage⟩
      · rw [fetchNext] at hfetch
        simp [squidCatchUp, if_neg hdone, hfetch]
      · rw [squidCatchUp_page happly hle hfetch]
        have hstart := hpage.start
        refine List.forall_mem_cons.mpr ⟨hpage.later, fun entry hentry kind row hrow => ?_⟩
        have hlater := ih (by simp only [saturatingAdd]; omega) entry hentry kind row hrow
        simp only [saturatingAdd] at hlater
        omega

/-- If a page is cut off within block zero, what is missing is never handed on. -/
theorem squidCatchUp_not_exact (htarget : target < 2 ^ 64) {kind : WalletRowKind}
    (hkind : kind ∈ (forFromBlock 0 v2StartBlock).streams)
    (hcrowded : pageSize < rowsInBlock (abi.rowBlock kind) (rows kind) 0) :
    ¬ExactCatchUp rows v2StartBlock (fun fuel => squidCatchUp client pageSize v2StartBlock
      indexedWalletBlockRange apply target fuel 0) 0 target := by
  rintro ⟨pages, ended, reached, bound, hrun, hreach, _, hrows⟩
  obtain ⟨page, hfetch, hcheckpoint, hlength⟩ := @fetch_zero _ _ _ _
    ((forFromBlock 0 v2StartBlock).toBlock 0 target v2StartBlock
      indexedWalletBlockRange) _ hhonest hsize _ hkind hcrowded
  have hfirst := squidCatchUp_page happly (Nat.zero_le target) hfetch bound
  have hlater := @squidCatchUp_later _ _ v2StartBlock _ _ indexedWalletBlockRange _ _ hhonest hsize
    happly htarget bound (saturatingAdd page.checkpointBlock 1)
      (by simp only [saturatingAdd]; omega)
  rw [show squidCatchUp client pageSize v2StartBlock indexedWalletBlockRange apply target
    (bound + 1) 0 = (pages, ended) from hrun _ (Nat.le_succ _)] at hfirst
  generalize squidCatchUp client pageSize v2StartBlock indexedWalletBlockRange apply target bound
    (saturatingAdd page.checkpointBlock 1) = rest at hfirst hlater
  obtain ⟨rfl, rfl⟩ := Prod.mk.inj hfirst
  -- Of block zero, the pages have what is on the first, but there is more.
  have hexpected : rowsInBlock (abi.rowBlock kind) (rows kind) 0 ≤
      ((expectedRows rows v2StartBlock kind 0 reached).filter fun row =>
        abi.rowBlock kind row = 0).length := by
    have hreached : 0 < reached := (Nat.succ_pos _).trans_le hreach.2.2.le
    rw [rowsInBlock, expectedRows, List.filter_filter]
    refine (List.monotone_filter_right _ fun row hrow => ?_).length_le
    have hblock := of_decide_eq_true hrow
    rw [hblock, Bool.and_eq_true, decide_eq_true_iff, decide_eq_true_iff]
    exact ⟨rfl, Nat.le_refl 0, hreached, hkind⟩
  have hnone : ((rest.1.flatMap fun entry => entry.2.rows kind).filter fun row =>
      abi.rowBlock kind row = 0) = [] := by
    refine List.filter_eq_nil_iff.mpr fun row hrow hblock => ?_
    obtain ⟨entry, hentry, hmem⟩ := List.mem_flatMap.mp hrow
    have hpos := hlater entry hentry kind row hmem
    rw [of_decide_eq_true hblock, hcheckpoint] at hpos
    exact absurd hpos (by decide)
  rw [← hrows, List.flatMap_cons, List.filter_append, hnone, List.append_nil] at hexpected
  have hless : rowsInBlock (abi.rowBlock kind) (rows kind) 0 ≤ (page.rows kind).length :=
    hexpected.trans (List.length_filter_le _ _)
  omega

end Honest

end Loop

end CatchUp

/-- When pages and loop are exact. Whatever the rows of an honest indexer and
    the page size, a page has all rows of its streams up to its checkpoint, or
    is an error, exactly if it does not start at block zero or that fits on it.
    The loop ends, and hands on all rows of the blocks it gets through once and
    in order, exactly if that holds for its first page and, if the target is the
    last block number, some block on the way fills a page. -/
theorem indexed_wallet_paging {abi : WalletScanAbi} {client : IndexedWalletClient abi}
    {rows : (kind : WalletRowKind) → List (abi.Row kind)}
    (hhonest : HonestWalletIndexer client rows) {pageSize : Nat} (hsize : 0 < pageSize)
    {apply : Nat → IndexedWalletPage abi → WalletBackfillApplyResult}
    (happly : ∀ pageFrom page, apply pageFrom page = .committed page.checkpointBlock)
    (v2StartBlock indexedWalletBlockRange : Nat) :
    (∀ pageKind fromBlock toBlock,
      ExactPage rows pageKind fromBlock toBlock
        (fetch client pageSize pageKind fromBlock toBlock) ↔
      (fromBlock = 0 → ∀ kind ∈ pageKind.streams,
        rowsInBlock (abi.rowBlock kind) (rows kind) 0 ≤ pageSize)) ∧
    ∀ fromBlock target, fromBlock < 2 ^ 64 → target < 2 ^ 64 →
      (ExactCatchUp rows v2StartBlock (fun fuel => squidCatchUp client pageSize v2StartBlock
          indexedWalletBlockRange apply target fuel fromBlock) fromBlock target ↔
        (fromBlock = 0 →
          ∀ kind ∈ (forFromBlock 0 v2StartBlock).streams,
            rowsInBlock (abi.rowBlock kind) (rows kind) 0 ≤ pageSize) ∧
        (target = 2 ^ 64 - 1 → ∃ blockNumber, fromBlock ≤ blockNumber ∧ blockNumber ≤ target ∧
          CrowdedBlock rows v2StartBlock pageSize blockNumber)) := by
  refine ⟨fun pageKind fromBlock toBlock => fetch_exact_iff hhonest hsize,
    fun fromBlock target hfrom htarget => ⟨fun hexact => ⟨?_, ?_⟩, fun ⟨hzero, hstop⟩ =>
      squidCatchUp_exact hhonest hsize happly htarget hzero hstop⟩⟩
  · rintro rfl kind hkind
    by_contra hcrowded
    exact squidCatchUp_not_exact hhonest hsize happly htarget hkind (Nat.not_le.mp hcrowded) hexact
  · rintro rfl
    by_contra hsparse
    obtain ⟨pages, ended, reached, bound, hrun, _, hended, _⟩ := hexact
    have hforever := @squidCatchUp_outOfFuel _ rows v2StartBlock _ _ indexedWalletBlockRange _
      hhonest hsize happly _ (Nat.le_pred_of_lt hfrom)
      (fun blockNumber hlow hhigh hcrowded => hsparse ⟨blockNumber, hlow, hhigh, hcrowded⟩) bound
    rw [show squidCatchUp client pageSize v2StartBlock indexedWalletBlockRange apply (2 ^ 64 - 1)
      bound fromBlock = (pages, ended) from hrun bound le_rfl] at hforever
    rcases hended with ⟨rfl, _⟩ | ⟨⟨error, rfl⟩, _⟩ <;> cases hforever

/-- An indexer that answers from a table. -/
def tableIndexer {abi : WalletScanAbi} (rows : (kind : WalletRowKind) → List (abi.Row kind)) :
    IndexedWalletClient abi where
  fetchIndexedWalletPage fromBlock toBlock pageSize :=
    .ok fun kind => pageOf (abi.rowBlock kind) (rows kind) pageSize fromBlock toBlock
  fetchIndexedLegacyWalletPage fromBlock toBlock pageSize :=
    .ok fun kind => pageOf (abi.rowBlock kind) (rows kind) pageSize fromBlock toBlock

theorem tableIndexer_honest {abi : WalletScanAbi}
    {rows : (kind : WalletRowKind) → List (abi.Row kind)}
    (hsorted : ∀ kind, (rows kind).Pairwise fun a b => abi.rowBlock kind a ≤ abi.rowBlock kind b) :
    HonestWalletIndexer (tableIndexer rows) rows :=
  ⟨hsorted, fun _ _ _ => ⟨_, rfl, fun _ _ => rfl⟩, fun _ _ _ => ⟨_, rfl, fun _ _ => rfl⟩⟩

/-- So many nullifiers in block zero, and no other rows. -/
def nullifiersAtZero (count : Nat) : (kind : WalletRowKind) → List (plainAbi.Row kind)
  | .nullifier => List.replicate count ⟨0, 1, 0, 0, 0⟩
  | .transact | .shield | .legacyEncrypted | .legacyGenerated => []

theorem nullifiersAtZero_honest (count : Nat) :
    HonestWalletIndexer (tableIndexer (nullifiersAtZero count)) (nullifiersAtZero count) := by
  refine tableIndexer_honest fun kind => ?_
  cases kind with
  | nullifier => exact List.pairwise_replicate.mpr (.inr le_rfl)
  | _ => exact List.Pairwise.nil

theorem rowsInBlock_nullifiersAtZero (count : Nat) :
    rowsInBlock (plainAbi.rowBlock .nullifier) (nullifiersAtZero count .nullifier) 0 = count := by
  rw [rowsInBlock, List.filter_eq_self.mpr fun row hrow => ?_]
  · exact List.length_replicate
  · rw [List.eq_of_mem_replicate hrow]
    rfl

/-- Pages of three rows have room for two nullifiers. -/
theorem indexed_wallet_paging_twoNullifiers :
    ExactPage (nullifiersAtZero 2) .modern 0 9
        (fetch (tableIndexer (nullifiersAtZero 2)) 3 .modern 0 9) ∧
      ExactCatchUp (nullifiersAtZero 2) 0 (fun fuel => squidCatchUp
        (tableIndexer (nullifiersAtZero 2)) 3 0 10 (fun _ page => .committed page.checkpointBlock) 9
          fuel 0) 0 9 := by
  have hfits : ∀ kind, rowsInBlock (plainAbi.rowBlock kind) (nullifiersAtZero 2 kind) 0 ≤ 3 := by
    intro kind
    cases kind <;> decide
  have hpaging := @indexed_wallet_paging _ _ _ (nullifiersAtZero_honest 2) 3 (by decide)
    (fun _ page => .committed page.checkpointBlock) (fun _ _ => rfl) 0 10
  exact ⟨(hpaging.1 .modern 0 9).mpr fun _ kind _ => hfits kind,
    (hpaging.2 0 9 (by decide) (by decide)).mpr
      ⟨fun _ kind _ => hfits kind, fun hlast => absurd hlast (by decide)⟩⟩

/-- A page of 10000 rows that has not all nullifiers of block zero is accepted as
    complete, and what is missing is never handed on. -/
theorem indexed_wallet_page_cut_off :
    HonestWalletIndexer (tableIndexer (nullifiersAtZero 10001)) (nullifiersAtZero 10001) ∧
    rowsInBlock (plainAbi.rowBlock .nullifier) (nullifiersAtZero 10001 .nullifier) 0 = 10001 ∧
    (∃ page, fetch (tableIndexer (nullifiersAtZero 10001)) 10000 .modern 0 9 = .ok page ∧
      page.checkpointBlock = 0 ∧ (page.rows .nullifier).length = 10000) ∧
    ¬ ExactCatchUp (nullifiersAtZero 10001) 0 (fun fuel => squidCatchUp
      (tableIndexer (nullifiersAtZero 10001)) 10000 0 10
        (fun _ page => .committed page.checkpointBlock) 9 fuel 0) 0 9 := by
  have hhonest := nullifiersAtZero_honest 10001
  have hcount := rowsInBlock_nullifiersAtZero 10001
  have hcrowded : 10000 < rowsInBlock (plainAbi.rowBlock .nullifier)
      (nullifiersAtZero 10001 .nullifier) 0 := by
    rw [hcount]
    decide
  exact ⟨hhonest, hcount, fetch_zero hhonest (by decide) (by decide) hcrowded,
    squidCatchUp_not_exact hhonest (by decide) (fun _ _ => rfl) (by decide) (by decide) hcrowded⟩

end Railgun
