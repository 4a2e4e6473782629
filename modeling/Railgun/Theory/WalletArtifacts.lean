import Railgun.Core.WalletArtifacts
import Railgun.Lib.Fallible

/-!
# Pages of Wallet Artifacts

A session decides once how far its chunks can be trusted, and every page walks
over the coverage again, from its own first block. The walk of a page never
stops before the walk that has fixed the target: whatever range the first walk
has used up to its end, the later walk either uses as well or has passed
already. So a page always reaches the block it was asked for, or the target.

## Theorems

* `targetAfterChunks_spec`: No chunk in the way ends before the target.
-/

namespace Railgun

open WalletScanArtifactCoverage WalletScanChunkBounds
open WalletScanArtifactCursor (readRowList isWanted readSection)
open IndexedWalletPage (decodeSection decodeFromChunk)

section Walk

variable {fromBlock targetBlock nextStart : Nat} {range : WalletScanCoverageRange}
  {ranges : List WalletScanCoverageRange} {checkpoint : Option Nat}

/-- The walk ends at the target in a range that is complete up to it. -/
theorem walkRanges_reaches (hstart : range.start ≤ nextStart) (hnext : nextStart ≤ targetBlock)
    (hfinish : targetBlock ≤ range.finish) (hcomplete : targetBlock ≤ range.checkpointBlock) :
    walkRanges fromBlock targetBlock (range :: ranges) nextStart checkpoint =
      .ok (.available targetBlock) := by
  have hend : min range.finish targetBlock = targetBlock := min_eq_right hfinish
  have hcheckpoint : min range.checkpointBlock targetBlock = targetBlock := min_eq_right hcomplete
  rw [walkRanges, if_neg (by omega), if_neg (by omega), if_neg (by omega)]
  simp only [hend, hcheckpoint, lt_irrefl, le_refl, if_false, if_true]

/-- The walk goes on after a complete range that ends before the target. -/
theorem walkRanges_uses (hword : range.finish + 1 < 2 ^ 64) (hstart : range.start ≤ nextStart)
    (hnext : nextStart ≤ range.finish) (hfinish : range.finish < targetBlock)
    (hcomplete : range.finish ≤ range.checkpointBlock)
    (hcheckpoint : ∀ current ∈ checkpoint, current ≤ range.finish) :
    walkRanges fromBlock targetBlock (range :: ranges) nextStart checkpoint =
      walkRanges fromBlock targetBlock ranges (range.finish + 1) (some range.finish) := by
  have hend : min range.finish targetBlock = range.finish := min_eq_left hfinish.le
  have hcomplete' : min range.checkpointBlock range.finish = range.finish := min_eq_right hcomplete
  have hafter : saturatingAdd range.finish 1 = range.finish + 1 := min_eq_left (by omega)
  have hmax : (checkpoint.elim range.finish fun current => max current range.finish) =
      range.finish := by
    cases checkpoint with
    | none => rfl
    | some current => exact max_eq_right (hcheckpoint current rfl)
  rw [walkRanges, if_neg (by omega), if_neg (by omega), if_neg (by omega)]
  simp [hend, hcomplete', hafter, hmax, Nat.not_le.mpr hfinish]

/-- The walk stops at the checkpoint of a range that is not complete. -/
theorem walkRanges_stops (hstart : range.start ≤ nextStart)
    (hnext : nextStart ≤ range.checkpointBlock) (hfinish : range.checkpointBlock < range.finish)
    (htarget : range.checkpointBlock < targetBlock) :
    walkRanges fromBlock targetBlock (range :: ranges) nextStart checkpoint =
      .ok (.available range.checkpointBlock) := by
  have hend : range.checkpointBlock < min range.finish targetBlock := lt_min hfinish htarget
  have hcheckpoint : min range.checkpointBlock (min range.finish targetBlock) =
      range.checkpointBlock := min_eq_left hend.le
  rw [walkRanges, if_neg (by omega), if_neg (by omega), if_neg (by omega)]
  simp only [hcheckpoint, hend, if_true]

/-- Without a further range the walk has reached the block before. -/
theorem checkpointAfterRanges_lt {status : WalletScanCoverageStatus}
    (hstatus : checkpointAfterRanges fromBlock checkpoint = .ok status)
    (hcheckpoint : ∀ current ∈ checkpoint, current + 1 = nextStart) :
    status.checkpointBlock < nextStart := by
  cases checkpoint with
  | none => cases hstatus
  | some current =>
    cases hstatus
    have := hcheckpoint current rfl
    change current < nextStart
    omega

/-- A walk that ends at a range has not got past the first block that is missing. -/
theorem walkRanges_ends {status : WalletScanCoverageStatus} (hpassed : nextStart ≤ range.finish)
    (hends : nextStart < range.start ∨ range.checkpointBlock < nextStart)
    (hwalk : walkRanges fromBlock targetBlock (range :: ranges) nextStart checkpoint = .ok status)
    (hcheckpoint : ∀ current ∈ checkpoint, current + 1 = nextStart) :
    status.checkpointBlock < nextStart := by
  rw [walkRanges, if_neg (Nat.not_lt.mpr hpassed)] at hwalk
  by_cases hgap : nextStart < range.start
  · rw [if_pos hgap] at hwalk
    exact checkpointAfterRanges_lt hwalk hcheckpoint
  · have hexhausted := hends.resolve_left hgap
    rw [if_neg hgap, if_pos hexhausted] at hwalk
    cases hwalk
    cases checkpoint with
    | none => exact hexhausted
    | some current =>
      have := hcheckpoint current rfl
      change max current range.checkpointBlock < nextStart
      omega

/-- A walk that starts later, and is not asked for more than an earlier walk has
    found, finds all that it is asked for. -/
theorem walkRanges_later (hword : targetBlock < 2 ^ 64) {status : WalletScanCoverageStatus}
    (hnext : nextStart ≤ targetBlock)
    (hwalk : walkRanges fromBlock targetBlock ranges nextStart checkpoint = .ok status)
    (hcheckpoint : ∀ current ∈ checkpoint, current + 1 = nextStart)
    {laterFrom laterTarget laterStart : Nat} {laterCheckpoint : Option Nat}
    (hlater : nextStart ≤ laterStart) (hstart : laterStart ≤ laterTarget)
    (htarget : laterTarget ≤ status.checkpointBlock)
    (hlaterCheckpoint : ∀ current ∈ laterCheckpoint, current < laterStart) :
    walkRanges laterFrom laterTarget ranges laterStart laterCheckpoint =
      .ok (.available laterTarget) := by
  -- Both walks go over the same ranges, and the later one stays ahead.
  induction ranges generalizing nextStart checkpoint laterStart laterCheckpoint with
  | nil =>
    have := checkpointAfterRanges_lt hwalk hcheckpoint
    omega
  | cons range ranges ih =>
    by_cases hpassed : range.finish < nextStart
    · rw [walkRanges, if_pos hpassed] at hwalk
      rw [walkRanges, if_pos (by omega)]
      exact ih hnext hwalk hcheckpoint hlater hstart hlaterCheckpoint
    by_cases hends : nextStart < range.start ∨ range.checkpointBlock < nextStart
    · have := walkRanges_ends (Nat.not_lt.mp hpassed) hends hwalk hcheckpoint
      omega
    by_cases hstops : range.checkpointBlock < range.finish ∧ range.checkpointBlock < targetBlock
    · rw [walkRanges_stops (by omega) (by omega) hstops.1 hstops.2] at hwalk
      cases hwalk
      change laterTarget ≤ range.checkpointBlock at htarget
      exact walkRanges_reaches (by omega) hstart (by omega) htarget
    by_cases hreaches : targetBlock ≤ range.finish
    · rw [walkRanges_reaches (by omega) hnext hreaches (by omega)] at hwalk
      cases hwalk
      change laterTarget ≤ targetBlock at htarget
      exact walkRanges_reaches (by omega) hstart (by omega) (by omega)
    have hafter : ∀ current ∈ some range.finish, current + 1 = range.finish + 1 := by
      rintro current ⟨⟩
      rfl
    rw [walkRanges_uses (by omega) (by omega) (by omega) (by omega) (by omega) (by grind)] at hwalk
    by_cases hlaterPassed : range.finish < laterStart
    · rw [walkRanges, if_pos hlaterPassed]
      exact ih (by omega) hwalk hafter (by omega) hstart hlaterCheckpoint
    by_cases hlaterReaches : laterTarget ≤ range.finish
    · exact walkRanges_reaches (by omega) hstart hlaterReaches (by omega)
    rw [walkRanges_uses (by omega) (by omega) (by omega) (by omega) (by omega) (by grind)]
    exact ih (by omega) hwalk hafter le_rfl (by omega) (by grind)

end Walk

theorem intersects_iff {range : IndexedArtifactRange} {start finish : Nat} :
    range.intersects start finish = true ↔
      range.start ≤ range.finish ∧ start ≤ finish ∧ range.start ≤ finish ∧
        start ≤ range.finish :=
  decide_eq_true_iff

theorem ofDescriptor_eq_ok {descriptor : IndexedArtifactDescriptor} {bounds : WalletScanChunkBounds}
    (hbounds : ofDescriptor descriptor = .ok bounds) :
    bounds.rangeStart = descriptor.range.start ∧ bounds.rangeEnd = descriptor.range.finish := by
  obtain ⟨checkpointBlock, -, hbounds⟩ := bind_eq_ok.mp hbounds
  cases hbounds
  exact ⟨rfl, rfl⟩

/-- No chunk in the way is incomplete before the target. -/
theorem targetAfterChunks_spec {fromBlock : Nat} {descriptors : List IndexedArtifactDescriptor}
    {targetBlock reached : Nat}
    (htarget : targetAfterChunks fromBlock descriptors targetBlock = .ok reached) :
    reached ≤ targetBlock ∧ ∀ descriptor ∈ descriptors,
      descriptor.range.intersects fromBlock reached = true →
        ∃ bounds, ofDescriptor descriptor = .ok bounds ∧
          (bounds.checkpointBlock < bounds.rangeEnd → reached ≤ bounds.checkpointBlock) := by
  induction descriptors generalizing targetBlock with
  | nil =>
    cases htarget
    exact ⟨le_rfl, nofun⟩
  | cons head descriptors ih =>
    cases hway : head.range.intersects fromBlock targetBlock with
    | false =>
      rw [targetAfterChunks, hway] at htarget
      obtain ⟨hle, hrest⟩ := ih htarget
      refine ⟨hle, List.forall_mem_cons.mpr ⟨fun hreached => ?_, hrest⟩⟩
      -- What is not in the way of the target is not in the way of less.
      rw [intersects_iff] at hreached
      have := intersects_iff.not.mp (Bool.eq_false_iff.mp hway)
      omega
    | true =>
      rw [targetAfterChunks, hway] at htarget
      obtain ⟨bounds, hbounds, htarget⟩ := bind_eq_ok.mp htarget
      obtain ⟨hle, hrest⟩ := ih htarget
      refine ⟨by split at hle <;> omega, List.forall_mem_cons.mpr
        ⟨fun _ => ⟨bounds, hbounds, fun hincomplete => ?_⟩, hrest⟩⟩
      rw [if_pos hincomplete] at hle
      omega

section Rows

variable {abi : WalletScanAbi}

/-- A page without the rows that are not asked for. -/
def IndexedWalletPage.filterRows (page : IndexedWalletPage abi) (bounds : WalletScanRowBounds) :
    IndexedWalletPage abi :=
  { page with
    rows := fun kind => (page.rows kind).filter fun row =>
      bounds.contains (abi.rowSource kind row) }

/-- The rows of a page are from these blocks. -/
def IndexedWalletPage.Within (page : IndexedWalletPage abi) (start finish : Nat) : Prop :=
  ∀ kind, ∀ row ∈ page.rows kind, start ≤ (abi.rowSource kind row).blockNumber ∧
    (abi.rowSource kind row).blockNumber ≤ finish

theorem validateSource_eq_ok {bounds : WalletScanChunkBounds} {source : UtxoSource} {u : Unit}
    (hvalid : bounds.validateSource source = .ok u) :
    bounds.rangeStart ≤ source.blockNumber ∧ source.blockNumber ≤ bounds.rangeEnd := by
  cases hin : sourceInRange source bounds.rangeStart bounds.rangeEnd with
  | false =>
    rw [validateSource, hin] at hvalid
    cases hvalid
  | true => exact of_decide_eq_true hin

variable {chunkBounds : WalletScanChunkBounds}

/-- The rows that are asked for are those of all rows, which are from the chunk's
    blocks. -/
theorem readRowList_filter {kind : WalletRowKind}
    (bounds : WalletScanRowBounds) {count : Nat} {bytes rest : List UInt8}
    {rows : List (abi.Row kind)}
    (hread : (readRowList abi kind chunkBounds none count).exec bytes = (.ok rows, rest)) :
    (readRowList abi kind chunkBounds (some bounds) count).exec bytes =
        (.ok (rows.filter fun row => bounds.contains (abi.rowSource kind row)), rest) ∧
      ∀ row ∈ rows, chunkBounds.rangeStart ≤ (abi.rowSource kind row).blockNumber ∧
        (abi.rowSource kind row).blockNumber ≤ chunkBounds.rangeEnd := by
  induction count generalizing bytes rows with
  | zero =>
    obtain ⟨rfl, rfl⟩ := exec_pure_eq_ok.mp hread
    exact ⟨rfl, nofun⟩
  | succ count ih =>
    obtain ⟨row, bytes', hrow, hread⟩ := exec_bind_eq_ok.mp hread
    obtain ⟨u, hvalid, hread⟩ := exec_ofExcept_bind_eq_ok.mp hread
    obtain ⟨later, rest', hlater, hread⟩ := exec_bind_eq_ok.mp hread
    obtain ⟨rfl, rfl⟩ := exec_pure_eq_ok.mp hread
    obtain ⟨hfilter, hwithin⟩ := ih hlater
    have hall : (if isWanted none (abi.rowSource kind row) then
        row :: later else later) = row :: later := rfl
    rw [hall]
    refine ⟨exec_bind_eq_ok.mpr ⟨row, bytes', hrow, exec_ofExcept_bind_eq_ok.mpr ⟨u, hvalid,
      exec_bind_eq_ok.mpr ⟨_, _, hfilter, exec_pure_eq_ok.mpr ⟨?_, rfl⟩⟩⟩⟩,
      List.forall_mem_cons.mpr ⟨validateSource_eq_ok hvalid, hwithin⟩⟩
    rw [List.filter_cons]
    rfl

/-- The same for a whole section. -/
theorem readSection_filter {kind : WalletRowKind}
    (bounds : WalletScanRowBounds) {count : Nat} {bytes : List UInt8} {rows : List (abi.Row kind)}
    (hread : ((readSection abi kind chunkBounds none).exec bytes).1 = .ok (rows, count)) :
    ((readSection abi kind chunkBounds (some bounds)).exec bytes).1 =
        .ok (rows.filter fun row => bounds.contains (abi.rowSource kind row), count) ∧
      ∀ row ∈ rows, chunkBounds.rangeStart ≤ (abi.rowSource kind row).blockNumber ∧
        (abi.rowSource kind row).blockNumber ≤ chunkBounds.rangeEnd := by
  obtain ⟨rest, hread⟩ : ∃ rest, (readSection abi kind chunkBounds
      none).exec bytes = (.ok (rows, count), rest) := ⟨_, Prod.ext hread rfl⟩
  obtain ⟨result, bytes₁, hrows, hread⟩ := exec_bind_eq_ok.mp hread
  obtain ⟨u, bytes₂, heof, hread⟩ := exec_bind_eq_ok.mp hread
  obtain ⟨rfl, rfl⟩ := exec_pure_eq_ok.mp hread
  obtain ⟨number, bytes₃, hnumber, hrows⟩ := exec_bind_eq_ok.mp hrows
  obtain ⟨read, bytes₄, hlist, hrows⟩ := exec_bind_eq_ok.mp hrows
  obtain ⟨hpair, rfl⟩ := exec_pure_eq_ok.mp hrows
  obtain ⟨rfl, rfl⟩ := Prod.mk.inj hpair
  obtain ⟨hfilter, hwithin⟩ := readRowList_filter bounds hlist
  have hexec : (readSection abi kind chunkBounds (some bounds)).exec
      bytes = (.ok (read.filter fun row => bounds.contains (abi.rowSource kind row), number),
        bytes₂) :=
    exec_bind_eq_ok.mpr ⟨_, bytes₄, exec_bind_eq_ok.mpr ⟨number, bytes₃, hnumber,
      exec_bind_eq_ok.mpr ⟨_, bytes₄, hfilter, rfl⟩⟩,
      exec_bind_eq_ok.mpr ⟨u, bytes₂, heof, rfl⟩⟩
  rw [hexec]
  exact ⟨rfl, hwithin⟩

theorem filterRows_update (page : IndexedWalletPage abi) (bounds : WalletScanRowBounds)
    (kind : WalletRowKind) (rows : List (abi.Row kind)) :
    { page with rows := Function.update page.rows kind rows }.filterRows bounds =
      { page.filterRows bounds with
        rows := Function.update (page.filterRows bounds).rows kind
          (rows.filter fun row => bounds.contains (abi.rowSource kind row)) } := by
  unfold IndexedWalletPage.filterRows
  congr 1
  funext kind'
  by_cases hkind : kind' = kind
  · subst hkind
    simp only [Function.update_self]
  · simp only [Function.update_of_ne hkind]

/-- The same for the page a section is read into. -/
theorem decodeSection_filter {envelope : IndexedArtifactEnvelope} (bounds : WalletScanRowBounds)
    {decoded decoded' : IndexedWalletPage abi × Nat} {sectionId : Nat}
    (hdecode : decodeSection envelope chunkBounds none decoded sectionId = .ok decoded')
    (hwithin : decoded.1.Within chunkBounds.rangeStart chunkBounds.rangeEnd) :
    decodeSection envelope chunkBounds (some bounds)
        (decoded.1.filterRows bounds, decoded.2) sectionId =
        .ok (decoded'.1.filterRows bounds, decoded'.2) ∧
      decoded'.1.Within chunkBounds.rangeStart chunkBounds.rangeEnd := by
  obtain ⟨payload, hpayload, hdecode⟩ := bind_eq_ok.mp hdecode
  cases hkind : WalletRowKind.ofSectionId sectionId with
  | none =>
    rw [hkind] at hdecode
    cases hdecode
  | some kind =>
    rw [hkind] at hdecode
    obtain ⟨⟨rows, count⟩, hexec, hdecode⟩ := bind_eq_ok.mp hdecode
    cases hdecode
    obtain ⟨hfilter, hrows⟩ := readSection_filter bounds hexec
    refine ⟨?_, fun kind' row hmem => ?_⟩
    · rw [filterRows_update]
      refine bind_eq_ok.mpr ⟨payload, hpayload, ?_⟩
      rw [hkind]
      exact bind_eq_ok.mpr ⟨_, hfilter, rfl⟩
    · change row ∈ Function.update decoded.1.rows kind rows kind' at hmem
      by_cases hsame : kind' = kind
      · subst hsame
        rw [Function.update_self] at hmem
        exact hrows row hmem
      · rw [Function.update_of_ne hsame] at hmem
        exact hwithin kind' row hmem

theorem decodeSections_filter {envelope : IndexedArtifactEnvelope} (bounds : WalletScanRowBounds)
    {sectionIds : List Nat}
    {decoded decoded' : IndexedWalletPage abi × Nat}
    (hdecode : sectionIds.foldlM (decodeSection envelope chunkBounds none) decoded = .ok decoded')
    (hwithin : decoded.1.Within chunkBounds.rangeStart chunkBounds.rangeEnd) :
    sectionIds.foldlM (decodeSection envelope chunkBounds (some bounds))
        (decoded.1.filterRows bounds, decoded.2) =
        .ok (decoded'.1.filterRows bounds, decoded'.2) ∧
      decoded'.1.Within chunkBounds.rangeStart chunkBounds.rangeEnd := by
  induction sectionIds generalizing decoded with
  | nil =>
    cases hdecode
    exact ⟨rfl, hwithin⟩
  | cons sectionId sectionIds ih =>
    obtain ⟨next, hnext, hdecode⟩ := bind_eq_ok.mp hdecode
    obtain ⟨hfilter, hwithin⟩ := decodeSection_filter bounds hnext hwithin
    obtain ⟨hrest, hwithin⟩ := ih hdecode hwithin
    exact ⟨bind_eq_ok.mpr ⟨_, hfilter, hrest⟩, hwithin⟩

/-- A chunk that can be read can be read for some rows only, and its rows are
    from its blocks. -/
theorem decodeFromChunk_filter {chunk : VerifiedIndexedArtifactChunk}
    (bounds : WalletScanRowBounds) {page : IndexedWalletPage abi}
    (hdecode : decodeFromChunk chunk none = .ok page) :
    decodeFromChunk chunk (some bounds) = .ok (page.filterRows bounds) ∧
      page.Within chunk.descriptor.range.start chunk.descriptor.range.finish := by
  obtain ⟨envelope, henvelope, hdecode⟩ := bind_eq_ok.mp hdecode
  rw [ite_error_eq_ok, ite_error_eq_ok, ite_error_eq_ok] at hdecode
  obtain ⟨hdataset, hchain, hrange, hdecode⟩ := hdecode
  obtain ⟨chunkBounds, hbounds, hdecode⟩ := bind_eq_ok.mp hdecode
  obtain ⟨decoded, hsections, hdecode⟩ := bind_eq_ok.mp hdecode
  obtain ⟨hcount, hdecode⟩ := ite_error_eq_ok.mp hdecode
  cases hdecode
  obtain ⟨hstart, hend⟩ := ofDescriptor_eq_ok hbounds
  obtain ⟨hfilter, hwithin⟩ := decodeSections_filter bounds hsections nofun
  rw [← hstart, ← hend]
  refine ⟨bind_eq_ok.mpr ⟨envelope, henvelope, ?_⟩, hwithin⟩
  rw [ite_error_eq_ok, ite_error_eq_ok, ite_error_eq_ok]
  exact ⟨hdataset, hchain, hrange, bind_eq_ok.mpr ⟨chunkBounds, hbounds,
    bind_eq_ok.mpr ⟨_, hfilter, ite_error_eq_ok.mpr ⟨hcount, rfl⟩⟩⟩⟩

end Rows

section Sessions

open IndexedWalletArtifactSession

variable {abi : WalletScanAbi} {cached : IndexedArtifactDescriptor → Bool}
  {content : IndexedArtifactDescriptor → Except SyncError IndexedArtifactEnvelope}

/-- The chunk of a descriptor and its place among the descriptors. -/
def fetchedChunk (content : IndexedArtifactDescriptor → Except SyncError IndexedArtifactEnvelope)
    (entry : IndexedArtifactDescriptor × Nat) : IndexedWalletArtifactChunk :=
  { descriptorIndex := entry.2, range := entry.1.range,
    chunk := { descriptor := entry.1, envelope := content entry.1 } }

/-- Every chunk is fetched once. -/
theorem fetchChunks_perm (descriptors : List IndexedArtifactDescriptor) :
    (fetchChunks cached content descriptors).Perm
      (descriptors.zipIdx.map (fetchedChunk content)) := by
  refine (List.mergeSort_perm _ _).trans ?_
  exact (List.filter_append_perm (fun entry => cached entry.1) descriptors.zipIdx).map _

/-- All rows of a chunk, if it can be read. -/
def chunkRows (abi : WalletScanAbi) (chunk : VerifiedIndexedArtifactChunk)
    (kind : WalletRowKind) : List (abi.Row kind) :=
  match (decodeFromChunk chunk none : Except SyncError (IndexedWalletPage abi)) with
  | .ok page => page.rows kind
  | .error _ => []

/-- All rows of the chunks of these descriptors. -/
def requiredRows (abi : WalletScanAbi)
    (content : IndexedArtifactDescriptor → Except SyncError IndexedArtifactEnvelope)
    (descriptors : List IndexedArtifactDescriptor) (kind : WalletRowKind) : List (abi.Row kind) :=
  descriptors.flatMap fun descriptor => chunkRows abi ⟨descriptor, content descriptor⟩ kind

theorem chunkRows_eq {chunk : VerifiedIndexedArtifactChunk} {page : IndexedWalletPage abi}
    (hdecode : decodeFromChunk chunk none = .ok page) (kind : WalletRowKind) :
    chunkRows abi chunk kind = page.rows kind := by
  rw [chunkRows, hdecode]

variable {fromBlock : Nat}

/-- A chunk that is not in the way has no rows of the blocks. -/
theorem filter_sourceInRange_eq_nil {page : IndexedWalletPage abi} {range : IndexedArtifactRange}
    (hwithin : page.Within range.start range.finish) {toBlock : Nat}
    (hway : range.intersects fromBlock toBlock = false) (kind : WalletRowKind) :
    ((page.rows kind).filter fun row =>
      sourceInRange (abi.rowSource kind row) fromBlock toBlock) = [] := by
  refine List.filter_eq_nil_iff.mpr fun row hmem hin => ?_
  have hblocks := hwithin kind row hmem
  have hasked := of_decide_eq_true hin
  have := intersects_iff.not.mp (Bool.eq_false_iff.mp hway)
  omega

variable {pageCheckpoint : Nat}

/-- A chunk adds its rows of the blocks. -/
theorem extendFromChunk_eq (page : IndexedWalletPage abi)
    {chunk : IndexedWalletArtifactChunk} (hrange : chunk.range = chunk.chunk.descriptor.range)
    {chunkPage : IndexedWalletPage abi}
    (hdecode : decodeFromChunk chunk.chunk none = .ok chunkPage) :
    extendFromChunk fromBlock pageCheckpoint page chunk =
      .ok { page with
        rows := fun kind => page.rows kind ++ (chunkRows abi chunk.chunk kind).filter fun row =>
          sourceInRange (abi.rowSource kind row) fromBlock pageCheckpoint } := by
  obtain ⟨hfilter, hwithin⟩ := decodeFromChunk_filter ⟨fromBlock, pageCheckpoint⟩ hdecode
  simp only [chunkRows_eq hdecode]
  unfold extendFromChunk
  cases hway : chunk.range.intersects fromBlock pageCheckpoint with
  | true =>
    refine bind_eq_ok.mpr ⟨_, hfilter, congrArg Except.ok ?_⟩
    simp only [IndexedWalletPage.extendFilteredFrom, IndexedWalletPage.filterRows,
      List.filter_filter, WalletScanRowBounds.contains, sourceInRange, Bool.and_self]
  | false =>
    rw [hrange] at hway
    have hnone : ∀ kind, ((chunkPage.rows kind).filter fun row =>
        sourceInRange (abi.rowSource kind row) fromBlock pageCheckpoint) = [] := by
      intro kind
      rw [filter_sourceInRange_eq_nil hwithin hway]
    simp only [hnone, List.append_nil, Bool.not_false, if_true]

theorem extendFromChunks_eq (page : IndexedWalletPage abi)
    {chunks : List IndexedWalletArtifactChunk}
    (hrange : ∀ chunk ∈ chunks, chunk.range = chunk.chunk.descriptor.range)
    (hdecode : ∀ chunk ∈ chunks, ∃ chunkPage : IndexedWalletPage abi,
      decodeFromChunk chunk.chunk none = .ok chunkPage) :
    chunks.foldlM (extendFromChunk fromBlock pageCheckpoint) page =
      .ok { page with
        rows := fun kind => page.rows kind ++ chunks.flatMap fun chunk =>
          (chunkRows abi chunk.chunk kind).filter fun row =>
            sourceInRange (abi.rowSource kind row) fromBlock pageCheckpoint } := by
  induction chunks generalizing page with
  | nil => simp [pure, Except.pure]
  | cons chunk chunks ih =>
    rw [List.forall_mem_cons] at hrange hdecode
    obtain ⟨⟨chunkPage, hchunk⟩, hchunks⟩ := hdecode
    refine bind_eq_ok.mpr ⟨_, extendFromChunk_eq page hrange.1 hchunk, ?_⟩
    rw [ih _ hrange.2 hchunks]
    simp only [List.flatMap_cons, List.append_assoc]

/-- A checkpoint that no chunk is incomplete before stays. -/
theorem pageCheckpointAfterChunks_eq {chunks : List IndexedWalletArtifactChunk}
    (hchunks : ∀ chunk ∈ chunks, chunk.range.intersects fromBlock pageCheckpoint = true →
      ∃ bounds, ofDescriptor chunk.chunk.descriptor = .ok bounds ∧
        (bounds.checkpointBlock < chunk.range.finish →
          pageCheckpoint ≤ bounds.checkpointBlock)) :
    pageCheckpointAfterChunks fromBlock chunks pageCheckpoint = .ok pageCheckpoint := by
  induction chunks with
  | nil => rfl
  | cons chunk chunks ih =>
    rw [List.forall_mem_cons] at hchunks
    cases hway : chunk.range.intersects fromBlock pageCheckpoint with
    | false =>
      rw [pageCheckpointAfterChunks, hway]
      exact ih hchunks.2
    | true =>
      obtain ⟨bounds, hbounds, hcomplete⟩ := hchunks.1 hway
      have hsame : (if bounds.checkpointBlock < chunk.range.finish then
          min pageCheckpoint bounds.checkpointBlock else pageCheckpoint) = pageCheckpoint :=
        ite_eq_right_iff.mpr fun hincomplete => min_eq_left (hcomplete hincomplete)
      rw [pageCheckpointAfterChunks, hway]
      refine bind_eq_ok.mpr ⟨bounds, hbounds, ?_⟩
      rw [hsame]
      exact ih hchunks.2

/-- What a session has been prepared with. -/
structure PreparedSession
    (content : IndexedArtifactDescriptor → Except SyncError IndexedArtifactEnvelope)
    (fromBlock requestedBlock : Nat) (session : IndexedWalletArtifactSession) : Prop where
  from_le_requested : fromBlock ≤ requestedBlock
  from_le_target : fromBlock ≤ session.targetBlock
  covered : ∃ status, session.coverage.checkpointForRange fromBlock requestedBlock = .ok status ∧
    session.targetBlock ≤ status.checkpointBlock
  fetched : session.chunks.Perm (session.chunkDescriptors.zipIdx.map (fetchedChunk content))
  complete : ∀ descriptor ∈ session.chunkDescriptors,
    descriptor.range.intersects fromBlock session.targetBlock = true →
      ∃ bounds, ofDescriptor descriptor = .ok bounds ∧
        (bounds.checkpointBlock < bounds.rangeEnd →
          session.targetBlock ≤ bounds.checkpointBlock)

/-- What a session that has been prepared has. -/
theorem prepare_eq_ok {coverageRanges : List IndexedArtifactStreamCoverage}
    {requiredCurrentChunks : List IndexedArtifactDescriptor}
    {toBlock latestIndexedBlock : Nat} {session : IndexedWalletArtifactSession}
    (hprepare : prepare coverageRanges requiredCurrentChunks cached content fromBlock toBlock
      latestIndexedBlock = .ok (some session)) :
    PreparedSession content fromBlock (min toBlock latestIndexedBlock) session := by
  unfold prepare at hprepare
  dsimp only at hprepare
  split_ifs at hprepare with hindexed
  · cases hprepare
  obtain ⟨coverage, -, hprepare⟩ := bind_eq_ok.mp hprepare
  obtain ⟨target, htarget, hprepare⟩ := bind_eq_ok.mp hprepare
  cases target with
  | none => cases hprepare
  | some targetBlock =>
    obtain rfl := Option.some.inj (Except.ok.inj hprepare)
    obtain ⟨status, hstatus, htarget⟩ := bind_eq_ok.mp htarget
    split_ifs at htarget
    · cases htarget
    obtain ⟨reached, hreached, htarget⟩ := bind_eq_ok.mp htarget
    obtain ⟨hle, hcomplete⟩ := targetAfterChunks_spec hreached
    have htarget := Except.ok.inj htarget
    split_ifs at htarget with hfrom
    cases htarget
    exact
      { from_le_requested := Nat.not_lt.mp hindexed
        from_le_target := hfrom
        covered := ⟨status, hstatus, hle⟩
        fetched := fetchChunks_perm _
        complete := fun descriptor hmem =>
          hcomplete descriptor (List.mem_of_mem_filter hmem) }

section Prepared

variable {fromBlock requestedBlock : Nat} {session : IndexedWalletArtifactSession}
  (hprepared : PreparedSession content fromBlock requestedBlock session)

include hprepared

variable {chunk : IndexedWalletArtifactChunk}

theorem mem_chunks (hmem : chunk ∈ session.chunks) :
    ∃ entry ∈ session.chunkDescriptors.zipIdx, chunk = fetchedChunk content entry := by
  obtain ⟨entry, hentry, heq⟩ := List.mem_map.mp (hprepared.fetched.mem_iff.mp hmem)
  exact ⟨entry, hentry, heq.symm⟩

variable {pageTarget pageFrom : Nat}

/-- The walk of a page reaches what the session has found. -/
theorem checkpointForRange_eq (hword : requestedBlock < 2 ^ 64)
    (hfrom : fromBlock ≤ pageFrom) (hle : pageFrom ≤ pageTarget)
    (htarget : pageTarget ≤ session.targetBlock) :
    session.coverage.checkpointForRange pageFrom pageTarget = .ok (.available pageTarget) := by
  obtain ⟨status, hstatus, hreached⟩ := hprepared.covered
  exact walkRanges_later hword hprepared.from_le_requested hstatus (fun _ => nofun) hfrom hle
    (htarget.trans hreached) fun _ => nofun

theorem chunk_range (hmem : chunk ∈ session.chunks) :
    chunk.range = chunk.chunk.descriptor.range := by
  obtain ⟨entry, -, rfl⟩ := mem_chunks hprepared hmem
  rfl

theorem chunk_descriptor_mem
    (hmem : chunk ∈ session.chunks) : chunk.chunk.descriptor ∈ session.chunkDescriptors := by
  obtain ⟨entry, hentry, rfl⟩ := mem_chunks hprepared hmem
  exact List.fst_mem_of_mem_zipIdx hentry

theorem chunk_decodable
    (hdecodable : ∀ descriptor ∈ session.chunkDescriptors, ∃ page : IndexedWalletPage abi,
      decodeFromChunk ⟨descriptor, content descriptor⟩ none = .ok page)
    (hmem : chunk ∈ session.chunks) :
    ∃ page : IndexedWalletPage abi,
      decodeFromChunk chunk.chunk none = .ok page := by
  obtain ⟨entry, hentry, rfl⟩ := mem_chunks hprepared hmem
  exact hdecodable entry.1 (List.fst_mem_of_mem_zipIdx hentry)

theorem needed_fetched (wanted : IndexedArtifactDescriptor × Nat → Bool) :
    (((session.chunkDescriptors.zipIdx.filter wanted).map (·.2)).filter fun neededIndex =>
        session.chunks.any fun chunk => chunk.descriptorIndex = neededIndex) =
      (session.chunkDescriptors.zipIdx.filter wanted).map (·.2) := by
  refine List.filter_eq_self.mpr fun neededIndex hneeded => ?_
  obtain ⟨entry, hentry, rfl⟩ := List.mem_map.mp hneeded
  have hfetched : fetchedChunk content entry ∈ session.chunks :=
    hprepared.fetched.mem_iff.mpr (List.mem_map_of_mem (List.mem_of_mem_filter hentry))
  exact List.any_eq_true.mpr ⟨_, hfetched, decide_eq_true rfl⟩

theorem mem_needed (hmem : chunk ∈ session.chunks)
    (hway : chunk.range.intersects pageFrom pageTarget = true) :
    chunk.descriptorIndex ∈ (session.chunkDescriptors.zipIdx.filter fun entry =>
      entry.1.range.intersects pageFrom pageTarget).map (·.2) := by
  obtain ⟨entry, hentry, rfl⟩ := mem_chunks hprepared hmem
  exact List.mem_map_of_mem (List.mem_filter.mpr ⟨hentry, hway⟩)

/-- No chunk in the way of a page is incomplete before its last block. -/
theorem chunk_complete (hfrom : fromBlock ≤ pageFrom) (htarget : pageTarget ≤ session.targetBlock)
    (hmem : chunk ∈ session.chunks) (hway : chunk.range.intersects pageFrom pageTarget = true) :
    ∃ bounds, ofDescriptor chunk.chunk.descriptor = .ok bounds ∧
      (bounds.checkpointBlock < chunk.range.finish → pageTarget ≤ bounds.checkpointBlock) := by
  rw [chunk_range hprepared hmem] at hway ⊢
  have hwider : chunk.chunk.descriptor.range.intersects fromBlock session.targetBlock = true := by
    rw [intersects_iff] at hway ⊢
    omega
  obtain ⟨bounds, hbounds, hcomplete⟩ := hprepared.complete _
    (chunk_descriptor_mem hprepared hmem) hwider
  refine ⟨bounds, hbounds, fun hincomplete => ?_⟩
  rw [← (ofDescriptor_eq_ok hbounds).2] at hincomplete
  exact htarget.trans (hcomplete hincomplete)

/-- The rows of these blocks, chunk by chunk. -/
def pageRows (abi : WalletScanAbi) (chunks : List IndexedWalletArtifactChunk)
    (fromBlock toBlock : Nat) (kind : WalletRowKind) : List (abi.Row kind) :=
  chunks.flatMap fun chunk => (chunkRows abi chunk.chunk kind).filter fun row =>
    sourceInRange (abi.rowSource kind row) fromBlock toBlock

/-- A page has all rows of its blocks, up to the last one or the target. -/
theorem pageForBlockRange_eq (hword : requestedBlock < 2 ^ 64)
    (hdecodable : ∀ descriptor ∈ session.chunkDescriptors, ∃ page : IndexedWalletPage abi,
      decodeFromChunk ⟨descriptor, content descriptor⟩ none = .ok page)
    {pageTo : Nat} (hfrom : fromBlock ≤ pageFrom)
    (hle : pageFrom ≤ min pageTo session.targetBlock) :
    session.pageForBlockRange abi pageFrom pageTo =
      .ok (.page
        { rows := pageRows abi session.chunks pageFrom (min pageTo session.targetBlock)
          checkpointBlock := min pageTo session.targetBlock }) := by
  unfold pageForBlockRange
  generalize htarget : min pageTo session.targetBlock = target at hle
  have htargetLe : target ≤ session.targetBlock := htarget ▸ min_le_right _ _
  rw [if_neg (Nat.not_lt.mpr hle)]
  refine bind_eq_ok.mpr ⟨_, checkpointForRange_eq hprepared hword hfrom hle htargetLe, ?_⟩
  dsimp only
  rw [needed_fetched hprepared, ite_error_eq_ok]
  refine ⟨fun hne => hne rfl, bind_eq_ok.mpr ⟨target, pageCheckpointAfterChunks_eq ?_, ?_⟩⟩
  · exact fun chunk hchunk =>
      chunk_complete hprepared hfrom htargetLe (List.mem_of_mem_filter hchunk)
  rw [if_neg (Nat.not_lt.mpr hle)]
  refine bind_eq_ok.mpr ⟨_, extendFromChunks_eq _
    (fun chunk hchunk => chunk_range hprepared (List.mem_of_mem_filter hchunk))
    (fun chunk hchunk => chunk_decodable hprepared hdecodable (List.mem_of_mem_filter hchunk)), ?_⟩
  -- The chunks that are not needed have no rows of these blocks.
  have hrows : ∀ kind, pageRows abi (session.chunks.filter fun chunk =>
        chunk.descriptorIndex ∈ (session.chunkDescriptors.zipIdx.filter fun entry =>
          entry.1.range.intersects pageFrom target).map (·.2)) pageFrom target kind =
      pageRows abi session.chunks pageFrom target kind := by
    intro kind
    refine flatMap_filter_of_nil fun chunk hchunk hdropped => ?_
    obtain ⟨page, hdecode⟩ := chunk_decodable hprepared hdecodable hchunk
    rw [chunkRows_eq hdecode]
    refine filter_sourceInRange_eq_nil (decodeFromChunk_filter ⟨0, 0⟩ hdecode).2 ?_ kind
    rw [← chunk_range hprepared hchunk]
    exact Bool.eq_false_iff.mpr fun hway =>
      of_decide_eq_false hdropped (mem_needed hprepared hchunk hway)
  exact congrArg (fun rows => Except.ok (IndexedWalletArtifactPageOutcome.page ⟨rows, target⟩))
    (funext hrows)

end Prepared

end Sessions

end Railgun
