import Railgun.Theory.WalletArtifacts

/-!
# The Wallet Catch-up Loop

Page by page, the loop hands every row of the required chunks to the wallet,
from the first block to the target of the session. The pages tile the blocks:
each one starts right after the one before it, so no row is left out and none
comes twice. The branch in which a session is exhausted is never taken.

## Main definitions

* `Tiles`: Pages that follow each other without a gap.

## Theorems

* `pageRows_perm`: The rows of a page are those of the required chunks.
* `artifact_catch_up_exact`: Pages and catch-up are exact.
-/

namespace Railgun

open IndexedWalletArtifactSession
open IndexedWalletPageKind (forFromBlock toBlock)
open IndexedWalletPage (decodeFromChunk)

section CatchUp

variable {abi : WalletScanAbi}
  {content : IndexedArtifactDescriptor → Except SyncError IndexedArtifactEnvelope}
  {fromBlock requestedBlock : Nat} {session : IndexedWalletArtifactSession}

theorem pageRows_perm (hprepared : PreparedSession content fromBlock requestedBlock session)
    (pageFrom pageTo : Nat) (kind : WalletRowKind) :
    (pageRows abi session.chunks pageFrom pageTo kind).Perm
      ((requiredRows abi content session.chunkDescriptors kind).filter fun row =>
        sourceInRange (abi.rowSource kind row) pageFrom pageTo) := by
  have hfetched : session.chunks.flatMap (fun chunk => chunkRows abi chunk.chunk kind) |>.Perm
      (requiredRows abi content session.chunkDescriptors kind) := by
    refine (hprepared.fetched.flatMap_right _).trans (.of_eq ?_)
    rw [List.flatMap_map, requiredRows]
    conv => rhs; rw [← List.zipIdx_map_fst 0 session.chunkDescriptors, List.flatMap_map]
    rfl
  rw [pageRows, ← List.filter_flatMap]
  exact hfetched.filter _

/-- Pages that follow each other without a gap, from a block to a target. -/
def Tiles (targetBlock : Nat) : Nat → List (Nat × IndexedWalletPage abi) → Prop
  | nextBlock, [] => nextBlock = targetBlock + 1
  | nextBlock, (pageFrom, page) :: pages =>
    pageFrom = nextBlock ∧ nextBlock ≤ page.checkpointBlock ∧
      page.checkpointBlock ≤ targetBlock ∧ Tiles targetBlock (page.checkpointBlock + 1) pages

theorem toBlock_bounds {pageFrom target : Nat} (hle : pageFrom ≤ target) (hword : target < 2 ^ 64)
    (v2StartBlock indexedWalletBlockRange : Nat) :
    pageFrom ≤ (forFromBlock pageFrom v2StartBlock).toBlock pageFrom target
        v2StartBlock indexedWalletBlockRange ∧
      (forFromBlock pageFrom v2StartBlock).toBlock pageFrom target
        v2StartBlock indexedWalletBlockRange ≤ target := by
  unfold forFromBlock
  split
  · next hlegacy =>
    simp only [toBlock, saturatingAdd, if_pos hlegacy.1]
    omega
  · simp only [toBlock, saturatingAdd]
    omega

theorem filter_blocks_perm {kind : WalletRowKind} (rows : List (abi.Row kind))
    {pageFrom pageTo target : Nat} (hfrom : pageFrom ≤ pageTo + 1) (hto : pageTo ≤ target) :
    ((rows.filter fun row => sourceInRange (abi.rowSource kind row) pageFrom pageTo) ++
        rows.filter fun row => sourceInRange (abi.rowSource kind row) (pageTo + 1) target).Perm
      (rows.filter fun row => sourceInRange (abi.rowSource kind row) pageFrom target) := by
  refine filter_append_filter_perm (fun row => ?_) fun row hin => ?_
  · simp only [sourceInRange, ← Bool.decide_or, decide_eq_decide]
    omega
  · have := of_decide_eq_true hin
    refine decide_eq_false ?_
    omega

/-- The loop reaches the target, without a gap between its pages, and hands on
    every row of the required chunks. -/
theorem artifactCatchUp_tiles
    (hprepared : PreparedSession content fromBlock requestedBlock session)
    (hword : requestedBlock < 2 ^ 64)
    (hdecodable : ∀ descriptor ∈ session.chunkDescriptors, ∃ page : IndexedWalletPage abi,
      decodeFromChunk ⟨descriptor, content descriptor⟩ none = .ok page)
    (htop : session.targetBlock + 1 < 2 ^ 64) (v2StartBlock indexedWalletBlockRange : Nat)
    {apply : Nat → IndexedWalletPage abi → WalletBackfillApplyResult}
    (happly : ∀ pageFrom page, apply pageFrom page = .committed page.checkpointBlock)
    {fuel pageFrom checkpoint : Nat} (hfrom : fromBlock ≤ pageFrom)
    (hle : pageFrom ≤ session.targetBlock + 1) (hfuel : session.targetBlock + 2 - pageFrom ≤ fuel) :
    ∃ pages, artifactCatchUp abi v2StartBlock indexedWalletBlockRange apply session fuel pageFrom
        session.targetBlock checkpoint = (pages, .completed) ∧
      Tiles session.targetBlock pageFrom pages ∧
      ∀ kind, (pages.flatMap fun entry => entry.2.rows kind).Perm
        ((requiredRows abi content session.chunkDescriptors kind).filter fun row =>
          sourceInRange (abi.rowSource kind row) pageFrom session.targetBlock) := by
  induction fuel generalizing pageFrom checkpoint with
  | zero => omega
  | succ fuel ih =>
    by_cases hdone : session.targetBlock < pageFrom
    · refine ⟨[], ?_, Nat.le_antisymm hle hdone, fun kind => ?_⟩
      · rw [artifactCatchUp, if_pos hdone]
      · rw [List.flatMap_nil, List.filter_eq_nil_iff.mpr]
        intro row _ hin
        have := of_decide_eq_true hin
        omega
    · have hpage := toBlock_bounds (Nat.not_lt.mp hdone) (by omega) v2StartBlock
        indexedWalletBlockRange
      generalize hto : (forFromBlock pageFrom v2StartBlock).toBlock pageFrom
        session.targetBlock v2StartBlock indexedWalletBlockRange = pageTo at hpage
      obtain ⟨hstart, hend⟩ := hpage
      have hmin : min pageTo session.targetBlock = pageTo := min_eq_left hend
      have hanswer := pageForBlockRange_eq hprepared hword hdecodable hfrom (hmin ▸ hstart)
      rw [hmin] at hanswer
      have hnext : saturatingAdd pageTo 1 = pageTo + 1 := min_eq_left (by omega)
      obtain ⟨pages, hloop, htiles, hrows⟩ := @ih (pageTo + 1) pageTo (by omega) (by omega)
        (by omega)
      refine ⟨(pageFrom, ⟨pageRows abi session.chunks pageFrom pageTo, pageTo⟩) :: pages, ?_,
        ⟨rfl, hstart, hend, htiles⟩, fun kind => ?_⟩
      · rw [artifactCatchUp, if_neg hdone]
        simp only [hto, hanswer, happly, WalletBackfillApplyResult.acceptedCommittedTo, hnext,
          hloop]
      · refine ((pageRows_perm hprepared pageFrom pageTo kind).append (hrows kind)).trans ?_
        exact filter_blocks_perm _ (by omega) hend

end CatchUp

/-- Pages and catch-up are exact. Whatever the coverage and the chunks, once a
    session has a target, every page up to it is complete: it is never
    exhausted, it goes exactly as far as it is asked for or to the target, and
    its rows are those of the required chunks from its blocks. So the loop
    reaches the target without a gap, and hands on every row of the required
    chunks up to it exactly once. -/
theorem artifact_catch_up_exact (abi : WalletScanAbi)
    {coverageRanges : List IndexedArtifactStreamCoverage}
    {requiredCurrentChunks : List IndexedArtifactDescriptor}
    {cached : IndexedArtifactDescriptor → Bool}
    {content : IndexedArtifactDescriptor → Except SyncError IndexedArtifactEnvelope}
    {fromBlock toBlock latestIndexedBlock : Nat} (hword : toBlock < 2 ^ 64)
    {session : IndexedWalletArtifactSession}
    (hprepare : prepare coverageRanges requiredCurrentChunks cached
      content fromBlock toBlock latestIndexedBlock = .ok (some session))
    (hdecodable : ∀ descriptor ∈ session.chunkDescriptors, ∃ page : IndexedWalletPage abi,
      decodeFromChunk ⟨descriptor, content descriptor⟩ none = .ok page) :
    (∀ pageFrom pageTo, fromBlock ≤ pageFrom → pageFrom ≤ min pageTo session.targetBlock →
      ∃ page : IndexedWalletPage abi,
        session.pageForBlockRange abi pageFrom pageTo = .ok (.page page) ∧
        page.checkpointBlock = min pageTo session.targetBlock ∧
        ∀ kind, (page.rows kind).Perm
          ((requiredRows abi content session.chunkDescriptors kind).filter fun row =>
            sourceInRange (abi.rowSource kind row) pageFrom (min pageTo session.targetBlock))) ∧
    (session.targetBlock + 1 < 2 ^ 64 →
      ∀ (v2StartBlock indexedWalletBlockRange lastScanned : Nat)
        (apply : Nat → IndexedWalletPage abi → WalletBackfillApplyResult),
        (∀ pageFrom page, apply pageFrom page = .committed page.checkpointBlock) →
        ∀ fuel, session.targetBlock + 2 - fromBlock ≤ fuel →
          ∃ pages, artifactCatchUp abi v2StartBlock indexedWalletBlockRange apply session fuel
              fromBlock session.targetBlock lastScanned = (pages, .completed) ∧
            Tiles session.targetBlock fromBlock pages ∧
            ∀ kind, (pages.flatMap fun entry => entry.2.rows kind).Perm
              ((requiredRows abi content session.chunkDescriptors kind).filter fun row =>
                sourceInRange (abi.rowSource kind row) fromBlock session.targetBlock)) := by
  have hprepared := prepare_eq_ok hprepare
  have hrequested : min toBlock latestIndexedBlock < 2 ^ 64 :=
    lt_of_le_of_lt (Nat.min_le_left _ _) hword
  constructor
  · intro pageFrom pageTo hfrom hle
    exact ⟨_, pageForBlockRange_eq hprepared hrequested hdecodable hfrom hle, rfl,
      fun kind => pageRows_perm hprepared pageFrom _ kind⟩
  · intro htop v2StartBlock indexedWalletBlockRange lastScanned apply happly fuel hfuel
    have := hprepared.from_le_target
    exact artifactCatchUp_tiles hprepared hrequested hdecodable htop v2StartBlock
      indexedWalletBlockRange happly le_rfl (by omega) hfuel

theorem prepare_singleton {coverage : IndexedArtifactStreamCoverage}
    {range : WalletScanCoverageRange} {descriptor : IndexedArtifactDescriptor}
    {content : IndexedArtifactDescriptor → Except SyncError IndexedArtifactEnvelope}
    {fromBlock toBlock latestIndexedBlock targetBlock : Nat}
    (hfrom : fromBlock ≤ min toBlock latestIndexedBlock)
    (hrange : WalletScanCoverageRange.ofCoverage coverage = .ok range)
    (htarget : walletScanArtifactTargetBlock ⟨[range]⟩ [descriptor] fromBlock
      (min toBlock latestIndexedBlock) = .ok (some targetBlock))
    (hneeded : descriptor.range.intersects fromBlock targetBlock = true) :
    prepare [coverage] [descriptor] (fun _ => false) content fromBlock
      toBlock latestIndexedBlock =
    .ok (some ⟨targetBlock, [descriptor],
      [⟨0, descriptor.range, ⟨descriptor, content descriptor⟩⟩], ⟨[range]⟩⟩) := by
  have hcoverage : WalletScanArtifactCoverage.fromCoverage [coverage] = .ok ⟨[range]⟩ := by
    simp [WalletScanArtifactCoverage.fromCoverage, WalletScanArtifactCoverage.addRange, hrange,
      bind, Except.bind, pure, Except.pure]
  rw [prepare, if_neg (by omega), hcoverage]
  simp [bind, Except.bind, pure, Except.pure, htarget, hneeded, fetchChunks]

/-- An interface without structures. -/
def plainAbi : WalletScanAbi where
  CommitmentCiphertext := Unit
  CommitmentPreimage := Unit
  ShieldCiphertext := Unit
  LegacyCommitmentCiphertext := Unit
  LegacyCommitmentPreimage := Unit
  decodeCommitmentCiphertext := fun _ => .ok ()
  decodeCommitmentPreimage := fun _ => .ok ()
  decodeShieldCiphertext := fun _ => .ok ()
  decodeLegacyCommitmentCiphertext := fun _ => .ok ()
  decodeLegacyCommitmentPreimage := fun _ => .ok ()

/-- One nullifier, in the block with these bytes. -/
def nullifierEnvelope (block : List UInt8) : IndexedArtifactEnvelope where
  datasetKind := .walletScan
  chainType := .evm
  rangeKind := .block
  rowCount := 1
  sections := [(3, [1, 0, 0, 0, 0, 0, 0, 0] ++ block ++ List.replicate 76 0)]

/-- A chunk of the blocks from one to twenty, complete up to fifteen. -/
def tailDescriptor : IndexedArtifactDescriptor where
  datasetKind := .walletScan
  scope := ⟨.evm, 1, 0⟩
  range := ⟨.block, 1, 20⟩
  cid := "tail"
  metadata := { checkpointBlock := some 15 }

/-- A nullifier in block five. -/
def tailEnvelope : IndexedArtifactEnvelope :=
  nullifierEnvelope [5, 0, 0, 0, 0, 0, 0, 0]

/-- The session of the blocks from one to thirty, of which fifteen can be
    trusted. -/
def tailSession : IndexedWalletArtifactSession where
  targetBlock := 15
  chunkDescriptors := [tailDescriptor]
  coverage := ⟨[⟨1, 20, 15⟩]⟩
  chunks := [⟨0, ⟨.block, 1, 20⟩, ⟨tailDescriptor, .ok tailEnvelope⟩⟩]

theorem tailSession_decodable : ∀ descriptor ∈ tailSession.chunkDescriptors,
    ∃ page : IndexedWalletPage plainAbi,
      decodeFromChunk ⟨descriptor, .ok tailEnvelope⟩ none = .ok page := by
  intro descriptor hmem
  rw [List.mem_singleton.mp hmem]
  exact ⟨_, rfl⟩

/-- The chunk with the nullifier is caught up to block fifteen. -/
theorem artifact_catch_up_exact_tail :
    ∃ pages, artifactCatchUp plainAbi 0 10 (fun _ page => .committed page.checkpointBlock)
        tailSession 16 1 15 0 = (pages, .completed) ∧
      Tiles 15 1 pages ∧
      ∀ kind, (pages.flatMap fun entry => entry.2.rows kind).Perm
        ((requiredRows plainAbi (fun _ => .ok tailEnvelope) [tailDescriptor] kind).filter fun row =>
          sourceInRange (plainAbi.rowSource kind row) 1 15) := by
  have hprepare : prepare [⟨⟨.block, 1, 20⟩, some 15⟩] [tailDescriptor]
      (fun _ => false) (fun _ => .ok tailEnvelope) 1 30 30 = .ok (some tailSession) :=
    prepare_singleton (by decide) rfl rfl rfl
  exact (artifact_catch_up_exact plainAbi (by decide) hprepare tailSession_decodable).2
    (by decide) 0 10 0 _ (fun _ _ => rfl) 16 (by decide)

/-! ## The last block number

The block after the last one a word can hold is that block again, so a session
that reaches it does not end. -/

/-- The largest block number. -/
def lastBlock : Nat := 2 ^ 64 - 1

/-- A chunk of that block. -/
def lastDescriptor : IndexedArtifactDescriptor where
  datasetKind := .walletScan
  scope := ⟨.evm, 1, 0⟩
  range := ⟨.block, lastBlock, lastBlock⟩
  cid := "last"
  metadata := {}

/-- A nullifier in the last block. -/
def lastEnvelope : IndexedArtifactEnvelope :=
  nullifierEnvelope (List.replicate 8 255)

/-- A session up to it. -/
def lastSession : IndexedWalletArtifactSession where
  targetBlock := lastBlock
  chunkDescriptors := [lastDescriptor]
  coverage := ⟨[⟨lastBlock, lastBlock, lastBlock⟩]⟩
  chunks := [⟨0, ⟨.block, lastBlock, lastBlock⟩, ⟨lastDescriptor, .ok lastEnvelope⟩⟩]

/-- The page of the last block is handed on again and again. -/
theorem artifact_catch_up_repeats :
    prepare [⟨⟨.block, lastBlock, lastBlock⟩, none⟩] [lastDescriptor]
        (fun _ => false) (fun _ => .ok lastEnvelope) lastBlock lastBlock lastBlock =
      .ok (some lastSession) ∧
    (∃ page : IndexedWalletPage plainAbi,
      decodeFromChunk ⟨lastDescriptor, .ok lastEnvelope⟩ none = .ok page) ∧
    ∃ page : IndexedWalletPage plainAbi, (page.rows .nullifier).length = 1 ∧
      ∀ fuel lastScanned,
        artifactCatchUp plainAbi 0 10 (fun _ page => .committed page.checkpointBlock) lastSession
          fuel lastBlock lastBlock lastScanned =
        (List.replicate fuel (lastBlock, page), .outOfFuel) := by
  have hpage : ∃ page : IndexedWalletPage plainAbi,
      lastSession.pageForBlockRange plainAbi lastBlock lastBlock = .ok (.page page) ∧
      (page.rows .nullifier).length = 1 ∧ page.checkpointBlock = lastBlock :=
    ⟨_, rfl, rfl, rfl⟩
  obtain ⟨page, hpage, hrows, hcheckpoint⟩ := hpage
  refine ⟨prepare_singleton (by decide) rfl rfl rfl, ⟨_, rfl⟩, page, hrows, fun fuel => ?_⟩
  have hto : (forFromBlock lastBlock 0).toBlock lastBlock lastBlock 0 10 = lastBlock := by decide
  have hnext : saturatingAdd lastBlock 1 = lastBlock := by decide
  induction fuel with
  | zero => exact fun _ => rfl
  | succ fuel ih =>
    intro lastScanned
    rw [artifactCatchUp, if_neg (Nat.lt_irrefl _)]
    simp only [hto, hpage, WalletBackfillApplyResult.acceptedCommittedTo, hcheckpoint, hnext, ih,
      List.replicate_succ]

end Railgun
