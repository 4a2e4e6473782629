import Railgun.Core.PoiManifest
import Railgun.Lib.Fallible
import Mathlib.Algebra.Order.BigOperators.Group.List
import Mathlib.Algebra.Group.Action.Defs

/-!
# Complete Histories in a Manifest

A manifest entry and its catalog pass their checks only if the chunks of the
catalog and the tail are one history from the first event on: each chunk starts
where the one before it ends, and with its root. The bridges are a history too,
which ends where the catalog ends. Counts and sizes are the sums of their parts.

## Main definitions

* `EventChain`: Chunks that follow one another, in indexes and in roots.

## Theorems

* `EventArtifactDescriptor.validate_eq_ok`: What is known of a chunk.
* `validateChunks_eq_ok`, `validateBridges_eq_ok`: The chunks of a catalog and
  the bridges are chains.
* `checkedEventPlanLimits_eq`: The limits of a plan are sums.
* `poiManifest_complete`: A checked entry and catalog are a complete history.
-/

namespace Railgun

/-- Chunks that lead from an index and a root to another index and root. -/
inductive EventChain : Nat → Option Bytes32 → List EventArtifactDescriptor → Nat →
    Option Bytes32 → Prop where
  | nil (index : Nat) (root : Option Bytes32) : EventChain index root [] index root
  | cons {chunk : EventArtifactDescriptor} {chunks : List EventArtifactDescriptor} {stop : Nat}
      {stopRoot : Option Bytes32} (hrange : chunk.range.startIndex ≤ chunk.range.endIndex)
      (hcount : chunk.rowCount = chunk.range.endIndex + 1 - chunk.range.startIndex)
      (hrest : EventChain (chunk.range.endIndex + 1) (some chunk.endRoot) chunks stop stopRoot) :
      EventChain chunk.range.startIndex chunk.startRoot (chunk :: chunks) stop stopRoot

/-- The number of rows of some chunks. -/
def totalRows (chunks : List EventArtifactDescriptor) : Nat := (chunks.map (·.rowCount)).sum

variable {startRoot : Option Bytes32}

/-- A chain is continued by one that starts where it ends. -/
theorem EventChain.append {first second : List EventArtifactDescriptor} {start middle stop : Nat}
    {middleRoot stopRoot : Option Bytes32}
    (hfirst : EventChain start startRoot first middle middleRoot)
    (hsecond : EventChain middle middleRoot second stop stopRoot) :
    EventChain start startRoot (first ++ second) stop stopRoot := by
  induction hfirst with
  | nil index root => exact hsecond
  | cons hrange hcount hrest ih => exact .cons hrange hcount (ih hsecond)

variable {chunks : List EventArtifactDescriptor}

/-- A chain ends as many indexes later as it has rows. -/
theorem EventChain.totalRows_eq {start stop : Nat}
    {stopRoot : Option Bytes32} (h : EventChain start startRoot chunks stop stopRoot) :
    start + totalRows chunks = stop := by
  induction h with
  | nil index root => rfl
  | @cons chunk chunks stop stopRoot hrange hcount hrest ih =>
    rw [totalRows, List.map_cons, List.sum_cons]
    rw [totalRows] at ih
    omega

/-- A sum is returned when it is a word. -/
theorem checkedPoiAdd_eq_ok {a b c : Nat} :
    checkedPoiAdd a b = .ok c ↔ a + b < 2 ^ 64 ∧ c = a + b := by
  rw [checkedPoiAdd]
  split_ifs with h
  · rw [Except.ok.injEq, eq_comm, and_iff_right h]
  · exact ⟨nofun, fun heq => absurd heq.1 h⟩

theorem checkedPoiAdd_of_lt {a b : Nat} (h : a + b < 2 ^ 64) :
    checkedPoiAdd a b = .ok (a + b) := checkedPoiAdd_eq_ok.mpr ⟨h, rfl⟩

theorem requireScope_eq_ok {expected actual : PoiScope}
    (h : requireScope expected actual = .ok ()) :
    actual = expected := (not_not.mp (ite_error_eq_ok.mp h).1).symm

/-- The count of a range that is not empty. -/
theorem rowCount_eq_ok {range : EventRange} {count : Nat} (h : range.rowCount = .ok count) :
    range.startIndex ≤ range.endIndex ∧ count = range.endIndex + 1 - range.startIndex ∧
      count < 2 ^ 64 := by
  obtain ⟨hrange, hcount⟩ := ite_error_eq_ok.mp h
  have := Except.ok.inj hcount
  omega

/-- What is known of a chunk that passes its check. -/
structure CheckedChunk (chunk : EventArtifactDescriptor) : Prop where
  range_le : chunk.range.startIndex ≤ chunk.range.endIndex
  rowCount_eq : chunk.rowCount = chunk.range.endIndex + 1 - chunk.range.startIndex
  startRoot_eq : chunk.range.startIndex = 0 ↔ chunk.startRoot = none
  byteSize_eq : chunk.artifact.byteSize =
    eventHeaderFixedBytes + chunk.scope.txidVersion.utf8ByteSize + chunk.rowCount * eventRecordBytes
  byteSize_le : chunk.artifact.byteSize ≤ eventArtifactMaxBytes
  checkpoint : chunk.kind = .checkpoint → chunk.rowCount ≤ checkpointEventSpan

/-- The size that is expected of a chunk. -/
theorem expectedEventArtifactSize_eq_ok {scope : PoiScope} {rowCount size : Nat}
    (h : expectedEventArtifactSize scope rowCount = .ok size) :
    size = eventHeaderFixedBytes + scope.txidVersion.utf8ByteSize +
      rowCount * eventRecordBytes := by
  simp only [expectedEventArtifactSize, bind_eq_ok, ite_error_eq_ok, checkedPoiAdd_eq_ok,
    pure_eq_ok] at h
  obtain ⟨_, ⟨-, rfl⟩, -, -, _, ⟨-, rfl⟩, _, -, rfl⟩ := h
  rfl

/-- Only the first chunk has no root before it. -/
theorem requireStartRoot_eq_ok {startIndex : Nat}
    (h : requireStartRoot startIndex startRoot = .ok ()) : startIndex = 0 ↔ startRoot = none := by
  have hroot := not_not.mp (ite_error_eq_ok.mp h).1
  rw [Bool.eq_iff_iff, decide_eq_true_eq, Option.isNone_iff_eq_none] at hroot
  exact hroot

variable {chunk : EventArtifactDescriptor}

/-- What is known of a chunk that passes its check. -/
theorem EventArtifactDescriptor.validate_eq_ok
    (h : chunk.validate = .ok ()) : CheckedChunk chunk := by
  simp only [EventArtifactDescriptor.validate, bind_eq_ok, ite_error_eq_ok, not_or, not_not] at h
  obtain ⟨_, -, _, -, _, -, rangeCount, hrange, ⟨-, hcount⟩, _, hroot, _, hsize, expected,
    hexpected, hbytes, h⟩ := h
  obtain ⟨hle, hrows, -⟩ := rowCount_eq_ok hrange
  refine ⟨hle, hcount.trans hrows, requireStartRoot_eq_ok hroot,
    hbytes.trans (expectedEventArtifactSize_eq_ok hexpected),
    Nat.not_lt.mp (ite_error_eq_ok.mp hsize).1, fun hkind => ?_⟩
  rw [if_pos hkind] at h
  exact Nat.not_lt.mp (not_or.mp (ite_error_eq_ok.mp h).1).2

/-- A chunk starts where the one before it ends, and with its root. -/
theorem requireContiguous_eq_ok {left right : EventArtifactDescriptor}
    (h : requireContiguous left right = .ok ()) :
    right.range.startIndex = left.range.endIndex + 1 ∧ right.startRoot = some left.endRoot := by
  simp only [requireContiguous, bind_eq_ok, ite_error_eq_ok, checkedPoiAdd_eq_ok, not_or,
    not_not] at h
  obtain ⟨_, ⟨-, rfl⟩, hfollows, -⟩ := h
  exact hfollows

/-- Where the chunks after a chunk start. -/
def nextStart (previous : Option EventArtifactDescriptor) : Nat :=
  previous.elim 0 fun prior => prior.range.endIndex + 1

/-- The root the chunks after a chunk start with. -/
def nextRoot (previous : Option EventArtifactDescriptor) : Option Bytes32 :=
  previous.map fun prior => prior.endRoot

variable {previous : Option EventArtifactDescriptor}

/-- The same with the start of the history in the place of a chunk. -/
theorem requireFollows_eq_ok (hchunk : CheckedChunk chunk)
    (h : CheckpointCatalog.requireFollows previous chunk = .ok ()) :
    chunk.range.startIndex = nextStart previous ∧ chunk.startRoot = nextRoot previous := by
  cases previous with
  | none =>
    have hstart := not_not.mp (ite_error_eq_ok.mp h).1
    exact ⟨hstart, hchunk.startRoot_eq.mp hstart⟩
  | some prior => exact requireContiguous_eq_ok h

/-- The chunks of a catalog are a chain of checked chunks. -/
theorem validateChunks_eq_ok {scope : PoiScope} {last : Option EventArtifactDescriptor}
    {counted total : Nat}
    (h : CheckpointCatalog.validateChunks scope previous counted chunks = .ok (total, last)) :
    EventChain (nextStart previous) (nextRoot previous) chunks (nextStart last) (nextRoot last) ∧
      total = counted + totalRows chunks ∧
      ∀ chunk ∈ chunks, CheckedChunk chunk ∧ chunk.validate = .ok () ∧ chunk.scope = scope := by
  induction chunks generalizing previous counted with
  | nil =>
    obtain ⟨rfl, rfl⟩ := Prod.mk.inj (Except.ok.inj h)
    exact ⟨.nil _ _, rfl, nofun⟩
  | cons chunk chunks ih =>
    simp only [CheckpointCatalog.validateChunks, bind_eq_ok, ite_error_eq_ok,
      checkedPoiAdd_eq_ok] at h
    obtain ⟨_, hvalid, _, hscope, -, _, hfollows, -, _, ⟨-, rfl⟩, h⟩ := h
    have hchunk := EventArtifactDescriptor.validate_eq_ok hvalid
    obtain ⟨hchain, htotal, hall⟩ := ih h
    obtain ⟨hstart, hroot⟩ := requireFollows_eq_ok hchunk hfollows
    refine ⟨?_, ?_, List.forall_mem_cons.mpr ⟨⟨hchunk, hvalid, requireScope_eq_ok hscope⟩, hall⟩⟩
    · rw [← hstart, ← hroot]
      exact .cons hchunk.range_le hchunk.rowCount_eq hchain
    · rw [htotal, totalRows, totalRows, List.map_cons, List.sum_cons, Nat.add_assoc]

/-- A catalog is a chain from the first event to its number of rows. -/
theorem CheckpointCatalog.validate_eq_ok {catalog : CheckpointCatalog}
    (h : catalog.validate = .ok ()) :
    EventChain 0 none catalog.chunks catalog.rowCount catalog.checkpointRoot ∧
      catalog.chunks.length ≤ catalogMaxDescriptors ∧
      ∀ chunk ∈ catalog.chunks,
        CheckedChunk chunk ∧ chunk.validate = .ok () ∧ chunk.scope = catalog.scope := by
  obtain ⟨_, -, h⟩ := bind_eq_ok.mp h
  obtain ⟨_, hlimits, h⟩ := bind_eq_ok.mp h
  have hlength := Nat.not_lt.mp (ite_error_eq_ok.mp hlimits).1
  split_ifs at h with hempty hnone hzero
  · simp only [not_or, not_not, Option.not_isSome_iff_eq_none] at hnone
    rw [List.isEmpty_iff.mp hempty, hnone.1, hnone.2.2]
    exact ⟨.nil _ _, Nat.zero_le _, nofun⟩
  · obtain ⟨⟨total, last⟩, hchunks, h⟩ := bind_eq_ok.mp h
    obtain ⟨hchain, htotal, hall⟩ := validateChunks_eq_ok hchunks
    cases last with
    | none => cases h
    | some last =>
      obtain ⟨_, -, h⟩ := bind_eq_ok.mp h
      obtain ⟨hequal, -⟩ := ite_error_eq_ok.mp h
      simp only [not_or, not_not] at hequal
      -- The chain ends at the number of its rows.
      have hstop := hchain.totalRows_eq
      rw [Nat.zero_add] at htotal
      rw [show nextStart none = 0 from rfl, Nat.zero_add, ← htotal, hequal.1] at hstop
      rw [← hstop] at hchain
      rw [hequal.2.2]
      exact ⟨hchain, hlength, hall⟩

variable {entry : ManifestEntry}

/-- Bridges are a chain, which continues the bridge before them. -/
theorem validateBridges_eq_ok {last : Option EventArtifactDescriptor}
    {bridges : List EventArtifactDescriptor}
    (h : entry.validateBridges previous bridges = .ok last) :
    ∃ start root, EventChain start root bridges (nextStart last) (nextRoot last) ∧
      (previous.isSome → start = nextStart previous ∧ root = nextRoot previous) ∧
      ∀ bridge ∈ bridges, CheckedChunk bridge ∧ bridge.validate = .ok () := by
  induction bridges generalizing previous with
  | nil =>
    obtain rfl := Except.ok.inj h
    exact ⟨nextStart previous, nextRoot previous, .nil _ _, fun _ => ⟨rfl, rfl⟩,
      nofun⟩
  | cons bridge bridges ih =>
    simp only [ManifestEntry.validateBridges, bind_eq_ok, ite_error_eq_ok] at h
    obtain ⟨_, hvalid, _, -, -, h⟩ := h
    have hbridge := EventArtifactDescriptor.validate_eq_ok hvalid
    -- Either way the bridge is checked, and it follows the one before it.
    have hnext : entry.validateBridges (some bridge) bridges = .ok last ∧
        (previous.isSome → bridge.range.startIndex = nextStart previous ∧
          bridge.startRoot = nextRoot previous) := by
      cases previous with
      | none => exact ⟨h, nofun⟩
      | some prior =>
        obtain ⟨_, hfollows, h⟩ := bind_eq_ok.mp h
        exact ⟨h, fun _ => requireContiguous_eq_ok hfollows⟩
    obtain ⟨start, root, hchain, hstart, hall⟩ := ih hnext.1
    obtain ⟨rfl, rfl⟩ := hstart rfl
    exact ⟨_, _, .cons hbridge.range_le hbridge.rowCount_eq hchain, hnext.2,
      List.forall_mem_cons.mpr ⟨⟨hbridge, hvalid⟩, hall⟩⟩

/-- The bridges of an entry are checked chunks, and a chain that ends where the catalog
    ends. -/
def BridgesChecked (entry : ManifestEntry) : Prop :=
  (entry.retainedBridges ≠ [] → ∃ start root, EventChain start root entry.retainedBridges
    entry.checkpointCatalog.rowCount entry.checkpointCatalog.checkpointRoot) ∧
    ∀ bridge ∈ entry.retainedBridges, CheckedChunk bridge ∧ bridge.validate = .ok ()

theorem bridgesChecked_of_nil (h : entry.retainedBridges = []) : BridgesChecked entry :=
  ⟨fun hne => absurd h hne, fun _ hmem => absurd (h ▸ hmem) List.not_mem_nil⟩

/-- The bridges end where the catalog ends. -/
theorem validateBridgeChain_eq_ok (h : entry.validateBridgeChain = .ok ()) :
    BridgesChecked entry := by
  rw [ManifestEntry.validateBridgeChain] at h
  by_cases hempty : entry.retainedBridges.isEmpty = true
  · exact bridgesChecked_of_nil (List.isEmpty_iff.mp hempty)
  · rw [if_neg hempty] at h
    obtain ⟨last, hbridges, h⟩ := bind_eq_ok.mp h
    obtain ⟨start, root, hchain, -, hall⟩ := validateBridges_eq_ok hbridges
    refine ⟨fun _ => ⟨start, root, ?_⟩, hall⟩
    cases last with
    | none => cases h
    | some last =>
      obtain ⟨hpos, h⟩ := ite_error_eq_ok.mp h
      obtain ⟨hends, -⟩ := ite_error_eq_ok.mp h
      rw [not_or, not_not, not_not] at hends
      rw [← hends.2, show entry.checkpointCatalog.rowCount = last.range.endIndex + 1 by omega]
      exact hchain

/-- The tail leads from the end of the catalog to the last event. -/
theorem validateTail_eq_ok {currentRoot : Bytes32}
    (hcount : entry.eventCount ≠ 0) (h : entry.validateTail currentRoot = .ok ()) :
    EventChain entry.checkpointCatalog.rowCount entry.checkpointCatalog.checkpointRoot
      entry.currentTail.toList entry.eventCount (some currentRoot) ∧
      ∀ tail ∈ entry.currentTail.toList, CheckedChunk tail ∧ tail.validate = .ok () := by
  rw [ManifestEntry.validateTail] at h
  split_ifs at h with hall hnone
  · simp only [not_or, not_not, Option.not_isSome_iff_eq_none] at hnone
    rw [hnone.1, hnone.2, hall]
    exact ⟨.nil _ _, nofun⟩
  · cases htail : entry.currentTail with
    | none =>
      rw [htail] at h
      cases h
    | some tail =>
      simp only [htail, bind_eq_ok, ite_error_eq_ok, not_or, not_not] at h
      obtain ⟨_, hvalid, _, -, ⟨-, hstart, hend, hroot, hstartRoot⟩, -⟩ := h
      have hchunk := EventArtifactDescriptor.validate_eq_ok hvalid
      refine ⟨?_, List.forall_mem_singleton.mpr ⟨hchunk, hvalid⟩⟩
      rw [← hstart, ← hstartRoot, Option.toList_some]
      refine .cons hchunk.range_le hchunk.rowCount_eq ?_
      rw [hroot, show entry.eventCount = tail.range.endIndex + 1 by omega]
      exact .nil _ _

/-- What an entry that passes its check says about the end of the history. -/
structure CheckedEntry (entry : ManifestEntry) : Prop where
  tail : EventChain entry.checkpointCatalog.rowCount entry.checkpointCatalog.checkpointRoot
    entry.currentTail.toList entry.eventCount entry.currentRoot
  bridges : entry.retainedBridges ≠ [] → ∃ start root, EventChain start root
    entry.retainedBridges entry.checkpointCatalog.rowCount entry.checkpointCatalog.checkpointRoot
  bridges_length : entry.retainedBridges.length ≤ maxRetainedBridges
  checked : ∀ chunk ∈ entry.currentTail.toList ++ entry.retainedBridges,
    CheckedChunk chunk ∧ chunk.validate = .ok ()

/-- An entry without events is checked. -/
theorem isEmptyGraph_checked (hcount : entry.eventCount = 0)
    (h : entry.isEmptyGraph = true) : CheckedEntry entry := by
  simp only [ManifestEntry.isEmptyGraph, Bool.and_eq_true, Option.isNone_iff_eq_none, beq_iff_eq,
    List.isEmpty_iff] at h
  obtain ⟨⟨⟨⟨⟨⟨-, hroot⟩, hrows⟩, -⟩, hcheckpoint⟩, htail⟩, hbridges⟩ := h
  refine ⟨?_, fun hne => absurd hbridges hne, ?_, fun chunk hmem => ?_⟩
  · rw [hcount, hroot, hrows, hcheckpoint, htail]
    exact .nil _ _
  · rw [hbridges]
    exact Nat.zero_le _
  · rw [htail, hbridges] at hmem
    cases hmem

/-- There are no bridges without a catalog. -/
theorem validateCheckpoint_eq_ok (h : entry.validateCheckpoint = .ok ()) :
    BridgesChecked entry := by
  rw [ManifestEntry.validateCheckpoint] at h
  split_ifs at h with hzero hnone
  · rw [not_or, not_or, Bool.not_eq_true', Bool.not_eq_false, List.isEmpty_iff] at hnone
    exact bridgesChecked_of_nil hnone.2.2
  · exact validateBridgeChain_eq_ok h

/-- What an entry that passes its check describes. -/
theorem ManifestEntry.validate_eq_ok (h : entry.validate = .ok ()) :
    CheckedEntry entry := by
  simp only [ManifestEntry.validate, bind_eq_ok, ite_error_eq_ok] at h
  obtain ⟨_, -, _, -, _, -, _, -, hlength, h⟩ := h
  by_cases hcount : entry.eventCount = 0
  · rw [if_pos hcount] at h
    split_ifs at h with hempty
    exact isEmptyGraph_checked hcount hempty
  · rw [if_neg hcount] at h
    cases hroot : entry.currentRoot with
    | none =>
      rw [hroot] at h
      cases h
    | some currentRoot =>
      simp only [hroot, bind_eq_ok, ite_error_eq_ok] at h
      obtain ⟨-, -, _, hcheckpoint, h⟩ := h
      obtain ⟨hbridges, hbridgesChecked⟩ := validateCheckpoint_eq_ok hcheckpoint
      obtain ⟨htail, htailChecked⟩ := validateTail_eq_ok hcount h
      exact ⟨hroot ▸ htail, hbridges, Nat.not_lt.mp hlength,
        List.forall_mem_append.mpr ⟨htailChecked, hbridgesChecked⟩⟩

/-- The catalog that a descriptor accepts passes its check and has its totals. -/
theorem verifyCatalog_eq_ok {descriptor : CheckpointCatalogDescriptor} {catalog : CheckpointCatalog}
    (h : descriptor.verifyCatalog catalog = .ok ()) :
    catalog.validate = .ok () ∧ descriptor.rowCount = catalog.rowCount ∧
      descriptor.chunkCount = catalog.chunks.length ∧
      descriptor.checkpointRoot = catalog.checkpointRoot := by
  simp only [CheckpointCatalogDescriptor.verifyCatalog, bind_eq_ok, ite_error_eq_ok, not_or,
    not_not] at h
  obtain ⟨_, -, _, hvalid, ⟨-, -, -, hrows, hchunks, hroot⟩, -⟩ := h
  exact ⟨hvalid, hrows.symm, hchunks.symm, hroot.symm⟩

/-- What a response with a chunk may take. -/
def carResponseLimit (byteSize : Nat) : Nat :=
  byteSize + (max (byteSize / 8) carMinOverheadBytes + carFixedOverheadBytes)

/-- The sums over some chunks. -/
def planTotals (chunks : List EventArtifactDescriptor) : PlanLimits where
  descriptorCount := chunks.length
  encodedBytes := (chunks.map (·.artifact.byteSize)).sum
  responseBytes := (chunks.map (carResponseLimit ·.artifact.byteSize)).sum
  reconstructedBytes := (chunks.map (·.artifact.byteSize)).sum
  decodedBytes := (chunks.map (·.artifact.byteSize)).sum
  recordCount := totalRows chunks
  carBlockCount := chunks.length * artifactCarMaxBlocks

theorem checkedCarResponseLimit_of_lt {byteSize : Nat} (h : carResponseLimit byteSize < 2 ^ 64) :
    checkedCarResponseLimit byteSize = .ok (carResponseLimit byteSize) := by
  have hoverhead := checkedPoiAdd_of_lt (Nat.lt_of_le_of_lt (Nat.le_add_left _ _) h)
  exact bind_eq_ok.mpr ⟨_, hoverhead, checkedPoiAdd_of_lt h⟩

theorem sum_map_append_lt {f : EventArtifactDescriptor → Nat} {bound : Nat}
    (hle : ∀ other ∈ chunks ++ [chunk], f other ≤ bound)
    (hlength : (chunks ++ [chunk]).length * bound < 2 ^ 64) :
    (chunks.map f).sum + f chunk < 2 ^ 64 := by
  have hsum : ((chunks ++ [chunk]).map f).sum ≤ (chunks ++ [chunk]).length * bound := by
    have := List.sum_le_card_nsmul ((chunks ++ [chunk]).map f) bound (by
      intro n hn
      obtain ⟨other, hmem, rfl⟩ := List.mem_map.mp hn
      exact hle other hmem)
    rwa [List.length_map, smul_eq_mul] at this
  rw [List.map_append, List.sum_append, List.map_singleton, List.sum_singleton] at hsum
  omega

/-- Adding a chunk to the sums over others does not overflow. -/
theorem PlanLimits.add_planTotals (hvalid : chunk.validate = .ok ())
    (hall : ∀ other ∈ chunks ++ [chunk], CheckedChunk other)
    (hlength : (chunks ++ [chunk]).length ≤ 2 * catalogMaxDescriptors) :
    (planTotals chunks).add chunk = .ok (planTotals (chunks ++ [chunk])) := by
  have hsize : ∀ other ∈ chunks ++ [chunk], other.artifact.byteSize ≤ 2 ^ 22 :=
    fun other hmem => (hall other hmem).byteSize_le
  have hrows : ∀ other ∈ chunks ++ [chunk], other.rowCount ≤ 2 ^ 22 := fun other hmem => by
    have hbytes := (hall other hmem).byteSize_eq
    have := hsize other hmem
    unfold eventRecordBytes at hbytes
    omega
  have hresponse : ∀ other ∈ chunks ++ [chunk],
      carResponseLimit other.artifact.byteSize ≤ 2 ^ 24 := fun other hmem => by
    have := hsize other hmem
    unfold carResponseLimit carMinOverheadBytes carFixedOverheadBytes
    omega
  have hthis : chunk ∈ chunks ++ [chunk] := List.mem_append_right _ (List.mem_singleton_self _)
  rw [catalogMaxDescriptors] at hlength
  have hencoded := sum_map_append_lt hsize (by omega)
  have hresponses := sum_map_append_lt hresponse (by omega)
  have hrecords := sum_map_append_lt hrows (by omega)
  have hcar := checkedCarResponseLimit_of_lt
    (Nat.lt_of_le_of_lt (hresponse chunk hthis) (by decide))
  have hlimits : RetrievalLimits.forEvent chunk = .ok
      { responseBytes := carResponseLimit chunk.artifact.byteSize,
        carBlockCount := artifactCarMaxBlocks, reconstructedBytes := chunk.artifact.byteSize,
        decodedBytes := chunk.artifact.byteSize, recordCount := chunk.rowCount } := by
    exact bind_eq_ok.mpr ⟨(), hvalid, bind_eq_ok.mpr ⟨_, hcar, rfl⟩⟩
  rw [List.length_append, List.length_singleton] at hlength
  have hblocks : chunks.length * artifactCarMaxBlocks + artifactCarMaxBlocks < 2 ^ 64 := by
    unfold artifactCarMaxBlocks
    omega
  have hcount : chunks.length + 1 < 2 ^ 64 := by omega
  simp only [PlanLimits.add, bind_eq_ok, planTotals, totalRows, List.map_append, List.sum_append,
    List.map_singleton, List.sum_singleton, List.length_append, List.length_singleton,
    Nat.succ_mul]
  exact ⟨_, hlimits, _, checkedPoiAdd_of_lt hcount, _, checkedPoiAdd_of_lt hencoded, _,
    checkedPoiAdd_of_lt hresponses, _, checkedPoiAdd_of_lt hencoded, _,
    checkedPoiAdd_of_lt hencoded, _, checkedPoiAdd_of_lt hrecords, _,
    checkedPoiAdd_of_lt hblocks, rfl⟩

/-- The limits of a plan are sums over its chunks. -/
theorem checkedEventPlanLimits_eq
    (hall : ∀ chunk ∈ chunks, CheckedChunk chunk ∧ chunk.validate = .ok ())
    (hlength : chunks.length ≤ 2 * catalogMaxDescriptors) :
    checkedEventPlanLimits chunks = .ok (planTotals chunks) := by
  -- By induction on the chunks from the end, since what has been added is a prefix.
  induction chunks using List.reverseRecOn with
  | nil => rfl
  | append_singleton chunks chunk ih =>
    rw [List.forall_mem_append, List.forall_mem_singleton] at hall
    rw [List.length_append] at hlength
    rw [checkedEventPlanLimits, List.foldlM_append, ← checkedEventPlanLimits,
      ih hall.1 (by omega)]
    have hadd := PlanLimits.add_planTotals hall.2.2 (List.forall_mem_append.mpr
      ⟨fun other hother => (hall.1 other hother).1, List.forall_mem_singleton.mpr hall.2.1⟩)
      (by rw [List.length_append]; exact hlength)
    exact bind_eq_ok.mpr ⟨_, rfl, bind_eq_ok.mpr ⟨_, hadd, rfl⟩⟩

/-- What an entry and its catalog describe: one history in the chunks of the
    catalog and the tail, and one in the bridges, which end with the catalog, and
    the tail. -/
structure CompleteHistory (entry : ManifestEntry) (catalog : CheckpointCatalog) : Prop where
  history : EventChain 0 none (catalog.chunks ++ entry.currentTail.toList) entry.eventCount
    entry.currentRoot
  bridges : entry.retainedBridges ≠ [] → ∃ start root,
    EventChain start root entry.retainedBridges catalog.rowCount catalog.checkpointRoot ∧
    EventChain start root (entry.retainedBridges ++ entry.currentTail.toList) entry.eventCount
      entry.currentRoot
  rowCount_eq : entry.checkpointCatalog.rowCount = catalog.rowCount ∧
    catalog.rowCount = totalRows catalog.chunks
  chunkCount_eq : entry.checkpointCatalog.chunkCount = catalog.chunks.length
  eventCount_eq : entry.eventCount = totalRows (catalog.chunks ++ entry.currentTail.toList)
  byteSize_eq : ∀ chunk ∈ catalog.chunks ++ (entry.currentTail.toList ++ entry.retainedBridges),
    chunk.artifact.byteSize = eventHeaderFixedBytes + chunk.scope.txidVersion.utf8ByteSize +
      chunk.rowCount * eventRecordBytes
  limits : checkedEventPlanLimits (catalog.chunks ++ entry.currentTail.toList) =
    .ok (planTotals (catalog.chunks ++ entry.currentTail.toList))
  bridgeLimits : checkedEventPlanLimits (entry.retainedBridges ++ entry.currentTail.toList) =
    .ok (planTotals (entry.retainedBridges ++ entry.currentTail.toList))

-- The entry's check gives the chain from the end of the catalog on, the check
-- of the catalog the chain up to it. They meet since the descriptor in the entry
-- has accepted the catalog.
/-- A checked entry and the catalog it names are a complete history. -/
theorem poiManifest_complete (entry : ManifestEntry) (catalog : CheckpointCatalog)
    (hentry : entry.validate = .ok ())
    (hcatalog : entry.checkpointCatalog.verifyCatalog catalog = .ok ()) :
    CompleteHistory entry catalog := by
  obtain ⟨hvalid, hrows, hchunks, hroot⟩ := verifyCatalog_eq_ok hcatalog
  obtain ⟨hchain, hlength, hchecked⟩ := CheckpointCatalog.validate_eq_ok hvalid
  obtain ⟨htail, hbridges, hbridgesLength, hrest⟩ := ManifestEntry.validate_eq_ok hentry
  rw [hrows, hroot] at htail hbridges
  have hhistory := hchain.append htail
  have htailLength : entry.currentTail.toList.length ≤ 1 := by
    cases entry.currentTail with
    | none => exact Nat.zero_le _
    | some tail => exact Nat.le_refl _
  have hall : ∀ chunk ∈ catalog.chunks ++ (entry.currentTail.toList ++ entry.retainedBridges),
      CheckedChunk chunk ∧ chunk.validate = .ok () := fun chunk hmem => by
    rcases List.mem_append.mp hmem with hmem | hmem
    · exact ⟨(hchecked chunk hmem).1, (hchecked chunk hmem).2.1⟩
    · exact hrest chunk hmem
  rw [maxRetainedBridges] at hbridgesLength
  rw [catalogMaxDescriptors] at hlength
  refine ⟨hhistory, fun hne => ?_, ⟨hrows, ?_⟩, hchunks, ?_, fun chunk hmem =>
    (hall chunk hmem).1.byteSize_eq, ?_, ?_⟩
  · obtain ⟨start, root, hbridge⟩ := hbridges hne
    exact ⟨start, root, hbridge, hbridge.append htail⟩
  · exact ((Nat.zero_add _).symm.trans hchain.totalRows_eq).symm
  · exact ((Nat.zero_add _).symm.trans hhistory.totalRows_eq).symm
  · refine checkedEventPlanLimits_eq (fun chunk hmem => hall chunk ?_) ?_
    · rw [← List.append_assoc]
      exact List.mem_append_left _ hmem
    · rw [List.length_append, catalogMaxDescriptors]
      omega
  · refine checkedEventPlanLimits_eq (fun chunk hmem => hrest chunk ?_) ?_
    · exact List.mem_append.mpr (List.mem_append.mp hmem).symm
    · rw [List.length_append, catalogMaxDescriptors]
      omega

/-- A scope with the shortest version that is in use. -/
def samplePoiScope : PoiScope := { listKey := 9, chainType := 0, chainId := 1, txidVersion := "V2" }

/-- One event, after a root and with the root that it gives. -/
def samplePoiChunk (kind : EventArtifactKind) (index : Nat) (startRoot : Option Bytes32)
    (endRoot : Bytes32) : EventArtifactDescriptor :=
  { artifact := { cid := "chunk", byteSize := 246, sha256 := 0 }, formatVersion := 4,
    scope := samplePoiScope, kind, range := { startIndex := index, endIndex := index },
    rowCount := 1, encoding := .poiEventBinary, compression := .identity, startRoot, endRoot }

/-- The first event is in the catalog and in a bridge, the second is the tail. -/
def samplePoiEntry : ManifestEntry :=
  { scope := samplePoiScope, eventCount := 2, currentTipIndex := some 1, currentRoot := some 7,
    checkpointCatalog :=
      { artifact := { cid := "catalog", byteSize := 1000, sha256 := 0 }, formatVersion := 4,
        scope := samplePoiScope, range := some { startIndex := 0, endIndex := 0 }, rowCount := 1,
        chunkCount := 1, encoding := .canonicalJson, compression := .identity,
        checkpointRoot := some 5 },
    currentTail := some (samplePoiChunk .currentTail 1 (some 5) 7),
    retainedBridges := [samplePoiChunk .bridge 0 none 5],
    blockedShields :=
      { artifact := { cid := "blocked", byteSize := 10, sha256 := 0 }, formatVersion := 4,
        scope := samplePoiScope, rowCount := 0, encoding := .canonicalJson,
        compression := .identity } }

/-- A catalog with the first event. -/
def samplePoiCatalog (root : Bytes32) : CheckpointCatalog :=
  { formatVersion := 4, scope := samplePoiScope, range := some { startIndex := 0, endIndex := 0 },
    rowCount := 1, checkpointRoot := some root, chunks := [samplePoiChunk .checkpoint 0 none root] }

/-- The sample entry and its catalog are a complete history. -/
theorem poiManifest_complete_sample : samplePoiEntry.validate = .ok () ∧
    samplePoiEntry.checkpointCatalog.verifyCatalog (samplePoiCatalog 5) = .ok () ∧
    CompleteHistory samplePoiEntry (samplePoiCatalog 5) := by
  have hentry : samplePoiEntry.validate = .ok () := by decide +kernel
  have hcatalog : samplePoiEntry.checkpointCatalog.verifyCatalog (samplePoiCatalog 5) = .ok () := by
    decide +kernel
  exact ⟨hentry, hcatalog, poiManifest_complete _ _ hentry hcatalog⟩

/-- The bridges of a checked entry end before its last event, and an entry and a
    catalog that are checked apart need not belong together: here the tail starts
    with another root than the catalog ends with. -/
theorem poiManifest_checks_not_joined :
    (samplePoiEntry.validate = .ok () ∧ (samplePoiCatalog 5).validate = .ok () ∧
      samplePoiEntry.checkpointCatalog.verifyCatalog (samplePoiCatalog 5) = .ok () ∧
      samplePoiEntry.retainedBridges.map (·.range.endIndex + 1) = [1] ∧
      samplePoiEntry.eventCount = 2) ∧
    (samplePoiCatalog 6).validate = .ok () ∧
      (samplePoiCatalog 6).chunks.map (·.endRoot) = [6] ∧
      samplePoiEntry.currentTail.map (·.startRoot) = some (some 5) := by
  decide +kernel

end Railgun
