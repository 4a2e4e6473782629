import Railgun.Theory.JournalReplay
import Railgun.Theory.PoiStatus

/-!
# Artifacts Against the Journal

The same events get into a cache from an artifact or from a journal delta. An
artifact stores every commitment as a leaf. A delta stores its leaves as they
come from a node, where zero stands for no leaf, and skips them.

The two agree as long as no commitment is zero. A commitment that is zero is
stored and given a position by one path and not by the other.

## Main definitions

* `ContiguousFrom`: Events with the indices from a start on.
* `PoiCache.artifactDelta`: The journal delta with the same events.
* `PoiCache.Agree`: The same roots, positions, statuses and cursors.

## Theorems

* `withArtifactEvents_sameCorpus`: Without zero commitments both paths store the
  same.
* `artifact_journal_agree_iff`: When the two paths agree.
-/

namespace Railgun

open PoiCache

variable (poseidon : U256 → U256 → U256)

/-- Events with the indices from a start on. -/
def ContiguousFrom : Nat → List SnapshotEvent → Prop
  | _, [] => True
  | start, event :: events => event.eventIndex = start ∧ ContiguousFrom (start + 1) events

/-- The journal delta with the events of an artifact. -/
def PoiCache.artifactDelta (cache : PoiCache) (events : List SnapshotEvent) :
    PoiCacheJournalDelta where
  version := poiCacheJournalDeltaVersion
  identity := cache.identity
  eventStartCursor := cache.progress.nextEventIndex
  eventEndCursor := cache.progress.nextEventIndex + events.length
  leafStartCursor := cache.progress.nextLeafIndex
  leafEndCursor := cache.progress.nextLeafIndex + events.length
  events := events.map fun event => ⟨event.eventIndex, event.blindedCommitment⟩
  leaves := events.map fun event => event.blindedCommitment

/-- The same roots, positions, statuses and cursors. -/
structure PoiCache.Agree (cache other : PoiCache) : Prop where
  roots : cache.currentRootsReadonly poseidon = other.currentRootsReadonly poseidon
  positions : ∀ commitment, cache.position commitment = other.position commitment
  statuses : ∀ commitment, cache.status commitment = other.status commitment
  nextEventIndex : cache.progress.nextEventIndex = other.progress.nextEventIndex
  nextLeafIndex : cache.progress.nextLeafIndex = other.progress.nextLeafIndex

theorem contiguous_journalEvents {start : Nat} {events : List SnapshotEvent}
    (h : ContiguousFrom start events) :
    events.map (fun event => (⟨event.eventIndex, event.blindedCommitment⟩ : PoiCacheJournalEvent))
      = journalEvents start (events.map fun event => event.blindedCommitment) := by
  induction events generalizing start with
  | nil => rfl
  | cons event events ih => rw [List.map_cons, List.map_cons, journalEvents, ih h.2, h.1]

theorem ContiguousFrom.index_lt {start : Nat} {events : List SnapshotEvent}
    (h : ContiguousFrom start events) :
    ∀ event ∈ events, event.eventIndex < start + events.length := by
  induction events generalizing start with
  | nil => exact nofun
  | cons event events ih =>
    intro later hmem
    rw [List.length_cons]
    rcases List.mem_cons.mp hmem with rfl | hmem
    · have := h.1
      omega
    · have := ih h.2 later hmem
      omega

theorem artifactDelta_fits {cache : PoiCache} {events : List SnapshotEvent}
    (hcursors : cache.progress.nextEventIndex = cache.progress.nextLeafIndex)
    (hevents : ContiguousFrom cache.progress.nextLeafIndex events)
    (hbound : cache.progress.nextLeafIndex + events.length ≤ 2 ^ 48) :
    JournalFits cache (cache.artifactDelta events) where
  version := rfl
  identity := rfl
  eventStart := rfl
  leafStart := rfl
  eventEnd := by rw [artifactDelta, List.length_map]
  leafEnd := by rw [artifactDelta, List.length_map]
  eventEnd_lt := by
    rw [artifactDelta]
    dsimp only
    omega
  leafEnd_lt := by
    rw [artifactDelta]
    dsimp only
    omega
  events := contiguous_journalEvents hevents
  sameStart := Or.inr hcursors

/-- The two caches store the same leaves at the same positions. -/
structure SameCorpus (cache other : PoiCache) : Prop where
  forest : cache.forest = other.forest
  positions : cache.positionByBlindedCommitment = other.positionByBlindedCommitment

theorem withArtifactEvents_sameCorpus (events : List SnapshotEvent) :
    ∀ (cache other : PoiCache) (start : Nat), SameCorpus cache other →
      ContiguousFrom start events → (∀ event ∈ events, event.blindedCommitment ≠ 0) →
      SameCorpus (events.foldl withArtifactEvent cache)
        (other.withLeaves start (events.map fun event => event.blindedCommitment)) := by
  induction events with
  | nil => exact fun _ _ _ h _ _ => h
  | cons event events ih =>
    intro cache other start h hevents hnonzero
    refine ih _ _ (start + 1) ?_ hevents.2
      fun later hmem => hnonzero later (List.mem_cons_of_mem _ hmem)
    rw [withLeaf, if_pos (hnonzero event List.mem_cons_self), ← hevents.1]
    exact ⟨congrArg (fun forest : MerkleForest => forest.withLeaf _ _ _) h.forest,
      congrArg (fun map : BTreeMap Bytes32 PoiCachePosition => map.insert _ _) h.positions⟩

theorem withEvents_positions (events : List PoiCacheJournalEvent) (cache : PoiCache) :
    (cache.withEvents events).positionByBlindedCommitment = cache.positionByBlindedCommitment := by
  induction events generalizing cache with
  | nil => rfl
  | cons event events ih =>
    rw [withEvents, List.foldl_cons, ← withEvents, ih]
    rfl

theorem withLeaves_position_zero (leaves : List U256) :
    ∀ (cache : PoiCache) (start : Nat),
      (cache.withLeaves start leaves).position 0 = cache.position 0 := by
  induction leaves with
  | nil => exact fun _ _ => rfl
  | cons leaf leaves ih =>
    intro cache start
    rw [withLeaves, ih, withLeaf]
    split_ifs with hnonzero
    · exact (getElem?_insert_key _ _ _ _).trans (if_neg hnonzero)
    · rfl

theorem position_withArtifactEvent (cache : PoiCache) (event : SnapshotEvent)
    (commitment : Bytes32) :
    (cache.withArtifactEvent event).position commitment
      = if event.blindedCommitment = commitment then some (positionOf event.eventIndex)
        else cache.position commitment :=
  getElem?_insert_key _ _ _ _

theorem withArtifactEvents_position (events : List SnapshotEvent) {commitment : Bytes32}
    {low : Nat} :
    ∀ (cache : PoiCache) (start : Nat), low ≤ start → ContiguousFrom start events →
      ((∃ position, cache.position commitment = some position ∧ low ≤ position.globalIndex) ∨
        ∃ event ∈ events, event.blindedCommitment = commitment) →
      ∃ position, (events.foldl withArtifactEvent cache).position commitment
        = some position ∧ low ≤ position.globalIndex := by
  induction events with
  | nil =>
    rintro cache start - - (hold | ⟨event, hmem, -⟩)
    · exact hold
    · cases hmem
  | cons event events ih =>
    intro cache start hlow hevents h
    refine ih _ (start + 1) (by omega) hevents.2 ?_
    rw [position_withArtifactEvent]
    by_cases heq : event.blindedCommitment = commitment
    · -- Whatever was there before, the position is now that of this event.
      rw [if_pos heq]
      refine Or.inl ⟨_, rfl, ?_⟩
      rw [positionOf, hevents.1]
      exact hlow
    · rw [if_neg heq]
      rcases h with hold | ⟨later, hmem, hlater⟩
      · exact Or.inl hold
      · rcases List.mem_cons.mp hmem with rfl | hmem
        · exact absurd hlater heq
        · exact Or.inr ⟨later, hmem, hlater⟩

theorem withArtifactEvents_cursors (events : List SnapshotEvent) :
    ∀ (cache : PoiCache) (start : Nat), ContiguousFrom start events →
      cache.progress.nextEventIndex = start → cache.progress.nextLeafIndex = start →
      (events.foldl withArtifactEvent cache).progress.nextEventIndex
          = start + events.length ∧
        (events.foldl withArtifactEvent cache).progress.nextLeafIndex
          = start + events.length := by
  induction events with
  | nil => exact fun _ _ _ hevent hleaf => ⟨hevent, hleaf⟩
  | cons event events ih =>
    intro cache start hevents hevent hleaf
    have hindex := hevents.1
    have hnextEvent : (cache.withArtifactEvent event).progress.nextEventIndex = start + 1 := by
      have hmax : (cache.withArtifactEvent event).progress.nextEventIndex
        = max cache.progress.nextEventIndex (event.eventIndex + 1) := rfl
      omega
    have hnextLeaf : (cache.withArtifactEvent event).progress.nextLeafIndex = start + 1 := by
      have hmax : (cache.withArtifactEvent event).progress.nextLeafIndex
        = max cache.progress.nextLeafIndex (event.eventIndex + 1) := rfl
      omega
    obtain ⟨hevent', hleaf'⟩ := ih _ (start + 1) hevents.2 hnextEvent hnextLeaf
    rw [List.foldl_cons, List.length_cons, hevent', hleaf']
    exact ⟨by omega, by omega⟩

theorem artifact_statuses (cache : PoiCache) (events : List SnapshotEvent)
    (commitment : Bytes32) :
    (events.foldl withArtifactEvent cache).status commitment
      = (cache.withDelta (cache.artifactDelta events)).status commitment := by
  have hartifact := (marks_foldl marks_withArtifactEvent events cache).status commitment
  have hjournal := (marks_withDelta cache (cache.artifactDelta events)).status commitment
  rw [status, status, hartifact, hjournal]
  have hevents : (cache.artifactDelta events).events.flatMap
      (fun event => [event.blindedCommitment])
      = events.flatMap fun event => [event.blindedCommitment] := by
    rw [artifactDelta, List.flatMap_map]
  have hleaves : ∀ leaf ∈ nonzeroLeaves (cache.artifactDelta events).leaves,
      leaf ∈ events.flatMap fun event => [event.blindedCommitment] := by
    intro leaf hmem
    rw [← List.map_eq_flatMap]
    exact (List.mem_filter.mp hmem).1
  have hmem : commitment ∈ (cache.artifactDelta events).events.flatMap
        (fun event => [event.blindedCommitment]) ++
          nonzeroLeaves (cache.artifactDelta events).leaves
      ↔ commitment ∈ events.flatMap fun event => [event.blindedCommitment] := by
    rw [hevents, List.mem_append]
    exact ⟨Or.rec id (hleaves commitment), Or.inl⟩
  simp only [hmem]

/-- Contiguous events from the cursors of a cache on, applied from an artifact and
    from the journal delta with the same events: both succeed, and they agree on
    roots, positions, statuses and cursors when no commitment is zero. When zero has
    no position from the cursors on yet, they agree only then. -/
theorem artifact_journal_agree_iff (cache : PoiCache)
    (hcursors : cache.progress.nextEventIndex = cache.progress.nextLeafIndex)
    (events : List SnapshotEvent) (hevents : ContiguousFrom cache.progress.nextLeafIndex events)
    (hbound : cache.progress.nextLeafIndex + events.length ≤ 2 ^ 48) :
    ∃ count fromArtifact fromJournal,
      (applyVerifiedArtifactEvents events).exec cache = (.ok count, fromArtifact) ∧
      (applyJournalDelta (cache.artifactDelta events)).exec cache
        = (.ok (), fromJournal) ∧
      ((∀ event ∈ events, event.blindedCommitment ≠ 0) →
        fromArtifact.Agree poseidon fromJournal) ∧
      ((∀ position, cache.position 0 = some position →
          position.globalIndex < cache.progress.nextLeafIndex) →
        fromArtifact.Agree poseidon fromJournal →
        ∀ event ∈ events, event.blindedCommitment ≠ 0) := by
  have hfits := artifactDelta_fits hcursors hevents hbound
  have hjournal : (applyJournalDelta (cache.artifactDelta events)).exec cache
      = (.ok (), cache.withDelta (cache.artifactDelta events)) := by
    rw [applyJournalDelta_exec, checkJournalDelta_eq_ok.mpr hfits]
  have hroom : ∀ event ∈ events, event.eventIndex + 1 < 2 ^ 64 := by
    intro event hmem
    have := hevents.index_lt event hmem
    omega
  refine ⟨_, _, _, applyVerifiedArtifactEvents_eq_ok.mpr ⟨hroom, rfl, rfl⟩, hjournal, ?_, ?_⟩
  · intro hnonzero
    have hcorpus := withArtifactEvents_sameCorpus events cache
      (cache.withEvents (cache.artifactDelta events).events) cache.progress.nextLeafIndex
      ⟨(withEvents_forest _ _).symm, (withEvents_positions _ _).symm⟩ hevents hnonzero
    obtain ⟨hevent, hleaf⟩ := withArtifactEvents_cursors events cache
      cache.progress.nextLeafIndex hevents hcursors rfl
    obtain ⟨hevent', hleaf'⟩ := withDelta_cursors hfits
    refine ⟨?_, ?_, artifact_statuses cache events, ?_, ?_⟩
    · rw [currentRootsReadonly, hcorpus.forest]
      rfl
    · intro commitment
      rw [PoiCache.position, hcorpus.positions]
      rfl
    · rw [hevent, hevent', ← hcursors]
      rfl
    · rw [hleaf, hleaf']
      rfl
  · -- Zero has a position from the start on after one path, and its former
    -- position after the other.
    intro hfresh hagree event hmem hzero
    obtain ⟨position, hposition, hlow⟩ := withArtifactEvents_position events cache
      cache.progress.nextLeafIndex le_rfl hevents (Or.inr ⟨event, hmem, hzero⟩)
    have hold : cache.position 0 = some position := by
      rw [← hposition, hagree.positions 0, withDelta, withLeaves_position_zero,
        PoiCache.position, PoiCache.position, withEvents_positions]
    exact absurd (hfresh position hold) (Nat.not_lt.mpr hlow)

/-- Two events of an artifact, neither of them zero. -/
theorem artifact_journal_agree_nonzero : ∃ count fromArtifact fromJournal,
    (applyVerifiedArtifactEvents [⟨0, 9, [], .shield⟩, ⟨1, 7, [], .shield⟩]).exec
        (PoiCache.new someIdentity) = (.ok count, fromArtifact) ∧
      (applyJournalDelta ((PoiCache.new someIdentity).artifactDelta
        [⟨0, 9, [], .shield⟩, ⟨1, 7, [], .shield⟩])).exec (PoiCache.new someIdentity)
        = (.ok (), fromJournal) ∧
      fromArtifact.Agree (fun a b => a + 2 * b) fromJournal := by
  obtain ⟨count, fromArtifact, fromJournal, hartifact, hjournal, hagree, -⟩ :=
    artifact_journal_agree_iff (fun a b => a + 2 * b) (PoiCache.new someIdentity) rfl
      [⟨0, 9, [], .shield⟩, ⟨1, 7, [], .shield⟩] ⟨rfl, rfl, trivial⟩ (by decide)
  exact ⟨count, fromArtifact, fromJournal, hartifact, hjournal, hagree (by decide)⟩

/-- Two events of an artifact, the first of them zero. -/
def zeroFirstEvents : List SnapshotEvent := [⟨0, 0, [], .shield⟩, ⟨1, 7, [], .shield⟩]

/-- The first commitment is zero: the artifact stores it as the first leaf and
    gives it a position, and the journal delta with the same events leaves the
    first leaf empty. -/
theorem artifact_journal_zeroFirst : ∃ fromArtifact fromJournal,
    (applyVerifiedArtifactEvents zeroFirstEvents).exec (PoiCache.new someIdentity)
        = (.ok 2, fromArtifact) ∧
      (applyJournalDelta ((PoiCache.new someIdentity).artifactDelta zeroFirstEvents)).exec
        (PoiCache.new someIdentity) = (.ok (), fromJournal) ∧
      (fromArtifact.currentRootsReadonly fun a _ => a)[0]? = some 0 ∧
      (fromJournal.currentRootsReadonly fun a _ => a)[0]? = some merkleZeroValue ∧
      fromArtifact.position 0 = some (positionOf 0) ∧ fromJournal.position 0 = none := by
  have hfits : JournalFits (PoiCache.new someIdentity)
      ((PoiCache.new someIdentity).artifactDelta zeroFirstEvents) :=
    artifactDelta_fits rfl ⟨rfl, rfl, trivial⟩ (by decide)
  have hjournal := applyJournalDelta_exec (PoiCache.new someIdentity)
    ((PoiCache.new someIdentity).artifactDelta zeroFirstEvents)
  rw [checkJournalDelta_eq_ok.mpr hfits] at hjournal
  refine ⟨_, _, applyVerifiedArtifactEvents_eq_ok.mpr ⟨by decide, rfl, rfl⟩, hjournal,
    rfl, rfl, ?_, ?_⟩
  · rw [zeroFirstEvents, List.foldl_cons, List.foldl_cons, List.foldl_nil,
      position_withArtifactEvent, if_neg (by decide), position_withArtifactEvent, if_pos rfl]
  · rw [withDelta, withLeaves_position_zero, PoiCache.position, withEvents_positions]
    exact Std.ExtTreeMap.getElem?_empty

end Railgun
