import Railgun.Theory.PoiBlocked
import Railgun.Theory.PoiFetch

/-!
# Synchronization and Its Journal

A synchronization returns a delta and, when they have changed, the blocked
shields. Both are enough to bring a copy of the cache to where the
synchronization has brought the cache: the delta is that of the run of signed
events fetched, extending by it is what the two loops have done, and the
replacement of blocked shields is done again or was none.

The journal is not the forest. A zero commitment has an event and no leaf, and
an index a multiple of the size of all trees later has the same place.

## Main definitions

* `PoiCache.deltaOf`: The delta of a run of commitments.
* `PoiCache.applySyncResult`: Extend a cache by what was returned.

## Theorems

* `sync_journal_faithful`: What was done is what the journal says.
* `sync_journal_differs`: Where journal and cache differ.
-/

namespace Railgun

open PoiCache

/-- From an offset of a run on, no leaf is stored at the place of an index. -/
def PlaceFree (start : Nat) (leaves : List U256) (first index : Nat) : Prop :=
  ∀ offset leaf, first ≤ offset → leaves[offset]? = some leaf → leaf ≠ 0 →
    normalizeTreePosition 0 (start + offset) ≠ normalizeTreePosition 0 index

theorem PlaceFree.tail {start first index : Nat} {leaf : U256} {leaves : List U256}
    (h : PlaceFree start (leaf :: leaves) (first + 1) index) :
    PlaceFree (start + 1) leaves first index := by
  intro offset other hfirst hget hzero
  rw [show start + 1 + offset = start + (offset + 1) by omega]
  exact h (offset + 1) other (by omega) hget hzero

/-- Leaves stored at other places change nothing at an index. -/
theorem commitmentAt_withLeaves_free {leaves : List U256} {start index : Nat}
    (h : PlaceFree start leaves 0 index) (cache : PoiCache) :
    (cache.withLeaves start leaves).commitmentAtGlobalIndex index
      = cache.commitmentAtGlobalIndex index := by
  induction leaves generalizing cache start with
  | nil => rfl
  | cons leaf leaves ih =>
    have htail : PlaceFree start (leaf :: leaves) 1 index :=
      fun offset other _ => h offset other (Nat.zero_le _)
    rw [withLeaves, ih htail.tail, commitmentAt_withLeaf_place, if_neg]
    exact fun hboth => h 0 leaf le_rfl rfl hboth.2 hboth.1

/-- A leaf of a run stays where it is stored, unless a later one is stored at the
    same place. -/
theorem commitmentAt_withLeaves_last {leaves : List U256} {start offset : Nat} {leaf : U256}
    (hget : leaves[offset]? = some leaf) (hzero : leaf ≠ 0)
    (h : PlaceFree start leaves (offset + 1) (start + offset)) (cache : PoiCache) :
    (cache.withLeaves start leaves).commitmentAtGlobalIndex (start + offset) = some leaf := by
  induction leaves generalizing cache start offset with
  | nil => cases hget
  | cons head leaves ih =>
    cases offset with
    | zero =>
      rw [List.getElem?_cons_zero, Option.some.injEq] at hget
      rw [withLeaves, commitmentAt_withLeaves_free h.tail, commitmentAt_withLeaf_place,
        if_pos ⟨rfl, by rw [hget]; exact hzero⟩, hget]
    | succ offset =>
      rw [show start + (offset + 1) = start + 1 + offset by omega] at h ⊢
      exact ih hget h.tail _

/-- The delta of commitments that follow a cache. -/
def PoiCache.deltaOf (start : PoiCache) (listed : List Bytes32) : PoiCacheJournalDelta where
  version := poiCacheJournalDeltaVersion
  identity := start.identity
  eventStartCursor := start.progress.nextEventIndex
  eventEndCursor := start.progress.nextEventIndex + listed.length
  leafStartCursor := start.progress.nextLeafIndex
  leafEndCursor := start.progress.nextLeafIndex + listed.length
  events := journalEvents start.progress.nextEventIndex listed
  leaves := listed

/-- The delta of commitments that follow a cache fits it. -/
theorem journalFits_deltaOf {start : PoiCache} {listed : List Bytes32}
    (hcursors : start.progress.nextEventIndex = start.progress.nextLeafIndex)
    (hroom : start.progress.nextEventIndex + listed.length < 2 ^ 64) :
    JournalFits start (start.deltaOf listed) where
  version := rfl
  identity := rfl
  eventStart := rfl
  leafStart := rfl
  eventEnd := by rw [deltaOf, length_journalEvents]
  leafEnd := rfl
  eventEnd_lt := hroom
  leafEnd_lt := by
    rw [hcursors] at hroom
    exact hroom
  events := by rw [deltaOf, hcursors]
  sameStart := Or.inr hcursors

theorem applyJournalDelta_deltaOf {start : PoiCache} {listed : List Bytes32}
    (hcursors : start.progress.nextEventIndex = start.progress.nextLeafIndex)
    (hroom : start.progress.nextEventIndex + listed.length < 2 ^ 64) :
    (applyJournalDelta (start.deltaOf listed)).exec start
      = (.ok (), start.withDelta (start.deltaOf listed)) := by
  rw [applyJournalDelta_exec,
    checkJournalDelta_eq_ok.mpr (journalFits_deltaOf hcursors hroom)]

/-- Take over what another synchronization has returned. -/
def PoiCache.applySyncResult (fromStrRadix : String → Nat → Option U256)
    (result : PoiCacheJournalSyncResult) : CacheM Unit := do
  applyJournalDelta result.delta
  match result.blockedShields with
  | some blockedShields => do
    let _ ← replaceBlockedShields fromStrRadix blockedShields
    pure ()
  | none => pure ()

/-- Two caches hold the same and have got equally far. -/
structure SameContents (cache other : PoiCache) : Prop where
  forest : cache.forest = other.forest
  positions : cache.positionByBlindedCommitment = other.positionByBlindedCommitment
  statuses : cache.statusByBlindedCommitment = other.statusByBlindedCommitment
  blocked : cache.blockedShieldsByBlindedCommitment = other.blockedShieldsByBlindedCommitment
  nextEventIndex : cache.progress.nextEventIndex = other.progress.nextEventIndex
  nextLeafIndex : cache.progress.nextLeafIndex = other.progress.nextLeafIndex

section Journal

variable {client : PoiRpcClient} {externals : PoiCacheExternals}

/-- How the blocked shields of a synchronization end: none are asked for, or
    they are replaced and returned unless they are the former ones. -/
inductive BlockedStage (externals : PoiCacheExternals) (extended : PoiCache) :
    Option (List BlockedShield) → PoiCache → Prop where
  | skipped : BlockedStage externals extended none extended
  | replaced (blockedShields : List BlockedShield) (applied : Nat) (synced : PoiCache)
      (hreplaced : (replaceBlockedShields externals.fromStrRadix blockedShields).exec
        extended = (.ok applied, synced)) :
      BlockedStage externals extended (some blockedShields) synced
  | unchanged (blockedShields : List BlockedShield) (applied : Nat) (synced : PoiCache)
      (hreplaced : (replaceBlockedShields externals.fromStrRadix blockedShields).exec
        extended = (.ok applied, synced))
      (hsame : synced.blockedShieldsByBlindedCommitment
        = extended.blockedShieldsByBlindedCommitment) :
      BlockedStage externals extended none synced

/-- What is returned about the blocked shields says how they have changed. -/
theorem syncBlockedShields_stage {scope : PoiCacheSyncScope} {extended synced : PoiCache}
    {blockedShields : List BlockedShield} {applied : Nat} {changed : Bool}
    (hexec : (syncBlockedShields client externals scope).exec extended
      = (.ok (blockedShields, applied, changed), synced)) :
    BlockedStage externals extended ((some blockedShields).filter fun _ => changed) synced := by
  obtain ⟨fetched, -, hexec⟩ := exec_ofExcept_bind_eq_ok.mp hexec
  obtain ⟨count, reached, hreplaced, hexec⟩ := exec_bind_eq_ok.mp hexec
  obtain ⟨hresult, rfl⟩ := exec_pure_eq_ok.mp hexec
  rw [Prod.mk.injEq, Prod.mk.injEq] at hresult
  obtain ⟨rfl, -, hchanged⟩ := hresult
  cases changed with
  | true => exact .replaced fetched count reached hreplaced
  | false =>
    rw [Bool.or_eq_false_iff, Bool.not_eq_false'] at hchanged
    exact .unchanged fetched count reached hreplaced (of_decide_eq_true hchanged.2)

/-- Replacing blocked shields leaves the forest and the cursors alone. -/
theorem BlockedStage.frame {extended synced : PoiCache}
    {blockedShields : Option (List BlockedShield)}
    (h : BlockedStage externals extended blockedShields synced) :
    synced.identity = extended.identity ∧ synced.forest = extended.forest ∧
      synced.positionByBlindedCommitment = extended.positionByBlindedCommitment ∧
      synced.progress.nextEventIndex = extended.progress.nextEventIndex ∧
      synced.progress.nextLeafIndex = extended.progress.nextLeafIndex := by
  have hframe : ∀ {blockedShields : List BlockedShield} {applied : Nat} {synced : PoiCache},
      (replaceBlockedShields externals.fromStrRadix blockedShields).exec extended
        = (.ok applied, synced) →
      synced.identity = extended.identity ∧ synced.forest = extended.forest ∧
        synced.positionByBlindedCommitment = extended.positionByBlindedCommitment ∧
        synced.progress.nextEventIndex = extended.progress.nextEventIndex ∧
        synced.progress.nextLeafIndex = extended.progress.nextLeafIndex := by
    intro blockedShields applied synced hreplaced
    obtain ⟨shields, rfl⟩ := replaceBlockedShields_eq_ok hreplaced
    have hsame := (clearBlocked_frame extended.blockedShieldsByBlindedCommitment.keys
      { extended with blockedShieldsByBlindedCommitment := ∅ }).1.trans
        (sameLeaves_withBlocked extended.withoutBlocked shields)
    exact ⟨hsame.identity, hsame.forest, hsame.positions, rfl, rfl⟩
  cases h with
  | skipped => exact ⟨rfl, rfl, rfl, rfl, rfl⟩
  | replaced blockedShields applied synced hreplaced => exact hframe hreplaced
  | unchanged blockedShields applied synced hreplaced hsame => exact hframe hreplaced

/-- Replacing the blocked shields once more gives the same contents. -/
theorem BlockedStage.replay {extended synced : PoiCache} (hstatuses : BlockedStatuses extended)
    {blockedShields : Option (List BlockedShield)}
    (h : BlockedStage externals extended blockedShields synced) :
    ∃ replayed, (match blockedShields with
      | some blockedShields => do
        let _ ← replaceBlockedShields externals.fromStrRadix blockedShields
        pure ()
      | none => pure () : CacheM Unit).exec extended = (.ok (), replayed) ∧
        SameContents replayed synced := by
  have hframe := h.frame
  cases h with
  | skipped => exact ⟨extended, rfl, ⟨rfl, rfl, rfl, rfl, rfl, rfl⟩⟩
  | replaced blockedShields applied synced hreplaced =>
    refine ⟨synced, ?_, ⟨rfl, rfl, rfl, rfl, rfl, rfl⟩⟩
    rw [exec_bind_of_ok hreplaced]
    rfl
  | unchanged blockedShields applied synced hreplaced hsame =>
    obtain ⟨shields, rfl⟩ := replaceBlockedShields_eq_ok hreplaced
    obtain ⟨-, hforest, hpositions, hevent, hleaf⟩ := hframe
    exact ⟨extended, rfl, ⟨hforest.symm, hpositions.symm,
      (status_withBlocked_same hstatuses hsame).symm, hsame.symm, hevent.symm, hleaf.symm⟩⟩

/-- Signed events that the node has answered with, which follow a cache. -/
structure SignedAnswers (client : PoiRpcClient) (externals : PoiCacheExternals) (start : PoiCache)
    (signed : List SignedPoiEvent) : Prop where
  run : SignedRun externals start.identity.listKey start.progress.nextEventIndex signed
  answered : ∀ event ∈ signed, Answered client start.identity event
  room : start.progress.nextEventIndex + (commitmentsOf signed).length < 2 ^ 64

variable {eventPageSize leafPageSize maxEventPages : Nat} {scope : PoiCacheSyncScope}
  {start synced : PoiCache}
  (hcursors : start.progress.nextEventIndex = start.progress.nextLeafIndex)
  (hrange : start.progress.nextEventIndex < 2 ^ 64)

include hcursors hrange

/-- The events are extended by a run of signed ones, which is empty when they are
    not in the scope. -/
theorem syncEvents_stage {sync : PoiCacheSyncState}
    (hsizes : ¬ (scope.syncEvents ∧
      (eventPageSize = 0 ∨ leafPageSize = 0 ∨ maxEventPages = 0)))
    (hextend : (if scope.syncEvents then
        syncEventsAndLeaves client externals eventPageSize leafPageSize maxEventPages
      else
        pure {} : CacheM PoiCacheSyncState).exec start = (.ok sync, synced)) :
    ∃ signed, SignedAnswers client externals start signed ∧
      sync.journalEvents = journalEvents start.progress.nextEventIndex (commitmentsOf signed) ∧
      sync.journalLeaves = commitmentsOf signed ∧
      synced = start.withDelta (start.deltaOf (commitmentsOf signed)) := by
  by_cases hevents : scope.syncEvents
  · rw [if_pos hevents] at hextend
    obtain ⟨signed, fetched, before, hfetched, hlast⟩ := syncEventsAndLeaves_fetched
      (fun hzero => hsizes ⟨hevents, Or.inr (Or.inl hzero)⟩) hcursors hextend
    have htake : (commitmentsOf signed).take signed.length = commitmentsOf signed := by
      rw [← length_commitmentsOf, List.take_length]
    refine ⟨signed, ⟨hfetched.signedRun, hfetched.answered, ?_⟩, hlast.journal, ?_, ?_⟩
    · rcases hfetched.room with rfl | hroom
      · exact hrange
      · rw [length_commitmentsOf]
        exact hroom
    · rw [hlast.leaves, htake]
    · rw [hlast.cache_eq, htake, withDelta, deltaOf, hcursors]
  · rw [if_neg hevents] at hextend
    obtain ⟨rfl, rfl⟩ := exec_pure_eq_ok.mp hextend
    exact ⟨[], ⟨signedRun_nil, fun _ h => absurd h List.not_mem_nil, hrange⟩, rfl, rfl, rfl⟩

/-- A synchronization extends the cache by a run of signed events and then
    replaces the blocked shields. -/
theorem syncBoundedCandidate_stages {result : PoiCacheJournalSyncResult}
    (hsync : (syncBoundedCandidate client externals eventPageSize leafPageSize
      maxEventPages scope).exec start = (.ok result, synced)) :
    ∃ signed, SignedAnswers client externals start signed ∧
      result.delta = start.deltaOf (commitmentsOf signed) ∧
      BlockedStage externals (start.withDelta result.delta) result.blockedShields synced := by
  rw [syncBoundedCandidate, exec_bind_of_ok (exec_get start)] at hsync
  obtain ⟨hsizes, hsync⟩ := exec_ite_throw_eq_ok.mp hsync
  obtain ⟨-, hsync⟩ := exec_ite_throw_eq_ok.mp hsync
  obtain ⟨sync, extended, hextend, hsync⟩ := exec_bind_eq_ok.mp hsync
  obtain ⟨⟨blockedShields, applied, changed⟩, reached, hblocked, hsync⟩ :=
    exec_bind_eq_ok.mp hsync
  obtain ⟨rfl, rfl⟩ := exec_pure_eq_ok.mp hsync
  have hstage : BlockedStage externals extended (blockedShields.filter fun _ => changed)
      reached := by
    split at hblocked
    · obtain ⟨⟨fetched, count, differs⟩, after, hfetched, hpure⟩ := exec_bind_eq_ok.mp hblocked
      obtain ⟨heq, rfl⟩ := exec_pure_eq_ok.mp hpure
      obtain ⟨rfl, -, rfl⟩ := heq
      exact syncBlockedShields_stage hfetched
    · obtain ⟨heq, rfl⟩ := exec_pure_eq_ok.mp hblocked
      obtain ⟨rfl, -⟩ := heq
      exact .skipped
  obtain ⟨signed, hsigned, hevents, hleaves, rfl⟩ :=
    syncEvents_stage hcursors hrange hsizes hextend
  -- Replacing the blocked shields does not move the cursors.
  obtain ⟨hevent, hleaf⟩ := withDelta_cursors (journalFits_deltaOf hcursors hsigned.room)
  obtain ⟨hidentity, -, -, heventSame, hleafSame⟩ := hstage.frame
  have hdelta : ({
      version := poiCacheJournalDeltaVersion
      identity := reached.identity
      eventStartCursor := start.progress.nextEventIndex
      eventEndCursor := reached.progress.nextEventIndex
      leafStartCursor := start.progress.nextLeafIndex
      leafEndCursor := reached.progress.nextLeafIndex
      events := sync.journalEvents
      leaves := sync.journalLeaves } : PoiCacheJournalDelta)
      = start.deltaOf (commitmentsOf signed) := by
    rw [hidentity, heventSame, hleafSame, hevent, hleaf, hevents, hleaves, withDelta,
      withLeaves_identity, withEvents_identity]
    rfl
  refine ⟨signed, hsigned, hdelta, ?_⟩
  rw [hdelta]
  exact hstage

omit hcursors hrange

/-- What a synchronization has done is what its journal says. The cursors are
    equal again, every new index has an event that the node has answered with
    and the list has signed, and applying what is returned to the cache it
    started from gives the contents it has reached. A zero commitment is not
    stored, and one that is stored stays until a later one takes its place. -/
theorem sync_journal_faithful (client : PoiRpcClient) (externals : PoiCacheExternals)
    (eventPageSize leafPageSize maxEventPages : Nat) (scope : PoiCacheSyncScope)
    {start synced : PoiCache} {result : PoiCacheJournalSyncResult}
    (hcursors : start.progress.nextEventIndex = start.progress.nextLeafIndex)
    (hrange : start.progress.nextEventIndex < 2 ^ 64) (hstatuses : BlockedStatuses start)
    (hsync : (syncBoundedCandidate client externals eventPageSize leafPageSize
      maxEventPages scope).exec start = (.ok result, synced)) :
    (synced.progress.nextEventIndex = synced.progress.nextLeafIndex ∧
        synced.progress.nextEventIndex
          = start.progress.nextEventIndex + result.delta.events.length) ∧
      (∃ signed : List SignedPoiEvent, signed.length = result.delta.events.length ∧
        ∀ offset event, signed[offset]? = some event →
          Answered client start.identity event ∧
            event.index = start.progress.nextEventIndex + offset ∧
            externals.verifyPoiEvent event start.identity.listKey = .ok () ∧
            result.delta.events[offset]? = some ⟨event.index, event.blindedCommitment⟩ ∧
            result.delta.leaves[offset]? = some event.blindedCommitment ∧
            (event.blindedCommitment ≠ 0 →
              PlaceFree start.progress.nextEventIndex result.delta.leaves (offset + 1)
                event.index →
              synced.commitmentAtGlobalIndex event.index = some event.blindedCommitment) ∧
            (event.blindedCommitment = 0 →
              PlaceFree start.progress.nextEventIndex result.delta.leaves 0 event.index →
              synced.commitmentAtGlobalIndex event.index
                = start.commitmentAtGlobalIndex event.index)) ∧
      ∃ replayed,
        (applySyncResult externals.fromStrRadix result).exec start = (.ok (), replayed) ∧
          SameContents replayed synced := by
  obtain ⟨signed, hsigned, hdelta, hstage⟩ := syncBoundedCandidate_stages hcursors hrange hsync
  have hfits := journalFits_deltaOf hcursors hsigned.room
  have happlied := applyJournalDelta_deltaOf hcursors hsigned.room
  rw [← hdelta] at hfits happlied
  obtain ⟨-, hforest, -, hevent, hleaf⟩ := hstage.frame
  obtain ⟨heventEnd, hleafEnd⟩ := withDelta_cursors hfits
  have hevents : result.delta.events
      = journalEvents start.progress.nextEventIndex (commitmentsOf signed) := by
    rw [hdelta, deltaOf]
  have hleaves : result.delta.leaves = commitmentsOf signed := by rw [hdelta, deltaOf]
  refine ⟨⟨?_, ?_⟩, ⟨signed, ?_, ?_⟩, ?_⟩
  · rw [hevent, hleaf, heventEnd, hleafEnd, hdelta, deltaOf, hcursors]
  · rw [hevent, heventEnd, hfits.eventEnd, hfits.eventStart]
  · rw [hevents, length_journalEvents, length_commitmentsOf]
  · intro offset event hget
    obtain ⟨hindex, hverified⟩ := hsigned.run offset event hget
    have hcommitment : (commitmentsOf signed)[offset]? = some event.blindedCommitment := by
      rw [commitmentsOf, List.getElem?_map, hget, Option.map_some]
    -- Only the leaves of the delta reach the forest.
    have hstored : synced.commitmentAtGlobalIndex event.index
        = ((start.withEvents result.delta.events).withLeaves start.progress.nextEventIndex
          result.delta.leaves).commitmentAtGlobalIndex event.index := by
      rw [commitmentAtGlobalIndex, hforest, withDelta, hfits.leafStart, ← hcursors]
      rfl
    refine ⟨hsigned.answered event (List.mem_of_getElem? hget), hindex, hverified, ?_, ?_, ?_, ?_⟩
    · rw [hevents, getElem?_journalEvents, hcommitment, Option.map_some, hindex]
    · rw [hleaves, hcommitment]
    · intro hzero hfree
      rw [hstored]
      rw [hindex] at hfree ⊢
      exact commitmentAt_withLeaves_last (by rw [hleaves, hcommitment]) hzero hfree _
    · intro _ hfree
      rw [hstored, commitmentAt_withLeaves_free hfree, commitmentAtGlobalIndex,
        withEvents_forest]
      rfl
  · have hextended : BlockedStatuses (start.withDelta result.delta) := by
      have hkept := applyJournalDelta_keeps (blockedStatuses_stable fun left _ => left)
        result.delta start hstatuses
      rw [happlied] at hkept
      exact hkept
    obtain ⟨replayed, hreplayed, hsame⟩ := hstage.replay hextended
    refine ⟨replayed, ?_, hsame⟩
    rw [applySyncResult, exec_bind_of_ok happlied]
    exact hreplayed

end Journal

/-- The events a node answers with, made out of a journal. -/
def syncedEvents (events : List PoiCacheJournalEvent) : List PoiSyncedListEvent :=
  events.map fun event => ⟨⟨event.eventIndex, event.blindedCommitment, "", .shield⟩, ""⟩

/-- A node with a list of commitments and of blocked shields, which it answers
    with whole. -/
def wholeListClient (commitments : List Bytes32) (shields : List BlockedShield) :
    PoiRpcClient where
  poiEvents _ _ _ := .ok (syncedEvents (journalEvents 0 commitments))
  poiMerkletreeLeaves _ _ _ := .ok commitments
  blockedShields _ _ _ := .ok shields
  validatePoiMerkleroots _ _ := .ok true

/-- Every signature is accepted. -/
def trustingExternals : PoiCacheExternals where
  verifyPoiEvent _ _ := .ok ()
  verifyBlockedShield _ _ := .ok ()
  fromStrRadix _ _ := none

theorem commitmentsOf_syncedEvents (start : Nat) (commitments : List Bytes32) :
    commitmentsOf (signedOf (syncedEvents (journalEvents start commitments))) = commitments := by
  refine List.ext_getElem? fun offset => ?_
  rw [commitmentsOf, List.getElem?_map, signedOf, List.getElem?_map, syncedEvents,
    List.getElem?_map, getElem?_journalEvents]
  cases commitments[offset]? <;> rfl

theorem signedRun_syncedEvents (listKey : Bytes32) (start : Nat) (commitments : List Bytes32) :
    SignedRun trustingExternals listKey start
      (signedOf (syncedEvents (journalEvents start commitments))) := by
  intro offset event hevent
  rw [signedOf, List.getElem?_map, syncedEvents, List.getElem?_map, getElem?_journalEvents]
    at hevent
  cases hcommitment : commitments[offset]? with
  | none =>
    rw [hcommitment] at hevent
    cases hevent
  | some commitment =>
    rw [hcommitment] at hevent
    rw [← Option.some.inj hevent]
    exact ⟨rfl, rfl⟩

/-- One page takes over all events of a list. -/
theorem syncEventPages_wholeList {commitments : List Bytes32} (hpos : 0 < commitments.length)
    (hroom : commitments.length < 2 ^ 64) (identity : PoiCacheIdentity) :
    (syncEventPages (wholeListClient commitments []) trustingExternals
      (commitments.length + 1) 1 {}).exec (PoiCache.new identity)
      = (.ok { ({} : PoiCacheSyncState).withPage 0 commitments with
          outcome := { events := commitments.length } },
        (PoiCache.new identity).withEvents (journalEvents 0 commitments)) := by
  have hlength : (syncedEvents (journalEvents 0 commitments)).length = commitments.length := by
    rw [syncedEvents, List.length_map, length_journalEvents]
  have hsigned := signedRun_syncedEvents identity.listKey 0 commitments
  have hnotEmpty : (syncedEvents (journalEvents 0 commitments)).isEmpty ≠ true := by
    rw [Ne, List.isEmpty_iff_length_eq_zero]
    omega
  have hbound : syncedEvents (journalEvents 0 commitments) = [] ∨
      0 + (syncedEvents (journalEvents 0 commitments)).length < 2 ^ 64 := Or.inr (by omega)
  refine exec_ofExcept_bind_eq_ok.mpr ⟨_, checkedAdd_eq_ok.mpr ⟨?_, rfl⟩, ?_⟩
  · show 0 + (commitments.length + 1 - 1) < 2 ^ 64
    omega
  refine exec_ofExcept_bind_eq_ok.mpr ⟨syncedEvents (journalEvents 0 commitments), rfl, ?_⟩
  rw [if_neg (by omega), if_neg hnotEmpty]
  refine exec_ofExcept_bind_eq_ok.mpr
    ⟨_, checkEventPage_eq_ok.mpr ⟨hsigned, hbound, rfl⟩, ?_⟩
  rw [exec_bind_of_ok (applyPoiEvents_exec hsigned hbound _), if_pos (by omega),
    commitmentsOf_syncedEvents, hlength, exec_pure_eq_ok]
  refine ⟨?_, rfl⟩
  simp only [PoiCacheSyncState.withPage, Nat.zero_add]
  rfl

/-- One page takes over all leaves of a list. -/
theorem syncLeafPages_wholeList {commitments : List Bytes32} (hpos : 0 < commitments.length)
    (hroom : commitments.length < 2 ^ 64) {cache : PoiCache}
    (hevent : cache.progress.nextEventIndex = commitments.length)
    (hleaf : cache.progress.nextLeafIndex = 0) (sync : PoiCacheSyncState)
    (hcommitments : sync.eventCommitments = insertRun ∅ 0 commitments) :
    ∃ sync', (syncLeafPages (wholeListClient commitments []) commitments.length
        commitments.length sync).exec cache = (.ok sync', cache.withLeaves 0 commitments) ∧
      sync'.eventCommitments.minKey? = none ∧
      sync'.journalLeaves = sync.journalLeaves ++ commitments := by
  obtain ⟨pages, hpages⟩ : ∃ pages, commitments.length = pages + 1 :=
    ⟨commitments.length - 1, by omega⟩
  have hget : ∀ offset leaf, commitments[offset]? = some leaf →
      0 + offset < 2 ^ 64 ∧ sync.eventCommitments[0 + offset]? = some leaf := by
    intro offset leaf hleaf
    have hoffset := (List.getElem?_eq_some_iff.mp hleaf).1
    refine ⟨by omega, ?_⟩
    rw [hcommitments, getElem?_insertRun, if_pos (by omega), Nat.add_sub_cancel_left, hleaf]
  have hdropped : eraseRun sync.eventCommitments 0 commitments.length = ∅ := by
    rw [hcommitments, eraseRun_insertRun le_rfl, List.drop_length]
    rfl
  have hnext : (cache.withLeaves 0 commitments).progress.nextLeafIndex = commitments.length := by
    rw [withLeaves_nextLeafIndex _ _ _ hleaf, Nat.zero_add]
  refine ⟨{ sync with
    outcome := { sync.outcome with leaves := sync.outcome.leaves + storedCount commitments }
    eventCommitments := ∅
    journalLeaves := sync.journalLeaves ++ commitments }, ?_,
    Std.ExtTreeMap.minKey?_eq_none_iff.mpr rfl, rfl⟩
  nth_rewrite 2 [hpages]
  rw [syncLeafPages, exec_bind_of_ok (exec_get _), hevent, hleaf, if_pos hpos]
  dsimp only
  rw [Nat.sub_zero, Nat.min_self]
  refine exec_ofExcept_bind_eq_ok.mpr ⟨_, checkedAdd_eq_ok.mpr ⟨by omega, rfl⟩, ?_⟩
  refine exec_ofExcept_bind_eq_ok.mpr ⟨commitments, rfl, ?_⟩
  rw [if_neg (not_not_intro rfl)]
  refine exec_ofExcept_bind_eq_ok.mpr ⟨_, checkLeafPage_eq_ok.mpr hget, ?_⟩
  refine exec_ofExcept_bind_eq_ok.mpr ⟨_, dropLeafPage_eq_ok.mpr ⟨fun _ _ => by omega, rfl⟩, ?_⟩
  rw [exec_bind_of_ok (applyPoiLeaves_eq_ok.mpr ⟨Or.inr (by omega), rfl, rfl⟩), hdropped]
  -- All leaves are there, so the loop ends, whether or not pages are left.
  cases pages with
  | zero => rfl
  | succ pages =>
    rw [syncLeafPages, exec_bind_of_ok (exec_get _), hnext, withLeaves_nextEventIndex,
      hevent, if_neg (Nat.lt_irrefl _)]
    rfl

/-- A list within the range of indices is taken over whole. -/
theorem sync_wholeList {commitments : List Bytes32} (hpos : 0 < commitments.length)
    (hroom : commitments.length < 2 ^ 64) (identity : PoiCacheIdentity) :
    ∃ result, (syncBoundedCandidate (wholeListClient commitments []) trustingExternals
        (commitments.length + 1) commitments.length 1 .events).exec (PoiCache.new identity)
        = (.ok result, (PoiCache.new identity).withDelta
          ((PoiCache.new identity).deltaOf commitments)) ∧
      result.delta = (PoiCache.new identity).deltaOf commitments := by
  have hevent : ((PoiCache.new identity).withEvents
      (journalEvents 0 commitments)).progress.nextEventIndex = commitments.length := by
    have hnext := withEvents_nextEventIndex commitments (PoiCache.new identity)
    exact hnext.trans (Nat.zero_add _)
  have hleaf : ((PoiCache.new identity).withEvents
      (journalEvents 0 commitments)).progress.nextLeafIndex = 0 := withEvents_nextLeafIndex _ _
  obtain ⟨sync, hleaves, hmin, hjournal⟩ := syncLeafPages_wholeList hpos hroom hevent hleaf
    { ({} : PoiCacheSyncState).withPage 0 commitments with
      outcome := { events := commitments.length } } rfl
  have hboth : (syncEventsAndLeaves (wholeListClient commitments []) trustingExternals
      (commitments.length + 1) commitments.length 1).exec (PoiCache.new identity)
      = (.ok sync, (PoiCache.new identity).withDelta
        ((PoiCache.new identity).deltaOf commitments)) := by
    rw [syncEventsAndLeaves, exec_bind_of_ok (syncEventPages_wholeList hpos hroom identity),
      exec_bind_of_ok (exec_get _), hevent, hleaf, Nat.sub_zero, exec_bind_of_ok hleaves, hmin]
    rfl
  have hsizes : ¬ (PoiCacheSyncScope.syncEvents .events = true ∧
      (commitments.length + 1 = 0 ∨ commitments.length = 0 ∨ 1 = 0)) := by
    rintro ⟨-, h | h | h⟩ <;> omega
  obtain ⟨result, hsync, hleaves⟩ : ∃ result,
      (syncBoundedCandidate (wholeListClient commitments []) trustingExternals
        (commitments.length + 1) commitments.length 1 .events).exec (PoiCache.new identity)
        = (.ok result, (PoiCache.new identity).withDelta
          ((PoiCache.new identity).deltaOf commitments)) ∧
      result.delta.leaves = commitments := by
    rw [syncBoundedCandidate, exec_bind_of_ok (exec_get _), if_neg hsizes,
      if_neg (fun h => h.2 rfl), if_pos (show PoiCacheSyncScope.syncEvents .events = true from rfl),
      exec_bind_of_ok hboth]
    exact ⟨_, rfl, hjournal⟩
  -- The delta is that of its leaves, whatever the node has answered.
  obtain ⟨signed, -, hdelta, -⟩ :=
    syncBoundedCandidate_stages rfl (Nat.two_pow_pos 64) hsync
  have hlisted : commitmentsOf signed = commitments := by
    rw [← hleaves, hdelta, deltaOf]
  exact ⟨result, hsync, hlisted ▸ hdelta⟩

/-- Two events, taken over and replayed. -/
theorem sync_journal_faithful_twoEvents :
    ∃ result synced, (syncBoundedCandidate (wholeListClient [7, 9] []) trustingExternals
        3 2 1 .events).exec (PoiCache.new someIdentity) = (.ok result, synced) ∧
      synced.progress.nextEventIndex = 2 ∧ synced.commitmentAtGlobalIndex 1 = some 9 ∧
      ∃ replayed, (applySyncResult trustingExternals.fromStrRadix result).exec
        (PoiCache.new someIdentity) = (.ok (), replayed) ∧ SameContents replayed synced := by
  have hpos : 0 < ([7, 9] : List Bytes32).length := by decide
  obtain ⟨result, hsync, hdelta⟩ := sync_wholeList hpos (by decide) someIdentity
  obtain ⟨⟨-, hnext⟩, ⟨signed, hlength, hall⟩, hreplayed⟩ :=
    sync_journal_faithful _ _ _ _ _ _ rfl (Nat.two_pow_pos 64) (blockedStatuses_new someIdentity)
      hsync
  have hevents : result.delta.events.length = 2 := by rw [hdelta]; rfl
  have hleaves : result.delta.leaves = [7, 9] := by rw [hdelta]; rfl
  rw [hevents] at hnext hlength
  obtain ⟨event, hevent⟩ : ∃ event, signed[1]? = some event :=
    ⟨signed[1], List.getElem?_eq_getElem (by omega)⟩
  obtain ⟨-, hindex, -, -, hleaf, hstored, -⟩ := hall 1 event hevent
  have hcommitment : event.blindedCommitment = 9 := by
    rw [hleaves] at hleaf
    exact (Option.some.inj hleaf).symm
  refine ⟨result, _, hsync, hnext, ?_, hreplayed⟩
  rw [hindex, hcommitment] at hstored
  refine hstored (by decide) fun offset leaf hfirst hget => ?_
  rw [hleaves, List.getElem?_eq_none_iff.mpr hfirst] at hget
  cases hget

/-- So many events that the last has the place of the first. -/
def overlongList : List Bytes32 := List.replicate (2 ^ 48) 1 ++ [2]

/-- A blocked shield without a commitment. -/
def zeroShield : BlockedShield where
  commitmentHash := ""
  blindedCommitment := ""
  blockReason := none
  signature := ""

/-- A cache that blocks a commitment but has no status for it. -/
def statuslessCache : PoiCache :=
  { (PoiCache.new someIdentity).blockShield 0 zeroShield with
    progress := { blockedShieldsSynced := true }
    statusByBlindedCommitment := ∅ }

/-- The cache once it has blocked the commitment again. -/
def blockedAgainCache : PoiCache :=
  { statuslessCache.withoutBlocked.blockShield 0 zeroShield with
    progress := { blockedShieldsSynced := true } }

/-- Three ways the journal and the cache can differ. A zero commitment is in the
    journal and not in the forest. The last of very many events is stored over
    the first. A blocked commitment without a status gets one by being blocked
    again, which the journal does not know of. -/
theorem sync_journal_differs :
    (∃ result synced, (syncBoundedCandidate (wholeListClient [0] []) trustingExternals
        2 1 1 .events).exec (PoiCache.new someIdentity) = (.ok result, synced) ∧
      result.delta.events = [⟨0, 0⟩] ∧ synced.commitmentAtGlobalIndex 0 = none) ∧
    (∃ result synced, (syncBoundedCandidate (wholeListClient overlongList [])
        trustingExternals (2 ^ 48 + 2) (2 ^ 48 + 1) 1 .events).exec (PoiCache.new someIdentity)
        = (.ok result, synced) ∧
      result.delta.events[0]? = some ⟨0, 1⟩ ∧ synced.commitmentAtGlobalIndex 0 = some 2) ∧
    ∃ result synced replayed,
      (syncBoundedCandidate (wholeListClient [] [zeroShield]) trustingExternals 1 1 1
        .blockedShields).exec statuslessCache = (.ok result, synced) ∧
      (applySyncResult trustingExternals.fromStrRadix result).exec statuslessCache
        = (.ok (), replayed) ∧
      synced.status 0 = .shieldBlocked ∧ replayed.status 0 = .missing := by
  refine ⟨?_, ?_, ?_⟩
  · have hpos : 0 < ([0] : List Bytes32).length := by decide
    obtain ⟨result, hsync, hdelta⟩ := sync_wholeList hpos (by decide) someIdentity
    exact ⟨result, _, hsync, by rw [hdelta]; rfl, rfl⟩
  · have hlength : overlongList.length = 2 ^ 48 + 1 := by
      rw [overlongList, List.length_append, List.length_replicate, List.length_singleton]
    obtain ⟨result, hsync, hdelta⟩ := sync_wholeList (show 0 < overlongList.length by omega)
      (by omega) someIdentity
    rw [hlength] at hsync
    refine ⟨result, _, hsync, ?_, ?_⟩
    · rw [hdelta, deltaOf, getElem?_journalEvents, overlongList,
        List.getElem?_append_left (by rw [List.length_replicate]; decide),
        List.getElem?_replicate_of_lt (by decide)]
      rfl
    · rw [withDelta, deltaOf, overlongList, withLeaves_append,
        List.length_replicate, withLeaves, withLeaves,
        commitmentAt_withLeaf_place, if_pos ⟨by decide, by decide⟩]
  · have hsync : ∃ result, (syncBoundedCandidate (wholeListClient [] [zeroShield])
        trustingExternals 1 1 1 .blockedShields).exec statuslessCache
        = (.ok result, blockedAgainCache) ∧ result.blockedShields = none ∧
          result.delta = statuslessCache.deltaOf [] := by
      exact ⟨_, rfl, rfl, rfl⟩
    obtain ⟨result, hsync, hshields, hdelta⟩ := hsync
    have hreplayed : (applyJournalDelta (statuslessCache.deltaOf [])).exec statuslessCache
        = (.ok (), statuslessCache.withDelta (statuslessCache.deltaOf [])) :=
      applyJournalDelta_deltaOf rfl (by decide)
    refine ⟨result, blockedAgainCache, statuslessCache, hsync, ?_, by decide +kernel,
      by decide +kernel⟩
    rw [applySyncResult, hdelta, exec_bind_of_ok hreplayed, hshields]
    rfl

end Railgun
