import Railgun.Theory.PoiSteps

/-!
# Journal Deltas

A delta is checked before anything is changed, and the changes after that can
fail in several places: an index may not fit its word, the forest may refuse a
position, and the cursors are compared once more at the end. None of this
happens to a delta that has passed the checks, so a delta is applied whole or
not at all.

What passes is described without the checks. The events are those of the leaves,
one after another from the cursors on, and end within the range of indices.
Applying such a delta is a pure function of the cache.

## Main definitions

* `PoiCache.withEvents`, `PoiCache.withLeaves`, `PoiCache.withDelta`: The cache
  after events, leaves and a delta.
* `journalEvents`: The events of commitments that follow each other.

## Theorems

* `applyEvents_eq_ok`, `applyPoiLeaves_eq_ok`: When loops go through, and what they
  have done.
* `journalEvents_eq_ok`, `takeLeaves_eq_ok`, `checkJournalDelta_eq_ok`: What passes
  the checks.
* `commitmentAt_withLeaves`: The leaves stored.
* `applyJournalDelta_atomic`: A delta is applied whole or not at all.
-/

namespace Railgun

open PoiCache

/-- The cache after an event. -/
def PoiCache.withEvent (cache : PoiCache) (event : PoiCacheJournalEvent) : PoiCache :=
  (cache.setStatus event.blindedCommitment .valid).raiseNextEventIndex (event.eventIndex + 1)

/-- The cache after events, one after another. -/
def PoiCache.withEvents (cache : PoiCache) (events : List PoiCacheJournalEvent) : PoiCache :=
  events.foldl withEvent cache

/-- The cache after the leaf of an index. A zero leaf is not stored. -/
def PoiCache.withLeaf (cache : PoiCache) (globalIndex : Nat) (leaf : U256) : PoiCache :=
  (if leaf ≠ 0 then cache.withCommitment globalIndex leaf else cache).raiseNextLeafIndex
    (globalIndex + 1)

/-- The cache after leaves that follow each other from an index on. -/
def PoiCache.withLeaves (cache : PoiCache) (start : Nat) : List U256 → PoiCache
  | [] => cache
  | leaf :: leaves => (cache.withLeaf start leaf).withLeaves (start + 1) leaves

/-- The number of leaves that are stored. -/
def storedCount (leaves : List U256) : Nat := leaves.countP fun leaf => leaf ≠ 0

/-- The events of some commitments from an index on. -/
def journalEvents (start : Nat) : List Bytes32 → List PoiCacheJournalEvent
  | [] => []
  | commitment :: commitments =>
    { eventIndex := start, blindedCommitment := commitment } ::
      journalEvents (start + 1) commitments

/-- A sum is returned when it fits a word. -/
theorem checkedAdd_eq_ok {a b c : Nat} : checkedAdd a b = .ok c ↔ a + b < 2 ^ 64 ∧ c = a + b := by
  rw [checkedAdd]
  split_ifs with h
  · rw [Except.ok.injEq, eq_comm, and_iff_right h]
  · exact ⟨nofun, fun heq => absurd heq.1 h⟩

theorem nextIndex_eq_ok {index next : Nat} :
    nextIndex index = .ok next ↔ index + 1 < 2 ^ 64 ∧ next = index + 1 := checkedAdd_eq_ok

variable {cache cache' : PoiCache}

/-- An event is applied when its index has a successor. -/
theorem applyEventCommitment_eq_ok {eventIndex : Nat} {commitment : Bytes32} {done : Unit} :
    (applyEventCommitment eventIndex commitment).exec cache = (.ok done, cache') ↔
      eventIndex + 1 < 2 ^ 64 ∧ cache' = cache.withEvent ⟨eventIndex, commitment⟩ := by
  rw [applyEventCommitment, exec_bind_of_ok (exec_modify _ _), exec_ofExcept_bind_eq_ok]
  simp only [nextIndex_eq_ok, and_assoc, exists_and_left, exists_eq_left, exec_modify,
    Prod.mk.injEq, true_and, eq_comm (a := cache')]
  rfl

/-- Events are applied when their indices have successors. -/
theorem applyEvents_eq_ok {α : Type} (event : α → PoiCacheJournalEvent) {events : List α} :
    (events.foldlM (fun _ e => applyEventCommitment (event e).eventIndex
      (event e).blindedCommitment) ()).exec cache = (.ok (), cache') ↔
      (∀ e ∈ events, (event e).eventIndex + 1 < 2 ^ 64) ∧
        cache' = cache.withEvents (events.map event) := by
  induction events generalizing cache with
  | nil =>
    rw [List.foldlM_nil, exec_pure_eq_ok, eq_comm (a := cache)]
    exact ⟨fun h => ⟨nofun, h.2⟩, fun h => ⟨rfl, h.2⟩⟩
  | cons e events ih =>
    simp [exec_bind_eq_ok, applyEventCommitment_eq_ok, ih, and_assoc, withEvents]

/-- What the loop over leaves does with one of them. -/
def PoiCache.applyPoiLeaf (start inserted : Nat) (entry : U256 × Nat) : CacheM Nat := do
  let globalIndex ← ofExcept (checkedAdd start entry.2)
  let inserted ← (if entry.1 ≠ 0 then do
      storeCommitment globalIndex entry.1
      pure (inserted + 1)
    else
      pure inserted)
  let next ← ofExcept (nextIndex globalIndex)
  modify fun cache => cache.raiseNextLeafIndex next
  return inserted

/-- A leaf is applied when its index has a successor, and counted unless it is zero. -/
theorem applyPoiLeaf_eq_ok {start inserted inserted' offset : Nat} {leaf : U256} :
    (applyPoiLeaf start inserted (leaf, offset)).exec cache = (.ok inserted', cache') ↔
      start + offset + 1 < 2 ^ 64 ∧ inserted' = inserted + storedCount [leaf] ∧
        cache' = cache.withLeaf (start + offset) leaf := by
  have hstored : (if leaf ≠ 0 then do
        storeCommitment (start + offset) leaf
        pure (inserted + 1)
      else
        pure inserted : CacheM Nat).exec cache = (.ok (inserted + storedCount [leaf]),
          if leaf ≠ 0 then cache.withCommitment (start + offset) leaf else cache) := by
    rw [storedCount, List.countP_singleton]
    by_cases hzero : leaf = 0
    · rw [if_neg (not_not_intro hzero), if_neg (not_not_intro hzero), if_neg (by simp [hzero])]
      rfl
    · rw [if_pos hzero, if_pos hzero, if_pos (decide_eq_true hzero),
        exec_bind_of_ok (storeCommitment_exec _ _ _)]
      rfl
  simp only [applyPoiLeaf, exec_ofExcept_bind_eq_ok, checkedAdd_eq_ok, and_assoc, exists_and_left,
    exists_eq_left, exec_bind_of_ok hstored, nextIndex_eq_ok, exec_bind_of_ok (exec_modify _ _),
    exec_pure_eq_ok, eq_comm (a := inserted'), eq_comm (a := cache'), withLeaf]
  exact ⟨fun h => h.2, fun h => ⟨by omega, h⟩⟩

theorem foldlM_applyPoiLeaf_eq_ok {start inserted inserted' offset : Nat} {leaves : List U256} :
    ((leaves.zipIdx offset).foldlM (applyPoiLeaf start) inserted).exec cache
      = (.ok inserted', cache') ↔
      (leaves = [] ∨ start + offset + leaves.length < 2 ^ 64) ∧
        inserted' = inserted + storedCount leaves ∧
        cache' = cache.withLeaves (start + offset) leaves := by
  induction leaves generalizing offset inserted cache with
  | nil =>
    rw [List.zipIdx_nil, List.foldlM_nil, exec_pure_eq_ok, eq_comm (a := inserted),
      eq_comm (a := cache)]
    exact (and_iff_right (Or.inl rfl)).symm
  | cons leaf leaves ih =>
    have hcount : storedCount (leaf :: leaves) = storedCount [leaf] + storedCount leaves := by
      rw [storedCount, ← List.singleton_append, List.countP_append]
      rfl
    simp only [List.zipIdx_cons, List.foldlM_cons, exec_bind_eq_ok, applyPoiLeaf_eq_ok, ih,
      and_assoc, exists_and_left, exists_eq_left, withLeaves, hcount, Nat.add_assoc,
      List.length_cons]
    constructor
    · rintro ⟨hfirst, hlater, hafter⟩
      exact ⟨Or.inr (by grind), hafter⟩
    · rintro ⟨hroom, hafter⟩
      exact ⟨by grind, Or.inr (by grind), hafter⟩

/-- Leaves are applied when their indices have successors. -/
theorem applyPoiLeaves_eq_ok {start count : Nat} {leaves : List U256} :
    (applyPoiLeaves start leaves).exec cache = (.ok count, cache') ↔
      (leaves = [] ∨ start + leaves.length < 2 ^ 64) ∧ count = storedCount leaves ∧
        cache' = cache.withLeaves start leaves := by
  rw [← Nat.zero_add (storedCount leaves)]
  exact foldlM_applyPoiLeaf_eq_ok

theorem length_journalEvents (start : Nat) (commitments : List Bytes32) :
    (journalEvents start commitments).length = commitments.length := by
  induction commitments generalizing start with
  | nil => rfl
  | cons commitment commitments ih =>
    rw [journalEvents, List.length_cons, List.length_cons, ih]

theorem getElem?_journalEvents (start : Nat) (commitments : List Bytes32) (offset : Nat) :
    (journalEvents start commitments)[offset]?
      = (commitments[offset]?).map fun commitment => ⟨start + offset, commitment⟩ := by
  induction commitments generalizing start offset with
  | nil => rfl
  | cons commitment commitments ih =>
    cases offset with
    | zero => rfl
    | succ offset =>
      rw [journalEvents, List.getElem?_cons_succ, List.getElem?_cons_succ, ih,
        show start + 1 + offset = start + (offset + 1) by omega]

theorem map_journalEvents (start : Nat) (commitments : List Bytes32) :
    (journalEvents start commitments).map (·.blindedCommitment) = commitments := by
  induction commitments generalizing start with
  | nil => rfl
  | cons commitment commitments ih => rw [journalEvents, List.map_cons, ih]

/-- Only the events of no commitments do not tell where they start. -/
theorem journalEvents_congr {start start' : Nat} {commitments : List Bytes32}
    (h : commitments = [] ∨ start = start') :
    journalEvents start commitments = journalEvents start' commitments := by
  rcases h with rfl | rfl <;> rfl

/-- Events follow each other exactly when they are the events of their commitments
    from the start on. -/
theorem journalEvents_eq_ok {events : List PoiCacheJournalEvent} {expected : Nat}
    {map : BTreeMap Nat Bytes32} {after : BTreeMap Nat Bytes32 × Nat} :
    events.foldlM (fun (state : BTreeMap Nat Bytes32 × Nat) event =>
      if event.eventIndex ≠ state.2 then
        .error (.nonContiguousEvent state.2 event.eventIndex)
      else do
        let next ← nextIndex state.2
        return (state.1.insert event.eventIndex event.blindedCommitment, next)) (map, expected)
      = (.ok after : Except PoiCacheError _) ↔
      events = journalEvents expected (events.map (·.blindedCommitment)) ∧
        (events = [] ∨ expected + events.length < 2 ^ 64) ∧
        after = (insertRun map expected (events.map (·.blindedCommitment)),
          expected + events.length) := by
  induction events generalizing expected map with
  | nil => simp [pure_eq_ok, journalEvents, insertRun]
  | cons event events ih =>
    simp only [List.foldlM_cons, bind_eq_ok, ite_error_eq_ok, nextIndex_eq_ok,
      pure_eq_ok, and_assoc, exists_and_left, exists_eq_left, not_not, ih, List.map_cons,
      journalEvents, insertRun, List.cons.injEq, List.length_cons]
    have hroom : events = [] → events.length = 0 := fun h => by rw [h, List.length_nil]
    have hevent : event = ⟨expected, event.blindedCommitment⟩ ↔ event.eventIndex = expected :=
      ⟨fun h => congrArg (·.eventIndex) h, fun h => by rw [← h]⟩
    rw [hevent, Nat.add_right_comm]
    constructor
    · rintro ⟨rfl, hfirst, hevents, hlater, hafter⟩
      have hlast := hlater.imp_left hroom
      exact ⟨rfl, hevents, Or.inr (by omega), hafter⟩
    · rintro ⟨rfl, hevents, hlater, hafter⟩
      have hlast := hlater.resolve_left (List.cons_ne_nil _ _)
      exact ⟨rfl, by omega, hevents, Or.inr (by omega), hafter⟩

/-- The commitments left are none if they were those of the leaves. -/
theorem takeLeaf_eq_ok {start k : Nat} {leaf : Bytes32} {commitments left : BTreeMap Nat Bytes32} :
    takeLeaf start commitments (leaf, k) = .ok left ↔ start + k < 2 ^ 64 ∧
      commitments[start + k]? = some leaf ∧ left = commitments.erase (start + k) := by
  simp only [takeLeaf, bind_eq_ok, checkedAdd_eq_ok, and_assoc, exists_and_left, exists_eq_left]
  refine and_congr_right fun _ => ?_
  cases commitments[start + k]? with
  | none => simp only [reduceCtorEq, false_and]
  | some expected =>
    rw [ite_error_eq_ok, pure_eq_ok, not_not, Option.some.injEq, @eq_comm _ leaf]

/-- All leaves are taken and nothing is left iff the commitments are a run of them. -/
theorem takeLeaves_eq_ok {start k : Nat} {leaves : List Bytes32}
    {commitments : BTreeMap Nat Bytes32} :
    (leaves.zipIdx k).foldlM (takeLeaf start) commitments = .ok ∅ ↔
      commitments = insertRun ∅ (start + k) leaves ∧
        (leaves = [] ∨ start + k + leaves.length ≤ 2 ^ 64) := by
  induction leaves generalizing k commitments with
  | nil =>
    simp only [List.zipIdx_nil, List.foldlM_nil, pure_eq_ok, insertRun, true_or, and_true]
    exact eq_comm
  | cons leaf leaves ih =>
    simp only [List.zipIdx_cons, List.foldlM_cons, bind_eq_ok, takeLeaf_eq_ok, and_assoc,
      exists_and_left, exists_eq_left, ih, eq_insertRun_cons, List.length_cons]
    grind

/-- The leaves are the commitments of the events, at the same indices. -/
theorem checkJournalLeaves_eq_ok {delta : PoiCacheJournalDelta} {listed : List Bytes32} :
    checkJournalLeaves delta (insertRun ∅ delta.eventStartCursor listed) = .ok () ↔
      listed = delta.leaves ∧ (listed = [] ∨ delta.eventStartCursor = delta.leafStartCursor) ∧
        (delta.leaves = [] ∨ delta.leafStartCursor + delta.leaves.length ≤ 2 ^ 64) := by
  have htaken : checkJournalLeaves delta (insertRun ∅ delta.eventStartCursor listed) = .ok () ↔
      delta.leaves.zipIdx.foldlM (takeLeaf delta.leafStartCursor)
        (insertRun ∅ delta.eventStartCursor listed) = .ok ∅ := by
    rw [checkJournalLeaves, bind_eq_ok]
    refine ⟨fun ⟨left, htaken, hleft⟩ => ?_, fun h => ⟨∅, h, ?_⟩⟩
    · cases hmin : left.minKey? with
      | some index =>
        rw [hmin] at hleft
        cases hleft
      | none => rwa [Std.ExtTreeMap.minKey?_eq_none_iff.mp hmin] at htaken
    · rw [Std.ExtTreeMap.minKey?_empty]
  rw [htaken, takeLeaves_eq_ok, insertRun_inj, and_assoc, Nat.add_zero]

/-- A delta fits a cache: it is of its list, starts at its cursors, ends within
    the range of indices, and its events are those of its leaves. -/
structure JournalFits (cache : PoiCache) (delta : PoiCacheJournalDelta) : Prop where
  version : delta.version = poiCacheJournalDeltaVersion
  identity : delta.identity = cache.identity
  eventStart : delta.eventStartCursor = cache.progress.nextEventIndex
  leafStart : delta.leafStartCursor = cache.progress.nextLeafIndex
  eventEnd : delta.eventEndCursor = delta.eventStartCursor + delta.events.length
  leafEnd : delta.leafEndCursor = delta.leafStartCursor + delta.leaves.length
  eventEnd_lt : delta.eventEndCursor < 2 ^ 64
  leafEnd_lt : delta.leafEndCursor < 2 ^ 64
  events : delta.events = journalEvents delta.leafStartCursor delta.leaves
  sameStart : delta.leaves = [] ∨ delta.eventStartCursor = delta.leafStartCursor

/-- The checks accept exactly the deltas that fit. -/
theorem checkJournalDelta_eq_ok {cache : PoiCache} {delta : PoiCacheJournalDelta} :
    cache.checkJournalDelta delta = .ok () ↔ JournalFits cache delta := by
  simp only [checkJournalDelta, journalEventCommitments, ite_error_eq_ok, not_not, not_or,
    bind_eq_ok, pure_eq_ok, checkedAdd_eq_ok, journalEvents_eq_ok, checkJournalLeaves_eq_ok,
    and_assoc, exists_and_left, exists_eq_left]
  constructor
  · rintro ⟨hversion, hidentity, heventStart, hleafStart, hevent_lt, hleaf_lt, heventEnd, hleafEnd,
      hevents, -, hlisted, hstart, -⟩
    rw [hlisted] at hevents hstart
    exact ⟨hversion, hidentity, heventStart, hleafStart, heventEnd.symm, hleafEnd.symm,
      heventEnd ▸ hevent_lt, hleafEnd ▸ hleaf_lt, hevents.trans (journalEvents_congr hstart),
      hstart⟩
  · intro h
    have hlisted : delta.events.map (·.blindedCommitment) = delta.leaves := by
      rw [h.events, map_journalEvents]
    have hevent_lt := h.eventEnd ▸ h.eventEnd_lt
    have hleaf_lt := h.leafEnd ▸ h.leafEnd_lt
    rw [hlisted]
    exact ⟨h.version, h.identity, h.eventStart, h.leafStart, hevent_lt, hleaf_lt, h.eventEnd.symm,
      h.leafEnd.symm, h.events.trans (journalEvents_congr h.sameStart).symm, Or.inr hevent_lt, rfl,
      h.sameStart, Or.inr hleaf_lt.le⟩

@[simp]
theorem withEvent_nextEventIndex (cache : PoiCache) (event : PoiCacheJournalEvent) :
    (cache.withEvent event).progress.nextEventIndex
      = max cache.progress.nextEventIndex (event.eventIndex + 1) := rfl

@[simp]
theorem withEvent_nextLeafIndex (cache : PoiCache) (event : PoiCacheJournalEvent) :
    (cache.withEvent event).progress.nextLeafIndex = cache.progress.nextLeafIndex := rfl

@[simp]
theorem withEvent_forest (cache : PoiCache) (event : PoiCacheJournalEvent) :
    (cache.withEvent event).forest = cache.forest := rfl

/-- Events that continue at the cursor move it by their number. -/
theorem withEvents_nextEventIndex (commitments : List Bytes32) (cache : PoiCache) :
    (cache.withEvents (journalEvents cache.progress.nextEventIndex
      commitments)).progress.nextEventIndex
      = cache.progress.nextEventIndex + commitments.length := by
  induction commitments generalizing cache with
  | nil => rfl
  | cons commitment commitments ih =>
    have hstep := ih (cache.withEvent ⟨cache.progress.nextEventIndex, commitment⟩)
    rw [withEvent_nextEventIndex, Nat.max_eq_right (Nat.le_succ _)] at hstep
    rw [journalEvents, withEvents, List.foldl_cons, ← withEvents, hstep, List.length_cons]
    omega

theorem withEvents_nextLeafIndex (events : List PoiCacheJournalEvent) (cache : PoiCache) :
    (cache.withEvents events).progress.nextLeafIndex = cache.progress.nextLeafIndex := by
  induction events generalizing cache with
  | nil => rfl
  | cons event events ih =>
    rw [withEvents, List.foldl_cons, ← withEvents, ih, withEvent_nextLeafIndex]

theorem withEvents_forest (events : List PoiCacheJournalEvent) (cache : PoiCache) :
    (cache.withEvents events).forest = cache.forest := by
  induction events generalizing cache with
  | nil => rfl
  | cons event events ih =>
    rw [withEvents, List.foldl_cons, ← withEvents, ih, withEvent_forest]

@[simp]
theorem withLeaf_nextLeafIndex (cache : PoiCache) (globalIndex : Nat) (leaf : U256) :
    (cache.withLeaf globalIndex leaf).progress.nextLeafIndex
      = max cache.progress.nextLeafIndex (globalIndex + 1) := by
  rw [withLeaf]
  split <;> rfl

@[simp]
theorem withLeaf_nextEventIndex (cache : PoiCache) (globalIndex : Nat) (leaf : U256) :
    (cache.withLeaf globalIndex leaf).progress.nextEventIndex = cache.progress.nextEventIndex := by
  rw [withLeaf]
  split <;> rfl

/-- Leaves that continue at the cursor move it by their number. -/
theorem withLeaves_nextLeafIndex (leaves : List U256) (cache : PoiCache) (start : Nat)
    (h : cache.progress.nextLeafIndex = start) :
    (cache.withLeaves start leaves).progress.nextLeafIndex = start + leaves.length := by
  induction leaves generalizing cache start with
  | nil => exact h
  | cons leaf leaves ih =>
    rw [withLeaves, ih _ (start + 1) (by rw [withLeaf_nextLeafIndex, h, Nat.max_eq_right
      (Nat.le_succ _)]), List.length_cons]
    omega

theorem withLeaves_nextEventIndex (leaves : List U256) (cache : PoiCache) (start : Nat) :
    (cache.withLeaves start leaves).progress.nextEventIndex = cache.progress.nextEventIndex := by
  induction leaves generalizing cache start with
  | nil => rfl
  | cons leaf leaves ih => rw [withLeaves, ih, withLeaf_nextEventIndex]

/-- The cache after the events and the leaves of a delta. -/
def PoiCache.withDelta (cache : PoiCache) (delta : PoiCacheJournalDelta) : PoiCache :=
  (cache.withEvents delta.events).withLeaves delta.leafStartCursor delta.leaves

/-- A delta that fits takes the cursors to its end. -/
theorem withDelta_cursors {cache : PoiCache} {delta : PoiCacheJournalDelta}
    (h : JournalFits cache delta) :
    (cache.withDelta delta).progress.nextEventIndex = delta.eventEndCursor ∧
      (cache.withDelta delta).progress.nextLeafIndex = delta.leafEndCursor := by
  have hevents : delta.events = journalEvents cache.progress.nextEventIndex delta.leaves := by
    rw [h.events, ← h.eventStart, journalEvents_congr h.sameStart]
  rw [withDelta, withLeaves_nextEventIndex, h.eventEnd, h.leafEnd]
  constructor
  · rw [hevents, withEvents_nextEventIndex, length_journalEvents, h.eventStart]
  · refine withLeaves_nextLeafIndex _ _ _ ?_
    rw [withEvents_nextLeafIndex, h.leafStart]

/-- A delta is applied when it fits and refused without a trace when it does
    not. The checks made first rule out every later failure. -/
theorem applyJournalDelta_exec (cache : PoiCache) (delta : PoiCacheJournalDelta) :
    (applyJournalDelta delta).exec cache = match cache.checkJournalDelta delta with
      | .ok () => (.ok (), cache.withDelta delta)
      | .error error => (.error error, cache) := by
  rw [applyJournalDelta, exec_bind_of_ok (exec_get cache), exec_bind, exec_ofExcept]
  cases hcheck : cache.checkJournalDelta delta with
  | error error => rfl
  | ok _ =>
    have h := checkJournalDelta_eq_ok.mp hcheck
    have hcursors := withDelta_cursors h
    have hlength : delta.events.length = delta.leaves.length := by
      rw [h.events, length_journalEvents]
    have hleaf := h.leafEnd_lt
    rw [h.leafEnd] at hleaf
    have hroom : ∀ event ∈ delta.events, event.eventIndex + 1 < 2 ^ 64 := by
      intro event hmem
      obtain ⟨offset, hget⟩ := List.mem_iff_getElem?.mp hmem
      have hoffset := (List.getElem?_eq_some_iff.mp hget).1
      rw [h.events, getElem?_journalEvents, Option.map_eq_some_iff] at hget
      obtain ⟨commitment, -, rfl⟩ := hget
      dsimp only
      omega
    have hevents : (delta.events.foldlM (fun _ event => applyEventCommitment
        event.eventIndex event.blindedCommitment) ()).exec cache
        = (.ok (), cache.withEvents delta.events) :=
      (applyEvents_eq_ok id).mpr ⟨hroom, by rw [List.map_id]⟩
    dsimp only
    rw [exec_bind_of_ok hevents,
      exec_bind_of_ok (applyPoiLeaves_eq_ok.mpr ⟨Or.inr hleaf, rfl, rfl⟩),
      exec_bind_of_ok (exec_get _)]
    -- The cursors reached are the delta's, so the last check passes.
    rw [← withDelta, if_neg]
    · rfl
    · rw [not_or, not_not, not_not]
      exact hcursors

/-- Indices within the first trees have their own places. -/
theorem normalizeTreePosition_inj {i j : Nat} (hi : i < 2 ^ 48) (hj : j < 2 ^ 48)
    (h : normalizeTreePosition 0 i = normalizeTreePosition 0 j) : i = j := by
  simp only [normalizeTreePosition, treeLeafCount, treeDepth, Prod.mk.injEq] at h
  omega

/-- A leaf is found at every index that has its place. -/
theorem commitmentAt_withLeaf_place (cache : PoiCache) (index i : Nat) (leaf : U256) :
    (cache.withLeaf index leaf).commitmentAtGlobalIndex i
      = if normalizeTreePosition 0 index = normalizeTreePosition 0 i ∧ leaf ≠ 0 then some leaf
        else cache.commitmentAtGlobalIndex i := by
  rw [withLeaf]
  by_cases hzero : leaf = 0
  · rw [if_neg (not_not_intro hzero), if_neg (fun h => h.2 hzero)]
    rfl
  · have hstored : (cache.withCommitment index leaf).commitmentAtGlobalIndex i
        = if normalizeTreePosition 0 index = normalizeTreePosition 0 i then some leaf
          else cache.commitmentAtGlobalIndex i := by
      have hleaf := leafAt_withLeaf cache.forest (normalizeTreePosition 0 index).1
        (normalizeTreePosition 0 index).2 leaf (normalizeTreePosition 0 i).1
        (normalizeTreePosition 0 i).2
      simp only [← Prod.ext_iff] at hleaf
      exact hleaf
    simp only [hzero, ne_eq, not_false_eq_true, and_true]
    exact hstored

/-- Within the first trees a leaf is found at its own index alone. -/
theorem commitmentAt_withLeaf (cache : PoiCache) {index i : Nat} (hindex : index < 2 ^ 48)
    (hi : i < 2 ^ 48) (leaf : U256) :
    (cache.withLeaf index leaf).commitmentAtGlobalIndex i
      = if index = i ∧ leaf ≠ 0 then some leaf else cache.commitmentAtGlobalIndex i := by
  have hplace : normalizeTreePosition 0 index = normalizeTreePosition 0 i ↔ index = i :=
    ⟨normalizeTreePosition_inj hindex hi, congrArg _⟩
  simp only [commitmentAt_withLeaf_place, hplace]

/-- What is found after leaves is the leaf of the index, unless it is zero. -/
theorem commitmentAt_withLeaves (leaves : List U256) (cache : PoiCache) (start : Nat)
    (h : start + leaves.length ≤ 2 ^ 48) (i : Nat) (hi : i < 2 ^ 48) :
    (cache.withLeaves start leaves).commitmentAtGlobalIndex i
      = match (if start ≤ i then leaves[i - start]? else none) with
        | some leaf => if leaf ≠ 0 then some leaf else cache.commitmentAtGlobalIndex i
        | none => cache.commitmentAtGlobalIndex i := by
  induction leaves generalizing cache start with
  | nil =>
    rw [List.getElem?_nil, ite_self]
    rfl
  | cons leaf leaves ih =>
    rw [List.length_cons] at h
    rw [withLeaves, ih _ _ (by omega), commitmentAt_withLeaf cache (by omega) hi]
    grind

/-- A delta is applied whole or not at all. When it is applied, the cursors are
    at its end, its events and leaves agree at every index and, as long as the
    trees tell the indices apart and the indices were free, each leaf is stored
    unless it is zero. -/
theorem applyJournalDelta_atomic (cache : PoiCache) (delta : PoiCacheJournalDelta) :
    (∀ error cache', (applyJournalDelta delta).exec cache = (.error error, cache') →
        cache' = cache) ∧
      ∀ cache', (applyJournalDelta delta).exec cache = (.ok (), cache') →
        cache'.progress.nextEventIndex = delta.eventEndCursor ∧
          cache'.progress.nextLeafIndex = delta.leafEndCursor ∧
          delta.events.length = delta.leaves.length ∧
          (∀ offset event, delta.events[offset]? = some event →
            event.eventIndex = delta.eventStartCursor + offset ∧
              event.eventIndex = delta.leafStartCursor + offset ∧
              delta.leaves[offset]? = some event.blindedCommitment) ∧
          (delta.leafEndCursor ≤ 2 ^ 48 →
            (∀ index, delta.leafStartCursor ≤ index → index < 2 ^ 48 →
              cache.commitmentAtGlobalIndex index = none) →
            ∀ offset leaf, delta.leaves[offset]? = some leaf →
              cache'.commitmentAtGlobalIndex (delta.leafStartCursor + offset)
                = if leaf = 0 then none else some leaf) := by
  rw [applyJournalDelta_exec]
  cases hcheck : cache.checkJournalDelta delta with
  | error error =>
    constructor
    · rintro _ cache' h
      exact (Prod.mk.inj h).2.symm
    · rintro cache' h
      cases h
  | ok _ =>
    have h := checkJournalDelta_eq_ok.mp hcheck
    constructor
    · rintro error cache' heq
      cases heq
    · rintro cache' heq
      obtain ⟨hevent, hleaf⟩ := withDelta_cursors h
      rw [← (Prod.mk.inj heq).2]
      refine ⟨hevent, hleaf, ?_, ?_, ?_⟩
      · rw [h.events, length_journalEvents]
      · intro offset event hget
        rw [h.events, getElem?_journalEvents, Option.map_eq_some_iff] at hget
        obtain ⟨commitment, hcommitment, rfl⟩ := hget
        refine ⟨?_, rfl, hcommitment⟩
        -- There is a leaf, so the two starts are the same.
        rw [h.sameStart.resolve_left (fun hnil => by
          rw [hnil, List.getElem?_nil] at hcommitment
          cases hcommitment)]
      · intro hend hfree offset leaf hget
        have hoffset := (List.getElem?_eq_some_iff.mp hget).1
        rw [h.leafEnd] at hend
        rw [withDelta, commitmentAt_withLeaves _ _ _ hend _ (by omega),
          if_pos (Nat.le_add_right _ _), Nat.add_sub_cancel_left, hget]
        have hold : (cache.withEvents delta.events).commitmentAtGlobalIndex
            (delta.leafStartCursor + offset) = none := by
          rw [commitmentAtGlobalIndex, withEvents_forest]
          exact hfree _ (Nat.le_add_right _ _) (by omega)
        dsimp only
        rw [hold, ite_not]

/-- Three events from the start of an empty cache, the second of them zero. -/
def zeroLeafDelta : PoiCacheJournalDelta where
  version := 1
  identity := someIdentity
  eventStartCursor := 0
  eventEndCursor := 3
  leafStartCursor := 0
  leafEndCursor := 3
  events := [⟨0, 7⟩, ⟨1, 0⟩, ⟨2, 9⟩]
  leaves := [7, 0, 9]

/-- The delta is applied, and its second leaf is not stored. -/
theorem applyJournalDelta_atomic_zeroLeafDelta :
    ∃ cache', (applyJournalDelta zeroLeafDelta).exec (PoiCache.new someIdentity)
        = (.ok (), cache') ∧
      cache'.progress.nextLeafIndex = 3 ∧
      cache'.commitmentAtGlobalIndex 1 = none ∧ cache'.commitmentAtGlobalIndex 2 = some 9 := by
  have hcheck : (PoiCache.new someIdentity).checkJournalDelta zeroLeafDelta = .ok () :=
    checkJournalDelta_eq_ok.mpr
      ⟨rfl, rfl, rfl, rfl, rfl, rfl, by decide, by decide, rfl, Or.inr rfl⟩
  have hexec := applyJournalDelta_exec (PoiCache.new someIdentity) zeroLeafDelta
  rw [hcheck] at hexec
  obtain ⟨-, hleaf, -, -, hstored⟩ :=
    (applyJournalDelta_atomic (PoiCache.new someIdentity) zeroLeafDelta).2 _ hexec
  have hfree : ∀ index, zeroLeafDelta.leafStartCursor ≤ index → index < 2 ^ 48 →
      (PoiCache.new someIdentity).commitmentAtGlobalIndex index = none := by
    intro index _ _
    have hleafAt : ∀ treeNumber treePosition,
        (PoiCache.new someIdentity).forest.leafAt treeNumber treePosition = none := by
      intro treeNumber treePosition
      rw [MerkleForest.leafAt, PoiCache.new, Std.ExtTreeMap.getElem?_empty, Option.bind_none]
    exact hleafAt _ _
  exact ⟨_, hexec, hleaf, hstored (by decide) hfree 1 0 rfl, hstored (by decide) hfree 2 9 rfl⟩

end Railgun
