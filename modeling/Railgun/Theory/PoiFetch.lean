import Railgun.Theory.Journal

/-!
# Fetching Events and Leaves

A synchronization fetches events page by page and then the leaves of the same
indices, in pages of another size. Whatever the node answers, as long as
nothing fails, the pages of events together are one run of signed events from
the cursor on, and the pages of leaves together are its commitments.

Each page continues where the cursor is, so both are invariants of their loops.
The events are noted by index and each leaf takes its note away, so the leaves
left to fetch are always the notes left.

## Main definitions

* `SignedRun`: Signed events that follow each other.

## Theorems

* `checkEventPage_eq_ok`, `checkLeafPage_eq_ok`: When a page passes.
* `syncEventPages_fetched`, `syncLeafPages_fetched`: What the loops have fetched.
* `syncEventsAndLeaves_fetched`: What both have fetched.
-/

namespace Railgun

open PoiCache PoiCacheSyncState

/-- The commitments of signed events. -/
def commitmentsOf (signed : List SignedPoiEvent) : List Bytes32 :=
  signed.map SignedPoiEvent.blindedCommitment

/-- The signed events of a page. -/
def signedOf (events : List PoiSyncedListEvent) : List SignedPoiEvent :=
  events.map PoiSyncedListEvent.signedPoiEvent

theorem length_commitmentsOf (signed : List SignedPoiEvent) :
    (commitmentsOf signed).length = signed.length := List.length_map _

theorem length_signedOf (events : List PoiSyncedListEvent) :
    (signedOf events).length = events.length := List.length_map _

/-- A page of events, noted for the leaves and the journal. -/
def PoiCacheSyncState.withPage (sync : PoiCacheSyncState) (start : Nat)
    (commitments : List Bytes32) : PoiCacheSyncState :=
  { sync with
    eventCommitments := insertRun sync.eventCommitments start commitments
    journalEvents := sync.journalEvents ++ Railgun.journalEvents start commitments }

theorem withPage_cons (sync : PoiCacheSyncState) (start : Nat) (commitment : Bytes32)
    (commitments : List Bytes32) :
    sync.withPage start (commitment :: commitments)
      = ({ sync with
          eventCommitments := sync.eventCommitments.insert start commitment
          journalEvents := sync.journalEvents ++ [⟨start, commitment⟩] } :
        PoiCacheSyncState).withPage (start + 1) commitments := by
  rw [withPage, withPage, insertRun, journalEvents, List.append_assoc, List.singleton_append]

/-- Events that the list has signed and whose indices follow each other. -/
def SignedRun (externals : PoiCacheExternals) (listKey : Bytes32) (start : Nat)
    (signed : List SignedPoiEvent) : Prop :=
  ∀ offset event, signed[offset]? = some event →
    event.index = start + offset ∧ externals.verifyPoiEvent event listKey = .ok ()

variable {start : Nat} {listKey : Bytes32} {externals : PoiCacheExternals}

theorem signedRun_nil : SignedRun externals listKey start [] := by
  intro offset event hevent
  cases hevent

theorem signedRun_cons {event : SignedPoiEvent} {signed : List SignedPoiEvent} :
    SignedRun externals listKey start (event :: signed) ↔
      (event.index = start ∧ externals.verifyPoiEvent event listKey = .ok ()) ∧
        SignedRun externals listKey (start + 1) signed := by
  rw [SignedRun, ← Nat.and_forall_add_one]
  simp [SignedRun, Nat.add_assoc, Nat.add_comm 1]

/-- A page is accepted when its events are a signed run with room for the next index. -/
theorem checkEventPage_eq_ok {events : List PoiSyncedListEvent} {sync sync' : PoiCacheSyncState} :
    checkEventPage externals listKey start events sync = .ok sync' ↔
      SignedRun externals listKey start (signedOf events) ∧
        (events = [] ∨ start + events.length < 2 ^ 64) ∧
        sync' = sync.withPage start (commitmentsOf (signedOf events)) := by
  induction events generalizing start sync with
  | nil =>
    have hsame : sync.withPage start (commitmentsOf (signedOf [])) = sync := by
      simp [withPage, signedOf, commitmentsOf, insertRun, journalEvents]
    rw [hsame, checkEventPage, List.foldlM_nil, bind_eq_ok]
    simp only [pure_eq_ok, exists_eq_left, true_or, true_and]
    exact (and_iff_right signedRun_nil).symm
  | cons event events ih =>
    have hsigned : signedOf (event :: events) = event.signedPoiEvent :: signedOf events := rfl
    have hcommitments : commitmentsOf (event.signedPoiEvent :: signedOf events)
        = event.signedPoiEvent.blindedCommitment :: commitmentsOf (signedOf events) := rfl
    rw [checkEventPage, List.foldlM_cons, bind_assoc, bind_eq_ok, hsigned, hcommitments,
      signedRun_cons, withPage_cons, List.length_cons]
    constructor
    · rintro ⟨state, hstep, hrest⟩
      obtain ⟨hindex, hbody⟩ := ite_error_eq_ok.mp hstep
      obtain ⟨_, hverify, hbody⟩ := bind_eq_ok.mp hbody
      obtain ⟨next, hnext, hstate⟩ := bind_eq_ok.mp hbody
      obtain ⟨hroom, rfl⟩ := checkedAdd_eq_ok.mp hnext
      rw [← Except.ok.inj hstate] at hrest
      obtain ⟨hrun, hbound, hsync⟩ := ih.mp hrest
      exact ⟨⟨⟨not_not.mp hindex, mapError_eq_ok.mp hverify⟩, hrun⟩, Or.inr (by grind), hsync⟩
    · rintro ⟨⟨⟨hindex, hverify⟩, hrun⟩, hbound, hsync⟩
      exact ⟨_, ite_error_eq_ok.mpr ⟨not_not_intro hindex, bind_eq_ok.mpr
        ⟨(), mapError_eq_ok.mpr hverify, bind_eq_ok.mpr
          ⟨start + 1, checkedAdd_eq_ok.mpr ⟨by grind, rfl⟩, rfl⟩⟩⟩,
        ih.mpr ⟨hrun, Or.inr (by grind), hsync⟩⟩

theorem journalEvents_append (start : Nat) (commitments more : List Bytes32) :
    journalEvents start (commitments ++ more)
      = journalEvents start commitments ++ journalEvents (start + commitments.length) more := by
  induction commitments generalizing start with
  | nil => rfl
  | cons commitment commitments ih =>
    rw [List.cons_append, journalEvents, ih, journalEvents, List.cons_append, List.length_cons,
      show start + 1 + commitments.length = start + (commitments.length + 1) by omega]

theorem signedRun_append {signed more : List SignedPoiEvent}
    (h : SignedRun externals listKey start signed)
    (hmore : SignedRun externals listKey (start + signed.length) more) :
    SignedRun externals listKey start (signed ++ more) := by
  intro offset event hevent
  by_cases hlt : offset < signed.length
  · rw [List.getElem?_append_left hlt] at hevent
    exact h offset event hevent
  · rw [List.getElem?_append_right (Nat.le_of_not_lt hlt)] at hevent
    have hboth := hmore _ event hevent
    exact ⟨by omega, hboth.2⟩

@[simp]
theorem withEvents_identity (events : List PoiCacheJournalEvent) (cache : PoiCache) :
    (cache.withEvents events).identity = cache.identity := by
  induction events generalizing cache with
  | nil => rfl
  | cons event events ih => exact ih (cache.withEvent event)

theorem withEvents_append (cache : PoiCache) (events more : List PoiCacheJournalEvent) :
    cache.withEvents (events ++ more) = (cache.withEvents events).withEvents more :=
  List.foldl_append

/-- The node has answered with the event. -/
def Answered (client : PoiRpcClient) (identity : PoiCacheIdentity) (event : SignedPoiEvent) :
    Prop :=
  ∃ first last page, client.poiEvents identity first last = .ok page ∧ event ∈ signedOf page

/-- A page that has been accepted is applied. -/
theorem applyPoiEvents_exec {events : List PoiSyncedListEvent}
    (hsigned : SignedRun externals listKey start (signedOf events))
    (hroom : events = [] ∨ start + events.length < 2 ^ 64) (cache : PoiCache) :
    (applyPoiEvents events).exec cache
      = (.ok events.length,
        cache.withEvents (journalEvents start (commitmentsOf (signedOf events)))) := by
  have hmap : events.map (fun event => (⟨event.signedPoiEvent.index,
        event.signedPoiEvent.blindedCommitment⟩ : PoiCacheJournalEvent))
      = journalEvents start (commitmentsOf (signedOf events)) := by
    refine List.ext_getElem? fun offset => ?_
    rw [getElem?_journalEvents, List.getElem?_map, commitmentsOf, List.getElem?_map, signedOf,
      List.getElem?_map]
    cases hevent : events[offset]? with
    | none => rfl
    | some event =>
      have hindex := (hsigned offset event.signedPoiEvent (by
        rw [signedOf, List.getElem?_map, hevent, Option.map_some])).1
      simp only [Option.map_some, hindex]
  have hbound : ∀ event ∈ events, event.signedPoiEvent.index + 1 < 2 ^ 64 := by
    intro event hmem
    obtain ⟨offset, hevent⟩ := List.mem_iff_getElem?.mp hmem
    have hoffset := (List.getElem?_eq_some_iff.mp hevent).1
    have hindex := (hsigned offset event.signedPoiEvent (by
      rw [signedOf, List.getElem?_map, hevent, Option.map_some])).1
    have hlt := hroom.resolve_left (List.ne_nil_of_mem hmem)
    omega
  rw [applyPoiEvents, exec_bind_of_ok ((applyEvents_eq_ok fun event : PoiSyncedListEvent =>
    ⟨event.signedPoiEvent.index, event.signedPoiEvent.blindedCommitment⟩).mpr ⟨hbound, rfl⟩), hmap]
  rfl

section Sync

variable (client : PoiRpcClient) (externals : PoiCacheExternals)

/-- What the cache and the notes are after some events have been fetched. -/
structure EventsFetched (start : PoiCache) (signed : List SignedPoiEvent)
    (sync : PoiCacheSyncState) (cache : PoiCache) : Prop where
  cache_eq : cache = start.withEvents
    (journalEvents start.progress.nextEventIndex (commitmentsOf signed))
  commitments : sync.eventCommitments
    = insertRun ∅ start.progress.nextEventIndex (commitmentsOf signed)
  journal : sync.journalEvents = journalEvents start.progress.nextEventIndex (commitmentsOf signed)
  leaves : sync.journalLeaves = []
  signedRun : SignedRun externals start.identity.listKey start.progress.nextEventIndex signed
  answered : ∀ event ∈ signed, Answered client start.identity event
  room : signed = [] ∨ start.progress.nextEventIndex + signed.length < 2 ^ 64

variable {client externals}

/-- No events have been fetched at the start. -/
theorem eventsFetched_nil (start : PoiCache) :
    EventsFetched client externals start [] {} start where
  cache_eq := rfl
  commitments := rfl
  journal := rfl
  leaves := rfl
  signedRun := nofun
  answered := nofun
  room := Or.inl rfl

variable {sync : PoiCacheSyncState} {cache start : PoiCache} {signed : List SignedPoiEvent}

theorem EventsFetched.nextEventIndex (h : EventsFetched client externals start signed sync cache) :
    cache.progress.nextEventIndex = start.progress.nextEventIndex + signed.length := by
  rw [h.cache_eq, withEvents_nextEventIndex, length_commitmentsOf]

theorem EventsFetched.withOutcome (h : EventsFetched client externals start signed sync cache)
    (outcome : PoiCacheSyncOutcome) :
    EventsFetched client externals start signed { sync with outcome := outcome } cache :=
  ⟨h.cache_eq, h.commitments, h.journal, h.leaves, h.signedRun, h.answered, h.room⟩

/-- A page that continues at the cursor extends the run. -/
theorem EventsFetched.append (h : EventsFetched client externals start signed sync cache)
    {first last : Nat} {page : List PoiSyncedListEvent}
    (hpage : client.poiEvents start.identity first last = .ok page)
    (hsigned : SignedRun externals start.identity.listKey cache.progress.nextEventIndex
      (signedOf page))
    (hroom : page = [] ∨ cache.progress.nextEventIndex + page.length < 2 ^ 64) :
    EventsFetched client externals start (signed ++ signedOf page)
      (sync.withPage cache.progress.nextEventIndex (commitmentsOf (signedOf page)))
      (cache.withEvents (journalEvents cache.progress.nextEventIndex
        (commitmentsOf (signedOf page)))) := by
  rw [h.nextEventIndex] at hsigned hroom ⊢
  have hcommitments : commitmentsOf (signed ++ signedOf page)
      = commitmentsOf signed ++ commitmentsOf (signedOf page) := List.map_append
  refine ⟨?_, ?_, ?_, h.leaves, signedRun_append h.signedRun hsigned, ?_, ?_⟩
  · rw [hcommitments, journalEvents_append, withEvents_append, ← h.cache_eq, length_commitmentsOf]
  · rw [hcommitments, withPage, h.commitments, insertRun_append, length_commitmentsOf]
  · rw [hcommitments, withPage, h.journal, journalEvents_append, length_commitmentsOf]
  · intro event hevent
    rcases List.mem_append.mp hevent with hold | hnew
    · exact h.answered event hold
    · exact ⟨first, last, page, hpage, hnew⟩
  · rcases hroom with rfl | hroom
    · rw [signedOf, List.map_nil, List.append_nil]
      exact h.room
    · rw [List.length_append, length_signedOf]
      exact Or.inr (by omega)

-- By induction on the pages left. Each page continues where the cursor is, so
-- the events of all pages are one run.
/-- What all pages together have fetched is one run of signed events. -/
theorem syncEventPages_fetched {eventPageSize pages : Nat} {sync' : PoiCacheSyncState}
    {cache' : PoiCache} (h : EventsFetched client externals start signed sync cache)
    (hexec : (syncEventPages client externals eventPageSize pages sync).exec cache
      = (.ok sync', cache')) :
    ∃ signed', EventsFetched client externals start signed' sync' cache' := by
  induction pages generalizing signed sync cache with
  | zero =>
    obtain ⟨rfl, rfl⟩ := exec_pure_eq_ok.mp hexec
    exact ⟨signed, h⟩
  | succ pages ih =>
    obtain ⟨endIndex, -, hexec⟩ := exec_ofExcept_bind_eq_ok.mp hexec
    obtain ⟨page, hanswer, hexec⟩ := exec_ofExcept_bind_eq_ok.mp hexec
    have hidentity : cache.identity = start.identity := by rw [h.cache_eq, withEvents_identity]
    rw [hidentity] at hanswer hexec
    obtain ⟨-, hexec⟩ := exec_ite_throw_eq_ok.mp hexec
    split at hexec
    · obtain ⟨rfl, rfl⟩ := exec_pure_eq_ok.mp hexec
      exact ⟨signed, h⟩
    obtain ⟨noted, hnoted, hexec⟩ := exec_ofExcept_bind_eq_ok.mp hexec
    obtain ⟨hsigned, hroom, rfl⟩ := checkEventPage_eq_ok.mp hnoted
    rw [exec_bind_of_ok (applyPoiEvents_exec hsigned hroom cache)] at hexec
    have hnext := h.append (mapError_eq_ok.mp hanswer) hsigned hroom
    split at hexec
    · obtain ⟨rfl, rfl⟩ := exec_pure_eq_ok.mp hexec
      exact ⟨_, hnext.withOutcome _⟩
    split at hexec
    · obtain ⟨rfl, rfl⟩ := exec_pure_eq_ok.mp hexec
      exact ⟨_, hnext.withOutcome _⟩
    · exact ih (hnext.withOutcome _) hexec

variable {leaves : List U256}

/-- A page of leaves is accepted when each is the commitment of its index. -/
theorem checkLeafPage_eq_ok {start : Nat} {eventCommitments : BTreeMap Nat Bytes32} :
    checkLeafPage start leaves eventCommitments = .ok () ↔
      ∀ offset leaf, leaves[offset]? = some leaf →
        start + offset < 2 ^ 64 ∧ eventCommitments[start + offset]? = some leaf := by
  rw [checkLeafPage, foldlM_check_eq_ok]
  simp only [Prod.forall, bind_eq_ok, checkedAdd_eq_ok, and_assoc, exists_and_left, exists_eq_left,
    List.mem_zipIdx_iff_getElem?]
  rw [forall_comm]
  refine forall₂_congr fun offset leaf => imp_congr_right fun _ => and_congr_right fun _ => ?_
  cases eventCommitments[start + offset]? with
  | none => exact ⟨nofun, nofun⟩
  | some expected =>
    rw [ite_error_eq_ok, not_not, and_iff_left rfl, Option.some.injEq, eq_comm]

/-- The commitments of a page are taken out. -/
theorem dropLeafPage_eq_ok {start : Nat} {eventCommitments left : BTreeMap Nat Bytes32} :
    dropLeafPage start leaves eventCommitments = .ok left ↔
      (∀ offset, offset < leaves.length → start + offset < 2 ^ 64) ∧
        left = eraseRun eventCommitments start leaves.length := by
  rw [dropLeafPage]
  induction leaves.length generalizing left with
  | zero =>
    simp [pure_eq_ok, eraseRun]
  | succ count ih =>
    simp only [List.range_succ, List.foldlM_append, bind_eq_ok, ih, List.foldlM_cons,
      List.foldlM_nil, checkedAdd_eq_ok, pure_eq_ok, and_assoc, exists_and_left, exists_eq_left,
      eraseRun_succ, Nat.forall_lt_succ_right]

theorem withLeaves_append (cache : PoiCache) (start : Nat) (leaves more : List U256) :
    cache.withLeaves start (leaves ++ more)
      = (cache.withLeaves start leaves).withLeaves (start + leaves.length) more := by
  induction leaves generalizing cache start with
  | nil => rfl
  | cons leaf leaves ih =>
    rw [List.cons_append, withLeaves, ih, withLeaves, List.length_cons,
      show start + 1 + leaves.length = start + (leaves.length + 1) by omega]

@[simp]
theorem withLeaves_identity (cache : PoiCache) (start : Nat) (leaves : List U256) :
    (cache.withLeaves start leaves).identity = cache.identity := by
  induction leaves generalizing cache start with
  | nil => rfl
  | cons leaf leaves ih =>
    rw [withLeaves, ih, withLeaf]
    split <;> rfl

/-- What the cache and the notes are after some of the leaves of the events have
    been fetched. -/
structure LeavesFetched (start : PoiCache) (listed : List Bytes32) (count : Nat)
    (sync : PoiCacheSyncState) (cache : PoiCache) : Prop where
  cache_eq : cache = (start.withEvents (journalEvents start.progress.nextEventIndex
    listed)).withLeaves start.progress.nextEventIndex (listed.take count)
  commitments : sync.eventCommitments
    = insertRun ∅ (start.progress.nextEventIndex + count) (listed.drop count)
  journal : sync.journalEvents = journalEvents start.progress.nextEventIndex listed
  leaves : sync.journalLeaves = listed.take count
  count_le : count ≤ listed.length

variable {count : Nat} {listed : List Bytes32}

theorem LeavesFetched.cursors (h : LeavesFetched start listed count sync cache)
    (hcursors : start.progress.nextEventIndex = start.progress.nextLeafIndex) :
    cache.progress.nextEventIndex = start.progress.nextEventIndex + listed.length ∧
      cache.progress.nextLeafIndex = start.progress.nextEventIndex + count := by
  rw [h.cache_eq, withLeaves_nextEventIndex, withEvents_nextEventIndex]
  refine ⟨rfl, ?_⟩
  rw [withLeaves_nextLeafIndex _ _ _ (by rw [withEvents_nextLeafIndex, hcursors]),
    List.length_take, Nat.min_eq_left h.count_le]

/-- A page of leaves that is accepted is the next of the listed commitments. -/
theorem page_eq_take {start : Nat} {leaves : List Bytes32}
    (hlength : leaves.length ≤ listed.length - count)
    (hleaves : ∀ offset leaf, leaves[offset]? = some leaf →
      (insertRun (∅ : BTreeMap Nat Bytes32) start (listed.drop count))[start + offset]?
        = some leaf) :
    leaves = (listed.drop count).take leaves.length := by
  refine List.ext_getElem? fun offset => ?_
  have hleaf := hleaves offset
  simp only [getElem?_insertRun, List.length_drop, Nat.add_sub_cancel_left] at hleaf
  grind

/-- A page of leaves extends what has been fetched. -/
theorem LeavesFetched.append (h : LeavesFetched start listed count sync cache)
    (hlength : leaves.length ≤ listed.length - count)
    (hleaves : ∀ offset leaf, leaves[offset]? = some leaf →
      sync.eventCommitments[start.progress.nextEventIndex + count + offset]? = some leaf)
    (outcome : PoiCacheSyncOutcome) :
    LeavesFetched start listed (count + leaves.length)
      { sync with
        outcome := outcome
        eventCommitments := eraseRun sync.eventCommitments
          (start.progress.nextEventIndex + count) leaves.length
        journalLeaves := sync.journalLeaves ++ leaves }
      (cache.withLeaves (start.progress.nextEventIndex + count) leaves) := by
  rw [h.commitments] at hleaves
  have hpage := page_eq_take hlength hleaves
  have htake : listed.take (count + leaves.length) = listed.take count ++ leaves := by
    rw [List.take_add, ← hpage]
  have hcount := h.count_le
  refine ⟨?_, ?_, h.journal, ?_, by omega⟩
  · rw [htake, withLeaves_append, ← h.cache_eq, List.length_take, Nat.min_eq_left h.count_le]
  · rw [h.commitments, eraseRun_insertRun (by rw [List.length_drop]; exact hlength),
      List.drop_drop, Nat.add_assoc]
  · rw [htake, h.leaves]

-- By induction on the pages left, which are no fewer than the leaves left. A
-- page has at least one leaf, so the leaves run out first.
/-- When the pages end, the leaves of all events have been fetched. -/
theorem syncLeafPages_fetched {leafPageSize pages : Nat} {sync' : PoiCacheSyncState}
    {cache' : PoiCache} (hsize : leafPageSize ≠ 0)
    (hcursors : start.progress.nextEventIndex = start.progress.nextLeafIndex)
    (hroom : listed = [] ∨ start.progress.nextEventIndex + listed.length < 2 ^ 64)
    (h : LeavesFetched start listed count sync cache) (hpages : listed.length - count ≤ pages)
    (hexec : (syncLeafPages client leafPageSize pages sync).exec cache = (.ok sync', cache')) :
    LeavesFetched start listed listed.length sync' cache' := by
  induction pages generalizing count sync cache with
  | zero =>
    obtain ⟨rfl, rfl⟩ := exec_pure_eq_ok.mp hexec
    have hcount := h.count_le
    rw [show listed.length = count by omega]
    exact h
  | succ pages ih =>
    have hcount := h.count_le
    obtain ⟨hevent, hleaf⟩ := h.cursors hcursors
    rw [syncLeafPages, exec_bind_of_ok (exec_get cache), hevent, hleaf] at hexec
    by_cases hlt : start.progress.nextEventIndex + count
        < start.progress.nextEventIndex + listed.length
    · rw [if_pos hlt] at hexec
      obtain ⟨endIndex, -, hexec⟩ := exec_ofExcept_bind_eq_ok.mp hexec
      obtain ⟨leaves, -, hexec⟩ := exec_ofExcept_bind_eq_ok.mp hexec
      obtain ⟨hlength, hexec⟩ := exec_ite_throw_eq_ok.mp hexec
      obtain ⟨_, hcheck, hexec⟩ := exec_ofExcept_bind_eq_ok.mp hexec
      obtain ⟨left, hdrop, hexec⟩ := exec_ofExcept_bind_eq_ok.mp hexec
      obtain ⟨-, rfl⟩ := dropLeafPage_eq_ok.mp hdrop
      have hleaves := checkLeafPage_eq_ok.mp hcheck
      have hbound := hroom.resolve_left (List.ne_nil_of_length_pos (by omega))
      rw [exec_bind_of_ok (applyPoiLeaves_eq_ok.mpr ⟨Or.inr (by omega), rfl, rfl⟩)] at hexec
      have hnext := h.append (by omega) (fun offset leaf hget => (hleaves offset leaf hget).2)
        { sync.outcome with leaves := sync.outcome.leaves + storedCount leaves }
      exact ih hnext (by omega) hexec
    · rw [if_neg hlt] at hexec
      obtain ⟨rfl, rfl⟩ := exec_pure_eq_ok.mp hexec
      rw [show listed.length = count by omega]
      exact h

theorem EventsFetched.leavesFetched (h : EventsFetched client externals start signed sync cache) :
    LeavesFetched start (commitmentsOf signed) 0 sync cache where
  cache_eq := h.cache_eq
  commitments := h.commitments
  journal := h.journal
  leaves := h.leaves
  count_le := Nat.zero_le _

/-- Events and leaves are fetched for the same commitments. -/
theorem syncEventsAndLeaves_fetched {eventPageSize leafPageSize maxEventPages : Nat}
    (hsize : leafPageSize ≠ 0)
    (hcursors : start.progress.nextEventIndex = start.progress.nextLeafIndex)
    (hexec : (syncEventsAndLeaves client externals eventPageSize leafPageSize
      maxEventPages).exec start = (.ok sync, cache)) :
    ∃ signed fetched before, EventsFetched client externals start signed fetched before ∧
      LeavesFetched start (commitmentsOf signed) signed.length sync cache := by
  obtain ⟨fetched, before, hevents, hexec⟩ := exec_bind_eq_ok.mp hexec
  obtain ⟨signed, hfetched⟩ := syncEventPages_fetched (eventsFetched_nil start) hevents
  rw [exec_bind_of_ok (exec_get before)] at hexec
  obtain ⟨noted, after, hleaves, hexec⟩ := exec_bind_eq_ok.mp hexec
  have hroom : commitmentsOf signed = [] ∨
      start.progress.nextEventIndex + (commitmentsOf signed).length < 2 ^ 64 := by
    rw [length_commitmentsOf]
    exact hfetched.room.imp_left fun hnil => by rw [hnil, commitmentsOf, List.map_nil]
  have hpages : (commitmentsOf signed).length - 0
      ≤ before.progress.nextEventIndex - before.progress.nextLeafIndex := by
    rw [hfetched.nextEventIndex, hfetched.cache_eq, withEvents_nextLeafIndex, ← hcursors,
      length_commitmentsOf]
    omega
  have hlast := syncLeafPages_fetched hsize hcursors hroom hfetched.leavesFetched hpages hleaves
  rw [length_commitmentsOf] at hlast
  -- Nothing is left of the commitments, so the last check passes.
  cases hmin : noted.eventCommitments.minKey? with
  | some index =>
    rw [hmin] at hexec
    exact absurd hexec exec_throw_ne_ok
  | none =>
    rw [hmin] at hexec
    obtain ⟨rfl, rfl⟩ := exec_pure_eq_ok.mp hexec
    exact ⟨signed, fetched, before, hfetched, hlast⟩

end Sync

end Railgun
