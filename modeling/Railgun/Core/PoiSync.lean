import Railgun.Core.PoiCache

/-!
# Synchronizing the Cache of Proofs of Innocence

A cache follows its list by asking a node for the events after its cursor, page
by page, and then for the leaves at the same indices. Every event has to carry
the list's signature and every leaf has to be the commitment of its event. The
blocked shields are fetched whole each time. What has been added is returned as
a journal delta, and a chain of such deltas can be replayed on a cache.

The node is a client: what it answers is a parameter, and one synchronization
makes each request once, so an answer depends on the request alone. The
verification of signatures is a parameter as well. Loops that end because the
cursors move are bounded by the distance they have to move.

## Main definitions

* `PoiRpcClient`: The answers of a node.
* `PoiCache.syncBoundedCandidate`: One synchronization.
* `PoiCache.validateRoots`: Ask the node whether the roots are the list's.
* `PoiCacheOperation`: Everything that changes a cache.
-/

namespace Railgun

/-- The size of a page of events. -/
def poiEventsPageSize : Nat := 500

/-- The size of a page of leaves. -/
def poiMerkletreeLeavesPageSize : Nat := 100

/-- The size of a page of blocked shields. -/
def poiBlockedShieldsPageSize : Nat := 500

/-- The largest number of blocked shields. -/
def poiBlockedShieldsLimit : Nat := 100000

/-- The largest number of pages that can be asked for. -/
def usizeMax : Nat := 2 ^ 64 - 1

/-- What is synchronized. -/
inductive PoiCacheSyncScope where
  | full
  | events
  | blockedShields
deriving DecidableEq, Repr

/-- Whether events and leaves are in the scope. -/
def PoiCacheSyncScope.syncEvents : PoiCacheSyncScope → Bool
  | full => true
  | events => true
  | blockedShields => false

/-- Whether blocked shields are in the scope. -/
def PoiCacheSyncScope.syncBlockedShields : PoiCacheSyncScope → Bool
  | full => true
  | events => false
  | blockedShields => true

/-- What the node is asked for. -/
structure PoiRpcClient where
  poiEvents : PoiCacheIdentity → Nat → Nat → Except PoiRpcError (List PoiSyncedListEvent)
  poiMerkletreeLeaves : PoiCacheIdentity → Nat → Nat → Except PoiRpcError (List U256)
  blockedShields : PoiCacheIdentity → Nat → Nat → Except PoiRpcError (List BlockedShield)
  validatePoiMerkleroots : PoiCacheIdentity → List Bytes32 → Except PoiRpcError Bool

/-- What the cache uses of other libraries: the checks of a list's signature and
    the digit parser. -/
structure PoiCacheExternals where
  verifyPoiEvent : SignedPoiEvent → Bytes32 → Except VerifyError Unit
  verifyBlockedShield : BlockedShield → Bytes32 → Except VerifyError Unit
  fromStrRadix : String → Nat → Option U256

/-- What a synchronization has done. -/
structure PoiCacheSyncOutcome where
  events : Nat := 0
  leaves : Nat := 0
  blockedShields : Nat := 0
  eventPageBudgetExhausted : Bool := false
  changed : Bool := false
deriving DecidableEq, Repr

/-- What a synchronization returns beside the cache. -/
structure PoiCacheJournalSyncResult where
  outcome : PoiCacheSyncOutcome
  delta : PoiCacheJournalDelta
  blockedShields : Option (List BlockedShield)
deriving DecidableEq, Repr

/-- What a synchronization has gathered so far. -/
structure PoiCacheSyncState where
  outcome : PoiCacheSyncOutcome := {}
  eventCommitments : BTreeMap Nat Bytes32 := ∅
  journalEvents : List PoiCacheJournalEvent := []
  journalLeaves : List Bytes32 := []

namespace PoiCache

variable (client : PoiRpcClient) (externals : PoiCacheExternals)

/-- The events of a page follow each other and are signed. They are noted for
    the leaves and the journal. -/
def checkEventPage (listKey : Bytes32) (startIndex : Nat) (events : List PoiSyncedListEvent)
    (sync : PoiCacheSyncState) : Except PoiCacheError PoiCacheSyncState := do
  let (sync, _) ← events.foldlM
    (fun (state : PoiCacheSyncState × Nat) event =>
      if event.signedPoiEvent.index ≠ state.2 then
        .error (.nonContiguousEvent state.2 event.signedPoiEvent.index)
      else do
        (externals.verifyPoiEvent event.signedPoiEvent listKey).mapError .verify
        let commitment := event.signedPoiEvent.blindedCommitment
        let next ← checkedAdd state.2 1
        return ({ state.1 with
            eventCommitments := state.1.eventCommitments.insert state.2 commitment,
            journalEvents := state.1.journalEvents
              ++ [{ eventIndex := state.2, blindedCommitment := commitment }] }, next))
    (sync, startIndex)
  return sync

/-- Fetch pages of events until one is short, or as many as allowed. -/
def syncEventPages (eventPageSize : Nat) :
    Nat → PoiCacheSyncState → CacheM PoiCacheSyncState
  | 0, sync => pure sync
  | pagesLeft + 1, sync => do
    let cache ← get
    let startIndex := cache.progress.nextEventIndex
    let endIndex ← ofExcept (checkedAdd startIndex (eventPageSize - 1))
    let events ← ofExcept ((client.poiEvents cache.identity startIndex endIndex).mapError .rpc)
    if eventPageSize < events.length then
      throw (.eventPageTooLarge startIndex endIndex eventPageSize events.length)
    else if events.isEmpty then
      pure sync
    else do
      let sync ← ofExcept
        (checkEventPage externals cache.identity.listKey startIndex events sync)
      let applied ← applyPoiEvents events
      let outcome := { sync.outcome with events := sync.outcome.events + applied }
      if events.length < eventPageSize then
        pure { sync with outcome := outcome }
      else if pagesLeft = 0 then
        pure { sync with outcome := { outcome with eventPageBudgetExhausted := true } }
      else
        syncEventPages eventPageSize pagesLeft { sync with outcome := outcome }

/-- Every leaf of a page is the commitment of the event with its index. -/
def checkLeafPage (startIndex : Nat) (leaves : List U256)
    (eventCommitments : BTreeMap Nat Bytes32) : Except PoiCacheError Unit :=
  leaves.zipIdx.foldlM
    (fun _ (entry : U256 × Nat) => do
      let index ← checkedAdd startIndex entry.2
      match eventCommitments[index]? with
      | none => .error (.leafWithoutEvent index)
      | some expected =>
        if entry.1 ≠ expected then .error (.eventLeafMismatch index) else .ok ())
    ()

/-- The commitments without those of a page. -/
def dropLeafPage (startIndex : Nat) (leaves : List U256)
    (eventCommitments : BTreeMap Nat Bytes32) : Except PoiCacheError (BTreeMap Nat Bytes32) :=
  (List.range leaves.length).foldlM
    (fun (left : BTreeMap Nat Bytes32) offset => do
      let index ← checkedAdd startIndex offset
      return left.erase index)
    eventCommitments

/-- Fetch pages of leaves until the leaf cursor has reached the event cursor.
    The number bounds the pages, and the distance between the cursors is a
    bound. -/
def syncLeafPages (leafPageSize : Nat) :
    Nat → PoiCacheSyncState → CacheM PoiCacheSyncState
  | 0, sync => pure sync
  | pages + 1, sync => do
    let cache ← get
    if cache.progress.nextLeafIndex < cache.progress.nextEventIndex then do
      let startIndex := cache.progress.nextLeafIndex
      let remaining := cache.progress.nextEventIndex - startIndex
      let pageSize := min leafPageSize remaining
      let endIndex ← ofExcept (checkedAdd startIndex pageSize)
      let leaves ← ofExcept
        ((client.poiMerkletreeLeaves cache.identity startIndex endIndex).mapError .rpc)
      if leaves.length ≠ pageSize then
        throw (.leafPageSizeMismatch startIndex endIndex pageSize leaves.length)
      else do
        ofExcept (checkLeafPage startIndex leaves sync.eventCommitments)
        let eventCommitments ← ofExcept (dropLeafPage startIndex leaves sync.eventCommitments)
        let applied ← applyPoiLeaves startIndex leaves
        syncLeafPages leafPageSize pages { sync with
          outcome := { sync.outcome with leaves := sync.outcome.leaves + applied }
          eventCommitments := eventCommitments
          journalLeaves := sync.journalLeaves ++ leaves }
    else
      pure sync

/-- Fetch pages of blocked shields until one is short. Pages are full before
    that, so the limit on the number of entries bounds the pages. -/
def fetchBlockedShields (identity : PoiCacheIdentity) :
    Nat → Nat → List BlockedShield → Except PoiCacheError (List BlockedShield)
  | 0, _, blockedShields => .ok blockedShields
  | pages + 1, blockedStartIndex, blockedShields => do
    let blockedEndIndex ← checkedAdd blockedStartIndex poiBlockedShieldsPageSize
    let page ← (client.blockedShields identity blockedStartIndex blockedEndIndex).mapError
      PoiCacheError.rpc
    if poiBlockedShieldsPageSize < page.length then
      .error (.blockedShieldPageTooLarge blockedStartIndex blockedEndIndex
        poiBlockedShieldsPageSize page.length)
    else if poiBlockedShieldsLimit < blockedShields.length + page.length then
      .error (.blockedShieldLimitExceeded poiBlockedShieldsLimit)
    else do
      page.foldlM (fun _ blockedShield =>
        (externals.verifyBlockedShield blockedShield identity.listKey).mapError .verify) ()
      let blockedShields := blockedShields ++ page
      if page.length < poiBlockedShieldsPageSize then
        .ok blockedShields
      else
        fetchBlockedShields identity pages blockedEndIndex blockedShields

/-- Replace the blocked shields by those of the node. Also their number and
    whether this counts as a change. -/
def syncBlockedShields (scope : PoiCacheSyncScope) :
    CacheM (List BlockedShield × Nat × Bool) := do
  let previous ← get
  let blockedShields ← ofExcept (fetchBlockedShields client externals previous.identity
    (poiBlockedShieldsLimit / poiBlockedShieldsPageSize + 1) 0 [])
  let applied ← replaceBlockedShields externals.fromStrRadix blockedShields
  let cache ← get
  let changed :=
    (!previous.progress.blockedShieldsSynced
      && (decide (scope = .blockedShields) || decide (0 < cache.progress.nextEventIndex)))
    || !cache.sameBlockedShields previous
  return (blockedShields, applied, changed)

/-- The events and leaves of a synchronization. -/
def syncEventsAndLeaves (eventPageSize leafPageSize maxEventPages : Nat) :
    CacheM PoiCacheSyncState := do
  let sync ← syncEventPages client externals eventPageSize maxEventPages {}
  let cache ← get
  let sync ← syncLeafPages client leafPageSize
    (cache.progress.nextEventIndex - cache.progress.nextLeafIndex) sync
  match sync.eventCommitments.minKey? with
  | some index => throw (.missingEventLeaf index)
  | none => pure sync

/-- Synchronize the cache, and say what has been added to it. -/
def syncBoundedCandidate (eventPageSize leafPageSize maxEventPages : Nat)
    (scope : PoiCacheSyncScope) : CacheM PoiCacheJournalSyncResult := do
  let start ← get
  if scope.syncEvents ∧ (eventPageSize = 0 ∨ leafPageSize = 0 ∨ maxEventPages = 0) then
    throw .invalidPageSize
  else if scope.syncEvents ∧ start.progress.nextEventIndex ≠ start.progress.nextLeafIndex then
    throw (.syncCursorMismatch start.progress.nextEventIndex start.progress.nextLeafIndex)
  else do
    let sync ← (if scope.syncEvents then
        syncEventsAndLeaves client externals eventPageSize leafPageSize maxEventPages
      else
        pure {})
    let (blockedShields, applied, blockedShieldsChanged) ←
      (if scope.syncBlockedShields then do
        let (blockedShields, applied, changed) ← syncBlockedShields client externals scope
        pure (some blockedShields, applied, changed)
      else
        pure (none, 0, false))
    let cache ← get
    return {
      outcome := { sync.outcome with
        blockedShields := applied
        changed := decide (0 < sync.outcome.events) || decide (0 < sync.outcome.leaves)
          || blockedShieldsChanged }
      delta := {
        version := poiCacheJournalDeltaVersion
        identity := cache.identity
        eventStartCursor := start.progress.nextEventIndex
        eventEndCursor := cache.progress.nextEventIndex
        leafStartCursor := start.progress.nextLeafIndex
        leafEndCursor := cache.progress.nextLeafIndex
        events := sync.journalEvents
        leaves := sync.journalLeaves }
      blockedShields := blockedShields.filter fun _ => blockedShieldsChanged }

/-- Synchronize a copy, and take it over when nothing failed. -/
def syncBounded (eventPageSize leafPageSize maxEventPages : Nat) :
    CacheM PoiCacheSyncOutcome := do
  let cache ← get
  let reached := (syncBoundedCandidate client externals eventPageSize leafPageSize maxEventPages
    .full).exec cache
  let result ← ofExcept reached.1
  set reached.2
  return result.outcome

/-- Synchronize with as many pages of events as allowed. -/
def syncWithPageSizes (eventPageSize leafPageSize : Nat) : CacheM PoiCacheSyncOutcome :=
  syncBounded client externals eventPageSize leafPageSize usizeMax

/-- Synchronize with the sizes of pages the node allows. -/
def sync : CacheM PoiCacheSyncOutcome :=
  syncWithPageSizes client externals poiEventsPageSize poiMerkletreeLeavesPageSize

/-- A synchronization that takes the cache and gives it back only when nothing
    failed. -/
def syncWithJournal (cache : PoiCache) (eventPageSize leafPageSize maxEventPages : Nat)
    (scope : PoiCacheSyncScope) : Except PoiCacheError (PoiCache × PoiCacheJournalSyncResult) :=
  let reached := (syncBoundedCandidate client externals eventPageSize leafPageSize maxEventPages
    scope).exec cache
  reached.1.map fun result => (reached.2, result)

/-- Synchronize everything, and return the cache with what has been added. -/
def syncBoundedWithJournal (cache : PoiCache) (eventPageSize leafPageSize maxEventPages : Nat) :
    Except PoiCacheError (PoiCache × PoiCacheJournalSyncResult) :=
  cache.syncWithJournal client externals eventPageSize leafPageSize maxEventPages .full

/-- Synchronize events and leaves alone. -/
def syncEventsBoundedWithJournal (cache : PoiCache)
    (eventPageSize leafPageSize maxEventPages : Nat) :
    Except PoiCacheError (PoiCache × PoiCacheJournalSyncResult) :=
  cache.syncWithJournal client externals eventPageSize leafPageSize maxEventPages .events

/-- Synchronize the blocked shields alone. -/
def syncBlockedShieldsWithJournal (cache : PoiCache) :
    Except PoiCacheError (PoiCache × PoiCacheJournalSyncResult) :=
  cache.syncWithJournal client externals poiEventsPageSize poiMerkletreeLeavesPageSize usizeMax
    .blockedShields

/-- Ask the node about the roots, and note its answer. -/
def validateRoots (poseidon : U256 → U256 → U256) : CacheM Bool := do
  let roots ← currentRoots poseidon
  let cache ← get
  let accepted ← (if roots.values.isEmpty then
      pure false
    else
      ofExcept ((client.validatePoiMerkleroots cache.identity roots.values).mapError .rpc))
  modify fun cache => cache.setRootValidation
    (if accepted then .validated roots else .invalid roots)
  return accepted

end PoiCache

/-- A cache to which journal deltas are applied, and the dense tree the last of
    them ended in. -/
structure PoiCacheJournalReplay where
  cache : PoiCache
  currentTree : Option (Nat × DenseMerkleTree) := none

/-- Start to replay a journal. -/
def PoiCache.intoJournalReplay (cache : PoiCache) : PoiCacheJournalReplay := { cache := cache }

namespace PoiCacheJournalReplay

variable (poseidon : U256 → U256 → U256)

/-- A method of a replay. -/
abbrev ReplayM (α : Type) := Stateful PoiCacheJournalReplay PoiCacheError α

/-- Run a method of the replay's cache. -/
def onCache {α : Type} (x : CacheM α) : ReplayM α := do
  let replay ← get
  let reached := x.exec replay.cache
  set { replay with cache := reached.2 }
  ofExcept reached.1

/-- Write a leaf of a delta, with its place there, into the dense tree, unless it is
    zero. -/
def setLeafAt (leafStartCursor : Nat) (entry : Bytes32 × Nat) : ReplayM Unit :=
  if entry.1 = 0 then
    pure ()
  else do
    let globalIndex ← ofExcept (checkedAdd leafStartCursor entry.2)
    let (_, leafPosition) := normalizeTreePosition 0 globalIndex
    modify fun replay => { replay with
      currentTree := replay.currentTree.map fun current =>
        (current.1, current.2.setLeaf poseidon leafPosition entry.1) }

/-- Write the leaves of a delta into the dense tree. -/
def setLeaves (leafStartCursor : Nat) (leaves : List Bytes32) : ReplayM Unit :=
  leaves.zipIdx.foldlM (fun _ entry => setLeafAt poseidon leafStartCursor entry) ()

/-- The root of a tree, off the dense tree if that is its own. -/
def rootOf (replay : PoiCacheJournalReplay) (treeNumber : Nat) : Except PoiCacheError Bytes32 :=
  match replay.currentTree.filter (fun current => current.1 = treeNumber) with
  | some (_, dense) => .ok dense.root
  | none =>
    match (replay.cache.currentRootsReadonly poseidon)[treeNumber]? with
    | some root => .ok root
    | none => .error (.missingJournalReplayRoot treeNumber)

/-- Apply a delta, and compute the root of the tree it ends in. While the deltas
    stay in one tree, its dense tree is kept and only written to. -/
def applyDelta (delta : PoiCacheJournalDelta) : ReplayM Bytes32 := do
  let replay ← get
  if delta.eventEndCursor = 0 then
    throw (.journalDeltaEndCursorMismatch delta.eventEndCursor delta.leafEndCursor
      replay.cache.progress.nextEventIndex replay.cache.progress.nextLeafIndex)
  else do
    let tipIndex := delta.eventEndCursor - 1
    let (treeNumber, treePosition) := normalizeTreePosition 0 tipIndex
    let incrementCurrentTree := !delta.leaves.isEmpty
      && replay.currentTree.any (fun current => current.1 = treeNumber)
      && decide ((normalizeTreePosition 0 delta.leafStartCursor).1 = treeNumber)
    onCache (PoiCache.applyJournalDelta delta)
    (if incrementCurrentTree then
      setLeaves poseidon delta.leafStartCursor delta.leaves
    else if !delta.leaves.isEmpty then
      modify fun replay => { replay with
        currentTree := some (treeNumber, DenseMerkleTree.fromForestPrefix poseidon
          replay.cache.forest treeNumber (treePosition + 1)) }
    else
      pure ())
    let replay ← get
    ofExcept (replay.rootOf poseidon treeNumber)

/-- Accept the roots reached. -/
def finish (replay : PoiCacheJournalReplay) : PoiCache :=
  ((PoiCache.acceptCurrentRoots poseidon).exec replay.cache).2

/-- Apply deltas one after another. One that is refused changes nothing about
    the deltas after it being tried. -/
def applyDeltas (replay : PoiCacheJournalReplay) (deltas : List PoiCacheJournalDelta) :
    PoiCacheJournalReplay :=
  deltas.foldl (fun replay delta => ((applyDelta poseidon delta).exec replay).2) replay

end PoiCacheJournalReplay

/-- The operations of a cache. -/
inductive PoiCacheOperation where
  | applyPoiEvents (events : List PoiSyncedListEvent)
  | applyPoiLeaves (startIndex : Nat) (leaves : List U256)
  | applyJournalDelta (delta : PoiCacheJournalDelta)
  | applyVerifiedArtifactEvents (events : List SnapshotEvent)
  | applyBlockedShields (blockedShields : List BlockedShield)
  | replaceBlockedShields (blockedShields : List BlockedShield)
  | currentRoots
  | acceptCurrentRoots
  | validateRoots (client : PoiRpcClient)
  | sync (client : PoiRpcClient)
  | syncWithPageSizes (client : PoiRpcClient) (eventPageSize leafPageSize : Nat)
  | syncBounded (client : PoiRpcClient) (eventPageSize leafPageSize maxEventPages : Nat)
  | syncBoundedWithJournal (client : PoiRpcClient)
      (eventPageSize leafPageSize maxEventPages : Nat)
  | syncEventsBoundedWithJournal (client : PoiRpcClient)
      (eventPageSize leafPageSize maxEventPages : Nat)
  | syncBlockedShieldsWithJournal (client : PoiRpcClient)
  | journalReplay (deltas : List PoiCacheJournalDelta)

/-- The cache after an operation, whether it returned an error or not. There is
    none when an operation that takes the cache has failed. -/
def PoiCacheOperation.apply (poseidon : U256 → U256 → U256) (externals : PoiCacheExternals)
    (operation : PoiCacheOperation) (cache : PoiCache) : Option PoiCache :=
  match operation with
  | applyPoiEvents events => some ((PoiCache.applyPoiEvents events).exec cache).2
  | applyPoiLeaves startIndex leaves =>
    some ((PoiCache.applyPoiLeaves startIndex leaves).exec cache).2
  | applyJournalDelta delta => some ((PoiCache.applyJournalDelta delta).exec cache).2
  | applyVerifiedArtifactEvents events =>
    some ((PoiCache.applyVerifiedArtifactEvents events).exec cache).2
  | applyBlockedShields blockedShields =>
    some ((PoiCache.applyBlockedShields externals.fromStrRadix blockedShields).exec cache).2
  | replaceBlockedShields blockedShields =>
    some ((PoiCache.replaceBlockedShields externals.fromStrRadix blockedShields).exec cache).2
  | currentRoots => some ((PoiCache.currentRoots poseidon).exec cache).2
  | acceptCurrentRoots => some ((PoiCache.acceptCurrentRoots poseidon).exec cache).2
  | validateRoots client => some ((PoiCache.validateRoots client poseidon).exec cache).2
  | sync client => some ((PoiCache.sync client externals).exec cache).2
  | syncWithPageSizes client eventPageSize leafPageSize =>
    some ((PoiCache.syncWithPageSizes client externals eventPageSize leafPageSize).exec cache).2
  | syncBounded client eventPageSize leafPageSize maxEventPages =>
    some ((PoiCache.syncBounded client externals eventPageSize leafPageSize
      maxEventPages).exec cache).2
  | syncBoundedWithJournal client eventPageSize leafPageSize maxEventPages =>
    (cache.syncBoundedWithJournal client externals eventPageSize leafPageSize
      maxEventPages).toOption.map Prod.fst
  | syncEventsBoundedWithJournal client eventPageSize leafPageSize maxEventPages =>
    (cache.syncEventsBoundedWithJournal client externals eventPageSize leafPageSize
      maxEventPages).toOption.map Prod.fst
  | syncBlockedShieldsWithJournal client =>
    (cache.syncBlockedShieldsWithJournal client externals).toOption.map Prod.fst
  | journalReplay deltas =>
    some ((cache.intoJournalReplay.applyDeltas poseidon deltas).finish poseidon)

/-- The cache after a sequence of operations. -/
def PoiCacheOperation.run (poseidon : U256 → U256 → U256) (externals : PoiCacheExternals)
    (operations : List PoiCacheOperation) (cache : PoiCache) : Option PoiCache :=
  operations.foldlM (fun cache operation => operation.apply poseidon externals cache) cache

end Railgun
