import Railgun.Core.PoiSync
import Railgun.Theory.Merkle

/-!
# The Steps of the Cache of Proofs of Innocence

Every operation on the cache is made of a few kinds of change: a status becomes
valid, a cursor is raised, a commitment is stored, a shield is blocked or all
of them are unblocked, roots are computed, and the computed roots are accepted
or rejected. An operation that fails part way has made some of its changes.

A property that each kind of change keeps is therefore kept by every operation,
however it ends, and by every run.

## Main definitions

* `PoiCache.withCommitment`: The cache with a commitment stored.
* `PoiCache.blockShield`, `PoiCache.withoutBlocked`: The cache with a shield
  blocked, and with none.
* `CacheStep`: One change.
* `Stable`: A property that every change keeps.

## Theorems

* `storeCommitment_exec`: Storing a commitment never fails.
* `syncBoundedCandidate_keeps`, `applyDelta_keeps`: What synchronization and
  replay keep.
* `apply_stable`: What one operation keeps.
* `run_stable`: What every run keeps.
-/

namespace Railgun

open PoiCache PoiCacheJournalReplay

theorem normalizeTreePosition_lt (treeNumber treePosition : Nat) :
    (normalizeTreePosition treeNumber treePosition).1 < 2 ^ 32 ∧
      (normalizeTreePosition treeNumber treePosition).2 < treeLeafCount :=
  ⟨Nat.mod_lt _ (Nat.two_pow_pos _), Nat.mod_lt _ (Nat.two_pow_pos _)⟩

/-- The position of an index. -/
def positionOf (globalIndex : Nat) : PoiCachePosition where
  globalIndex := globalIndex
  treeNumber := (normalizeTreePosition 0 globalIndex).1
  treePosition := (normalizeTreePosition 0 globalIndex).2

/-- The cache after a leaf is stored. -/
def PoiCache.withCommitment (cache : PoiCache) (globalIndex : Nat) (leaf : U256) : PoiCache :=
  let stored := { cache.setRootValidation .pending with
    forest := cache.forest.withLeaf (positionOf globalIndex).treeNumber
      (positionOf globalIndex).treePosition leaf }
  (stored.setPosition leaf (positionOf globalIndex)).setStatus leaf .valid

theorem insertLeaf_exec {update : MerkleTreeUpdate} (h : update.treePosition < treeLeafCount)
    (cache : PoiCache) :
    (insertLeaf update).exec cache
      = (.ok (), { cache.setRootValidation .pending with
          forest := cache.forest.withLeaf update.treeNumber update.treePosition update.hash }) := by
  simp only [insertLeaf, exec_bind, exec_modify, exec_get, exec_ofExcept,
    forest_insertLeaf_eq_ok _ h, Except.mapError]
  rfl

/-- Storing a commitment succeeds at every index. -/
theorem storeCommitment_exec (globalIndex : Nat) (leaf : U256) (cache : PoiCache) :
    (storeCommitment globalIndex leaf).exec cache
      = (.ok (), cache.withCommitment globalIndex leaf) := by
  rw [storeCommitment, exec_bind, insertLeaf_exec (normalizeTreePosition_lt 0 globalIndex).2]
  rfl

/-- The cache with a shield blocked. A commitment that is valid stays valid. -/
def PoiCache.blockShield (cache : PoiCache) (blindedCommitment : Bytes32)
    (blockedShield : BlockedShield) : PoiCache :=
  let blocked := { cache with
    blockedShieldsByBlindedCommitment :=
      cache.blockedShieldsByBlindedCommitment.insert blindedCommitment blockedShield }
  if blocked.status blindedCommitment ≠ .valid then
    blocked.setStatus blindedCommitment .shieldBlocked
  else
    blocked

/-- The cache without blocked shields. -/
def PoiCache.withoutBlocked (cache : PoiCache) : PoiCache :=
  cache.blockedShieldsByBlindedCommitment.keys.foldl clearBlocked
    { cache with blockedShieldsByBlindedCommitment := ∅ }

/-- All ways in which a cache changes. -/
inductive CacheStep (poseidon : U256 → U256 → U256) : PoiCache → PoiCache → Prop where
  | markValid (cache : PoiCache) (blindedCommitment : Bytes32) :
      CacheStep poseidon cache (cache.setStatus blindedCommitment .valid)
  | raiseEvents (cache : PoiCache) (index : Nat) :
      CacheStep poseidon cache (cache.raiseNextEventIndex index)
  | raiseLeaves (cache : PoiCache) (index : Nat) :
      CacheStep poseidon cache (cache.raiseNextLeafIndex index)
  | store (cache : PoiCache) (globalIndex : Nat) (leaf : U256) :
      CacheStep poseidon cache (cache.withCommitment globalIndex leaf)
  | block (cache : PoiCache) (blindedCommitment : Bytes32) (blockedShield : BlockedShield) :
      CacheStep poseidon cache (cache.blockShield blindedCommitment blockedShield)
  | unblock (cache : PoiCache) : CacheStep poseidon cache cache.withoutBlocked
  | blockedSynced (cache : PoiCache) :
      CacheStep poseidon cache
        { cache with progress := { cache.progress with blockedShieldsSynced := true } }
  | computeRoots (cache : PoiCache) :
      CacheStep poseidon cache { cache with forest := cache.forest.computeRoots poseidon }
  | judge (cache : PoiCache) (accepted : Bool) :
      CacheStep poseidon cache
        ({ cache with forest := cache.forest.computeRoots poseidon }.setRootValidation
          (if accepted then .validated (cache.forest.computeRoots poseidon).roots
            else .invalid (cache.forest.computeRoots poseidon).roots))

/-- No change breaks the invariant. -/
def Stable (poseidon : U256 → U256 → U256) (I : PoiCache → Prop) : Prop :=
  ∀ cache cache', CacheStep poseidon cache cache' → I cache → I cache'

section Stable

variable {poseidon : U256 → U256 → U256} {I : PoiCache → Prop} (hI : Stable poseidon I)

include hI

theorem storeCommitment_keeps (globalIndex : Nat) (leaf : U256) :
    Keeps I (storeCommitment globalIndex leaf) := by
  intro cache h
  rw [storeCommitment_exec]
  exact hI _ _ (.store cache globalIndex leaf) h

theorem applyEventCommitment_keeps (eventIndex : Nat) (blindedCommitment : Bytes32) :
    Keeps I (applyEventCommitment eventIndex blindedCommitment) := by
  refine keeps_modify_bind (fun cache => hI _ _ (.markValid cache _)) fun _ => ?_
  refine keeps_ofExcept_bind fun _ => ?_
  exact keeps_modify fun cache => hI _ _ (.raiseEvents cache _)

/-- One event after another. -/
theorem applyPoiEvents_keeps (events : List PoiSyncedListEvent) :
    Keeps I (applyPoiEvents events) :=
  keeps_bind (keeps_foldlM events (fun _ _ _ => applyEventCommitment_keeps hI _ _) ())
    fun _ => keeps_pure _

theorem applyPoiLeaves_keeps (startIndex : Nat) (leaves : List U256) :
    Keeps I (applyPoiLeaves startIndex leaves) := by
  refine keeps_foldlM _ (fun inserted entry _ => ?_) 0
  refine keeps_ofExcept_bind fun globalIndex => ?_
  refine keeps_bind (keeps_ite (keeps_bind (storeCommitment_keeps hI _ _) fun _ => keeps_pure _)
    (keeps_pure _)) fun _ => ?_
  refine keeps_ofExcept_bind fun _ => ?_
  refine keeps_modify_bind (fun cache => hI _ _ (.raiseLeaves cache _)) fun _ => ?_
  exact keeps_pure _

/-- A journal delta that is refused half way keeps it as well. -/
theorem applyJournalDelta_keeps (delta : PoiCacheJournalDelta) :
    Keeps I (applyJournalDelta delta) := by
  refine keeps_get_bind fun cache => ?_
  refine keeps_ofExcept_bind fun _ => ?_
  refine keeps_bind (keeps_foldlM _ (fun _ _ _ => applyEventCommitment_keeps hI _ _) ()) fun _ => ?_
  refine keeps_bind (applyPoiLeaves_keeps hI _ _) fun _ => ?_
  refine keeps_get_bind fun reached => ?_
  exact keeps_ite (keeps_throw _) (keeps_pure _)

theorem applyVerifiedArtifactEvents_keeps (events : List SnapshotEvent) :
    Keeps I (applyVerifiedArtifactEvents events) := by
  refine keeps_foldlM _ (fun inserted event _ => ?_) 0
  refine keeps_bind (storeCommitment_keeps hI _ _) fun _ => ?_
  refine keeps_ofExcept_bind fun _ => ?_
  refine keeps_modify_bind (fun cache => hI _ _ (.raiseEvents cache _)) fun _ => ?_
  refine keeps_ofExcept_bind fun _ => ?_
  refine keeps_modify_bind (fun cache => hI _ _ (.raiseLeaves cache _)) fun _ => ?_
  exact keeps_pure _

theorem applyBlockedShields_keeps (fromStrRadix : String → Nat → Option U256)
    (blockedShields : List BlockedShield) :
    Keeps I (applyBlockedShields fromStrRadix blockedShields) := by
  refine keeps_bind (keeps_foldlM _ (fun _ blockedShield _ => ?_) ()) fun _ => ?_
  · refine keeps_ofExcept_bind fun blindedCommitment => ?_
    exact fun cache => hI _ _ (.block cache blindedCommitment blockedShield)
  · exact keeps_modify_bind (fun cache => hI _ _ (.blockedSynced cache)) fun _ => keeps_pure _

theorem replaceBlockedShields_keeps (fromStrRadix : String → Nat → Option U256)
    (blockedShields : List BlockedShield) :
    Keeps I (replaceBlockedShields fromStrRadix blockedShields) :=
  fun cache h => applyBlockedShields_keeps hI fromStrRadix blockedShields cache.withoutBlocked
    (hI _ _ (.unblock cache) h)

theorem currentRoots_keeps : Keeps I (currentRoots poseidon) :=
  fun cache => hI _ _ (.computeRoots cache)

theorem acceptCurrentRoots_keeps : Keeps I (acceptCurrentRoots poseidon) :=
  fun cache => hI _ _ (.judge cache true)

theorem validateRoots_keeps (client : PoiRpcClient) :
    Keeps I (validateRoots client poseidon) := by
  intro cache h
  have hroots : (currentRoots poseidon).exec cache
      = (.ok (cache.forest.computeRoots poseidon).roots,
        { cache with forest := cache.forest.computeRoots poseidon }) := rfl
  rw [validateRoots, exec_bind_of_ok hroots, exec_bind_of_ok (exec_get _)]
  obtain ⟨answer, hanswer⟩ : ∃ answer : Except PoiCacheError Bool,
      (if (cache.forest.computeRoots poseidon).roots.values.isEmpty = true then pure false
        else ofExcept ((client.validatePoiMerkleroots cache.identity
          (cache.forest.computeRoots poseidon).roots.values).mapError .rpc) : CacheM Bool)
        = ofExcept answer := by
    split
    · exact ⟨.ok false, rfl⟩
    · exact ⟨_, rfl⟩
  rw [hanswer, exec_bind, exec_ofExcept]
  cases answer with
  | error error => exact hI _ _ (.computeRoots cache) h
  | ok accepted => exact hI _ _ (.judge cache accepted) h

section Sync

variable (client : PoiRpcClient) (externals : PoiCacheExternals)

/-- By induction over the pages. -/
theorem syncEventPages_keeps (eventPageSize pages : Nat) (sync : PoiCacheSyncState) :
    Keeps I (syncEventPages client externals eventPageSize pages sync) := by
  induction pages generalizing sync with
  | zero => exact keeps_pure sync
  | succ pages ih =>
    refine keeps_get_bind fun cache => ?_
    refine keeps_ofExcept_bind fun endIndex => ?_
    refine keeps_ofExcept_bind fun events => ?_
    refine keeps_ite (keeps_throw _) (keeps_ite (keeps_pure _) ?_)
    refine keeps_ofExcept_bind fun sync => ?_
    refine keeps_bind (applyPoiEvents_keeps hI events) fun applied => ?_
    exact keeps_ite (keeps_pure _) (keeps_ite (keeps_pure _) (ih _))

theorem syncLeafPages_keeps (leafPageSize pages : Nat) (sync : PoiCacheSyncState) :
    Keeps I (syncLeafPages client leafPageSize pages sync) := by
  induction pages generalizing sync with
  | zero => exact keeps_pure sync
  | succ pages ih =>
    refine keeps_get_bind fun cache => ?_
    refine keeps_ite ?_ (keeps_pure _)
    refine keeps_ofExcept_bind fun endIndex => ?_
    refine keeps_ofExcept_bind fun leaves => ?_
    refine keeps_ite (keeps_throw _) ?_
    refine keeps_ofExcept_bind fun _ => ?_
    refine keeps_ofExcept_bind fun eventCommitments => ?_
    exact keeps_bind (applyPoiLeaves_keeps hI _ leaves) fun applied => ih _

theorem syncEventsAndLeaves_keeps (eventPageSize leafPageSize maxEventPages : Nat) :
    Keeps I (syncEventsAndLeaves client externals eventPageSize leafPageSize maxEventPages) := by
  refine keeps_bind (syncEventPages_keeps hI client externals _ _ _) fun sync => ?_
  refine keeps_get_bind fun cache => ?_
  refine keeps_bind (syncLeafPages_keeps hI client _ _ _) fun sync => ?_
  split
  · exact keeps_throw _
  · exact keeps_pure _

theorem syncBlockedShields_keeps (scope : PoiCacheSyncScope) :
    Keeps I (syncBlockedShields client externals scope) := by
  refine keeps_get_bind fun previous => ?_
  refine keeps_ofExcept_bind fun blockedShields => ?_
  refine keeps_bind (replaceBlockedShields_keeps hI _ blockedShields) fun applied => ?_
  refine keeps_get_bind fun cache => ?_
  exact keeps_pure _

theorem syncBoundedCandidate_keeps (eventPageSize leafPageSize maxEventPages : Nat)
    (scope : PoiCacheSyncScope) :
    Keeps I (syncBoundedCandidate client externals eventPageSize
      leafPageSize maxEventPages scope) := by
  refine keeps_get_bind fun start => ?_
  refine keeps_ite (keeps_throw _) (keeps_ite (keeps_throw _) ?_)
  refine keeps_bind (keeps_ite (syncEventsAndLeaves_keeps hI client externals _ _ _)
    (keeps_pure _)) fun sync => ?_
  refine keeps_bind (keeps_ite (keeps_bind (syncBlockedShields_keeps hI client externals scope)
    fun _ => keeps_pure _) (keeps_pure _)) fun blocked => ?_
  refine keeps_get_bind fun cache => ?_
  exact keeps_pure _

theorem syncBounded_keeps (eventPageSize leafPageSize maxEventPages : Nat) :
    Keeps I (syncBounded client externals eventPageSize leafPageSize maxEventPages) := by
  intro cache h
  have hreached := syncBoundedCandidate_keeps hI client externals eventPageSize leafPageSize
    maxEventPages .full cache h
  rw [syncBounded, exec_bind, exec_get]
  dsimp only
  generalize (syncBoundedCandidate client externals eventPageSize leafPageSize
    maxEventPages .full).exec cache = reached at hreached ⊢
  obtain ⟨result, synced⟩ := reached
  cases result with
  | ok result => exact hreached
  | error error => exact h

/-- A sync works on a copy, which is kept when it succeeds. -/
theorem syncWithJournal_stable {cache synced : PoiCache} (h : I cache)
    {eventPageSize leafPageSize maxEventPages : Nat} {scope : PoiCacheSyncScope}
    (hsync : (cache.syncWithJournal client externals eventPageSize leafPageSize maxEventPages
      scope).toOption.map Prod.fst = some synced) : I synced := by
  have hreached := syncBoundedCandidate_keeps hI client externals eventPageSize leafPageSize
    maxEventPages scope cache h
  rw [syncWithJournal] at hsync
  generalize (syncBoundedCandidate client externals eventPageSize leafPageSize
    maxEventPages scope).exec cache = reached at hreached hsync
  obtain ⟨result, after⟩ := reached
  cases result with
  | error error => exact absurd hsync (by simp [Except.map, Except.toOption])
  | ok result =>
    rw [← Option.some.inj hsync]
    exact hreached

end Sync

/-- The invariant of a replay is that of its cache. -/
def OfReplay (I : PoiCache → Prop) (replay : PoiCacheJournalReplay) : Prop := I replay.cache

omit hI in
theorem onCache_exec {α : Type} (x : CacheM α) (replay : PoiCacheJournalReplay) :
    (onCache x).exec replay
      = ((x.exec replay.cache).1, { replay with cache := (x.exec replay.cache).2 }) := by
  rw [onCache, exec_bind_of_ok (exec_get replay)]
  generalize x.exec replay.cache = reached
  obtain ⟨result, cache⟩ := reached
  cases result with
  | ok a => rfl
  | error error => rfl

omit hI in
/-- A step on the cache of a replay. -/
theorem onCache_keeps {α : Type} {x : CacheM α} (hx : Keeps I x) :
    Keeps (OfReplay I) (onCache x) := by
  intro replay h
  rw [onCache_exec]
  exact hx replay.cache h

omit hI in
theorem setLeaves_keeps (leafStartCursor : Nat) (leaves : List Bytes32) :
    Keeps (OfReplay I) (setLeaves poseidon leafStartCursor leaves) := by
  refine keeps_foldlM _ (fun _ entry _ => keeps_ite (keeps_pure _) ?_) ()
  refine keeps_ofExcept_bind fun globalIndex => ?_
  exact keeps_modify fun _ h => h

theorem applyDelta_keeps (delta : PoiCacheJournalDelta) :
    Keeps (OfReplay I) (applyDelta poseidon delta) := by
  refine keeps_get_bind fun replay => keeps_ite (keeps_throw _) ?_
  refine keeps_bind (onCache_keeps (applyJournalDelta_keeps hI delta)) fun _ => ?_
  refine keeps_bind (keeps_ite (setLeaves_keeps _ _)
    (keeps_ite (keeps_modify fun _ h => h) (keeps_pure _))) fun _ => ?_
  refine keeps_get_bind fun reached => ?_
  exact keeps_ofExcept _

theorem applyDeltas_stable {replay : PoiCacheJournalReplay} (h : OfReplay I replay)
    (deltas : List PoiCacheJournalDelta) :
    OfReplay I (replay.applyDeltas poseidon deltas) :=
  List.foldlRecOn _ _ h fun reached hreached delta _ => applyDelta_keeps hI delta reached hreached

/-- Every operation keeps what the steps keep. -/
theorem apply_stable (externals : PoiCacheExternals) {cache cache' : PoiCache}
    (h : I cache) (operation : PoiCacheOperation)
    (happly : operation.apply poseidon externals cache = some cache') :
    I cache' := by
  cases operation with
  | applyPoiEvents events =>
    exact (applyPoiEvents_keeps hI events).of_exec_eq h happly
  | applyPoiLeaves startIndex leaves =>
    exact (applyPoiLeaves_keeps hI startIndex leaves).of_exec_eq h happly
  | applyJournalDelta delta =>
    exact (applyJournalDelta_keeps hI delta).of_exec_eq h happly
  | applyVerifiedArtifactEvents events =>
    exact (applyVerifiedArtifactEvents_keeps hI events).of_exec_eq h happly
  | applyBlockedShields blockedShields =>
    exact (applyBlockedShields_keeps hI _ blockedShields).of_exec_eq h happly
  | replaceBlockedShields blockedShields =>
    exact (replaceBlockedShields_keeps hI _ blockedShields).of_exec_eq h happly
  | currentRoots =>
    exact (currentRoots_keeps hI).of_exec_eq h happly
  | acceptCurrentRoots =>
    exact (acceptCurrentRoots_keeps hI).of_exec_eq h happly
  | validateRoots client =>
    exact (validateRoots_keeps hI client).of_exec_eq h happly
  | sync client =>
    exact (syncBounded_keeps hI client externals _ _ _).of_exec_eq h happly
  | syncWithPageSizes client eventPageSize leafPageSize =>
    exact (syncBounded_keeps hI client externals _ _ _).of_exec_eq h happly
  | syncBounded client eventPageSize leafPageSize maxEventPages =>
    exact (syncBounded_keeps hI client externals _ _ _).of_exec_eq h happly
  | syncBoundedWithJournal client eventPageSize leafPageSize maxEventPages =>
    exact syncWithJournal_stable hI client externals h happly
  | syncEventsBoundedWithJournal client eventPageSize leafPageSize maxEventPages =>
    exact syncWithJournal_stable hI client externals h happly
  | syncBlockedShieldsWithJournal client =>
    exact syncWithJournal_stable hI client externals h happly
  | journalReplay deltas =>
    have hreplay : OfReplay I cache.intoJournalReplay := h
    exact (acceptCurrentRoots_keeps hI).of_exec_eq (applyDeltas_stable hI hreplay deltas) happly

/-- So does every sequence of operations. -/
theorem run_stable (externals : PoiCacheExternals) (operations : List PoiCacheOperation)
    {cache cache' : PoiCache} (h : I cache)
    (hrun : PoiCacheOperation.run poseidon externals operations cache = some cache') :
    I cache' := by
  induction operations generalizing cache with
  | nil =>
    rw [← Option.some.inj hrun]
    exact h
  | cons operation operations ih =>
    rw [PoiCacheOperation.run, List.foldlM_cons, Option.bind_eq_bind,
      Option.bind_eq_some_iff] at hrun
    obtain ⟨next, happly, hrest⟩ := hrun
    exact ih (apply_stable hI externals h operation happly) hrest

end Stable

/-- The identity of a list. -/
def someIdentity : PoiCacheIdentity where
  chainType := 0
  chainId := 1
  txidVersion := "V2_PoseidonMerkle"
  listKey := 17

end Railgun
