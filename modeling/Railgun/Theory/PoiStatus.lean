import Railgun.Theory.Journal
import Railgun.Theory.PoiBlocked

/-!
# The Meaning of a Status

One map holds the statuses that events and leaves give and those that blocked
shields give. Events and leaves write `valid` over whatever is there. A blocked
shield writes `shieldBlocked` unless the commitment is valid, and taking the
list of blocked shields back erases only what it wrote.

So a status says which commitments have occurred and which are blocked, and
nothing about the order: valid when the commitment has occurred, else blocked
when the map of blocked shields has it, else missing.

## Main definitions

* `PoiIngestion`: The four ways events and leaves get into a cache.

## Theorems

* `applyVerifiedArtifactEvents_eq_ok`: When the events of an artifact are applied.
* `ingestion_marks`: What an ingestion that succeeds has done.
* `poiStatus_meaning`: The statuses after any run.
-/

namespace Railgun

open PoiCache

/-- The cache after a verified event of an artifact. -/
def PoiCache.withArtifactEvent (cache : PoiCache) (event : SnapshotEvent) : PoiCache :=
  ((cache.withCommitment event.eventIndex event.blindedCommitment).raiseNextEventIndex
    (event.eventIndex + 1)).raiseNextLeafIndex (event.eventIndex + 1)

variable {cache cache' : PoiCache} {count : Nat}

/-- One step of the loop over the events of an artifact. -/
def PoiCache.applyArtifactEvent (inserted : Nat) (event : SnapshotEvent) : CacheM Nat := do
  storeCommitment event.eventIndex event.blindedCommitment
  let next ← ofExcept (nextIndex event.eventIndex)
  modify fun cache => cache.raiseNextEventIndex next
  let next ← ofExcept (nextIndex event.eventIndex)
  modify fun cache => cache.raiseNextLeafIndex next
  return inserted + 1

/-- An event of an artifact is applied when its index has a successor. -/
theorem applyArtifactEvent_eq_ok {inserted inserted' : Nat} {event : SnapshotEvent} :
    (applyArtifactEvent inserted event).exec cache = (.ok inserted', cache') ↔
      event.eventIndex + 1 < 2 ^ 64 ∧ inserted' = inserted + 1 ∧
        cache' = cache.withArtifactEvent event := by
  rw [applyArtifactEvent, exec_bind_of_ok (storeCommitment_exec _ _ _)]
  simp only [exec_ofExcept_bind_eq_ok, nextIndex_eq_ok, and_assoc, exists_and_left, exists_eq_left,
    exec_bind_of_ok (exec_modify _ _), exec_pure_eq_ok, eq_comm (a := inserted'),
    eq_comm (a := cache')]
  exact ⟨fun h => h.2, fun h => ⟨h.1, h⟩⟩

theorem applyVerifiedArtifactEvents_eq_ok {events : List SnapshotEvent} :
    (PoiCache.applyVerifiedArtifactEvents events).exec cache = (.ok count, cache') ↔
      (∀ event ∈ events, event.eventIndex + 1 < 2 ^ 64) ∧
        count = events.foldl (fun inserted _ => inserted + 1) 0 ∧
        cache' = events.foldl withArtifactEvent cache :=
  exec_foldlM_eq_ok (f := applyArtifactEvent) (fun _ _ _ _ _ => applyArtifactEvent_eq_ok) events 0
    cache count cache'

/-- A change that gives some commitments the status valid, and leaves every other
    status and the blocked shields alone. -/
structure Marks (marked : List Bytes32) (cache cache' : PoiCache) : Prop where
  status : ∀ commitment : Bytes32, cache'.statusByBlindedCommitment[commitment]?
    = if commitment ∈ marked then some .valid else cache.statusByBlindedCommitment[commitment]?
  blocked : cache'.blockedShieldsByBlindedCommitment = cache.blockedShieldsByBlindedCommitment

theorem Marks.refl (cache : PoiCache) : Marks [] cache cache where
  status := fun _ => (if_neg List.not_mem_nil).symm
  blocked := rfl

/-- Changes one after another give the status to the commitments of both. -/
theorem Marks.trans {marked marked' : List Bytes32} {cache'' : PoiCache}
    (h : Marks marked cache cache') (h' : Marks marked' cache' cache'') :
    Marks (marked ++ marked') cache cache'' where
  status := by
    intro commitment
    rw [h'.status, h.status]
    simp only [List.mem_append, or_comm (a := commitment ∈ marked), ite_or]
  blocked := h'.blocked.trans h.blocked

/-- A loop gives the status to the commitments of all its steps. -/
theorem marks_foldl {α : Type} {next : PoiCache → α → PoiCache} {marked : α → List Bytes32}
    (h : ∀ cache a, Marks (marked a) cache (next cache a)) (l : List α) (cache : PoiCache) :
    Marks (l.flatMap marked) cache (l.foldl next cache) := by
  induction l generalizing cache with
  | nil => exact Marks.refl cache
  | cons a l ih =>
    exact (h cache a).trans (ih (next cache a))

theorem marks_setStatus (cache : PoiCache) (commitment : Bytes32) :
    Marks [commitment] cache (cache.setStatus commitment .valid) where
  status := by
    intro other
    rw [getElem?_setStatus]
    simp only [List.mem_singleton, eq_comm]
  blocked := rfl

theorem marks_withEvent (cache : PoiCache) (event : PoiCacheJournalEvent) :
    Marks [event.blindedCommitment] cache (cache.withEvent event) :=
  ⟨(marks_setStatus cache event.blindedCommitment).status, rfl⟩

theorem marks_withCommitment (cache : PoiCache) (index : Nat) (leaf : U256) :
    Marks [leaf] cache (cache.withCommitment index leaf) :=
  ⟨(marks_setStatus cache leaf).status, rfl⟩

theorem marks_withArtifactEvent (cache : PoiCache) (event : SnapshotEvent) :
    Marks [event.blindedCommitment] cache (cache.withArtifactEvent event) :=
  ⟨(marks_withCommitment cache event.eventIndex event.blindedCommitment).status, rfl⟩

/-- The leaves that are stored: all but zero. -/
def nonzeroLeaves (leaves : List U256) : List Bytes32 := leaves.filter fun leaf => leaf ≠ 0

theorem marks_withLeaf (cache : PoiCache) (index : Nat) (leaf : U256) :
    Marks (nonzeroLeaves [leaf]) cache (cache.withLeaf index leaf) := by
  rw [nonzeroLeaves, withLeaf]
  by_cases hzero : leaf = 0
  · rw [List.filter_cons_of_neg (by simp [hzero]), List.filter_nil, if_neg (not_not_intro hzero)]
    exact ⟨(Marks.refl cache).status, rfl⟩
  · rw [List.filter_cons_of_pos (by exact decide_eq_true hzero), List.filter_nil, if_pos hzero]
    exact ⟨(marks_withCommitment cache index leaf).status, rfl⟩

theorem marks_withLeaves (leaves : List U256) (cache : PoiCache) (start : Nat) :
    Marks (nonzeroLeaves leaves) cache (cache.withLeaves start leaves) := by
  induction leaves generalizing cache start with
  | nil => exact Marks.refl cache
  | cons leaf leaves ih =>
    have hsplit : nonzeroLeaves (leaf :: leaves)
        = nonzeroLeaves [leaf] ++ nonzeroLeaves leaves := by
      rw [nonzeroLeaves, ← List.singleton_append, List.filter_append]
      rfl
    rw [hsplit, withLeaves]
    exact (marks_withLeaf cache start leaf).trans (ih _ _)

/-- A delta gives the status to its events and to its leaves that are not zero. -/
theorem marks_withDelta (cache : PoiCache) (delta : PoiCacheJournalDelta) :
    Marks (delta.events.flatMap (fun event => [event.blindedCommitment])
      ++ nonzeroLeaves delta.leaves) cache (cache.withDelta delta) :=
  (marks_foldl marks_withEvent delta.events cache).trans (marks_withLeaves _ _ _)

/-- The ways commitments get into a cache. -/
inductive PoiIngestion where
  | applyPoiEvents (events : List PoiSyncedListEvent)
  | applyPoiLeaves (startIndex : Nat) (leaves : List U256)
  | applyJournalDelta (delta : PoiCacheJournalDelta)
  | applyVerifiedArtifactEvents (events : List SnapshotEvent)

/-- The ingestion succeeds and leads from one cache to another. -/
def PoiIngestion.Succeeds (ingestion : PoiIngestion) (cache cache' : PoiCache) : Prop :=
  match ingestion with
  | applyPoiEvents events =>
    ∃ count, (PoiCache.applyPoiEvents events).exec cache = (.ok count, cache')
  | applyPoiLeaves startIndex leaves =>
    ∃ count, (PoiCache.applyPoiLeaves startIndex leaves).exec cache = (.ok count, cache')
  | applyJournalDelta delta => (PoiCache.applyJournalDelta delta).exec cache = (.ok (), cache')
  | applyVerifiedArtifactEvents events =>
    ∃ count, (PoiCache.applyVerifiedArtifactEvents events).exec cache = (.ok count, cache')

/-- The commitments that occur in an ingestion: those of its events, and its
    leaves that are not zero. -/
def PoiIngestion.commitments : PoiIngestion → List Bytes32
  | applyPoiEvents events => events.map fun event => event.signedPoiEvent.blindedCommitment
  | applyPoiLeaves _ leaves => nonzeroLeaves leaves
  | applyJournalDelta delta =>
    delta.events.map (fun event => event.blindedCommitment) ++ nonzeroLeaves delta.leaves
  | applyVerifiedArtifactEvents events => events.map fun event => event.blindedCommitment

/-- The caches that ingestions and lists of blocked shields lead to from an empty
    one, with the commitments that have occurred and those on the lists. A list of
    blocked shields may fail part way. -/
inductive StatusRun (fromStrRadix : String → Nat → Option U256) (identity : PoiCacheIdentity) :
    PoiCache → List Bytes32 → List Bytes32 → Prop where
  | new : StatusRun fromStrRadix identity (PoiCache.new identity) [] []
  | ingest {cache cache' : PoiCache} {occurred listed : List Bytes32} (ingestion : PoiIngestion) :
      StatusRun fromStrRadix identity cache occurred listed → ingestion.Succeeds cache cache' →
      StatusRun fromStrRadix identity cache' (occurred ++ ingestion.commitments) listed
  | applyBlockedShields {cache : PoiCache} {occurred listed : List Bytes32}
      (blockedShields : List BlockedShield) :
      StatusRun fromStrRadix identity cache occurred listed →
      StatusRun fromStrRadix identity
        ((applyBlockedShields fromStrRadix blockedShields).exec cache).2 occurred
        (listed ++ (readableShields fromStrRadix blockedShields).map Prod.fst)
  | replaceBlockedShields {cache : PoiCache} {occurred listed : List Bytes32}
      (blockedShields : List BlockedShield) :
      StatusRun fromStrRadix identity cache occurred listed →
      StatusRun fromStrRadix identity
        ((replaceBlockedShields fromStrRadix blockedShields).exec cache).2 occurred
        ((readableShields fromStrRadix blockedShields).map Prod.fst)

/-- An ingestion that succeeds gives the status to its commitments. -/
theorem ingestion_marks {ingestion : PoiIngestion}
    (h : ingestion.Succeeds cache cache') : Marks ingestion.commitments cache cache' := by
  cases ingestion with
  | applyPoiEvents events =>
    obtain ⟨count, hexec⟩ := h
    obtain ⟨_, reached, hloop, hrest⟩ := exec_bind_eq_ok.mp hexec
    rw [← (exec_pure_eq_ok.mp hrest).2, ((applyEvents_eq_ok fun event : PoiSyncedListEvent =>
      ⟨event.signedPoiEvent.index, event.signedPoiEvent.blindedCommitment⟩).mp hloop).2, withEvents,
      List.foldl_map, PoiIngestion.commitments, List.map_eq_flatMap]
    exact marks_foldl (fun cache event => marks_withEvent cache
      ⟨event.signedPoiEvent.index, event.signedPoiEvent.blindedCommitment⟩) events cache
  | applyPoiLeaves startIndex leaves =>
    obtain ⟨count, hexec⟩ := h
    rw [(applyPoiLeaves_eq_ok.mp hexec).2.2]
    exact marks_withLeaves leaves cache startIndex
  | applyJournalDelta delta =>
    have hexec : (PoiCache.applyJournalDelta delta).exec cache = (.ok (), cache') := h
    rw [applyJournalDelta_exec] at hexec
    cases hcheck : cache.checkJournalDelta delta with
    | error error =>
      rw [hcheck] at hexec
      cases hexec
    | ok _ =>
      rw [hcheck] at hexec
      rw [← (Prod.mk.inj hexec).2, PoiIngestion.commitments, List.map_eq_flatMap]
      exact marks_withDelta cache delta
  | applyVerifiedArtifactEvents events =>
    obtain ⟨count, hexec⟩ := h
    rw [(applyVerifiedArtifactEvents_eq_ok.mp hexec).2.2, PoiIngestion.commitments,
      List.map_eq_flatMap]
    exact marks_foldl marks_withArtifactEvent events cache

local instance lawfulBEq_bytes32 : LawfulBEq Bytes32 := inferInstance

/-- Valid when the commitment has occurred, else blocked when it is on the list,
    else without a status. -/
def StatusMeans (occurred : List Bytes32) (cache : PoiCache) : Prop :=
  ∀ commitment : Bytes32, cache.statusByBlindedCommitment[commitment]?
    = if commitment ∈ occurred then some .valid
      else if commitment ∈ cache.blockedShieldsByBlindedCommitment then some .shieldBlocked
      else none

theorem statusMeans_new (identity : PoiCacheIdentity) :
    StatusMeans [] (PoiCache.new identity) := by
  intro commitment
  exact Std.ExtTreeMap.getElem?_empty

variable {occurred : List Bytes32}

theorem StatusMeans.marks {marked : List Bytes32}
    (h : StatusMeans occurred cache) (hmarks : Marks marked cache cache') :
    StatusMeans (occurred ++ marked) cache' := by
  intro commitment
  rw [hmarks.status, h commitment, hmarks.blocked]
  simp [or_comm (a := commitment ∈ occurred), ite_or]

/-- Valid are the commitments that have occurred. -/
theorem StatusMeans.valid_iff
    (h : StatusMeans occurred cache) (commitment : Bytes32) :
    cache.status commitment = .valid ↔ commitment ∈ occurred := by
  rw [status_eq_iff (by decide), h commitment]
  split_ifs with hmem hblocked <;> simp [hmem]

theorem StatusMeans.blockShield
    (h : StatusMeans occurred cache) (key : Bytes32) (shield : BlockedShield) :
    StatusMeans occurred (cache.blockShield key shield) := by
  intro commitment
  rw [getElem?_status_blockShield, h commitment]
  simp only [mem_blockShield, ne_eq, h.valid_iff commitment]
  by_cases hoccurred : commitment ∈ occurred
  · rw [if_pos hoccurred, if_pos hoccurred, if_neg fun hblock => hblock.2 hoccurred]
  · rw [if_neg hoccurred, if_neg hoccurred]
    by_cases hkey : key = commitment
    · rw [if_pos ⟨hkey, hoccurred⟩, if_pos (Or.inl hkey)]
    · simp only [hkey, false_and, if_false, false_or]

/-- Taking all blocked shields off the list keeps the meaning. -/
theorem StatusMeans.withoutBlocked
    (h : StatusMeans occurred cache) : StatusMeans occurred cache.withoutBlocked := by
  intro commitment
  have hold := h commitment
  have hvalid := h.valid_iff commitment
  rw [getElem?_status_withoutBlocked, withoutBlocked_blocked, if_neg Std.ExtTreeMap.not_mem_empty]
  split_ifs at hold ⊢ with hboth hoccurred hlisted
  all_goals simp_all [status_eq_iff]

theorem StatusMeans.applyBlockedShields {fromStrRadix : String → Nat → Option U256}
    (h : StatusMeans occurred cache) (blockedShields : List BlockedShield) :
    StatusMeans occurred
      ((PoiCache.applyBlockedShields fromStrRadix blockedShields).exec cache).2 := by
  obtain ⟨synced, hsnd, -⟩ := applyBlockedShields_snd fromStrRadix blockedShields cache
  have hblocked : StatusMeans occurred
      (cache.withBlocked (readableShields fromStrRadix blockedShields)) :=
    List.foldlRecOn _ _ h fun _ hreached entry _ => hreached.blockShield entry.1 entry.2
  rw [hsnd]
  exact hblocked

section Runs

variable {fromStrRadix : String → Nat → Option U256} {identity : PoiCacheIdentity}
  {listed : List Bytes32}

/-- The statuses have their meaning after every run. -/
theorem statusRun_means (h : StatusRun fromStrRadix identity cache occurred listed) :
    StatusMeans occurred cache := by
  induction h with
  | new => exact statusMeans_new identity
  | ingest ingestion _ hsucceeds ih => exact ih.marks (ingestion_marks hsucceeds)
  | applyBlockedShields blockedShields _ ih => exact ih.applyBlockedShields blockedShields
  | replaceBlockedShields blockedShields _ ih =>
    exact ih.withoutBlocked.applyBlockedShields blockedShields

/-- The blocked shields are those of the last list that replaced the others, and of
    the lists that came after it. -/
theorem statusRun_listed (h : StatusRun fromStrRadix identity cache occurred listed)
    (commitment : Bytes32) :
    commitment ∈ cache.blockedShieldsByBlindedCommitment ↔ commitment ∈ listed := by
  have happly : ∀ (blockedShields : List BlockedShield) (cache : PoiCache),
      commitment ∈ ((applyBlockedShields fromStrRadix blockedShields).exec
          cache).2.blockedShieldsByBlindedCommitment ↔
        commitment ∈ (readableShields fromStrRadix blockedShields).map Prod.fst ∨
          commitment ∈ cache.blockedShieldsByBlindedCommitment := by
    intro blockedShields cache
    obtain ⟨synced, hsnd, -⟩ := applyBlockedShields_snd fromStrRadix blockedShields cache
    rw [hsnd]
    exact mem_withBlocked _ _ _
  induction h with
  | new => exact iff_of_false Std.ExtTreeMap.not_mem_empty List.not_mem_nil
  | ingest ingestion _ hsucceeds ih =>
    rw [(ingestion_marks hsucceeds).blocked]
    exact ih
  | applyBlockedShields blockedShields _ ih =>
    rw [happly, List.mem_append, or_comm]
    exact or_congr_left ih
  | @replaceBlockedShields cache _ _ blockedShields _ _ =>
    refine (happly blockedShields cache.withoutBlocked).trans ?_
    rw [withoutBlocked_blocked, or_iff_left Std.ExtTreeMap.not_mem_empty]

end Runs

/-- After any run from an empty cache a commitment is valid exactly when it has
    occurred, else blocked exactly when it is among the blocked shields, else missing,
    and these are the shields on the lists. Runs in which the same commitments have
    occurred and the same are blocked give the same statuses, in whatever order that
    came about, and another list of blocked shields, taken over fully or in part,
    revokes no validity. -/
theorem poiStatus_meaning (fromStrRadix : String → Nat → Option U256)
    (identity : PoiCacheIdentity) (cache : PoiCache) (occurred listed : List Bytes32)
    (h : StatusRun fromStrRadix identity cache occurred listed) :
    (∀ commitment, commitment ∈ cache.blockedShieldsByBlindedCommitment ↔ commitment ∈ listed) ∧
    (∀ commitment, (cache.status commitment = .valid ↔ commitment ∈ occurred) ∧
      (commitment ∉ occurred → (cache.status commitment = .shieldBlocked ↔
        commitment ∈ cache.blockedShieldsByBlindedCommitment)) ∧
      (commitment ∉ occurred → commitment ∉ cache.blockedShieldsByBlindedCommitment →
        cache.status commitment = .missing)) ∧
    (∀ (other : PoiCache) (occurred' listed' : List Bytes32),
      StatusRun fromStrRadix identity other occurred' listed' →
      (∀ commitment, commitment ∈ occurred ↔ commitment ∈ occurred') →
      (∀ commitment, commitment ∈ cache.blockedShieldsByBlindedCommitment ↔
        commitment ∈ other.blockedShieldsByBlindedCommitment) →
      ∀ commitment, cache.status commitment = other.status commitment) ∧
    ∀ (blockedShields : List BlockedShield) (commitment : Bytes32),
      cache.status commitment = .valid →
      ((applyBlockedShields fromStrRadix blockedShields).exec cache).2.status commitment
          = .valid ∧
        ((replaceBlockedShields fromStrRadix blockedShields).exec cache).2.status
          commitment = .valid := by
  have hmeans := statusRun_means h
  refine ⟨statusRun_listed h, fun commitment => ⟨hmeans.valid_iff commitment, ?_, ?_⟩, ?_, ?_⟩
  · intro hoccurred
    rw [status_eq_iff (by decide), hmeans commitment, if_neg hoccurred]
    split_ifs with hblocked <;> simp [hblocked]
  · intro hoccurred hblocked
    rw [status, hmeans commitment, if_neg hoccurred, if_neg hblocked, Option.getD_none]
  · intro other occurred' listed' hother hsame hblocked commitment
    rw [status, status, hmeans commitment, statusRun_means hother commitment]
    simp only [hsame commitment, hblocked commitment]
  · intro blockedShields commitment hvalid
    rw [hmeans.valid_iff] at hvalid
    exact ⟨((statusRun_means (h.applyBlockedShields blockedShields)).valid_iff _).mpr hvalid,
      ((statusRun_means (h.replaceBlockedShields blockedShields)).valid_iff _).mpr hvalid⟩

/-- Two texts that are read as commitments. -/
def readSevenNine (text : String) (_ : Nat) : Option U256 := if text = "7" then some 7 else some 9

/-- Two shields are blocked, then one of them occurs in an event and is taken off the
    list: its commitment stays valid, the other is blocked, and no third has a status. -/
theorem poiStatus_meaning_unblocked : ∃ cache,
    StatusRun readSevenNine someIdentity cache [7] [9] ∧ cache.status 7 = .valid ∧
      cache.status 9 = .shieldBlocked ∧ cache.status 8 = .missing := by
  have hnew : StatusRun readSevenNine someIdentity (PoiCache.new someIdentity) [] [] := .new
  have hvalid := (hnew.applyBlockedShields [⟨"", "7", none, ""⟩, ⟨"", "9", none, ""⟩]).ingest
    (.applyVerifiedArtifactEvents [⟨0, 7, [], .shield⟩]) ⟨1, rfl⟩
  have hrun := hvalid.replaceBlockedShields [⟨"", "9", none, ""⟩]
  obtain ⟨hlisted, hmeaning, -, -⟩ := poiStatus_meaning _ _ _ _ _ hrun
  exact ⟨_, hrun, (hmeaning 7).1.mpr (by decide),
    ((hmeaning 9).2.1 (by decide)).mpr ((hlisted 9).mpr (by decide)),
    (hmeaning 8).2.2 (by decide) fun hmem => absurd ((hlisted 8).mp hmem) (by decide)⟩

end Railgun
